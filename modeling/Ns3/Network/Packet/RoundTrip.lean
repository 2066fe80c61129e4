import Ns3.Network.Packet

namespace Ns3

open ByteFormat

namespace Packet

/-- Sections that are written one after the other. The bound is compared with the sizes that are
counted, not with the cells. -/
def put_sections (maxSize : ℕ) : List (ℕ × List Cell) → Output → Except (List Cell) Output
  | [], o => .ok o
  | s :: sections, o =>
    if o.size + s.1 ≤ maxSize then put_sections maxSize sections ⟨o.cells ++ s.2, o.size + s.1⟩
    else .error o.cells

theorem write_section_eq {M n : ℕ} {serialize : ℕ → Except (List Cell) (List Cell)} {c : List Cell}
    (hserialize : serialize n = .ok c) (hn : 4 ∣ n) (o : Output) :
    write_section M n serialize o =
      if o.size + n ≤ M then .ok ⟨o.cells ++ (word (UInt32.ofNat (n + 4)) ++ c), o.size + n⟩
      else .error o.cells := by
  rw [write_section, hserialize]
  simp [align_of_dvd hn]

/-- The sections of a packet: what the check counts, and the cells with the length word. -/
def sections (m : IidManager) (p : Packet) : List (ℕ × List Cell) :=
  [match p.m_nixVector with
    | some nix => (nix.get_serialized_size, word (UInt32.ofNat (nix.get_serialized_size + 4)) ++ nix.cells)
    | none => (4, word 4),
   (p.m_byteTagList.get_serialized_size,
    word (UInt32.ofNat (p.m_byteTagList.get_serialized_size + 4)) ++ p.m_byteTagList.cells m),
   (PacketTag.get_serialized_size p.m_packetTagList,
    word (UInt32.ofNat (PacketTag.get_serialized_size p.m_packetTagList + 4)) ++
      PacketTag.cells m p.m_packetTagList),
   (8, word 12 ++ p.m_metadata.cells),
   (p.m_buffer.get_serialized_size,
    word (UInt32.ofNat (p.m_buffer.get_serialized_size + 4)) ++ p.m_buffer.cells)]

theorem dvd_align (n : ℕ) : 4 ∣ align n := ⟨(n + 3) / 4, Nat.mul_comm _ _⟩

theorem dvd_nix (v : NixVector) : 4 ∣ v.get_serialized_size := by
  rw [NixVector.get_serialized_size]
  split
  · exact ⟨1, rfl⟩
  · exact ⟨v.m_nixVector.length + 3, by omega⟩

theorem dvd_byte_tags (l : ByteTagList) : 4 ∣ l.get_serialized_size := by
  refine Nat.dvd_add ⟨1, rfl⟩ (List.dvd_sum ?_)
  intro n hn
  obtain ⟨t, -, rfl⟩ := List.mem_map.mp hn
  exact Nat.dvd_add ⟨4, rfl⟩ (dvd_align _)

theorem dvd_packet_tags (l : List PacketTag) : 4 ∣ PacketTag.get_serialized_size l := by
  refine Nat.dvd_add ⟨1, rfl⟩ (List.dvd_sum ?_)
  intro n hn
  obtain ⟨t, -, rfl⟩ := List.mem_map.mp hn
  exact Nat.dvd_add ⟨2, rfl⟩ (dvd_align _)

theorem dvd_buffer (b : BufferContent) : 4 ∣ b.get_serialized_size := by
  have h₁ := dvd_align b.data_start.length
  have h₂ := dvd_align b.data_end.length
  rw [BufferContent.get_serialized_size]
  omega

theorem bind_ite {c : Prop} [Decidable c] (o : Output) (cells : List Cell)
    (k : Output → Except (List Cell) Output) :
    ((if c then .ok o else .error cells : Except (List Cell) Output) >>= k) =
      if c then k o else .error cells := by
  split <;> rfl

/-- Every section serializes within its own size, so only the capacity checks can stop the writer. -/
theorem serialize_eq_put_sections (m : IidManager) (p : Packet) (maxSize : ℕ) :
    p.serialize m maxSize = put_sections maxSize (p.sections m) ⟨[], 0⟩ := by
  have hbyte := write_section_eq (M := maxSize) (p.m_byteTagList.serialize_eq m)
    (dvd_byte_tags p.m_byteTagList)
  have hpacket := write_section_eq (M := maxSize) (PacketTag.serialize_eq m p.m_packetTagList)
    (dvd_packet_tags p.m_packetTagList)
  have hmeta := write_section_eq (M := maxSize) (PacketMetadata.serialize_eq p.m_metadata) ⟨2, rfl⟩
  have hbuffer := write_section_eq (M := maxSize) p.m_buffer.serialize_eq (dvd_buffer p.m_buffer)
  rw [serialize, sections]
  cases hnix : p.m_nixVector with
  | none =>
    simp only [put, hbyte, hpacket, hmeta, hbuffer, bind_ite, put_sections]
    rfl
  | some nix =>
    have hvector := write_section_eq (M := maxSize) nix.serialize_eq (dvd_nix nix)
    simp only [hvector, hbyte, hpacket, hmeta, hbuffer, bind_ite, put_sections]
    rfl

theorem reads_section {α : Type} {body : Reader α} {cells : List Cell} {a : α} {n : ℕ}
    (hbody : ReadsCells body cells a) (hlength : cells.length = n) (hn : 4 ∣ n) (hlt : n + 7 < 2 ^ 32) :
    ReadsCells (read_section (UInt32.ofNat (n + 4)) body) cells a := by
  have hsize : UInt32.size = 2 ^ 32 := rfl
  have harea : (align_u32 (UInt32.ofNat (n + 4) - 4)).toNat = n := by
    rw [Nat.add_comm, show (4 : UInt32) = UInt32.ofNat 4 from rfl, ofNat_add_sub, align_ofNat (by omega),
      align_of_dvd hn, UInt32.toNat_ofNat_of_lt' (by omega)]
  intro bytes hfill rest
  have hbytes : bytes.length = n := hfill.length_eq.trans hlength
  have hrun := hbody bytes hfill rest
  change ((body.run (bytes ++ rest)).map fun x => (x.1, (bytes ++ rest).drop _)) = _
  rw [hrun, harea, ← hbytes, Option.map_some, List.drop_left]

/-- The area of the nix vector, as `get_serialized_size` counts it. -/
def nix_area (p : Packet) : ℕ :=
  match p.m_nixVector with
  | some nix => nix.get_serialized_size + 4
  | none => 4

theorem get_serialized_size_eq (p : Packet) :
    p.get_serialized_size = p.nix_area + ((p.m_byteTagList.get_serialized_size + 4) +
      ((PacketTag.get_serialized_size p.m_packetTagList + 4) + (12 +
        ((p.m_buffer.get_serialized_size + 4) + 0)))) := by
  rw [get_serialized_size, align_of_dvd (dvd_byte_tags _), align_of_dvd (dvd_packet_tags _),
    align_of_dvd (dvd_buffer _), nix_area]
  cases p.m_nixVector with
  | none =>
    simp only [PacketMetadata.get_serialized_size, align]
    omega
  | some nix =>
    simp only [align_of_dvd (dvd_nix nix), PacketMetadata.get_serialized_size]
    rw [show align 8 = 8 from rfl]
    omega

/-- The types of all tags are registered. -/
def Registered (m : IidManager) (p : Packet) : Prop :=
  (∀ t ∈ p.m_byteTagList.tags, m.Registered t.tid) ∧ ∀ t ∈ p.m_packetTagList, m.Registered t.tid

theorem tid_of_mem_begin_all {l : ByteTagList} {t : ByteTag} (h : t ∈ l.begin_all) :
    ∃ t' ∈ l.tags, t'.tid = t.tid := by
  obtain ⟨t', ht', hitem⟩ := List.mem_filterMap.mp h
  refine ⟨t', ht', ?_⟩
  rw [ByteTag.item] at hitem
  split at hitem
  · cases hitem
  · cases hitem
    rfl

def normalized (p : Packet) : Packet := { p with m_byteTagList := ⟨p.m_byteTagList.begin_all, 0⟩ }

theorem reads_tail {m : IidManager} {p : Packet} (hreg : p.Registered m)
    (hsize : p.get_serialized_size < 2 ^ 32) :
    ReadsCells (do
      let size := UInt32.ofNat ((p.m_byteTagList.get_serialized_size + 4) +
        ((PacketTag.get_serialized_size p.m_packetTagList + 4) + (12 +
        ((p.m_buffer.get_serialized_size + 4) + 0))))
      let byteTagSize ← read_u32
      check (byteTagSize.toNat ≤ size.toNat)
      let byteTags ← read_section byteTagSize (ByteTagList.deserialize m byteTagSize)
      let size := size - byteTagSize
      let packetTagSize ← read_u32
      check (packetTagSize.toNat ≤ size.toNat)
      let packetTags ← read_section packetTagSize (PacketTag.deserialize m packetTagSize)
      let size := size - packetTagSize
      let metaSize ← read_u32
      check (metaSize.toNat ≤ size.toNat)
      let metadata ← read_section metaSize (PacketMetadata.deserialize metaSize)
      let size := size - metaSize
      let bufSize ← read_u32
      check (bufSize.toNat ≤ size.toNat)
      let buffer ← BufferContent.deserialize bufSize
      check (size - bufSize = 0)
      return (⟨buffer, byteTags, packetTags, metadata, p.m_nixVector⟩ : Packet))
    ((p.sections m).tail.map (·.2)).flatten p.normalized := by
  have hsz : UInt32.size = 2 ^ 32 := rfl
  rw [get_serialized_size_eq] at hsize
  have hbyteSize := dvd_byte_tags p.m_byteTagList
  have hpacketSize := dvd_packet_tags p.m_packetTagList
  have hbyte := reads_section (ByteTagList.reads_cells (m := m) (l := p.m_byteTagList)
    (fun t ht => by
      obtain ⟨t', ht', htid⟩ := tid_of_mem_begin_all ht
      exact htid ▸ hreg.1 t' ht') (by omega)) (ByteTagList.length_cells m _) hbyteSize (by omega)
  have hpacket := reads_section (PacketTag.reads_cells hreg.2 (by omega)) (PacketTag.length_cells m _)
    hpacketSize (by omega)
  have hmeta := reads_section (n := 8) (PacketMetadata.reads_cells p.m_metadata) rfl ⟨2, rfl⟩ (by norm_num)
  have hbuffer := BufferContent.reads_cells (b := p.m_buffer) (by omega)
  have hend := (reads_check (rfl : UInt32.ofNat 0 = 0)).bind (b := p.normalized) (d := [])
    (f := fun _ => (pure ⟨p.m_buffer, ⟨p.m_byteTagList.begin_all, 0⟩, p.m_packetTagList, p.m_metadata,
      p.m_nixVector⟩ : Reader Packet)) (.pure _)
  have htoNat (n : ℕ) (h : n < 2 ^ 32) : (UInt32.ofNat n).toNat = n := UInt32.toNat_ofNat_of_lt' (by omega)
  simp only [sections, List.tail_cons, List.map_cons, List.map_nil, List.flatten_cons, List.flatten_nil,
    List.append_assoc]
  refine (reads_word _).bind ((reads_check ?_).bind (c := []) (hbyte.bind ?_))
  · rw [htoNat _ (by omega), htoNat _ (by omega)]
    omega
  rw [ofNat_add_sub]
  refine (reads_word _).bind ((reads_check ?_).bind (c := []) (hpacket.bind ?_))
  · rw [htoNat _ (by omega), htoNat _ (by omega)]
    omega
  rw [ofNat_add_sub]
  refine (reads_word _).bind ((reads_check ?_).bind (c := []) (hmeta.bind ?_))
  · rw [htoNat _ (by omega), show (12 : UInt32).toNat = 12 from rfl]
    omega
  rw [show (12 : UInt32) = UInt32.ofNat 12 from rfl, ofNat_add_sub]
  refine (reads_word _).bind ((reads_check (le_refl _)).bind (c := []) (hbuffer.bind ?_))
  rw [ofNat_add_sub]
  exact hend

def cells (m : IidManager) (p : Packet) : List Cell := ((p.sections m).map (·.2)).flatten

theorem reads_cells {m : IidManager} {p : Packet} (hreg : p.Registered m)
    (hcompact : ∀ nix, p.m_nixVector = some nix → nix.Compact) (hsize : p.get_serialized_size < 2 ^ 32) :
    ReadsCells (deserialize m (UInt32.ofNat p.get_serialized_size)) (p.cells m) p.normalized := by
  have hsz : UInt32.size = 2 ^ 32 := rfl
  have htoNat (n : ℕ) (h : n < 2 ^ 32) : (UInt32.ofNat n).toNat = n := UInt32.toNat_ofNat_of_lt' (by omega)
  have htail := reads_tail hreg hsize
  rw [get_serialized_size_eq] at hsize ⊢
  rw [cells]
  cases hnix : p.m_nixVector with
  | none =>
    have harea : p.nix_area = 4 := by rw [nix_area, hnix]
    have hread : ReadsCells (read_nix 4) [] none := by
      rw [read_nix, if_neg (by decide)]
      exact .pure none
    simp only [sections, hnix] at htail ⊢
    rw [List.map_cons, List.flatten_cons]
    refine (reads_word _).bind ((reads_check ?_).bind (c := []) (hread.bind (c := []) ?_))
    · rw [htoNat _ (by omega), show (4 : UInt32).toNat = 4 from rfl]
      omega
    rw [harea, show (4 : UInt32) = UInt32.ofNat 4 from rfl, ofNat_add_sub]
    exact htail
  | some nix =>
    have harea : p.nix_area = nix.get_serialized_size + 4 := by rw [nix_area, hnix]
    have hpos : 0 < nix.get_serialized_size := by
      rw [NixVector.get_serialized_size]
      split <;> omega
    have hvector := reads_section (NixVector.reads_cells (hcompact nix hnix)
      (htoNat (nix.get_serialized_size + 4) (by omega))) nix.length_cells (dvd_nix nix) (by omega)
    have hread : ReadsCells (read_nix (UInt32.ofNat (nix.get_serialized_size + 4))) nix.cells (some nix) := by
      have hsome := hvector.bind (f := fun nix => (pure (some nix) : Reader (Option NixVector))) (.pure _)
      rw [List.append_nil] at hsome
      rw [read_nix, if_pos (by rw [htoNat _ (by omega)]; omega)]
      exact hsome
    simp only [sections, hnix] at htail ⊢
    rw [List.map_cons, List.flatten_cons, List.append_assoc]
    refine (reads_word _).bind ((reads_check ?_).bind (c := []) (hread.bind ?_))
    · rw [htoNat _ (by omega), htoNat _ (by omega)]
      omega
    rw [harea, ofNat_add_sub]
    exact htail

/-- Nothing is written at `maxSize` or behind it. -/
def Within (maxSize : ℕ) (cells : List Cell) : Prop := ∀ i, maxSize ≤ i → cells[i]?.join = none

/-- The end of what is written: the cells without those at the end that are not. -/
def written_end : List Cell → ℕ
  | [] => 0
  | c :: cs => if written_end cs = 0 then (if c.isSome then 1 else 0) else written_end cs + 1

theorem within_iff {n : ℕ} {cells : List Cell} : Within n cells ↔ written_end cells ≤ n := by
  induction cells generalizing n with
  | nil => simp [Within, written_end]
  | cons c cs ih =>
    cases n with
    | zero =>
      have hzero := ih (n := 0)
      rw [Nat.le_zero] at hzero ⊢
      rw [written_end]
      constructor
      · intro h
        have htail : written_end cs = 0 := hzero.mp fun i _ => h (i + 1) (by omega)
        have hhead : c = none := by simpa using h 0 (by omega)
        simp [htail, hhead]
      · intro h i _
        split at h
        next htail =>
          have hhead : c = none := by simpa using h
          cases i with
          | zero => simp [hhead]
          | succ i => exact hzero.mpr htail i (by omega)
        next => omega
    | succ maxSize =>
      have hsucc : Within (maxSize + 1) (c :: cs) ↔ Within maxSize cs := by
        constructor
        · intro h i hi
          exact h (i + 1) (by omega)
        · intro h i hi
          obtain ⟨j, rfl⟩ : ∃ j, i = j + 1 := ⟨i - 1, by omega⟩
          exact h j (by omega)
      rw [hsucc, ih, written_end]
      split
      · split <;> omega
      · omega

theorem written_end_append (a b : List Cell) :
    written_end (a ++ b) = if written_end b = 0 then written_end a else a.length + written_end b := by
  induction a with
  | nil => by_cases hb : written_end b = 0 <;> simp [written_end, hb]
  | cons c cs ih =>
    rw [List.cons_append, written_end, ih]
    by_cases hb : written_end b = 0
    · simp [written_end, hb]
    · rw [if_neg hb, if_neg hb, if_neg (by omega), List.length_cons]
      omega

theorem written_end_map_some (bytes : List UInt8) : written_end (bytes.map some) = bytes.length := by
  induction bytes with
  | nil => rfl
  | cons b bytes ih =>
    rw [List.map_cons, written_end, ih, List.length_cons]
    split <;> simp_all

theorem written_end_replicate (n : ℕ) : written_end (List.replicate n none) = 0 := by
  induction n with
  | zero => rfl
  | succ n ih => simp [List.replicate_succ, written_end, ih]

/-- The bytes of the area of a field that are left unwritten. -/
def slack (data : List UInt8) : ℕ := align data.length - data.length

theorem written_end_word (w : UInt32) : written_end (word w) = 4 := written_end_map_some _

theorem written_end_word_aligned (w : UInt32) (data : List UInt8) :
    written_end (word w ++ write_aligned data) = 4 + data.length := by
  rw [write_aligned, ← List.append_assoc, written_end_append, if_pos (written_end_replicate _),
    written_end_append, written_end_map_some, written_end_word, length_word]
  split <;> omega

theorem written_end_append_of_pos {a b : List Cell} (hb : 0 < written_end b) :
    written_end (a ++ b) = a.length + written_end b := by
  rw [written_end_append, if_neg (by omega)]

theorem written_end_counted {γ : Type} {F : γ → List (List Cell)} {D : γ → List UInt8}
    {H : γ → List Cell} {G : List γ}
    (hfields : ∀ g ∈ G, ∃ w, (F g).flatten = H g ++ (word w ++ write_aligned (D g))) :
    written_end (counted_cells F G) +
      (G.getLast?.map fun g => slack (D g)).getD 0 = (counted_cells F G).length := by
  rcases List.eq_nil_or_concat G with rfl | ⟨init, last, rfl⟩
  · simp [counted_cells, written_end_word]
  · obtain ⟨w, hlast⟩ := hfields last (by simp)
    have hle := le_align (D last).length
    have hend := written_end_word_aligned w (D last)
    rw [counted_cells, List.concat_eq_append, List.flatMap_append, List.flatMap_singleton, hlast,
      ← List.append_assoc, ← List.append_assoc, written_end_append_of_pos (by omega), hend]
    simp [slack]
    omega

/-! ## The capacity checks -/

/-- The cells of the first sections, and what the checks count of them. -/
def prefix_cells (S : List (ℕ × List Cell)) (k : ℕ) : List Cell := ((S.take k).map (·.2)).flatten

def prefix_size (S : List (ℕ × List Cell)) (k : ℕ) : ℕ := ((S.take k).map (·.1)).sum

theorem prefix_size_mono (S : List (ℕ × List Cell)) {j k : ℕ} (h : j ≤ k) :
    prefix_size S j ≤ prefix_size S k := by
  obtain ⟨d, rfl⟩ : ∃ d, k = j + d := ⟨k - j, by omega⟩
  rw [prefix_size, prefix_size, List.take_add, List.map_append, List.sum_append]
  omega

theorem prefix_cells_append (S : List (ℕ × List Cell)) {j k : ℕ} (h : j ≤ k) :
    ∃ rest, prefix_cells S k = prefix_cells S j ++ rest := by
  obtain ⟨d, rfl⟩ : ∃ d, k = j + d := ⟨k - j, by omega⟩
  exact ⟨_, by rw [prefix_cells, prefix_cells, List.take_add, List.map_append, List.flatten_append]⟩

theorem Within.of_append {maxSize : ℕ} {a b : List Cell} (h : Within maxSize (a ++ b)) : Within maxSize a := by
  intro i hi
  by_cases hlt : i < a.length
  · have := h i hi
    rwa [List.getElem?_append_left hlt] at this
  · rw [List.getElem?_eq_none (by omega)]
    rfl

theorem put_sections_spec (maxSize : ℕ) (S : List (ℕ × List Cell)) (o : Output) (ho : o.size ≤ maxSize) :
    (o.size + prefix_size S S.length ≤ maxSize ∧
      put_sections maxSize S o =
        .ok ⟨o.cells ++ prefix_cells S S.length, o.size + prefix_size S S.length⟩) ∨
    ∃ k < S.length, o.size + prefix_size S k ≤ maxSize ∧ maxSize < o.size + prefix_size S (k + 1) ∧
      put_sections maxSize S o = .error (o.cells ++ prefix_cells S k) := by
  induction S generalizing o with
  | nil => exact .inl ⟨by simpa [prefix_size] using ho, by simp [put_sections, prefix_cells, prefix_size]⟩
  | cons s S ih =>
    rw [put_sections]
    split
    next hfits =>
      have hsize (k : ℕ) : prefix_size (s :: S) (k + 1) = s.1 + prefix_size S k := by simp [prefix_size]
      have hcells (k : ℕ) : prefix_cells (s :: S) (k + 1) = s.2 ++ prefix_cells S k := by simp [prefix_cells]
      rcases ih ⟨o.cells ++ s.2, o.size + s.1⟩ hfits with ⟨hle, heq⟩ | ⟨k, hk, hle, hlt, heq⟩
      · refine .inl ⟨?_, ?_⟩
        · rw [List.length_cons, hsize, ← Nat.add_assoc]
          exact hle
        · rw [heq, List.length_cons, hsize, hcells, List.append_assoc, Nat.add_assoc]
      · refine .inr ⟨k + 1, by simpa using hk, ?_, ?_, ?_⟩
        · rw [hsize, ← Nat.add_assoc]
          exact hle
        · rw [hsize, ← Nat.add_assoc]
          exact hlt
        · rw [heq, hcells, List.append_assoc]
    next hcut =>
      refine .inr ⟨0, by simp, by simpa [prefix_size] using ho, ?_, by simp [prefix_cells]⟩
      simp [prefix_size]
      omega

/-- What the checks count of a section, the bytes of its area, and how many of them at the end
are left unwritten. -/
structure SectionSize where
  counted : ℕ
  area : ℕ
  slack : ℕ

def nix_section (p : Packet) : SectionSize :=
  match p.m_nixVector with
  | some nix => ⟨nix.get_serialized_size, nix.get_serialized_size + 4, 0⟩
  | none => ⟨4, 4, 0⟩

/-- The sizes of the sections of a packet. Behind the buffer nothing follows, so its slack does
not matter. -/
def layout (p : Packet) : List SectionSize :=
  [p.nix_section,
   ⟨p.m_byteTagList.get_serialized_size, p.m_byteTagList.get_serialized_size + 4,
    (p.m_byteTagList.begin_all.getLast?.map fun t => Packet.slack t.data).getD 0⟩,
   ⟨PacketTag.get_serialized_size p.m_packetTagList, PacketTag.get_serialized_size p.m_packetTagList + 4,
    (p.m_packetTagList.getLast?.map fun t => Packet.slack t.data).getD 0⟩,
   ⟨8, 12, 0⟩,
   ⟨p.m_buffer.get_serialized_size, p.m_buffer.get_serialized_size + 4, 0⟩]

/-- The bytes that the first `k` capacity checks count. -/
def counted (p : Packet) (k : ℕ) : ℕ := ((p.layout.take k).map (·.counted)).sum

/-- The end of what the first `k + 1` sections write. -/
def written (p : Packet) (k : ℕ) : ℕ :=
  ((p.layout.take (k + 1)).map (·.area)).sum - ((p.layout[k]?).map (·.slack)).getD 0

/-- A bound that is too small is one that the checks find too small, and every section that
passes them ends below it. -/
def CutsOff (p : Packet) (maxSize : ℕ) : Prop :=
  maxSize < p.counted 5 ∧ ∀ k < 4, p.counted (k + 1) ≤ maxSize → p.written k ≤ maxSize

theorem prefix_size_sections (m : IidManager) (p : Packet) (k : ℕ) :
    prefix_size (p.sections m) k = p.counted k := by
  rw [prefix_size, counted, List.map_take, List.map_take, sections, layout, nix_section]
  cases p.m_nixVector <;> rfl

theorem four_le_written_end (w : UInt32) (cells : List Cell) : 4 ≤ written_end (word w ++ cells) := by
  rw [written_end_append, length_word, written_end_word]
  split <;> omega

theorem written_end_flatMap_word (ws : List UInt32) :
    written_end (ws.flatMap word) = (ws.flatMap word).length := by
  have hmap : ws.flatMap word = (ws.flatMap write_u32).map some := by
    rw [List.map_flatMap]
    rfl
  rw [hmap, written_end_map_some, List.length_map]

theorem written_end_nix (v : NixVector) : written_end v.cells = v.cells.length := by
  obtain ⟨ws, hws⟩ := v.cells_eq_words
  rw [hws, written_end_flatMap_word]

theorem length_first (p : Packet) (m : IidManager) :
    (prefix_cells (p.sections m) 1).length = p.nix_area := by
  rw [sections, nix_area]
  cases p.m_nixVector with
  | none => rfl
  | some nix =>
    simp [prefix_cells, nix.length_cells]
    omega

theorem prefix_cells_succ (S : List (ℕ × List Cell)) {k : ℕ} {s : ℕ × List Cell} (hs : S[k]? = some s) :
    prefix_cells S (k + 1) = prefix_cells S k ++ s.2 := by
  rw [prefix_cells, prefix_cells, List.take_add_one, hs]
  simp

theorem written_end_section (a : List Cell) (w : UInt32) {c : List Cell} (hc : 0 < written_end c) :
    written_end (a ++ (word w ++ c)) = a.length + (4 + written_end c) := by
  have hinner := written_end_append_of_pos (a := word w) hc
  rw [length_word] at hinner
  rw [written_end_append_of_pos (by omega), hinner]

theorem written_end_first (m : IidManager) (p : Packet) :
    written_end (prefix_cells (p.sections m) 1) = p.nix_area := by
  rw [sections, nix_area]
  cases p.m_nixVector with
  | none => exact written_end_word 4
  | some nix =>
    have hpos : 0 < nix.get_serialized_size := by
      rw [NixVector.get_serialized_size]
      split <;> omega
    have hend := written_end_nix nix
    rw [nix.length_cells] at hend
    have hsection := written_end_section [] (UInt32.ofNat (nix.get_serialized_size + 4))
      (c := nix.cells) (by omega)
    simp only [List.nil_append, List.length_nil, hend] at hsection
    simp only [prefix_cells, List.take_succ_cons, List.take_zero, List.map_cons, List.map_nil,
      List.flatten_cons, List.flatten_nil, List.append_nil]
    omega

theorem written_end_sections (m : IidManager) (p : Packet) {k : ℕ} (hk : k < 4) :
    written_end (prefix_cells (p.sections m) (k + 1)) = p.written k := by
  have hbyte := written_end_counted (F := ByteTag.fields m) (D := ByteTag.data)
    (H := fun t => word (m.get_hash t.tid) ++ (word (UInt32.ofNat t.data.length) ++ word t.start.toUInt32))
    (G := p.m_byteTagList.begin_all) (fun t _ => ⟨t.end_.toUInt32, by simp [ByteTag.fields]⟩)
  have hpacket := written_end_counted (F := PacketTag.fields m) (D := PacketTag.data)
    (H := fun t => word (UInt32.ofNat t.data.length)) (G := p.m_packetTagList)
    (fun t _ => ⟨m.get_hash t.tid, by simp [PacketTag.fields]⟩)
  have hbyteLength := ByteTagList.length_cells m p.m_byteTagList
  have hpacketLength := PacketTag.length_cells m p.m_packetTagList
  rw [ByteTagList.cells] at hbyteLength
  rw [PacketTag.cells] at hpacketLength
  have hfirst := length_first p m
  have hbytePos := four_le_written_end (UInt32.ofNat p.m_byteTagList.begin_all.length)
    (p.m_byteTagList.begin_all.flatMap fun t => (t.fields m).flatten)
  have hpacketPos := four_le_written_end (UInt32.ofNat p.m_packetTagList.length)
    (p.m_packetTagList.flatMap fun t => (PacketTag.fields m t).flatten)
  rw [← counted_cells] at hbytePos hpacketPos
  have h₂ := prefix_cells_succ (p.sections m) (k := 1) rfl
  have h₃ := prefix_cells_succ (p.sections m) (k := 2) rfl
  have h₄ := prefix_cells_succ (p.sections m) (k := 3) rfl
  rw [show 1 + 1 = 2 from rfl] at h₂
  rw [show 2 + 1 = 3 from rfl] at h₃
  rw [show 3 + 1 = 4 from rfl] at h₄
  have hl₂ := congrArg List.length h₂
  have hl₃ := congrArg List.length h₃
  simp only [List.length_append, length_word, ByteTagList.cells, PacketTag.cells] at hl₂ hl₃
  have harea : p.nix_section.area = p.nix_area ∧ p.nix_section.slack = 0 := by
    rw [nix_section, nix_area]
    cases p.m_nixVector <;> exact ⟨rfl, rfl⟩
  interval_cases k
  · rw [written_end_first]
    simp [written, layout, harea]
  · rw [h₂, written_end_section _ _ (by rw [ByteTagList.cells]; omega), ByteTagList.cells]
    simp [written, layout, harea]
    omega
  · rw [h₃, written_end_section _ _ (by rw [PacketTag.cells]; omega), PacketTag.cells]
    simp [written, layout, harea]
    omega
  · have hmeta : written_end p.m_metadata.cells = 8 := rfl
    rw [h₄, written_end_section _ _ (by omega), hmeta]
    simp [written, layout, harea]
    omega

end Packet

end Ns3
