import Ns3.Network.Buffer.Operations
import Ns3.Network.Packet

/-! A buffer in the words of a byte array, and a buffer that is made from them. -/

namespace Ns3

open ByteFormat Slice

namespace Buffer

open Memory

/-- `(n + 3) & (~0x3)`. -/
def align32 (n : ℕ) : ℕ := u32 (n + 3) / 4 * 4

def get_serialized_size (b : Buffer) : ℕ :=
  let data_start := align32 (sub32 b.zero_area_start b.start)
  let data_end := align32 (sub32 b.end_ b.zero_area_end)
  u32 (4 + 4 + data_start + 4 + data_end)

/-- `Serialize`: what it returns, and what stands in the array then. -/
def serialize (s : Memory) (b : Buffer) (max_size : ℕ) : Option (ℕ × List Cell) := do
  let size := 0
  if u32 (size + 4) ≤ max_size then
    let size := u32 (size + 4)
    let cells := word (UInt32.ofNat b.zero_size)
    let data_start_length := sub32 b.zero_area_start b.start
    if u32 (size + 4) ≤ max_size then
      let size := u32 (size + 4)
      let cells := cells ++ word (UInt32.ofNat data_start_length)
      if u32 (size + align32 data_start_length) ≤ max_size then
        let size := u32 (size + align32 data_start_length)
        let cells := cells ++ write_aligned (← s.load b.data b.start data_start_length)
        let data_end_length := sub32 b.end_ b.zero_area_end
        if u32 (size + 4) ≤ max_size then
          let size := u32 (size + 4)
          let cells := cells ++ word (UInt32.ofNat data_end_length)
          if u32 (size + align32 data_end_length) ≤ max_size then
            return (1, cells ++ write_aligned (← s.load b.data b.zero_area_start data_end_length))
          else return (0, cells)
        else return (0, cells)
      else return (0, cells)
    else return (0, cells)
  else return (0, [])

/-- `Deserialize` into a buffer without a storage; `none` is a failing assertion or a read behind the
end of the array. -/
def deserialize (s : Memory) (size : UInt32) : Reader (Buffer × Memory) := do
  let size_check := size - 4
  check (4 ≤ size_check.toNat)
  let zero_data_length ← read_u32
  let size_check := size_check - 4
  let (b, s) ← lift (initialize_ s zero_data_length.toNat)
  check (4 ≤ size_check.toNat)
  let data_start_length ← read_u32
  let size_check := size_check - 4
  let (b, s) ← lift (add_at_start s b data_start_length.toNat)
  check (data_start_length.toNat ≤ size_check.toNat)
  let data_start ← read_aligned data_start_length.toNat
  let s ← lift (b.begin_.write s data_start)
  let size_check := size_check - align_u32 data_start_length
  check (4 ≤ size_check.toNat)
  let data_end_length ← read_u32
  let size_check := size_check - 4
  let (b, s) ← lift (add_at_end s b data_end_length.toNat)
  check (data_end_length.toNat ≤ size_check.toNat)
  let tmp ← lift (b.stop.prev data_end_length.toNat)
  let data_end ← read_bytes data_end_length.toNat
  let s ← lift (tmp.write s data_end)
  check (size_check - align_u32 data_end_length = 0)
  return (b, s)

/-- What `CheckInternalState` asks of a buffer and its storage, with the bound on sizes that `Allocate` asserts. -/
structure Internal (d : Data) (b : Buffer) : Prop extends Ordered b where
  fits : b.real_end ≤ d.size
  bytes : d.bytes.length = d.size
  size : d.size + 20 ≤ 2 ^ 32

theorem content_length_lt {d : Data} {b : Buffer} (h : Internal d b) :
    (slice d.bytes b.start b.zero_area_start).length + (b.zero_area_end - b.zero_area_start) +
      (slice d.bytes b.zero_area_start b.real_end).length < 2 ^ 32 := by
  obtain ⟨⟨hstart, hzero, hstop, hlt⟩, hfits, hbytes, _⟩ := h
  rw [real_end] at hfits ⊢
  rw [length_slice (by omega), length_slice (by omega)]
  omega

def content {d : Data} {b : Buffer} (h : Internal d b) : BufferContent where
  data_start := slice d.bytes b.start b.zero_area_start
  zero_area := b.zero_area_end - b.zero_area_start
  data_end := slice d.bytes b.zero_area_start b.real_end
  length_lt := content_length_lt h

variable {s s' : Memory} {b b' : Buffer} {bs : List Buffer} {d : Data}

theorem align32_eq {n : ℕ} (h : n + 3 < 2 ^ 32) : align32 n = align n := by rw [align32, align, u32_eq h]

theorem content_bytes (h : Internal d b) : (content h).bytes = contents_in d b := rfl

theorem Internal.sizes (h : Internal d b) :
    b.zero_size = (content h).zero_area ∧ sub32 b.zero_area_start b.start = (content h).data_start.length ∧
      sub32 b.end_ b.zero_area_end = (content h).data_end.length ∧
      (content h).data_start.length + (content h).data_end.length + 20 ≤ 2 ^ 32 := by
  obtain ⟨⟨hstart, hzero, hstop, hlt⟩, hfits, hbytes, hsize⟩ := h
  have hord : Ordered b := ⟨hstart, hzero, hstop, hlt⟩
  have hle := zero_area_start_le hord
  have hfirst : (slice d.bytes b.start b.zero_area_start).length = b.zero_area_start - b.start := length_slice (by omega)
  have hlast : (slice d.bytes b.zero_area_start b.real_end).length = b.real_end - b.zero_area_start :=
    length_slice (by omega)
  have hreal : b.real_end = b.end_ - (b.zero_area_end - b.zero_area_start) := rfl
  simp only [content, hfirst, hlast]
  refine ⟨zero_size_eq hord, sub32_eq hstart (by omega), ?_, by omega⟩
  rw [sub32_eq hstop hlt]
  omega

theorem Internal.serialized_lt (h : Internal d b) : (content h).get_serialized_size < 2 ^ 32 := by
  have hsum := h.sizes.2.2.2
  rw [BufferContent.get_serialized_size, align, align]
  omega

theorem get_serialized_size_eq (h : Internal d b) : b.get_serialized_size = (content h).get_serialized_size := by
  obtain ⟨_, hstart, hend, hsum⟩ := h.sizes
  have hlt := h.serialized_lt
  rw [BufferContent.get_serialized_size] at hlt
  rw [get_serialized_size, hstart, hend, align32_eq (by omega), align32_eq (by omega), u32_eq hlt,
    BufferContent.get_serialized_size]

/-- The checks of `Serialize`, with its sums modulo 2 ^ 32, are those of a writer with a bound. -/
theorem serialize_eq (h : Internal d b) (hd : s.read b.data = some d) (max_size : ℕ) :
    b.serialize s max_size = some (match (content h).serialize max_size with
      | .ok cells => (1, cells)
      | .error cells => (0, cells)) := by
  obtain ⟨hzero, hstart, hend, hsum⟩ := h.sizes
  have hlt := h.serialized_lt
  rw [BufferContent.get_serialized_size] at hlt
  have hord := h.toOrdered
  have hle := zero_area_start_le hord
  have hfits := h.fits
  have hbytes := h.bytes
  have hfirst := hord.start
  have hreal : b.real_end = b.end_ - (b.zero_area_end - b.zero_area_start) := rfl
  have hdiff : (content h).data_start.length = b.zero_area_start - b.start := length_slice (by omega)
  have hdiff' : (content h).data_end.length = b.real_end - b.zero_area_start := length_slice (by omega)
  have hload : s.load b.data b.start (content h).data_start.length = some (content h).data_start := by
    rw [hdiff, load_eq hd (by omega), Nat.add_sub_cancel' hfirst]
    rfl
  have hload' : s.load b.data b.zero_area_start (content h).data_end.length = some (content h).data_end := by
    rw [hdiff', load_eq hd (by omega), Nat.add_sub_cancel' hle]
    rfl
  have halign : align32 (content h).data_start.length = align (content h).data_start.length := align32_eq (by omega)
  have halign' : align32 (content h).data_end.length = align (content h).data_end.length := align32_eq (by omega)
  rw [serialize, BufferContent.serialize, BufferContent.fields, hzero, hstart, hend]
  simp only [hload, hload', halign, halign', put_fields_cons, length_word, length_write_aligned, List.nil_append]
  generalize align (content h).data_start.length = x at hlt ⊢
  generalize align (content h).data_end.length = y at hlt ⊢
  have h₁ : u32 (0 + 4) = 4 := u32_eq (by omega)
  have h₂ : u32 (4 + 4) = 8 := u32_eq (by omega)
  have h₃ : u32 (8 + x) = 8 + x := u32_eq (by omega)
  have h₄ : u32 (8 + x + 4) = 8 + x + 4 := u32_eq (by omega)
  have h₅ : u32 (8 + x + 4 + y) = 8 + x + 4 + y := u32_eq (by omega)
  simp only [h₁, h₂, h₃, h₄, h₅, Nat.zero_add]
  simp only [Except.map, Option.bind_eq_bind, Option.bind_some, Nat.reduceAdd]
  -- the checks are the same, and the first one that fails ends both
  split_ifs <;> rfl

theorem serialize_spec (h : Internal d b) (hd : s.read b.data = some d) :
    (content h).cells.length = b.get_serialized_size ∧
      (∀ max_size, b.get_serialized_size ≤ max_size → b.serialize s max_size = some (1, (content h).cells)) ∧
      ∀ max_size < b.get_serialized_size, ∃ cells, b.serialize s max_size = some (0, cells) ∧
        cells.length ≤ max_size ∧ cells <+: (content h).cells := by
  have hlength : (content h).fields.flatten.length = b.get_serialized_size := by
    rw [get_serialized_size_eq h]
    exact (content h).length_cells
  refine ⟨hlength, fun max_size hle => ?_, fun max_size hlt => ?_⟩
  · rw [serialize_eq h hd, BufferContent.serialize, put_fields_ok (by simp only; omega)]
    rfl
  · obtain ⟨cells, hcells, hle, hprefix⟩ :=
      put_fields_error max_size (content h).fields (o := ⟨[], 0⟩) rfl (Nat.zero_le _)
        (by simp only; omega)
    refine ⟨cells, ?_, hle, hprefix⟩
    rw [serialize_eq h hd, BufferContent.serialize, hcells]
    rfl

/-- What `Deserialize` reads: the array without the places behind the end data. -/
def read_cells (c : BufferContent) : List Cell :=
  word (UInt32.ofNat c.zero_area) ++ (word (UInt32.ofNat c.data_start.length) ++ (write_aligned c.data_start ++
    (word (UInt32.ofNat c.data_end.length) ++ c.data_end.map some)))

theorem cells_eq (c : BufferContent) :
    c.cells = read_cells c ++ List.replicate (align c.data_end.length - c.data_end.length) none := by
  simp [BufferContent.cells, BufferContent.fields, read_cells, write_aligned]

theorem making_spec (h : Shared s [] bs) (hfew : bs.length + 2 < 2 ^ 32) (c : BufferContent)
    (hroom : s.recommended_start + c.get_size + 119 < 2 ^ 32) :
    ∃ b₁ s₁ b₂ s₂ s₃ b₄ s₄ i s₅, initialize_ s c.zero_area = some (b₁, s₁) ∧
      add_at_start s₁ b₁ c.data_start.length = some (b₂, s₂) ∧ b₂.begin_.write s₂ c.data_start = some s₃ ∧
      add_at_end s₃ b₂ c.data_end.length = some (b₄, s₄) ∧ b₄.stop.prev c.data_end.length = some i ∧
      i.write s₄ c.data_end = some s₅ ∧ Shared s₅ [] (b₄ :: bs) ∧ (∀ o ∈ bs, s₅.contents o = s.contents o) ∧
      s₅.contents b₄ = c.bytes := by
  rw [BufferContent.get_size] at hroom
  obtain ⟨b₁, s₁, hs₁, hshared₁, hsame₁, hzeros, hstart₁, hzero₁, hend₁, hle₁, _⟩ :=
    initialize_spec (n := c.zero_area) h (by omega) (by omega)
  obtain ⟨b₂, s₂, s₃, hs₂, hs₃, hshared₃, hsame₃, hself₃, _, hle₂, _⟩ :=
    prepend_spec hshared₁ (x := c.data_start) (by omega) hfew
  obtain ⟨b₄, s₄, i, s₅, hs₄, hi, hs₅, hshared₅, hsame₅, hself₅, _⟩ :=
    extend_spec hshared₃ (x := c.data_end) (by omega) hfew
  refine ⟨b₁, s₁, b₂, s₂, s₃, b₄, s₄, i, s₅, hs₁, hs₂, hs₃, hs₄, hi, hs₅, hshared₅, fun o ho => ?_, ?_⟩
  · rw [hsame₅ o ho, hsame₃ o ho, hsame₁ o ho]
  · rw [hself₅, hself₃, hzeros, BufferContent.bytes]

theorem deserialize_spec (h : Shared s [] bs) (hfew : bs.length + 2 < 2 ^ 32) (c : BufferContent)
    (hroom : s.recommended_start + c.get_size + 119 < 2 ^ 32) :
    ∃ b s', ReadsCells (deserialize s (UInt32.ofNat (c.get_serialized_size + 4))) (read_cells c) (b, s') ∧
      Shared s' [] (b :: bs) ∧ (∀ o ∈ bs, s'.contents o = s.contents o) ∧ s'.contents b = c.bytes := by
  obtain ⟨b₁, s₁, b₂, s₂, s₃, b₄, s₄, i, s₅, hs₁, hs₂, hs₃, hs₄, hi, hs₅, hspec⟩ := making_spec h hfew c hroom
  refine ⟨b₄, s₅, ?_, hspec⟩
  rw [BufferContent.get_size] at hroom
  have hsz : UInt32.size = 2 ^ 32 := rfl
  have hfour (n : ℕ) : UInt32.ofNat (4 + n) - 4 = UInt32.ofNat n := ofNat_add_sub 4 n
  have hstart := le_align c.data_start.length
  have hend := le_align c.data_end.length
  have hsum : align c.data_start.length + align c.data_end.length + 113 < 2 ^ 32 := by
    rw [align, align]
    omega
  have hzeroNat : (UInt32.ofNat c.zero_area).toNat = c.zero_area := UInt32.toNat_ofNat_of_lt' (by omega)
  have hstartNat : (UInt32.ofNat c.data_start.length).toNat = c.data_start.length := UInt32.toNat_ofNat_of_lt' (by omega)
  have hendNat : (UInt32.ofNat c.data_end.length).toNat = c.data_end.length := UInt32.toNat_ofNat_of_lt' (by omega)
  rw [BufferContent.get_serialized_size, read_cells, deserialize, show 4 + 4 + align c.data_start.length + 4 +
    align c.data_end.length + 4 = 4 + (4 + (4 + (align c.data_start.length + (4 + (align c.data_end.length + 0))))) by omega, hfour]
  refine (reads_check (le_toNat_ofNat (by omega))).bind (c := []) ((reads_word _).bind ?_)
  rw [hfour, hzeroNat]
  refine (reads_lift hs₁).bind (c := []) ((reads_check (le_toNat_ofNat (by omega))).bind (c := []) ((reads_word _).bind ?_))
  rw [hfour, hstartNat]
  refine (reads_lift hs₂).bind (c := []) ((reads_check ?_).bind (c := []) ((reads_aligned c.data_start rfl).bind ?_))
  · rw [UInt32.toNat_ofNat_of_lt' (by omega)]
    omega
  rw [align_ofNat (by omega), ofNat_add_sub]
  refine (reads_lift hs₃).bind (c := []) ((reads_check (le_toNat_ofNat (by omega))).bind (c := []) ((reads_word _).bind ?_))
  rw [hfour, hendNat]
  refine (reads_lift hs₄).bind (c := []) ((reads_check ?_).bind (c := []) ((reads_lift hi).bind (c := []) ?_))
  · rw [UInt32.toNat_ofNat_of_lt' (by omega)]
    omega
  rw [align_ofNat (by omega), ofNat_add_sub]
  have hlast := (reads_lift hs₅).bind (c := []) (f := fun s => (do
      check (UInt32.ofNat 0 = 0)
      return (b₄, s) : Reader (Buffer × Memory))) ((reads_check rfl).bind (c := []) (.pure _))
  have hbytes := (reads_bytes (x := c.data_end) rfl).written.bind (f := fun x => (do
      let s ← lift (i.write s₄ x)
      check (UInt32.ofNat 0 = 0)
      return (b₄, s) : Reader (Buffer × Memory))) hlast
  rwa [List.append_nil, List.append_nil, List.append_nil] at hbytes

theorem count_written (c : BufferContent) :
    (c.cells.filter Option.isSome).length = 12 + c.data_start.length + c.data_end.length := by
  have hword : ∀ w, (word w).filter Option.isSome = word w := fun _ => rfl
  have hsome : ∀ l : List UInt8, (l.map some).filter Option.isSome = l.map some := by simp [List.filter_eq_self]
  simp [BufferContent.cells, BufferContent.fields, hword, hsome, write_aligned]
  omega

/-- The array of a buffer has the size that is announced, but the bytes that fill up a word in it are not written. A
smaller bound is kept. The buffer that is read from the array, of its size and that of a length word, has the same
bytes, where its offsets fit 32 bits. -/
theorem serialization_round_trip (hd : s.read b.data = some d) (h : Internal d b) :
    ∃ cells, cells.length = b.get_serialized_size ∧
      (cells.filter Option.isSome).length = 12 + (b.zero_area_start - b.start) + (b.end_ - b.zero_area_end) ∧
      (∀ max_size, b.get_serialized_size ≤ max_size → b.serialize s max_size = some (1, cells)) ∧
      (∀ max_size < b.get_serialized_size, ∃ written, b.serialize s max_size = some (0, written) ∧
        written.length ≤ max_size ∧ written <+: cells) ∧
      ∀ (s' : Memory) (bs : List Buffer) (bytes rest : List UInt8), Shared s' [] bs → bs.length + 2 < 2 ^ 32 →
        s'.recommended_start + b.get_size + 119 < 2 ^ 32 → Fills bytes cells →
        ∃ b' s'' rest', (deserialize s' (UInt32.ofNat (b.get_serialized_size + 4))).run (bytes ++ rest) =
            some ((b', s''), rest') ∧
          Shared s'' [] (b' :: bs) ∧ (∀ o ∈ bs, s''.contents o = s'.contents o) ∧ s''.contents b' = s.contents b := by
  obtain ⟨hlength, hfits, hshort⟩ := serialize_spec h hd
  obtain ⟨_, hstart, hend, _⟩ := h.sizes
  have hord := h.toOrdered
  have hsum : (content h).get_size = b.get_size := by
    have hcontents := length_contents_in hord (h.bytes ▸ h.fits)
    rw [get_size_eq hord, ← hcontents, ← content_bytes h, BufferContent.bytes, BufferContent.get_size]
    simp [Nat.add_assoc]
  refine ⟨(content h).cells, hlength, ?_, hfits, hshort, fun s' bs bytes rest hshared hfew hroom hfills => ?_⟩
  · have hstop := hord.stop
    have hlt := hord.lt
    rw [count_written, ← hstart, ← hend, sub32_eq hord.start (by have := hord.zero; omega), sub32_eq hstop hlt]
  · obtain ⟨b', s'', hreads, hshared', hothers, hself⟩ := deserialize_spec hshared hfew (content h) (hsum ▸ hroom)
    rw [cells_eq] at hfills
    obtain ⟨b₁, b₂, rfl, hfirst, _⟩ := hfills.append_cells
    refine ⟨b', s'', b₂ ++ rest, ?_, hshared', hothers, ?_⟩
    · rw [List.append_assoc, get_serialized_size_eq h]
      exact hreads b₁ hfirst (b₂ ++ rest)
    · rw [hself, content_bytes, contents_eq hd]

theorem serialization_round_trip_sample :
    let s : Memory := { Memory.initial with heap := [some ⟨1, 101, 0, 8, List.replicate 101 7⟩] }
    let b : Buffer := ⟨0, 2, 2, 5, 0, 8⟩
    b.get_serialized_size = 20 ∧ ∃ cells, b.serialize s 20 = some (1, cells) ∧ ∀ bytes, Fills bytes cells →
      ∃ b' s'' rest, (deserialize Memory.initial 24).run bytes = some ((b', s''), rest) ∧
        s''.contents b' = s.contents b := by
  intro s b
  have h : Internal ⟨1, 101, 0, 8, List.replicate 101 7⟩ b :=
    ⟨⟨by decide, by decide, by decide, by decide⟩, by decide, by decide, by decide⟩
  have hsize : b.get_serialized_size = 20 := by decide +kernel
  obtain ⟨cells, _, _, hfits, _, hread⟩ := serialization_round_trip (s := s) (b := b) rfl h
  refine ⟨hsize, cells, hfits 20 hsize.le, fun bytes hfills => ?_⟩
  obtain ⟨b', s'', rest, hrun, _, _, hself⟩ := hread Memory.initial [] bytes [] Memory.shared_initial (by decide) (by decide +kernel) hfills
  rw [List.append_nil, hsize] at hrun
  exact ⟨b', s'', rest, hrun, hself⟩

/-- The size that is announced is not the one to read with, nor the number of the bytes that are written, and a buffer of
zeros that nearly fills 32 bits is not read where new buffers leave room at the start. -/
theorem deserialize_fails :
    ((do
      let (b, s) ← initialize_ .initial 0
      let (r, cells) ← b.serialize s 12
      return (b.get_serialized_size, r, ((deserialize s 12).run (cells.filterMap id)).isSome)) :
        Option (ℕ × ℕ × Bool)) = some (12, 1, false) ∧
    ((do
      let (b, s) ← initialize_ .initial 0
      let (b, s) ← add_at_start s b 1
      let (_, cells) ← b.serialize s 16
      return (b.get_serialized_size, (cells.filter Option.isSome).length)) : Option (ℕ × ℕ)) = some (16, 13) ∧
    ((do
      let (b, s) ← initialize_ .initial (2 ^ 32 - 1)
      let (t, s) ← initialize_ s 0
      let (t, s) ← add_at_start s t 1
      let s ← destroy s t
      let (r, cells) ← b.serialize s 12
      return (b.get_serialized_size, r, ((deserialize s 16).run (cells.filterMap id)).isSome)) :
        Option (ℕ × ℕ × Bool)) = some (12, 1, false) := by
  refine ⟨?_, ?_, ?_⟩
  · decide +kernel
  · decide +kernel
  · decide +kernel

end Buffer

end Ns3
