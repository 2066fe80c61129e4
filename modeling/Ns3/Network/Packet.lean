import Ns3.Network.ByteTagList
import Ns3.Network.NixVector

namespace Ns3

open ByteFormat

/-- A packet tag, as a node of the list holds it. -/
structure PacketTag where
  tid : TypeUid
  data : List UInt8
deriving DecidableEq, Repr

namespace PacketTag

/-- The record of a tag: size, hash and the data. -/
def fields (m : IidManager) (t : PacketTag) : List (List Cell) :=
  [word (UInt32.ofNat t.data.length), word (m.get_hash t.tid), write_aligned t.data]

def get_serialized_size (l : List PacketTag) : ℕ :=
  4 + (l.map fun t => 4 + 4 + align t.data.length).sum

def serialize (m : IidManager) (l : List PacketTag) (maxSize : ℕ) : Except (List Cell) (List Cell) :=
  write_records maxSize (l.map (fields m))

/-- One turn of the loop of `PacketTagList::Deserialize`. -/
def read_tag (m : IidManager) (sizeCheck : UInt32) : Reader (PacketTag × UInt32) := do
  check (4 ≤ sizeCheck.toNat)
  let tagSize ← read_u32
  let sizeCheck := sizeCheck - 4
  check (4 ≤ sizeCheck.toNat)
  let hash ← read_u32
  let sizeCheck := sizeCheck - 4
  let tid ← lift (m.lookup_by_hash hash)
  check (tagSize.toNat ≤ sizeCheck.toNat)
  let data ← read_aligned tagSize.toNat
  return (⟨tid, data⟩, sizeCheck - align_u32 tagSize)

/-- `PacketTagList::Deserialize`; `none` is a failing assertion or the return of 0. -/
def deserialize (m : IidManager) (size : UInt32) : Reader (List PacketTag) :=
  read_counted (read_tag m) size

end PacketTag

/-- The bytes of a buffer: those before its zero area, the size of that area, those after it. -/
structure BufferContent where
  data_start : List UInt8
  zero_area : ℕ
  data_end : List UInt8
  length_lt : data_start.length + zero_area + data_end.length < 2 ^ 32

namespace BufferContent

def get_size (b : BufferContent) : ℕ := b.data_start.length + b.zero_area + b.data_end.length

/-- The content as a reader of the buffer sees it. -/
def bytes (b : BufferContent) : List UInt8 := b.data_start ++ List.replicate b.zero_area 0 ++ b.data_end

def get_serialized_size (b : BufferContent) : ℕ :=
  4 + 4 + align b.data_start.length + 4 + align b.data_end.length

def fields (b : BufferContent) : List (List Cell) :=
  [word (UInt32.ofNat b.zero_area), word (UInt32.ofNat b.data_start.length), write_aligned b.data_start,
    word (UInt32.ofNat b.data_end.length), write_aligned b.data_end]

def serialize (b : BufferContent) (maxSize : ℕ) : Except (List Cell) (List Cell) :=
  (put_fields maxSize b.fields ⟨[], 0⟩).map (·.cells)

/-- `Deserialize`: a buffer of zeros, the start data put before it, the end data behind it. `none`
is a failing assertion, the return of 0, or a size beyond 32 bits. -/
def deserialize (size : UInt32) : Reader BufferContent := do
  let sizeCheck := size - 4
  check (4 ≤ sizeCheck.toNat)
  let zeroDataLength ← read_u32
  let sizeCheck := sizeCheck - 4
  check (4 ≤ sizeCheck.toNat)
  let dataStartLength ← read_u32
  let sizeCheck := sizeCheck - 4
  check (dataStartLength.toNat ≤ sizeCheck.toNat)
  let data_start ← read_aligned dataStartLength.toNat
  let sizeCheck := sizeCheck - align_u32 dataStartLength
  check (4 ≤ sizeCheck.toNat)
  let dataEndLength ← read_u32
  let sizeCheck := sizeCheck - 4
  check (dataEndLength.toNat ≤ sizeCheck.toNat)
  let data_end ← read_aligned dataEndLength.toNat
  check (sizeCheck - align_u32 dataEndLength = 0)
  if h : data_start.length + zeroDataLength.toNat + data_end.length < 2 ^ 32 then
    return ⟨data_start, zeroDataLength.toNat, data_end, h⟩
  else lift none

end BufferContent

/-- `PacketMetadata` where metadata is not enabled: nothing but the uid of the packet. -/
abbrev PacketMetadata := UInt64

namespace PacketMetadata

def get_serialized_size (_ : PacketMetadata) : ℕ := 8

def serialize (uid : PacketMetadata) (maxSize : ℕ) : Except (List Cell) (List Cell) :=
  if 8 > maxSize then .error [] else .ok (word uid.toUInt32 ++ word (uid >>> 32).toUInt32)

/-- `none` also where items follow the uid, which a packet without metadata does not have. -/
def deserialize (size : UInt32) : Reader PacketMetadata := do
  check (8 ≤ size.toNat)
  let low ← read_u32
  let high ← read_u32
  check (size - 4 - 8 = 0)
  return high.toUInt64 <<< 32 ||| low.toUInt64

end PacketMetadata

structure Packet where
  m_buffer : BufferContent
  m_byteTagList : ByteTagList := {}
  m_packetTagList : List PacketTag := []
  m_metadata : PacketMetadata
  m_nixVector : Option NixVector := none

namespace Packet

def get_serialized_size (p : Packet) : ℕ :=
  (match p.m_nixVector with
    | some nix => align nix.get_serialized_size + 4
    | none => 4) +
  (align (PacketTag.get_serialized_size p.m_packetTagList) + 4) +
  (align p.m_byteTagList.get_serialized_size + 4) +
  (align p.m_metadata.get_serialized_size + 4) +
  (align p.m_buffer.get_serialized_size + 4)

/-- One section of `Serialize`: its length word, which the capacity check does not count, and the
section; the next one starts on a word. -/
def write_section (maxSize sectionSize : ℕ) (serialize : ℕ → Except (List Cell) (List Cell)) (o : Output) :
    Except (List Cell) Output :=
  if o.size + sectionSize ≤ maxSize then
    let cells := o.cells ++ word (UInt32.ofNat (sectionSize + 4))
    match serialize sectionSize with
    | .ok c => .ok ⟨cells ++ c ++ List.replicate (align sectionSize - sectionSize) none, o.size + sectionSize⟩
    | .error c => .error (cells ++ c)
  else .error o.cells

/-- `Serialize`. The result is what stands in the buffer, and an error where 0 is returned. -/
def serialize (m : IidManager) (p : Packet) (maxSize : ℕ) : Except (List Cell) Output := do
  let o ← match p.m_nixVector with
    | some nix => write_section maxSize nix.get_serialized_size nix.serialize ⟨[], 0⟩
    | none => put maxSize (word 4) ⟨[], 0⟩
  let o ← write_section maxSize p.m_byteTagList.get_serialized_size (p.m_byteTagList.serialize m) o
  let o ← write_section maxSize (PacketTag.get_serialized_size p.m_packetTagList)
    (PacketTag.serialize m p.m_packetTagList) o
  let o ← write_section maxSize p.m_metadata.get_serialized_size p.m_metadata.serialize o
  write_section maxSize p.m_buffer.get_serialized_size p.m_buffer.serialize o

/-- The body of a section of `Deserialize` reads ahead; the pointer then goes to the end of the
area of the section, whose length word holds `size`. -/
def read_section {α : Type} (size : UInt32) (body : Reader α) : Reader α := fun l =>
  (body.run l).map fun x => (x.1, l.drop (align_u32 (size - 4)).toNat)

/-- The nix vector, which is there if its section is longer than its length word. -/
def read_nix (nixSize : UInt32) : Reader (Option NixVector) :=
  if nixSize.toNat > 4 then do
    let nix ← read_section nixSize (NixVector.deserialize nixSize)
    return some nix
  else return none

/-- `Deserialize` into a new packet, of `size` bytes; `none` is a failing assertion or the
return of 0. -/
def deserialize (m : IidManager) (size : UInt32) : Reader Packet := do
  let nixSize ← read_u32
  check (nixSize.toNat ≤ size.toNat)
  let nix ← read_nix nixSize
  let size := size - nixSize
  let byteTagSize ← read_u32
  check (byteTagSize.toNat ≤ size.toNat)
  let byteTags ← read_section byteTagSize (ByteTagList.deserialize m byteTagSize)
  let size := size - byteTagSize
  let packetTagSize ← read_u32
  check (packetTagSize.toNat ≤ size.toNat)
  let packetTags ← read_section packetTagSize (PacketTag.deserialize m packetTagSize)
  let size := size - packetTagSize
  let metaSize ← read_u32
  check (metaSize.toNat ≤ size.toNat)
  let metadata ← read_section metaSize (PacketMetadata.deserialize metaSize)
  let size := size - metaSize
  let bufSize ← read_u32
  check (bufSize.toNat ≤ size.toNat)
  let buffer ← BufferContent.deserialize bufSize
  check (size - bufSize = 0)
  return ⟨buffer, byteTags, packetTags, metadata, nix⟩

end Packet

end Ns3

namespace Ns3

open ByteFormat

namespace PacketTag

theorem length_fields (m : IidManager) (t : PacketTag) :
    (t.fields m).flatten.length = 4 + (4 + align t.data.length) := by
  simp [fields]

theorem reads_tag {m : IidManager} {t : PacketTag} (ht : m.Registered t.tid) {k : ℕ}
    (h : (t.fields m).flatten.length + k < 2 ^ 32 - 3) :
    ReadsCells (read_tag m (UInt32.ofNat ((t.fields m).flatten.length + k))) (t.fields m).flatten
      (t, UInt32.ofNat k) := by
  have hle := le_align t.data.length
  have hsize : UInt32.size = 2 ^ 32 := rfl
  rw [length_fields] at h ⊢
  have hdata : (UInt32.ofNat t.data.length).toNat = t.data.length := UInt32.toNat_ofNat_of_lt' (by omega)
  have hfour (n : ℕ) : UInt32.ofNat (4 + n) - 4 = UInt32.ofNat n := ofNat_add_sub 4 n
  have hpure := (reads_aligned t.data hdata.symm).bind (b := (t, UInt32.ofNat k)) (d := [])
    (f := fun data => pure (⟨t.tid, data⟩,
      UInt32.ofNat (align t.data.length + k) - align_u32 (UInt32.ofNat t.data.length)))
    (by
      rw [align_ofNat (by omega), ofNat_add_sub]
      exact .pure _)
  simp only [fields, List.flatten_cons, List.flatten_nil]
  rw [show 4 + (4 + align t.data.length) + k = 4 + (4 + (align t.data.length + k)) by omega]
  refine (reads_check (le_toNat_ofNat (by omega))).bind (c := []) ((reads_word _).bind ?_)
  rw [hfour]
  refine (reads_check (le_toNat_ofNat (by omega))).bind (c := []) ((reads_word _).bind ?_)
  refine (reads_lift (m.lookup_get_hash ht)).bind (c := []) ?_
  rw [hfour]
  refine (reads_check ?_).bind (c := []) hpure
  rw [hdata, UInt32.toNat_ofNat_of_lt' (by omega)]
  omega

def cells (m : IidManager) (l : List PacketTag) : List Cell := counted_cells (fields m) l

theorem length_cells (m : IidManager) (l : List PacketTag) : (cells m l).length = get_serialized_size l := by
  rw [cells, counted_cells, get_serialized_size, List.length_append, length_word]
  congr 1
  induction l with
  | nil => rfl
  | cons t ts ih =>
    rw [List.map_cons, List.sum_cons, ← ih, List.flatMap_cons, List.length_append, length_fields]
    omega

theorem serialize_eq (m : IidManager) (l : List PacketTag) :
    serialize m l (get_serialized_size l) = .ok (cells m l) := by
  apply write_counted
  exact (length_cells m l).le

theorem reads_cells {m : IidManager} {l : List PacketTag} (hreg : ∀ t ∈ l, m.Registered t.tid)
    (hsize : get_serialized_size l + 7 < 2 ^ 32) :
    ReadsCells (deserialize m (UInt32.ofNat (get_serialized_size l + 4))) (cells m l) l := by
  rw [← length_cells m l] at hsize ⊢
  exact reads_counted (fun t _ => by rw [length_fields]; omega)
    (fun t ht k hk => reads_tag (hreg t ht) hk) hsize

end PacketTag

namespace BufferContent

def cells (b : BufferContent) : List Cell := b.fields.flatten

theorem length_cells (b : BufferContent) : b.cells.length = b.get_serialized_size := by
  simp [cells, fields, get_serialized_size]
  omega

theorem serialize_eq (b : BufferContent) : b.serialize b.get_serialized_size = .ok b.cells := by
  rw [serialize, put_fields_ok (by rw [← length_cells, cells]; simp)]
  simp [Except.map, cells]

theorem reads_cells {b : BufferContent} (hsize : b.get_serialized_size + 7 < 2 ^ 32) :
    ReadsCells (deserialize (UInt32.ofNat (b.get_serialized_size + 4))) b.cells b := by
  have hsz : UInt32.size = 2 ^ 32 := rfl
  have hlt := b.length_lt
  have hstart := le_align b.data_start.length
  have hend := le_align b.data_end.length
  rw [get_serialized_size] at hsize ⊢
  have hzeroNat : (UInt32.ofNat b.zero_area).toNat = b.zero_area := UInt32.toNat_ofNat_of_lt' (by omega)
  have hstartNat : (UInt32.ofNat b.data_start.length).toNat = b.data_start.length :=
    UInt32.toNat_ofNat_of_lt' (by omega)
  have hendNat : (UInt32.ofNat b.data_end.length).toNat = b.data_end.length :=
    UInt32.toNat_ofNat_of_lt' (by omega)
  have hfour (n : ℕ) : UInt32.ofNat (4 + n) - 4 = UInt32.ofNat n := ofNat_add_sub 4 n
  have hpure : ReadsCells (do
      check (UInt32.ofNat (align b.data_end.length + 0) - align_u32 (UInt32.ofNat b.data_end.length) = 0)
      if h : b.data_start.length + (UInt32.ofNat b.zero_area).toNat + b.data_end.length < 2 ^ 32 then
        return ⟨b.data_start, (UInt32.ofNat b.zero_area).toNat, b.data_end, h⟩
      else lift none) [] b := by
    refine (reads_check ?_).bind (c := []) ?_
    · rw [align_ofNat (by omega), ofNat_add_sub]
      rfl
    · rw [dif_pos (by omega)]
      simp only [hzeroNat]
      exact .pure b
  have hlast := (reads_aligned b.data_end hendNat.symm).bind (f := fun data_end => (do
      check (UInt32.ofNat (align b.data_end.length + 0) - align_u32 (UInt32.ofNat b.data_end.length) = 0)
      if h : b.data_start.length + (UInt32.ofNat b.zero_area).toNat + data_end.length < 2 ^ 32 then
        return ⟨b.data_start, (UInt32.ofNat b.zero_area).toNat, data_end, h⟩
      else lift none : Reader BufferContent)) hpure
  rw [cells, fields]
  simp only [List.flatten_cons, List.flatten_nil]
  rw [show 4 + 4 + align b.data_start.length + 4 + align b.data_end.length + 4 =
    4 + (4 + (4 + (align b.data_start.length + (4 + (align b.data_end.length + 0))))) by omega]
  rw [deserialize, hfour]
  refine (reads_check (le_toNat_ofNat (by omega))).bind (c := []) ((reads_word _).bind ?_)
  rw [hfour]
  refine (reads_check (le_toNat_ofNat (by omega))).bind (c := []) ((reads_word _).bind ?_)
  rw [hfour]
  refine (reads_check ?_).bind (c := []) ((reads_aligned b.data_start hstartNat.symm).bind ?_)
  · rw [hstartNat, UInt32.toNat_ofNat_of_lt' (by omega)]
    omega
  rw [align_ofNat (by omega), ofNat_add_sub]
  refine (reads_check (le_toNat_ofNat (by omega))).bind (c := []) ((reads_word _).bind ?_)
  rw [hfour]
  refine (reads_check ?_).bind (c := []) hlast
  rw [hendNat, UInt32.toNat_ofNat_of_lt' (by omega)]
  omega

end BufferContent

namespace PacketMetadata

def cells (uid : PacketMetadata) : List Cell := word uid.toUInt32 ++ word (uid >>> 32).toUInt32

theorem serialize_eq (uid : PacketMetadata) : serialize uid (get_serialized_size uid) = .ok uid.cells := rfl

theorem halves (uid : UInt64) : (uid >>> 32).toUInt32.toUInt64 <<< 32 ||| uid.toUInt32.toUInt64 = uid := by
  have hlt := uid.toNat_lt
  have hhigh : (uid >>> 32).toUInt32.toUInt64.toNat = uid.toNat / 2 ^ 32 := by
    rw [UInt32.toNat_toUInt64, UInt64.toNat_toUInt32, UInt64.toNat_shiftRight,
      show (32 : UInt64).toNat % 64 = 32 from rfl, Nat.shiftRight_eq_div_pow]
    omega
  apply UInt64.toNat_inj.mp
  rw [UInt64.toNat_or, UInt64.toNat_shiftLeft, hhigh, UInt32.toNat_toUInt64, UInt64.toNat_toUInt32,
    show (32 : UInt64).toNat % 64 = 32 from rfl, Nat.mod_eq_of_lt (by rw [Nat.shiftLeft_eq]; omega),
    shiftLeft_or (Nat.mod_lt _ (by norm_num))]
  omega

theorem reads_cells (uid : PacketMetadata) : ReadsCells (deserialize 12) uid.cells uid := by
  have hend := (reads_check (rfl : (12 : UInt32) - 4 - 8 = 0)).bind (b := uid) (d := [])
    (f := fun _ => (pure ((uid >>> 32).toUInt32.toUInt64 <<< 32 ||| uid.toUInt32.toUInt64) : Reader PacketMetadata))
    (by rw [halves]; exact .pure _)
  have hhigh := (reads_word (uid >>> 32).toUInt32).bind (b := uid) (f := fun (high : UInt32) => (do
    check ((12 : UInt32) - 4 - 8 = 0)
    return high.toUInt64 <<< 32 ||| uid.toUInt32.toUInt64 : Reader PacketMetadata)) hend
  rw [List.append_nil, List.append_nil] at hhigh
  exact (reads_check (by decide)).bind (c := []) ((reads_word _).bind hhigh)

end PacketMetadata

end Ns3
