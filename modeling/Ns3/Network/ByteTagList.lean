import Mathlib
import Ns3.Foundation.ByteFormat

namespace Ns3

/-- The identifier of a `TypeId`, also its place in the register of types. -/
abbrev TypeUid := UInt16

/-- The register of types: the hash of each type, in the order of registration. A type whose
hash is taken has been given another one. -/
structure IidManager where
  hashes : List UInt32
  nodup : hashes.Nodup
  length_lt : hashes.length < 2 ^ 16

namespace IidManager

def Registered (m : IidManager) (uid : TypeUid) : Prop := 0 < uid.toNat ∧ uid.toNat ≤ m.hashes.length

instance (m : IidManager) (uid : TypeUid) : Decidable (m.Registered uid) := by
  unfold Registered
  infer_instance

def get_hash (m : IidManager) (uid : TypeUid) : UInt32 := m.hashes[uid.toNat - 1]?.getD 0

/-- `TypeId::LookupByHash`; `none` is its failing assertion. -/
def lookup_by_hash (m : IidManager) (hash : UInt32) : Option TypeUid :=
  (m.hashes.idxOf? hash).map fun i => UInt16.ofNat (i + 1)

theorem lookup_get_hash {m : IidManager} {uid : TypeUid} (h : m.Registered uid) :
    m.lookup_by_hash (m.get_hash uid) = some uid := by
  obtain ⟨hpos, hle⟩ := h
  have hlt : uid.toNat - 1 < m.hashes.length := by omega
  have hget : m.get_hash uid = m.hashes[uid.toNat - 1] := by
    rw [get_hash, List.getElem?_eq_getElem hlt, Option.getD_some]
  have hidx : m.hashes.idxOf? (m.get_hash uid) = some (uid.toNat - 1) := by
    rw [hget, List.idxOf?_eq_some_iff]
    refine ⟨hlt, rfl, ?_⟩
    intro j hj heq
    have := (List.Nodup.getElem_inj_iff m.nodup).mp heq
    omega
  rw [lookup_by_hash, hidx, Option.map_some, show uid.toNat - 1 + 1 = uid.toNat by omega]
  exact congrArg some (UInt16.ofNat_toNat)

end IidManager

open ByteFormat

/-- A byte tag as it is stored, or an item of an iteration. `data` is the area of `size` bytes. -/
structure ByteTag where
  tid : TypeUid
  data : List UInt8
  start : Int32
  end_ : Int32
deriving DecidableEq

/-- The stored tags, whose offsets are those of the packet after the adjustment. -/
structure ByteTagList where
  tags : List ByteTag := []
  m_adjustment : Int32 := 0
deriving DecidableEq

def OFFSET_MAX : Int32 := Int32.maxValue

/-- `PrepareForNext` and `Next` of an iterator, for one stored tag: nothing where it is skipped. -/
def ByteTag.item (offsetStart offsetEnd adjustment : Int32) (t : ByteTag) : Option ByteTag :=
  let nextStart := t.start + adjustment
  let nextEnd := t.end_ + adjustment
  if nextStart ≥ offsetEnd ∨ nextEnd ≤ offsetStart then none
  else some { t with start := max nextStart offsetStart, end_ := min nextEnd offsetEnd }

/-- The record of an item: hash, size, start, end and the data. -/
def ByteTag.fields (m : IidManager) (t : ByteTag) : List (List Cell) :=
  [word (m.get_hash t.tid), word (UInt32.ofNat t.data.length), word t.start.toUInt32,
    word t.end_.toUInt32, write_aligned t.data]

namespace ByteTagList

/-- The items of the iterator `Begin`. -/
def begin_ (l : ByteTagList) (offsetStart offsetEnd : Int32) : List ByteTag :=
  l.tags.filterMap (ByteTag.item offsetStart offsetEnd l.m_adjustment)

def begin_all (l : ByteTagList) : List ByteTag := l.begin_ 0 OFFSET_MAX

def add (l : ByteTagList) (tid : TypeUid) (data : List UInt8) (start end_ : Int32) : ByteTagList :=
  { l with tags := l.tags ++ [⟨tid, data, start - l.m_adjustment, end_ - l.m_adjustment⟩] }

def get_serialized_size (l : ByteTagList) : ℕ :=
  4 + (l.begin_all.map fun t => 4 + 3 * 4 + align t.data.length).sum

def serialize (m : IidManager) (l : ByteTagList) (maxSize : ℕ) : Except (List Cell) (List Cell) :=
  write_records maxSize (l.begin_all.map (ByteTag.fields m))

/-- One turn of the loop of `Deserialize`. -/
def read_tag (m : IidManager) (sizeCheck : UInt32) : Reader (ByteTag × UInt32) := do
  check (4 ≤ sizeCheck.toNat)
  let hash ← read_u32
  let sizeCheck := sizeCheck - 4
  let tid ← lift (m.lookup_by_hash hash)
  check (4 ≤ sizeCheck.toNat)
  let bufferSize ← read_u32
  let sizeCheck := sizeCheck - 4
  check (4 ≤ sizeCheck.toNat)
  let start ← read_u32
  let sizeCheck := sizeCheck - 4
  check (4 ≤ sizeCheck.toNat)
  let end_ ← read_u32
  let sizeCheck := sizeCheck - 4
  check (bufferSize.toNat ≤ sizeCheck.toNat)
  let data ← read_aligned bufferSize.toNat
  return (⟨tid, data, start.toInt32, end_.toInt32⟩, sizeCheck - align_u32 bufferSize)

/-- `none` is a failing assertion or the return of 0. -/
def deserialize (m : IidManager) (size : UInt32) : Reader ByteTagList := do
  let tags ← read_counted (read_tag m) size
  return tags.foldl (fun l t => l.add t.tid t.data t.start t.end_) {}

theorem length_fields (m : IidManager) (t : ByteTag) :
    (t.fields m).flatten.length = 4 + (4 + (4 + (4 + align t.data.length))) := by
  simp [ByteTag.fields]

theorem reads_tag {m : IidManager} {t : ByteTag} (ht : m.Registered t.tid) {k : ℕ}
    (h : (t.fields m).flatten.length + k < 2 ^ 32 - 3) :
    ReadsCells (read_tag m (UInt32.ofNat ((t.fields m).flatten.length + k))) (t.fields m).flatten
      (t, UInt32.ofNat k) := by
  have hle := le_align t.data.length
  have hsize : UInt32.size = 2 ^ 32 := rfl
  rw [length_fields] at h ⊢
  have hdata : (UInt32.ofNat t.data.length).toNat = t.data.length := UInt32.toNat_ofNat_of_lt' (by omega)
  have hfour (n : ℕ) : UInt32.ofNat (4 + n) - 4 = UInt32.ofNat n := ofNat_add_sub 4 n
  have hpure := (reads_aligned t.data hdata.symm).bind (b := (t, UInt32.ofNat k)) (d := [])
    (f := fun data => pure (⟨t.tid, data, t.start.toUInt32.toInt32, t.end_.toUInt32.toInt32⟩,
      UInt32.ofNat (align t.data.length + k) - align_u32 (UInt32.ofNat t.data.length)))
    (by
      rw [align_ofNat (by omega), ofNat_add_sub]
      exact .pure _)
  simp only [ByteTag.fields, List.flatten_cons, List.flatten_nil]
  rw [show 4 + (4 + (4 + (4 + align t.data.length))) + k =
    4 + (4 + (4 + (4 + (align t.data.length + k)))) by omega]
  refine (reads_check (le_toNat_ofNat (by omega))).bind (c := []) ((reads_word _).bind ?_)
  refine (reads_lift (m.lookup_get_hash ht)).bind (c := []) ?_
  rw [hfour]
  refine (reads_check (le_toNat_ofNat (by omega))).bind (c := []) ((reads_word _).bind ?_)
  rw [hfour]
  refine (reads_check (le_toNat_ofNat (by omega))).bind (c := []) ((reads_word _).bind ?_)
  rw [hfour]
  refine (reads_check (le_toNat_ofNat (by omega))).bind (c := []) ((reads_word _).bind ?_)
  rw [hfour]
  refine (reads_check ?_).bind (c := []) hpure
  rw [hdata, UInt32.toNat_ofNat_of_lt' (by omega)]
  omega

theorem foldl_add (tags : List ByteTag) (l : ByteTagList) (hl : l.m_adjustment = 0) :
    tags.foldl (fun l t => l.add t.tid t.data t.start t.end_) l = ⟨l.tags ++ tags, 0⟩ := by
  induction tags generalizing l with
  | nil => simp [← hl]
  | cons t tags ih =>
    rw [List.foldl_cons, ih (l.add t.tid t.data t.start t.end_) hl]
    simp [add, hl]

def cells (m : IidManager) (l : ByteTagList) : List Cell := counted_cells (ByteTag.fields m) l.begin_all

theorem length_cells (m : IidManager) (l : ByteTagList) : (l.cells m).length = l.get_serialized_size := by
  rw [cells, counted_cells, get_serialized_size, List.length_append, length_word]
  congr 1
  induction l.begin_all with
  | nil => rfl
  | cons t ts ih =>
    rw [List.map_cons, List.sum_cons, ← ih, List.flatMap_cons, List.length_append, length_fields]
    omega

theorem serialize_eq (m : IidManager) (l : ByteTagList) :
    l.serialize m l.get_serialized_size = .ok (l.cells m) := by
  apply write_counted
  exact (length_cells m l).le

theorem reads_cells {m : IidManager} {l : ByteTagList} (hreg : ∀ t ∈ l.begin_all, m.Registered t.tid)
    (hsize : l.get_serialized_size + 7 < 2 ^ 32) :
    ReadsCells (deserialize m (UInt32.ofNat (l.get_serialized_size + 4))) (l.cells m)
      ⟨l.begin_all, 0⟩ := by
  have hcounted := reads_counted (F := ByteTag.fields m) (G := l.begin_all) (R := read_tag m)
    (fun t _ => by rw [length_fields]; omega) (fun t ht k hk => reads_tag (hreg t ht) hk)
    (by rwa [← length_cells m l, cells] at hsize)
  have hadd := hcounted.bind (b := (⟨l.begin_all, 0⟩ : ByteTagList)) (d := [])
    (f := fun tags => pure (tags.foldl (fun l t => l.add t.tid t.data t.start t.end_) {}))
    (by rw [foldl_add _ _ rfl]; exact .pure _)
  rw [List.append_nil] at hadd
  rw [← length_cells m l]
  exact hadd

theorem item_item {lo hi adjustment : Int32} (t : ByteTag) (hlo : 0 ≤ lo) (hhi : lo < hi) :
    (t.item 0 OFFSET_MAX adjustment).bind (ByteTag.item lo hi 0) = t.item lo hi adjustment := by
  have hmax : hi ≤ OFFSET_MAX := Int32.le_maxValue hi
  have hmax' : t.end_ + adjustment ≤ OFFSET_MAX := Int32.le_maxValue _
  have hmx (a b : Int32) : max a b = if a ≤ b then b else a := rfl
  have hmn (a b : Int32) : min a b = if a ≤ b then a else b := rfl
  unfold ByteTag.item
  generalize OFFSET_MAX = m at *
  simp only
  generalize t.start + adjustment = s at *
  generalize t.end_ + adjustment = e at *
  by_cases h : s ≥ m ∨ e ≤ 0
  · rw [if_pos h, if_pos (by grind)]
    rfl
  · rw [if_neg h, Option.bind_some]
    simp only [Int32.add_zero]
    grind

theorem begin_begin_all (l : ByteTagList) {lo hi : Int32} (hlo : 0 ≤ lo) (hhi : lo < hi) :
    begin_ ⟨l.begin_all, 0⟩ lo hi = l.begin_ lo hi := by
  rw [begin_, begin_all, begin_, List.filterMap_filterMap]
  exact List.filterMap_congr fun t _ => item_item t hlo hhi

end ByteTagList

end Ns3
