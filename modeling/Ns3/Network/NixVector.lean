import Ns3.Foundation.ByteFormat

namespace Ns3

open ByteFormat

structure NixVector where
  m_nixVector : List UInt32 := []
  m_used : UInt32 := 0
  m_totalBitSize : UInt32 := 0
  m_epoch : UInt32 := 0
deriving DecidableEq, Repr

namespace NixVector

/-- The words that `numberOfBits` bits take. -/
def words_of_bits (numberOfBits : UInt32) : ℕ :=
  numberOfBits.toNat / 32 + if numberOfBits % 32 ≠ 0 then 1 else 0

/-- `back()` of the vector, which the callers have seen not to be empty. -/
def update_back (v : List UInt32) (f : UInt32 → UInt32) : List UInt32 :=
  v.dropLast ++ (v.getLast?.map f).toList

/-- `none` is the fatal error on more than 32 bits. -/
def add_neighbor_index (v : NixVector) (newBits numberOfBits : UInt32) : Option NixVector :=
  if numberOfBits > 32 then none
  else
    let currentVectorBitSize := v.m_totalBitSize % 32
    let vec := if currentVectorBitSize = 0 then v.m_nixVector ++ [0] else v.m_nixVector
    let vec :=
      if currentVectorBitSize + numberOfBits > 32 then
        update_back vec (fun b => newBits <<< currentVectorBitSize ||| b) ++
          [newBits >>> (32 - currentVectorBitSize)]
      else update_back vec fun b => newBits <<< currentVectorBitSize ||| b
    some { v with m_nixVector := vec, m_totalBitSize := v.m_totalBitSize + numberOfBits }

def get_serialized_size (v : NixVector) : ℕ :=
  if v.m_totalBitSize = 0 then 4 else 4 + 4 + 4 * v.m_nixVector.length + 4

def serialize (v : NixVector) (maxSize : ℕ) : Except (List Cell) (List Cell) :=
  if maxSize < v.get_serialized_size then .error []
  else if v.m_totalBitSize = 0 then .ok (word v.m_totalBitSize)
  else .ok (word v.m_totalBitSize ++ (word v.m_used ++
    (v.m_nixVector.flatMap word ++ word v.m_epoch)))

def read_words : ℕ → Reader (List UInt32)
  | 0 => pure []
  | n + 1 => do
    let w ← read_u32
    let ws ← read_words n
    return w :: ws

/-- `none` is a failing assertion or the return of 0. -/
def deserialize (size : UInt32) : Reader NixVector := do
  check (4 ≤ size.toNat)
  let totalBitSize ← read_u32
  if totalBitSize = 0 then return {}
  else
    let used ← read_u32
    check (16 + words_of_bits totalBitSize * 4 ≤ size.toNat)
    let vec ← read_words (words_of_bits totalBitSize)
    let epoch ← read_u32
    return ⟨vec, used, totalBitSize, epoch⟩

/-- What the format keeps: a vector without bits holds nothing else, and one with bits holds as
many words as they take. -/
def Compact (v : NixVector) : Prop :=
  if v.m_totalBitSize = 0 then v = {} else v.m_nixVector.length = words_of_bits v.m_totalBitSize

instance (v : NixVector) : Decidable v.Compact := by
  unfold Compact
  infer_instance

theorem reads_words (ws : List UInt32) : ReadsCells (read_words ws.length) (ws.flatMap word) ws := by
  induction ws with
  | nil => exact .pure []
  | cons w ws ih =>
    have hpure := ih.bind (f := fun l => (Pure.pure (w :: l) : Reader _)) (.pure (w :: ws))
    rw [List.append_nil] at hpure
    exact (reads_word w).bind hpure

theorem length_flatMap_word (ws : List UInt32) : (ws.flatMap word).length = 4 * ws.length := by
  induction ws with
  | nil => rfl
  | cons w ws ih =>
    rw [List.flatMap_cons, List.length_append, ih, List.length_cons, length_word]
    omega

/-- The cells that a vector serializes into. -/
def cells (v : NixVector) : List Cell :=
  if v.m_totalBitSize = 0 then word v.m_totalBitSize
  else word v.m_totalBitSize ++ (word v.m_used ++ (v.m_nixVector.flatMap word ++ word v.m_epoch))

theorem serialize_eq (v : NixVector) : v.serialize v.get_serialized_size = .ok v.cells := by
  rw [serialize, if_neg (by omega), cells]
  split <;> rfl

theorem length_cells (v : NixVector) : v.cells.length = v.get_serialized_size := by
  rw [cells, get_serialized_size]
  split
  · rfl
  · simp only [List.length_append, length_flatMap_word, length_word]
    omega

theorem cells_eq_words (v : NixVector) : ∃ ws : List UInt32, v.cells = ws.flatMap word := by
  rw [cells]
  split
  · exact ⟨[v.m_totalBitSize], by simp⟩
  · exact ⟨v.m_totalBitSize :: v.m_used :: (v.m_nixVector ++ [v.m_epoch]), by simp⟩

theorem reads_cells {v : NixVector} (hcompact : v.Compact) {size : UInt32}
    (hsize : size.toNat = v.get_serialized_size + 4) : ReadsCells (deserialize size) v.cells v := by
  rw [get_serialized_size] at hsize
  rw [Compact] at hcompact
  rw [cells]
  split at hsize
  next hzero =>
    rw [if_pos hzero] at hcompact ⊢
    have hread := (reads_word v.m_totalBitSize).bind (b := v) (d := [])
      (f := fun totalBitSize => if totalBitSize = 0 then (pure {} : Reader NixVector) else do
        let used ← read_u32
        check (16 + words_of_bits totalBitSize * 4 ≤ size.toNat)
        let vec ← read_words (words_of_bits totalBitSize)
        let epoch ← read_u32
        return ⟨vec, used, totalBitSize, epoch⟩) (by rw [if_pos hzero, hcompact]; exact .pure _)
    rw [List.append_nil] at hread
    exact (reads_check (by omega)).bind hread
  next hzero =>
    rw [if_neg hzero] at hcompact ⊢
    have hepoch := (reads_word v.m_epoch).bind (b := v) (d := [])
      (f := fun epoch => pure ⟨v.m_nixVector, v.m_used, v.m_totalBitSize, epoch⟩) (.pure _)
    rw [List.append_nil] at hepoch
    have hwords := reads_words v.m_nixVector
    rw [hcompact] at hwords
    refine (reads_check (by omega)).bind (c := []) ((reads_word _).bind ?_)
    rw [if_neg hzero]
    exact (reads_word _).bind ((reads_check (by omega)).bind (c := []) (hwords.bind hepoch))

theorem length_read_words {n : ℕ} {l rest : List UInt8} {ws : List UInt32}
    (h : (read_words n).run l = some (ws, rest)) : ws.length = n := by
  induction n generalizing l ws rest with
  | zero =>
    cases h
    rfl
  | succ n ih =>
    obtain ⟨w, l₁, -, h⟩ := bind_eq_some h
    obtain ⟨ws', l₂, hws, h⟩ := bind_eq_some h
    cases h
    rw [List.length_cons, ih hws]

theorem compact_of_deserialize {size : UInt32} {l rest : List UInt8} {v : NixVector}
    (h : (deserialize size).run l = some (v, rest)) : v.Compact := by
  obtain ⟨_, l₁, -, h⟩ := bind_eq_some h
  obtain ⟨total, l₂, -, h⟩ := bind_eq_some h
  split at h
  next hzero =>
    cases h
    rfl
  next hzero =>
    obtain ⟨used, l₃, -, h⟩ := bind_eq_some h
    obtain ⟨_, l₄, -, h⟩ := bind_eq_some h
    obtain ⟨vec, l₅, hvec, h⟩ := bind_eq_some h
    obtain ⟨epoch, l₆, -, h⟩ := bind_eq_some h
    cases h
    rw [Compact, if_neg hzero]
    exact length_read_words hvec

theorem length_update_back (v : List UInt32) (f : UInt32 → UInt32) : (update_back v f).length = v.length := by
  rcases List.eq_nil_or_concat v with rfl | ⟨init, last, rfl⟩
  · rfl
  · simp [update_back]

theorem length_add_neighbor_index {v v' : NixVector} {newBits numberOfBits : UInt32}
    (hlen : v.m_nixVector.length = words_of_bits v.m_totalBitSize) (hbits : 0 < numberOfBits)
    (hsum : v.m_totalBitSize.toNat + numberOfBits.toNat < 2 ^ 32) (h : v.add_neighbor_index newBits numberOfBits = some v') :
    v'.m_totalBitSize.toNat = v.m_totalBitSize.toNat + numberOfBits.toNat ∧
      v'.m_nixVector.length = words_of_bits v'.m_totalBitSize := by
  rw [add_neighbor_index] at h
  split at h
  · cases h
  next hle =>
    have hpos : 0 < numberOfBits.toNat := by simpa [UInt32.lt_iff_toNat_lt] using hbits
    have hle32 : numberOfBits.toNat ≤ 32 := by
      rw [gt_iff_lt, UInt32.lt_iff_toNat_lt, show (32 : UInt32).toNat = 32 from rfl] at hle
      omega
    have htotal : (v.m_totalBitSize + numberOfBits).toNat = v.m_totalBitSize.toNat + numberOfBits.toNat := by
      rw [UInt32.toNat_add, Nat.mod_eq_of_lt hsum]
    have hmod : (v.m_totalBitSize % 32).toNat = v.m_totalBitSize.toNat % 32 := UInt32.toNat_mod ..
    have hmod' : ((v.m_totalBitSize + numberOfBits) % 32).toNat =
        (v.m_totalBitSize.toNat + numberOfBits.toNat) % 32 := by
      rw [UInt32.toNat_mod, htotal]
      rfl
    have hspan : v.m_totalBitSize % 32 + numberOfBits > 32 ↔
        v.m_totalBitSize.toNat % 32 + numberOfBits.toNat > 32 := by
      rw [gt_iff_lt, UInt32.lt_iff_toNat_lt, UInt32.toNat_add, hmod, show (32 : UInt32).toNat = 32 from rfl]
      omega
    have hzero (w : UInt32) : w = 0 ↔ w.toNat = 0 := by
      rw [← UInt32.toNat_inj]
      rfl
    simp only [words_of_bits, ne_eq, hzero, hmod] at hlen
    simp only [Option.some.injEq] at h
    subst h
    refine ⟨htotal, ?_⟩
    simp only [words_of_bits, ne_eq, hzero, hmod, hmod', hspan, htotal]
    split <;> split <;> simp only [List.length_append, length_update_back, List.length_singleton, hlen] <;>
      split <;> split <;> omega

theorem add_neighbor_index_compact {v v' : NixVector} {newBits numberOfBits : UInt32} (hv : v.Compact)
    (hbits : 0 < numberOfBits) (hsum : v.m_totalBitSize.toNat + numberOfBits.toNat < 2 ^ 32)
    (h : v.add_neighbor_index newBits numberOfBits = some v') : v'.Compact := by
  have hlen : v.m_nixVector.length = words_of_bits v.m_totalBitSize := by
    rw [Compact] at hv
    split at hv
    next hzero =>
      rw [hv]
      rfl
    next => exact hv
  obtain ⟨htotal, hlength⟩ := length_add_neighbor_index hlen hbits hsum h
  have hpos : 0 < numberOfBits.toNat := by simpa [UInt32.lt_iff_toNat_lt] using hbits
  rw [Compact, if_neg]
  · exact hlength
  · intro hzero
    rw [hzero, show (0 : UInt32).toNat = 0 from rfl] at htotal
    omega

end NixVector

end Ns3
