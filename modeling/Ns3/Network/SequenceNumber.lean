import Mathlib

namespace Ns3

/-- `SequenceNumber<uint32_t, int32_t>`. -/
structure SequenceNumber32 where
  value : UInt32
deriving DecidableEq, Repr

namespace SequenceNumber32

def max_value : UInt32 := 0xffffffff

def half_max_value : UInt32 := max_value / 2

/-- `operator+`, with a number or with the value of another sequence number. -/
def add (s : SequenceNumber32) (delta : UInt32) : SequenceNumber32 := ⟨s.value + delta⟩

/-- `operator++`. -/
def increment (s : SequenceNumber32) : SequenceNumber32 := ⟨s.value + 1⟩

/-- `operator-` of two sequence numbers. -/
def sub (s other : SequenceNumber32) : Int32 :=
  if s.value > other.value then
    let diff := s.value - other.value
    if diff < half_max_value then diff.toInt32
    else -(max_value - s.value + 1 + other.value).toInt32
  else
    let diff := other.value - s.value
    if diff < half_max_value then -diff.toInt32
    else (max_value - other.value + 1 + s.value).toInt32

/-- `operator>`, from which all other comparisons are defined. -/
def greater (s other : SequenceNumber32) : Bool :=
  (s.value > other.value && s.value - other.value ≤ half_max_value) ||
    (other.value > s.value && other.value - s.value > half_max_value)

/-- `operator<=`. -/
def less_equal (s other : SequenceNumber32) : Bool := !s.greater other

/-- `operator>=`. -/
def greater_equal (s other : SequenceNumber32) : Bool := s.greater other || s == other

/-- `operator<`. -/
def less (s other : SequenceNumber32) : Bool := !s.greater other && s != other

/-- The sequence number of the `n`-th position after one. -/
def plus (base : SequenceNumber32) (n : ℕ) : SequenceNumber32 := ⟨base.value + UInt32.ofNat n⟩

variable {b : SequenceNumber32} {m n : ℕ}

theorem plus_add (b : SequenceNumber32) (n : ℕ) (delta : UInt32) :
    (b.plus n).add delta = b.plus (n + delta.toNat) := by
  simp only [plus, add, UInt32.ofNat_add, UInt32.ofNat_toNat, add_assoc]

theorem plus_increment (b : SequenceNumber32) (n : ℕ) : (b.plus n).increment = b.plus (n + 1) := by
  simp only [plus, increment, UInt32.ofNat_add, add_assoc]
  rfl

theorem plus_zero (b : SequenceNumber32) : b.plus 0 = b := by
  simp [plus]

/-- The distance between two sequence numbers, modulo their range. -/
theorem sub_toUInt32 (s other : SequenceNumber32) : (s.sub other).toUInt32 = s.value - other.value := by
  have hwrap : ∀ a b : UInt32, max_value - a + 1 + b = b - a := by
    intro a b
    have hmax : max_value = -1 := rfl
    rw [hmax]
    grind
  unfold sub
  simp only [hwrap]
  split
  · split
    · exact UInt32.toUInt32_toInt32 _
    · rw [Int32.toUInt32_neg, UInt32.toUInt32_toInt32, UInt32.neg_sub]
  · split
    · rw [Int32.toUInt32_neg, UInt32.toUInt32_toInt32, UInt32.neg_sub]
    · exact UInt32.toUInt32_toInt32 _

theorem plus_sub (hmn : m ≤ n) (hnear : n < m + 2 ^ 32) :
    ((b.plus n).sub (b.plus m)).toUInt32 = UInt32.ofNat (n - m) := by
  rw [sub_toUInt32, plus, plus, ← UInt32.toNat_inj]
  simp only [UInt32.toNat_sub, UInt32.toNat_add, UInt32.toNat_ofNat']
  omega

theorem greater_plus (hm : m < n + 2 ^ 31) (hn : n < m + 2 ^ 31) :
    (b.plus m).greater (b.plus n) = decide (n < m) := by
  have hbase := b.value.toNat_lt
  have hhalf : half_max_value.toNat = 2147483647 := rfl
  rw [Bool.eq_iff_iff]
  simp only [greater, plus, gt_iff_lt, Bool.or_eq_true, Bool.and_eq_true, decide_eq_true_eq,
    UInt32.lt_iff_toNat_lt, UInt32.le_iff_toNat_le, UInt32.toNat_sub, UInt32.toNat_add, UInt32.toNat_ofNat', hhalf]
  omega

theorem plus_inj (hm : m < n + 2 ^ 32) (hn : n < m + 2 ^ 32) : b.plus m = b.plus n ↔ m = n := by
  simp only [plus, SequenceNumber32.mk.injEq, ← UInt32.toNat_inj, UInt32.toNat_add, UInt32.toNat_ofNat']
  omega

theorem less_equal_plus (hm : m < n + 2 ^ 31) (hn : n < m + 2 ^ 31) :
    (b.plus m).less_equal (b.plus n) = decide (m ≤ n) := by
  rw [less_equal, greater_plus hm hn, ← decide_not]
  exact decide_eq_decide.mpr not_lt

theorem less_plus (hm : m < n + 2 ^ 31) (hn : n < m + 2 ^ 31) :
    (b.plus m).less (b.plus n) = decide (m < n) := by
  have hne : ((b.plus m != b.plus n) = true) ↔ m ≠ n := by
    rw [bne_iff_ne, ne_eq, plus_inj (by omega) (by omega)]
  rw [less, greater_plus hm hn, Bool.eq_iff_iff, Bool.and_eq_true, hne]
  simp only [Bool.not_eq_true', decide_eq_false_iff_not, decide_eq_true_eq]
  omega

theorem greater_equal_plus (hm : m < n + 2 ^ 31) (hn : n < m + 2 ^ 31) :
    (b.plus m).greater_equal (b.plus n) = decide (n ≤ m) := by
  rw [greater_equal, greater_plus hm hn, Bool.eq_iff_iff, Bool.or_eq_true, beq_iff_eq,
    plus_inj (by omega) (by omega)]
  simp only [decide_eq_true_eq]
  omega

end SequenceNumber32

end Ns3
