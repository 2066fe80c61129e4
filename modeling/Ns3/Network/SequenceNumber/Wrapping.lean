import Ns3.Network.SequenceNumber

namespace Ns3

/-- `SequenceNumber<NUMERIC_TYPE, SIGNED_TYPE>`, where both types have `w` bits. -/
structure SequenceNumber (w : ℕ) where
  value : BitVec w
deriving DecidableEq, Repr

namespace SequenceNumber

variable {w : ℕ}

def max_value (w : ℕ) : BitVec w := BitVec.allOnes w

def half_max_value (w : ℕ) : BitVec w := max_value w / 2#w

/-- `operator+`, with a number or with the value of another sequence number. -/
def add (s : SequenceNumber w) (delta : BitVec w) : SequenceNumber w := ⟨s.value + delta⟩

/-- The negation of a signed number, which is promoted to `int` when it is shorter. It may overflow. -/
def negate (x : BitVec w) : Option (BitVec w) := if -x.toInt < 2 ^ (max w 32 - 1) then some (-x) else none

/-- `operator-` of two sequence numbers. -/
def sub (s other : SequenceNumber w) : Option (BitVec w) :=
  if other.value < s.value then
    let diff := s.value - other.value
    if diff < half_max_value w then some diff else negate (max_value w - s.value + 1#w + other.value)
  else
    let diff := other.value - s.value
    if diff < half_max_value w then negate diff else some (max_value w - other.value + 1#w + s.value)

/-- `operator>`, from which all other comparisons are defined. -/
def greater (s other : SequenceNumber w) : Bool :=
  (other.value < s.value && s.value - other.value ≤ half_max_value w) ||
    (s.value < other.value && half_max_value w < other.value - s.value)

/-- `operator<`. -/
def less (s other : SequenceNumber w) : Bool := !s.greater other && s != other

/-- Two numbers at the two ends of half the space. -/
def HalfApart (a b : SequenceNumber w) : Prop := 2 * (a.value - b.value).toNat = 2 ^ w

instance (a b : SequenceNumber w) : Decidable (HalfApart a b) := inferInstanceAs (Decidable (_ = _))

/-- A number less than half the space behind another one. -/
def Within (base a : SequenceNumber w) : Prop := 2 * (a.value - base.value).toNat < 2 ^ w

/-- The order and the difference of two numbers agree, and both are the same everywhere in the space. -/
structure Laws (a b : SequenceNumber w) : Prop where
  trichotomy : (a.less b ∧ a ≠ b ∧ ¬ a.greater b) ∨ (¬ a.less b ∧ a = b ∧ ¬ a.greater b) ∨
    (¬ a.less b ∧ a ≠ b ∧ a.greater b)
  difference : ∃ d e, a.sub b = some d ∧ b.sub a = some e ∧ (a.greater b ↔ 0 < d.toInt) ∧ d.toInt = -e.toInt ∧
    b.add d = a
  shifted : ∀ c : SequenceNumber w, (a.add c.value).greater (b.add c.value) = a.greater b ∧
    (a.add c.value).less (b.add c.value) = a.less b ∧ (a.add c.value).sub (b.add c.value) = a.sub b

structure Wraps (a b : SequenceNumber w) : Prop where
  laws : ¬ HalfApart a b → Laws a b
  transitive : ∀ base c : SequenceNumber w, Within base a → Within base b → Within base c → a.less b → b.less c → a.less c
  no_overflow : (a.sub b).isSome

variable {a b base : SequenceNumber w}

theorem toNat_half_max_value (hw : w ≠ 0) : 2 * ((half_max_value w).toNat + 1) = 2 ^ w := by
  obtain ⟨v, rfl⟩ := Nat.exists_eq_succ_of_ne_zero hw
  have hpos : 0 < 2 ^ v := Nat.two_pow_pos v
  rw [half_max_value, max_value, BitVec.toNat_udiv, BitVec.toNat_allOnes, BitVec.toNat_ofNat]
  obtain rfl | hv := Nat.eq_zero_or_pos v
  · rfl
  · have hdouble : 2 ^ (v + 1) = 2 * 2 ^ v := Nat.pow_succ'
    have hle : 2 ^ 1 ≤ 2 ^ v := Nat.pow_le_pow_right Nat.zero_lt_two hv
    rw [Nat.mod_eq_of_lt (by omega)]
    omega

/-- The way from one number up to another, when the first has the smaller value and when it has the larger one. -/
theorem toNat_ahead (a b : BitVec w) :
    (b ≤ a ∧ (a - b).toNat + b.toNat = a.toNat) ∨ (a < b ∧ (a - b).toNat + b.toNat = a.toNat + 2 ^ w) := by
  have ha := a.isLt
  have hb := b.isLt
  rw [BitVec.le_def, BitVec.lt_def, BitVec.toNat_sub]
  obtain h | h := Nat.lt_or_ge a.toNat b.toNat
  · rw [Nat.mod_eq_of_lt (by omega)]
    omega
  · rw [Nat.mod_eq_sub_mod (by omega), Nat.mod_eq_of_lt (by omega)]
    omega

theorem halfApart_comm : HalfApart a b ↔ HalfApart b a := by
  have hab := toNat_ahead a.value b.value
  have hba := toNat_ahead b.value a.value
  simp only [HalfApart, BitVec.le_def, BitVec.lt_def] at *
  omega

/-- Only when two numbers are half the space apart does their order depend on where they are. -/
theorem greater_iff : a.greater b ↔
    0 < (a.value - b.value).toNat ∧ 2 * (a.value - b.value).toNat < 2 ^ w ∨ HalfApart a b ∧ a.value < b.value := by
  have ha := a.value.isLt
  have hb := b.value.isLt
  have hab := toNat_ahead a.value b.value
  have hba := toNat_ahead b.value a.value
  obtain rfl | hw := eq_or_ne w 0
  · have heq : a.value = b.value := BitVec.eq_of_zero_length rfl
    simp [greater, heq]
  · have hhalf := toNat_half_max_value hw
    simp only [greater, HalfApart, Bool.or_eq_true, Bool.and_eq_true, decide_eq_true_eq, BitVec.le_def,
      BitVec.lt_def] at *
    omega

theorem less_iff : a.less b ↔ ¬ a.greater b ∧ a ≠ b := by
  simp [less]

theorem greater_of_not_halfApart (h : ¬ HalfApart a b) :
    a.greater b ↔ 0 < (a.value - b.value).toNat ∧ 2 * (a.value - b.value).toNat < 2 ^ w := by
  rw [greater_iff, or_iff_left fun hhalf => h hhalf.1]

theorem greater_self : a.greater a = false := by
  simp [greater]

/-- A negation overflows only where the least signed number is one of `int` or of a longer type. -/
theorem negate_eq (x : BitVec w) :
    negate x = if 32 ≤ w ∧ 2 * x.toNat = 2 ^ w then none else some (-x) := by
  have hx := x.isLt
  have hint := BitVec.toInt_eq_toNat_cond x
  have hcast : ((2 ^ w : ℕ) : ℤ) = 2 ^ w := by push_cast; rfl
  rw [negate]
  obtain hw | hw := Nat.lt_or_ge w 32
  · have hle : (2 : ℤ) ^ w ≤ 2 ^ 31 := pow_le_pow_right₀ one_le_two (Nat.le_of_lt_succ hw)
    rw [max_eq_right (le_of_lt hw), if_pos, if_neg (fun h => absurd h.1 (not_le.mpr hw))]
    split at hint <;> omega
  · have hdouble : (2 : ℤ) ^ w = 2 * 2 ^ (w - 1) := by rw [← pow_succ', Nat.sub_add_cancel (by omega)]
    rw [max_eq_left hw]
    split at hint
    · rw [if_pos (by omega), if_neg (by omega)]
    · by_cases hmin : 2 * x.toNat = 2 ^ w
      · rw [if_neg (by omega), if_pos ⟨hw, hmin⟩]
      · rw [if_pos (by omega), if_neg (fun h => hmin h.2)]

theorem around_eq (a b : BitVec w) : max_value w - a + 1#w + b = b - a := by
  rw [max_value, ← BitVec.neg_one_eq_allOnes]
  ring

theorem not_halfApart_of_lt (h : a.value - b.value < half_max_value w) : ¬ HalfApart a b := by
  intro hhalf
  obtain rfl | hw := eq_or_ne w 0
  · simp [HalfApart] at hhalf
  · have hmax := toNat_half_max_value hw
    rw [BitVec.lt_def] at h
    rw [HalfApart] at hhalf
    omega

/-- The difference is the way from the second number to the first, unless its last negation overflows. -/
theorem sub_eq (a b : SequenceNumber w) : a.sub b =
    if 32 ≤ w ∧ b.value < a.value ∧ HalfApart a b then none else some (a.value - b.value) := by
  have hback : 2 * (b.value - a.value).toNat = 2 ^ w ↔ HalfApart a b := halfApart_comm
  simp only [sub, around_eq, negate_eq, neg_sub, hback]
  by_cases hlt : b.value < a.value
  · simp only [hlt, if_true, true_and]
    by_cases hless : a.value - b.value < half_max_value w
    · rw [if_pos hless, if_neg fun h => not_halfApart_of_lt hless h.2]
    · rw [if_neg hless]
  · simp only [hlt, if_false, false_and, and_false]
    by_cases hless : b.value - a.value < half_max_value w
    · rw [if_pos hless, if_neg fun h => not_halfApart_of_lt hless (halfApart_comm.mp h.2)]
    · rw [if_neg hless]

theorem sub_of_not_halfApart (h : ¬ HalfApart a b) : a.sub b = some (a.value - b.value) := by
  rw [sub_eq, if_neg fun hover => h hover.2.2]

theorem add_sub_add (a b c : SequenceNumber w) : (a.add c.value).value - (b.add c.value).value = a.value - b.value :=
  add_sub_add_right_eq_sub a.value b.value c.value

theorem halfApart_add (c : SequenceNumber w) : HalfApart (a.add c.value) (b.add c.value) ↔ HalfApart a b := by
  rw [HalfApart, HalfApart, add_sub_add]

theorem greater_add (h : ¬ HalfApart a b) (c : SequenceNumber w) :
    (a.add c.value).greater (b.add c.value) = a.greater b := by
  have hadd : ¬ HalfApart (a.add c.value) (b.add c.value) := fun hhalf => h ((halfApart_add c).mp hhalf)
  rw [Bool.eq_iff_iff, greater_of_not_halfApart h, greater_of_not_halfApart hadd, add_sub_add]

theorem add_inj (c : SequenceNumber w) : a.add c.value = b.add c.value ↔ a = b := by
  rw [add, add, mk.injEq, add_left_inj, ← mk.injEq]

/-- The law of differences: they are as positive as the first number is greater, and lead back to it. -/
theorem difference_of_not_halfApart (h : ¬ HalfApart a b) : ∃ d e, a.sub b = some d ∧ b.sub a = some e ∧
    (a.greater b ↔ 0 < d.toInt) ∧ d.toInt = -e.toInt ∧ b.add d = a := by
  have hba : ¬ HalfApart b a := fun hhalf => h (halfApart_comm.mp hhalf)
  refine ⟨_, _, sub_of_not_halfApart h, sub_of_not_halfApart hba, ?_, ?_, ?_⟩
  · have hlt := (a.value - b.value).isLt
    rw [greater_of_not_halfApart h, BitVec.toInt_eq_toNat_cond]
    split <;> omega
  · have ha := toNat_ahead a.value b.value
    have hb := toNat_ahead b.value a.value
    rw [BitVec.toInt_eq_toNat_cond, BitVec.toInt_eq_toNat_cond]
    simp only [HalfApart, BitVec.le_def, BitVec.lt_def] at *
    split <;> split <;> omega
  · rw [add, add_sub_cancel]

theorem laws_of_not_halfApart (h : ¬ HalfApart a b) : Laws a b where
  trichotomy := by
    by_cases heq : a = b
    · subst heq
      simp [less_iff, greater_self]
    · cases hgreater : a.greater b <;> simp [less_iff, hgreater, heq]
  difference := difference_of_not_halfApart h
  shifted c := by
    have hgreater := greater_add h c
    refine ⟨hgreater, ?_, ?_⟩
    · rw [Bool.eq_iff_iff, less_iff, less_iff, hgreater, ne_eq, add_inj]
    · rw [sub_of_not_halfApart h, sub_of_not_halfApart fun hhalf => h ((halfApart_add c).mp hhalf), add_sub_add]

theorem less_of_within (ha : Within base a) (hb : Within base b) :
    a.less b ↔ (a.value - base.value).toNat < (b.value - base.value).toNat := by
  have hway : a.value - b.value = (a.value - base.value) - (b.value - base.value) := by ring
  have hahead := toNat_ahead (a.value - base.value) (b.value - base.value)
  rw [← hway] at hahead
  have heq : a = b ↔ (a.value - base.value).toNat = (b.value - base.value).toNat := by
    rw [BitVec.toNat_inj, sub_left_inj, ← mk.injEq]
  rw [Within] at ha hb
  have hnot : ¬ HalfApart a b := by
    rw [HalfApart]
    omega
  rw [less_iff, greater_of_not_halfApart hnot, ne_eq, heq]
  omega

theorem less_trans_of_within {c : SequenceNumber w} (ha : Within base a) (hb : Within base b) (hc : Within base c)
    (hab : a.less b) (hbc : b.less c) : a.less c := by
  rw [less_of_within ha hb] at hab
  rw [less_of_within hb hc] at hbc
  rw [less_of_within ha hc]
  exact lt_trans hab hbc

theorem greater_swap (h : HalfApart a b) :
    (a.add (a.value - b.value)).greater (b.add (a.value - b.value)) = b.greater a := by
  have hback : b.add (a.value - b.value) = a := by rw [add, add_sub_cancel]
  have hturn : a.value - b.value + (a.value - b.value) = 0 := by
    apply BitVec.eq_of_toNat_eq
    rw [BitVec.toNat_add, ← two_mul, h, Nat.mod_self]
    rfl
  have hforth : a.add (a.value - b.value) = b := by
    have hvalue : a.value + (a.value - b.value) = b.value + (a.value - b.value + (a.value - b.value)) := by ring
    rw [add, hvalue, hturn, add_zero]
  rw [hback, hforth]

/-- The laws hold between any two numbers but those half the space apart of which the first, in a type at least as
long as `int`, has the larger value: their difference overflows. The order is the same everywhere in the space exactly
for those that are not half of it apart. -/
theorem wraps_iff (a b : SequenceNumber w) :
    (Wraps a b ↔ ¬ (32 ≤ w ∧ b.value < a.value ∧ HalfApart a b)) ∧
      ((∀ c : SequenceNumber w, (a.add c.value).greater (b.add c.value) = a.greater b) ↔ ¬ HalfApart a b) := by
  constructor
  · have hsome : (a.sub b).isSome ↔ ¬ (32 ≤ w ∧ b.value < a.value ∧ HalfApart a b) := by
      rw [sub_eq]
      split <;> simp_all
    constructor
    · intro h
      exact hsome.mp h.no_overflow
    · intro h
      exact ⟨laws_of_not_halfApart, fun _ _ => less_trans_of_within, hsome.mpr h⟩
  · constructor
    · intro hshift hhalf
      have hswap := greater_swap hhalf
      rw [hshift ⟨a.value - b.value⟩, Bool.eq_iff_iff, greater_iff, greater_iff] at hswap
      have hback := halfApart_comm.mp hhalf
      have hab := toNat_ahead a.value b.value
      simp only [HalfApart, BitVec.le_def, BitVec.lt_def] at *
      omega
    · intro h
      exact greater_add h

/-- The difference of two 32-bit numbers half the space apart negates the least number of its type. -/
theorem half_overflows : ¬ Wraps (⟨0x80000000⟩ : SequenceNumber 32) ⟨0⟩ := by
  intro h
  have hnone : (⟨0x80000000⟩ : SequenceNumber 32).sub ⟨0⟩ = none := by decide
  have hsome := h.no_overflow
  rw [hnone] at hsome
  exact absurd hsome (by simp)

end SequenceNumber

namespace SequenceNumber32

/-- The instance for `uint32_t` and `int32_t`. -/
def toSequenceNumber (s : SequenceNumber32) : SequenceNumber 32 := ⟨s.value.toBitVec⟩

theorem greater_toSequenceNumber (s other : SequenceNumber32) :
    s.toSequenceNumber.greater other.toSequenceNumber = s.greater other := rfl

theorem sub_toSequenceNumber (s other : SequenceNumber32) {x : BitVec 32}
    (h : s.toSequenceNumber.sub other.toSequenceNumber = some x) : (s.sub other).toBitVec = x := by
  rw [SequenceNumber.sub_eq] at h
  split at h
  · cases h
  · injection h with h
    rw [← h]
    exact congrArg UInt32.toBitVec (sub_toUInt32 s other)

end SequenceNumber32

end Ns3
