import Mathlib

namespace Ns3

instance number_space_ne_zero : NeZero 1024 := ⟨by decide⟩

/-- A 10-bit sequence number, which is compared from a modulus base on. -/
structure SequenceNumber10 where
  value : Fin 1024 := 0
  modulus_base : Fin 1024 := 0
deriving DecidableEq, Repr

namespace SequenceNumber10

def set_modulus_base (sn base : SequenceNumber10) : SequenceNumber10 := { sn with modulus_base := base.value }

def next (sn : SequenceNumber10) : SequenceNumber10 := { sn with value := sn.value + 1 }

def add (sn : SequenceNumber10) (delta : Fin 1024) : SequenceNumber10 := { sn with value := sn.value + delta }

def sub (sn : SequenceNumber10) (delta : Fin 1024) : SequenceNumber10 := { sn with value := sn.value - delta }

/-- `(m_value - m_modulusBase) % 1024` as the code computes it: the remainder of a negative number is negative,
and becomes a 16-bit word. -/
def relative (sn : SequenceNumber10) : ℕ :=
  (Int.tmod ((sn.value.val : ℤ) - sn.modulus_base.val) 1024 % 65536).toNat

/-- `operator>`, which asserts that the bases are the same. -/
def gt (sn other : SequenceNumber10) : Option Bool :=
  if sn.modulus_base = other.modulus_base then some (decide (other.relative < sn.relative)) else none

def le (sn other : SequenceNumber10) : Option Bool := (sn.gt other).map not

def ge (sn other : SequenceNumber10) : Option Bool := (sn.gt other).map (· || sn.value == other.value)

def lt (sn other : SequenceNumber10) : Option Bool := (sn.gt other).map (!· && sn.value != other.value)

variable {sn other : SequenceNumber10}

def ahead (sn : SequenceNumber10) : ℕ := (sn.value - sn.modulus_base).val

theorem relative_eq : sn.relative =
    if sn.modulus_base.val ≤ sn.value.val then sn.value.val - sn.modulus_base.val
    else 65536 + sn.value.val - sn.modulus_base.val := by
  have hvalue := sn.value.isLt
  have hbase := sn.modulus_base.isLt
  rw [relative]
  split
  · rw [Int.tmod_eq_of_lt (by omega) (by omega)]
    omega
  · rw [← neg_sub (sn.modulus_base.val : ℤ), Int.neg_tmod, Int.tmod_eq_of_lt (by omega) (by omega)]
    omega

theorem ahead_eq : sn.ahead =
    if sn.modulus_base.val ≤ sn.value.val then sn.value.val - sn.modulus_base.val
    else 1024 + sn.value.val - sn.modulus_base.val := by
  have hvalue := sn.value.isLt
  have hbase := sn.modulus_base.isLt
  rw [ahead, Fin.val_sub]
  split
  · omega
  · omega

theorem relative_lt_iff (hbase : sn.modulus_base = other.modulus_base) :
    sn.relative < other.relative ↔ sn.ahead < other.ahead := by
  have hsn := sn.value.isLt
  have hother := other.value.isLt
  have hb := other.modulus_base.isLt
  rw [relative_eq, relative_eq, ahead_eq, ahead_eq, hbase]
  split <;> split <;> omega

theorem value_eq_iff (hbase : sn.modulus_base = other.modulus_base) :
    sn.value = other.value ↔ sn.ahead = other.ahead := by
  rw [ahead, ahead, hbase, Fin.val_inj]
  exact sub_left_inj.symm

theorem gt_eq (hbase : sn.modulus_base = other.modulus_base) :
    sn.gt other = some (decide (other.ahead < sn.ahead)) := by
  rw [gt, if_pos hbase]
  exact congrArg some (decide_eq_decide.mpr (relative_lt_iff hbase.symm))

theorem le_eq (hbase : sn.modulus_base = other.modulus_base) :
    sn.le other = some (decide (sn.ahead ≤ other.ahead)) := by
  rw [le, gt_eq hbase, Option.map_some, ← decide_not]
  simp only [not_lt]

theorem ge_eq (hbase : sn.modulus_base = other.modulus_base) :
    sn.ge other = some (decide (other.ahead ≤ sn.ahead)) := by
  rw [ge, gt_eq hbase, Option.map_some]
  congr 1
  rw [Bool.eq_iff_iff, Bool.or_eq_true, beq_iff_eq, decide_eq_true_eq, decide_eq_true_eq, value_eq_iff hbase]
  omega

theorem lt_eq (hbase : sn.modulus_base = other.modulus_base) :
    sn.lt other = some (decide (sn.ahead < other.ahead)) := by
  rw [lt, gt_eq hbase, Option.map_some]
  congr 1
  rw [Bool.eq_iff_iff, Bool.and_eq_true, bne_iff_ne, Bool.not_eq_true', decide_eq_false_iff_not, decide_eq_true_eq,
    ne_eq, value_eq_iff hbase]
  omega

end SequenceNumber10

end Ns3
