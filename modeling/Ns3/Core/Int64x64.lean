import Mathlib

namespace Ns3

/-- `int64x64_t` over native 128-bit integers: a signed Q64.64 number. -/
structure Int64x64 where
  v : BitVec 128
deriving DecidableEq, Repr

namespace Int64x64

/-- The mask of the fraction, a `uint64_t`. -/
def HP_MASK_LO : BitVec 64 := 0xffffffffffffffff#64

/-- The mask of sign and integer part as declared: the complement is taken in 64 bits. -/
def HP_MASK_HI : BitVec 64 := ~~~HP_MASK_LO

def HP128_MASK_HI_BIT : BitVec 128 := 1#128 <<< 127

/-- The value in units of `2 ^ -64`. -/
def val (a : Int64x64) : ℤ := a.v.toInt

/-- The constructor from a `long`. -/
def of_long (v : BitVec 64) : Int64x64 := ⟨v.signExtend 128 <<< 64⟩

/-- The constructor from integer and fraction. -/
def of_parts (hi lo : BitVec 64) : Int64x64 := ⟨hi.signExtend 128 <<< 64 ||| lo.setWidth 128⟩

/-- The magnitude and the sign; negation wraps at the least value. -/
def magnitude (s : BitVec 128) : BitVec 128 := if s.slt 0 then -s else s

/-- The sign of the result and the magnitudes of the operands. -/
def output_sign (sa sb : BitVec 128) : Bool × BitVec 128 × BitVec 128 :=
  (sa.slt 0 != sb.slt 0, magnitude sa, magnitude sb)

/-- `Umul`; `none` is its abort for overflow. -/
def umul (a b : BitVec 128) : Option (BitVec 128) :=
  let mask := HP_MASK_LO.setWidth 128
  let aL := a &&& mask
  let bL := b &&& mask
  let aH := (a >>> 64) &&& mask
  let bH := (b >>> 64) &&& mask
  let loPart := aL * bL
  let midPart := aL * bH + aH * bL
  let hiPart := aH * bH
  if hiPart &&& HP_MASK_HI.setWidth 128 ≠ 0 then none
  else
    let result := (loPart >>> 64) + (midPart &&& mask)
    some (result + (((midPart >>> 64) + (hiPart &&& mask)) <<< 64))

def signed (negative : Bool) (result : BitVec 128) : Int64x64 :=
  ⟨if negative then -result else result⟩

def mul (x o : Int64x64) : Option Int64x64 :=
  let (negative, a, b) := output_sign x.v o.v
  (umul a b).map (signed negative)

/-- The number of fraction digits that `Udiv` computes. -/
def DIGITS : ℕ := 64

/-- The variables of `Udiv`: the digits found so far, and those of this round. -/
structure UdivState where
  rem : BitVec 128
  den : BitVec 128
  result : BitVec 128
  digis : ℕ
  shift : ℕ
deriving DecidableEq, Repr

/-- Skips trailing zeros of the divisor, for as many digits as are still wanted. -/
def skip_trailing_zeros : ℕ → BitVec 128 → ℕ → BitVec 128 × ℕ
  | 0, den, shift => (den, shift)
  | n + 1, den, shift =>
    if den &&& 1 = 0 then skip_trailing_zeros n (den >>> 1) (shift + 1) else (den, shift)

def skip_leading_zeros : ℕ → BitVec 128 → ℕ → BitVec 128 × ℕ
  | 0, rem, shift => (rem, shift)
  | n + 1, rem, shift =>
    if rem &&& HP128_MASK_HI_BIT = 0 then skip_leading_zeros n (rem <<< 1) (shift + 1)
    else (rem, shift)

/-- Casts off bits of the divisor while more digits are wanted. -/
def cast_off_bits (rem : BitVec 128) : ℕ → BitVec 128 → ℕ → BitVec 128 × ℕ
  | 0, den, shift => (den, shift)
  | n + 1, den, shift =>
    if den &&& 1 = 0 ∨ rem < den then cast_off_bits rem n (den >>> 1) (shift + 1) else (den, shift)

/-- One turn of the loop over the remainder. -/
def udiv_round (s : UdivState) : UdivState :=
  let (rem, shift) := skip_leading_zeros (DIGITS - (s.digis + s.shift)) s.rem s.shift
  let (den, shift) := cast_off_bits rem (DIGITS - (s.digis + shift)) s.den shift
  { rem := rem % den, den, result := (s.result <<< shift) + rem / den,
    digis := s.digis + shift, shift := 0 }

/-- The loop over the remainder; `none` when the turns do not suffice. -/
def udiv_loop : ℕ → UdivState → Option UdivState
  | 0, _ => none
  | fuel + 1, s =>
    if s.digis < DIGITS ∧ s.rem ≠ 0 then udiv_loop fuel (udiv_round s) else some s

def udiv_start (a b : BitVec 128) : UdivState :=
  let (den, shift) := skip_trailing_zeros DIGITS b 0
  { rem := a % b, den, result := a / b, digis := 0, shift }

/-- The digits still wanted when the remainder has run out are zeros. -/
def padded (s : UdivState) : BitVec 128 :=
  if s.digis < DIGITS then s.result <<< (DIGITS - s.digis) else s.result

/-- `Udiv`; a zero divisor traps. -/
def udiv (fuel : ℕ) (a b : BitVec 128) : Option (BitVec 128) :=
  if b = 0 then none
  else (udiv_loop fuel (udiv_start a b)).map padded

def div (fuel : ℕ) (x o : Int64x64) : Option Int64x64 :=
  let (negative, a, b) := output_sign x.v o.v
  (udiv fuel a b).map (signed negative)

def umul_by_invert (a b : BitVec 128) : BitVec 128 :=
  let mask := HP_MASK_LO.setWidth 128
  let ah := a >>> 64
  let bh := b >>> 64
  let al := a &&& mask
  let bl := b &&& mask
  let hi := ah * bh
  let mid := (ah * bl + al * bh) >>> 64
  hi + mid

def mul_by_invert (x o : Int64x64) : Int64x64 :=
  signed (x.v.slt 0) (umul_by_invert (magnitude x.v) o.v)

/-- The integer part, rounded down. -/
def get_high (x : Int64x64) : BitVec 64 := (x.v.sshiftRight 64).setWidth 64

/-- The integer part, truncated toward zero. -/
def get_int (x : Int64x64) : BitVec 64 :=
  let retval := (magnitude x.v >>> 64).setWidth 64
  if x.v.slt 0 then -retval else retval

/-- The nearest integer, halfway cases away from zero. -/
def round (x : Int64x64) : BitVec 64 :=
  let half := of_parts 0 (1#64 <<< 63)
  let retval := get_high ⟨magnitude x.v + half.v⟩
  if x.v.slt 0 then -retval else retval

/-- `Invert`; `none` also for the failing assertion on the divisor. -/
def invert (fuel : ℕ) (v : BitVec 64) : Option Int64x64 :=
  if 1 < v then
    (udiv fuel (1#128 <<< 64) (v.setWidth 128)).map fun quo =>
      let tmp := (of_parts v 0).mul_by_invert ⟨quo⟩
      if tmp.get_high ≠ 1 then ⟨quo + 1⟩ else ⟨quo⟩
  else none

end Int64x64

end Ns3
