import Ns3.Core.Int64x64

namespace Ns3.Int64x64

theorem and_one_eq_zero_iff (x : BitVec 128) : x &&& 1 = 0 ↔ x.toNat % 2 = 0 := by
  rw [← BitVec.toNat_inj, BitVec.toNat_and]
  simp [Nat.and_one_is_mod]

theorem and_hi_bit_eq_zero_iff (x : BitVec 128) : x &&& HP128_MASK_HI_BIT = 0 ↔ x.toNat < 2 ^ 127 := by
  have hmask : HP128_MASK_HI_BIT = BitVec.twoPow 128 127 := by decide
  rw [hmask, BitVec.and_twoPow]
  have hmsb : x.getLsbD 127 = decide (2 ^ 127 ≤ x.toNat) := by
    simpa [BitVec.msb_eq_getLsbD_last] using BitVec.msb_eq_decide x
  rw [hmsb]
  have hbit : BitVec.twoPow 128 127 ≠ 0#128 := by decide
  simp [hbit]

theorem toNat_shiftRight_one {x : BitVec 128} (heven : x.toNat % 2 = 0) :
    (x >>> 1).toNat * 2 = x.toNat := by
  rw [BitVec.toNat_ushiftRight, Nat.shiftRight_eq_div_pow]
  omega

theorem skip_trailing_zeros_spec (n : ℕ) (den : BitVec 128) (shift : ℕ) :
    ∃ j ≤ n, (skip_trailing_zeros n den shift).2 = shift + j ∧
      (skip_trailing_zeros n den shift).1.toNat * 2 ^ j = den.toNat := by
  induction n generalizing den shift with
  | zero => exact ⟨0, le_rfl, rfl, by simp [skip_trailing_zeros]⟩
  | succ n ih =>
    rw [skip_trailing_zeros]
    split
    next heven =>
      obtain ⟨j, hj, hshift, hden⟩ := ih (den >>> 1) (shift + 1)
      refine ⟨j + 1, by omega, by omega, ?_⟩
      rw [pow_succ, ← mul_assoc, hden, toNat_shiftRight_one ((and_one_eq_zero_iff den).mp heven)]
    next => exact ⟨0, by omega, rfl, by simp⟩

theorem skip_leading_zeros_spec (n : ℕ) (rem : BitVec 128) (shift : ℕ) :
    ∃ i ≤ n, (skip_leading_zeros n rem shift).2 = shift + i ∧
      (skip_leading_zeros n rem shift).1.toNat = rem.toNat * 2 ^ i ∧
      (i = n ∨ 2 ^ 127 ≤ (skip_leading_zeros n rem shift).1.toNat) := by
  induction n generalizing rem shift with
  | zero => exact ⟨0, le_rfl, rfl, by simp [skip_leading_zeros], Or.inl rfl⟩
  | succ n ih =>
    rw [skip_leading_zeros]
    split
    next hlow =>
      have hlt := (and_hi_bit_eq_zero_iff rem).mp hlow
      have hdouble : (rem <<< 1).toNat = rem.toNat * 2 := by
        rw [BitVec.toNat_shiftLeft, Nat.shiftLeft_eq, Nat.mod_eq_of_lt (by omega), pow_one]
      obtain ⟨i, hi, hshift, hrem, hend⟩ := ih (rem <<< 1) (shift + 1)
      refine ⟨i + 1, by omega, by omega, ?_, by omega⟩
      rw [hrem, hdouble, pow_succ]
      ring
    next hhigh =>
      have hle : 2 ^ 127 ≤ rem.toNat := Nat.le_of_not_lt fun h => hhigh ((and_hi_bit_eq_zero_iff rem).mpr h)
      exact ⟨0, by omega, rfl, by simp, Or.inr hle⟩

/-- Only zeros are cast off: where digits are still wanted the remainder has its top bit set and
is not less than the divisor. -/
theorem cast_off_bits_spec (rem : BitVec 128) (n : ℕ) (den : BitVec 128) (shift : ℕ)
    (hle : n ≠ 0 → den.toNat ≤ rem.toNat) :
    ∃ j ≤ n, (cast_off_bits rem n den shift).2 = shift + j ∧
      (cast_off_bits rem n den shift).1.toNat * 2 ^ j = den.toNat := by
  induction n generalizing den shift with
  | zero => exact ⟨0, le_rfl, rfl, by simp [cast_off_bits]⟩
  | succ n ih =>
    have hden := hle (Nat.succ_ne_zero n)
    rw [cast_off_bits]
    split
    next hcast =>
      have heven : den.toNat % 2 = 0 := by
        rcases hcast with heven | hlt
        · exact (and_one_eq_zero_iff den).mp heven
        · exact absurd (BitVec.lt_def.mp hlt) (by omega)
      have hhalf := toNat_shiftRight_one heven
      obtain ⟨j, hj, hshift, hpow⟩ := ih (den >>> 1) (shift + 1) (fun _ => by omega)
      refine ⟨j + 1, by omega, by omega, ?_⟩
      rw [pow_succ, ← mul_assoc, hpow, hhalf]
    next => exact ⟨0, by omega, rfl, by simp⟩

/-- The digits `q` found so far, `result` being their low bits: `a / b` shifted by `digis` is `q`
and the rest is the remainder over the divisor with the digits of this round. -/
structure Quotient (a b : ℕ) (s : UdivState) (q : ℕ) : Prop where
  result : s.result.toNat = q % 2 ^ 128
  exact : a * 2 ^ s.digis * (s.den.toNat * 2 ^ s.shift) =
    (q * (s.den.toNat * 2 ^ s.shift) + s.rem.toNat) * b
  rem_lt : s.rem.toNat < s.den.toNat * 2 ^ s.shift
  den_le : s.den.toNat ≤ 2 ^ 127
  digits : s.digis + s.shift ≤ DIGITS

/-- One turn of the loop: how far the remainder and the divisor are shifted. -/
theorem udiv_round_spec {a b q : ℕ} {s : UdivState} (h : Quotient a b s q) (hmore : s.digis < DIGITS) :
    ∃ i j, s.shift + i + j ≠ 0 ∧ (udiv_round s).digis = s.digis + (s.shift + i + j) ∧
      (udiv_round s).digis ≤ DIGITS ∧ (udiv_round s).shift = 0 ∧
      (udiv_round s).den.toNat * 2 ^ j = s.den.toNat ∧
      (udiv_round s).rem.toNat = s.rem.toNat * 2 ^ i % (udiv_round s).den.toNat ∧
      (udiv_round s).result.toNat =
        (q * 2 ^ (s.shift + i + j) + s.rem.toNat * 2 ^ i / (udiv_round s).den.toNat) % 2 ^ 128 := by
  have hdigits := h.digits
  have hdenle := h.den_le
  have hremlt := h.rem_lt
  have hresult := h.result
  obtain ⟨i, hi, hshift, hrem, hend⟩ :=
    skip_leading_zeros_spec (DIGITS - (s.digis + s.shift)) s.rem s.shift
  simp only [udiv_round]
  generalize skip_leading_zeros (DIGITS - (s.digis + s.shift)) s.rem s.shift = lead at *
  obtain ⟨rem, shift⟩ := lead
  dsimp only at hshift hrem hend ⊢
  obtain ⟨j, hj, hcast, hden⟩ := cast_off_bits_spec rem (DIGITS - (s.digis + shift)) s.den shift
    (fun _ => by omega)
  generalize cast_off_bits rem (DIGITS - (s.digis + shift)) s.den shift = cast at *
  obtain ⟨den, shift'⟩ := cast
  dsimp only at hcast hden ⊢
  refine ⟨i, j, ?_, by omega, by omega, trivial, hden, ?_, ?_⟩
  · -- without a pending digit the remainder is less than the divisor and its top bit is clear
    intro hzero
    have hshift₀ : s.shift = 0 := by omega
    have hi₀ : i = 0 := by omega
    rw [hshift₀, pow_zero, mul_one] at hremlt
    rw [hi₀, pow_zero, mul_one] at hrem
    omega
  · rw [BitVec.toNat_umod, hrem]
  · rw [BitVec.toNat_add, BitVec.toNat_shiftLeft, BitVec.toNat_udiv, hrem, Nat.shiftLeft_eq, hresult,
      hcast, hshift, Nat.mod_mul_mod, Nat.mod_add_mod]

theorem udiv_round_quotient {a b q : ℕ} {s : UdivState} (h : Quotient a b s q)
    (hmore : s.digis < DIGITS) :
    s.digis < (udiv_round s).digis ∧ ∃ q', Quotient a b (udiv_round s) q' := by
  obtain ⟨i, j, hpos, hdigis, hle, hshift, hden, hrem, hresult⟩ := udiv_round_spec h hmore
  have hdenpos : 0 < s.den.toNat := by
    have := h.rem_lt
    exact Nat.pos_of_ne_zero fun hzero => by simp [hzero] at this
  have hden'pos : 0 < (udiv_round s).den.toNat := by
    apply Nat.pos_of_ne_zero
    intro hzero
    rw [hzero, zero_mul] at hden
    omega
  refine ⟨by omega, q * 2 ^ (s.shift + i + j) + s.rem.toNat * 2 ^ i / (udiv_round s).den.toNat,
    hresult, ?_, ?_, ?_, by omega⟩
  · have hdivmod := Nat.div_add_mod (s.rem.toNat * 2 ^ i) (udiv_round s).den.toNat
    have hexact := h.exact
    rw [← hden] at hexact
    rw [hshift, hdigis, hrem, pow_zero, mul_one]
    generalize (udiv_round s).den.toNat = den at *
    generalize s.rem.toNat * 2 ^ i / den = quo at *
    generalize hr : s.rem.toNat * 2 ^ i % den = r at *
    calc a * 2 ^ (s.digis + (s.shift + i + j)) * den
        = a * 2 ^ s.digis * (den * 2 ^ j * 2 ^ s.shift) * 2 ^ i := by ring
      _ = (q * (den * 2 ^ j * 2 ^ s.shift) + s.rem.toNat) * b * 2 ^ i := by rw [hexact]
      _ = (q * 2 ^ (s.shift + i + j) * den + s.rem.toNat * 2 ^ i) * b := by ring
      _ = (q * 2 ^ (s.shift + i + j) * den + (den * quo + r)) * b := by rw [hdivmod]
      _ = ((q * 2 ^ (s.shift + i + j) + quo) * den + r) * b := by ring
  · rw [hshift, hrem, pow_zero, mul_one]
    exact Nat.mod_lt _ hden'pos
  · have hdenle := h.den_le
    have : (udiv_round s).den.toNat * 1 ≤ (udiv_round s).den.toNat * 2 ^ j :=
      Nat.mul_le_mul_left _ Nat.one_le_two_pow
    omega

theorem udiv_loop_spec {a b : ℕ} (fuel : ℕ) {s : UdivState} {q : ℕ} (h : Quotient a b s q)
    (hfuel : DIGITS - s.digis < fuel) :
    ∃ s' q', udiv_loop fuel s = some s' ∧ Quotient a b s' q' ∧
      (s'.digis = DIGITS ∨ s'.rem.toNat = 0) := by
  induction fuel generalizing s q with
  | zero => omega
  | succ fuel ih =>
    rw [udiv_loop]
    split
    next hturn =>
      obtain ⟨hless, q', hnext⟩ := udiv_round_quotient h hturn.1
      have hend := hturn.1
      exact ih hnext (by omega)
    next hstop =>
      refine ⟨s, q, rfl, h, ?_⟩
      have hdigits := h.digits
      by_cases hmore : s.digis < DIGITS
      · have hrem : s.rem = 0 := by
          by_contra hne
          exact hstop ⟨hmore, hne⟩
        exact Or.inr (by simp [hrem])
      · exact Or.inl (by omega)

theorem udiv_start_quotient {a b : BitVec 128} (hb : b ≠ 0) (hle : b.toNat ≤ 2 ^ 127) :
    Quotient a.toNat b.toNat (udiv_start a b) (a.toNat / b.toNat) ∧ (udiv_start a b).digis = 0 := by
  have hpos : 0 < b.toNat := by
    apply Nat.pos_of_ne_zero
    intro hzero
    exact hb (BitVec.eq_of_toNat_eq hzero)
  obtain ⟨j, hj, hshift, hden⟩ := skip_trailing_zeros_spec DIGITS b 0
  simp only [udiv_start]
  generalize skip_trailing_zeros DIGITS b 0 = skipped at *
  obtain ⟨den, shift⟩ := skipped
  dsimp only at hshift hden ⊢
  rw [Nat.zero_add] at hshift
  subst hshift
  refine ⟨⟨?_, ?_, ?_, ?_, ?_⟩, trivial⟩
  · rw [BitVec.toNat_udiv, Nat.mod_eq_of_lt]
    exact lt_of_le_of_lt (Nat.div_le_self _ _) a.isLt
  · dsimp only
    rw [hden, BitVec.toNat_umod, pow_zero, mul_one, mul_comm (a.toNat / b.toNat), Nat.div_add_mod]
  · dsimp only
    rw [hden, BitVec.toNat_umod]
    exact Nat.mod_lt _ hpos
  · dsimp only
    have : den.toNat * 1 ≤ den.toNat * 2 ^ shift := Nat.mul_le_mul_left _ Nat.one_le_two_pow
    omega
  · dsimp only
    omega

theorem div_eq_of_scaled {n d q e r : ℕ} (hd : 0 < d) (hr : r < e) (h : n * e = (q * e + r) * d) :
    n / d = q := by
  have he : 0 < e := by omega
  apply Nat.div_eq_of_lt_le
  · apply Nat.le_of_mul_le_mul_right _ he
    calc q * d * e ≤ q * d * e + r * d := Nat.le_add_right _ _
      _ = n * e := by rw [h]; ring
  · apply Nat.lt_of_mul_lt_mul_right (a := e)
    calc n * e = q * e * d + r * d := by rw [h]; ring
      _ < q * e * d + e * d := Nat.add_lt_add_left ((Nat.mul_lt_mul_right hd).mpr hr) _
      _ = (q + 1) * d * e := by ring

/-- The digit loop ends, and `Udiv` is the quotient to 64 fraction digits, modulo the width. -/
theorem udiv_eq {a b : BitVec 128} (hb : b ≠ 0) (hle : b.toNat ≤ 2 ^ 127) {fuel : ℕ}
    (hfuel : DIGITS < fuel) :
    ∃ r, udiv fuel a b = some r ∧ r.toNat = a.toNat * 2 ^ 64 / b.toNat % 2 ^ 128 := by
  obtain ⟨hstart, hdigis⟩ := udiv_start_quotient (a := a) hb hle
  obtain ⟨s, q, hloop, hq, hend⟩ := udiv_loop_spec fuel hstart (by omega)
  refine ⟨padded s, by rw [udiv, if_neg hb, hloop, Option.map_some], ?_⟩
  have hbpos : 0 < b.toNat := by
    apply Nat.pos_of_ne_zero
    intro hzero
    exact hb (BitVec.eq_of_toNat_eq hzero)
  have hE : 0 < s.den.toNat * 2 ^ s.shift := lt_of_le_of_lt (Nat.zero_le _) hq.rem_lt
  have hexact := hq.exact
  have hdigits := hq.digits
  have hresult := hq.result
  have hlt := hq.rem_lt
  generalize s.den.toNat * 2 ^ s.shift = E at *
  have hquot : (q * 2 ^ (DIGITS - s.digis)) = a.toNat * 2 ^ 64 / b.toNat := by
    symm
    have hscaled : a.toNat * 2 ^ 64 * E =
        (q * 2 ^ (DIGITS - s.digis) * E + s.rem.toNat * 2 ^ (DIGITS - s.digis)) * b.toNat := by
      have h64 : (2 : ℕ) ^ 64 = 2 ^ s.digis * 2 ^ (DIGITS - s.digis) := by
        rw [← pow_add]
        congr 1
        simp only [DIGITS] at hdigits ⊢
        omega
      calc a.toNat * 2 ^ 64 * E = a.toNat * 2 ^ s.digis * E * 2 ^ (DIGITS - s.digis) := by
            rw [h64]; ring
        _ = _ := by rw [hexact]; ring
    have hrest : s.rem.toNat * 2 ^ (DIGITS - s.digis) < E := by
      rcases hend with hdone | hzero
      · rw [hdone, Nat.sub_self, pow_zero, mul_one]
        exact hlt
      · rw [hzero, zero_mul]
        exact hE
    exact div_eq_of_scaled hbpos hrest hscaled
  rw [← hquot, padded]
  split
  · rw [BitVec.toNat_shiftLeft, Nat.shiftLeft_eq, hresult, Nat.mod_mul_mod]
  next hfull =>
    rw [hresult, show DIGITS - s.digis = 0 by omega, pow_zero, mul_one]

/-- The value can be held in the signed Q64.64 format. -/
def Fits (x : ℤ) : Prop := -2 ^ 127 ≤ x ∧ x < 2 ^ 127

instance (x : ℤ) : Decidable (Fits x) := by
  unfold Fits
  infer_instance

/-- The product is exact up to truncation toward zero, and it aborts just when it does not fit. -/
def MulRight (a b : Int64x64) : Prop :=
  (mul a b = none ↔ ¬ Fits ((val a * val b).tdiv (2 ^ 64))) ∧
    ∀ c, mul a b = some c → val c = (val a * val b).tdiv (2 ^ 64)

/-- The digit loop ends, and the quotient is exact up to truncation toward zero. -/
def DivRight (a b : Int64x64) : Prop :=
  ∀ fuel > DIGITS, ∃ c, div fuel a b = some c ∧ val c = (val a * 2 ^ 64).tdiv (val b)

theorem slt_zero_eq (s : BitVec 128) : s.slt 0 = decide (s.toInt < 0) := by
  simp [BitVec.slt_eq_decide]

theorem toNat_magnitude (s : BitVec 128) : (magnitude s).toNat = s.toInt.natAbs := by
  have hlt := s.isLt
  have hto := BitVec.toInt_eq_toNat_cond s
  rw [magnitude, slt_zero_eq]
  by_cases hsmall : 2 * s.toNat < 2 ^ 128
  · rw [if_pos hsmall] at hto
    rw [if_neg (by simp only [decide_eq_true_eq]; omega), hto, Int.natAbs_natCast]
  · rw [if_neg hsmall] at hto
    rw [if_pos (by simp only [decide_eq_true_eq]; omega), BitVec.toNat_neg]
    omega

theorem magnitude_le (s : BitVec 128) : (magnitude s).toNat ≤ 2 ^ 127 := by
  have hlow := BitVec.le_toInt s
  have hhigh : s.toInt < 2 ^ (128 - 1) := BitVec.toInt_lt
  rw [toNat_magnitude]
  norm_num only at hlow hhigh ⊢
  omega

theorem lt_of_fits {negative : Bool} {n : ℕ} (h : Fits (if negative then -(n : ℤ) else n)) :
    n < 2 ^ 128 := by
  obtain ⟨hlow, hhigh⟩ := h
  norm_num only at hlow hhigh ⊢
  cases negative <;> simp only [if_true, Bool.false_eq_true, if_false] at hlow hhigh <;> omega

/-- A magnitude, known modulo the width, is given its sign back exactly where the result fits. -/
theorem val_signed {negative : Bool} {r : BitVec 128} {n : ℕ} {x : ℤ} (hfits : Fits x)
    (hx : x = if negative then -(n : ℤ) else n) (hr : r.toNat = n % 2 ^ 128) :
    val (signed negative r) = x := by
  rw [Nat.mod_eq_of_lt (lt_of_fits (hx ▸ hfits))] at hr
  subst hr
  obtain ⟨hlow, hhigh⟩ := hfits
  have hbmod : x.bmod (2 ^ 128) = x :=
    Int.bmod_eq_of_le (by norm_num only at hlow ⊢; omega) (by norm_num only at hhigh ⊢; omega)
  cases negative with
  | true =>
    rw [if_pos rfl] at hx
    rw [val, signed, if_pos rfl, BitVec.toInt_neg, BitVec.toInt_eq_toNat_bmod, ← hbmod, hx,
      Int.bmod_neg_bmod]
  | false =>
    rw [if_neg Bool.false_ne_true] at hx
    rw [val, signed, if_neg Bool.false_ne_true, BitVec.toInt_eq_toNat_bmod, ← hx, hbmod]

theorem mul_tdiv_eq (x y : ℤ) (d : ℕ) :
    (x * y).tdiv d = if decide (x < 0) != decide (y < 0) then -((x.natAbs * y.natAbs / d : ℕ) : ℤ)
      else ((x.natAbs * y.natAbs / d : ℕ) : ℤ) := by
  have hcast (m n : ℕ) : ((m : ℤ) * n).tdiv d = ((m * n / d : ℕ) : ℤ) := by
    rw [← Int.natCast_mul, Int.ofNat_tdiv]
  by_cases hx : x < 0 <;> by_cases hy : y < 0
  · rw [if_neg (by simp [hx, hy]), ← hcast, Int.ofNat_natAbs_of_nonpos hx.le,
      Int.ofNat_natAbs_of_nonpos hy.le, neg_mul_neg]
  · rw [if_pos (by simp [hx, hy]), ← hcast, Int.ofNat_natAbs_of_nonpos hx.le,
      Int.natAbs_of_nonneg (by omega), neg_mul, Int.neg_tdiv, neg_neg]
  · rw [if_pos (by simp [hx, hy]), ← hcast, Int.ofNat_natAbs_of_nonpos hy.le,
      Int.natAbs_of_nonneg (by omega), mul_neg, Int.neg_tdiv, neg_neg]
  · rw [if_neg (by simp [hx, hy]), ← hcast, Int.natAbs_of_nonneg (by omega),
      Int.natAbs_of_nonneg (by omega)]

theorem tdiv_eq (x y : ℤ) :
    x.tdiv y = if decide (x < 0) != decide (y < 0) then -((x.natAbs / y.natAbs : ℕ) : ℤ)
      else ((x.natAbs / y.natAbs : ℕ) : ℤ) := by
  have hcast (m n : ℕ) : (m : ℤ).tdiv n = ((m / n : ℕ) : ℤ) := (Int.ofNat_tdiv m n).symm
  by_cases hx : x < 0 <;> by_cases hy : y < 0
  · rw [if_neg (by simp [hx, hy]), ← hcast, Int.ofNat_natAbs_of_nonpos hx.le,
      Int.ofNat_natAbs_of_nonpos hy.le, Int.neg_tdiv, Int.tdiv_neg, neg_neg]
  · rw [if_pos (by simp [hx, hy]), ← hcast, Int.ofNat_natAbs_of_nonpos hx.le,
      Int.natAbs_of_nonneg (by omega), Int.neg_tdiv, neg_neg]
  · rw [if_pos (by simp [hx, hy]), ← hcast, Int.ofNat_natAbs_of_nonpos hy.le,
      Int.natAbs_of_nonneg (by omega), Int.tdiv_neg, neg_neg]
  · rw [if_neg (by simp [hx, hy]), ← hcast, Int.natAbs_of_nonneg (by omega),
      Int.natAbs_of_nonneg (by omega)]

theorem toNat_lo_mask : (HP_MASK_LO.setWidth 128).toNat = 2 ^ 64 - 1 := by decide

theorem toNat_and_lo (a : BitVec 128) : (a &&& HP_MASK_LO.setWidth 128).toNat = a.toNat % 2 ^ 64 := by
  rw [BitVec.toNat_and, toNat_lo_mask, Nat.and_two_pow_sub_one_eq_mod]

theorem and_hi_mask (a : BitVec 128) : a &&& HP_MASK_HI.setWidth 128 = 0 := by
  have hzero : HP_MASK_HI.setWidth 128 = 0#128 := by decide
  rw [hzero, BitVec.and_zero]
  rfl

theorem partial_products (lo mid hi : ℕ) :
    ((lo / 2 ^ 64 + mid % 2 ^ 64) % 2 ^ 128 +
        (mid / 2 ^ 64 + hi % 2 ^ 64) % 2 ^ 128 * 2 ^ 64 % 2 ^ 128) % 2 ^ 128 =
      (hi * 2 ^ 128 + mid * 2 ^ 64 + lo) / 2 ^ 64 % 2 ^ 128 := by
  norm_num only
  omega

/-- `Umul` never aborts: it is the product without its low half, modulo the width. -/
theorem umul_eq {a b : BitVec 128} (ha : a.toNat ≤ 2 ^ 127) (hb : b.toNat ≤ 2 ^ 127) :
    ∃ r, umul a b = some r ∧ r.toNat = a.toNat * b.toNat / 2 ^ 64 % 2 ^ 128 := by
  rw [umul]
  dsimp only
  rw [if_neg (by rw [and_hi_mask]; exact fun h => h rfl)]
  refine ⟨_, rfl, ?_⟩
  have haL : a.toNat % 2 ^ 64 ≤ 2 ^ 64 - 1 := by omega
  have hbL : b.toNat % 2 ^ 64 ≤ 2 ^ 64 - 1 := by omega
  have haH : a.toNat / 2 ^ 64 ≤ 2 ^ 63 := by omega
  have hbH : b.toNat / 2 ^ 64 ≤ 2 ^ 63 := by omega
  have hlo := Nat.mul_le_mul haL hbL
  have hmid₁ := Nat.mul_le_mul haL hbH
  have hmid₂ := Nat.mul_le_mul haH hbL
  have hhi := Nat.mul_le_mul haH hbH
  have hsplit : a.toNat * b.toNat =
      a.toNat / 2 ^ 64 * (b.toNat / 2 ^ 64) * 2 ^ 128 +
        (a.toNat % 2 ^ 64 * (b.toNat / 2 ^ 64) + a.toNat / 2 ^ 64 * (b.toNat % 2 ^ 64)) * 2 ^ 64 +
        a.toNat % 2 ^ 64 * (b.toNat % 2 ^ 64) := by
    calc a.toNat * b.toNat
        = (2 ^ 64 * (a.toNat / 2 ^ 64) + a.toNat % 2 ^ 64) *
            (2 ^ 64 * (b.toNat / 2 ^ 64) + b.toNat % 2 ^ 64) := by
          rw [Nat.div_add_mod, Nat.div_add_mod]
      _ = _ := by ring
  have haWord : a.toNat / 2 ^ 64 % 2 ^ 64 = a.toNat / 2 ^ 64 := Nat.mod_eq_of_lt (by omega)
  have hbWord : b.toNat / 2 ^ 64 % 2 ^ 64 = b.toNat / 2 ^ 64 := Nat.mod_eq_of_lt (by omega)
  have hloPart : a.toNat % 2 ^ 64 * (b.toNat % 2 ^ 64) % 2 ^ 128 =
      a.toNat % 2 ^ 64 * (b.toNat % 2 ^ 64) := Nat.mod_eq_of_lt (by omega)
  have hmidPart₁ : a.toNat % 2 ^ 64 * (b.toNat / 2 ^ 64) % 2 ^ 128 =
      a.toNat % 2 ^ 64 * (b.toNat / 2 ^ 64) := Nat.mod_eq_of_lt (by omega)
  have hmidPart₂ : a.toNat / 2 ^ 64 * (b.toNat % 2 ^ 64) % 2 ^ 128 =
      a.toNat / 2 ^ 64 * (b.toNat % 2 ^ 64) := Nat.mod_eq_of_lt (by omega)
  have hhiPart : a.toNat / 2 ^ 64 * (b.toNat / 2 ^ 64) % 2 ^ 128 =
      a.toNat / 2 ^ 64 * (b.toNat / 2 ^ 64) := Nat.mod_eq_of_lt (by omega)
  rw [hsplit, ← partial_products]
  simp only [BitVec.toNat_add, BitVec.toNat_mul, BitVec.toNat_shiftLeft, toNat_and_lo,
    BitVec.toNat_ushiftRight, Nat.shiftRight_eq_div_pow, Nat.shiftLeft_eq, haWord, hbWord, hloPart,
    hmidPart₁, hmidPart₂, hhiPart]
  rw [Nat.mod_eq_of_lt (b := 2 ^ 128)
    (a := a.toNat % 2 ^ 64 * (b.toNat / 2 ^ 64) + a.toNat / 2 ^ 64 * (b.toNat % 2 ^ 64)) (by omega)]

theorem div_right {a b : Int64x64} (hb : b.v ≠ 0) (hfits : Fits ((val a * 2 ^ 64).tdiv (val b))) :
    DivRight a b := by
  intro fuel hfuel
  have hmag : magnitude b.v ≠ 0 := by
    intro hzero
    apply hb
    have := toNat_magnitude b.v
    rw [hzero] at this
    apply BitVec.eq_of_toInt_eq
    simpa using this.symm
  obtain ⟨r, hr, hrval⟩ := udiv_eq (a := magnitude a.v) hmag (magnitude_le b.v) hfuel
  have hvalue := tdiv_eq (val a * 2 ^ 64) (val b)
  have hsign : decide (val a * 2 ^ 64 < 0) = decide (val a < 0) := by
    apply decide_eq_decide.mpr
    omega
  rw [hsign, Int.natAbs_mul, show ((2 : ℤ) ^ 64).natAbs = 2 ^ 64 by rfl] at hvalue
  rw [toNat_magnitude, toNat_magnitude] at hrval
  refine ⟨signed (a.v.slt 0 != b.v.slt 0) r, ?_, ?_⟩
  · rw [div, output_sign]
    dsimp only
    rw [hr, Option.map_some]
  · rw [slt_zero_eq, slt_zero_eq]
    exact val_signed hfits hvalue hrval

/-- Division is exact on every quotient that fits, and multiplication exactly on the products that
fit: its overflow test has an empty mask and never aborts. -/
theorem exact_iff (a b : Int64x64) :
    (MulRight a b ∧ (b.v ≠ 0 → Fits ((val a * 2 ^ 64).tdiv (val b)) → DivRight a b)) ↔
      Fits ((val a * val b).tdiv (2 ^ 64)) := by
  obtain ⟨r, hr, hrval⟩ := umul_eq (magnitude_le a.v) (magnitude_le b.v)
  have hmul : mul a b = some (signed (a.v.slt 0 != b.v.slt 0) r) := by
    rw [mul, output_sign]
    dsimp only
    rw [hr, Option.map_some]
  constructor
  · intro ⟨⟨habort, _⟩, _⟩
    by_contra hno
    have := habort.mpr hno
    rw [hmul] at this
    exact Option.some_ne_none _ this
  · intro hfits
    refine ⟨⟨?_, ?_⟩, div_right⟩
    · rw [hmul]
      exact ⟨fun h => absurd h (Option.some_ne_none _), fun h => absurd hfits h⟩
    · intro c hc
      rw [hmul, Option.some_inj] at hc
      subst hc
      rw [toNat_magnitude, toNat_magnitude] at hrval
      rw [slt_zero_eq, slt_zero_eq]
      exact val_signed hfits (mul_tdiv_eq (val a) (val b) (2 ^ 64)) hrval

theorem overflow_not_caught :
    ¬ (MulRight ⟨1#128 <<< 126⟩ ⟨1#128 <<< 126⟩ ∧
      ((⟨1#128 <<< 126⟩ : Int64x64).v ≠ 0 →
        Fits ((val ⟨1#128 <<< 126⟩ * 2 ^ 64).tdiv (val ⟨1#128 <<< 126⟩)) →
        DivRight ⟨1#128 <<< 126⟩ ⟨1#128 <<< 126⟩)) := by
  intro ⟨⟨habort, _⟩, _⟩
  have hmul : mul ⟨1#128 <<< 126⟩ ⟨1#128 <<< 126⟩ = some ⟨0⟩ := by decide
  have hno : ¬ Fits ((val ⟨1#128 <<< 126⟩ * val ⟨1#128 <<< 126⟩).tdiv (2 ^ 64)) := by
    have hval : val ⟨1#128 <<< 126⟩ = 2 ^ 126 := by decide
    rw [hval]
    rintro ⟨_, hlt⟩
    revert hlt
    decide
  rw [habort.mpr hno] at hmul
  exact Option.some_ne_none _ hmul.symm

end Ns3.Int64x64
