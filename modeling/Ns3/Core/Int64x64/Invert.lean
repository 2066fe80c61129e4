import Ns3.Core.Int64x64.Verification

namespace Ns3.Int64x64

theorem val_range (x : Int64x64) : -2 ^ 127 ≤ val x ∧ val x < 2 ^ 127 :=
  ⟨BitVec.le_toInt x.v, BitVec.toInt_lt⟩

theorem toInt_setWidth_of_range {y : BitVec 128} (hlow : -2 ^ 63 ≤ y.toInt) (hhigh : y.toInt < 2 ^ 63) :
    (y.setWidth 64).toInt = y.toInt := by
  rw [BitVec.toInt_setWidth, ← Int.bmod_bmod_of_dvd (m := 2 ^ 128) (Nat.pow_dvd_pow 2 (by omega)),
    ← BitVec.toInt_eq_toNat_bmod]
  exact Int.bmod_eq_of_le (by norm_num only at hlow ⊢; omega) (by norm_num only at hhigh ⊢; omega)

theorem toInt_get_high (x : Int64x64) : x.get_high.toInt = val x / 2 ^ 64 := by
  obtain ⟨hlow, hhigh⟩ := val_range x
  have hshift : (x.v.sshiftRight 64).toInt = val x / 2 ^ 64 := by
    rw [BitVec.toInt_sshiftRight, Int.shiftRight_eq_div_pow]
    rfl
  rw [get_high, toInt_setWidth_of_range, hshift]
  · rw [hshift]
    norm_num only at hlow ⊢
    omega
  · rw [hshift]
    norm_num only at hhigh ⊢
    omega

theorem toInt_get_int {x : Int64x64} (h : (val x).natAbs < 2 ^ 127) :
    x.get_int.toInt = (val x).tdiv (2 ^ 64) := by
  have hmag : (magnitude x.v >>> 64).toNat = (val x).natAbs / 2 ^ 64 := by
    rw [BitVec.toNat_ushiftRight, Nat.shiftRight_eq_div_pow, toNat_magnitude]
    rfl
  have hint : (magnitude x.v >>> 64).toInt = ((val x).natAbs / 2 ^ 64 : ℕ) := by
    rw [BitVec.toInt_eq_toNat_of_lt (by omega), hmag]
  have hword : ((magnitude x.v >>> 64).setWidth 64).toInt = ((val x).natAbs / 2 ^ 64 : ℕ) := by
    rw [toInt_setWidth_of_range _ _, hint]
    · rw [hint]
      norm_num only
      omega
    · rw [hint]
      norm_num only at h ⊢
      omega
  rw [tdiv_eq, get_int, slt_zero_eq]
  by_cases hneg : val x < 0
  · rw [if_pos (by simpa [val] using hneg), if_pos (by simp [hneg]), BitVec.toInt_neg, hword]
    exact Int.bmod_eq_of_le (by norm_num only at h ⊢; omega) (by norm_num only at h ⊢; omega)
  · rw [if_neg (by simpa [val] using hneg), if_neg (by simp [hneg]), hword]
    rfl

theorem val_of_word (v : BitVec 64) : val (of_long v) = v.toInt * 2 ^ 64 := by
  have hlow := BitVec.le_toInt v
  have hhigh := BitVec.toInt_lt (x := v)
  have hext : (v.signExtend 128).toInt = v.toInt := BitVec.toInt_signExtend_of_le (by omega)
  rw [val, of_long, BitVec.toInt_shiftLeft]
  generalize v.signExtend 128 = x at hext
  have hcond := BitVec.toInt_eq_toNat_cond x
  rw [hext] at hcond
  have hrange : (v.toInt * 2 ^ 64).bmod (2 ^ 128) = v.toInt * 2 ^ 64 :=
    Int.bmod_eq_of_le (by norm_num only at hlow ⊢; omega) (by norm_num only at hhigh ⊢; omega)
  rw [← hrange, Nat.shiftLeft_eq, Nat.cast_mul]
  split at hcond
  · rw [hcond]
    rfl
  · have hnat : (x.toNat : ℤ) * ((2 ^ 64 : ℕ) : ℤ) = v.toInt * 2 ^ 64 + 2 ^ 64 * ((2 ^ 128 : ℕ) : ℤ) := by
      rw [hcond]
      push_cast
      ring
    rw [hnat, Int.add_mul_bmod_self_right]

theorem val_of_long {n : ℤ} (h : |n| < 2 ^ 63) : val (of_long (BitVec.ofInt 64 n)) = n * 2 ^ 64 := by
  obtain ⟨hlow, hhigh⟩ := abs_lt.mp h
  norm_num only at hlow hhigh
  rw [val_of_word, BitVec.toInt_ofInt, Int.bmod_eq_of_le (by norm_num only; omega) (by norm_num only; omega)]

theorem toInt_round {x : Int64x64} (h : (val x).natAbs < 2 ^ 126) :
    x.round.toInt = if val x < 0 then -((-val x + 2 ^ 63) / 2 ^ 64) else (val x + 2 ^ 63) / 2 ^ 64 := by
  have hmag : (magnitude x.v).toInt = (val x).natAbs := by
    have hnat : (magnitude x.v).toNat = (val x).natAbs := toNat_magnitude x.v
    rw [BitVec.toInt_eq_toNat_of_lt (by rw [hnat]; norm_num only at h ⊢; omega), hnat]
  have hhalf : ((of_parts 0 (1#64 <<< 63)).v).toInt = 2 ^ 63 := by decide
  have hval : val ⟨magnitude x.v + (of_parts 0 (1#64 <<< 63)).v⟩ = (val x).natAbs + 2 ^ 63 := by
    rw [val, BitVec.toInt_add, hmag, hhalf]
    exact Int.bmod_eq_of_le (by norm_num only at h ⊢; omega) (by norm_num only at h ⊢; omega)
  have hhigh := toInt_get_high ⟨magnitude x.v + (of_parts 0 (1#64 <<< 63)).v⟩
  rw [hval] at hhigh
  rw [round, slt_zero_eq]
  by_cases hneg : val x < 0
  · rw [if_pos (by simpa [val] using hneg), if_pos hneg, BitVec.toInt_neg, hhigh, Int.ofNat_natAbs_of_nonpos hneg.le]
    exact Int.bmod_eq_of_le (by norm_num only at h ⊢; omega) (by norm_num only at h ⊢; omega)
  · rw [if_neg (by simpa [val] using hneg), if_neg hneg, hhigh, Int.natAbs_of_nonneg (by omega)]

/-- `UmulByInvert` of an integer: what it drops is the low half of the product. -/
theorem toNat_umul_by_invert {a b : BitVec 128} {m : ℕ} (ha : a.toNat = m * 2 ^ 64)
    (hm : m < 2 ^ 63) (hb : b.toNat ≤ 2 ^ 127 + 1) :
    (umul_by_invert a b).toNat = m * b.toNat / 2 ^ 64 := by
  have hah : (a >>> 64).toNat = m := by
    rw [BitVec.toNat_ushiftRight, Nat.shiftRight_eq_div_pow, ha]
    omega
  have hal : a &&& HP_MASK_LO.setWidth 128 = 0#128 := by
    apply BitVec.eq_of_toNat_eq
    rw [toNat_and_lo, ha, Nat.mul_mod_left]
    rfl
  have hbl := Nat.mod_lt b.toNat (show 0 < 2 ^ 64 by norm_num)
  have hbh : b.toNat / 2 ^ 64 ≤ 2 ^ 63 := by omega
  have hhi : m * (b.toNat / 2 ^ 64) ≤ 2 ^ 63 * 2 ^ 63 := Nat.mul_le_mul hm.le hbh
  have hmid : m * (b.toNat % 2 ^ 64) ≤ 2 ^ 63 * 2 ^ 64 := Nat.mul_le_mul hm.le hbl.le
  have hsplit : m * b.toNat = m * (b.toNat / 2 ^ 64) * 2 ^ 64 + m * (b.toNat % 2 ^ 64) := by
    calc m * b.toNat = m * (2 ^ 64 * (b.toNat / 2 ^ 64) + b.toNat % 2 ^ 64) := by
          rw [Nat.div_add_mod]
      _ = _ := by ring
  rw [umul_by_invert, hal, BitVec.zero_mul, BitVec.add_zero, BitVec.toNat_add, BitVec.toNat_ushiftRight,
    BitVec.toNat_mul, BitVec.toNat_mul, hah, toNat_and_lo, BitVec.toNat_ushiftRight,
    Nat.shiftRight_eq_div_pow, Nat.shiftRight_eq_div_pow, hsplit]
  omega

theorem val_mul_by_invert {x o : Int64x64} {n : ℤ} (hx : val x = n * 2 ^ 64) (hn : |n| < 2 ^ 63)
    (ho : o.v.toNat ≤ 2 ^ 127 + 1) :
    val (mul_by_invert x o) = (n * o.v.toNat).tdiv (2 ^ 64) := by
  have hm : n.natAbs < 2 ^ 63 := by
    rw [Int.abs_eq_natAbs] at hn
    exact_mod_cast hn
  have hmag : (magnitude x.v).toNat = n.natAbs * 2 ^ 64 := by
    rw [toNat_magnitude, show x.v.toInt = n * 2 ^ 64 from hx, Int.natAbs_mul]
    rfl
  have hmul := mul_tdiv_eq n o.v.toNat (2 ^ 64)
  rw [Int.natAbs_natCast] at hmul
  have hbound : n.natAbs * o.v.toNat ≤ 2 ^ 63 * (2 ^ 127 + 1) := Nat.mul_le_mul hm.le ho
  have hsign : (decide (n < 0) != decide ((o.v.toNat : ℤ) < 0)) = x.v.slt 0 := by
    have hnonneg : ¬ (o.v.toNat : ℤ) < 0 := by omega
    rw [slt_zero_eq, show x.v.toInt = n * 2 ^ 64 from hx, decide_eq_false hnonneg, Bool.bne_false]
    apply decide_eq_decide.mpr
    omega
  rw [hsign, show (((2 ^ 64 : ℕ) : ℤ)) = 2 ^ 64 by rfl] at hmul
  refine val_signed ?_ hmul ?_
  · rw [hmul]
    split <;> constructor <;> norm_num only at hbound ⊢ <;> omega
  · rw [toNat_umul_by_invert hmag hm ho]
    omega

theorem toInt_high_mul_by_invert {m : ℕ} {o : Int64x64} (hm : m < 2 ^ 63)
    (ho : o.v.toNat ≤ 2 ^ 127 + 1) :
    ((of_long (BitVec.ofInt 64 m)).mul_by_invert o).get_high.toInt =
      ((m * o.v.toNat / 2 ^ 128 : ℕ) : ℤ) := by
  have habs : |(m : ℤ)| < 2 ^ 63 := by
    rw [Nat.abs_cast]
    exact_mod_cast hm
  rw [toInt_get_high, val_mul_by_invert (val_of_long habs) habs ho,
    show (2 ^ 128 : ℕ) = 2 ^ 64 * 2 ^ 64 by norm_num, ← Nat.div_div_eq_div_mul,
    Int.tdiv_eq_ediv_of_nonneg (by positivity)]
  norm_cast

theorem invert_spec {v : BitVec 64} (hlow : 1 < v.toNat) (hhigh : v.toNat < 2 ^ 63) {fuel : ℕ}
    (hfuel : DIGITS < fuel) :
    ∃ inverse, invert fuel v = some inverse ∧ inverse.v.toNat ≤ 2 ^ 127 + 1 ∧
      ∃ e < v.toNat, inverse.v.toNat * v.toNat = 2 ^ 128 + e := by
  have hone : (1#128 <<< 64).toNat = 2 ^ 64 := by decide
  have hdivisor : (v.setWidth 128).toNat = v.toNat := by
    rw [BitVec.toNat_setWidth, Nat.mod_eq_of_lt (by omega)]
  have hne : v.setWidth 128 ≠ 0 := by
    intro hzero
    rw [hzero] at hdivisor
    change 0 = v.toNat at hdivisor
    omega
  obtain ⟨quo, hquo, hval⟩ := udiv_eq (a := 1#128 <<< 64) hne (by omega) hfuel
  rw [hone, hdivisor, show (2 : ℕ) ^ 64 * 2 ^ 64 = 2 ^ 128 by norm_num] at hval
  have hfloor : 2 ^ 128 / v.toNat ≤ 2 ^ 127 := by
    rw [Nat.div_le_iff_le_mul (by omega)]
    omega
  rw [Nat.mod_eq_of_lt (by omega)] at hval
  have hdivmod := Nat.div_add_mod (2 ^ 128) v.toNat
  have hmod := Nat.mod_lt (2 ^ 128) (show 0 < v.toNat by omega)
  rw [← hval, mul_comm] at hdivmod
  rw [← hval] at hfloor
  generalize 2 ^ 128 % v.toNat = rest at hdivmod hmod
  -- the trial product is the whole of one only where the quotient is exact
  have htmp : ((of_parts v 0).mul_by_invert ⟨quo⟩).get_high = 1 ↔ rest = 0 := by
    have hparts : of_parts v 0 = of_long (BitVec.ofInt 64 v.toNat) := by
      rw [of_parts, of_long, BitVec.ofInt_natCast, BitVec.ofNat_toNat, BitVec.setWidth_eq]
      exact congrArg Int64x64.mk BitVec.or_zero
    have htrial := toInt_high_mul_by_invert (o := ⟨quo⟩) hhigh (hfloor.trans (Nat.le_succ _))
    rw [← hparts] at htrial
    rw [← BitVec.toInt_inj, htrial, show ((1 : BitVec 64).toInt) = 1 by decide]
    change ((v.toNat * quo.toNat / 2 ^ 128 : ℕ) : ℤ) = 1 ↔ _
    rw [mul_comm]
    omega
  have hguard : 1 < v := BitVec.lt_def.mpr hlow
  rw [invert, if_pos hguard, hquo, Option.map_some]
  dsimp only
  by_cases hexact : rest = 0
  · rw [if_neg (fun h => h (htmp.mpr hexact))]
    refine ⟨⟨quo⟩, rfl, hfloor.trans (Nat.le_succ _), 0, by omega, ?_⟩
    change quo.toNat * v.toNat = 2 ^ 128 + 0
    omega
  · rw [if_pos (fun h => hexact (htmp.mp h))]
    have hnext : (quo + 1).toNat = quo.toNat + 1 := by
      rw [BitVec.toNat_add, show ((1 : BitVec 128).toNat) = 1 by decide]
      omega
    refine ⟨⟨quo + 1⟩, rfl, ?_, v.toNat - rest, by omega, ?_⟩
    · rw [hnext]
      omega
    · rw [hnext, Nat.add_mul]
      omega

/-- The quotient by the inverse: the rounding up of the inverse stays below one unit. -/
theorem div_by_inverse {m b v e : ℕ} (hm : m < 2 ^ 63) (hv : v < 2 ^ 63) (he : e < v)
    (hb : b * v = 2 ^ 128 + e) : m * b / 2 ^ 128 = m / v := by
  have hpos : 0 < v := by omega
  have hdivmod := Nat.div_add_mod m v
  have hmod := Nat.mod_lt m hpos
  have herror : m * e < 2 ^ 128 := by
    calc m * e ≤ 2 ^ 63 * 2 ^ 63 := Nat.mul_le_mul hm.le (by omega)
      _ < 2 ^ 128 := by norm_num
  have hscaled : m * b * v = m * 2 ^ 128 + m * e := by
    calc m * b * v = m * (b * v) := by ring
      _ = m * 2 ^ 128 + m * e := by rw [hb]; ring
  apply Nat.div_eq_of_lt_le
  · apply Nat.le_of_mul_le_mul_right _ hpos
    calc m / v * 2 ^ 128 * v = (v * (m / v)) * 2 ^ 128 := by ring
      _ ≤ m * 2 ^ 128 := Nat.mul_le_mul_right _ (by omega)
      _ ≤ m * b * v := by omega
  · apply Nat.lt_of_mul_lt_mul_right (a := v)
    calc m * b * v < (m + 1) * 2 ^ 128 := by omega
      _ ≤ (v * (m / v) + v) * 2 ^ 128 := Nat.mul_le_mul_right _ (by omega)
      _ = (m / v + 1) * 2 ^ 128 * v := by ring

theorem tdiv_tdiv (x : ℤ) (m n : ℕ) : (x.tdiv m).tdiv n = x.tdiv ((m * n : ℕ) : ℤ) := by
  obtain ⟨k, rfl | rfl⟩ := Int.eq_nat_or_neg x
  · rw [← Int.ofNat_tdiv, ← Int.ofNat_tdiv, ← Int.ofNat_tdiv, Nat.div_div_eq_div_mul]
  · rw [Int.neg_tdiv, Int.neg_tdiv, Int.neg_tdiv, ← Int.ofNat_tdiv, ← Int.ofNat_tdiv,
      ← Int.ofNat_tdiv, Nat.div_div_eq_div_mul]

theorem tdiv_by_inverse {n : ℤ} {b v e : ℕ} (hn : n.natAbs < 2 ^ 63) (hv : v < 2 ^ 63) (he : e < v)
    (hb : b * v = 2 ^ 128 + e) : (n * b).tdiv ((2 ^ 128 : ℕ) : ℤ) = n.tdiv v := by
  obtain ⟨k, rfl | rfl⟩ := Int.eq_nat_or_neg n
  · rw [Int.natAbs_natCast] at hn
    rw [← Int.natCast_mul, ← Int.ofNat_tdiv, ← Int.ofNat_tdiv, div_by_inverse hn hv he hb]
  · rw [Int.natAbs_neg, Int.natAbs_natCast] at hn
    rw [neg_mul, Int.neg_tdiv, Int.neg_tdiv, ← Int.natCast_mul, ← Int.ofNat_tdiv, ← Int.ofNat_tdiv,
      div_by_inverse hn hv he hb]

/-- Division by a stored inverse is exact on integers. -/
theorem mul_by_invert_exact {v : BitVec 64} (hlow : 1 < v.toNat) (hhigh : v.toNat < 2 ^ 63) {n : ℤ}
    (hn : |n| < 2 ^ 63) {fuel : ℕ} (hfuel : DIGITS < fuel) :
    ∃ inverse, invert fuel v = some inverse ∧
      ((of_long (BitVec.ofInt 64 n)).mul_by_invert inverse).get_int.toInt = n.tdiv v.toNat ∧
      (0 ≤ n →
        ((of_long (BitVec.ofInt 64 n)).mul_by_invert inverse).get_high.toInt = n.tdiv v.toNat) := by
  obtain ⟨inverse, hinv, hle, e, he, hprod⟩ := invert_spec hlow hhigh hfuel
  have hval := val_mul_by_invert (val_of_long hn) hn hle
  have hm : n.natAbs < 2 ^ 63 := by
    rw [Int.abs_eq_natAbs] at hn
    exact_mod_cast hn
  refine ⟨inverse, hinv, ?_, ?_⟩
  · have hbound : n.natAbs * inverse.v.toNat ≤ 2 ^ 63 * (2 ^ 127 + 1) := Nat.mul_le_mul hm.le hle
    have hsmall : (val ((of_long (BitVec.ofInt 64 n)).mul_by_invert inverse)).natAbs < 2 ^ 127 := by
      rw [hval, Int.natAbs_tdiv, Int.natAbs_mul, Int.natAbs_natCast]
      change n.natAbs * inverse.v.toNat / 2 ^ 64 < 2 ^ 127
      omega
    rw [toInt_get_int hsmall, hval, ← tdiv_by_inverse hm hhigh he hprod]
    exact tdiv_tdiv _ (2 ^ 64) (2 ^ 64)
  · intro hpos
    obtain ⟨m, rfl⟩ := Int.eq_ofNat_of_zero_le hpos
    rw [Int.natAbs_natCast] at hm
    rw [toInt_high_mul_by_invert hm hle, div_by_inverse hm hhigh he hprod, Int.ofNat_tdiv]

theorem mul_by_invert_exact_seven :
    ∃ inverse, invert 65 7 = some inverse ∧
      ((of_long (BitVec.ofInt 64 (-25))).mul_by_invert inverse).get_int.toInt =
        (-25 : ℤ).tdiv (7 : BitVec 64).toNat ∧
      ((0 : ℤ) ≤ -25 →
        ((of_long (BitVec.ofInt 64 (-25))).mul_by_invert inverse).get_high.toInt =
          (-25 : ℤ).tdiv (7 : BitVec 64).toNat) :=
  mul_by_invert_exact (by decide) (by decide) (by norm_num) (by decide)

end Ns3.Int64x64
