import Ns3.TrafficControl.CobaltQueueDisc
import Ns3.TrafficControl.CoDelQueueDisc.Newton

namespace Ns3.TrafficControl.CobaltQueueDisc

open Transition

/-- The square of the iterate, as a word. -/
def square (r : ℕ) : ℕ := r ^ 2 / 2 ^ 32

/-- The step without the truncations to a word. -/
def newton (r c : ℕ) : ℕ := (3 * 2 ^ 32 - c * square r) / 4 * r / 2 ^ 31

/-- The iterate against the reciprocal square root of the count: above it by no more than the
truncated square allows, and not below a fourth of it. -/
structure Near (r c : ℕ) : Prop where
  upper : (3 * 2 ^ 32) ^ 3 * (c * r ^ 2) ≤ (3 * 2 ^ 32 + c) ^ 3 * 2 ^ 64
  lower : 2 ^ 64 ≤ 16 * (c * r ^ 2)

theorem mul_square_le (r c : ℕ) : c * square r * 2 ^ 32 ≤ c * r ^ 2 := by
  rw [mul_assoc]
  exact Nat.mul_le_mul_left _ (Nat.div_mul_le_self _ _)

theorem le_mul_square (r c : ℕ) : c * r ^ 2 ≤ c * square r * 2 ^ 32 + c * 2 ^ 32 := by
  have hdiv := Nat.div_add_mod (r ^ 2) (2 ^ 32)
  have hmod := Nat.mod_lt (r ^ 2) (show 0 < 2 ^ 32 by norm_num)
  calc c * r ^ 2 ≤ c * (square r * 2 ^ 32 + 2 ^ 32) := Nat.mul_le_mul_left _ (by unfold square; omega)
    _ = _ := by ring

/-- The next iterate is near from above, whatever the iterate was. -/
theorem newton_upper {r c : ℕ} (hle : c * square r ≤ 3 * 2 ^ 32) :
    (3 * 2 ^ 32) ^ 3 * (c * newton r c ^ 2) ≤ (3 * 2 ^ 32 + c) ^ 3 * 2 ^ 64 := by
  have hmul : newton r c * 2 ^ 31 ≤ (3 * 2 ^ 32 - c * square r) / 4 * r := Nat.div_mul_le_self _ _
  have hfour : (3 * 2 ^ 32 - c * square r) / 4 * 4 ≤ 3 * 2 ^ 32 - c * square r := Nat.div_mul_le_self _ _
  have hlose := le_mul_square r c
  generalize hs : 2 ^ 32 * (3 * 2 ^ 32 + c) = s
  have hval : (3 * 2 ^ 32 - c * square r) * 2 ^ 32 ≤ s - c * r ^ 2 := by
    rw [← hs, Nat.sub_mul]
    omega
  have hx : c * r ^ 2 ≤ s := by
    rw [← hs]
    omega
  have hstep : newton r c * 2 ^ 65 ≤ (s - c * r ^ 2) * r := by
    calc newton r c * 2 ^ 65 = newton r c * 2 ^ 31 * 4 * 2 ^ 32 := by ring
      _ ≤ (3 * 2 ^ 32 - c * square r) / 4 * r * 4 * 2 ^ 32 :=
        Nat.mul_le_mul_right _ (Nat.mul_le_mul_right _ hmul)
      _ = (3 * 2 ^ 32 - c * square r) / 4 * 4 * (2 ^ 32 * r) := by ring
      _ ≤ (3 * 2 ^ 32 - c * square r) * (2 ^ 32 * r) := Nat.mul_le_mul_right _ hfour
      _ = (3 * 2 ^ 32 - c * square r) * 2 ^ 32 * r := by ring
      _ ≤ (s - c * r ^ 2) * r := Nat.mul_le_mul_right _ hval
  have hcubic := cubic_le (c * r ^ 2) s hx
  have hsq : c * (newton r c * 2 ^ 65) ^ 2 ≤ c * r ^ 2 * (s - c * r ^ 2) ^ 2 := by
    calc c * (newton r c * 2 ^ 65) ^ 2 ≤ c * ((s - c * r ^ 2) * r) ^ 2 :=
          Nat.mul_le_mul_left _ (Nat.pow_le_pow_left hstep 2)
      _ = _ := by ring
  have hscale : 2 ^ 34 * ((3 * 2 ^ 32) ^ 3 * (c * newton r c ^ 2)) ≤
      2 ^ 34 * ((3 * 2 ^ 32 + c) ^ 3 * 2 ^ 64) := by
    calc 2 ^ 34 * ((3 * 2 ^ 32) ^ 3 * (c * newton r c ^ 2))
        = 27 * (c * (newton r c * 2 ^ 65) ^ 2) := by ring
      _ ≤ 27 * (c * r ^ 2 * (s - c * r ^ 2) ^ 2) := Nat.mul_le_mul_left _ hsq
      _ ≤ 4 * s ^ 3 := hcubic
      _ = 2 ^ 34 * ((3 * 2 ^ 32 + c) ^ 3 * 2 ^ 64) := by rw [← hs]; ring
  exact Nat.le_of_mul_le_mul_left hscale (by norm_num)

/-- A count that has moved by at most one. -/
structure Moved (c₀ c : ℕ) : Prop where
  large : 16 ≤ c
  le_succ : c ≤ c₀ + 1
  pred_le : c₀ ≤ c + 1

/-- The argument of the next step: neither too large for the subtraction nor too small. -/
theorem Near.moved {r c₀ c : ℕ} (h : Near r c₀) (hc : Moved c₀ c) (hlt : c₀ < 2 ^ 32) :
    405 * (c * r ^ 2) ≤ 16 * 2 ^ 70 ∧ 2 ^ 64 ≤ 17 * (c * r ^ 2) := by
  obtain ⟨hlarge, hup, hdown⟩ := hc
  obtain ⟨hupper, hlower⟩ := h
  have hcube : (3 * 2 ^ 32 + c₀) ^ 3 ≤ (2 ^ 34) ^ 3 := Nat.pow_le_pow_left (by omega) 3
  have hbound : 27 * (c₀ * r ^ 2) ≤ 2 ^ 70 := by
    have hscale : 2 ^ 96 * (27 * (c₀ * r ^ 2)) ≤ 2 ^ 96 * 2 ^ 70 := by
      calc 2 ^ 96 * (27 * (c₀ * r ^ 2)) = (3 * 2 ^ 32) ^ 3 * (c₀ * r ^ 2) := by ring
        _ ≤ (3 * 2 ^ 32 + c₀) ^ 3 * 2 ^ 64 := hupper
        _ ≤ (2 ^ 34) ^ 3 * 2 ^ 64 := Nat.mul_le_mul_right _ hcube
        _ = 2 ^ 96 * 2 ^ 70 := by norm_num
    exact Nat.le_of_mul_le_mul_left hscale (by norm_num)
  constructor
  · have hmul : 15 * c * r ^ 2 ≤ 16 * c₀ * r ^ 2 := Nat.mul_le_mul_right _ (by omega)
    calc 405 * (c * r ^ 2) = 27 * (15 * c * r ^ 2) := by ring
      _ ≤ 27 * (16 * c₀ * r ^ 2) := Nat.mul_le_mul_left _ hmul
      _ = 16 * (27 * (c₀ * r ^ 2)) := by ring
      _ ≤ 16 * 2 ^ 70 := Nat.mul_le_mul_left _ hbound
  · have hmul : 16 * c₀ * r ^ 2 ≤ 17 * c * r ^ 2 := Nat.mul_le_mul_right _ (by omega)
    calc 2 ^ 64 ≤ 16 * (c₀ * r ^ 2) := hlower
      _ = 16 * c₀ * r ^ 2 := by ring
      _ ≤ 17 * c * r ^ 2 := hmul
      _ = 17 * (c * r ^ 2) := by ring

theorem no_underflow {r c : ℕ} (hle : 405 * (c * r ^ 2) ≤ 16 * 2 ^ 70) : c * square r ≤ 3 * 2 ^ 32 := by
  have := mul_square_le r c
  omega

theorem le_of_mul_sq {r c : ℕ} (hc : c < 2 ^ 32) (hlow : 2 ^ 64 ≤ 17 * (c * r ^ 2)) : 15000 ≤ r := by
  by_contra hsmall
  have hsq : r ^ 2 ≤ 15000 ^ 2 := Nat.pow_le_pow_left (by omega) 2
  have hmul : c * r ^ 2 ≤ 2 ^ 32 * 15000 ^ 2 := Nat.mul_le_mul hc.le hsq
  omega

theorem newton_scaled {r c k p q : ℕ} (hk : k ≤ (3 * 2 ^ 32 - c * square r) / 4)
    (hfactor : p * r * 2 ^ 31 + q * 2 ^ 31 ≤ q * k * r) :
    p ^ 2 * (c * r ^ 2) ≤ q ^ 2 * (c * newton r c ^ 2) := by
  have hmul : k * r ≤ (3 * 2 ^ 32 - c * square r) / 4 * r := Nat.mul_le_mul_right _ hk
  have hlt : (3 * 2 ^ 32 - c * square r) / 4 * r < (newton r c + 1) * 2 ^ 31 :=
    Nat.lt_mul_of_div_lt (Nat.lt_succ_self _) (by norm_num)
  generalize newton r c = next at hlt ⊢
  have hstep : p * r ≤ q * next := by
    have hscale : p * r * 2 ^ 31 ≤ q * next * 2 ^ 31 := by
      have hle : q * (k * r) ≤ q * ((next + 1) * 2 ^ 31) :=
        Nat.mul_le_mul_left _ (hmul.trans hlt.le)
      have hexpand : q * ((next + 1) * 2 ^ 31) = q * next * 2 ^ 31 + q * 2 ^ 31 := by ring
      linarith
    exact Nat.le_of_mul_le_mul_right hscale (by norm_num)
  calc p ^ 2 * (c * r ^ 2) = c * (p * r) ^ 2 := by ring
    _ ≤ c * (q * next) ^ 2 := Nat.mul_le_mul_left _ (Nat.pow_le_pow_left hstep 2)
    _ = q ^ 2 * (c * next ^ 2) := by ring

/-- The next iterate is near from below. It grows where it is far below the root, and overshooting
does not take more than three quarters of it. -/
theorem newton_lower {r c : ℕ} (hc : c < 2 ^ 32) (hle : 405 * (c * r ^ 2) ≤ 16 * 2 ^ 70)
    (hlow : 2 ^ 64 ≤ 17 * (c * r ^ 2)) : 2 ^ 64 ≤ 16 * (c * newton r c ^ 2) := by
  have hr := le_of_mul_sq hc hlow
  have hgrow : 6 * r * 2 ^ 31 + 5 * 2 ^ 31 ≤ 5 * 2684354559 * r := by linarith
  have hhalf : 49 * r * 2 ^ 31 + 100 * 2 ^ 31 ≤ 100 * 1073741823 * r := by linarith
  have hquarter : 23 * r * 2 ^ 31 + 100 * 2 ^ 31 ≤ 100 * 500000000 * r := by linarith
  have hsquare := mul_square_le r c
  have hscaled {k p q : ℕ} := newton_scaled (r := r) (c := c) (k := k) (p := p) (q := q)
  generalize c * square r = b at hsquare hscaled
  generalize c * newton r c ^ 2 = y at hscaled ⊢
  generalize c * r ^ 2 = x at *
  by_cases hsmall : x ≤ 2 ^ 63
  · have := hscaled (by omega) hgrow
    omega
  · by_cases hroot : x ≤ 2 ^ 65
    · have := hscaled (by omega) hhalf
      omega
    · have := hscaled (by omega) hquarter
      omega

theorem Near.lt {r c : ℕ} (h : Near r c) (hlarge : 16 ≤ c) (hlt : c < 2 ^ 32) : r < 2 ^ 32 := by
  by_contra hge
  have hsq : (2 ^ 32) ^ 2 ≤ r ^ 2 := Nat.pow_le_pow_left (by omega) 2
  have hcube : (3 * 2 ^ 32 + c) ^ 3 ≤ (2 ^ 34) ^ 3 := Nat.pow_le_pow_left (by omega) 3
  have hlow : (3 * 2 ^ 32) ^ 3 * (16 * (2 ^ 32) ^ 2) ≤ (2 ^ 34) ^ 3 * 2 ^ 64 := by
    calc _ ≤ (3 * 2 ^ 32) ^ 3 * (c * r ^ 2) := Nat.mul_le_mul_left _ (Nat.mul_le_mul hlarge hsq)
      _ ≤ (3 * 2 ^ 32 + c) ^ 3 * 2 ^ 64 := h.upper
      _ ≤ _ := Nat.mul_le_mul_right _ hcube
  exact absurd hlow (by norm_num)

theorem Near.newton {r c₀ c : ℕ} (h : Near r c₀) (hc : Moved c₀ c) (hlt₀ : c₀ < 2 ^ 32) (hlt : c < 2 ^ 32) :
    c * square r ≤ 3 * 2 ^ 32 ∧ Near (newton r c) c := by
  obtain ⟨hle, hlow⟩ := h.moved hc hlt₀
  exact ⟨no_underflow hle, newton_upper (no_underflow hle), newton_lower hlt hle hlow⟩

theorem toNat_newton_step {r c : UInt32} (hle : c.toNat * square r.toNat ≤ 3 * 2 ^ 32)
    (hlt : newton r.toNat c.toNat < 2 ^ 32) : (newton_step r c).toNat = newton r.toNat c.toNat := by
  have hr : r.toNat < 2 ^ 32 := r.toNat_lt
  have hsqlt : r.toNat * r.toNat < 2 ^ 64 := by nlinarith
  have hinvsqrt2 : ((r.toUInt64 * r.toUInt64) >>> 32).toUInt32.toNat = square r.toNat := by
    rw [UInt64.toNat_toUInt32, UInt64.toNat_shiftRight, UInt64.toNat_mul, UInt32.toNat_toUInt64,
      Nat.mod_eq_of_lt hsqlt, Nat.shiftRight_eq_div_pow, square, sq]
    change r.toNat * r.toNat / 2 ^ 32 % 2 ^ 32 = _
    omega
  rw [newton_step]
  generalize ((r.toUInt64 * r.toUInt64) >>> 32).toUInt32 = invsqrt2 at hinvsqrt2
  have hprod : (c.toUInt64 * invsqrt2.toUInt64).toNat = c.toNat * square r.toNat := by
    rw [UInt64.toNat_mul, UInt32.toNat_toUInt64, UInt32.toNat_toUInt64, hinvsqrt2]
    omega
  have hthree : ((3 : UInt64) <<< 32).toNat = 3 * 2 ^ 32 := by decide
  have hval : ((((3 : UInt64) <<< 32) - c.toUInt64 * invsqrt2.toUInt64) >>> 2).toNat =
      (3 * 2 ^ 32 - c.toNat * square r.toNat) / 4 := by
    rw [UInt64.toNat_shiftRight,
      UInt64.toNat_sub_of_le _ _ (by rw [UInt64.le_iff_toNat_le, hprod, hthree]; exact hle),
      hprod, hthree, Nat.shiftRight_eq_div_pow]
    rfl
  generalize (((3 : UInt64) <<< 32) - c.toUInt64 * invsqrt2.toUInt64) >>> 2 = val at hval
  have hbound : (3 * 2 ^ 32 - c.toNat * square r.toNat) / 4 * r.toNat < 2 ^ 64 := by
    calc _ ≤ 3 * 2 ^ 30 * 2 ^ 32 := Nat.mul_le_mul (by omega) hr.le
      _ < 2 ^ 64 := by norm_num
  rw [UInt64.toNat_toUInt32, UInt64.toNat_shiftRight, UInt64.toNat_mul, hval, UInt32.toNat_toUInt64,
    Nat.mod_eq_of_lt hbound, Nat.shiftRight_eq_div_pow]
  exact Nat.mod_eq_of_lt hlt

/-- The control law for an interval that is not negative: later by at most the interval over the
square root of the count, up to what the truncated squares may add. -/
def LawInRange (r c : UInt32) : Prop :=
  ∀ t interval : Time, 0 ≤ interval → ∃ d : ℕ, control_law interval r t = t + d ∧
    (3 * 2 ^ 32) ^ 3 * (c.toNat * d ^ 2) ≤ (3 * 2 ^ 32 + c.toNat) ^ 3 * interval.toNat ^ 2

/-- A call of `NewtonStep` that does not underflow, and whose iterate is at least one unit and not far
above the reciprocal square root of the count. -/
structure StepRight (r c : UInt32) : Prop where
  no_underflow : c.toNat * (r.toNat ^ 2 / 2 ^ 32) ≤ 3 * 2 ^ 32
  pos : 1 ≤ (newton_step r c).toNat
  sq_le : (3 * 2 ^ 32) ^ 3 * (c.toNat * (newton_step r c).toNat ^ 2) ≤ (3 * 2 ^ 32 + c.toNat) ^ 3 * 2 ^ 64
  law : LawInRange (newton_step r c) c

theorem lawInRange_of_sq_le {r c : UInt32}
    (hle : (3 * 2 ^ 32) ^ 3 * (c.toNat * r.toNat ^ 2) ≤ (3 * 2 ^ 32 + c.toNat) ^ 3 * 2 ^ 64) :
    LawInRange r c := by
  intro t interval hnonneg
  generalize hi : UInt32.ofInt interval = i
  have hile : i.toNat ≤ interval.toNat := by
    have hint : (0 : ℤ) ≤ interval := hnonneg
    rw [← hi]
    simp only [UInt32.ofInt, UInt32.toNat_ofNat']
    omega
  have hdivide : (CoDelQueueDisc.reciprocal_divide i r).toNat = i.toNat * r.toNat / 2 ^ 32 := by
    have hilt : i.toNat < 2 ^ 32 := i.toNat_lt
    have hr : r.toNat < 2 ^ 32 := r.toNat_lt
    have hprod : i.toNat * r.toNat < 2 ^ 64 := by nlinarith
    rw [CoDelQueueDisc.reciprocal_divide, UInt64.toNat_toUInt32, UInt64.toNat_shiftRight,
      UInt64.toNat_mul, UInt32.toNat_toUInt64, UInt32.toNat_toUInt64, Nat.mod_eq_of_lt hprod,
      Nat.shiftRight_eq_div_pow]
    change i.toNat * r.toNat / 2 ^ 32 % 2 ^ 32 = _
    omega
  refine ⟨i.toNat * r.toNat / 2 ^ 32, by rw [control_law, hi, hdivide], ?_⟩
  have hd := Nat.div_mul_le_self (i.toNat * r.toNat) (2 ^ 32)
  generalize i.toNat * r.toNat / 2 ^ 32 = d at hd
  have hscale : 2 ^ 64 * ((3 * 2 ^ 32) ^ 3 * (c.toNat * d ^ 2)) ≤
      2 ^ 64 * ((3 * 2 ^ 32 + c.toNat) ^ 3 * interval.toNat ^ 2) := by
    calc 2 ^ 64 * ((3 * 2 ^ 32) ^ 3 * (c.toNat * d ^ 2))
        = (3 * 2 ^ 32) ^ 3 * c.toNat * (d * 2 ^ 32) ^ 2 := by ring
      _ ≤ (3 * 2 ^ 32) ^ 3 * c.toNat * (i.toNat * r.toNat) ^ 2 :=
        Nat.mul_le_mul_left _ (Nat.pow_le_pow_left hd 2)
      _ = (3 * 2 ^ 32) ^ 3 * (c.toNat * r.toNat ^ 2) * i.toNat ^ 2 := by ring
      _ ≤ (3 * 2 ^ 32 + c.toNat) ^ 3 * 2 ^ 64 * interval.toNat ^ 2 :=
        Nat.mul_le_mul hle (Nat.pow_le_pow_left hile 2)
      _ = 2 ^ 64 * ((3 * 2 ^ 32 + c.toNat) ^ 3 * interval.toNat ^ 2) := by ring
  exact Nat.le_of_mul_le_mul_left hscale (by norm_num)

theorem cache_calls_right {x : UInt32 × UInt32}
    (hx : x ∈ (cache_init 0xffffffff 1 (REC_INV_SQRT_CACHE - 1)).1) : StepRight x.1 x.2 := by
  have hall : ((cache_init 0xffffffff 1 (REC_INV_SQRT_CACHE - 1)).1.all fun x =>
      x.2.toNat * (x.1.toNat ^ 2 / 2 ^ 32) ≤ 3 * 2 ^ 32 && 1 ≤ (newton_step x.1 x.2).toNat &&
        (3 * 2 ^ 32) ^ 3 * (x.2.toNat * (newton_step x.1 x.2).toNat ^ 2) ≤ (3 * 2 ^ 32 + x.2.toNat) ^ 3 * 2 ^ 64) =
        true := by
    decide +kernel
  have htrue := List.all_eq_true.mp hall x hx
  simp only [Bool.and_eq_true, decide_eq_true_eq] at htrue
  exact ⟨htrue.1.1, htrue.1.2, htrue.2, lawInRange_of_sq_le htrue.2⟩

theorem cache_near {n : ℕ} (hpos : 1 ≤ n) (hlt : n < 16) : Near (rec_inv_sqrt_cache.getD n 0).toNat n := by
  have hall : ∀ n < 16, 1 ≤ n → (3 * 2 ^ 32) ^ 3 * (n * (rec_inv_sqrt_cache.getD n 0).toNat ^ 2) ≤
      (3 * 2 ^ 32 + n) ^ 3 * 2 ^ 64 ∧ 2 ^ 64 ≤ 16 * (n * (rec_inv_sqrt_cache.getD n 0).toNat ^ 2) := by
    decide +kernel
  obtain ⟨hupper, hlower⟩ := hall n hlt hpos
  exact ⟨hupper, hlower⟩

variable {D : Type} {v : Control D}

/-- What the runs keep of the count and the iterate, and of all calls of `NewtonStep`. -/
structure Tracked (v : Control D) : Prop where
  cached : v.count.toNat < 16 → v.rec_inv_sqrt = rec_inv_sqrt_cache.getD v.count.toNat 0
  near : 16 ≤ v.count.toNat → Near v.rec_inv_sqrt.toNat v.count.toNat
  newtons : ∀ x ∈ v.newtons, StepRight x.1 x.2

theorem Tracked.congr {w : Control D} (h : Tracked v) (hcount : w.count = v.count)
    (hsqrt : w.rec_inv_sqrt = v.rec_inv_sqrt) (hnewtons : w.newtons = v.newtons) : Tracked w where
  cached := hcount ▸ hsqrt ▸ h.cached
  near := hcount ▸ hsqrt ▸ h.near
  newtons := hnewtons ▸ h.newtons

theorem Tracked.near_of_pos (h : Tracked v) (hpos : 1 ≤ v.count.toNat) :
    Near v.rec_inv_sqrt.toNat v.count.toNat := by
  by_cases hsmall : v.count.toNat < 16
  · rw [h.cached hsmall]
    exact cache_near hpos hsmall
  · exact h.near (by omega)

theorem Tracked.initialize_params (p_drop : D) (uv : ℕ → D) : Tracked (initialize_params p_drop uv) where
  cached := fun _ => rfl
  near := fun h => absurd (show 16 ≤ (0 : UInt32).toNat from h) (by decide)
  newtons := fun _ hx => cache_calls_right hx

theorem Tracked.inv_sqrt (h : Tracked v) {c : UInt32} (hup : c.toNat ≤ v.count.toNat + 1)
    (hdown : v.count.toNat ≤ c.toNat + 1) : Tracked (inv_sqrt { v with count := c }) := by
  unfold CobaltQueueDisc.inv_sqrt
  split
  next hsmall =>
    change c.toNat < 16 at hsmall
    exact ⟨fun _ => rfl, fun hlarge => absurd hsmall (Nat.not_lt.mpr hlarge), h.newtons⟩
  next hlarge =>
    change ¬ c.toNat < 16 at hlarge
    have hmoved : Moved v.count.toNat c.toNat := ⟨by omega, hup, hdown⟩
    obtain ⟨hunder, hnear⟩ := (h.near_of_pos (by omega)).newton hmoved v.count.toNat_lt c.toNat_lt
    have hstep : (newton_step v.rec_inv_sqrt c).toNat = newton v.rec_inv_sqrt.toNat c.toNat := by
      exact toNat_newton_step hunder (hnear.lt (by omega) c.toNat_lt)
    have hnear' : Near (newton_step v.rec_inv_sqrt c).toNat c.toNat := hstep ▸ hnear
    refine ⟨fun hsmall => absurd hsmall hlarge, fun _ => hnear', fun x hx => ?_⟩
    rcases List.mem_append.mp hx with hold | hnew
    · exact h.newtons x hold
    · rw [List.mem_singleton.mp hnew]
      refine ⟨hunder, ?_, hnear'.upper, lawInRange_of_sq_le hnear'.upper⟩
      refine Nat.one_le_iff_ne_zero.mpr fun hzero => ?_
      change (newton_step v.rec_inv_sqrt c).toNat = 0 at hzero
      have hlower := hnear'.lower
      rw [hzero] at hlower
      omega

theorem Tracked.step_down (h : Tracked v) (a : Attributes D) (hpos : v.count ≠ 0) : Tracked (step_down a v) := by
  have hone : (1 : UInt32).toNat ≤ v.count.toNat :=
    Nat.one_le_iff_ne_zero.mpr fun hzero => hpos (UInt32.toNat_inj.mp hzero)
  have hcount : (v.count - 1).toNat = v.count.toNat - 1 :=
    UInt32.toNat_sub_of_le _ _ (UInt32.le_iff_toNat_le.mpr hone)
  exact (h.inv_sqrt (by omega) (by omega)).congr rfl rfl rfl

theorem Tracked.step_up (h : Tracked v) (a : Attributes D) :
    Tracked (schedule_next a (CobaltQueueDisc.inv_sqrt { v with count := max v.count (v.count + 1) })) := by
  have hmax : (max v.count (v.count + 1)).toNat ≤ v.count.toNat + 1 ∧
      v.count.toNat ≤ (max v.count (v.count + 1)).toNat := by
    have hadd : (v.count + 1).toNat = (v.count.toNat + 1) % 2 ^ 32 := UInt32.toNat_add _ _
    rw [show max v.count (v.count + 1) = if v.count ≤ v.count + 1 then v.count + 1 else v.count from rfl]
    split
    next hle =>
      have := UInt32.le_iff_toNat_le.mp hle
      omega
    next => omega
  exact (h.inv_sqrt hmax.1 (by omega)).congr rfl rfl rfl

/-- The first drop is counted without a new iterate: the entries for zero and one are the same. -/
theorem Tracked.count_one (h : Tracked v) (hzero : v.count = 0) : Tracked { v with count := 1 } := by
  refine ⟨fun _ => ?_, fun hlarge => absurd (show 16 ≤ (1 : UInt32).toNat from hlarge) (by decide),
    h.newtons⟩
  rw [h.cached (by rw [hzero]; decide), hzero]
  rfl

theorem Tracked.catch_up (h : Tracked v) (a : Attributes D) (now : Time) (n : ℕ) : Tracked (catch_up a now n v) := by
  induction n generalizing v with
  | zero => exact h
  | succ n ih =>
    rw [CobaltQueueDisc.catch_up]
    split
    next hdue => exact ih (h.step_down a hdue.1)
    next => exact h

theorem Tracked.enter_or_leave (h : Tracked v) (a : Attributes D) (now : Time) (over_target : Bool) :
    Tracked (enter_or_leave a now over_target v) := by
  unfold CobaltQueueDisc.enter_or_leave
  split
  · dsimp only
    generalize hw : (if v.dropping then v
      else { v with dropping := true, drop_next := control_law a.interval v.rec_inv_sqrt now }) = w
    have htracked : Tracked w := by
      rw [← hw]
      split
      · exact h
      · exact h.congr rfl rfl rfl
    split
    next hzero => exact htracked.count_one hzero
    next => exact htracked
  · exact h.congr rfl rfl rfl

theorem Tracked.raise_p_drop [Add D] [Min D] [One D] (h : Tracked v) (a : Attributes D) (now : Time) :
    Tracked (raise_p_drop a now v) := by
  unfold CobaltQueueDisc.raise_p_drop
  split
  · exact h.congr rfl rfl rfl
  · exact h

theorem Tracked.blue [Zero D] [LT D] [DecidableEq D] [DecidableLT D] (h : Tracked v) : Tracked (blue v).2 := by
  unfold CobaltQueueDisc.blue
  split
  · exact h.congr rfl rfl rfl
  · exact h

theorem Tracked.queue_full [Add D] [Min D] [One D] (h : Tracked v) (a : Attributes D) (now : Time) :
    Tracked (cobalt_queue_full a now v) := by
  have hraise := h.raise_p_drop a now
  have hcount : (CobaltQueueDisc.raise_p_drop a now v).count = v.count := by
    unfold CobaltQueueDisc.raise_p_drop
    split <;> rfl
  unfold cobalt_queue_full
  split
  next hzero => exact (hraise.count_one (hcount.trans hzero)).congr rfl rfl rfl
  next => exact hraise.congr hcount.symm rfl rfl

theorem Tracked.queue_empty [Sub D] [Max D] [Zero D] [DecidableEq D] (h : Tracked v) (a : Attributes D)
    (now : Time) : Tracked (cobalt_queue_empty a now v) := by
  unfold cobalt_queue_empty
  dsimp only
  generalize hw : (if v.p_drop ≠ 0 ∧ codel_time_after (now - v.last_update_time_blue.toNat) a.target then
    { v with p_drop := max (v.p_drop - a.decrement) 0, last_update_time_blue := UInt32.ofInt now } else v) = w
  have htracked : Tracked { w with dropping := false } := by
    rw [← hw]
    split <;> exact h.congr rfl rfl rfl
  split
  next hdue => exact htracked.step_down a hdue.1
  next => exact htracked

variable [Add D] [Min D] [Zero D] [One D] [LT D] [DecidableEq D] [DecidableLT D]

theorem Tracked.conclude (h : Tracked v) (a : Attributes D) (now schedule : Time) (is_marked drop : Bool)
    (item : QueueDiscItem) : Tracked (conclude a now schedule is_marked drop item v).control := by
  unfold CobaltQueueDisc.conclude
  dsimp only
  generalize hw : (if codel_time_after (now - item.time_stamp) a.blue_threshold then
    CobaltQueueDisc.raise_p_drop a now v else v) = w
  have htracked : Tracked w := by
    rw [← hw]
    split
    · exact h.raise_p_drop a now
    · exact h
  split
  · exact htracked.blue.congr rfl rfl rfl
  · split
    · exact htracked.blue.congr rfl rfl rfl
    · exact htracked.blue

theorem Tracked.should_drop (h : Tracked v) (a : Attributes D) (now : Time) (item : QueueDiscItem) :
    Tracked (cobalt_should_drop a now item v).control := by
  unfold cobalt_should_drop
  dsimp only
  split
  · exact h
  · have henter := h.enter_or_leave a now (codel_time_after (now - item.time_stamp) a.target)
    split
    · split
      next m _ => exact (henter.step_up a).conclude a now _ true false m.1
      next => exact (henter.step_up a).conclude a now _ false true item
    · split
      · exact (henter.catch_up a now _).conclude _ _ _ _ _ _
      · exact henter.conclude _ _ _ _ _ _

variable [Sub D] [Max D]

/-- The loop of `DoDequeue`, by induction on the packets. -/
theorem Tracked.dequeue_loop (h : Tracked v) (a : Attributes D) (now : Time) (packets : List QueueDiscItem) :
    Tracked (dequeue_loop a now packets v).2.2.1 := by
  induction packets generalizing v with
  | nil => exact (h.congr rfl rfl rfl : Tracked { v with dropping := false }).queue_empty a now
  | cons item rest ih =>
    rw [CobaltQueueDisc.dequeue_loop]
    dsimp only
    split
    · exact ih (h.should_drop a now item)
    · exact h.should_drop a now item

/-- A call at a time that is not before the last one. -/
def step (s : Time × CobaltQueueDisc D) (e : Time × CoDelQueueDisc.Call) : Option (Time × CobaltQueueDisc D) :=
  if s.1 ≤ e.1 then
    match e.2 with
    | .enqueue item => some (e.1, (s.2.do_enqueue e.1 item).2.1)
    | .dequeue => some (e.1, (s.2.do_dequeue e.1).2.1)
  else none

/-- A queue disc before the first call, with any random numbers. -/
def Fresh (s : Time × CobaltQueueDisc D) : Prop :=
  s.1 = 0 ∧ s.2.packets = [] ∧ ∃ p_drop uv, s.2.control = initialize_params p_drop uv

theorem tracked_of_reachable {s : Time × CobaltQueueDisc D} (h : Reachable Fresh step Always s) :
    Tracked s.2.control := by
  refine h.invariant (I := fun s => Tracked s.2.control) ?_ ?_
  · rintro ⟨t, q⟩ ⟨-, -, p_drop, uv, hcontrol⟩
    dsimp only at hcontrol ⊢
    rw [hcontrol]
    exact Tracked.initialize_params p_drop uv
  · rintro ⟨t, q⟩ ⟨t', c⟩ s' htracked - hstep
    unfold step at hstep
    split at hstep
    · cases c with
      | enqueue x =>
        cases hstep
        dsimp only
        unfold do_enqueue
        split
        · exact htracked.queue_full q.attrs t'
        · exact htracked
      | dequeue =>
        cases hstep
        exact htracked.dequeue_loop q.attrs t' q.packets
    · cases hstep

/-- The Newton steps and the control law in all runs of the two queue discs: exact bounds in CoDel
while the count stays in its word, and those up to the truncated squares in COBALT, where small counts
use the cache. -/
theorem control_law_in_range :
    (∀ (a : CoDelQueueDisc.Attributes) (max_size : QueueSize) (s : Time × CoDelQueueDisc),
      Reachable (· = (0, { attrs := a, max_size })) CoDelQueueDisc.step CoDelQueueDisc.NoWrap s →
        CoDelQueueDisc.LawInRange s.2.control.rec_inv_sqrt s.2.control.count ∧
          ∀ now, CoDelQueueDisc.RightUntilWrap (s.2.newtons now)) ∧
    (∀ s : Time × CobaltQueueDisc D, Reachable Fresh step Always s →
      LawInRange s.2.control.rec_inv_sqrt s.2.control.count ∧
        ∀ x ∈ s.2.control.newtons, StepRight x.1 x.2) ∧
    ∀ c : UInt32, c.toNat < REC_INV_SQRT_CACHE → LawInRange (rec_inv_sqrt_cache.getD c.toNat 0) c := by
  refine ⟨?_, ?_, ?_⟩
  · intro a max_size s hs
    have htracked := CoDelQueueDisc.tracked_of_reachable hs
    exact ⟨CoDelQueueDisc.lawInRange_of_sq_le htracked.sq_le, fun now =>
      (CoDelQueueDisc.do_dequeue_right htracked now).1⟩
  · intro s hs
    have htracked := tracked_of_reachable hs
    refine ⟨lawInRange_of_sq_le ?_, htracked.newtons⟩
    by_cases hpos : 1 ≤ s.2.control.count.toNat
    · exact (htracked.near_of_pos hpos).upper
    · rw [show s.2.control.count.toNat = 0 by omega, Nat.zero_mul, Nat.mul_zero]
      exact Nat.zero_le _
  · intro c hc
    apply lawInRange_of_sq_le
    by_cases hpos : 1 ≤ c.toNat
    · exact (cache_near hpos hc).upper
    · rw [show c.toNat = 0 by omega, Nat.zero_mul, Nat.mul_zero]
      exact Nat.zero_le _

/-- The first entry above the reciprocal square root is the one for five; and the 32-bit times of CoDel
go around. -/
theorem above_root_for_five :
    (1920766345, 5) ∈ (cache_init 0xffffffff 1 (REC_INV_SQRT_CACHE - 1)).1 ∧
      2 ^ 64 < (5 : UInt32).toNat * (newton_step 1920766345 5).toNat ^ 2 ∧
      (CoDelQueueDisc.control_law 0xffffffff 97656 0xffff).toNat < (0xffffffff : UInt32).toNat := by
  decide +kernel

end Ns3.TrafficControl.CobaltQueueDisc
