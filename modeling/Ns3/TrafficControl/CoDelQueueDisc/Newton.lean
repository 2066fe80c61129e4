import Ns3.TrafficControl.CoDelQueueDisc.Safety

namespace Ns3.TrafficControl

/-- The cubic of a Newton step is largest where the argument is a third of the sum. -/
theorem cubic_le (x s : ℕ) (h : x ≤ s) : 27 * (x * (s - x) ^ 2) ≤ 4 * s ^ 3 := by
  obtain ⟨y, rfl⟩ := Nat.exists_eq_add_of_le h
  rw [Nat.add_sub_cancel_left]
  zify
  nlinarith [mul_nonneg (sq_nonneg ((y : ℤ) - 2 * x)) (by positivity : (0 : ℤ) ≤ x + 4 * y)]

end Ns3.TrafficControl

namespace Ns3.TrafficControl.CoDelQueueDisc

open Transition

/-- The step without the truncations to a word. -/
def newton (r c : ℕ) : ℕ := (3 * 2 ^ 32 - c * r ^ 2) / 4 * r / 2 ^ 31

theorem newton_lt {r c : ℕ} (hr : r < 2 ^ 16) (hc : 1 ≤ c) : newton r c < 2 ^ 16 := by
  have hcube : (3 * 2 ^ 32 - c * r ^ 2) * r < 2 ^ 49 := by
    have hle : (3 * 2 ^ 32 - c * r ^ 2) * r ≤ (3 * 2 ^ 32 - r ^ 2) * r :=
      Nat.mul_le_mul_right _ (Nat.sub_le_sub_left (Nat.le_mul_of_pos_left _ hc) _)
    have hsq : r ^ 2 ≤ 3 * 2 ^ 32 := by nlinarith
    refine lt_of_le_of_lt hle ?_
    zify [hsq]
    have hpos : (0 : ℤ) < (2 ^ 16 - r) ^ 2 * (2 * 2 ^ 16 + r) := by
      have : (0 : ℤ) < 2 ^ 16 - r := by omega
      positivity
    nlinarith
  rw [newton, Nat.div_lt_iff_lt_mul (by norm_num)]
  have hdiv : (3 * 2 ^ 32 - c * r ^ 2) / 4 * 4 * r ≤ (3 * 2 ^ 32 - c * r ^ 2) * r :=
    Nat.mul_le_mul_right _ (Nat.div_mul_le_self _ _)
  have hfour : (3 * 2 ^ 32 - c * r ^ 2) / 4 * 4 * r = 4 * ((3 * 2 ^ 32 - c * r ^ 2) / 4 * r) := by ring
  omega

theorem newton_sq_le {r c : ℕ} (hle : c * r ^ 2 ≤ 3 * 2 ^ 32) : c * newton r c ^ 2 ≤ 2 ^ 32 := by
  have hstep : newton r c * 2 ^ 33 ≤ (3 * 2 ^ 32 - c * r ^ 2) * r := by
    have hmul : newton r c * 2 ^ 31 ≤ (3 * 2 ^ 32 - c * r ^ 2) / 4 * r := Nat.div_mul_le_self _ _
    have hdiv : (3 * 2 ^ 32 - c * r ^ 2) / 4 * 4 * r ≤ (3 * 2 ^ 32 - c * r ^ 2) * r :=
      Nat.mul_le_mul_right _ (Nat.div_mul_le_self _ _)
    calc newton r c * 2 ^ 33 = 4 * (newton r c * 2 ^ 31) := by ring
      _ ≤ 4 * ((3 * 2 ^ 32 - c * r ^ 2) / 4 * r) := Nat.mul_le_mul_left _ hmul
      _ = (3 * 2 ^ 32 - c * r ^ 2) / 4 * 4 * r := by ring
      _ ≤ (3 * 2 ^ 32 - c * r ^ 2) * r := hdiv
  have hcubic := cubic_le (c * r ^ 2) (3 * 2 ^ 32) hle
  have hsq : c * (newton r c * 2 ^ 33) ^ 2 ≤ c * r ^ 2 * (3 * 2 ^ 32 - c * r ^ 2) ^ 2 := by
    calc c * (newton r c * 2 ^ 33) ^ 2 ≤ c * ((3 * 2 ^ 32 - c * r ^ 2) * r) ^ 2 :=
          Nat.mul_le_mul_left _ (Nat.pow_le_pow_left hstep 2)
      _ = _ := by ring
  have hscale : 27 * 2 ^ 66 * (c * newton r c ^ 2) ≤ 27 * 2 ^ 66 * 2 ^ 32 := by
    calc 27 * 2 ^ 66 * (c * newton r c ^ 2) = 27 * (c * (newton r c * 2 ^ 33) ^ 2) := by ring
      _ ≤ 27 * (c * r ^ 2 * (3 * 2 ^ 32 - c * r ^ 2) ^ 2) := Nat.mul_le_mul_left _ hsq
      _ ≤ 4 * (3 * 2 ^ 32) ^ 3 := hcubic
      _ = 27 * 2 ^ 66 * 2 ^ 32 := by norm_num
  exact Nat.le_of_mul_le_mul_left hscale (by norm_num)

/-- The iterate never vanishes: it is one unit only where the count cannot push it below. -/
theorem newton_pos {r c : ℕ} (hr : 1 ≤ r) (hlt : r < 2 ^ 16) (hc : c < 2 ^ 32)
    (hle : c * r ^ 2 ≤ 2 ^ 32 + r ^ 2) : 1 ≤ newton r c := by
  rw [newton, Nat.le_div_iff_mul_le (by norm_num)]
  by_cases hone : r = 1
  · subst hone
    omega
  · have hsq : r ^ 2 ≤ 2 ^ 32 := by nlinarith
    have hval : 2 ^ 30 ≤ (3 * 2 ^ 32 - c * r ^ 2) / 4 := by omega
    have htwo : 2 ≤ r := by omega
    calc 1 * 2 ^ 31 = 2 ^ 30 * 2 := by norm_num
      _ ≤ _ := Nat.mul_le_mul hval htwo

theorem toNat_invsqrt (rec_inv_sqrt : UInt16) :
    (rec_inv_sqrt.toUInt32 <<< 16).toNat = rec_inv_sqrt.toNat * 2 ^ 16 := by
  have hr : rec_inv_sqrt.toNat < 2 ^ 16 := rec_inv_sqrt.toNat_lt
  rw [UInt32.toNat_shiftLeft, UInt16.toNat_toUInt32, Nat.shiftLeft_eq]
  change rec_inv_sqrt.toNat * 2 ^ 16 % 2 ^ 32 = _
  omega

theorem toNat_newton_step {rec_inv_sqrt : UInt16} {count : UInt32} (hc : count ≠ 0)
    (hle : count.toNat * rec_inv_sqrt.toNat ^ 2 ≤ 3 * 2 ^ 32) :
    (newton_step rec_inv_sqrt count).toNat = newton rec_inv_sqrt.toNat count.toNat := by
  have hr : rec_inv_sqrt.toNat < 2 ^ 16 := rec_inv_sqrt.toNat_lt
  have hpos : 1 ≤ count.toNat := Nat.one_le_iff_ne_zero.mpr fun h => hc (UInt32.toNat_inj.mp h)
  have hlt := newton_lt hr hpos
  have hinvsqrt := toNat_invsqrt rec_inv_sqrt
  have hsq : (rec_inv_sqrt.toNat * 2 ^ 16) * (rec_inv_sqrt.toNat * 2 ^ 16) =
      rec_inv_sqrt.toNat ^ 2 * 2 ^ 32 := by ring
  have hsqlt : rec_inv_sqrt.toNat ^ 2 < 2 ^ 32 := by nlinarith
  have hinvsqrt2 : (((rec_inv_sqrt.toUInt32 <<< 16).toUInt64 * (rec_inv_sqrt.toUInt32 <<< 16).toUInt64) >>> 32).toUInt32.toNat =
      rec_inv_sqrt.toNat ^ 2 := by
    rw [UInt64.toNat_toUInt32, UInt64.toNat_shiftRight, UInt64.toNat_mul, UInt32.toNat_toUInt64, hinvsqrt,
      hsq, Nat.shiftRight_eq_div_pow]
    change rec_inv_sqrt.toNat ^ 2 * 2 ^ 32 % 2 ^ 64 / 2 ^ 32 % 2 ^ 32 = _
    omega
  rw [newton_step]
  generalize (((rec_inv_sqrt.toUInt32 <<< 16).toUInt64 * (rec_inv_sqrt.toUInt32 <<< 16).toUInt64) >>> 32).toUInt32 = invsqrt2 at hinvsqrt2
  have hprod : (count.toUInt64 * invsqrt2.toUInt64).toNat = count.toNat * rec_inv_sqrt.toNat ^ 2 := by
    rw [UInt64.toNat_mul, UInt32.toNat_toUInt64, UInt32.toNat_toUInt64, hinvsqrt2]
    omega
  have hthree : ((3 : UInt64) <<< 32).toNat = 3 * 2 ^ 32 := by decide
  have hval : ((((3 : UInt64) <<< 32) - count.toUInt64 * invsqrt2.toUInt64) >>> 2).toNat =
      (3 * 2 ^ 32 - count.toNat * rec_inv_sqrt.toNat ^ 2) / 4 := by
    rw [UInt64.toNat_shiftRight, UInt64.toNat_sub_of_le _ _ (by rw [UInt64.le_iff_toNat_le, hprod, hthree]; exact hle),
      hprod, hthree, Nat.shiftRight_eq_div_pow]
    rfl
  generalize (((3 : UInt64) <<< 32) - count.toUInt64 * invsqrt2.toUInt64) >>> 2 = val at hval
  have hbound : (3 * 2 ^ 32 - count.toNat * rec_inv_sqrt.toNat ^ 2) / 4 * (rec_inv_sqrt.toNat * 2 ^ 16) < 2 ^ 64 := by
    calc _ ≤ 2 ^ 32 * (rec_inv_sqrt.toNat * 2 ^ 16) := Nat.mul_le_mul_right _ (by omega)
      _ < 2 ^ 64 := by omega
  rw [UInt64.toNat_toUInt16, UInt64.toNat_shiftRight, UInt64.toNat_shiftRight, UInt64.toNat_mul, hval,
    UInt32.toNat_toUInt64, hinvsqrt, Nat.mod_eq_of_lt hbound, Nat.shiftRight_eq_div_pow, Nat.shiftRight_eq_div_pow]
  change (3 * 2 ^ 32 - count.toNat * rec_inv_sqrt.toNat ^ 2) / 4 * (rec_inv_sqrt.toNat * 2 ^ 16) / 2 ^ 31 / 2 ^ 16 % 2 ^ 16 = _
  rw [Nat.div_div_eq_div_mul, ← mul_assoc, Nat.mul_div_mul_right _ _ (by norm_num)]
  exact Nat.mod_eq_of_lt hlt

/-- A time in the interval of the control law, on the circle of 32-bit times: later by at most the
interval over the square root of the count. -/
def LawInRange (rec_inv_sqrt : UInt16) (count : UInt32) : Prop :=
  ∀ t interval : UInt32, ∃ d, (control_law t interval rec_inv_sqrt).toNat = (t.toNat + d) % 2 ^ 32 ∧
    count.toNat * d ^ 2 ≤ interval.toNat ^ 2

/-- A call of `NewtonStep` that does not underflow, and whose iterate is between one unit and the
reciprocal square root of the count. -/
structure StepRight (rec_inv_sqrt : UInt16) (count : UInt32) : Prop where
  no_underflow : count.toNat * ((rec_inv_sqrt.toNat * 2 ^ 16) ^ 2 / 2 ^ 32) ≤ 3 * 2 ^ 32
  pos : 1 ≤ (newton_step rec_inv_sqrt count).toNat
  sq_le : count.toNat * (newton_step rec_inv_sqrt count).toNat ^ 2 ≤ 2 ^ 32
  law : LawInRange (newton_step rec_inv_sqrt count) count

theorem lawInRange_of_sq_le {rec_inv_sqrt : UInt16} {count : UInt32}
    (hle : count.toNat * rec_inv_sqrt.toNat ^ 2 ≤ 2 ^ 32) : LawInRange rec_inv_sqrt count := by
  intro t interval
  have hr : rec_inv_sqrt.toNat < 2 ^ 16 := rec_inv_sqrt.toNat_lt
  have hi : interval.toNat < 2 ^ 32 := interval.toNat_lt
  have hprod : interval.toNat * (rec_inv_sqrt.toNat * 2 ^ 16) < 2 ^ 64 := by
    calc _ ≤ 2 ^ 32 * (rec_inv_sqrt.toNat * 2 ^ 16) := Nat.mul_le_mul_right _ hi.le
      _ < 2 ^ 64 := by omega
  have hdivide : (reciprocal_divide interval (rec_inv_sqrt.toUInt32 <<< 16)).toNat =
      interval.toNat * rec_inv_sqrt.toNat / 2 ^ 16 % 2 ^ 32 := by
    rw [reciprocal_divide, UInt64.toNat_toUInt32, UInt64.toNat_shiftRight, UInt64.toNat_mul,
      UInt32.toNat_toUInt64, UInt32.toNat_toUInt64, toNat_invsqrt, Nat.mod_eq_of_lt hprod, Nat.shiftRight_eq_div_pow]
    change interval.toNat * (rec_inv_sqrt.toNat * 2 ^ 16) / 2 ^ 32 % 2 ^ 32 = _
    rw [← mul_assoc, show (2 : ℕ) ^ 32 = 2 ^ 16 * 2 ^ 16 by norm_num, Nat.mul_div_mul_right _ _ (by norm_num)]
  refine ⟨interval.toNat * rec_inv_sqrt.toNat / 2 ^ 16, ?_, ?_⟩
  · rw [control_law, UInt32.toNat_add, hdivide, Nat.add_mod_mod]
  · have hd := Nat.div_mul_le_self (interval.toNat * rec_inv_sqrt.toNat) (2 ^ 16)
    generalize interval.toNat * rec_inv_sqrt.toNat / 2 ^ 16 = d at hd
    have hscale : 2 ^ 32 * (count.toNat * d ^ 2) ≤ 2 ^ 32 * interval.toNat ^ 2 := by
      calc 2 ^ 32 * (count.toNat * d ^ 2) = count.toNat * (d * 2 ^ 16) ^ 2 := by ring
        _ ≤ count.toNat * (interval.toNat * rec_inv_sqrt.toNat) ^ 2 :=
          Nat.mul_le_mul_left _ (Nat.pow_le_pow_left hd 2)
        _ = count.toNat * rec_inv_sqrt.toNat ^ 2 * interval.toNat ^ 2 := by ring
        _ ≤ 2 ^ 32 * interval.toNat ^ 2 := Nat.mul_le_mul_right _ hle
    exact Nat.le_of_mul_le_mul_left hscale (by norm_num)

theorem stepRight_of_le {rec_inv_sqrt : UInt16} {count : UInt32} (hc : count ≠ 0)
    (hpos : 1 ≤ rec_inv_sqrt.toNat)
    (hle : count.toNat * rec_inv_sqrt.toNat ^ 2 ≤ 2 ^ 32 + rec_inv_sqrt.toNat ^ 2) :
    StepRight rec_inv_sqrt count := by
  have hr : rec_inv_sqrt.toNat < 2 ^ 16 := rec_inv_sqrt.toNat_lt
  have hsq : rec_inv_sqrt.toNat ^ 2 < 2 ^ 32 := by nlinarith
  have hthree : count.toNat * rec_inv_sqrt.toNat ^ 2 ≤ 3 * 2 ^ 32 := by omega
  have hnewton := toNat_newton_step hc hthree
  have hsqle : count.toNat * (newton_step rec_inv_sqrt count).toNat ^ 2 ≤ 2 ^ 32 := by
    rw [hnewton]
    exact newton_sq_le hthree
  refine ⟨?_, ?_, hsqle, lawInRange_of_sq_le hsqle⟩
  · rw [mul_pow, show ((2 : ℕ) ^ 16) ^ 2 = 2 ^ 32 by norm_num, Nat.mul_div_cancel _ (by norm_num)]
    exact hthree
  · rw [hnewton]
    exact newton_pos hpos hr count.toNat_lt hle

/-- The iterates and counts with which the loop of the dropping state calls `NewtonStep`. -/
def drop_loop_newtons (a : Attributes) (now : Time) :
    List QueueDiscItem → Control → QueueDiscItem → List (UInt16 × UInt32)
  | packets, v, item =>
    if v.dropping && codel_time_after_eq (codel_get_time now) v.drop_next then
      let call := (v.rec_inv_sqrt, v.count + 1)
      let v := { v with count := v.count + 1, rec_inv_sqrt := newton_step v.rec_inv_sqrt (v.count + 1) }
      match target_mark a item with
      | some _ => [call]
      | none =>
        match packets with
        | [] => [call]
        | next :: rest =>
          let r := ok_to_drop a now rest v (some next)
          if r.1 then
            call :: drop_loop_newtons a now rest { r.2 with
              drop_next := control_law r.2.drop_next (time2_codel a.interval) r.2.rec_inv_sqrt } next
          else [call]
    else []

/-- The call at the start of a dropping state. -/
def start_newtons (a : Attributes) (now : Time) (v : Control) : List (UInt16 × UInt32) :=
  let delta := v.count - v.last_count
  if 1 < delta.toInt32 ∧
      codel_time_before (codel_get_time now - v.drop_next) (16 * time2_codel a.interval) then
    [(v.rec_inv_sqrt, delta)]
  else []

/-- The calls of one `DoDequeue`. -/
def newtons (q : CoDelQueueDisc) (now : Time) : List (UInt16 × UInt32) :=
  match q.packets with
  | [] => []
  | item :: rest =>
    if q.attrs.use_l4s && is_l4s item then []
    else
      let r := ok_to_drop q.attrs now rest q.control (some item)
      if r.2.dropping then
        if r.1 then drop_loop_newtons q.attrs now rest r.2 item else []
      else if r.1 then start_newtons q.attrs now (first_drop q.attrs now rest r.2 item).control
      else []

/-- The calls are right as long as the count has not gone past the end of its word. -/
def RightUntilWrap : List (UInt16 × UInt32) → Prop
  | [] => True
  | c :: calls => c.2 ≠ 0 → StepRight c.1 c.2 ∧ RightUntilWrap calls

/-- What the runs keep of the counters. -/
structure Tracked (v : Control) : Prop where
  pos : 1 ≤ v.rec_inv_sqrt.toNat
  sq_le : v.count.toNat * v.rec_inv_sqrt.toNat ^ 2 ≤ 2 ^ 32
  last_le : v.last_count ≤ v.count

variable {a : Attributes} {now : Time} {packets : List QueueDiscItem} {v : Control} {item : QueueDiscItem}
  {q : CoDelQueueDisc} {max_size : QueueSize}

theorem ok_to_drop_control (a : Attributes) (now : Time) (packets : List QueueDiscItem) (v : Control)
    (o : Option QueueDiscItem) : ∃ t, (ok_to_drop a now packets v o).2 = { v with first_above_time := t } := by
  unfold ok_to_drop
  split
  · exact ⟨0, rfl⟩
  · split
    · exact ⟨0, rfl⟩
    · split
      · exact ⟨_, rfl⟩
      · exact ⟨v.first_above_time, rfl⟩

/-- One more drop: the step is right, and its iterate fits the new count. -/
theorem Tracked.count_up (h : Tracked v) (hwrap : v.count + 1 ≠ 0) :
    StepRight v.rec_inv_sqrt (v.count + 1) ∧
      Tracked { v with count := v.count + 1, rec_inv_sqrt := newton_step v.rec_inv_sqrt (v.count + 1) } := by
  have hlt := v.count.toNat_lt
  have hne : (v.count + 1).toNat ≠ 0 := fun h => hwrap (UInt32.toNat_inj.mp h)
  have hup : (v.count + 1).toNat = v.count.toNat + 1 := by
    rw [UInt32.toNat_add] at hne ⊢
    change (v.count.toNat + 1) % 2 ^ 32 ≠ 0 at hne
    change (v.count.toNat + 1) % 2 ^ 32 = _
    omega
  have hright : StepRight v.rec_inv_sqrt (v.count + 1) := by
    refine stepRight_of_le hwrap h.pos ?_
    rw [hup, Nat.add_mul, Nat.one_mul]
    have := h.sq_le
    omega
  refine ⟨hright, hright.pos, hright.sq_le, ?_⟩
  have hlast := UInt32.le_iff_toNat_le.mp h.last_le
  exact UInt32.le_iff_toNat_le.mpr (by dsimp only; omega)

theorem right_of_single {c : UInt16 × UInt32} (h : c.2 ≠ 0 → StepRight c.1 c.2) : RightUntilWrap [c] :=
  fun hne => ⟨h hne, trivial⟩

theorem Tracked.congr {w : Control} (h : Tracked v) (hcount : w.count = v.count)
    (hsqrt : w.rec_inv_sqrt = v.rec_inv_sqrt) (hlast : w.last_count = v.last_count) : Tracked w where
  pos := hsqrt ▸ h.pos
  sq_le := hsqrt ▸ hcount ▸ h.sq_le
  last_le := hlast ▸ hcount ▸ h.last_le

theorem Tracked.ok_to_drop (h : Tracked v) (a : Attributes) (now : Time) (packets : List QueueDiscItem)
    (o : Option QueueDiscItem) : Tracked (ok_to_drop a now packets v o).2 := by
  obtain ⟨t, ht⟩ := ok_to_drop_control a now packets v o
  rw [ht]
  exact h.congr rfl rfl rfl

/-- By induction on the packets: each turn counts one drop up. -/
theorem drop_loop_right (h : Tracked v) (a : Attributes) (now : Time) (packets : List QueueDiscItem)
    (item : QueueDiscItem) :
    RightUntilWrap (drop_loop_newtons a now packets v item) ∧
      ((∀ c ∈ drop_loop_newtons a now packets v item, c.2 ≠ 0) →
        Tracked (drop_loop a now packets v item).control) := by
  induction packets generalizing v item with
  | nil =>
    rw [drop_loop_newtons, drop_loop]
    split
    · dsimp only
      have hcall := right_of_single (c := (v.rec_inv_sqrt, v.count + 1)) fun hne => (h.count_up hne).1
      cases target_mark a item with
      | some marked =>
        exact ⟨hcall, fun hall => (h.count_up (hall _ List.mem_cons_self)).2.congr rfl rfl rfl⟩
      | none =>
        refine ⟨hcall, fun hall => ?_⟩
        exact ((h.count_up (hall _ List.mem_cons_self)).2.ok_to_drop a now [] none).congr rfl rfl rfl
    · exact ⟨trivial, fun _ => h⟩
  | cons next rest ih =>
    rw [drop_loop_newtons, drop_loop]
    split
    · dsimp only
      have hcall := right_of_single (c := (v.rec_inv_sqrt, v.count + 1)) fun hne => (h.count_up hne).1
      cases target_mark a item with
      | some marked =>
        exact ⟨hcall, fun hall => (h.count_up (hall _ List.mem_cons_self)).2.congr rfl rfl rfl⟩
      | none =>
        dsimp only
        split
        · refine ⟨fun hne => ⟨(h.count_up hne).1, ?_⟩, fun hall => ?_⟩
          · refine (ih ?_ next).1
            exact ((h.count_up hne).2.ok_to_drop a now rest (some next)).congr rfl rfl rfl
          · obtain ⟨hne, hrest⟩ := List.forall_mem_cons.mp hall
            refine (ih ?_ next).2 hrest
            exact ((h.count_up hne).2.ok_to_drop a now rest (some next)).congr rfl rfl rfl
        · refine ⟨hcall, fun hall => ?_⟩
          exact ((h.count_up (hall _ List.mem_cons_self)).2.ok_to_drop a now rest (some next)).congr rfl rfl rfl
    · exact ⟨trivial, fun _ => h⟩

theorem start_dropping_right (h : Tracked v) (a : Attributes) (now : Time) :
    RightUntilWrap (start_newtons a now v) ∧ Tracked (start_dropping a now v) := by
  have hlast := UInt32.le_iff_toNat_le.mp h.last_le
  have hdelta : (v.count - v.last_count).toNat = v.count.toNat - v.last_count.toNat :=
    UInt32.toNat_sub_of_le _ _ h.last_le
  unfold start_newtons start_dropping
  dsimp only
  by_cases hrestart : 1 < (v.count - v.last_count).toInt32 ∧
      codel_time_before (codel_get_time now - v.drop_next) (16 * time2_codel a.interval)
  · rw [if_pos hrestart, if_pos hrestart]
    have hne : v.count - v.last_count ≠ 0 := by
      intro hzero
      rw [hzero] at hrestart
      exact absurd hrestart.1 (by decide)
    have hright : StepRight v.rec_inv_sqrt (v.count - v.last_count) := by
      refine stepRight_of_le hne h.pos ?_
      have hle : (v.count - v.last_count).toNat * v.rec_inv_sqrt.toNat ^ 2 ≤
          v.count.toNat * v.rec_inv_sqrt.toNat ^ 2 := Nat.mul_le_mul_right _ (by omega)
      have := h.sq_le
      omega
    exact ⟨right_of_single fun _ => hright, hright.pos, hright.sq_le, UInt32.le_refl _⟩
  · rw [if_neg hrestart, if_neg hrestart]
    have hone : Tracked { count := 1, last_count := 1 } := ⟨by decide, by decide, by decide⟩
    exact ⟨trivial, hone.congr rfl rfl rfl⟩

theorem Tracked.first_drop (h : Tracked v) (a : Attributes) (now : Time) (packets : List QueueDiscItem)
    (item : QueueDiscItem) : Tracked (first_drop a now packets v item).control := by
  unfold CoDelQueueDisc.first_drop
  split
  · exact h
  · exact h.ok_to_drop a now packets.tail packets.head?

theorem do_dequeue_right (h : Tracked q.control) (now : Time) :
    RightUntilWrap (q.newtons now) ∧ ((∀ c ∈ q.newtons now, c.2 ≠ 0) →
      ∀ r q' events, q.do_dequeue now = some (r, q', events) → Tracked q'.control) := by
  unfold newtons do_dequeue
  cases q.packets with
  | nil =>
    refine ⟨trivial, fun _ r q' events hsome => ?_⟩
    cases hsome
    exact h.congr rfl rfl rfl
  | cons item rest =>
    dsimp only
    split
    · refine ⟨trivial, fun _ r q' events hsome => ?_⟩
      cases hsome
      exact h
    · have hok := h.ok_to_drop q.attrs now rest (some item)
      have hfinish {served : Served} {r : Option QueueDiscItem} {q' : CoDelQueueDisc} {events : List QueueDiscEvent}
          (hsome : q.finish now served = some (r, q', events)) : q'.control = served.control := by
        obtain ⟨x, -, heq⟩ := Option.map_eq_some_iff.mp hsome
        cases heq
        rfl
      unfold serve
      dsimp only
      split
      · split
        · have hloop := drop_loop_right hok q.attrs now rest item
          exact ⟨hloop.1, fun hall r q' events hsome => hfinish hsome ▸ hloop.2 hall⟩
        · exact ⟨trivial, fun _ r q' events hsome => hfinish hsome ▸ hok.congr rfl rfl rfl⟩
      · split
        · have hstart := start_dropping_right (hok.first_drop q.attrs now rest item) q.attrs now
          exact ⟨hstart.1, fun _ r q' events hsome => hfinish hsome ▸ hstart.2⟩
        · exact ⟨trivial, fun _ r q' events hsome => hfinish hsome ▸ hok⟩

/-- A dequeue in which the count does not go past the end of its word. -/
def NoWrap (s : Time × CoDelQueueDisc) (e : Time × Call) : Prop :=
  e.2 = .dequeue → ∀ c ∈ s.2.newtons e.1, c.2 ≠ 0

theorem tracked_of_reachable {s : Time × CoDelQueueDisc}
    (h : Reachable (· = (0, { attrs := a, max_size })) step NoWrap s) : Tracked s.2.control := by
  refine h.invariant (I := fun s => Tracked s.2.control) ?_ ?_
  · rintro s rfl
    have hfresh : Tracked {} := ⟨by decide, by decide, by decide⟩
    exact hfresh
  · rintro ⟨t, q⟩ ⟨t', c⟩ s' htracked hwrap hstep
    unfold step at hstep
    split at hstep
    · obtain ⟨r, hcall, rfl⟩ := Option.map_eq_some_iff.mp hstep
      cases c with
      | enqueue x =>
        cases hcall
        dsimp only
        unfold enqueue
        split <;> exact htracked
      | dequeue =>
        obtain ⟨⟨r, q', events⟩, hsome, rfl⟩ := Option.map_eq_some_iff.mp hcall
        exact (do_dequeue_right htracked t').2 (hwrap rfl) r q' events hsome
    · cases hstep

end Ns3.TrafficControl.CoDelQueueDisc
