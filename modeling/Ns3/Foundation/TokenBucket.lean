import Mathlib

namespace TokenBucket

variable {K : Type*}

/-- The sum of the amounts of a history of times and amounts. -/
def total [AddCommMonoid K] (sent : List (K × K)) : K := (sent.map (·.2)).sum

theorem total_concat [AddCommMonoid K] (sent : List (K × K)) (x : K × K) :
    total (sent ++ [x]) = total sent + x.2 := by
  simp [total]

variable [LinearOrder K]

/-- What was taken from `a` to `e`. -/
def during (sent : List (K × K)) (a e : K) : List (K × K) := sent.filter fun x => a ≤ x.1 ∧ x.1 ≤ e

theorem during_concat_of_mem {sent : List (K × K)} {a e : K} {x : K × K} (hfrom : a ≤ x.1) (hto : x.1 ≤ e) :
    during (sent ++ [x]) a e = during sent a e ++ [x] := by
  rw [during, List.filter_append, List.filter_singleton, decide_eq_true ⟨hfrom, hto⟩]
  rfl

theorem during_concat_of_lt {sent : List (K × K)} {a e : K} {x : K × K} (h : e < x.1) :
    during (sent ++ [x]) a e = during sent a e := by
  rw [during, List.filter_append, List.filter_singleton, decide_eq_false fun hin => absurd hin.2 (not_le.mpr h)]
  exact List.append_nil _

theorem during_concat_of_gt {sent : List (K × K)} {a e : K} {x : K × K} (h : x.1 < a) :
    during (sent ++ [x]) a e = during sent a e := by
  rw [during, List.filter_append, List.filter_singleton, decide_eq_false fun hin => absurd hin.1 (not_le.mpr h)]
  exact List.append_nil _

theorem during_eq_nil {sent : List (K × K)} {a e last : K} (hsent : ∀ x ∈ sent, x.1 ≤ last) (h : last < a) :
    during sent a e = [] := by
  rw [during, List.filter_eq_nil_iff]
  intro x hx hin
  have hbounds := of_decide_eq_true hin
  exact absurd (hbounds.1.trans (hsent x hx)) (not_le.mpr h)

variable [Field K] [IsStrictOrderedRing K]

/-- What was taken from a bucket of this capacity stays, over every interval, within what it held
and earned, up to a slack for each time. The tokens left at the last time are credit still. -/
structure Conforms (capacity rate slack : K) (sent : List (K × K)) (last tokens : K) : Prop where
  before : ∀ x ∈ sent, x.1 ≤ last
  since : ∀ a ≤ last, ∀ e ≥ last, total (during sent a e) + tokens ≤
    capacity + rate * (last - a) + slack * (during sent a e).length
  interval : ∀ a e, a ≤ e → total (during sent a e) ≤
    capacity + rate * (e - a) + slack * (during sent a e).length

variable {capacity rate slack last tokens : K} {sent : List (K × K)}

theorem conforms_of_full (hcapacity : 0 ≤ capacity) (hrate : 0 ≤ rate) (htokens : tokens ≤ capacity) :
    Conforms capacity rate slack [] last tokens where
  before := by simp
  since a ha e _ := by
    have := mul_nonneg hrate (sub_nonneg.mpr ha)
    simp only [during, total, List.filter_nil, List.map_nil, List.sum_nil, List.length_nil, Nat.cast_zero, mul_zero]
    linarith
  interval a e hle := by
    have := mul_nonneg hrate (sub_nonneg.mpr hle)
    simp only [during, total, List.filter_nil, List.map_nil, List.sum_nil, List.length_nil, Nat.cast_zero, mul_zero]
    linarith

/-- An amount is taken when the bucket holds it. The interval ends before, or it ends after this time,
and then what was left credits what is taken now. -/
theorem Conforms.take (h : Conforms capacity rate slack sent last tokens) (hrate : 0 ≤ rate) (hslack : 0 ≤ slack)
    {now amount left : K} (hnow : last ≤ now) (hleft : 0 ≤ left) (hcapacity : amount + left ≤ capacity)
    (hearned : amount + left ≤ tokens + rate * (now - last) + slack) :
    Conforms capacity rate slack (sent ++ [(now, amount)]) now left := by
  have hsince : ∀ a ≤ now, ∀ e ≥ now, total (during (sent ++ [(now, amount)]) a e) + left ≤
      capacity + rate * (now - a) + slack * (during (sent ++ [(now, amount)]) a e).length := by
    intro a ha e he
    rw [during_concat_of_mem ha he, total_concat, List.length_append, List.length_singleton, Nat.cast_add,
      Nat.cast_one]
    rcases le_or_gt a last with hle | hgt
    · have hbefore := h.since a hle e (hnow.trans he)
      dsimp only
      linarith
    · have hgain := mul_nonneg hrate (sub_nonneg.mpr ha)
      rw [during_eq_nil h.before hgt]
      simp only [total, List.map_nil, List.sum_nil, List.length_nil, Nat.cast_zero]
      linarith
  refine ⟨?_, hsince, ?_⟩
  · intro x hx
    rcases List.mem_append.mp hx with hx | hx
    · exact (h.before x hx).trans hnow
    · rw [List.mem_singleton.mp hx]
  · intro a e hle
    rcases lt_or_ge e now with hlt | hge
    · rw [during_concat_of_lt hlt]
      exact h.interval a e hle
    · rcases le_or_gt a now with ha | ha
      · have hcredit := hsince a ha e hge
        have hgain := mul_nonneg hrate (sub_nonneg.mpr hge)
        linarith
      · rw [during_concat_of_gt ha]
        exact h.interval a e hle

end TokenBucket
