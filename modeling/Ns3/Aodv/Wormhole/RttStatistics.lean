import Ns3.Network.Address

namespace Ns3.Aodv

abbrev ExactTime := ℚ

/-- The RTT statistics of the detector over exact times. -/
structure RttStatistics where
  neighbor_estimated_rtt : Std.ExtTreeMap Ipv4Address ExactTime := ∅
  neighbor_estimated_var : Std.ExtTreeMap Ipv4Address ExactTime := ∅

namespace RttStatistics

def update_neighbor_rtt_stats (s : RttStatistics) (neighbor : Ipv4Address) (sample : ExactTime) :
    RttStatistics :=
  match s.neighbor_estimated_rtt[neighbor]? with
  | none =>
    { neighbor_estimated_rtt := s.neighbor_estimated_rtt.insert neighbor sample
      neighbor_estimated_var := s.neighbor_estimated_var.insert neighbor (sample / 2) }
  | some currentMean =>
    let alpha := 1 / 8
    let beta := 1 / 4
    let currentVar := (s.neighbor_estimated_var[neighbor]?).getD (sample / 2)
    let err := sample - currentMean
    let absErr := if err < 0 then 0 - err else err
    let newMean := currentMean + alpha * err
    let varDelta := absErr - currentVar
    let newVar := currentVar + beta * varDelta
    { neighbor_estimated_rtt := s.neighbor_estimated_rtt.insert neighbor newMean
      neighbor_estimated_var := s.neighbor_estimated_var.insert neighbor newVar }

/-- The threshold of `EvaluateRttProbe` and `EvaluateVerificationProbe`. -/
def threshold (s : RttStatistics) (wormhole_mu : ℚ) (neighbor : Ipv4Address) : ExactTime :=
  let variation :=
    match s.neighbor_estimated_var[neighbor]? with
    | some v => if v > 1 / 1000000 then v else 1 / 1000
    | none => 1 / 1000
  wormhole_mu * variation

/-- The statistics after a sequence of samples of any neighbours. -/
def feed (samples : List (Ipv4Address × ExactTime)) : RttStatistics :=
  samples.foldl (fun s p => s.update_neighbor_rtt_stats p.1 p.2) {}

def samplesOf (neighbor : Ipv4Address) (samples : List (Ipv4Address × ExactTime)) : List ExactTime :=
  (samples.filter (·.1 = neighbor)).map (·.2)

/-- The mean and the variation stored for a neighbour. -/
def stored (s : RttStatistics) (neighbor : Ipv4Address) : Option ExactTime × Option ExactTime :=
  (s.neighbor_estimated_rtt[neighbor]?, s.neighbor_estimated_var[neighbor]?)

def track : Option ExactTime × Option ExactTime → ExactTime → Option ExactTime × Option ExactTime
  | (none, _), x => (some x, some (x / 2))
  | (some m, v), x => (some (m + 1 / 8 * (x - m)), some (v.getD (x / 2) + 1 / 4 * (|x - m| - v.getD (x / 2))))

variable {s : RttStatistics} {neighbor n : Ipv4Address} {x lo hi first : ExactTime}

theorem absErr_eq (err : ExactTime) : (if err < 0 then 0 - err else err) = |err| := by
  split
  next h => rw [abs_of_neg h, zero_sub]
  next h => rw [abs_of_nonneg (not_lt.mp h)]

theorem stored_update (s : RttStatistics) (neighbor : Ipv4Address) (x : ExactTime) :
    (s.update_neighbor_rtt_stats neighbor x).stored neighbor = track (s.stored neighbor) x := by
  unfold update_neighbor_rtt_stats stored
  cases h : s.neighbor_estimated_rtt[neighbor]? with
  | none => simp [track]
  | some m =>
    rw [track, ← absErr_eq]
    simp

theorem stored_update_ne (hne : neighbor ≠ n) :
    (s.update_neighbor_rtt_stats neighbor x).stored n = s.stored n := by
  unfold update_neighbor_rtt_stats stored
  split <;> simp [Std.ExtTreeMap.getElem?_insert, hne]

theorem stored_foldl (samples : List (Ipv4Address × ExactTime)) (s : RttStatistics) (n : Ipv4Address) :
    (samples.foldl (fun s p => s.update_neighbor_rtt_stats p.1 p.2) s).stored n =
      (samplesOf n samples).foldl track (s.stored n) := by
  induction samples generalizing s with
  | nil => rfl
  | cons p samples ih =>
    rw [List.foldl_cons, ih]
    by_cases hn : p.1 = n
    · subst hn
      rw [stored_update]
      simp [samplesOf]
    · rw [stored_update_ne hn]
      simp [samplesOf, hn]

theorem smooth_mem_Icc {m a : ExactTime} (hm : m ∈ Set.Icc lo hi) (hx : x ∈ Set.Icc lo hi)
    (ha : a ∈ Set.Icc (0 : ℚ) 1) : m + a * (x - m) ∈ Set.Icc lo hi :=
  (convex_Icc lo hi).add_smul_sub_mem hm hx ha

/-- The bounds on what is stored for a neighbour with first sample `first` and samples
between `lo` and `hi`. -/
def Bounded (first lo hi : ExactTime) (st : Option ExactTime × Option ExactTime) : Prop :=
  ∃ m v, st = (some m, some v) ∧ m ∈ Set.Icc lo hi ∧ v ∈ Set.Icc 0 (max (first / 2) (hi - lo))

/-- Both recurrences at once: the error is taken against a mean that lies among the samples. -/
theorem Bounded.track {st : Option ExactTime × Option ExactTime} (h : Bounded first lo hi st)
    (hx : x ∈ Set.Icc lo hi) : Bounded first lo hi (track st x) := by
  obtain ⟨m, v, rfl, hm, hv⟩ := h
  have herror : |x - m| ∈ Set.Icc 0 (max (first / 2) (hi - lo)) := by
    refine ⟨abs_nonneg _, le_trans ?_ (le_max_right _ _)⟩
    rw [abs_le]
    constructor
    · linarith [hx.1, hm.2]
    · linarith [hx.2, hm.1]
  exact ⟨_, _, rfl, smooth_mem_Icc hm hx (by norm_num), smooth_mem_Icc hv herror (by norm_num)⟩

theorem Bounded.foldl {st : Option ExactTime × Option ExactTime} {xs : List ExactTime}
    (h : Bounded first lo hi st) (hxs : ∀ x ∈ xs, x ∈ Set.Icc lo hi) :
    Bounded first lo hi (xs.foldl RttStatistics.track st) := by
  induction xs generalizing st with
  | nil => exact h
  | cons x xs ih =>
    rw [List.foldl_cons]
    exact ih (h.track (hxs x (by simp))) fun y hy => hxs y (by simp [hy])

theorem bounded_first (hfirst : first ∈ Set.Icc lo hi) (hnonneg : 0 ≤ first) :
    Bounded first lo hi (track (none, none) first) :=
  ⟨first, first / 2, rfl, hfirst, by linarith, le_max_left _ _⟩

theorem stored_feed (samples : List (Ipv4Address × ExactTime)) (n : Ipv4Address) :
    (feed samples).stored n = (samplesOf n samples).foldl track (none, none) := by
  rw [feed, stored_foldl]
  simp [stored]

theorem bounded_feed {samples : List (Ipv4Address × ExactTime)} {rest : List ExactTime}
    (hnonneg : 0 ≤ first) (hsamples : samplesOf n samples = first :: rest)
    (hrange : ∀ x ∈ samplesOf n samples, x ∈ Set.Icc lo hi) :
    Bounded first lo hi ((feed samples).stored n) := by
  rw [hsamples] at hrange
  rw [stored_feed, hsamples, List.foldl_cons]
  exact (bounded_first (hrange first (by simp)) hnonneg).foldl fun x hx => hrange x (by simp [hx])

theorem threshold_nonneg {mu : ℚ} (hmu : 0 ≤ mu) (s : RttStatistics) (n : Ipv4Address) :
    0 ≤ s.threshold mu n := by
  refine mul_nonneg hmu ?_
  split
  · split
    next hv => exact le_trans (by norm_num) hv.le
    next => norm_num
  · norm_num

/-- The statistics stay within their samples: `lo` and `hi` are the smallest and the largest
sample of neighbour `n`. The range of the threshold multiplier is that of its attribute. -/
theorem rtt_statistics_bounded (samples : List (Ipv4Address × ExactTime)) (hnonneg : ∀ p ∈ samples, 0 ≤ p.2) :
    (∀ n first rest lo hi, samplesOf n samples = first :: rest → (samplesOf n samples).min? = some lo →
      (samplesOf n samples).max? = some hi →
      ∃ mean var, (feed samples).neighbor_estimated_rtt[n]? = some mean ∧
        (feed samples).neighbor_estimated_var[n]? = some var ∧ lo ≤ mean ∧ mean ≤ hi ∧
        0 ≤ var ∧ var ≤ max (first / 2) (hi - lo)) ∧
    (∀ n samples', samplesOf n samples' = samplesOf n samples →
      (feed samples').neighbor_estimated_rtt[n]? = (feed samples).neighbor_estimated_rtt[n]? ∧
        (feed samples').neighbor_estimated_var[n]? = (feed samples).neighbor_estimated_var[n]?) ∧
    ∀ n mu, 1 / 10 ≤ mu → mu ≤ 20 → 0 ≤ (feed samples).threshold mu n := by
  refine ⟨?_, ?_, ?_⟩
  · intro n first rest lo hi hsamples hlo hhi
    have hrange : ∀ x ∈ samplesOf n samples, x ∈ Set.Icc lo hi := fun x hx =>
      ⟨(List.min?_eq_some_iff.mp hlo).2 x hx, (List.max?_eq_some_iff.mp hhi).2 x hx⟩
    have hfirst : first ∈ samplesOf n samples := by rw [hsamples]; simp
    obtain ⟨p, hp, rfl⟩ := List.mem_map.mp hfirst
    obtain ⟨mean, var, hstored, hmean, hvar⟩ :=
      bounded_feed (hnonneg p (List.mem_of_mem_filter hp)) hsamples hrange
    obtain ⟨hrtt, hdev⟩ := Prod.mk.inj hstored
    exact ⟨mean, var, hrtt, hdev, hmean.1, hmean.2, hvar.1, hvar.2⟩
  · intro n samples' hsame
    have hstored : (feed samples').stored n = (feed samples).stored n := by rw [stored_feed, stored_feed, hsame]
    exact Prod.mk.inj hstored
  · intro n mu hmu _
    exact threshold_nonneg (by linarith) _ n

/-- Samples of 4 and 8 seconds for one neighbour, with one of another in between. -/
def interleaved : List (Ipv4Address × ExactTime) := [(0x0a000002, 4), (0x0a000003, 100), (0x0a000002, 8)]

theorem interleaved_bounded : ∃ mean var,
    (feed interleaved).neighbor_estimated_rtt[(0x0a000002 : Ipv4Address)]? = some mean ∧
      (feed interleaved).neighbor_estimated_var[(0x0a000002 : Ipv4Address)]? = some var ∧
      4 ≤ mean ∧ mean ≤ 8 ∧ 0 ≤ var ∧ var ≤ max (4 / 2) (8 - 4) :=
  (rtt_statistics_bounded interleaved (by decide +kernel)).1 0x0a000002 4 [8] 4 8 (by decide +kernel)
    (by decide +kernel) (by decide +kernel)

end RttStatistics

end Ns3.Aodv
