import Ns3.Aodv.Protocol.Run

namespace Ns3.Aodv

namespace WormholeDetector

/-- The maps of the detector agree: a neighbour under verification has one outstanding
probe, with the time it was recorded at; both statistics have the same neighbours;
and suspects, and neighbours with failures, are detected peers. -/
structure Consistent (d : WormholeDetector) : Prop where
  pending : ∀ (n : Ipv4Address) (t : Time), d.under_verification[n]? = some t →
    ∃ o, d.verification_probe_start_time[(⟨o, n⟩ : WormholeProbeKey)]? = some t ∧
      ∀ o', (⟨o', n⟩ : WormholeProbeKey) ∈ d.verification_probe_start_time → o' = o
  probe : ∀ o n, (⟨o, n⟩ : WormholeProbeKey) ∈ d.verification_probe_start_time → n ∈ d.under_verification
  statistics : ∀ n, n ∈ d.neighbor_estimated_rtt ↔ n ∈ d.neighbor_estimated_var
  suspects : ∀ n, n ∈ d.suspect_until ↔ n ∈ d.detected_wormhole_peers
  failures : ∀ n, n ∈ d.verification_failure_count → n ∈ d.detected_wormhole_peers

variable {d : WormholeDetector} {a : DetectorAttributes} {now : Time} {n : Ipv4Address}

theorem Consistent.empty : Consistent {} := by
  constructor <;> simp

/-- The maps that the invariant constrains are the ones after `rtt_probe_start_time`. -/
theorem Consistent.set_rtt_probe_start_time (h : d.Consistent) (m : Std.ExtTreeMap WormholeProbeKey Time) :
    Consistent { d with rtt_probe_start_time := m } :=
  { h with }

theorem Consistent.update_neighbor_rtt_stats (h : d.Consistent) (sample : Time) :
    (d.update_neighbor_rtt_stats a n sample).Consistent := by
  have hstatistics : ∀ (v w : Time) (m : Ipv4Address),
      m ∈ d.neighbor_estimated_rtt.insert n v ↔ m ∈ d.neighbor_estimated_var.insert n w := by
    intro v w m
    rw [Std.ExtTreeMap.mem_insert, Std.ExtTreeMap.mem_insert, h.statistics m]
  unfold WormholeDetector.update_neighbor_rtt_stats
  split
  · exact ⟨h.pending, h.probe, hstatistics _ _, h.suspects, h.failures⟩
  · exact ⟨h.pending, h.probe, hstatistics _ _, h.suspects, h.failures⟩

theorem Consistent.mark_suspect (h : d.Consistent) {counts : Std.ExtTreeMap Ipv4Address UInt32}
    (hcounts : ∀ m, m ∈ counts → m = n ∨ m ∈ d.verification_failure_count) :
    (({ d with verification_failure_count := counts } : WormholeDetector).mark_suspect a now n).Consistent := by
  refine ⟨h.pending, h.probe, h.statistics, fun m => ?_, fun m hm => ?_⟩
  · simp only [WormholeDetector.mark_suspect, Std.ExtTreeMap.mem_insert, Std.ExtTreeSet.mem_insert, h.suspects m]
  · simp only [WormholeDetector.mark_suspect, Std.ExtTreeSet.mem_insert]
    rcases hcounts m hm with rfl | hold
    · exact .inl (by simp)
    · exact .inr (h.failures m hold)

theorem Consistent.clear_failures (h : d.Consistent) : Consistent { d with
    verification_failure_count := d.verification_failure_count.erase n } :=
  ⟨h.pending, h.probe, h.statistics, h.suspects,
    fun m hm => h.failures m (Std.ExtTreeMap.mem_erase.mp hm).2⟩

theorem Consistent.verify (h : d.Consistent) (hnew : n ∉ d.under_verification) (o : Ipv4Address) :
    Consistent { d with
      under_verification := d.under_verification.insert n now
      verification_probe_start_time := d.verification_probe_start_time.insert ⟨o, n⟩ now } := by
  refine ⟨fun m t hm => ?_, fun o' m hm => ?_, h.statistics, h.suspects, h.failures⟩
  · rw [Std.ExtTreeMap.getElem?_insert] at hm
    split at hm
    next heq =>
      obtain rfl : n = m := by simpa using heq
      cases hm
      refine ⟨o, by simp, fun o' ho' => ?_⟩
      rcases Std.ExtTreeMap.mem_insert.mp ho' with hkey | hold
      · simp only [Std.LawfulEqOrd.compare_eq_iff_eq, WormholeProbeKey.mk.injEq] at hkey
        exact hkey.1.symm
      · exact absurd (h.probe o' n hold) hnew
    next hne =>
      have hmn : n ≠ m := by simpa using hne
      obtain ⟨o₀, hprobe, hunique⟩ := h.pending m t hm
      refine ⟨o₀, ?_, fun o' ho' => ?_⟩
      · rw [Std.ExtTreeMap.getElem?_insert, if_neg (by simp [hmn])]
        exact hprobe
      · rcases Std.ExtTreeMap.mem_insert.mp ho' with hkey | hold
        · simp [hmn] at hkey
        · exact hunique o' hold
  · rw [Std.ExtTreeMap.mem_insert]
    rcases Std.ExtTreeMap.mem_insert.mp hm with hkey | hold
    · left
      simp only [Std.LawfulEqOrd.compare_eq_iff_eq, WormholeProbeKey.mk.injEq] at hkey ⊢
      exact hkey.2
    · exact .inr (h.probe o' m hold)

theorem Consistent.close_verification (h : d.Consistent) {o : Ipv4Address}
    (hstart : (⟨o, n⟩ : WormholeProbeKey) ∈ d.verification_probe_start_time) :
    Consistent { d with
      under_verification := d.under_verification.erase n
      verification_probe_start_time := d.verification_probe_start_time.erase ⟨o, n⟩ } := by
  refine ⟨fun m t hm => ?_, fun o' m hm => ?_, h.statistics, h.suspects, h.failures⟩
  · rw [Std.ExtTreeMap.getElem?_erase] at hm
    split at hm
    next => cases hm
    next hne =>
      have hmn : n ≠ m := by simpa using hne
      obtain ⟨o₀, hprobe, hunique⟩ := h.pending m t hm
      refine ⟨o₀, ?_, fun o' ho' => hunique o' (Std.ExtTreeMap.mem_erase.mp ho').2⟩
      rw [Std.ExtTreeMap.getElem?_erase, if_neg (by simp [hmn])]
      exact hprobe
  · rw [Std.ExtTreeMap.mem_erase] at hm ⊢
    refine ⟨?_, h.probe o' m hm.2⟩
    intro heq
    obtain rfl : n = m := by simpa using heq
    obtain ⟨t, ht⟩ := Option.isSome_iff_exists.mp
      (Std.ExtTreeMap.mem_iff_isSome_getElem?.mp (h.probe o n hstart))
    obtain ⟨o₀, _, hunique⟩ := h.pending n t ht
    exact hm.1 (by simp [hunique o hstart, hunique o' hm.2])

theorem Consistent.evaluate_verification_probe (h : d.Consistent) {o : Ipv4Address}
    (hstart : (⟨o, n⟩ : WormholeProbeKey) ∈ d.verification_probe_start_time) (rtt : Time) :
    (d.evaluate_verification_probe a now o n rtt).2.Consistent := by
  unfold WormholeDetector.evaluate_verification_probe
  rw [if_pos hstart]
  simp only
  split
  next =>
    refine (h.mark_suspect ?_).close_verification hstart
    intro m hm
    rcases Std.ExtTreeMap.mem_insert.mp hm with heq | hold
    · exact .inl (Std.LawfulEqOrd.compare_eq_iff_eq.mp heq).symm
    · exact .inr hold
  next =>
    have hstats := (h.clear_failures (n := n)).update_neighbor_rtt_stats (a := a) (n := n) rtt
    have hprobes : ∀ d' : WormholeDetector,
        (d'.update_neighbor_rtt_stats a n rtt).verification_probe_start_time =
          d'.verification_probe_start_time := by
      intro d'
      unfold WormholeDetector.update_neighbor_rtt_stats
      split <;> rfl
    exact hstats.close_verification (by rw [hprobes]; exact hstart)

theorem evaluate_verification_probe_failures (a : DetectorAttributes) (now : Time) {o : Ipv4Address}
    (hstart : (⟨o, n⟩ : WormholeProbeKey) ∈ d.verification_probe_start_time) (rtt : Time) :
    (d.evaluate_verification_probe a now o n rtt).2.verification_failure_count =
      if (d.evaluate_verification_probe a now o n rtt).1 then
        d.verification_failure_count.insert n ((d.verification_failure_count[n]?).getD 0 + 1)
      else d.verification_failure_count.erase n := by
  unfold WormholeDetector.evaluate_verification_probe WormholeDetector.update_neighbor_rtt_stats
  rw [if_pos hstart]
  simp only
  split
  · rfl
  · split <;> rfl

theorem evaluate_verification_probe_pending (a : DetectorAttributes) (now : Time) {o : Ipv4Address}
    (hstart : (⟨o, n⟩ : WormholeProbeKey) ∈ d.verification_probe_start_time) (rtt : Time) :
    (d.evaluate_verification_probe a now o n rtt).2.under_verification = d.under_verification.erase n ∧
      (d.evaluate_verification_probe a now o n rtt).2.verification_probe_start_time =
        d.verification_probe_start_time.erase ⟨o, n⟩ := by
  unfold WormholeDetector.evaluate_verification_probe WormholeDetector.update_neighbor_rtt_stats
  rw [if_pos hstart]
  simp only
  split
  · exact ⟨rfl, rfl⟩
  · split <;> exact ⟨rfl, rfl⟩

theorem update_neighbor_rtt_stats_failures (d : WormholeDetector) (sample : Time) :
    (d.update_neighbor_rtt_stats a n sample).verification_failure_count = d.verification_failure_count := by
  unfold WormholeDetector.update_neighbor_rtt_stats
  split <;> rfl

end WormholeDetector

/-- Whether the effect is the confirmation of a wormhole at `n`. -/
def Effect.confirms (n : Ipv4Address) : Effect → Bool
  | .verification_evaluated key confirmed => confirmed && key.dst == n
  | _ => false

namespace RoutingProtocol

variable {c : Cause} {s s' : RoutingProtocol} {n : Ipv4Address}

/-- How often verifications have confirmed a wormhole at `n`. -/
def confirmations (n : Ipv4Address) (log : List Effect) : Nat := log.countP (Effect.confirms n)

/-- The failures counted for a neighbour, before the counter wraps, are some of the
confirmations of the run, and at least one. -/
def Counted (s : RoutingProtocol) : Prop :=
  ∀ (n : Ipv4Address) (count : UInt32), s.detector.verification_failure_count[n]? = some count →
    ∃ k, 1 ≤ k ∧ k ≤ confirmations n s.log ∧ count = UInt32.ofNat k

theorem confirmations_append (n : Ipv4Address) (l l' : List Effect) :
    confirmations n (l ++ l') = confirmations n l + confirmations n l' :=
  List.countP_append

theorem Counted.mono (h : s.Counted)
    (hfailures : s'.detector.verification_failure_count = s.detector.verification_failure_count)
    (hlog : ∃ l, s'.log = s.log ++ l) : s'.Counted := by
  obtain ⟨l, hl⟩ := hlog
  intro n count hcount
  rw [hfailures] at hcount
  obtain ⟨k, hpos, hle, heq⟩ := h n count hcount
  refine ⟨k, hpos, ?_, heq⟩
  rw [hl, confirmations_append]
  omega

theorem Detection.consistent (h : Detection s s') (hs : s.detector.Consistent) : s'.detector.Consistent := by
  cases h with
  | start origin dst henable =>
    unfold start_rtt_probe
    rw [if_pos henable]
    exact hs.set_rtt_probe_start_time _
  | accept sender rtt hstart => exact (hs.update_neighbor_rtt_stats rtt).set_rtt_probe_start_time _
  | reject sender hstart => exact (hs.mark_suspect fun m hm => .inr hm).set_rtt_probe_start_time _
  | defer sender hstart => exact hs.set_rtt_probe_start_time _
  | verify origin neighbor source hnew => exact hs.verify hnew origin
  | respond origin neighbor rtt hpending hstart => exact hs.evaluate_verification_probe hstart rtt

theorem Detection.counted (h : Detection s s') (hs : s.Counted) : s'.Counted := by
  cases h with
  | start origin dst henable =>
    unfold start_rtt_probe
    rw [if_pos henable]
    exact hs.mono rfl ⟨_, rfl⟩
  | accept sender rtt hstart =>
    exact hs.mono (WormholeDetector.update_neighbor_rtt_stats_failures _ rtt) ⟨_, rfl⟩
  | reject sender hstart => exact hs.mono rfl ⟨_, rfl⟩
  | defer sender hstart => exact hs.mono rfl ⟨_, rfl⟩
  | verify origin neighbor source hnew => exact hs.mono rfl ⟨_, rfl⟩
  | respond origin neighbor rtt hpending hstart =>
    intro n count hcount
    have hfailures := WormholeDetector.evaluate_verification_probe_failures s.detectorAttributes s.now hstart rtt
    simp only [emit] at hcount ⊢
    rw [hfailures] at hcount
    rw [confirmations_append]
    split at hcount
    next hconfirmed =>
      rw [Std.ExtTreeMap.getElem?_insert] at hcount
      split at hcount
      next heq =>
        obtain rfl : neighbor = n := by simpa using heq
        have hone : confirmations neighbor [Effect.verification_evaluated ⟨origin, neighbor⟩
            (s.detector.evaluate_verification_probe s.detectorAttributes s.now origin neighbor rtt).1] = 1 := by
          simp [confirmations, Effect.confirms, hconfirmed]
        cases hold : s.detector.verification_failure_count[neighbor]? with
        | none =>
          rw [hold] at hcount
          refine ⟨1, le_refl 1, by omega, ?_⟩
          simpa [eq_comm] using hcount
        | some old =>
          obtain ⟨k, hpos, hle, rfl⟩ := hs neighbor old hold
          rw [hold] at hcount
          refine ⟨k + 1, by omega, by omega, ?_⟩
          simpa [eq_comm, UInt32.ofNat_add] using hcount
      next =>
        obtain ⟨k, hpos, hle, heq⟩ := hs n count hcount
        exact ⟨k, hpos, by omega, heq⟩
    next =>
      rw [Std.ExtTreeMap.getElem?_erase] at hcount
      split at hcount
      · cases hcount
      · obtain ⟨k, hpos, hle, heq⟩ := hs n count hcount
        exact ⟨k, hpos, by omega, heq⟩

theorem Action.detector (h : Action c s s') : s'.detector = s.detector ∨ Detection s s' := by
  cases h with
  | internal h => exact .inl (by rw [h])
  | detect h => exact .inr h
  | configure h => exact .inl (by rw [h])
  | _ => exact .inl rfl

/-- The invariant of the detector over the runs of a node. -/
theorem run_consistent {cond : RoutingProtocol → Time × Event → Prop} (hrun : Run cond s) :
    s.detector.Consistent ∧ s.Counted := by
  refine hrun.of_actions (I := fun s => s.detector.Consistent ∧ s.Counted) ?_ (fun _ _ _ h => h) ?_
  · rintro s ⟨attrs, len, time, detect, verification, lo, rfl⟩
    exact ⟨WormholeDetector.Consistent.empty, fun n count hcount => by simp [init] at hcount⟩
  · intro _ _ _ s₁ s₂ hs haction
    rcases haction.detector with heq | hdetection
    · exact ⟨by rw [heq]; exact hs.1, hs.2.mono (by rw [heq]) haction.log⟩
    · exact ⟨hdetection.consistent hs.1, hdetection.counted hs.2⟩

end RoutingProtocol

end Ns3.Aodv
