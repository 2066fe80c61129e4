import Ns3.Aodv.Wormhole.Verification

namespace Ns3.Aodv

def Effect.isStart (key : WormholeProbeKey) : Effect → Bool
  | .rtt_probe_started k => k == key
  | _ => false

/-- Whether the effect is the evaluation of a reply against the probe for `key`. -/
def Effect.isEvaluation (key : WormholeProbeKey) : Effect → Bool
  | .rtt_probe_evaluated k _ _ => k == key
  | _ => false

namespace RoutingProtocol

open Transition (Always)

variable {c : Cause} {s s' : RoutingProtocol} {key : WormholeProbeKey}

/-- Whether a probe for `key` has been started since a reply was last evaluated against one. -/
def probing (key : WormholeProbeKey) (log : List Effect) : Bool :=
  log.foldl (fun recorded e => e.isStart key || (recorded && !e.isEvaluation key)) false

@[simp]
theorem probing_concat (key : WormholeProbeKey) (log : List Effect) (e : Effect) :
    probing key (log ++ [e]) = (e.isStart key || (probing key log && !e.isEvaluation key)) := by
  simp [probing]

/-- The probes with a recorded start are those that are being waited for. -/
def Probing (s : RoutingProtocol) : Prop :=
  ∀ key, key ∈ s.detector.rtt_probe_start_time ↔ probing key s.log = true

theorem Probing.emit (h : s.Probing) {e : Effect} (hstart : ∀ key, e.isStart key = false)
    (hevaluation : ∀ key, e.isEvaluation key = false) : (s.emit e).Probing := by
  intro key
  rw [RoutingProtocol.emit, probing_concat, hstart, hevaluation]
  simpa using h key

theorem Probing.evaluate (h : s.Probing) {d : WormholeDetector} {start : Time} {sender : Ipv4Address}
    (hd : d.rtt_probe_start_time = s.detector.rtt_probe_start_time) :
    ((({ s with detector := d } : RoutingProtocol).erase_rtt_probe key).emit
      (.rtt_probe_evaluated key start sender)).Probing := by
  intro k
  have hstart : (Effect.rtt_probe_evaluated key start sender).isStart k = false := rfl
  have hevaluation : (Effect.rtt_probe_evaluated key start sender).isEvaluation k = (key == k) := rfl
  simp only [RoutingProtocol.emit, erase_rtt_probe, hd, probing_concat, hstart, hevaluation,
    Std.ExtTreeMap.mem_erase, h k]
  simp [and_comm]

theorem update_neighbor_rtt_stats_rtt_probe_start_time (d : WormholeDetector) (a : DetectorAttributes)
    (neighbor : Ipv4Address) (sample : Time) :
    (d.update_neighbor_rtt_stats a neighbor sample).rtt_probe_start_time = d.rtt_probe_start_time := by
  unfold WormholeDetector.update_neighbor_rtt_stats
  split <;> rfl

theorem evaluate_verification_probe_rtt_probe_start_time (d : WormholeDetector) (a : DetectorAttributes) (now : Time)
    (origin neighbor : Ipv4Address) (rtt : Time) :
    (d.evaluate_verification_probe a now origin neighbor rtt).2.rtt_probe_start_time = d.rtt_probe_start_time := by
  unfold WormholeDetector.evaluate_verification_probe
  split
  · simp only
    split
    · rfl
    · exact update_neighbor_rtt_stats_rtt_probe_start_time _ a neighbor rtt
  · rfl

theorem Detection.probing (h : Detection s s') (hs : s.Probing) : s'.Probing := by
  cases h with
  | start origin dst henable =>
    unfold start_rtt_probe
    rw [if_pos henable]
    intro key
    have hstart : (Effect.rtt_probe_started ⟨origin, dst⟩).isStart key = ((⟨origin, dst⟩ : WormholeProbeKey) == key) :=
      rfl
    have hevaluation : (Effect.rtt_probe_started ⟨origin, dst⟩).isEvaluation key = false := rfl
    simp only [emit, WormholeDetector.start_rtt_probe, probing_concat, hstart, hevaluation,
      Std.ExtTreeMap.mem_insert, hs key]
    simp
  | accept sender rtt hstart => exact hs.evaluate (update_neighbor_rtt_stats_rtt_probe_start_time _ _ _ rtt)
  | reject sender hstart => exact hs.evaluate rfl
  | defer sender hstart => exact hs.evaluate rfl
  | verify origin neighbor source hnew => exact Probing.emit (fun key => hs key) (fun _ => rfl) (fun _ => rfl)
  | respond origin neighbor rtt hpending hstart =>
    refine Probing.emit (fun key => ?_) (fun _ => rfl) (fun _ => rfl)
    simp only [evaluate_verification_probe_rtt_probe_start_time]
    exact hs key

theorem Action.probing (h : Action c s s') (hs : s.Probing) : s'.Probing := by
  cases h with
  | internal h =>
    rw [h]
    exact hs
  | table => exact hs
  | increment => exact hs
  | send => exact hs.emit (fun _ => rfl) (fun _ => rfl)
  | report h =>
    obtain ⟨_, _, _, rfl⟩ | ⟨_, _, _, _, rfl⟩ | ⟨_, _, _, rfl⟩ := h
    · exact hs.emit (fun _ => rfl) (fun _ => rfl)
    · exact hs.emit (fun _ => rfl) (fun _ => rfl)
    · exact hs.emit (fun _ => rfl) (fun _ => rfl)
  | forward => exact hs.emit (fun _ => rfl) (fun _ => rfl)
  | detect h => exact h.probing hs
  | configure h =>
    rw [h]
    exact hs

theorem run_probing {cond : RoutingProtocol → Time × Event → Prop} (hrun : Run cond s) : s.Probing := by
  refine hrun.of_actions (I := Probing) ?_ (fun _ _ _ h => h) fun _ _ _ _ _ hs haction => haction.probing hs
  rintro s ⟨attrs, len, time, detect, verification, lo, rfl⟩ key
  simp [init, RoutingProtocol.probing]

/-- What a reply may change of an entry: next hop, hop count, sequence number and flag. -/
def routeView (e : RoutingTableEntry) : Ipv4Address × UInt16 × UInt32 × RouteFlags :=
  (e.get_next_hop, e.hops, e.seq_no, e.flag)

section Evaluation

variable {h : RrepHeader} {receiver sender : Ipv4Address} {ttl : UInt8} {r : Bool × RoutingProtocol}

theorem evaluate_rtt_probe_log {origin dst : Ipv4Address} {rtt start : Time}
    (hstart : s.detector.rtt_probe_start_time[(⟨origin, dst⟩ : WormholeProbeKey)]? = some start)
    (h : s.evaluate_rtt_probe origin dst sender receiver rtt = some r) :
    ∃ l, r.2.log = s.log ++ .rtt_probe_evaluated ⟨origin, dst⟩ start sender :: l := by
  unfold evaluate_rtt_probe at h
  simp only [hstart] at h
  split at h
  next =>
    split at h
    next =>
      obtain ⟨s₁, hverify, rfl⟩ := Option.map_eq_some_iff.mp h
      obtain ⟨_, _, _, l, hlog, _⟩ := enter_verification_actions (c := s.cause (0, .hello_timer_expire)) hverify
      refine ⟨l, ?_⟩
      show s₁.log = _
      rw [hlog]
      simp [RoutingProtocol.emit]
    next =>
      cases h
      exact ⟨[], rfl⟩
  next =>
    cases h
    exact ⟨[], rfl⟩

/-- What the detector lets a reply pass with: its sender is not suspect, and it has been
evaluated if a probe for it was recorded. -/
theorem detect_wormhole_passed (hdetect : s.enable_rtt_wormhole_detect = true)
    (hresult : s.detect_wormhole h receiver sender = some r) :
    r.2.routing_table = s.routing_table ∧
    (r.1 = false → s.detector.is_neighbor_temporarily_suspect s.now sender = false ∧
      ((∃ start l, s.detector.rtt_probe_start_time[(⟨h.origin, h.dst⟩ : WormholeProbeKey)]? = some start ∧
          r.2.log = s.log ++ .rtt_probe_evaluated ⟨h.origin, h.dst⟩ start sender :: l) ∨
        (⟨h.origin, h.dst⟩ : WormholeProbeKey) ∉ s.detector.rtt_probe_start_time)) := by
  unfold detect_wormhole at hresult
  rw [if_pos hdetect] at hresult
  split at hresult
  next =>
    cases hresult
    exact ⟨rfl, nofun⟩
  next hclear =>
    have hsuspect := Bool.eq_false_iff.mpr hclear
    cases hstart : s.detector.rtt_probe_start_time[(⟨h.origin, h.dst⟩ : WormholeProbeKey)]? with
    | some start =>
      simp only [hstart] at hresult
      obtain ⟨_, hframe, _⟩ := evaluate_rtt_probe_actions (c := s.cause (0, .hello_timer_expire)) hresult
      obtain ⟨l, hlog⟩ := evaluate_rtt_probe_log hstart hresult
      exact ⟨by rw [hframe], fun _ => ⟨hsuspect, .inl ⟨start, l, rfl, hlog⟩⟩⟩
    | none =>
      simp only [hstart] at hresult
      cases hresult
      exact ⟨rfl, fun _ => ⟨hsuspect, .inr (by simp [Std.ExtTreeMap.mem_iff_isSome_getElem?, hstart])⟩⟩

/-- With the detector on, a reply that changes the route for its destination comes from
a neighbour that is not suspect, and has been evaluated against the recorded start of
a probe, unless no probe for its origin and destination has been started since an
earlier reply was evaluated. `s₁` is the state in which `RecvReply` begins. -/
theorem changed_route_was_evaluated {s₁ : RoutingProtocol} {t : Time} (hrun : Run Always s)
    (hdetect : s.enable_rtt_wormhole_detect = true) (hhello : h.dst ≠ h.origin)
    (hneighbor : ({ s with now := t } : RoutingProtocol).update_route_to_neighbor sender
      (tunnel_receiver s.attrs sender receiver) = some s₁)
    (hstep : s.step t (.recv_aodv receiver sender ttl (.rrep h)) = some s')
    (hchanged : s'.routing_table.entries[h.dst]?.map routeView ≠ s₁.routing_table.entries[h.dst]?.map routeView) :
    s.detector.is_neighbor_temporarily_suspect t sender = false ∧
    ((∃ start l, s.detector.rtt_probe_start_time[(⟨h.origin, h.dst⟩ : WormholeProbeKey)]? = some start ∧
        s'.log = s.log ++ .rtt_probe_evaluated ⟨h.origin, h.dst⟩ start sender :: l) ∨
      probing ⟨h.origin, h.dst⟩ s.log = false) := by
  unfold step at hstep
  split at hstep
  next =>
    rw [handle] at hstep
    split at hstep
    next =>
      rw [recv_aodv] at hstep
      simp only [hneighbor, Option.bind_some, recv_reply] at hstep
      rw [if_neg hhello] at hstep
      obtain ⟨r, hresult, hstep⟩ := Option.bind_eq_some_iff.mp hstep
      have hframe := update_route_to_neighbor_frame hneighbor
      obtain ⟨htable, hpassed⟩ := detect_wormhole_passed (by rw [hframe]; exact hdetect) hresult
      rw [hframe] at hpassed
      split at hstep
      next =>
        cases hstep
        rw [htable] at hchanged
        exact absurd rfl hchanged
      next haccepted =>
        obtain ⟨hsuspect, hevaluated⟩ := hpassed (Bool.eq_false_iff.mpr haccepted)
        refine ⟨hsuspect, hevaluated.imp ?_ ?_⟩
        · rintro ⟨start, l, hstart, hlog⟩
          obtain ⟨l', hl', _⟩ := accept_reply_log (n := sender) hstep
          exact ⟨start, l ++ l', hstart, by rw [hl', hlog]; simp⟩
        · intro hnone
          exact Bool.eq_false_iff.mpr fun hprobing => hnone ((run_probing hrun _).mpr hprobing)
    next => cases hstep
  next => cases hstep

end Evaluation

/-- The reply that ends a discovery changes the route, and has been evaluated. -/
theorem changed_route_was_evaluated_station : ∃ s s' : RoutingProtocol,
    s.step (milliseconds 1) (.recv_aodv Station.own Station.neighbor 64 (.rrep Station.reply)) = some s' ∧
    s.detector.is_neighbor_temporarily_suspect (milliseconds 1) Station.neighbor = false ∧
    ((∃ start l, s.detector.rtt_probe_start_time[(⟨Station.own, Station.destination⟩ : WormholeProbeKey)]? = some start ∧
        s'.log = s.log ++ .rtt_probe_evaluated ⟨Station.own, Station.destination⟩ start Station.neighbor :: l) ∨
      probing ⟨Station.own, Station.destination⟩ s.log = false) := by
  have hrun : (Transition.execute timed_step Always Station.usual (Station.discovery.take 2)).bind (fun s =>
      (({ s with now := milliseconds 1 } : RoutingProtocol).update_route_to_neighbor Station.neighbor
        (tunnel_receiver s.attrs Station.neighbor Station.own)).bind fun s₁ =>
      (s.step (milliseconds 1) (.recv_aodv Station.own Station.neighbor 64 (.rrep Station.reply))).map fun s' =>
        s.enable_rtt_wormhole_detect && decide (s'.routing_table.entries[Station.destination]?.map routeView ≠
          s₁.routing_table.entries[Station.destination]?.map routeView)) = some true := by decide +kernel
  obtain ⟨s, hs, hrun⟩ := Option.bind_eq_some_iff.mp hrun
  obtain ⟨s₁, hneighbor, hrun⟩ := Option.bind_eq_some_iff.mp hrun
  obtain ⟨s', hstep, hfacts⟩ := Option.map_eq_some_iff.mp hrun
  simp only [Bool.and_eq_true, decide_eq_true_eq] at hfacts
  exact ⟨s, s', hstep, changed_route_was_evaluated ((Transition.Reachable.init Station.usual_initial).execute hs)
    hfacts.1 (by decide) hneighbor hstep hfacts.2⟩

/-- Another neighbour, whose reply comes second. -/
def Station.rival : Ipv4Address := 0x0a000003

def Station.rivalReply : RrepHeader where
  dst := destination
  dst_seqno := 2
  origin := own

/-- A second reply to the same discovery changes the route without an evaluation. -/
theorem second_reply_is_not_evaluated : ∃ s s₁ s' : RoutingProtocol, Run Always s ∧
    s.enable_rtt_wormhole_detect = true ∧ s.is_my_own_address Station.rivalReply.origin = true ∧
    ({ s with now := milliseconds 2 } : RoutingProtocol).update_route_to_neighbor Station.rival
      (tunnel_receiver s.attrs Station.rival Station.own) = some s₁ ∧
    s.step (milliseconds 2) (.recv_aodv Station.own Station.rival 64 (.rrep Station.rivalReply)) = some s' ∧
    s'.routing_table.entries[Station.rivalReply.dst]?.map routeView ≠
      s₁.routing_table.entries[Station.rivalReply.dst]?.map routeView ∧
    (s'.log.drop s.log.length).all (fun e => !e.isEvaluation ⟨Station.own, Station.destination⟩) = true := by
  have hrun : (Transition.execute timed_step Always Station.usual Station.discovery).bind (fun s =>
      (({ s with now := milliseconds 2 } : RoutingProtocol).update_route_to_neighbor Station.rival
        (tunnel_receiver s.attrs Station.rival Station.own)).bind fun s₁ =>
      (s.step (milliseconds 2) (.recv_aodv Station.own Station.rival 64 (.rrep Station.rivalReply))).map fun s' =>
        (s.enable_rtt_wormhole_detect && s.is_my_own_address Station.rivalReply.origin &&
          decide (s'.routing_table.entries[Station.rivalReply.dst]?.map routeView ≠
            s₁.routing_table.entries[Station.rivalReply.dst]?.map routeView) &&
          (s'.log.drop s.log.length).all
            (fun e => !e.isEvaluation ⟨Station.own, Station.destination⟩))) = some true := by
    decide +kernel
  obtain ⟨s, hs, hrun⟩ := Option.bind_eq_some_iff.mp hrun
  obtain ⟨s₁, hneighbor, hrun⟩ := Option.bind_eq_some_iff.mp hrun
  obtain ⟨s', hstep, hfacts⟩ := Option.map_eq_some_iff.mp hrun
  simp only [Bool.and_eq_true, decide_eq_true_eq] at hfacts
  obtain ⟨⟨⟨hdetect, hown⟩, hchanged⟩, hlog⟩ := hfacts
  exact ⟨s, s₁, s', (Transition.Reachable.init Station.usual_initial).execute hs, hdetect, hown, hneighbor, hstep,
    hchanged, hlog⟩

end RoutingProtocol

end Ns3.Aodv
