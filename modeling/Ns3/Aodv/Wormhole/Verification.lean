import Ns3.Aodv.Wormhole.FailureCount

namespace Ns3.Aodv

/-- Whether the effect sends a verification probe to `n`. -/
def Effect.isProbe (n : Ipv4Address) : Effect → Bool
  | .send t =>
    match t.message with
    | .rverify (some false) => t.destination == n
    | _ => false
  | _ => false

/-- Whether the effect ends the verification of `n`. -/
def Effect.isVerdict (n : Ipv4Address) : Effect → Bool
  | .verification_evaluated key _ => key.dst == n
  | _ => false

theorem Effect.isProbe_send {t : Transmission} (h : t.message ≠ .rverify (some false)) (n : Ipv4Address) :
    (Effect.send t).isProbe n = false := by
  show (match t.message with | .rverify (some false) => t.destination == n | _ => false) = false
  split
  next hmessage => exact absurd hmessage h
  next => rfl

namespace RoutingProtocol

open Transition (Always)

variable {c : Cause} {s s' : RoutingProtocol} {n : Ipv4Address}

/-- Whether a probe to `n` has been sent for which no response has been evaluated. -/
def outstanding (n : Ipv4Address) (log : List Effect) : Bool :=
  log.foldl (fun pending e => e.isProbe n || (pending && !e.isVerdict n)) false

/-- The number of probes sent to `n`. -/
def probes (n : Ipv4Address) (log : List Effect) : Nat := log.countP (Effect.isProbe n)

@[simp]
theorem outstanding_concat (n : Ipv4Address) (log : List Effect) (e : Effect) :
    outstanding n (log ++ [e]) = (e.isProbe n || (outstanding n log && !e.isVerdict n)) := by
  simp [outstanding]

theorem probes_append (n : Ipv4Address) (l l' : List Effect) : probes n (l ++ l') = probes n l + probes n l' :=
  List.countP_append

theorem probes_eq_zero {l : List Effect} (h : ∀ e ∈ l, e.isProbe n = false) : probes n l = 0 :=
  List.countP_eq_zero.mpr fun e he => by simp [h e he]

/-- The neighbours under verification are those with an outstanding probe. -/
def Pending (s : RoutingProtocol) : Prop :=
  ∀ n, n ∈ s.detector.under_verification ↔ outstanding n s.log = true

theorem Pending.emit (h : s.Pending) {e : Effect} (hprobe : ∀ n, e.isProbe n = false)
    (hverdict : ∀ n, e.isVerdict n = false) : (s.emit e).Pending := by
  intro n
  rw [RoutingProtocol.emit, outstanding_concat, hprobe, hverdict]
  simpa using h n

theorem Pending.set_detector (h : s.Pending) {d : WormholeDetector}
    (hd : d.under_verification = s.detector.under_verification) : ({ s with detector := d } : RoutingProtocol).Pending := by
  intro n
  simp only [hd]
  exact h n

theorem update_neighbor_rtt_stats_under_verification (d : WormholeDetector) (a : DetectorAttributes)
    (neighbor : Ipv4Address) (sample : Time) :
    (d.update_neighbor_rtt_stats a neighbor sample).under_verification = d.under_verification := by
  unfold WormholeDetector.update_neighbor_rtt_stats
  split <;> rfl

theorem Justified.ne_probe {m : Message} (h : Justified c s m) : m ≠ .rverify (some false) := by
  cases h with
  | other _ hprobe => exact hprobe
  | _ => nofun

theorem Detection.pending (h : Detection s s') (hs : s.Pending) : s'.Pending := by
  cases h with
  | start origin dst henable =>
    unfold start_rtt_probe
    rw [if_pos henable]
    exact (hs.set_detector rfl).emit (fun _ => rfl) (fun _ => rfl)
  | accept sender rtt hstart =>
    exact (hs.set_detector (update_neighbor_rtt_stats_under_verification _ _ _ rtt)).emit (fun _ => rfl) (fun _ => rfl)
  | reject sender hstart => exact (hs.set_detector rfl).emit (fun _ => rfl) (fun _ => rfl)
  | defer sender hstart => exact (hs.set_detector rfl).emit (fun _ => rfl) (fun _ => rfl)
  | verify origin neighbor source hnew =>
    intro n
    have hprobe : (Effect.send ⟨source, neighbor, 1, .rverify (some false)⟩).isProbe n = (neighbor == n) := rfl
    have hverdict : (Effect.send ⟨source, neighbor, 1, .rverify (some false)⟩).isVerdict n = false := rfl
    simp only [send_to, emit, outstanding_concat, hprobe, hverdict, Std.ExtTreeMap.mem_insert, hs n]
    simp
  | respond origin neighbor rtt hpending hstart =>
    intro n
    have hverification := (WormholeDetector.evaluate_verification_probe_pending s.detectorAttributes
      s.now hstart rtt).1
    have hprobe : ∀ confirmed, (Effect.verification_evaluated ⟨origin, neighbor⟩ confirmed).isProbe n = false :=
      fun _ => rfl
    have hverdict : ∀ confirmed, (Effect.verification_evaluated ⟨origin, neighbor⟩ confirmed).isVerdict n =
        (neighbor == n) := fun _ => rfl
    simp only [emit, outstanding_concat, hverification, hprobe, hverdict, Std.ExtTreeMap.mem_erase, hs n]
    simp [and_comm]

theorem Action.pending (h : Action c s s') (hs : s.Pending) : s'.Pending := by
  cases h with
  | internal h =>
    rw [h]
    exact hs
  | table => exact hs
  | increment => exact hs
  | send hsource hjustified => exact hs.emit (Effect.isProbe_send hjustified.ne_probe) (fun _ => rfl)
  | report h =>
    obtain ⟨_, _, _, rfl⟩ | ⟨_, _, _, _, rfl⟩ | ⟨_, _, _, rfl⟩ := h
    · exact hs.emit (fun _ => rfl) (fun _ => rfl)
    · exact hs.emit (fun _ => rfl) (fun _ => rfl)
    · exact hs.emit (fun _ => rfl) (fun _ => rfl)
  | forward => exact hs.emit (fun _ => rfl) (fun _ => rfl)
  | detect h => exact h.pending hs
  | configure h =>
    rw [h]
    exact hs

theorem run_pending {cond : RoutingProtocol → Time × Event → Prop} (hrun : Run cond s) : s.Pending := by
  refine hrun.of_actions (I := Pending) ?_ (fun _ _ _ h => h) fun _ _ _ _ _ hs haction => haction.pending hs
  rintro s ⟨attrs, len, time, detect, verification, lo, rfl⟩ n
  simp [init, outstanding]

section AcceptReply

variable {h : RrepHeader} {receiver sender : Ipv4Address} {ttl : UInt8}

theorem send_packet_from_queue_log (dst : Ipv4Address) (route : Ipv4Route) :
    ∃ l, (s.send_packet_from_queue dst route).log = s.log ++ l ∧ ∀ e ∈ l, e.isProbe n = false := by
  refine ⟨_, rfl, fun e he => ?_⟩
  obtain ⟨callback, _, rfl⟩ := List.mem_map.mp he
  cases callback <;> rfl

theorem accept_reply_log (haccept : s.accept_reply h receiver sender ttl = some s') :
    ∃ l, s'.log = s.log ++ l ∧ ∀ e ∈ l, e.isProbe n = false := by
  unfold accept_reply at haccept
  obtain ⟨i, _, haccept⟩ := Option.bind_eq_some_iff.mp haccept
  obtain ⟨s₂, hack, haccept⟩ := Option.bind_eq_some_iff.mp haccept
  obtain ⟨l, hl, hprobe⟩ : ∃ l, s₂.log = s.log ++ l ∧ ∀ e ∈ l, e.isProbe n = false := by
    have hlog : (s.install_reply h (s.reply_entry h sender i)).log = s.log := by
      rw [install_reply_frame]
    split at hack
    next =>
      obtain ⟨source, _, rfl⟩ := Option.map_eq_some_iff.mp hack
      exact ⟨[_], by rw [← hlog]; rfl, by simp [Effect.isProbe]⟩
    next =>
      cases hack
      exact ⟨[], by simp [hlog], by simp⟩
  suffices hrest : ∃ l', s'.log = s₂.log ++ l' ∧ ∀ e ∈ l', e.isProbe n = false by
    obtain ⟨l', hl', hprobe'⟩ := hrest
    refine ⟨l ++ l', by rw [hl', hl, List.append_assoc], fun e he => ?_⟩
    rcases List.mem_append.mp he with he | he
    · exact hprobe e he
    · exact hprobe' e he
  split at haccept
  next =>
    cases haccept
    unfold reply_at_origin
    split
    · exact send_packet_from_queue_log (s := RoutingProtocol.lookup_route _ _ |>.2) h.dst _
    · exact send_packet_from_queue_log (s := RoutingProtocol.lookup_route _ _ |>.2) h.dst _
  next =>
    unfold forward_reply at haccept
    simp only at haccept
    split at haccept
    next =>
      cases haccept
      exact ⟨[], by simp⟩
    next toOrigin _ =>
      split at haccept
      next =>
        cases haccept
        exact ⟨[], by simp⟩
      next =>
        have hprecursors : ∀ (s₃ : RoutingProtocol) rt, (s₃.update_precursors h.dst rt).2.log = s₃.log := by
          intro s₃ rt
          unfold update_precursors
          simp only
          split <;> simp only [update_log, lookup_route_log, lookup_valid_route]
        split at haccept
        next =>
          cases haccept
          exact ⟨[], by simp [hprecursors]⟩
        next =>
          obtain ⟨source, _, rfl⟩ := Option.map_eq_some_iff.mp haccept
          exact ⟨[_], by rw [send_to, emit, hprecursors]; rfl, by simp [Effect.isProbe]⟩

end AcceptReply

/-- `EvaluateRttProbe` finds the reply `h`, received from `sender` at time `t`, anomalous. -/
structure Anomalous (s : RoutingProtocol) (t : Time) (sender : Ipv4Address) (h : RrepHeader) : Prop where
  reply : h.dst ≠ h.origin
  unsuspected : s.detector.is_neighbor_temporarily_suspect t sender = false
  anomaly : ∃ start, s.detector.rtt_probe_start_time[(⟨h.origin, h.dst⟩ : WormholeProbeKey)]? = some start ∧
    s.detector.is_anomalous s.detectorAttributes s.detector.rtt_probe_start_time.size sender (t - start) = true

/-- The evaluation of an anomalous reply defers the verdict, and sends a probe unless
the neighbour is under verification. -/
theorem detect_wormhole_anomalous {h : RrepHeader} {receiver sender : Ipv4Address} {r : Bool × RoutingProtocol}
    (hdetect : s.enable_rtt_wormhole_detect = true) (hverification : s.enable_second_probe_verification = true)
    (hanomalous : s.Anomalous s.now sender h) (hresult : s.detect_wormhole h receiver sender = some r) :
    r.1 = false ∧ probes sender r.2.log =
      probes sender s.log + if sender ∈ s.detector.under_verification then 0 else 1 := by
  obtain ⟨start, hstart, hanomaly⟩ := hanomalous.anomaly
  rw [detect_wormhole, if_pos hdetect, if_neg (by simp [hanomalous.unsuspected])] at hresult
  simp only [hstart, evaluate_rtt_probe] at hresult
  rw [if_pos (by exact hanomaly), if_pos (by exact hverification)] at hresult
  obtain ⟨s₁, hverify, rfl⟩ := Option.map_eq_some_iff.mp hresult
  refine ⟨rfl, ?_⟩
  show probes sender s₁.log = _
  unfold enter_verification at hverify
  split at hverify
  next hpending =>
    cases hverify
    rw [if_pos (by exact hpending), emit, probes_append]
    simp [probes, Effect.isProbe]
  next hnew =>
    obtain ⟨i, _, hverify⟩ := Option.bind_eq_some_iff.mp hverify
    obtain ⟨source, _, rfl⟩ := Option.map_eq_some_iff.mp hverify
    rw [if_neg (by exact hnew)]
    simp [send_to, emit, probes, Effect.isProbe]

/-- The reply `h`, received at time `t` in state `s`, passes the detector and is then taken in. -/
def TakenIn (s s' : RoutingProtocol) (t : Time) (receiver sender : Ipv4Address) (ttl : UInt8) (h : RrepHeader) :
    Prop :=
  let receiver := tunnel_receiver s.attrs sender receiver
  let h := { h with hop_count := h.hop_count + 1 }
  ∃ s₁ s₂, { s with now := t }.update_route_to_neighbor sender receiver = some s₁ ∧
    s₁.detect_wormhole h receiver sender = some (false, s₂) ∧ s₂.accept_reply h receiver sender ttl = some s'

/-- With both stages of the detector on, an anomalous reply is taken in whatever the
time since the last probe, and causes a new probe exactly when no probe to its sender
is outstanding: a probe without a response stays outstanding for ever. -/
theorem anomalous_reply_is_deferred {t : Time} {receiver sender : Ipv4Address} {ttl : UInt8} {h : RrepHeader}
    (hrun : Run Always s) (hdetect : s.enable_rtt_wormhole_detect = true)
    (hverification : s.enable_second_probe_verification = true) (hanomalous : s.Anomalous t sender h)
    (hstep : s.step t (.recv_aodv receiver sender ttl (.rrep h)) = some s') :
    TakenIn s s' t receiver sender ttl h ∧
    probes sender s'.log = probes sender s.log + if outstanding sender s.log = true then 0 else 1 := by
  unfold step at hstep
  split at hstep
  next =>
    rw [handle] at hstep
    split at hstep
    next =>
      obtain ⟨s₁, hneighbor, hstep⟩ := Option.bind_eq_some_iff.mp hstep
      simp only [recv_reply] at hstep
      rw [if_neg hanomalous.reply] at hstep
      obtain ⟨r, hresult, hstep⟩ := Option.bind_eq_some_iff.mp hstep
      have hframe := update_route_to_neighbor_frame hneighbor
      have hanomalous₁ : s₁.Anomalous s₁.now sender { h with hop_count := h.hop_count + 1 } := by
        rw [hframe]
        exact ⟨hanomalous.reply, hanomalous.unsuspected, hanomalous.anomaly⟩
      obtain ⟨hdeferred, hprobes⟩ := detect_wormhole_anomalous (by rw [hframe]; exact hdetect)
        (by rw [hframe]; exact hverification) hanomalous₁ hresult
      rw [if_neg (by simp [hdeferred])] at hstep
      refine ⟨⟨s₁, r.2, hneighbor, by rw [hresult, ← hdeferred], hstep⟩, ?_⟩
      obtain ⟨l, hl, hquiet⟩ := accept_reply_log (n := sender) hstep
      have hpending := run_pending hrun sender
      rw [hl, probes_append, probes_eq_zero hquiet, hprobes, hframe]
      simp only [hpending, add_zero]
    next => cases hstep
  next => cases hstep

namespace Station

/-- Two discoveries, the second after the blacklist timeout. The probe that the reply
to the first one causes is lost. -/
def lostProbe : List (Time × Event) :=
  discovery ++ [(milliseconds 1000, .rreq_rate_limit_timer_expire), (milliseconds 2000, .rreq_rate_limit_timer_expire),
    (milliseconds 3000, .rreq_rate_limit_timer_expire), (milliseconds 4000, .rreq_rate_limit_timer_expire),
    (milliseconds 5000, .rreq_rate_limit_timer_expire), (milliseconds 6000, .rreq_rate_limit_timer_expire),
    (milliseconds 6610, .route_input packet header 0 ⟨0, 1, false⟩)]

theorem lostProbe_run : ∃ s s', Run Always s ∧
    s.step (milliseconds 6611) (.recv_aodv own neighbor 64 (.rrep reply)) = some s' ∧
    (s.enable_rtt_wormhole_detect = true ∧ s.enable_second_probe_verification = true) ∧
    s.Anomalous (milliseconds 6611) neighbor reply ∧
    (∃ sent, s.detector.under_verification[neighbor]? = some sent ∧
      sent + s.attrs.black_list_timeout < milliseconds 6611) ∧
    probes neighbor s'.log = probes neighbor s.log ∧
    ∃ e, s'.routing_table.entries[destination]? = some e ∧ e.flag = .valid ∧ e.get_next_hop = neighbor := by
  have hrun : (Transition.execute timed_step Always usual lostProbe).bind (fun s =>
      (s.step (milliseconds 6611) (.recv_aodv own neighbor 64 (.rrep reply))).map fun s' =>
        (s.enable_rtt_wormhole_detect && s.enable_second_probe_verification &&
          !s.detector.is_neighbor_temporarily_suspect (milliseconds 6611) neighbor &&
          decide (s.detector.rtt_probe_start_time[(⟨own, destination⟩ : WormholeProbeKey)]? = some (milliseconds 6610)) &&
          s.detector.is_anomalous s.detectorAttributes s.detector.rtt_probe_start_time.size neighbor (milliseconds 1) &&
          decide (s.detector.under_verification[neighbor]? = some (milliseconds 1)) &&
          decide (milliseconds 1 + s.attrs.black_list_timeout < milliseconds 6611) &&
          decide (probes neighbor s'.log = probes neighbor s.log) &&
          decide (s'.routing_table.entries[destination]?.map (fun e => (e.flag, e.get_next_hop)) =
            some (.valid, neighbor)))) = some true := by decide +kernel
  obtain ⟨s, hs, hrun⟩ := Option.bind_eq_some_iff.mp hrun
  obtain ⟨s', hstep, hfacts⟩ := Option.map_eq_some_iff.mp hrun
  simp only [Bool.and_eq_true, Bool.not_eq_true', decide_eq_true_eq] at hfacts
  obtain ⟨⟨⟨⟨⟨⟨⟨⟨hdetect, hverification⟩, hsuspect⟩, hstart⟩, hanomaly⟩, hsent⟩, hlate⟩, hprobes⟩, hentry⟩ := hfacts
  obtain ⟨e, he, hroute⟩ := Option.map_eq_some_iff.mp hentry
  simp only [Prod.mk.injEq] at hroute
  exact ⟨s, s', (Transition.Reachable.init usual_initial).execute hs, hstep, ⟨hdetect, hverification⟩,
    ⟨by decide, hsuspect, _, hstart, hanomaly⟩, ⟨_, hsent, hlate⟩, hprobes, e, he, hroute⟩

end Station

theorem anomalous_reply_is_deferred_station : ∃ s s' : RoutingProtocol,
    TakenIn s s' (milliseconds 6611) Station.own Station.neighbor 64 Station.reply ∧
    probes Station.neighbor s'.log =
      probes Station.neighbor s.log + if outstanding Station.neighbor s.log = true then 0 else 1 := by
  obtain ⟨s, s', hrun, hstep, ⟨hdetect, hverification⟩, hanomalous, _⟩ := Station.lostProbe_run
  exact ⟨s, s', anomalous_reply_is_deferred hrun hdetect hverification hanomalous hstep⟩

/-- More than the blacklist timeout after the last probe to the neighbour, its anomalous
reply is neither rejected nor followed by a new probe. -/
theorem lost_probe_is_not_repeated : ∃ s s' t h, Run Always s ∧
    s.step t (.recv_aodv Station.own Station.neighbor 64 (.rrep h)) = some s' ∧
    (s.enable_rtt_wormhole_detect = true ∧ s.enable_second_probe_verification = true) ∧
    s.Anomalous t Station.neighbor h ∧
    (∃ sent, s.detector.under_verification[Station.neighbor]? = some sent ∧ sent + s.attrs.black_list_timeout < t) ∧
    probes Station.neighbor s'.log = probes Station.neighbor s.log ∧
    ∃ e, s'.routing_table.entries[h.dst]? = some e ∧ e.flag = .valid ∧ e.get_next_hop = Station.neighbor := by
  obtain ⟨s, s', hfacts⟩ := Station.lostProbe_run
  exact ⟨s, s', _, _, hfacts⟩

end RoutingProtocol

end Ns3.Aodv
