import Ns3.Aodv.Protocol.Action.Lift

namespace Ns3.Aodv.RoutingProtocol

open RoutingTable (Decays stored_entry)
open RoutingTableEntry (DecaysTo SameRoute)

variable {c : Cause} {s s' : RoutingProtocol}

/-- The state differs from `s` in its routing table, which is touched only. -/
def TouchedState (s s' : RoutingProtocol) : Prop :=
  s' = { s with routing_table := s'.routing_table } ∧ Touched s s.routing_table s'.routing_table

namespace TouchedState

theorem refl (s : RoutingProtocol) : TouchedState s s := ⟨rfl, Touched.refl _⟩

theorem lookup_route (h : TouchedState s s') (dst : Ipv4Address) : TouchedState s (s'.lookup_route dst).2 := by
  refine ⟨?_, h.2.decays (s'.routing_table.purge_decays s'.now)⟩
  rw [h.1]
  rfl

theorem update (h : TouchedState s s') {rt : RoutingTableEntry} (hcopied : Copied s s.routing_table rt) :
    TouchedState s (s'.update rt) := by
  refine ⟨?_, h.2.update hcopied⟩
  rw [h.1]
  rfl

/-- What a lookup finds in a touched state is a copy, and so is the default entry. -/
theorem copied_getD (h : TouchedState s s') (dst : Ipv4Address) (now : Time) :
    Copied s s.routing_table ((s'.lookup_route dst).1.getD (RoutingTableEntry.default now)) := by
  cases hrt : (s'.lookup_route dst).1 with
  | none => exact copied_default _ now
  | some rt => exact (h.lookup_route dst).2.copied hrt

theorem actions (h : TouchedState s s') : Actions c s s' := by
  rw [h.1]
  exact Actions.one h.2.action

theorem send_actions (h : TouchedState s s') {t : Transmission}
    (hsource : t.message.claims = true → s.is_my_own_address t.source = true)
    (hjustified : Justified c s t.message) : Actions c s (s'.emit (.send t)) := by
  have hfirst : Action c s (s.emit (.send t)) := .send hsource hjustified
  have htouched : TouchedState (s.emit (.send t)) (s'.emit (.send t)) := by
    refine ⟨?_, ⟨h.2.lifetime, ?_⟩⟩
    · rw [h.1]
      rfl
    · intro d e' he'
      obtain ⟨e, he, hrelated⟩ := h.2.entry d e' he'
      exact ⟨e, he, hrelated.imp id fun h => ⟨h.next, h.flag, h.origin⟩⟩
  exact (Actions.one hfirst).trans htouched.actions

end TouchedState

theorem update_precursors_touched {s₁ : RoutingProtocol} (h : TouchedState s s₁) {toOrigin : RoutingTableEntry}
    (horigin : Copied s s.routing_table toOrigin) (dst : Ipv4Address) :
    TouchedState s (s₁.update_precursors dst toOrigin).2 := by
  unfold update_precursors
  have hlookup := h.lookup_route dst
  cases hrt : (s₁.lookup_valid_route dst).1 with
  | none =>
    simp only [hrt]
    exact hlookup
  | some toDst =>
    simp only [hrt]
    obtain ⟨hfound, _⟩ := Option.filter_eq_some_iff.mp hrt
    have hdst : Copied s s.routing_table toDst := hlookup.2.copied hfound
    set hop := (toDst.insert_precursor toOrigin.get_next_hop).get_next_hop with hhop
    have hnext := hlookup.update (hdst.insert_precursor toOrigin.get_next_hop)
    have hnext' := (hnext.lookup_route hop).update
      ((hnext.copied_getD hop s₁.now).insert_precursor toOrigin.get_next_hop)
    have horigin' := hnext'.update (horigin.insert_precursor hop)
    exact (horigin'.lookup_route _).update ((horigin'.copied_getD _ s₁.now).insert_precursor _)

theorem set_life_time_decays (rt : RoutingTableEntry) (now lt : Time) : DecaysTo rt (rt.set_life_time now lt) :=
  ⟨⟨rfl, rfl, rfl, rfl⟩, .inl rfl⟩

theorem forward_reply_actions {h₀ h : RrepHeader} {sender : Ipv4Address} {ttl : UInt8}
    (hreceived : c.Received sender (.rrep h₀)) (hdst : h.dst = h₀.dst) (hseq : h.dst_seqno = h₀.dst_seqno)
    (hhop : h.hop_count = h₀.hop_count + 1)
    (hroute : ∀ e, s.routing_table.entries[h₀.dst]? = some e → e.flag = .valid →
      e.get_next_hop = h₀.dst ∨ reply_improves h e = false)
    (hforward : s.forward_reply h ttl = some s') : Actions c s s' := by
  unfold forward_reply at hforward
  have hlookup := (TouchedState.refl s).lookup_route h.origin
  cases hrt : (s.lookup_route h.origin).1 with
  | none =>
    simp only [hrt] at hforward
    cases hforward
    exact hlookup.actions
  | some toOrigin =>
    simp only [hrt] at hforward
    split at hforward
    next =>
      cases hforward
      exact hlookup.actions
    next =>
      have hcopied : Copied s s.routing_table (toOrigin.set_life_time s.now
          (max s.attrs.active_route_timeout (toOrigin.get_life_time s.now))) :=
        (hlookup.2.copied hrt).decays (set_life_time_decays toOrigin s.now _)
      have hprecursors := update_precursors_touched (hlookup.update hcopied) hcopied h.dst
      split at hforward
      next =>
        cases hforward
        exact hprecursors.actions
      next =>
        obtain ⟨source, hsource, rfl⟩ := Option.map_eq_some_iff.mp hforward
        have hown := is_my_own_address_of_find_socket hsource
        rw [hprecursors.1] at hown
        exact hprecursors.send_actions (fun _ => hown) (.forward_reply hreceived hdst hseq hhop hroute)

section Hello

theorem process_hello_actions {h₀ h : RrepHeader} {receiver sender : Ipv4Address}
    (hreceived : c.Received sender (.rrep h₀)) (hhello : h₀.dst = h₀.origin) (hdst : h.dst = h₀.dst)
    (hseq : h.dst_seqno = h₀.dst_seqno) (hprocess : s.process_hello h receiver = some s') : Actions c s s' := by
  unfold process_hello at hprocess
  obtain ⟨s₁, hentry, hprocess⟩ := Option.bind_eq_some_iff.mp hprocess
  have hneighbors : Actions c s₁ s' := by
    split at hprocess
    · exact (nb_update_fades hprocess).actions
    · cases hprocess
      exact .refl
  refine Relation.ReflTransGen.trans ?_ hneighbors
  refine (s.lookup_route_fades h.dst).actions.trans ?_
  cases hrt : (s.lookup_route h.dst).1 with
  | none =>
    simp only [hrt] at hentry
    obtain ⟨i, _, rfl⟩ := Option.map_eq_some_iff.mp hentry
    refine add_route_actions (RoutingTableEntry.of_get_destination ..) ?_
    exact .hello hreceived hhello hdst.symm (by simp [hseq]) (by simp) (by simp) (by simp)
  | some toNeighbor =>
    simp only [hrt] at hentry
    obtain ⟨i, _, rfl⟩ := Option.map_eq_some_iff.mp hentry
    have hkey : toNeighbor.get_destination = h.dst := get_destination_of_lookup hrt
    refine update_actions hkey fun e _ => ?_
    exact .hello hreceived hhello hdst.symm (by simp [hseq]) (by simp) (by simp) (by simp)

end Hello

section Detection

/-- What handling a message has done so far: it has sent nothing about routes. -/
def Quiet (c : Cause) (s : RoutingProtocol) : Prop := ∃ l, s.log = c.start.log ++ l ∧ ∀ e ∈ l, e.Quiet

theorem Quiet.append (h : Quiet c s) {l : List Effect} (hlog : s'.log = s.log ++ l) (hl : ∀ e ∈ l, e.Quiet) :
    Quiet c s' := by
  obtain ⟨l₀, hl₀, hquiet⟩ := h
  refine ⟨l₀ ++ l, by rw [hlog, hl₀, List.append_assoc], ?_⟩
  intro e he
  rcases List.mem_append.mp he with he | he
  · exact hquiet e he
  · exact hl e he

theorem enter_verification_actions {receiver sender : Ipv4Address}
    (h : s.enter_verification receiver sender = some s') :
    Actions c s s' ∧ s' = { s with detector := s'.detector, log := s'.log } ∧
      s'.detector = { s.detector with
        under_verification := s'.detector.under_verification
        verification_probe_start_time := s'.detector.verification_probe_start_time } ∧
      ∃ l, s'.log = s.log ++ l ∧ ∀ e ∈ l, e.Quiet := by
  unfold enter_verification at h
  split at h
  next =>
    cases h
    exact ⟨.refl, rfl, rfl, [], by simp, by simp⟩
  next hnew =>
    unfold send_verification_test_packet at h
    obtain ⟨i, _, h⟩ := Option.bind_eq_some_iff.mp h
    obtain ⟨source, _, rfl⟩ := Option.map_eq_some_iff.mp h
    refine ⟨?_, rfl, rfl, [_], rfl, by simp [Effect.Quiet, Message.claims]⟩
    exact Actions.one (.detect (.verify receiver sender source hnew))

theorem enter_verification_erase_rtt_probe (s : RoutingProtocol) (key : WormholeProbeKey)
    (receiver sender : Ipv4Address) :
    (s.erase_rtt_probe key).enter_verification receiver sender =
      (s.enter_verification receiver sender).map (·.erase_rtt_probe key) := by
  unfold enter_verification
  by_cases hpending : sender ∈ s.detector.under_verification
  · rw [if_pos hpending, if_pos (by exact hpending)]
    rfl
  · rw [if_neg hpending, if_neg (by exact hpending)]
    simp only [send_verification_test_packet, Option.map_bind, Function.comp_def, Option.map_map]
    rfl

theorem update_neighbor_rtt_stats_suspect_until (d : WormholeDetector) (a : DetectorAttributes)
    (neighbor : Ipv4Address) (sample : Time) :
    (d.update_neighbor_rtt_stats a neighbor sample).suspect_until = d.suspect_until := by
  unfold WormholeDetector.update_neighbor_rtt_stats
  split <;> rfl

theorem evaluate_rtt_probe_actions {origin dst sender receiver : Ipv4Address} {rtt : Time}
    {r : Bool × RoutingProtocol} (h : s.evaluate_rtt_probe origin dst sender receiver rtt = some r) :
    Actions c s r.2 ∧ r.2 = { s with detector := r.2.detector, log := r.2.log } ∧
      (r.1 = false → r.2.detector.suspect_until = s.detector.suspect_until) ∧
      ∃ l, r.2.log = s.log ++ l ∧ ∀ e ∈ l, e.Quiet := by
  unfold evaluate_rtt_probe at h
  simp only at h
  split at h
  next =>
    cases h
    exact ⟨.refl, rfl, fun _ => rfl, [], by simp, by simp⟩
  next start hstart =>
    split at h
    next =>
      split at h
      next =>
        obtain ⟨s₁, hverify, rfl⟩ := Option.map_eq_some_iff.mp h
        obtain ⟨_, hframe, hdetector, l, hlog, hquiet⟩ := enter_verification_actions (c := c) hverify
        have hcommute := enter_verification_erase_rtt_probe
          (s.emit (.rtt_probe_evaluated ⟨origin, dst⟩ start sender)) ⟨origin, dst⟩ receiver sender
        rw [hverify] at hcommute
        obtain ⟨hactions, _⟩ := enter_verification_actions (c := c) hcommute
        refine ⟨Relation.ReflTransGen.head (.detect (.defer sender hstart)) hactions, ?_, fun _ => ?_,
          .rtt_probe_evaluated ⟨origin, dst⟩ start sender :: l, ?_, ?_⟩
        · rw [hframe]
          rfl
        · show s₁.detector.suspect_until = _
          rw [hdetector]
          rfl
        · show s₁.log = _
          rw [hlog]
          simp [emit]
        · simpa [Effect.Quiet] using hquiet
      next =>
        cases h
        exact ⟨Actions.one (.detect (.reject sender hstart)), rfl, by simp, [_], rfl, by simp [Effect.Quiet]⟩
    next =>
      cases h
      refine ⟨Actions.one (.detect (.accept sender rtt hstart)), rfl, fun _ => ?_, [_], rfl,
        by simp [Effect.Quiet]⟩
      exact update_neighbor_rtt_stats_suspect_until _ _ _ _

end Detection

end Ns3.Aodv.RoutingProtocol
