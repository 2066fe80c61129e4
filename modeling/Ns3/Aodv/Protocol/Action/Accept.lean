import Ns3.Aodv.Protocol.Action.Receive

namespace Ns3.Aodv.RoutingProtocol

open RoutingTable (Decays stored_entry)
open RoutingTableEntry (DecaysTo SameRoute)

variable {c : Cause} {s s' : RoutingProtocol}

theorem emit_callbacks_actions (hforwards : c.Forwards) {l : List Effect}
    (hl : ∀ e ∈ l, (∃ ucb route p header table, e = .unicast_forward ucb route p header table) ∨
      ∃ ecb p header, e = .error ecb p header) :
    Actions c s { s with log := s.log ++ l } := by
  induction l generalizing s with
  | nil => simpa using Relation.ReflTransGen.refl
  | cons e l ih =>
    have hfirst : Action c s (s.emit e) := by
      rcases hl e (by simp) with ⟨ucb, route, p, header, table, rfl⟩ | ⟨ecb, p, header, rfl⟩
      · exact .forward hforwards
      · exact .report (.inl ⟨ecb, p, header, rfl⟩)
    refine Relation.ReflTransGen.head hfirst ?_
    simpa [emit] using ih (s := s.emit e) fun e he => hl e (by simp [he])

theorem send_packet_from_queue_actions (hforwards : c.Forwards) (dst : Ipv4Address) (route : Ipv4Route) :
    Actions c s (s.send_packet_from_queue dst route) := by
  have hqueue : Action c s { s with queue := (s.queue.send_packet_from_queue s.now dst
      (s.ipv4.get_interface_for_device route.output_device)).1 } := .internal rfl
  refine Relation.ReflTransGen.head hqueue (emit_callbacks_actions hforwards ?_)
  intro e he
  obtain ⟨callback, _, rfl⟩ := List.mem_map.mp he
  cases callback with
  | unicast_forward e => exact .inl ⟨_, _, _, _, _, rfl⟩
  | error e => exact .inr ⟨_, _, _, rfl⟩

section AcceptReply

variable {h₀ h : RrepHeader} {sender receiver : Ipv4Address} {i : NetDevice × Ipv4InterfaceAddress}

theorem Change.of_reply {old : Option RoutingTableEntry} {rt : RoutingTableEntry}
    (hreceived : c.Received sender (.rrep h₀)) (hhello : h₀.dst ≠ h₀.origin) (hdst : h.dst = h₀.dst)
    (hseq : h.dst_seqno = h₀.dst_seqno) (hhop : h.hop_count = h₀.hop_count + 1)
    (hsuspect : s.enable_rtt_wormhole_detect = true →
      s.detector.is_neighbor_temporarily_suspect s.now sender = false) (hquiet : Quiet c s)
    (hentry : ∃ s₁ : RoutingProtocol, rt = s₁.reply_entry h sender i) :
    Change c s h.dst old (some (stored_entry rt)) := by
  obtain ⟨s₁, rfl⟩ := hentry
  exact .reply hreceived hhello hdst.symm (by simp [reply_entry]) (by simp [reply_entry, hseq])
    (by simp [reply_entry, hhop]) (by simp [reply_entry]) (by simp [reply_entry]) (by simp [reply_entry])
    hsuspect hquiet

theorem reply_improves_reply_entry : reply_improves h (s.reply_entry h sender i) = false := by
  simp [reply_improves, reply_entry, seqno_newer]

theorem reply_improves_sameRoute {e e' : RoutingTableEntry} (hroute : SameRoute e e') (hflag : e'.flag = e.flag) :
    reply_improves h e' = reply_improves h e := by
  unfold reply_improves
  rw [hroute.valid_seq_no, hroute.seq_no, hroute.hops, hflag]

/-- No active route for the destination of the reply would be replaced by it. -/
def Accepted (h : RrepHeader) (t : RoutingTable) : Prop :=
  ∀ e, t.entries[h.dst]? = some e → e.flag = .valid → reply_improves h e = false

theorem Accepted.decays {t t' : RoutingTable} (haccepted : Accepted h t) (hdecays : Decays t t') :
    Accepted h t' := by
  intro e' he' hvalid
  obtain ⟨e, he, hdecay⟩ := hdecays.entry _ e' he'
  have hflag : e'.flag = e.flag := by rw [hvalid, hdecay.valid hvalid]
  rw [reply_improves_sameRoute hdecay.1 hflag]
  exact haccepted e he (hdecay.valid hvalid)

theorem send_reply_ack_fades {neighbor : Ipv4Address} (h : s.send_reply_ack neighbor = some s') :
    Decays s.routing_table s'.routing_table ∧ s' = { s with routing_table := s'.routing_table, log := s'.log } ∧
      (∃ l, s'.log = s.log ++ l ∧ ∀ e ∈ l, e.Quiet) ∧ Actions c s s' := by
  unfold send_reply_ack at h
  obtain ⟨source, _, rfl⟩ := Option.map_eq_some_iff.mp h
  refine ⟨s.routing_table.purge_decays s.now, rfl, ⟨[_], rfl, by simp [Effect.Quiet, Message.claims]⟩, ?_⟩
  exact (s.lookup_route_fades neighbor).actions.trans (send_quiet_actions source neighbor 1 rfl (by simp))

theorem reply_at_origin_actions (hforwards : c.Forwards) {dst : Ipv4Address} {newEntry toDst : RoutingTableEntry}
    (hkey : newEntry.get_destination = dst)
    (hchange : ∀ old, Change c s dst old (some (stored_entry newEntry))) :
    Actions c s (s.reply_at_origin dst newEntry toDst) := by
  have hdone : ∀ s₁ : RoutingProtocol, Actions c s₁
      ((s₁.lookup_route dst).2.send_packet_from_queue dst ((s₁.lookup_route dst).1.getD toDst).ipv4_route) :=
    fun s₁ => (s₁.lookup_route_fades dst).actions.trans (send_packet_from_queue_actions hforwards dst _)
  unfold reply_at_origin
  split
  next =>
    have hupdate : Actions c s (s.update newEntry) := update_actions hkey fun e _ => hchange (some e)
    refine (hupdate.tail (.internal ?_)).trans (hdone _)
    rfl
  next => exact hdone s

/-- The entry for the destination of a reply, created or updated if the reply improves it. -/
theorem install_reply_actions (hreceived : c.Received sender (.rrep h₀)) (hhello : h₀.dst ≠ h₀.origin)
    (hdst : h.dst = h₀.dst) (hseq : h.dst_seqno = h₀.dst_seqno) (hhop : h.hop_count = h₀.hop_count + 1)
    (hsuspect : s.enable_rtt_wormhole_detect = true →
      s.detector.is_neighbor_temporarily_suspect s.now sender = false) (hquiet : Quiet c s) :
    Actions c s (s.install_reply h (s.reply_entry h sender i)) := by
  have hkey : (s.reply_entry h sender i).get_destination = h.dst := rfl
  have hchange : ∀ t old, Change c { s with routing_table := t } h.dst old
      (some (stored_entry (s.reply_entry h sender i))) := fun t old =>
    Change.of_reply hreceived hhello hdst hseq hhop hsuspect hquiet ⟨s, rfl⟩
  refine (s.lookup_route_fades h.dst).actions.trans ?_
  unfold install_reply
  cases hrt : (s.lookup_route h.dst).1 with
  | none =>
    simp only [hrt]
    exact add_route_actions hkey (hchange _ none)
  | some toDst =>
    simp only [hrt]
    split
    · exact update_actions hkey fun e _ => hchange _ (some e)
    · exact .refl

theorem install_reply_frame (newEntry : RoutingTableEntry) :
    s.install_reply h newEntry = { s with routing_table := (s.install_reply h newEntry).routing_table } := by
  unfold install_reply
  simp only
  split
  · split <;> rfl
  · rfl

theorem install_reply_accepted : Accepted h (s.install_reply h (s.reply_entry h sender i)).routing_table := by
  have hkey : (s.reply_entry h sender i).get_destination = h.dst := rfl
  have hnew : reply_improves h (stored_entry (s.reply_entry h sender i)) = false :=
    (reply_improves_sameRoute (RoutingTable.stored_entry_sameRoute _) (by simp)).trans
      reply_improves_reply_entry
  have hfst := s.lookup_route_fst h.dst
  intro e he _
  unfold install_reply at he
  cases hrt : (s.lookup_route h.dst).1 with
  | none =>
    simp only [hrt] at he
    rcases RoutingTable.entry_of_add_route he with ⟨_, rfl⟩ | hold
    · exact hnew
    · rw [purge_keeps_absent (hfst.symm.trans hrt)] at hold
      cases hold
  | some toDst =>
    have hpresent := hfst.symm.trans hrt
    simp only [hrt] at he
    split at he
    next =>
      rw [routing_table_update, RoutingTable.getElem?_update, if_pos ⟨hkey, by simp [hpresent]⟩] at he
      cases he
      exact hnew
    next himproves =>
      obtain rfl := Option.some.inj (he.symm.trans hpresent)
      simpa using himproves

theorem accept_reply_actions {ttl : UInt8} (hreceived : c.Received sender (.rrep h₀))
    (hhello : h₀.dst ≠ h₀.origin) (hdst : h.dst = h₀.dst) (hseq : h.dst_seqno = h₀.dst_seqno)
    (hhop : h.hop_count = h₀.hop_count + 1)
    (hsuspect : s.enable_rtt_wormhole_detect = true →
      s.detector.is_neighbor_temporarily_suspect s.now sender = false) (hquiet : Quiet c s)
    (haccept : s.accept_reply h receiver sender ttl = some s') : Actions c s s' := by
  unfold accept_reply at haccept
  obtain ⟨i, _, haccept⟩ := Option.bind_eq_some_iff.mp haccept
  obtain ⟨s₂, hack, haccept⟩ := Option.bind_eq_some_iff.mp haccept
  have hforwards : c.Forwards := by
    obtain ⟨receiver, ttl, hevent⟩ := hreceived
    simpa [Cause.Forwards, hevent] using hhello
  have hframe₁ := install_reply_frame (s := s) (h := h) (s.reply_entry h sender i)
  have haccepted : Accepted h (s.install_reply h (s.reply_entry h sender i)).routing_table := install_reply_accepted
  refine (install_reply_actions hreceived hhello hdst hseq hhop hsuspect hquiet (i := i)).trans ?_
  generalize s.install_reply h (s.reply_entry h sender i) = s₁ at hack hframe₁ haccepted ⊢
  obtain ⟨hdecays, hframe₂, ⟨l, hlog, hl⟩, hactions₂⟩ : Decays s₁.routing_table s₂.routing_table ∧
      s₂ = { s₁ with routing_table := s₂.routing_table, log := s₂.log } ∧
      (∃ l, s₂.log = s₁.log ++ l ∧ ∀ e ∈ l, e.Quiet) ∧ Actions c s₁ s₂ := by
    split at hack
    next => exact send_reply_ack_fades hack
    next =>
      cases hack
      exact ⟨Decays.refl _, rfl, ⟨[], by simp⟩, .refl⟩
  refine hactions₂.trans ?_
  split at haccept
  next =>
    cases haccept
    refine reply_at_origin_actions hforwards rfl fun old => ?_
    refine Change.of_reply hreceived hhello hdst hseq hhop ?_ ?_ ⟨s, rfl⟩
    · rw [hframe₂, hframe₁]
      exact hsuspect
    · refine hquiet.append ?_ hl
      rw [hlog, hframe₁]
  next =>
    have hroute : ∀ e, s₂.routing_table.entries[h₀.dst]? = some e → e.flag = .valid →
        e.get_next_hop = h₀.dst ∨ reply_improves { h with ack_required := false } e = false := by
      intro e he hvalid
      exact .inr ((haccepted.decays hdecays) e (by rw [hdst]; exact he) hvalid)
    exact forward_reply_actions (h := { h with ack_required := false }) hreceived hdst hseq hhop hroute haccept

end AcceptReply

theorem recv_reply_actions {h : RrepHeader} {receiver sender : Ipv4Address} {ttl : UInt8}
    (hreceived : c.Received sender (.rrep h)) (hlog : s.log = c.start.log)
    (hrecv : s.recv_reply h receiver sender ttl = some s') : Actions c s s' := by
  unfold recv_reply at hrecv
  simp only at hrecv
  split at hrecv
  next hhello => exact process_hello_actions hreceived hhello rfl rfl hrecv
  next hhello =>
    obtain ⟨r, hdetect, hrecv⟩ := Option.bind_eq_some_iff.mp hrecv
    have hquiet : Quiet c s := ⟨[], by simp [hlog]⟩
    obtain ⟨hactions, hframe, hsuspect, l, hl, hquietl⟩ : Actions c s r.2 ∧
        r.2 = { s with detector := r.2.detector, log := r.2.log } ∧
        (r.1 = false → s.enable_rtt_wormhole_detect = true →
          r.2.detector.is_neighbor_temporarily_suspect s.now sender = false) ∧
        ∃ l, r.2.log = s.log ++ l ∧ ∀ e ∈ l, e.Quiet := by
      unfold detect_wormhole at hdetect
      split at hdetect
      next henable =>
        split at hdetect
        next =>
          cases hdetect
          exact ⟨.refl, rfl, nofun, [], by simp, by simp⟩
        next hclear =>
          split at hdetect
          next =>
            obtain ⟨hactions, hframe, huntil, hlog⟩ := evaluate_rtt_probe_actions (c := c) hdetect
            refine ⟨hactions, hframe, fun haccepted _ => ?_, hlog⟩
            rw [WormholeDetector.is_neighbor_temporarily_suspect, huntil haccepted]
            exact Bool.eq_false_iff.mpr hclear
          next =>
            cases hdetect
            exact ⟨.refl, rfl, fun _ _ => Bool.eq_false_iff.mpr hclear, [], by simp, by simp⟩
      next hdisabled =>
        cases hdetect
        exact ⟨.refl, rfl, fun _ henable => absurd henable hdisabled, [], by simp, by simp⟩
    refine hactions.trans ?_
    split at hrecv
    next =>
      cases hrecv
      exact .refl
    next haccepted =>
      have hnow : r.2.now = s.now := by rw [hframe]
      have henabled : r.2.enable_rtt_wormhole_detect = s.enable_rtt_wormhole_detect := by rw [hframe]
      refine accept_reply_actions (h := { h with hop_count := h.hop_count + 1 }) hreceived hhello rfl rfl rfl ?_
        (hquiet.append hl hquietl) hrecv
      intro henable
      rw [hnow]
      exact hsuspect (Bool.eq_false_iff.mpr haccepted) (henabled ▸ henable)

end Ns3.Aodv.RoutingProtocol
