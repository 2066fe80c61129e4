import Ns3.Aodv.Protocol.Calm

namespace Ns3.Aodv.RoutingProtocol

variable {s s₁ s' : RoutingProtocol} {d : Ipv4Address} {rt : RoutingTableEntry}

section Request

variable {dst receiver src : Ipv4Address} {h : RreqHeader} {ttl : UInt16}

theorem start_rtt_probe_calm (hs : Calm s s') (origin dst : Ipv4Address) : Calm s (s'.start_rtt_probe origin dst) := by
  unfold start_rtt_probe
  split
  · exact hs.trans ⟨rfl, rfl, ⟨[_], rfl, by simp [Effect.isRerr]⟩, hs.table⟩
  · exact hs

theorem broadcast_request_calm (hs : Calm s s') (iface : Ipv4InterfaceAddress) :
    Calm s (broadcast_request h ttl s' iface) :=
  (start_rtt_probe_calm hs iface.local_addr h.dst).trans
    ⟨rfl, rfl, ⟨[_], rfl, by simp [Effect.isRerr]⟩, (start_rtt_probe_calm hs iface.local_addr h.dst).table⟩

theorem schedule_rreq_retry_calm (hs : Calm s s₁) (h : s₁.schedule_rreq_retry dst = some s') : Calm s s' := by
  obtain ⟨retry, -, rfl⟩ := Option.map_eq_some_iff.mp h
  exact (hs.lookup_route dst).trans (.of_table rfl rfl rfl (hs.lookup_route dst).table)

theorem count_request_black_list_state (a : Attributes) :
    (count_request a ttl rt).black_list_state = rt.black_list_state := by
  unfold count_request
  split <;> rfl

theorem search_entry_calm (hs : Calm s s') {found : Option RoutingTableEntry}
    (hfound : ∀ rt, found = some rt → rt.black_list_state = false) : Calm s (s'.search_entry dst found ttl) := by
  cases found with
  | none => exact hs.add_route (count_request_black_list_state _)
  | some rt => exact hs.update ((count_request_black_list_state _).trans (hfound rt rfl))

theorem send_request_calm (hs : Calm s s₁) (h : s₁.send_request dst = some s') : Calm s s' := by
  unfold send_request at h
  split at h
  next =>
    cases h
    exact hs.trans (.of_table rfl rfl rfl hs.table)
  next =>
    have hcounted : Calm s { s₁ with rreq_count := s₁.rreq_count + 1 } := hs.trans (.of_table rfl rfl rfl hs.table)
    have hsearch : Calm s ((({ s₁ with rreq_count := s₁.rreq_count + 1 } : RoutingProtocol).lookup_route dst).2.search_entry
        dst (({ s₁ with rreq_count := s₁.rreq_count + 1 } : RoutingProtocol).lookup_route dst).1
        (request_ttl s₁.attrs (({ s₁ with rreq_count := s₁.rreq_count + 1 } : RoutingProtocol).lookup_route dst).1)) :=
      search_entry_calm (hcounted.lookup_route dst) fun rt hrt => black_list_state_lookup hcounted.table hrt
    refine schedule_rreq_retry_calm ?_ h
    refine Calm.foldl (fun s₁ iface hs₁ => broadcast_request_calm hs₁ iface) ?_ _
    exact hsearch.trans (.of_table rfl rfl rfl hsearch.table)

end Request

section Receive

variable {sender receiver src dst : Ipv4Address}

theorem update_route_to_neighbor_calm (hs : Calm s s₁) (h : s₁.update_route_to_neighbor sender receiver = some s') :
    Calm s s' := by
  obtain ⟨i, -, rfl⟩ := Option.map_eq_some_iff.mp h
  have hlookup := hs.lookup_route sender
  cases hrt : (s₁.lookup_route sender).1 with
  | none => exact hlookup.add_route rfl
  | some toNeighbor =>
    simp only
    split
    · exact hlookup
    · exact hlookup.update rfl

theorem recv_verification_calm (hs : Calm s s₁) (socket : Ipv4Address) (tag : Option Bool) :
    Calm s (s₁.recv_verification socket receiver sender tag) := by
  unfold recv_verification
  split
  · exact hs
  · split
    · exact hs
    · exact hs.emit rfl
    · split
      · split
        · exact hs
        · exact hs.trans ⟨rfl, rfl, ⟨[_], rfl, by simp [Effect.isRerr]⟩, hs.table⟩
      · exact hs

theorem recv_reply_ack_calm (hs : Calm s s₁) : Calm s (s₁.recv_reply_ack src) := by
  have hlookup := hs.lookup_route src
  unfold recv_reply_ack
  split
  next rt s₂ heq =>
    have hrt : (s₁.lookup_route src).1 = some rt := by rw [heq]
    have hunlisted := black_list_state_lookup hs.table hrt
    rw [heq] at hlookup
    exact hlookup.update hunlisted
  next s₂ heq =>
    rw [heq] at hlookup
    exact hlookup

theorem accepted_request_calm {h : RreqHeader} (hs : Calm s s₁) (hacc : s₁.accepted_request h src = some s') :
    Calm s s' := by
  have hlookup := hs.lookup_route src
  unfold accepted_request at hacc
  simp only at hacc
  split at hacc
  · cases hacc
  · split at hacc
    · cases hacc
    · cases hacc
      exact hlookup.trans (.of_table rfl rfl rfl hlookup.table)

theorem build_reverse_route_calm {h : RreqHeader} (hs : Calm s s₁)
    (hbuild : s₁.build_reverse_route h receiver src = some s') : Calm s s' := by
  obtain ⟨r, hr, hprevious⟩ := Option.bind_eq_some_iff.mp hbuild
  have hreverse : Calm s r.2.2 := by
    obtain ⟨i, -, hr⟩ := Option.bind_eq_some_iff.mp hr
    have hlookup := hs.lookup_route h.origin
    cases hrt : (s₁.lookup_route h.origin).1 with
    | none =>
      simp only [hrt] at hr
      obtain ⟨i, -, rfl⟩ := Option.map_eq_some_iff.mp hr
      exact hlookup.add_route rfl
    | some toOrigin =>
      simp only [hrt] at hr
      cases hr
      have hunlisted := black_list_state_lookup hs.table hrt
      exact hlookup.update hunlisted
  obtain ⟨i, -, rfl⟩ := Option.map_eq_some_iff.mp hprevious
  have hlookup := hreverse.lookup_route src
  cases hrt : (r.2.2.lookup_route src).1 with
  | none => exact hlookup.add_route rfl
  | some toNeighbor =>
    have hunlisted := black_list_state_lookup hreverse.table hrt
    exact hlookup.update hunlisted

theorem send_reply_calm {h : RreqHeader} {toOrigin : RoutingTableEntry} (hs : Calm s s₁)
    (hsend : s₁.send_reply h toOrigin = some s') : Calm s s' := by
  unfold send_reply at hsend
  obtain ⟨source, -, rfl⟩ := Option.map_eq_some_iff.mp hsend
  refine Calm.emit ?_ rfl
  split
  · exact hs.trans (.of_table rfl rfl rfl hs.table)
  · exact hs

theorem send_reply_by_intermediate_node_calm {toDst toOrigin : RoutingTableEntry} {gratRep : Bool} (hs : Calm s s₁)
    (hdst : toDst.black_list_state = false) (horigin : toOrigin.black_list_state = false)
    (hsend : s₁.send_reply_by_intermediate_node toDst toOrigin gratRep = some s') : Calm s s' := by
  have hack : Calm s (if toDst.hops = 1 then (s₁.lookup_route toOrigin.get_next_hop).2 else s₁) := by
    split
    · exact hs.lookup_route _
    · exact hs
  unfold send_reply_by_intermediate_node at hsend
  simp only at hsend
  generalize (if toDst.hops = 1 then (s₁.lookup_route toOrigin.get_next_hop).2 else s₁) = s₂ at hack hsend
  obtain ⟨source, -, hsend⟩ := Option.bind_eq_some_iff.mp hsend
  have hreply := ((hack.update (r := toDst.insert_precursor toOrigin.get_next_hop) (by simpa using hdst)).update
    (r := toOrigin.insert_precursor (toDst.insert_precursor toOrigin.get_next_hop).get_next_hop)
    (by simpa using horigin))
  split at hsend
  · obtain ⟨source, -, rfl⟩ := Option.map_eq_some_iff.mp hsend
    exact Calm.emit (Calm.emit hreply rfl) rfl
  · cases hsend
    exact Calm.emit hreply rfl

theorem answer_request_calm {h : RreqHeader} {toOrigin : RoutingTableEntry} {a : Option RreqHeader × RoutingProtocol}
    (hs : Calm s s₁) (horigin : toOrigin.black_list_state = false)
    (ha : s₁.answer_request h toOrigin receiver src = some a) : Calm s a.2 := by
  obtain ⟨htarget, hfound⟩ : Calm s (s₁.request_target h).2 ∧
      ∀ rt, (s₁.request_target h).1 = some rt → rt.black_list_state = false := by
    unfold request_target
    split
    · exact ⟨hs, fun rt hrt => Option.some.inj hrt ▸ rfl⟩
    · exact ⟨hs.lookup_route h.dst, fun rt hrt => black_list_state_lookup hs.table hrt⟩
  unfold answer_request at ha
  simp only at ha
  split at ha
  next =>
    cases ha
    exact htarget
  next toDst hrt =>
    have hreply := htarget.lookup_route h.origin
    have hlocal : ((((s₁.request_target h).2.lookup_route h.origin).1).getD toOrigin).black_list_state = false := by
      cases hrt : ((s₁.request_target h).2.lookup_route h.origin).1 with
      | none => exact horigin
      | some rt => exact black_list_state_lookup htarget.table hrt
    split at ha
    · cases ha
      exact htarget
    · split at ha
      · split at ha
        · split at ha
          · obtain ⟨i, -, ha⟩ := Option.bind_eq_some_iff.mp ha
            obtain ⟨s₂, hsend, rfl⟩ := Option.map_eq_some_iff.mp ha
            exact send_reply_by_intermediate_node_calm hreply rfl hlocal hsend
          · obtain ⟨s₂, hsend, rfl⟩ := Option.map_eq_some_iff.mp ha
            exact send_reply_by_intermediate_node_calm hreply (hfound toDst hrt) hlocal hsend
        · cases ha
          exact htarget
      · cases ha
        exact htarget

theorem forward_request_calm {h : RreqHeader} (hs : Calm s s₁) (ttl : UInt8) : Calm s (s₁.forward_request h ttl) := by
  unfold forward_request
  split
  · exact hs
  · refine Calm.foldl (fun s₂ iface hs₂ => ?_) hs _
    exact hs₂.trans ⟨rfl, rfl, ⟨[_], rfl, by simp [Effect.isRerr]⟩, hs₂.table⟩

theorem reverse_route_black_list_state {h : RreqHeader} {r : Ipv4Address × RoutingTableEntry × RoutingProtocol}
    (hs : s.routing_table.Sound) (hr : s.reverse_route h receiver src = some r) : r.2.1.black_list_state = false := by
  obtain ⟨i, -, hr⟩ := Option.bind_eq_some_iff.mp hr
  cases hrt : (s.lookup_route h.origin).1 with
  | none =>
    simp only [hrt] at hr
    obtain ⟨i, -, rfl⟩ := Option.map_eq_some_iff.mp hr
    rfl
  | some toOrigin =>
    simp only [hrt] at hr
    cases hr
    exact black_list_state_lookup (r := toOrigin) hs hrt

end Receive

section Reply

variable {sender receiver src dst : Ipv4Address} {h : RrepHeader}

theorem evaluate_rtt_probe_calm {origin : Ipv4Address} {rtt : Time} {r : Bool × RoutingProtocol} (hs : Calm s s₁)
    (heval : s₁.evaluate_rtt_probe origin dst sender receiver rtt = some r) : Calm s r.2 := by
  unfold evaluate_rtt_probe at heval
  simp only at heval
  split at heval
  next =>
    cases heval
    exact hs
  next start _ =>
    have hevaluated : Calm s (s₁.emit (.rtt_probe_evaluated ⟨origin, dst⟩ start sender)) := hs.emit rfl
    split at heval
    · split at heval
      · obtain ⟨s₂, hverify, rfl⟩ := Option.map_eq_some_iff.mp heval
        have hentered : Calm s s₂ := by
          unfold enter_verification at hverify
          split at hverify
          · cases hverify
            exact hevaluated
          · obtain ⟨i, -, hverify⟩ := Option.bind_eq_some_iff.mp hverify
            obtain ⟨source, -, rfl⟩ := Option.map_eq_some_iff.mp hverify
            exact hevaluated.trans ⟨rfl, rfl, ⟨[_], rfl, by simp [Effect.isRerr]⟩, hevaluated.table⟩
        exact hentered.trans (.of_table rfl rfl rfl hentered.table)
      · cases heval
        exact hevaluated.trans (.of_table rfl rfl rfl hevaluated.table)
    · cases heval
      exact hevaluated.trans (.of_table rfl rfl rfl hevaluated.table)

theorem detect_wormhole_calm {r : Bool × RoutingProtocol} (hs : Calm s s₁)
    (hdetect : s₁.detect_wormhole h receiver sender = some r) : Calm s r.2 := by
  unfold detect_wormhole at hdetect
  split at hdetect
  · split at hdetect
    · cases hdetect
      exact hs
    · split at hdetect
      · exact evaluate_rtt_probe_calm hs hdetect
      · cases hdetect
        exact hs
  · cases hdetect
    exact hs

theorem send_packet_from_queue_calm (hs : Calm s s₁) (route : Ipv4Route) :
    Calm s (s₁.send_packet_from_queue dst route) := by
  refine hs.trans ⟨rfl, rfl, ⟨_, rfl, ?_⟩, hs.table⟩
  intro e he
  obtain ⟨callback, -, rfl⟩ := List.mem_map.mp he
  cases callback <;> rfl

theorem reply_at_origin_calm {newEntry toDst : RoutingTableEntry} (hs : Calm s s₁)
    (hnew : newEntry.black_list_state = false) : Calm s (s₁.reply_at_origin dst newEntry toDst) := by
  unfold reply_at_origin
  have hentered : Calm s (if toDst.flag = .in_search then
      { s₁.update newEntry with address_req_timer := (s₁.update newEntry).address_req_timer.erase dst } else s₁) := by
    split
    · exact (hs.update hnew).trans (.of_table rfl rfl rfl (hs.update hnew).table)
    · exact hs
  exact send_packet_from_queue_calm (hentered.lookup_route dst) _

theorem update_precursors_calm {toOrigin : RoutingTableEntry} (hs : Calm s s₁)
    (horigin : toOrigin.black_list_state = false) :
    Calm s (s₁.update_precursors d toOrigin).2 ∧
      (s₁.update_precursors d toOrigin).1.black_list_state = false := by
  unfold update_precursors
  have hlookup := hs.lookup_route d
  cases hrt : (s₁.lookup_valid_route d).1 with
  | none =>
    simp only [hrt]
    exact ⟨hlookup, horigin⟩
  | some toDst =>
    simp only [hrt]
    obtain ⟨hfound, -⟩ := Option.filter_eq_some_iff.mp hrt
    have hdst := black_list_state_lookup hs.table hfound
    have hnoted : Calm s ((s₁.lookup_valid_route d).2.update (toDst.insert_precursor toOrigin.get_next_hop)) :=
      hlookup.update (by simpa using hdst)
    have hnext := (hnoted.lookup_route (toDst.insert_precursor toOrigin.get_next_hop).get_next_hop).update
      (r := (((s₁.lookup_valid_route d).2.update (toDst.insert_precursor toOrigin.get_next_hop)).lookup_route
        (toDst.insert_precursor toOrigin.get_next_hop).get_next_hop).1.getD (RoutingTableEntry.default s₁.now)
          |>.insert_precursor toOrigin.get_next_hop)
      (by simpa using black_list_state_getD hnoted.table _ s₁.now)
    have hback := hnext.update
      (r := toOrigin.insert_precursor (toDst.insert_precursor toOrigin.get_next_hop).get_next_hop)
      (by simpa using horigin)
    refine ⟨(hback.lookup_route _).update ?_, by simpa using horigin⟩
    simpa using black_list_state_getD hback.table _ s₁.now

theorem forward_reply_calm {ttl : UInt8} (hs : Calm s s₁) (hforward : s₁.forward_reply h ttl = some s') :
    Calm s s' := by
  unfold forward_reply at hforward
  have hlookup := hs.lookup_route h.origin
  cases hrt : (s₁.lookup_route h.origin).1 with
  | none =>
    simp only [hrt] at hforward
    cases hforward
    exact hlookup
  | some toOrigin =>
    simp only [hrt] at hforward
    have horigin := black_list_state_lookup hs.table hrt
    split at hforward
    next =>
      cases hforward
      exact hlookup
    next =>
      have hused : (toOrigin.set_life_time s₁.now
          (max s₁.attrs.active_route_timeout (toOrigin.get_life_time s₁.now))).black_list_state = false := horigin
      have hprecursors := update_precursors_calm (hlookup.update hused) hused (d := h.dst)
      split at hforward
      next =>
        cases hforward
        exact hprecursors.1
      next =>
        obtain ⟨source, -, rfl⟩ := Option.map_eq_some_iff.mp hforward
        exact hprecursors.1.emit rfl

theorem accept_reply_calm {ttl : UInt8} (hs : Calm s s₁) (haccept : s₁.accept_reply h receiver sender ttl = some s') :
    Calm s s' := by
  unfold accept_reply at haccept
  obtain ⟨i, -, haccept⟩ := Option.bind_eq_some_iff.mp haccept
  obtain ⟨s₂, hack, haccept⟩ := Option.bind_eq_some_iff.mp haccept
  have hnew : (s₁.reply_entry h sender i).black_list_state = false := rfl
  have hinstalled : Calm s (s₁.install_reply h (s₁.reply_entry h sender i)) := by
    unfold install_reply
    have hlookup := hs.lookup_route h.dst
    simp only
    split
    · split
      · exact hlookup.update hnew
      · exact hlookup
    · exact hlookup.add_route hnew
  have hacked : Calm s s₂ := by
    split at hack
    · obtain ⟨source, -, rfl⟩ := Option.map_eq_some_iff.mp hack
      exact (hinstalled.lookup_route sender).emit rfl
    · cases hack
      exact hinstalled
  split at haccept
  · cases haccept
    exact reply_at_origin_calm hacked hnew
  · exact forward_reply_calm hacked haccept

end Reply

end Ns3.Aodv.RoutingProtocol
