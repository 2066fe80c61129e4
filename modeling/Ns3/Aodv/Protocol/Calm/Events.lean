import Ns3.Aodv.Protocol.Calm.Receive

namespace Ns3.Aodv.RoutingProtocol

variable {s s₁ s' : RoutingProtocol}

section Data

variable {dst : Ipv4Address} {header : Ipv4Header} {iif : Int} {cb : InputCallbacks}

theorem update_route_life_time_calm (hs : Calm s s₁) (addr : Ipv4Address) (lifetime : Time) :
    Calm s (s₁.update_route_life_time addr lifetime) := by
  unfold update_route_life_time
  have hlookup := hs.lookup_route addr
  cases hrt : (s₁.lookup_route addr).1 with
  | none => simpa [hrt] using hlookup
  | some rt =>
    have hunlisted := black_list_state_lookup hs.table hrt
    simp only [hrt]
    split
    · exact hlookup.update hunlisted
    · exact hlookup

theorem report_dropped_calm (hs : Calm s s₁) (dropped : List QueueEntry) : Calm s (s₁.report_dropped dropped) := by
  refine hs.append ?_
  intro e he
  obtain ⟨entry, -, rfl⟩ := List.mem_map.mp he
  rfl

theorem route_output_calm {p : Option Packet} {oif : Option NetDevice} {r : OutputRoute × RoutingProtocol}
    (hs : Calm s s₁) (hroute : s₁.route_output p header oif = some r) : Calm s r.2 := by
  unfold route_output at hroute
  split at hroute
  next =>
    obtain ⟨route, -, rfl⟩ := Option.map_eq_some_iff.mp hroute
    exact hs
  next p =>
    split at hroute
    next =>
      cases hroute
      exact hs
    next =>
      have hlookup : Calm s (s₁.lookup_valid_route header.destination).2 := hs.lookup_route header.destination
      split at hroute
      next rt s₂ heq =>
        rw [heq] at hlookup
        split at hroute
        next =>
          cases hroute
          exact hlookup
        next =>
          cases hroute
          exact update_route_life_time_calm (update_route_life_time_calm hlookup ..) ..
      next s₂ heq =>
        rw [heq] at hlookup
        obtain ⟨route, -, rfl⟩ := Option.map_eq_some_iff.mp hroute
        exact hlookup

theorem deferred_route_output_calm {p : Packet} {ucb ecb : Callback} (hs : Calm s s₁)
    (hroute : s₁.deferred_route_output p header ucb ecb = some s') : Calm s s' := by
  unfold deferred_route_output at hroute
  obtain ⟨o, -, hroute⟩ := Option.bind_eq_some_iff.mp hroute
  have hdropped := report_dropped_calm (hs.queue o.queue) o.dropped
  simp only at hroute
  split at hroute
  next =>
    unfold request_route at hroute
    simp only at hroute
    split at hroute
    next =>
      cases hroute
      exact hdropped.lookup_route header.destination
    next => exact send_request_calm (hdropped.lookup_route header.destination) hroute
  next =>
    cases hroute
    exact hdropped

theorem local_deliver_calm {o : Ipv4Header} {j : Int} {c : InputCallbacks} (hs : Calm s s₁) (p : Packet) : Calm s (s₁.local_deliver p o j c) := by
  unfold local_deliver
  split
  · exact hs.emit rfl
  · exact hs.emit rfl

theorem broadcast_input_calm (hs : Calm s s₁) (p : Packet) : Calm s (s₁.broadcast_input p header iif cb) := by
  unfold broadcast_input
  simp only
  have hdpd : Calm s { s₁ with dpd := (s₁.dpd.is_duplicate s₁.now header.source p.uid.toUInt32).2 } :=
    hs.trans (.of_table rfl rfl rfl hs.table)
  split
  · exact hdpd
  · have hdelivered := local_deliver_calm (o := header) (j := iif) (c := cb)
      (update_route_life_time_calm hdpd header.source s₁.attrs.active_route_timeout) p
    split
    · exact hdelivered
    · split
      · exact hdelivered
      · split
        · exact hdelivered
        · unfold forward_broadcast
          have hlookup := hdelivered.lookup_route header.destination
          simp only
          split
          · exact hlookup.emit rfl
          · exact hlookup

theorem route_request_timer_expire_calm (hs : Calm s s₁) (h : s₁.route_request_timer_expire dst = some s') :
    Calm s s' := by
  have hlookup := hs.lookup_route dst
  have hstop : ∀ s₁ : RoutingProtocol, Calm s s₁ → Calm s
      (({ (({ s₁ with address_req_timer := s₁.address_req_timer.erase dst }).delete_route dst) with
        queue := (s₁.queue.drop_packet_with_dst s₁.now dst).queue }).report_dropped
          (s₁.queue.drop_packet_with_dst s₁.now dst).dropped) := by
    intro s₁ hs₁
    have hdeleted : Calm s ({ s₁ with address_req_timer := s₁.address_req_timer.erase dst }.delete_route dst) :=
      hs₁.trans (.of_table rfl rfl rfl (hs₁.table.delete_route s₁.now dst))
    exact report_dropped_calm (hdeleted.queue _) _
  unfold route_request_timer_expire at h
  simp only at h
  split at h
  · cases h
    exact send_packet_from_queue_calm hlookup _
  · split at h
    · cases h
      exact hstop _ hlookup
    · split at h
      · exact send_request_calm hlookup h
      · cases h
        exact hstop _ hlookup

theorem hello_timer_expire_calm (hs : Calm s s₁) : Calm s s₁.hello_timer_expire := by
  unfold hello_timer_expire
  have hsent : Calm s (if s₁.last_bcast_time > 0 then s₁ else s₁.send_hello) := by
    split
    · exact hs
    · exact Calm.foldl (fun s₂ iface hs₂ => hs₂.emit rfl) hs _
  exact hsent.trans (.of_table rfl rfl rfl hsent.table)

end Data

section Interfaces

variable {i : ℕ} {iface : Ipv4InterfaceAddress}

theorem create_socket_calm (hs : Calm s s₁) (h : s₁.create_socket iface = some s') : Calm s s' := by
  obtain ⟨i, -, rfl⟩ := Option.map_eq_some_iff.mp h
  have hopened : Calm s { s₁ with socket_addresses := s₁.socket_addresses ++ [iface] } :=
    hs.trans (.of_table rfl rfl rfl hs.table)
  exact hopened.add_route rfl

theorem clear_if_unused_calm (hs : Calm s s₁) : Calm s s₁.clear_if_unused := by
  unfold clear_if_unused
  split
  · exact hs.trans (.of_table rfl rfl rfl hs.table.clear)
  · exact hs

theorem notify_interface_up_calm (hs : Calm s s₁) (h : s₁.notify_interface_up i = some s') : Calm s s' := by
  obtain ⟨iface, -, h⟩ := Option.bind_eq_some_iff.mp h
  split at h
  · cases h
    exact hs
  · exact create_socket_calm hs h

theorem notify_interface_down_calm (hs : Calm s s₁) (h : s₁.notify_interface_down i = some s') : Calm s s' := by
  obtain ⟨iface, -, h⟩ := Option.bind_eq_some_iff.mp h
  simp only at h
  split at h
  · split at h
    · cases h
      exact clear_if_unused_calm (hs.trans (.of_table rfl rfl rfl hs.table))
    · cases h
      exact hs.trans (.of_table rfl rfl rfl (hs.table.delete_all_routes_from_interface iface))
  · cases h

theorem notify_add_address_calm (hs : Calm s s₁) (h : s₁.notify_add_address i = some s') : Calm s s' := by
  unfold notify_add_address at h
  split at h
  · cases h
    exact hs
  · split at h
    · split at h
      · cases h
        exact hs
      · exact create_socket_calm hs h
    · cases h
      exact hs

theorem notify_remove_address_calm (hs : Calm s s₁) (h : s₁.notify_remove_address i iface = some s') : Calm s s' := by
  unfold notify_remove_address at h
  split at h
  · have hremoved : Calm s { s₁ with
        routing_table := s₁.routing_table.delete_all_routes_from_interface iface
        socket_addresses := s₁.socket_addresses.erase iface } :=
      hs.trans (.of_table rfl rfl rfl (hs.table.delete_all_routes_from_interface iface))
    simp only at h
    split at h
    · obtain ⟨s₂, hcreate, rfl⟩ := Option.map_eq_some_iff.mp h
      exact clear_if_unused_calm (create_socket_calm hremoved hcreate)
    · cases h
      exact clear_if_unused_calm hremoved
  · cases h
    exact hs

end Interfaces

end Ns3.Aodv.RoutingProtocol
