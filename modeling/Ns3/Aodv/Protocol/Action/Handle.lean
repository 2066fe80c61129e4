import Ns3.Aodv.Protocol.Action.Accept
import Ns3.Aodv.Protocol.Action.Discover
import Ns3.Aodv.Protocol.Action.Lift

namespace Ns3.Aodv.RoutingProtocol

open RoutingTable (Decays stored_entry)
open RoutingTableEntry (DecaysTo SameRoute)

variable {c : Cause} {s s' : RoutingProtocol}

theorem startValid_start (c : Cause) : StartValid c c.start.routing_table :=
  fun _ e he _ => ⟨e, he, SameRoute.refl e⟩

section Receive

variable {receiver sender socket : Ipv4Address}

theorem recv_verification_actions (tag : Option Bool) :
    Actions c s (s.recv_verification socket receiver sender tag) := by
  unfold recv_verification
  split
  next => exact .refl
  next =>
    split
    next => exact .refl
    next => exact send_quiet_actions socket sender 0 rfl (by simp)
    next =>
      split
      next hpending =>
        split
        next => exact .refl
        next start hstart =>
          exact Actions.one (.detect (.respond receiver sender _ hpending
            (Std.ExtTreeMap.mem_iff_isSome_getElem?.mpr (by simp [hstart]))))
      next => exact .refl

theorem recv_reply_ack_actions (hreceived : c.Received sender .rrep_ack)
    (hdevice : ∀ e, s.routing_table.entries[sender]? = some e → e.get_output_device ≠ none) :
    Actions c s (s.recv_reply_ack sender) := by
  unfold recv_reply_ack
  have hlookup := (s.lookup_route_fades sender).actions (c := c)
  split
  next rt s₁ heq =>
    have hrt : (s.lookup_route sender).1 = some rt := by rw [heq]
    rw [heq] at hlookup
    have hkey : rt.get_destination = sender := get_destination_of_lookup hrt
    refine hlookup.trans (update_actions hkey ?_)
    intro e he
    have hfst := s.lookup_route_fst sender
    rw [heq] at hfst
    obtain rfl := Option.some.inj (hfst.trans he)
    obtain ⟨e₀, he₀, hdecay⟩ := lookup_route_entry hrt
    refine .ack hreceived ⟨by simp, by simp, by simp, by simp⟩ ?_ (by simp)
    have hsame : (stored_entry { rt with flag := .valid }).get_output_device = e₀.get_output_device := by
      rw [RoutingTable.stored_entry_get_output_device, ← hdecay.1.get_output_device]
      rfl
    rw [hsame]
    exact hdevice e₀ he₀
  next s₁ heq =>
    rw [heq] at hlookup
    exact hlookup

theorem recv_aodv_actions {ttl : UInt8} {m : Message}
    (hevent : c.event = .recv_aodv receiver sender ttl m) (hs : s = c.start)
    (hrecv : s.recv_aodv receiver sender ttl m = some s') : Actions c s s' := by
  have hreceived : c.Received sender m := ⟨receiver, ttl, hevent⟩
  unfold recv_aodv at hrecv
  obtain ⟨s₁, hneighbor, hrecv⟩ := Option.bind_eq_some_iff.mp hrecv
  have hframe := update_route_to_neighbor_frame hneighbor
  have hlog : s₁.log = c.start.log := by rw [hframe, hs]
  have hseqno : s₁.seq_no = c.start.seq_no := by rw [hframe, hs]
  have hstart : StartValid c s₁.routing_table := by
    intro d e he hvalid
    obtain ⟨e₀, he₀, hdecay⟩ := update_route_to_neighbor_valid hneighbor he hvalid
    exact ⟨e₀, by rw [← hs]; exact he₀, hdecay.1⟩
  refine (update_route_to_neighbor_actions hreceived hneighbor).trans ?_
  cases m with
  | invalid =>
    cases hrecv
    exact .refl
  | rverify tag =>
    cases hrecv
    exact recv_verification_actions tag
  | rreq h => exact recv_request_actions hreceived hlog hseqno hstart hrecv
  | rrep h => exact recv_reply_actions hreceived hlog hrecv
  | rerr h => exact (recv_error_fades hrecv).actions
  | rrep_ack =>
    cases hrecv
    exact recv_reply_ack_actions hreceived fun e he => update_route_to_neighbor_device hneighbor he

end Receive

section Route

theorem report_dropped_actions (dropped : List QueueEntry) : Actions c s (s.report_dropped dropped) := by
  have h := emit_errors_actions (c := c) (s := s) (dropped.map fun e => (e.ecb, e.packet, e.header))
  simpa [report_dropped, List.map_map, Function.comp_def] using h

theorem queue_actions (q : RequestQueue) : Action c s { s with queue := q } := .internal rfl

theorem route_output_actions {p : Option Packet} {header : Ipv4Header} {oif : Option NetDevice}
    {r : OutputRoute × RoutingProtocol} (hroute : s.route_output p header oif = some r) : Actions c s r.2 := by
  unfold route_output at hroute
  split at hroute
  next =>
    obtain ⟨route, _, rfl⟩ := Option.map_eq_some_iff.mp hroute
    exact .refl
  next p =>
    split at hroute
    next =>
      cases hroute
      exact .refl
    next =>
      have hlookup := (s.lookup_valid_route_fades header.destination).actions (c := c)
      split at hroute
      next rt s₁ heq =>
        rw [heq] at hlookup
        split at hroute
        next =>
          cases hroute
          exact hlookup
        next =>
          cases hroute
          exact hlookup.trans ((update_route_life_time_fades ..).trans (update_route_life_time_fades ..)).actions
      next s₁ heq =>
        rw [heq] at hlookup
        obtain ⟨route, _, rfl⟩ := Option.map_eq_some_iff.mp hroute
        exact hlookup

theorem deferred_route_output_actions (hsearch : c.Searches) (hs : s = c.start) {p : Packet}
    {header : Ipv4Header} {ucb ecb : Callback} (hroute : s.deferred_route_output p header ucb ecb = some s') :
    Actions c s s' := by
  unfold deferred_route_output at hroute
  obtain ⟨o, _, hroute⟩ := Option.bind_eq_some_iff.mp hroute
  have hdropped : Actions c s (({ s with queue := o.queue }).report_dropped o.dropped) :=
    Relation.ReflTransGen.head (queue_actions o.queue) (report_dropped_actions o.dropped)
  refine hdropped.trans ?_
  split at hroute
  next =>
    unfold request_route at hroute
    simp only at hroute
    refine (lookup_route_fades _ header.destination).actions.trans ?_
    split at hroute
    next =>
      cases hroute
      exact .refl
    next =>
      refine send_request_actions hsearch (by rw [hs]; rfl) ?_ hroute
      have hknown : KnownTable c s.routing_table := by
        rw [hs]
        exact (startValid_start c).known
      exact hknown.decays (s.routing_table.purge_decays s.now)
  next =>
    cases hroute
    exact .refl

theorem local_deliver_actions (p : Packet) (header : Ipv4Header) (iif : Int) (cb : InputCallbacks) :
    Actions c s (s.local_deliver p header iif cb) := by
  unfold local_deliver
  split
  · exact Actions.one (.report (.inl ⟨_, _, _, rfl⟩))
  · exact Actions.one (.report (.inr (.inr ⟨_, _, _, rfl⟩)))

theorem forward_broadcast_actions (p : Packet) (header : Ipv4Header) (ucb : Callback) :
    Actions c s (s.forward_broadcast p header ucb) := by
  unfold forward_broadcast
  refine (s.lookup_route_fades header.destination).actions.trans ?_
  cases hrt : (s.lookup_route header.destination).1 with
  | none =>
    simp only [hrt]
    exact .refl
  | some toBroadcast =>
    simp only [hrt]
    exact Actions.one (.report (.inr (.inl ⟨_, _, _, _, rfl⟩)))

theorem broadcast_input_actions (p : Packet) (header : Ipv4Header) (iif : Int) (cb : InputCallbacks) :
    Actions c s (s.broadcast_input p header iif cb) := by
  unfold broadcast_input
  simp only
  have hdpd : ∀ dpd, Action c s { s with dpd := dpd } := fun _ => .internal rfl
  refine Relation.ReflTransGen.head (hdpd (s.dpd.is_duplicate s.now header.source p.uid.toUInt32).2) ?_
  split
  next => exact .refl
  next =>
    refine (update_route_life_time_fades _ header.source s.attrs.active_route_timeout).actions.trans
      ((local_deliver_actions p header iif cb).trans ?_)
    split
    next => exact .refl
    next =>
      split
      next => exact .refl
      next =>
        split
        next => exact .refl
        next => exact forward_broadcast_actions p header cb.ucb

theorem unicast_input_actions {p : Packet} {header : Ipv4Header} {iif : Int} {cb : InputCallbacks}
    (h : s.unicast_input p header iif cb = some s') : Actions c s s' := by
  unfold unicast_input at h
  obtain ⟨s₁, hneighbors, rfl⟩ := Option.map_eq_some_iff.mp h
  refine Relation.ReflTransGen.trans ?_ (local_deliver_actions p header _ cb)
  refine (update_route_life_time_fades s header.source s.attrs.active_route_timeout).actions.trans ?_
  refine (lookup_valid_route_fades _ header.source).actions.trans ?_
  split at hneighbors
  next => exact (update_route_life_time_fades ..).actions.trans (nb_update_fades hneighbors).actions
  next =>
    cases hneighbors
    exact .refl

theorem forwarding_actions (hforwards : c.Forwards) {p : Packet} {header : Ipv4Header} {ucb : Callback}
    (h : s.forwarding p header ucb = some s') : Actions c s s' := by
  unfold forwarding at h
  simp only at h
  refine (Fades.of_table (s.routing_table.purge_decays s.now)).actions.trans ?_
  split at h
  next =>
    cases h
    exact .refl
  next =>
    refine (lookup_route_fades _ header.destination).actions.trans ?_
    split at h
    next => exact (send_rerr_when_no_route_to_forward_fades h).actions
    next toDst _ =>
      split at h
      next =>
        obtain ⟨s₁, hfirst, h⟩ := Option.bind_eq_some_iff.mp h
        obtain ⟨s₂, hsecond, rfl⟩ := Option.map_eq_some_iff.mp h
        refine Relation.ReflTransGen.tail ?_ (.forward hforwards)
        refine Fades.actions ?_
        exact (update_route_life_time_fades ..).trans <|
          (update_route_life_time_fades ..).trans <|
          (update_route_life_time_fades ..).trans <|
          (lookup_route_fades ..).trans <|
          (update_route_life_time_fades ..).trans <|
          (nb_update_fades hfirst).trans (nb_update_fades hsecond)
      next => exact (send_rerr_when_no_route_to_forward_fades h).actions

theorem route_input_undeferred_actions (hforwards : c.Forwards) {p : Packet} {header : Ipv4Header} {iif : Nat}
    {cb : InputCallbacks} (hdeferred : ¬ (iif = 0 ∧ p.tag ≠ none))
    (h : s.route_input p header iif cb = some s') : Actions c s s' := by
  unfold route_input at h
  rw [if_neg hdeferred] at h
  split at h
  next => cases h; exact .refl
  next =>
    split at h
    next => cases h
    next =>
      split at h
      next => cases h; exact .refl
      next =>
        split at h
        next => cases h; exact .refl
        next =>
          split at h
          next => cases h; exact broadcast_input_actions p header iif cb
          next =>
            split at h
            next => exact unicast_input_actions h
            next =>
              split at h
              next => cases h; exact Actions.one (.report (.inl ⟨_, _, _, rfl⟩))
              next => exact forwarding_actions hforwards h

theorem route_input_deferred {p : Packet} {header : Ipv4Header} {iif : Nat} {cb : InputCallbacks}
    (hdeferred : iif = 0 ∧ p.tag ≠ none) (h : s.route_input p header iif cb = some s') :
    s.socket_addresses = [] ∧ s' = s ∨
      s.socket_addresses ≠ [] ∧ s.deferred_route_output p header cb.ucb cb.ecb = some s' := by
  unfold route_input at h
  rw [if_pos hdeferred] at h
  split at h
  next hunused =>
    cases h
    exact .inl ⟨hunused, rfl⟩
  next hused =>
    split at h
    · cases h
    · exact .inr ⟨hused, h⟩

theorem route_input_actions {p : Packet} {header : Ipv4Header} {iif : Nat} {cb : InputCallbacks}
    (hevent : c.event = .route_input p header iif cb) (hs : s = c.start)
    (h : s.route_input p header iif cb = some s') : Actions c s s' := by
  by_cases hdeferred : iif = 0 ∧ p.tag ≠ none
  · rcases route_input_deferred hdeferred h with ⟨_, rfl⟩ | ⟨_, hroute⟩
    · exact .refl
    · exact deferred_route_output_actions (by simp [Cause.Searches, hevent]) hs hroute
  · exact route_input_undeferred_actions (by simp [Cause.Forwards, hevent]) hdeferred h

end Route

section Timers

theorem route_request_timer_expire_actions {dst : Ipv4Address} {timers : Std.ExtTreeMap Ipv4Address (Option Time)}
    (hevent : c.event = .route_request_timer_expire dst) (hs : s = c.start)
    (h : route_request_timer_expire { s with address_req_timer := timers } dst = some s') : Actions c s s' := by
  unfold route_request_timer_expire at h
  simp only at h
  have hstart : Action c s { s with address_req_timer := timers } := .internal rfl
  refine Relation.ReflTransGen.head hstart ((lookup_route_fades _ dst).actions.trans ?_)
  have hstop : ∀ s₁ : RoutingProtocol, Actions c s₁
      (({ (({ s₁ with address_req_timer := s₁.address_req_timer.erase dst }).delete_route dst) with
        queue := (s₁.queue.drop_packet_with_dst s₁.now dst).queue }).report_dropped
          (s₁.queue.drop_packet_with_dst s₁.now dst).dropped) := by
    intro s₁
    have htimer : Action c s₁ { s₁ with address_req_timer := s₁.address_req_timer.erase dst } := .internal rfl
    have hdelete : Fades { s₁ with address_req_timer := s₁.address_req_timer.erase dst }
        (({ s₁ with address_req_timer := s₁.address_req_timer.erase dst }).delete_route dst) :=
      Fades.of_table (s₁.routing_table.delete_route_decays s₁.now dst)
    exact Relation.ReflTransGen.head htimer (hdelete.actions.trans
      (Relation.ReflTransGen.head (queue_actions _) (report_dropped_actions _)))
  split at h
  next =>
    cases h
    exact send_packet_from_queue_actions (by simp [Cause.Forwards, hevent]) dst _
  next =>
    split at h
    next =>
      cases h
      exact hstop _
    next =>
      split at h
      next =>
        refine send_request_actions (by simp [Cause.Searches, hevent]) (by rw [hs]; rfl) ?_ h
        have hknown : KnownTable c s.routing_table := by
          rw [hs]
          exact (startValid_start c).known
        exact hknown.decays (s.routing_table.purge_decays s.now)
      next =>
        cases h
        exact hstop _

theorem send_hello_actions : Actions c s s.send_hello := by
  have hloop : ∀ (ifaces : List Ipv4InterfaceAddress) (n : UInt32) (s₁ : RoutingProtocol), s₁.seq_no = n →
      (∀ iface ∈ ifaces, iface ∈ s₁.socket_addresses) →
      Actions c s₁ (ifaces.foldl (fun s iface =>
        s.send_to iface.local_addr (broadcast_destination iface) 1
          (.rrep (RrepHeader.of 0 0 iface.local_addr s.seq_no iface.local_addr
            (s.attrs.allowed_hello_loss.toNat * s.attrs.hello_interval)))) s₁) := by
    intro ifaces
    induction ifaces with
    | nil => exact fun _ _ _ _ => .refl
    | cons iface rest ih =>
      intro n s₁ hn hifaces
      have hown : s₁.is_my_own_address iface.local_addr = true := by
        simp only [is_my_own_address, List.any_eq_true]
        exact ⟨iface, hifaces iface (by simp), by simp⟩
      refine Relation.ReflTransGen.head ?_ (ih n _ hn ?_)
      · exact .send (fun _ => hown) (.own_reply hown rfl rfl)
      · exact fun iface' hiface' => hifaces iface' (by simp [hiface'])
  exact hloop s.socket_addresses s.seq_no s rfl fun _ hiface => hiface

theorem hello_timer_expire_actions : Actions c s s.hello_timer_expire := by
  unfold hello_timer_expire
  refine Relation.ReflTransGen.tail ?_ (.internal rfl)
  split
  · exact .refl
  · exact send_hello_actions

theorem process_tx_error_actions {addr : Mac48Address} (h : s.process_tx_error addr = some s') :
    Actions c s s' :=
  ((nb_fades s _).trans (nb_purge_fades h)).actions

end Timers

section Interfaces

variable {iface : Ipv4InterfaceAddress} {ipv4 : Ipv4} {i : Nat}

theorem configure_actions (ipv4 : Ipv4) : Actions c s { s with ipv4 := ipv4 } :=
  Actions.one (.configure rfl fun _ hiface => .inl hiface)

theorem erase_socket_actions (iface : Ipv4InterfaceAddress) :
    Actions c s { s with socket_addresses := s.socket_addresses.erase iface } :=
  Actions.one (.configure rfl fun _ hiface => .inl (List.mem_of_mem_erase hiface))

theorem create_socket_actions (hadds : c.Adds iface) (h : s.create_socket iface = some s') :
    Actions c s s' := by
  unfold create_socket at h
  obtain ⟨i, _, rfl⟩ := Option.map_eq_some_iff.mp h
  have hsocket : Action c s { s with socket_addresses := s.socket_addresses ++ [iface] } := by
    refine .configure rfl fun iface' hiface' => ?_
    rcases List.mem_append.mp hiface' with hold | hnew
    · exact .inl hold
    · rw [List.mem_singleton] at hnew
      exact .inr (hnew ▸ hadds)
  refine Relation.ReflTransGen.head hsocket (add_route_actions rfl ?_)
  exact .record hadds rfl (by simp) (by simp) (by simp) (by simp)

theorem clear_if_unused_actions : Actions c s s.clear_if_unused := by
  unfold clear_if_unused
  split
  · have hnb : Action c s { s with nb := s.nb.clear } := .internal rfl
    exact Relation.ReflTransGen.head hnb (Actions.one (Action.of_decays s.routing_table.clear_decays))
  · exact .refl

theorem delete_all_routes_actions (iface : Ipv4InterfaceAddress) :
    Actions c s { s with routing_table := s.routing_table.delete_all_routes_from_interface iface } :=
  Actions.one (Action.of_decays (s.routing_table.delete_all_routes_from_interface_decays iface))

theorem notify_interface_up_actions (hevent : c.event = .interface_up ipv4 i) (hipv4 : s.ipv4 = ipv4)
    (h : s.notify_interface_up i = some s') : Actions c s s' := by
  unfold notify_interface_up at h
  obtain ⟨iface, hiface, h⟩ := Option.bind_eq_some_iff.mp h
  split at h
  next =>
    cases h
    exact .refl
  next hloopback =>
    rw [hipv4] at hiface
    exact create_socket_actions (by simpa [Cause.Adds, hevent] using ⟨hiface, hloopback⟩) h

theorem notify_interface_down_actions (h : s.notify_interface_down i = some s') : Actions c s s' := by
  unfold notify_interface_down at h
  simp only at h
  obtain ⟨iface, _, h⟩ := Option.bind_eq_some_iff.mp h
  split at h
  next =>
    have herase := erase_socket_actions (c := c) (s := s) iface
    split at h
    next =>
      cases h
      exact herase.trans clear_if_unused_actions
    next =>
      cases h
      exact herase.trans (delete_all_routes_actions iface)
  next => cases h

theorem notify_add_address_actions (hevent : c.event = .add_address ipv4 i) (hipv4 : s.ipv4 = ipv4)
    (h : s.notify_add_address i = some s') : Actions c s s' := by
  unfold notify_add_address at h
  split at h
  next =>
    cases h
    exact .refl
  next =>
    split at h
    next iface haddresses =>
      split at h
      next =>
        cases h
        exact .refl
      next hnew =>
        have hiface : ipv4.get_address i = some iface := by
          obtain ⟨interface, hinterface, haddress⟩ := Option.map_eq_some_iff.mp haddresses
          rw [← hipv4, Ipv4.get_address, hinterface, Option.bind_some, haddress]
          rfl
        refine create_socket_actions ?_ h
        simpa [Cause.Adds, hevent] using ⟨hiface, fun hloopback => hnew (.inr hloopback)⟩
    next =>
      cases h
      exact .refl

theorem notify_remove_address_actions {address : Ipv4InterfaceAddress}
    (hevent : c.event = .remove_address ipv4 i address) (hipv4 : s.ipv4 = ipv4)
    (h : s.notify_remove_address i address = some s') : Actions c s s' := by
  unfold notify_remove_address at h
  simp only at h
  split at h
  next =>
    refine (delete_all_routes_actions address).trans ((erase_socket_actions address).trans ?_)
    split at h
    next iface hiface =>
      obtain ⟨s₁, hcreate, rfl⟩ := Option.map_eq_some_iff.mp h
      have hadds : c.Adds iface := by
        rw [hipv4] at hiface
        simpa [Cause.Adds, hevent] using hiface
      exact (create_socket_actions hadds hcreate).trans clear_if_unused_actions
    next =>
      cases h
      exact clear_if_unused_actions
  next =>
    cases h
    exact .refl

end Interfaces

theorem handle_actions {e : Event} (h : s.handle e = some s') : Actions ⟨s, e⟩ s s' := by
  cases e with
  | recv_aodv receiver sender ttl m =>
    rw [handle] at h
    split at h
    · exact recv_aodv_actions rfl rfl h
    · cases h
  | route_output p header oif =>
    obtain ⟨r, hroute, rfl⟩ := Option.map_eq_some_iff.mp h
    exact route_output_actions hroute
  | route_input p header iif cb => exact route_input_actions rfl rfl h
  | send_request i =>
    obtain ⟨r, _, h⟩ := Option.bind_eq_some_iff.mp h
    have hknown : KnownTable ⟨s, .send_request i⟩ s.routing_table :=
      (startValid_start ⟨s, .send_request i⟩).known
    have hrequests : Action ⟨s, .send_request i⟩ s
        { s with deferred_requests := s.deferred_requests.eraseIdx i } := .internal rfl
    exact Relation.ReflTransGen.head hrequests (send_request_actions trivial rfl hknown h)
  | route_request_timer_expire dst =>
    rw [handle] at h
    split at h
    · exact route_request_timer_expire_actions rfl rfl h
    · cases h
  | hello_timer_expire =>
    cases h
    exact hello_timer_expire_actions
  | rreq_rate_limit_timer_expire =>
    rw [handle] at h
    split at h
    · cases h
      exact Actions.one (.internal rfl)
    · cases h
  | rerr_rate_limit_timer_expire =>
    cases h
    exact Actions.one (.internal rfl)
  | neighbor_timer_expire => exact (nb_purge_fades h).actions
  | tx_error addr => exact process_tx_error_actions h
  | arp_update arp =>
    cases h
    exact Actions.one (.internal rfl)
  | interface_up ipv4 i =>
    exact (configure_actions ipv4).trans (notify_interface_up_actions rfl rfl h)
  | interface_down ipv4 i => exact (configure_actions ipv4).trans (notify_interface_down_actions h)
  | add_address ipv4 i =>
    exact (configure_actions ipv4).trans (notify_add_address_actions rfl rfl h)
  | remove_address ipv4 i address =>
    exact (configure_actions ipv4).trans (notify_remove_address_actions rfl rfl h)
  | set_max_queue_len len =>
    cases h
    have hqueue := Actions.one (queue_actions (c := ⟨s, .set_max_queue_len len⟩) (s := s)
      { s.queue with max_len := len })
    exact hqueue.tail (.configure rfl fun _ hiface => .inl hiface)
  | set_max_queue_time t =>
    cases h
    exact Actions.one (queue_actions _)
  | set_rtt_wormhole_detect_enable f =>
    cases h
    exact Actions.one (.configure rfl fun _ hiface => .inl hiface)
  | set_second_probe_verification_enable f =>
    cases h
    exact Actions.one (.configure rfl fun _ hiface => .inl hiface)

end Ns3.Aodv.RoutingProtocol
