import Ns3.Aodv.Protocol.Calm.Events
import Ns3.Aodv.Protocol.Rerr.Idempotence

namespace Ns3.Aodv.RoutingProtocol

variable {s s₁ s' : RoutingProtocol}

/-- From `s` to `s'` the calls have been made. If all of them count, the count has grown by the
number of errors sent and not over the limit. -/
structure Tallied (calls : Calls) (s s' : RoutingProtocol) : Prop where
  attrs : s'.attrs = s.attrs
  table : s'.routing_table.Sound
  tally : (∀ c ∈ calls, c.1.Counts c.2) → s.rerr_count ≤ s.attrs.rerr_rate_limit →
    s'.rerr_count ≤ s.attrs.rerr_rate_limit ∧ ∃ l, s'.log = s.log ++ l ∧
      s'.rerr_count.toNat = s.rerr_count.toNat + l.countP (·.isRerr)

variable {calls calls' : Calls}

theorem Calm.tallied (h : Calm s s') : Tallied [] s s' := by
  refine ⟨h.attrs, h.table, fun _ hlimit => ?_⟩
  obtain ⟨l, hl, hcalm⟩ := h.log
  refine ⟨h.rerr_count ▸ hlimit, l, hl, ?_⟩
  rw [h.rerr_count, List.countP_eq_zero.mpr fun e he => by simp [hcalm e he], Nat.add_zero]

theorem Tallied.trans (h : Tallied calls s s₁) (h' : Tallied calls' s₁ s') : Tallied (calls ++ calls') s s' := by
  refine ⟨h'.attrs.trans h.attrs, h'.table, fun hcounts hlimit => ?_⟩
  obtain ⟨hlimit₁, l, hl, hcount⟩ := h.tally (fun c hc => hcounts c (List.mem_append_left _ hc)) hlimit
  obtain ⟨hlimit', l', hl', hcount'⟩ := h'.tally (fun c hc => hcounts c (List.mem_append_right _ hc))
    (h.attrs ▸ hlimit₁)
  refine ⟨h.attrs ▸ hlimit', l ++ l', by rw [hl', hl, List.append_assoc], ?_⟩
  rw [hcount', hcount, List.countP_append, Nat.add_assoc]

theorem Tallied.after (h : Calm s s₁) (h' : Tallied calls s₁ s') : Tallied calls s s' := h.tallied.trans h'

theorem Tallied.before (h : Tallied calls s s₁) (h' : Calm s₁ s') : Tallied calls s s' :=
  List.append_nil calls ▸ h.trans h'.tallied

theorem message_tallied {h : RerrHeader} {precursors : List Ipv4Address} (hs : s.routing_table.Sound)
    (hsettled : s.routing_table.Settled s.now) (hsend : s.send_rerr_message h precursors = some s') :
    Tallied [(s, .message precursors)] s s' := by
  obtain ⟨l, hnotified⟩ := notified_of_send hsettled hsend
  rw [hnotified.state]
  refine ⟨rfl, hs, fun hcounts hlimit => ?_⟩
  have hcounted : s.rerr_count = s.attrs.rerr_rate_limit ∨ precursors.length ≤ 1 ∨ ∀ p ∈ precursors, ¬ s.HasRoute p :=
    hcounts _ (List.mem_singleton.mpr rfl)
  by_cases hnil : l = []
  · rw [if_neg fun hsent => hsent.2 hnil, hnil]
    exact ⟨hlimit, [], rfl, rfl⟩
  obtain ⟨hbelow, p, hp, hroute⟩ := hnotified.sends.mp hnil
  have hone : precursors.length = 1 := by
    have hle := (hcounted.resolve_left hbelow).resolve_right fun hnone => hnone p hp hroute
    have hpos := List.length_pos_of_mem hp
    omega
  have hlength : l.length = 1 := by
    have hle := hnotified.one hone.le
    have hpos := List.length_pos_of_ne_nil hnil
    omega
  have hsent : l.countP (·.isRerr) = 1 := by
    rw [← hlength, List.countP_eq_length]
    intro e he
    obtain ⟨source, destination, rfl⟩ := hnotified.effects e he
    rfl
  have hlt : s.rerr_count < s.attrs.rerr_rate_limit := UInt16.lt_of_le_of_ne hlimit hbelow
  have hcount : (s.rerr_count + 1).toNat = s.rerr_count.toNat + 1 := by
    have := UInt16.lt_iff_toNat_lt.mp hlt
    have := s.attrs.rerr_rate_limit.toNat_lt
    simp
    omega
  rw [if_pos ⟨hone, hnil⟩]
  refine ⟨?_, l, rfl, by rw [hcount, hsent]⟩
  rw [UInt16.le_iff_toNat_le, hcount]
  exact UInt16.lt_iff_toNat_lt.mp hlt

theorem no_route_tallied {dst origin : Ipv4Address} {dst_seq_no : UInt32} (hs : s.routing_table.Sound)
    (hsend : s.send_rerr_when_no_route_to_forward dst dst_seq_no origin = some s') :
    Tallied [(s, .no_route origin)] s s' := by
  unfold send_rerr_when_no_route_to_forward at hsend
  split at hsend
  next =>
    cases hsend
    exact ⟨rfl, hs, fun _ hlimit => ⟨hlimit, [], by simp, rfl⟩⟩
  next hbelow =>
    obtain ⟨h, -, hsend⟩ := Option.bind_eq_some_iff.mp hsend
    have hcounted : s.Counts (.no_route origin) → ¬ s.HasRoute origin ∧ s.socket_addresses = [] :=
      fun hcounts => hcounts.resolve_left hbelow
    split at hsend
    next toOrigin s₁ heq =>
      obtain ⟨source, -, rfl⟩ := Option.map_eq_some_iff.mp hsend
      have hlookup : s₁ = (s.lookup_route origin).2 := (congrArg Prod.snd heq).symm
      have hroute : s.HasRoute origin := by
        have hfound : (s.lookup_valid_route origin).1 = some toOrigin := by rw [heq]
        obtain ⟨hentry, hvalid⟩ := Option.filter_eq_some_iff.mp hfound
        refine (hasRoute_lookup_route origin).mp ⟨toOrigin, hentry, of_decide_eq_true hvalid, ?_⟩
        exact RoutingTable.fresh_purge s.routing_table s.now origin toOrigin hentry (of_decide_eq_true hvalid)
      rw [hlookup]
      refine ⟨rfl, hs.purge s.now, fun hcounts _ => ?_⟩
      exact absurd hroute (hcounted (hcounts _ (List.mem_singleton.mpr rfl))).1
    next s₁ heq =>
      cases hsend
      have hlookup : s₁ = (s.lookup_route origin).2 := (congrArg Prod.snd heq).symm
      have hattrs : ∀ (ifaces : List Ipv4InterfaceAddress) (s₂ : RoutingProtocol),
          (ifaces.foldl (fun s iface => s.send_to iface.local_addr (broadcast_destination iface) 1 (.rerr h)) s₂).attrs =
            s₂.attrs ∧
          (ifaces.foldl (fun s iface => s.send_to iface.local_addr (broadcast_destination iface) 1 (.rerr h))
            s₂).routing_table = s₂.routing_table := by
        intro ifaces
        induction ifaces with
        | nil => exact fun _ => ⟨rfl, rfl⟩
        | cons iface rest ih => exact fun s₂ => ih _
      rw [hlookup]
      refine ⟨(hattrs _ _).1, ?_, fun hcounts hlimit => ?_⟩
      · rw [(hattrs _ _).2]
        exact hs.purge s.now
      · have hnone : (s.lookup_route origin).2.socket_addresses = [] :=
          (hcounted (hcounts _ (List.mem_singleton.mpr rfl))).2
        rw [hnone]
        exact ⟨hlimit, [], by simp, rfl⟩

theorem Tallied.invalidate (h : Tallied calls s s') (unreachable : Std.ExtTreeMap Ipv4Address UInt32) :
    Tallied calls s (s'.invalidate_routes_with_dst unreachable) :=
  h.before (.of_table rfl rfl rfl (h.table.invalidate_routes_with_dst s'.now unreachable))

theorem purged_calm (hs : s.routing_table.Sound) : Calm s s.purged := .of_table rfl rfl rfl (hs.purge s.now)

theorem recv_error_tallied {h : RerrHeader} {src : Ipv4Address} (hs : s.routing_table.Sound)
    (hrecv : s.recv_error h src = some s') : Tallied (s.recv_error_calls h src) s s' := by
  rw [recv_error_eq hs.lifetime] at hrecv
  split at hrecv
  next =>
    obtain ⟨s₁, hsend, rfl⟩ := Option.map_eq_some_iff.mp hrecv
    exact ((message_tallied (hs.purge s.now) (settled_purged hs.lifetime) hsend).after (purged_calm hs)).invalidate _
  next => cases hrecv

theorem break_tallied {n : Ipv4Address} (hs : s.routing_table.Sound)
    (hsend : s.send_rerr_when_breaks_link_to_next_hop n = some s') : Tallied (s.break_calls n) s s' := by
  have hcalm := purged_calm hs
  have hsettled := settled_purged hs.lifetime
  unfold send_rerr_when_breaks_link_to_next_hop at hsend
  unfold break_calls
  split at hsend
  next s₁ heq =>
    cases hsend
    have hnone : (s.lookup_route n).1 = none := congrArg Prod.fst heq
    obtain rfl : s' = s.purged := (congrArg Prod.snd heq).symm
    rw [hnone]
    exact hcalm.tallied
  next toNextHop s₁ heq =>
    have hfound : (s.lookup_route n).1 = some toNextHop := congrArg Prod.fst heq
    obtain rfl : s₁ = s.purged := (congrArg Prod.snd heq).symm
    rw [hfound]
    obtain ⟨h, -, hsend⟩ := Option.bind_eq_some_iff.mp hsend
    have hlist : s.purged.get_list_of_destination_with_next_hop n =
        (s.purged.routing_table.get_list_of_destination_with_next_hop n, s.purged) := by
      rw [get_list_of_destination_with_next_hop, hsettled.purge]
    simp only [hlist, add_unreachable_of_settled hsettled] at hsend
    obtain ⟨r, hr, hsend⟩ := Option.bind_eq_some_iff.mp hsend
    obtain ⟨h', -, rfl⟩ := Option.map_eq_some_iff.mp hr
    obtain ⟨s₂, hcollected, rfl⟩ := Option.map_eq_some_iff.mp hsend
    unfold send_collected at hcollected
    split at hcollected
    next => exact ((message_tallied (hs.purge s.now) hsettled hcollected).after hcalm).invalidate _
    next =>
      cases hcollected
      refine Tallied.invalidate ?_ _
      exact ⟨rfl, hcalm.table, fun _ hlimit => ⟨hlimit, [], by simp [purged], rfl⟩⟩

theorem breaks_tallied {ns : List Ipv4Address} (hs : s.routing_table.Sound)
    (hsend : ns.foldlM send_rerr_when_breaks_link_to_next_hop s = some s') : Tallied (breaks_calls s ns) s s' := by
  induction ns generalizing s with
  | nil =>
    cases hsend
    exact (Calm.refl hs).tallied
  | cons n rest ih =>
    rw [List.foldlM_cons] at hsend
    obtain ⟨s₁, hfirst, hrest⟩ := Option.bind_eq_some_iff.mp hsend
    have hbreak := break_tallied hs hfirst
    rw [breaks_calls, hfirst]
    exact hbreak.trans (ih hbreak.table hrest)

theorem nb_purge_tallied (hs : s.routing_table.Sound) (hpurge : s.nb_purge = some s') :
    Tallied s.nb_purge_calls s s' := by
  obtain ⟨s₁, hloop, rfl⟩ := Option.map_eq_some_iff.mp hpurge
  have hbreaks := breaks_tallied hs hloop
  exact hbreaks.before (.of_table rfl rfl rfl hbreaks.table)

theorem nb_update_tallied {addr : Ipv4Address} {expire : Time} (hs : s.routing_table.Sound)
    (hupdate : s.nb_update addr expire = some s') : Tallied (s.nb_update_calls addr expire) s s' := by
  unfold nb_update at hupdate
  unfold nb_update_calls
  cases hfound : s.nb.refreshFirst s.now addr expire s.nb.nb with
  | some nb =>
    rw [hfound] at hupdate
    cases hupdate
    exact (Calm.of_table rfl rfl rfl hs : Calm s { s with nb := { s.nb with nb } }).tallied
  | none =>
    rw [hfound] at hupdate
    have hopened : Calm s { s with nb := s.nb.open_link s.now addr expire } := .of_table rfl rfl rfl hs
    exact (nb_purge_tallied (s := { s with nb := s.nb.open_link s.now addr expire }) hs hupdate).after hopened

section Receive

variable {receiver sender src : Ipv4Address} {ttl : UInt8}

theorem recv_request_tallied {h : RreqHeader} (hs : s.routing_table.Sound)
    (hrecv : s.recv_request h receiver src ttl = some s') :
    Tallied (s.recv_request_calls h receiver src) s s' := by
  unfold recv_request_calls
  cases hacc : s.accepted_request h src with
  | none =>
    rw [Option.bind_none, Option.elim_none]
    have hcalm := (Calm.refl hs).lookup_route src
    unfold recv_request at hrecv
    unfold accepted_request at hacc
    simp only at hrecv hacc
    split at hrecv
    · cases hrecv
      exact hcalm.tallied
    next hlisted =>
      rw [if_neg hlisted] at hacc
      split at hrecv
      · cases hrecv
        refine Calm.tallied (hcalm.trans ?_)
        exact .of_table rfl rfl rfl hcalm.table
      next hnew =>
        rw [if_neg hnew] at hacc
        cases hacc
  | some s₀ =>
    rw [recv_request_of_accepted hacc] at hrecv
    have hcalm₀ := accepted_request_calm (Calm.refl hs) hacc
    unfold process_request at hrecv
    obtain ⟨r, hr, hrecv⟩ := Option.bind_eq_some_iff.mp hrecv
    obtain ⟨s₁, hprevious, hrecv⟩ := Option.bind_eq_some_iff.mp hrecv
    obtain ⟨s₂, hnb, hrecv⟩ := Option.bind_eq_some_iff.mp hrecv
    have hbuild : s₀.build_reverse_route (counted h) receiver src = some s₁ := by
      rw [build_reverse_route, hr]
      exact hprevious
    have hcalm₁ := build_reverse_route_calm hcalm₀ hbuild
    have hattrs := hcalm₁.attrs
    rw [Option.bind_some, hbuild]
    rw [hattrs] at hnb
    have hnb := nb_update_tallied hcalm₁.table hnb
    refine (hnb.after hcalm₁).before ?_
    have hcalm₂ := Calm.refl hnb.table
    split at hrecv
    · exact send_reply_calm (hcalm₂.lookup_route _) hrecv
    · obtain ⟨a, ha, rfl⟩ := Option.map_eq_some_iff.mp hrecv
      have hanswer := answer_request_calm hcalm₂ (reverse_route_black_list_state hcalm₀.table hr) ha
      cases a.1 with
      | none => exact hanswer
      | some h' => exact forward_request_calm hanswer ttl

theorem recv_reply_tallied {h : RrepHeader} (hs : s.routing_table.Sound)
    (hrecv : s.recv_reply h receiver sender ttl = some s') :
    Tallied (s.recv_reply_calls h receiver) s s' := by
  unfold recv_reply at hrecv
  unfold recv_reply_calls
  simp only at hrecv
  split at hrecv
  next hhello =>
    have hprocess : (s.hello_route { h with hop_count := h.hop_count + 1 } receiver).bind (fun s₁ =>
        if s₁.attrs.enable_hello then
          s₁.nb_update h.dst (s.attrs.allowed_hello_loss.toNat * s.attrs.hello_interval)
        else some s₁) = some s' := hrecv
    obtain ⟨s₁, hroute, hnb⟩ := Option.bind_eq_some_iff.mp hprocess
    have hcalm : Calm s s₁ := by
      have hlookup := (Calm.refl hs).lookup_route h.dst
      unfold hello_route at hroute
      cases hrt : (s.lookup_route h.dst).1 with
      | none =>
        simp only [hrt] at hroute
        obtain ⟨i, -, rfl⟩ := Option.map_eq_some_iff.mp hroute
        exact hlookup.add_route rfl
      | some toNeighbor =>
        have hunlisted := black_list_state_lookup hs hrt
        simp only [hrt] at hroute
        obtain ⟨i, -, rfl⟩ := Option.map_eq_some_iff.mp hroute
        exact hlookup.update hunlisted
    rw [hcalm.attrs] at hnb
    by_cases henabled : s.attrs.enable_hello = true
    · rw [if_pos henabled] at hnb
      rw [if_pos ⟨hhello, henabled⟩, hroute]
      exact (nb_update_tallied hcalm.table hnb).after hcalm
    · rw [if_neg henabled] at hnb
      rw [if_neg fun hboth => henabled hboth.2]
      cases hnb
      exact hcalm.tallied
  next hhello =>
    rw [if_neg fun hboth => hhello hboth.1]
    obtain ⟨r, hdetect, hrecv⟩ := Option.bind_eq_some_iff.mp hrecv
    have hcalm := detect_wormhole_calm (Calm.refl hs) hdetect
    split at hrecv
    · cases hrecv
      exact hcalm.tallied
    · exact (accept_reply_calm hcalm hrecv).tallied

theorem recv_aodv_tallied {m : Message} (hs : s.routing_table.Sound)
    (hrecv : s.recv_aodv receiver sender ttl m = some s') :
    Tallied (s.recv_aodv_calls receiver sender m) s s' := by
  unfold recv_aodv at hrecv
  obtain ⟨s₁, hneighbor, hrecv⟩ := Option.bind_eq_some_iff.mp hrecv
  have hcalm := update_route_to_neighbor_calm (Calm.refl hs) hneighbor
  unfold recv_aodv_calls
  simp only [hneighbor, Option.elim_some]
  refine Tallied.after hcalm ?_
  cases m with
  | invalid =>
    cases hrecv
    exact (Calm.refl hcalm.table).tallied
  | rverify tag =>
    cases hrecv
    exact (recv_verification_calm (Calm.refl hcalm.table) receiver tag).tallied
  | rreq h => exact recv_request_tallied hcalm.table hrecv
  | rrep h => exact recv_reply_tallied hcalm.table hrecv
  | rerr h => exact recv_error_tallied hcalm.table hrecv
  | rrep_ack =>
    cases hrecv
    exact (recv_reply_ack_calm (Calm.refl hcalm.table)).tallied

end Receive

section Data

variable {p : Packet} {header : Ipv4Header}

theorem unicast_input_tallied {iif : Int} {cb : InputCallbacks} (hs : s.routing_table.Sound)
    (h : s.unicast_input p header iif cb = some s') : Tallied (s.unicast_input_calls header) s s' := by
  unfold unicast_input at h
  obtain ⟨s₁, hneighbors, rfl⟩ := Option.map_eq_some_iff.mp h
  have hused := update_route_life_time_calm (Calm.refl hs) header.source s.attrs.active_route_timeout
  have hlookup := hused.lookup_route header.source
  have hattrs := hused.attrs
  have hupdated : Tallied (s.unicast_input_calls header) s s₁ := by
    unfold unicast_input_calls
    obtain heq | ⟨toOrigin, heq⟩ := ((s.update_route_life_time header.source
      s.attrs.active_route_timeout).lookup_valid_route header.source).1.eq_none_or_eq_some
    · simp only [heq, Option.some.injEq] at hneighbors ⊢
      subst hneighbors
      exact hlookup.tallied
    · simp only [heq, hattrs] at hneighbors ⊢
      have hrefreshed := update_route_life_time_calm hlookup toOrigin.get_next_hop s.attrs.active_route_timeout
      exact (nb_update_tallied hrefreshed.table hneighbors).after hrefreshed
  exact hupdated.before (local_deliver_calm (Calm.refl hupdated.table) p)

theorem use_routes_calm {o : Ipv4Header} (hs : Calm s s₁) (toDst : RoutingTableEntry) : Calm s (s₁.use_routes o toDst).2 := by
  have hsource := update_route_life_time_calm hs o.source s₁.attrs.active_route_timeout
  have hdestination := update_route_life_time_calm hsource o.destination s₁.attrs.active_route_timeout
  have hnext := update_route_life_time_calm hdestination toDst.get_next_hop s₁.attrs.active_route_timeout
  exact update_route_life_time_calm (hnext.lookup_route o.source) _ _

theorem forwarding_eq (s : RoutingProtocol) (p : Packet) (header : Ipv4Header) (ucb : Callback) :
    s.forwarding p header ucb =
      if s.attrs.is_malicious then some s.purged
      else
        match (s.purged.lookup_route header.destination).1 with
        | none => (s.purged.lookup_route header.destination).2.send_rerr_when_no_route_to_forward
            header.destination 0 header.source
        | some toDst =>
          if toDst.flag = .valid then
            let u := (s.purged.lookup_route header.destination).2.use_routes header toDst
            (u.2.nb_update toDst.get_next_hop s.attrs.active_route_timeout).bind fun s₁ =>
            (s₁.nb_update u.1 s.attrs.active_route_timeout).map fun s₂ =>
              s₂.emit (.unicast_forward ucb toDst.ipv4_route p header s₂.routing_table)
          else
            (s.purged.lookup_route header.destination).2.send_rerr_when_no_route_to_forward header.destination
              (if toDst.valid_seq_no then toDst.seq_no else 0) header.source := rfl

theorem forwarding_tallied {ucb : Callback} (hs : s.routing_table.Sound)
    (h : s.forwarding p header ucb = some s') : Tallied (s.forwarding_calls header) s s' := by
  have hlookup := (purged_calm hs).lookup_route header.destination
  rw [forwarding_eq] at h
  unfold forwarding_calls
  split at h
  next hmalicious =>
    cases h
    rw [if_pos hmalicious]
    exact (purged_calm hs).tallied
  next hhonest =>
    rw [if_neg hhonest]
    cases hrt : (s.purged.lookup_route header.destination).1 with
    | none =>
      simp only [hrt, Option.filter_none] at h ⊢
      exact (no_route_tallied hlookup.table h).after hlookup
    | some toDst =>
      simp only [hrt] at h ⊢
      split at h
      next hvalid =>
        simp only [Option.filter, hvalid, decide_true, if_true]
        obtain ⟨s₁, hfirst, h⟩ := Option.bind_eq_some_iff.mp h
        obtain ⟨s₂, hsecond, rfl⟩ := Option.map_eq_some_iff.mp h
        have hused := use_routes_calm (o := header) hlookup toDst
        have hnb := nb_update_tallied hused.table hfirst
        have hnb' := nb_update_tallied hnb.table hsecond
        simp only [hfirst, Option.elim_some]
        exact ((hnb.trans hnb').after hused).before ((Calm.refl hnb'.table).emit rfl)
      next hinvalid =>
        simp only [Option.filter, hinvalid, decide_false, Bool.false_eq_true, if_false]
        exact (no_route_tallied hlookup.table h).after hlookup

theorem route_input_tallied {iif : Nat} {cb : InputCallbacks} (hs : s.routing_table.Sound)
    (h : s.route_input p header iif cb = some s') : Tallied (s.route_input_calls p header iif) s s' := by
  have hcalm := Calm.refl hs
  unfold route_input at h
  unfold route_input_calls
  split at h
  next hunused =>
    cases h
    rw [if_pos hunused]
    exact hcalm.tallied
  next hused =>
    rw [if_neg hused]
    split at h
    next => cases h
    next =>
      split at h
      next hdeferred =>
        rw [if_pos hdeferred]
        exact (deferred_route_output_calm hcalm h).tallied
      next hdeferred =>
        rw [if_neg hdeferred]
        split at h
        next hown =>
          cases h
          rw [if_pos hown]
          exact hcalm.tallied
        next hown =>
          rw [if_neg hown]
          split at h
          next hmulticast =>
            cases h
            rw [if_pos hmulticast]
            exact hcalm.tallied
          next hmulticast =>
            rw [if_neg hmulticast]
            split at h
            next hbroadcast =>
              cases h
              rw [if_pos hbroadcast]
              exact (broadcast_input_calm hcalm p).tallied
            next hbroadcast =>
              rw [if_neg hbroadcast]
              split at h
              next hlocal =>
                rw [if_pos hlocal]
                exact unicast_input_tallied hs h
              next hlocal =>
                rw [if_neg hlocal]
                split at h
                next hforwarding =>
                  cases h
                  rw [if_pos hforwarding]
                  exact (hcalm.emit rfl).tallied
                next hforwarding =>
                  rw [if_neg hforwarding]
                  exact forwarding_tallied hs h

end Data

theorem handle_tallied {e : Event} (hs : s.routing_table.Sound) (hexpire : e ≠ .rerr_rate_limit_timer_expire)
    (h : s.handle e = some s') : Tallied (s.rerr_calls e) s s' := by
  have hcalm := Calm.refl hs
  have hframe : ∀ {s' : RoutingProtocol}, s'.attrs = s.attrs → s'.rerr_count = s.rerr_count → s'.log = s.log →
      s'.routing_table = s.routing_table → Calm s s' :=
    fun hattrs hcount hlog htable => .of_table hattrs hcount hlog (htable ▸ hs)
  have hset : ∀ ipv4, Calm s { s with ipv4 := ipv4 } := fun _ => hframe rfl rfl rfl rfl
  cases e with
  | recv_aodv receiver sender ttl m =>
    rw [handle] at h
    split at h
    · exact recv_aodv_tallied hs h
    · cases h
  | route_output p header oif =>
    obtain ⟨r, hroute, rfl⟩ := Option.map_eq_some_iff.mp h
    exact (route_output_calm hcalm hroute).tallied
  | route_input p header iif cb => exact route_input_tallied hs h
  | send_request i =>
    obtain ⟨r, -, h⟩ := Option.bind_eq_some_iff.mp h
    have htaken : Calm s { s with deferred_requests := s.deferred_requests.eraseIdx i } := hframe rfl rfl rfl rfl
    exact (send_request_calm htaken h).tallied
  | route_request_timer_expire dst =>
    rw [handle] at h
    split at h
    · have hfired : Calm s { s with address_req_timer := s.address_req_timer.insert dst none } := hframe rfl rfl rfl rfl
      exact (route_request_timer_expire_calm hfired h).tallied
    · cases h
  | hello_timer_expire =>
    cases h
    exact (hello_timer_expire_calm hcalm).tallied
  | rreq_rate_limit_timer_expire =>
    rw [handle] at h
    split at h
    · cases h
      refine Calm.tallied ?_
      exact hframe rfl rfl rfl rfl
    · cases h
  | rerr_rate_limit_timer_expire => exact absurd rfl hexpire
  | neighbor_timer_expire => exact nb_purge_tallied hs h
  | tx_error addr =>
    have hclosed : Calm s { s with nb := s.nb.mark_closed addr } := hframe rfl rfl rfl rfl
    exact (nb_purge_tallied hclosed.table h).after hclosed
  | interface_up ipv4 i => exact (notify_interface_up_calm (hset ipv4) h).tallied
  | interface_down ipv4 i => exact (notify_interface_down_calm (hset ipv4) h).tallied
  | add_address ipv4 i => exact (notify_add_address_calm (hset ipv4) h).tallied
  | remove_address ipv4 i address => exact (notify_remove_address_calm (hset ipv4) h).tallied
  | _ =>
    cases h
    refine Calm.tallied ?_
    exact hframe rfl rfl rfl rfl

end Ns3.Aodv.RoutingProtocol
