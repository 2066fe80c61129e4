import Ns3.Aodv.Protocol.Run

namespace Ns3.Aodv.RoutingProtocol

open RoutingTable (Decays)
open RoutingTableEntry (DecaysTo)

variable {c : Cause} {s s' : RoutingProtocol} {dst : Ipv4Address}

/-- The table has an active route for `dst` that has not expired. -/
def HasRoute (s : RoutingProtocol) (dst : Ipv4Address) : Prop :=
  ∃ e, s.routing_table.entries[dst]? = some e ∧ e.flag = .valid ∧ 0 ≤ e.get_life_time s.now

/-- No active, unexpired route has become a search. -/
def SparesRoutes (s s' : RoutingProtocol) : Prop :=
  ∀ d, s.HasRoute d → ∀ e', s'.routing_table.entries[d]? = some e' → e'.flag ≠ .in_search

/-- Every search of `s'` goes on since `s`. -/
def NoNewSearch (s s' : RoutingProtocol) : Prop :=
  ∀ (d : Ipv4Address) (e' : RoutingTableEntry), s'.routing_table.entries[d]? = some e' → e'.flag = .in_search →
    ∃ e, s.routing_table.entries[d]? = some e ∧ e.flag = .in_search

theorem NoNewSearch.refl (s : RoutingProtocol) : NoNewSearch s s := fun _ e' he' hsearch => ⟨e', he', hsearch⟩

theorem NoNewSearch.of_decays (h : Decays s.routing_table s'.routing_table) : NoNewSearch s s' := by
  intro d e' he' hsearch
  obtain ⟨e, he, hdecay⟩ := h.entry d e' he'
  exact ⟨e, he, hdecay.in_search hsearch⟩

theorem NoNewSearch.spares (h : NoNewSearch s s') : SparesRoutes s s' := by
  rintro d ⟨e, he, hvalid, _⟩ e' he' hsearch
  obtain ⟨e₀, he₀, hsearch₀⟩ := h d e' he' hsearch
  obtain rfl := Option.some.inj (he.symm.trans he₀)
  rw [hvalid] at hsearch₀
  cases hsearch₀

theorem Change.no_new_search (hsearch : ¬ c.Searches) {d : Ipv4Address} {old new : Option RoutingTableEntry}
    (h : Change c s d old new) {e' : RoutingTableEntry} (he' : new = some e') (hin : e'.flag = .in_search) :
    ∃ e, old = some e ∧ e.flag = .in_search := by
  cases h with
  | decay hdecay =>
    obtain ⟨e, he, hdecays⟩ := hdecay e' he'
    exact ⟨e, he, hdecays.in_search hin⟩
  | search hsearches => exact absurd hsearches hsearch
  | search_new hsearches => exact absurd hsearches hsearch
  | overwrite h =>
    cases he'
    exact absurd hin h.flag
  | reverse _ _ _ _ _ _ _ hflag =>
    cases he'
    rw [hin] at hflag
    cases old with
    | none => cases hflag
    | some e => exact ⟨e, rfl, hflag.symm⟩
  | _ =>
    cases he'
    simp_all

theorem Action.no_new_search (hsearch : ¬ c.Searches) (h : Action c s s') : NoNewSearch s s' := by
  have hsame : s'.routing_table = s.routing_table → NoNewSearch s s' := by
    intro htable d e' he' hin
    exact ⟨e', by rw [← htable]; exact he', hin⟩
  cases h with
  | table hlifetime h => exact fun d e' he' hin => (h d).no_new_search hsearch he' hin
  | internal h => exact hsame (by rw [h])
  | detect h => exact hsame (by rw [h.frame])
  | configure h => exact hsame (by rw [h])
  | _ => exact hsame rfl

theorem Actions.no_new_search (hsearch : ¬ c.Searches) (h : Actions c s s') : NoNewSearch s s' := by
  refine h.invariant (I := NoNewSearch s) ?_ (NoNewSearch.refl s)
  intro s₁ s₂ hs haction d e' he' hin
  obtain ⟨e₁, he₁, hin₁⟩ := haction.no_new_search hsearch d e' he' hin
  exact hs d e₁ he₁ hin₁

section SendRequest

theorem HasRoute.lookup (h : s.HasRoute dst) : (s.lookup_route dst).1.any (·.flag = .valid) = true := by
  obtain ⟨e, he, hvalid, hlive⟩ := h
  have hkept : RoutingTable.purge_entry s.now s.routing_table.bad_link_lifetime e = some e := by
    rw [RoutingTable.purge_entry, if_neg (not_lt.mpr hlive)]
  simp only [lookup_route, RoutingTable.lookup_route, RoutingTable.getElem?_purge, he, Option.bind_some, hkept,
    Option.any_some, decide_eq_true_eq]
  exact hvalid

theorem hasRoute_lookup_route (d : Ipv4Address) : (s.lookup_route d).2.HasRoute dst ↔ s.HasRoute dst := by
  constructor
  · rintro ⟨e', he', hvalid, hlive⟩
    rw [routing_table_lookup_route, RoutingTable.getElem?_purge, Option.bind_eq_some_iff] at he'
    obtain ⟨e, he, hpurge⟩ := he'
    have hdecay := RoutingTable.purge_entry_decays hpurge
    have hvalid₀ := hdecay.valid hvalid
    unfold RoutingTable.purge_entry at hpurge
    split at hpurge
    · simp only [hvalid₀, Option.some.injEq] at hpurge
      simp [← hpurge, RoutingTableEntry.invalidate, hvalid₀] at hvalid
    · obtain rfl := Option.some.inj hpurge
      exact ⟨_, he, hvalid, hlive⟩
  · rintro ⟨e, he, hvalid, hlive⟩
    refine ⟨e, ?_, hvalid, hlive⟩
    rw [routing_table_lookup_route, RoutingTable.getElem?_purge, he, Option.bind_some, RoutingTable.purge_entry,
      if_neg (not_lt.mpr hlive)]

theorem purge_keeps_search {t : RoutingTable} {e : RoutingTableEntry} (he : t.entries[dst]? = some e)
    (hin : e.flag = .in_search) (now : Time) : (t.purge now).entries[dst]? = some e := by
  rw [RoutingTable.getElem?_purge, he, Option.bind_some, RoutingTable.purge_entry]
  split
  · simp [hin]
  · rfl

theorem broadcast_requests_routing_table (h : RreqHeader) (ttl : UInt16) (ifaces : List Ipv4InterfaceAddress) :
    (ifaces.foldl (broadcast_request h ttl) s).routing_table = s.routing_table := by
  induction ifaces generalizing s with
  | nil => rfl
  | cons iface rest ih => rw [List.foldl_cons, ih, (broadcast_request_frame h ttl iface).1]

theorem schedule_rreq_retry_routing_table (h : s.schedule_rreq_retry dst = some s') :
    s'.routing_table = (s.lookup_route dst).2.routing_table := by
  obtain ⟨retry, _, rfl⟩ := Option.map_eq_some_iff.mp h
  rfl

theorem search_entry_entries {rt : Option RoutingTableEntry} (ttl : UInt16)
    (hrt : s.routing_table.entries[dst]? = rt) (hpurged : rt = none → (s.routing_table.purge s.now).entries[dst]? = none) :
    (∃ e, (s.search_entry dst rt ttl).routing_table.entries[dst]? = some e ∧ e.flag = .in_search) ∧
      ∀ d, d ≠ dst → ∀ e, (s.search_entry dst rt ttl).routing_table.entries[d]? = some e →
        ∃ e₀, s.routing_table.entries[d]? = some e₀ ∧ DecaysTo e₀ e := by
  cases rt with
  | some rt =>
    have hkey : (s.searching rt ttl).get_destination = dst :=
      (s.searching_get_destination rt ttl).trans (s.routing_table.keyed dst rt hrt)
    refine ⟨⟨_, ?_, (stored_searching s rt ttl).2.2.2⟩, fun d hd e he => ?_⟩
    · rw [search_entry, routing_table_update, RoutingTable.getElem?_update, if_pos ⟨hkey, by simp [hrt]⟩]
    · rw [search_entry, routing_table_update, RoutingTable.getElem?_update, if_neg (by simp [hkey, hd.symm])] at he
      exact ⟨e, he, DecaysTo.refl e⟩
  | none =>
    have hkey := s.new_search_get_destination dst ttl
    refine ⟨⟨_, ?_, (RoutingTable.stored_entry_flag (s.new_search dst ttl)).trans rfl⟩, fun d hd e he => ?_⟩
    · rw [search_entry, routing_table_add_route, RoutingTable.getElem?_add_route, if_pos ⟨hkey, hpurged rfl⟩]
    · rw [search_entry, routing_table_add_route, RoutingTable.getElem?_add_route, if_neg (by simp [hkey, hd.symm])] at he
      exact (s.routing_table.purge_decays s.now).entry d e he

/-- Below the rate limit `SendRequest` makes its destination searched for, whatever the
table holds for it, and no other one. -/
theorem send_request_searches (hbelow : s.rreq_count ≠ s.attrs.rreq_rate_limit)
    (h : s.send_request dst = some s') :
    (∃ e, s'.routing_table.entries[dst]? = some e ∧ e.flag = .in_search) ∧
      ∀ d, d ≠ dst → ∀ e, s'.routing_table.entries[d]? = some e →
        ∃ e₀, s.routing_table.entries[d]? = some e₀ ∧ DecaysTo e₀ e := by
  unfold send_request at h
  rw [if_neg hbelow] at h
  simp only at h
  have htable := schedule_rreq_retry_routing_table h
  rw [routing_table_lookup_route, broadcast_requests_routing_table] at htable
  set r := ({ s with rreq_count := s.rreq_count + 1 } : RoutingProtocol).lookup_route dst with hr
  set ttl := request_ttl s.attrs r.1 with httl
  have hentry : r.2.routing_table.entries[dst]? = r.1 := rfl
  obtain ⟨⟨e, he, hin⟩, hothers⟩ := search_entry_entries (s := r.2) ttl hentry
    fun hnone => purge_keeps_absent (hentry.trans hnone)
  have hpurged := fun (t : Time) (s₁ : RoutingProtocol) => s₁.routing_table.purge_decays t
  rw [htable]
  refine ⟨⟨e, ?_, hin⟩, fun d hd e' he' => ?_⟩
  · exact purge_keeps_search he hin _
  · obtain ⟨e₁, he₁, hdecay₁⟩ := (hpurged _ (r.2.search_entry dst r.1 ttl)).entry d e' he'
    obtain ⟨e₂, he₂, hdecay₂⟩ := hothers d hd e₁ he₁
    obtain ⟨e₃, he₃, hdecay₃⟩ := (s.routing_table.purge_decays s.now).entry d e₂ he₂
    exact ⟨e₃, he₃, hdecay₃.trans (hdecay₂.trans hdecay₁)⟩

/-- A request below the rate limit spares the routes exactly when its destination has none. -/
theorem send_request_spares (h : s.send_request dst = some s') :
    SparesRoutes s s' ↔ (s.rreq_count ≠ s.attrs.rreq_rate_limit → ¬ s.HasRoute dst) := by
  constructor
  · intro hspares hbelow hroute
    obtain ⟨⟨e, he, hin⟩, _⟩ := send_request_searches hbelow h
    exact hspares dst hroute e he hin
  · intro hunrouted
    by_cases hlimit : s.rreq_count = s.attrs.rreq_rate_limit
    · rw [send_request, if_pos hlimit] at h
      cases h
      exact (NoNewSearch.refl s).spares
    · obtain ⟨_, hothers⟩ := send_request_searches hlimit h
      intro d hroute e' he' hin
      have hd : d ≠ dst := fun heq => hunrouted hlimit (heq ▸ hroute)
      obtain ⟨e, he, hdecay⟩ := hothers d hd e' he'
      obtain ⟨e₀, he₀, hvalid, _⟩ := hroute
      obtain rfl := Option.some.inj (he.symm.trans he₀)
      rw [hdecay.in_search hin] at hvalid
      cases hvalid

end SendRequest

/-- The packet of the entry waits in the queue. -/
def Waits (s : RoutingProtocol) (p : Packet) (header : Ipv4Header) : Prop :=
  ∃ e ∈ (s.queue.purge s.now).queue, e.packet.uid = p.uid ∧ e.header.destination = header.destination

/-- The requests that an event makes are for destinations without a route: below the
rate limit, a packet that `DeferredRouteOutput` queues has no route, and neither has
the destination of a request that was put off. -/
def Unrouted (s : RoutingProtocol) (e : Time × Event) : Prop :=
  match e.2 with
  | .route_input p header iif _ =>
    iif = 0 → p.tag ≠ none → s.socket_addresses ≠ [] → ¬ Waits { s with now := e.1 } p header →
      s.rreq_count ≠ s.attrs.rreq_rate_limit → ¬ HasRoute { s with now := e.1 } header.destination
  | .send_request i =>
    ∀ r, s.deferred_requests[i]? = some r → s.rreq_count ≠ s.attrs.rreq_rate_limit →
      ¬ HasRoute { s with now := e.1 } r.2
  | _ => True

/-- `SparesRoutes` depends on the routing tables and the clock only. -/
theorem SparesRoutes.congr {s₁ s₁' : RoutingProtocol} (htable : s₁.routing_table = s.routing_table)
    (hnow : s₁.now = s.now) (htable' : s₁'.routing_table = s'.routing_table) :
    SparesRoutes s₁ s₁' ↔ SparesRoutes s s' := by
  simp only [SparesRoutes, HasRoute, htable, hnow, htable']

theorem enqueue_result {q : RequestQueue} {now : Time} {entry : QueueEntry} {o : RequestQueue.Outcome Bool}
    (h : q.enqueue now entry = some o) :
    o.result = !(q.purge now).queue.any (RequestQueue.same_packet · entry) := by
  rw [RequestQueue.enqueue] at h
  simp only at h
  split at h
  next hsame =>
    cases h
    simp [hsame]
  next hsame =>
    split at h
    · split at h
      · cases h
      · cases h
        simp [Bool.eq_false_iff.mpr hsame]
    · cases h
      simp [Bool.eq_false_iff.mpr hsame]

theorem request_route_spares (h : s.request_route dst = some s') :
    SparesRoutes s s' ↔ (s.rreq_count ≠ s.attrs.rreq_rate_limit → ¬ s.HasRoute dst) := by
  unfold request_route at h
  simp only at h
  have hlookup : SparesRoutes s s' ↔ SparesRoutes (s.lookup_route dst).2 s' := by
    simp only [SparesRoutes, hasRoute_lookup_route]
  split at h
  next hin =>
    cases h
    refine iff_of_true (NoNewSearch.of_decays (s.routing_table.purge_decays s.now)).spares fun _ hroute => ?_
    have hvalid := hroute.lookup
    cases hrt : (s.lookup_route dst).1 with
    | none => simp [hrt] at hin
    | some e =>
      simp only [hrt, Option.any_some, decide_eq_true_eq] at hin hvalid
      rw [hin] at hvalid
      cases hvalid
  next => rw [hlookup, send_request_spares h, hasRoute_lookup_route, lookup_route_attrs, lookup_route_rreq_count]

theorem deferred_route_output_spares {p : Packet} {header : Ipv4Header} {ucb ecb : Callback}
    (h : s.deferred_route_output p header ucb ecb = some s') :
    SparesRoutes s s' ↔ (¬ s.Waits p header → s.rreq_count ≠ s.attrs.rreq_rate_limit →
      ¬ s.HasRoute header.destination) := by
  unfold deferred_route_output at h
  obtain ⟨o, henqueue, h⟩ := Option.bind_eq_some_iff.mp h
  have hresult := enqueue_result henqueue
  have hwaits : o.result = true ↔ ¬ s.Waits p header := by
    rw [hresult, Bool.not_eq_true', List.any_eq_false]
    simp [Waits, RequestQueue.same_packet]
  split at h
  next htrue =>
    have hspares := request_route_spares h
    have htable : (({ s with queue := o.queue }).report_dropped o.dropped).routing_table = s.routing_table := rfl
    simp only [SparesRoutes.congr htable rfl rfl] at hspares
    exact hspares.trans ⟨fun hroute _ => hroute, fun hroute => hroute (hwaits.mp htrue)⟩
  next hfalse =>
    cases h
    have hw : s.Waits p header := not_not.mp fun hnot => hfalse (hwaits.mpr hnot)
    exact iff_of_true (NoNewSearch.of_decays (Decays.refl _)).spares fun hnot => absurd hw hnot

theorem route_input_spares {p : Packet} {header : Ipv4Header} {iif : Nat} {cb : InputCallbacks}
    (h : s.route_input p header iif cb = some s') :
    SparesRoutes s s' ↔ (iif = 0 → p.tag ≠ none → s.socket_addresses ≠ [] → ¬ s.Waits p header →
      s.rreq_count ≠ s.attrs.rreq_rate_limit → ¬ s.HasRoute header.destination) := by
  by_cases hdeferred : iif = 0 ∧ p.tag ≠ none
  · rcases route_input_deferred hdeferred h with ⟨hunused, rfl⟩ | ⟨hused, hroute⟩
    · exact iff_of_true (NoNewSearch.refl s').spares fun _ _ hused => absurd hunused hused
    · rw [deferred_route_output_spares hroute]
      exact ⟨fun hcond _ _ _ => hcond, fun hcond => hcond hdeferred.1 hdeferred.2 hused⟩
  · -- The other branches do not search: their actions need a cause that forwards only.
    have hforwards : Cause.Forwards ⟨s, .recv_aodv 0 0 0 (.rrep { dst := 0, origin := 1 })⟩ := by
      simp [Cause.Forwards]
    have hactions := route_input_undeferred_actions hforwards hdeferred h
    exact iff_of_true (hactions.no_new_search (by simp [Cause.Searches])).spares
      fun hiif htag => absurd ⟨hiif, htag⟩ hdeferred

theorem route_request_timer_expire_spares {timers : Std.ExtTreeMap Ipv4Address (Option Time)}
    (h : route_request_timer_expire { s with address_req_timer := timers } dst = some s') : SparesRoutes s s' := by
  unfold route_request_timer_expire at h
  simp only at h
  have hlookup : Decays s.routing_table (s.lookup_route dst).2.routing_table := s.routing_table.purge_decays s.now
  split at h
  next =>
    cases h
    exact (NoNewSearch.of_decays hlookup).spares
  next hinvalid =>
    have hdeleted : Decays s.routing_table ((s.lookup_route dst).2.routing_table.delete_route s.now dst) :=
      hlookup.trans (RoutingTable.delete_route_decays _ s.now dst)
    split at h
    next =>
      cases h
      exact (NoNewSearch.of_decays hdeleted).spares
    next =>
      split at h
      next =>
        have hunrouted : ¬ s.HasRoute dst := fun hroute => hinvalid hroute.lookup
        have hspares := (send_request_spares h).mpr fun _ hroute =>
          hunrouted ((hasRoute_lookup_route (s := s) dst).mp hroute)
        intro d hroute
        exact hspares d ((hasRoute_lookup_route (s := s) dst).mpr hroute)
      next =>
        cases h
        exact (NoNewSearch.of_decays hdeleted).spares

/-- An event spares the active routes exactly when it requests none of their destinations. -/
theorem timed_step_spares {e : Time × Event} (h : s.timed_step e = some s') :
    SparesRoutes { s with now := e.1 } s' ↔ Unrouted s e := by
  obtain ⟨t, e⟩ := e
  unfold timed_step step at h
  split at h
  next =>
    have hquiet : ¬ Cause.Searches ⟨{ s with now := t }, e⟩ → SparesRoutes { s with now := t } s' :=
      fun hsearch => ((handle_actions h).no_new_search hsearch).spares
    cases e with
    | route_input p header iif cb => exact route_input_spares h
    | send_request i =>
      obtain ⟨r, hr, h⟩ := Option.bind_eq_some_iff.mp h
      obtain ⟨hr, _⟩ := Option.filter_eq_some_iff.mp hr
      refine ((SparesRoutes.congr rfl rfl rfl).symm.trans (send_request_spares h)).trans
        ⟨fun hroute r' hr' => ?_, fun hroute => hroute r hr⟩
      obtain rfl := Option.some.inj (hr.symm.trans hr')
      exact hroute
    | route_request_timer_expire dst =>
      rw [handle] at h
      split at h
      · exact iff_of_true (route_request_timer_expire_spares h) trivial
      · cases h
    | _ => exact iff_of_true (hquiet (by simp [Cause.Searches])) trivial
  next => cases h

/-- The steps of a run spare every active, unexpired route exactly when, at each of them,
the destinations requested have none. -/
theorem requests_spare_routes {steps : List (RoutingProtocol × (Time × Event) × RoutingProtocol)}
    (htrace : Transition.Trace Initial timed_step steps s) :
    (∀ x ∈ steps, SparesRoutes { x.1 with now := x.2.1.1 } x.2.2) ↔ ∀ x ∈ steps, Unrouted x.1 x.2.1 := by
  obtain ⟨_, hsteps⟩ := (htrace.reachable fun _ _ => trivial :
    Transition.Reachable Initial timed_step Transition.Always s ∧ _)
  exact forall₂_congr fun x hx => timed_step_spares (hsteps x hx).2

theorem requests_spare_routes_station :
    ∃ steps s, Transition.Trace Initial timed_step steps s ∧ steps.map (·.2.1) = Station.discovery ∧
      ((∀ x ∈ steps, SparesRoutes { x.1 with now := x.2.1.1 } x.2.2) ↔ ∀ x ∈ steps, Unrouted x.1 x.2.1) := by
  obtain ⟨s, hs⟩ := Option.isSome_iff_exists.mp
    (show (Transition.execute timed_step Transition.Always Station.usual Station.discovery).isSome = true by
      decide +kernel)
  obtain ⟨steps, htrace, hevents⟩ := (Transition.Trace.init Station.usual_initial).execute hs
  rw [List.nil_append] at htrace
  exact ⟨steps, s, htrace, hevents, requests_spare_routes htrace⟩

/-- A packet that was looped back before the discovery ended makes a request for the
destination it has found. -/
theorem request_destroys_route : ∃ s s' t e e', Run Transition.Always s ∧ s.HasRoute Station.destination ∧
    s.routing_table.entries[Station.destination]? = some e ∧ e.flag = .valid ∧ 0 ≤ e.get_life_time t ∧
    s.step t (.route_input { Station.packet with uid := 2 } Station.header 0 ⟨0, 1, false⟩) = some s' ∧
    s'.routing_table.entries[Station.destination]? = some e' ∧ e'.flag = .in_search := by
  have hrun : (Transition.execute timed_step Transition.Always Station.usual Station.discovery).bind (fun s =>
      (s.step (milliseconds 2) (.route_input { Station.packet with uid := 2 } Station.header 0 ⟨0, 1, false⟩)).map
        fun s' => (s.now, s.routing_table.entries[Station.destination]?.map fun e => (e.flag, e.life_time),
          s'.routing_table.entries[Station.destination]?.map (·.flag))) =
      some (milliseconds 1, some (.valid, milliseconds 11201), some .in_search) := by decide +kernel
  obtain ⟨s, hs, hrun⟩ := Option.bind_eq_some_iff.mp hrun
  obtain ⟨s', hstep, hfacts⟩ := Option.map_eq_some_iff.mp hrun
  simp only [Prod.mk.injEq] at hfacts
  obtain ⟨hnow, hbefore, hafter⟩ := hfacts
  obtain ⟨e, he, hroute⟩ := Option.map_eq_some_iff.mp hbefore
  obtain ⟨e', he', hin⟩ := Option.map_eq_some_iff.mp hafter
  simp only [Prod.mk.injEq] at hroute
  refine ⟨s, s', milliseconds 2, e, e', (Transition.Reachable.init Station.usual_initial).execute hs,
    ⟨e, he, hroute.1, ?_⟩, he, hroute.1, ?_, hstep, he', hin⟩
  · rw [RoutingTableEntry.get_life_time, hroute.2, hnow]
    decide
  · rw [RoutingTableEntry.get_life_time, hroute.2]
    decide

end Ns3.Aodv.RoutingProtocol
