import Ns3.Aodv.Protocol.Rerr.RateLimit
import Ns3.Aodv.Route.Search

namespace Ns3.Aodv

/-- The socket and the TTL of a request for `dst`. -/
def Effect.requestFor (dst : Ipv4Address) : Effect → Option (Ipv4Address × UInt8)
  | .send t => match t.message with
    | .rreq h => if h.dst = dst then some (t.source, t.ttl) else none
    | _ => none
  | _ => none

namespace RoutingProtocol

variable {s s₁ s' : RoutingProtocol} {dst : Ipv4Address}

section SendRequest

/-- The state has sent these requests for `dst`, and may have had other effects. -/
def Requests (dst : Ipv4Address) (s s' : RoutingProtocol) (sent : List (Ipv4Address × UInt8)) : Prop :=
  ∃ l, s'.log = s.log ++ l ∧ l.filterMap (Effect.requestFor dst) = sent

theorem Requests.trans {sent sent' : List (Ipv4Address × UInt8)} (h : Requests dst s s₁ sent)
    (h' : Requests dst s₁ s' sent') : Requests dst s s' (sent ++ sent') := by
  obtain ⟨l, hl, hsent⟩ := h
  obtain ⟨l', hl', hsent'⟩ := h'
  exact ⟨l ++ l', by rw [hl', hl, List.append_assoc], by rw [List.filterMap_append, hsent, hsent']⟩

theorem broadcast_request_requests (h : RreqHeader) (ttl : UInt16) (iface : Ipv4InterfaceAddress) :
    Requests h.dst s (broadcast_request h ttl s iface) [(iface.local_addr, ttl.toUInt8)] := by
  have hsent : ∀ source destination origin, Effect.requestFor h.dst
      (.send ⟨source, destination, ttl.toUInt8, .rreq { h with origin }⟩) = some (source, ttl.toUInt8) :=
    fun source destination origin => if_pos rfl
  unfold broadcast_request start_rtt_probe
  split
  · refine ⟨[_, _], List.append_assoc .., ?_⟩
    rw [List.filterMap_cons_none rfl, List.filterMap_cons_some (hsent ..), List.filterMap_nil]
  · refine ⟨[_], rfl, ?_⟩
    rw [List.filterMap_cons_some (hsent ..), List.filterMap_nil]

theorem broadcast_requests_requests (h : RreqHeader) (ttl : UInt16) (ifaces : List Ipv4InterfaceAddress) :
    Requests h.dst s (ifaces.foldl (broadcast_request h ttl) s)
      (ifaces.map fun iface => (iface.local_addr, ttl.toUInt8)) := by
  induction ifaces generalizing s with
  | nil => exact ⟨[], (List.append_nil s.log).symm, rfl⟩
  | cons iface rest ih => exact (broadcast_request_requests h ttl iface).trans ih

theorem broadcast_requests_frame (h : RreqHeader) (ttl : UInt16) (ifaces : List Ipv4InterfaceAddress) :
    (ifaces.foldl (broadcast_request h ttl) s).attrs = s.attrs ∧
      (ifaces.foldl (broadcast_request h ttl) s).now = s.now := by
  induction ifaces generalizing s with
  | nil => exact ⟨rfl, rfl⟩
  | cons iface rest ih =>
    have hturn : (broadcast_request h ttl s iface).attrs = s.attrs ∧ (broadcast_request h ttl s iface).now = s.now := by
      unfold broadcast_request start_rtt_probe
      split <;> exact ⟨rfl, rfl⟩
    rw [List.foldl_cons]
    exact ⟨ih.1.trans hturn.1, ih.2.trans hturn.2⟩

def next_ttl (s : RoutingProtocol) (dst : Ipv4Address) : UInt16 := request_ttl s.attrs (s.lookup_route dst).1

/-- The entry for `dst` after the next request. -/
def searched (s : RoutingProtocol) (dst : Ipv4Address) : RoutingTableEntry :=
  match (s.lookup_route dst).1 with
  | some rt => s.searching rt (s.next_ttl dst)
  | none => s.new_search dst (s.next_ttl dst)

def requests_counted (s : RoutingProtocol) (dst : Ipv4Address) : UInt8 := ((s.lookup_route dst).1.map (·.req_count)).getD 0

theorem searched_flag : (s.searched dst).flag = .in_search := by
  unfold searched
  split <;> rfl

theorem searched_hops : (s.searched dst).hops = s.next_ttl dst := by
  unfold searched
  split
  · rfl
  · exact (count_request_sameRoute s.attrs (s.next_ttl dst) _).hops

theorem searched_req_count : (s.searched dst).req_count =
    if (s.next_ttl dst).toUInt32 = s.attrs.net_diameter then s.requests_counted dst + 1 else s.requests_counted dst := by
  unfold searched requests_counted
  split
  next rt hrt =>
    simp only [hrt, Option.map_some, Option.getD_some]
    show (count_request _ _ _).req_count = _
    unfold count_request
    split <;> rfl
  next hrt =>
    simp only [hrt, Option.map_none, Option.getD_none]
    show (count_request _ _ _).req_count = _
    unfold count_request
    split <;> rfl

theorem search_entry_searched : ((s.lookup_route dst).2.search_entry dst (s.lookup_route dst).1
    (s.next_ttl dst)).routing_table.entries[dst]? = some (s.searched dst) := by
  have hstored : ∀ rt, rt.flag = .in_search → RoutingTable.stored_entry rt = rt :=
    fun rt hflag => if_neg (not_not.mpr hflag)
  cases hrt : (s.lookup_route dst).1 with
  | some rt =>
    have hkey := get_destination_of_lookup hrt
    have hfound : (s.lookup_route dst).2.routing_table.entries[dst]? = some rt := hrt
    have hsearched : s.searched dst = s.searching rt (s.next_ttl dst) := by
      unfold searched
      rw [hrt]
    rw [search_entry, routing_table_update, RoutingTable.getElem?_update,
      if_pos ⟨(searching_get_destination _ rt _).trans hkey, by rw [hfound]; simp⟩, hsearched]
    exact congrArg some (hstored _ rfl)
  | none =>
    have hsearched : s.searched dst = s.new_search dst (s.next_ttl dst) := by
      unfold searched
      rw [hrt]
    rw [search_entry, routing_table_add_route, RoutingTable.getElem?_add_route,
      if_pos ⟨new_search_get_destination _ dst _, purge_keeps_absent hrt⟩, hsearched]
    exact congrArg some (hstored _ rfl)

/-- What a request that is not put off leaves: the entry searched for, the timer for its
repetition, and the requests sent. -/
structure Requested (dst : Ipv4Address) (s : RoutingProtocol) (retry : Time) (s' : RoutingProtocol) : Prop where
  attrs : s'.attrs = s.attrs
  now : s'.now = s.now
  entry : (s'.lookup_route dst).1 = some (s.searched dst)
  timer : s'.address_req_timer[dst]? = some (some (s.now + retry))
  sent : Requests dst s s' (s.socket_addresses.map fun iface => (iface.local_addr, (s.next_ttl dst).toUInt8))

/-- Below the rate limit, `SendRequest` returns if the delay has a value. -/
theorem send_request_requested {d : Ipv4Address} (hbelow : s.rreq_count ≠ s.attrs.rreq_rate_limit) :
    ∃ f, s.send_request d = (rreq_retry_delay s.attrs (s.searched d)).map f ∧
      ∀ retry, Requested d s retry (f retry) := by
  unfold send_request
  rw [if_neg hbelow]
  simp only
  set s₁ := ({ s with rreq_count := s.rreq_count + 1 } : RoutingProtocol) with hs₁
  have hnext : request_ttl s.attrs (s₁.lookup_route d).1 = s.next_ttl d := rfl
  rw [hnext]
  have hentry : ((s₁.lookup_route d).2.search_entry d (s₁.lookup_route d).1
      (s.next_ttl d)).routing_table.entries[d]? = some (s.searched d) :=
    search_entry_searched (s := s₁)
  have hframe : ((s₁.lookup_route d).2.search_entry d (s₁.lookup_route d).1 (s.next_ttl d)).attrs = s.attrs ∧
      ((s₁.lookup_route d).2.search_entry d (s₁.lookup_route d).1 (s.next_ttl d)).now = s.now ∧
      ((s₁.lookup_route d).2.search_entry d (s₁.lookup_route d).1 (s.next_ttl d)).log = s.log ∧
      ((s₁.lookup_route d).2.search_entry d (s₁.lookup_route d).1 (s.next_ttl d)).socket_addresses =
        s.socket_addresses := by
    unfold search_entry
    split <;> exact ⟨rfl, rfl, rfl, rfl⟩
  set s₂ := (s₁.lookup_route d).2.search_entry d (s₁.lookup_route d).1 (s.next_ttl d) with hs₂
  set s₃ := ({ s₂ with seq_no := s₂.seq_no + 1, request_id := s₂.request_id + 1 } : RoutingProtocol) with hs₃
  set h := s₃.request_header d (s₁.lookup_route d).1 with hh
  set s₄ := s₃.socket_addresses.foldl (broadcast_request h (s.next_ttl d)) s₃ with hs₄
  have hframe₄ := broadcast_requests_frame (s := s₃) h (s.next_ttl d) s₃.socket_addresses
  have htable₄ : s₄.routing_table.entries[d]? = some (s.searched d) := by
    rw [hs₄, broadcast_requests_routing_table]
    exact hentry
  have hattrs : s₄.attrs = s.attrs := hframe₄.1.trans hframe.1
  have hnow : s₄.now = s.now := hframe₄.2.trans hframe.2.1
  have hlookup : (s₄.lookup_route d).1 = some (s.searched d) := purge_keeps_search htable₄ searched_flag s₄.now
  refine ⟨fun retry => { (s₄.lookup_route d).2 with
    address_req_timer := (s₄.lookup_route d).2.address_req_timer.insert d (some (s₄.now + retry)) }, ?_, ?_⟩
  · rw [schedule_rreq_retry, hlookup, Option.getD_some, lookup_route_attrs, hattrs]
  · intro retry
    refine ⟨hattrs, hnow, ?_, ?_, ?_⟩
    · exact purge_keeps_search hlookup searched_flag s₄.now
    · rw [Std.ExtTreeMap.getElem?_insert_self, hnow]
    · obtain ⟨l, hl, hsent⟩ := broadcast_requests_requests (s := s₃) h (s.next_ttl d) s₃.socket_addresses
      have hlog : s₃.log = s.log := hframe.2.2.1
      have hsockets : s₃.socket_addresses = s.socket_addresses := hframe.2.2.2
      refine ⟨l, ?_, ?_⟩
      · rw [← hlog]
        exact hl
      · rw [← hsockets]
        exact hsent

end SendRequest

section Expire

/-- The search for `dst` goes on when its timer expires. -/
def Continues (s : RoutingProtocol) (dst : Ipv4Address) : Prop :=
  ∃ e, (s.lookup_route dst).1 = some e ∧ e.flag = .in_search ∧ e.req_count.toUInt32 ≠ s.attrs.rreq_retries

/-- Nothing of the search for `dst` is left. -/
structure Forgotten (dst : Ipv4Address) (s : RoutingProtocol) : Prop where
  entry : s.routing_table.entries[dst]? = none
  timer : s.address_req_timer[dst]? = none
  queue : ∀ e ∈ s.queue.queue, e.header.destination ≠ dst

/-- The timer for `dst` expires now. -/
def Due (s : RoutingProtocol) (dst : Ipv4Address) : Prop := s.address_req_timer[dst]? = some (some s.now)

theorem expire_of_due (hdue : s.Due dst) : s.handle (.route_request_timer_expire dst) =
    route_request_timer_expire { s with address_req_timer := s.address_req_timer.insert dst none } dst := by
  rw [Due] at hdue
  rw [handle, if_pos hdue]

theorem lookup_route_twice {e : RoutingTableEntry} (he : (s.lookup_route dst).1 = some e) (hin : e.flag = .in_search) :
    ((s.lookup_route dst).2.lookup_route dst).1 = some e := purge_keeps_search he hin s.now

theorem expire_of_continues (hdue : s.Due dst) (hcontinues : s.Continues dst) :
    s.handle (.route_request_timer_expire dst) =
      ({ s with address_req_timer := s.address_req_timer.insert dst none }.lookup_route dst).2.send_request dst := by
  obtain ⟨e, he, hin, hcount⟩ := hcontinues
  rw [expire_of_due hdue, route_request_timer_expire]
  have he' : (({ s with address_req_timer := s.address_req_timer.insert dst none } : RoutingProtocol).lookup_route dst).1 =
      some e := he
  simp only [he', Option.any_some, Option.getD_some, hin, hcount, reduceCtorEq, decide_false, Bool.false_eq_true,
    if_false, if_true]

/-- The search ends when its requests at the network diameter are used up. -/
theorem expire_of_not_continues {e : RoutingTableEntry} (hdue : s.Due dst) (he : (s.lookup_route dst).1 = some e)
    (hin : e.flag = .in_search) (hstop : ¬ s.Continues dst) :
    ∃ s', s.handle (.route_request_timer_expire dst) = some s' ∧ s'.attrs = s.attrs ∧ Forgotten dst s' := by
  have hcount : e.req_count.toUInt32 = s.attrs.rreq_retries := by
    by_contra hcount
    exact hstop ⟨e, he, hin, hcount⟩
  rw [expire_of_due hdue, route_request_timer_expire]
  have he' : (({ s with address_req_timer := s.address_req_timer.insert dst none } : RoutingProtocol).lookup_route dst).1 =
      some e := he
  simp only [he', Option.any_some, Option.getD_some, hin, hcount, reduceCtorEq, decide_false, Bool.false_eq_true,
    if_false, if_true]
  refine ⟨_, rfl, rfl, ?_, ?_, ?_⟩
  · show (RoutingTable.delete_route _ _ dst).entries[dst]? = none
    rw [RoutingTable.getElem?_delete_route, if_pos rfl]
  · show (Std.ExtTreeMap.erase _ dst)[dst]? = none
    rw [Std.ExtTreeMap.getElem?_erase_self]
  · intro q hq
    exact of_decide_eq_true (List.mem_filter.mp hq).2

end Expire

section Discovery

/-- What happens on the node besides the discovery of `dst`, while no route for it becomes
known: its timer and its entry stay as they are, but an inactive entry may expire. The
timer's time does not pass before it has expired. -/
structure Elsewhere (dst : Ipv4Address) (s s' : RoutingProtocol) : Prop where
  attrs : s'.attrs = s.attrs
  now : s.now ≤ s'.now
  on_time : ∀ due, s.address_req_timer[dst]? = some (some due) → s.now ≤ due → s'.now ≤ due
  timer : s'.address_req_timer[dst]? = s.address_req_timer[dst]?
  entry : (s'.lookup_route dst).1 = (s.lookup_route dst).1 ∨
    (s'.lookup_route dst).1 = none ∧ ∃ e, (s.lookup_route dst).1 = some e ∧ e.flag = .invalid

/-- A discovery is about to call `SendRequest`, waits for an answer, or has ended. -/
inductive Phase
  | requesting | waiting | ended
deriving DecidableEq, Repr

def Phase.call (dst : Ipv4Address) (s : RoutingProtocol) : Phase → Option RoutingProtocol
  | requesting => s.send_request dst
  | waiting => s.handle (.route_request_timer_expire dst)
  | ended => none

/-- What the discovery runs next makes a request. -/
def Phase.Goes (dst : Ipv4Address) (s : RoutingProtocol) (phase : Phase) : Prop :=
  phase = requesting ∨ phase = waiting ∧ s.Continues dst

/-- A request of a discovery: its TTL, the time after which it is repeated, the sockets of
the node, and what was sent. -/
structure Round where
  ttl : UInt16
  delay : Time
  sockets : List Ipv4InterfaceAddress
  sent : List (Ipv4Address × UInt8)

def round (dst : Ipv4Address) (s s' : RoutingProtocol) : Round where
  ttl := s.next_ttl dst
  delay := ((s'.address_req_timer[dst]?.bind id).map (· - s'.now)).getD 0
  sockets := s.socket_addresses
  sent := (s'.log.drop s.log.length).filterMap (Effect.requestFor dst)

/-- The discoveries of `dst` from a state in which `SendRequest` is called for it, with the
requests they have made. A call at the rate limit is put off. -/
inductive Discovery (dst : Ipv4Address) (s₀ : RoutingProtocol) : List Round → Phase → RoutingProtocol → Prop
  | start : Discovery dst s₀ [] .requesting s₀
  | elsewhere {rounds phase s s'} (h : Discovery dst s₀ rounds phase s) (hopen : phase ≠ .ended)
      (helsewhere : Elsewhere dst s s') : Discovery dst s₀ rounds phase s'
  | put_off {rounds phase s s'} (h : Discovery dst s₀ rounds phase s) (hgoes : phase.Goes dst s)
      (hlimit : s.rreq_count = s.attrs.rreq_rate_limit) (hcall : phase.call dst s = some s') :
      Discovery dst s₀ rounds .requesting s'
  | request {rounds phase s s'} (h : Discovery dst s₀ rounds phase s) (hgoes : phase.Goes dst s)
      (hbelow : s.rreq_count ≠ s.attrs.rreq_rate_limit) (hcall : phase.call dst s = some s') :
      Discovery dst s₀ (rounds ++ [round dst s s']) .waiting s'
  | stop {rounds s s'} (h : Discovery dst s₀ rounds .waiting s) (hstop : ¬ s.Continues dst)
      (hcall : Phase.call dst s .waiting = some s') : Discovery dst s₀ rounds .ended s'

end Discovery

end RoutingProtocol

end Ns3.Aodv
