import Ns3.Aodv.Route.Discovery

namespace Ns3.Aodv.RoutingProtocol

variable {s s' s₀ : RoutingProtocol} {dst : Ipv4Address} {phase : Phase} {rounds : List Round} {a : Attributes}

section Call

theorem due_of_call (hcall : Phase.call dst s .waiting = some s') : s.Due dst := by
  simp only [Phase.call, handle] at hcall
  split at hcall
  next hdue => exact hdue
  next => cases hcall

/-- What a call at the rate limit leaves: it is made again once the count has been reset. -/
structure PutOff (dst : Ipv4Address) (s s' : RoutingProtocol) : Prop where
  attrs : s'.attrs = s.attrs
  entry : (s'.lookup_route dst).1 = (s.lookup_route dst).1
  again : ∃ due, s.now < due ∧ s.rreq_rate_limit_timer < due ∧ (due, dst) ∈ s'.deferred_requests

theorem send_request_put_off {d : Ipv4Address} (hlimit : s.rreq_count = s.attrs.rreq_rate_limit) :
    ∃ s', s.send_request d = some s' ∧ PutOff d s s' := by
  have hlater : max s.now s.rreq_rate_limit_timer < max s.now s.rreq_rate_limit_timer + microseconds 100 :=
    lt_add_of_pos_right _ (by decide)
  rw [send_request, if_pos hlimit]
  refine ⟨_, rfl, rfl, rfl, max s.now s.rreq_rate_limit_timer + microseconds 100, ?_, ?_, by simp⟩
  · exact (le_max_left s.now s.rreq_rate_limit_timer).trans_lt hlater
  · exact (le_max_right s.now s.rreq_rate_limit_timer).trans_lt hlater

/-- A state that differs from another in the table, without a difference for `dst`, and in the timers. -/
structure SameCall (dst : Ipv4Address) (s s₁ : RoutingProtocol) : Prop where
  attrs : s₁.attrs = s.attrs
  now : s₁.now = s.now
  log : s₁.log = s.log
  sockets : s₁.socket_addresses = s.socket_addresses
  count : s₁.rreq_count = s.rreq_count
  reset : s₁.rreq_rate_limit_timer = s.rreq_rate_limit_timer
  entry : (s₁.lookup_route dst).1 = (s.lookup_route dst).1

theorem call_waiting (hdue : s.Due dst) (hcontinues : s.Continues dst) :
    ∃ s₁ : RoutingProtocol, Phase.call dst s .waiting = s₁.send_request dst ∧ SameCall dst s s₁ := by
  refine ⟨_, expire_of_continues hdue hcontinues, rfl, rfl, rfl, rfl, rfl, rfl, ?_⟩
  obtain ⟨e, he, hin, -⟩ := hcontinues
  exact (lookup_route_twice he hin).trans he.symm

theorem SameCall.next_ttl {s₁ : RoutingProtocol} (h : SameCall dst s s₁) : s₁.next_ttl dst = s.next_ttl dst := by
  rw [RoutingProtocol.next_ttl, RoutingProtocol.next_ttl, h.attrs, h.entry]

theorem SameCall.searched {s₁ : RoutingProtocol} (h : SameCall dst s s₁) : s₁.searched dst = s.searched dst := by
  unfold RoutingProtocol.searched searching new_search
  simp only [h.entry, h.next_ttl, h.attrs, h.now]

theorem call_put_off (hgoes : phase.Goes dst s) (hdue : phase = .waiting → s.Due dst)
    (hlimit : s.rreq_count = s.attrs.rreq_rate_limit) : ∃ s', phase.call dst s = some s' ∧ PutOff dst s s' := by
  rcases hgoes with rfl | ⟨rfl, hcontinues⟩
  · exact send_request_put_off hlimit
  · obtain ⟨s₁, hcall, hsame⟩ := call_waiting (hdue rfl) hcontinues
    obtain ⟨s', hsend, hput⟩ := send_request_put_off (s := s₁) (d := dst) (by rw [hsame.count, hsame.attrs, hlimit])
    obtain ⟨due, hnow, hreset, hagain⟩ := hput.again
    rw [hsame.now] at hnow
    rw [hsame.reset] at hreset
    exact ⟨s', hcall.trans hsend, hput.attrs.trans hsame.attrs, hput.entry.trans hsame.entry,
      due, hnow, hreset, hagain⟩

/-- Below the rate limit, the next request is made if the delay after it has a value. -/
theorem call_requested (hgoes : phase.Goes dst s) (hdue : phase = .waiting → s.Due dst)
    (hbelow : s.rreq_count ≠ s.attrs.rreq_rate_limit) :
    ∃ f, phase.call dst s = (rreq_retry_delay s.attrs (s.searched dst)).map f ∧
      ∀ retry, Requested dst s retry (f retry) := by
  rcases hgoes with rfl | ⟨rfl, hcontinues⟩
  · exact send_request_requested hbelow
  · obtain ⟨s₁, hcall, hsame⟩ := call_waiting (hdue rfl) hcontinues
    obtain ⟨f, hsend, hrequested⟩ :=
      send_request_requested (s := s₁) (d := dst) (by rw [hsame.count, hsame.attrs]; exact hbelow)
    refine ⟨f, by rw [hcall, hsend, hsame.attrs, hsame.searched], fun retry => ?_⟩
    obtain ⟨hattrs, hnow, hentry, htimer, l, hl, hsent⟩ := hrequested retry
    exact ⟨hattrs.trans hsame.attrs, hnow.trans hsame.now, by rw [hentry, hsame.searched],
      by rw [htimer, hsame.now], l, by rw [hl, hsame.log], by rw [hsent, hsame.sockets, hsame.next_ttl]⟩

theorem requested_of_call (hgoes : phase.Goes dst s) (hbelow : s.rreq_count ≠ s.attrs.rreq_rate_limit)
    (hcall : phase.call dst s = some s') :
    ∃ retry, rreq_retry_delay s.attrs (s.searched dst) = some retry ∧ Requested dst s retry s' := by
  obtain ⟨f, hf, hrequested⟩ := call_requested hgoes (fun hwaiting => due_of_call (by rw [← hwaiting]; exact hcall)) hbelow
  obtain ⟨retry, hretry, rfl⟩ := Option.map_eq_some_iff.mp (hf.symm.trans hcall)
  exact ⟨retry, hretry, hrequested retry⟩

theorem put_off_of_call (hgoes : phase.Goes dst s) (hlimit : s.rreq_count = s.attrs.rreq_rate_limit)
    (hcall : phase.call dst s = some s') : PutOff dst s s' := by
  obtain ⟨s₁, hs₁, hput⟩ := call_put_off hgoes (fun hwaiting => due_of_call (by rw [← hwaiting]; exact hcall)) hlimit
  obtain rfl := Option.some.inj (hs₁.symm.trans hcall)
  exact hput

end Call

section Rounds

/-- The TTL of the request after one with `ttl`. -/
def climb (a : Attributes) (ttl : UInt16) : UInt16 :=
  if ttl + a.ttl_increment > a.ttl_threshold then a.net_diameter.toUInt16 else ttl + a.ttl_increment

/-- How many of the requests had the network diameter as their TTL. -/
def diameters (a : Attributes) (rounds : List Round) : ℕ :=
  (rounds.filter fun r => r.ttl.toUInt32 = a.net_diameter).length

/-- The requests counted, in 8 bits. -/
def tally (a : Attributes) (rounds : List Round) : UInt8 := UInt8.ofNat (diameters a rounds)

/-- The counted requests are as many as are to be made at the network diameter. -/
def UsedUp (a : Attributes) (rounds : List Round) : Prop := (tally a rounds).toUInt32 = a.rreq_retries

/-- The delay after a request with `ttl`, when `count` are counted. -/
def round_delay (a : Attributes) (ttl : UInt16) (count : UInt8) : Option Time :=
  rreq_retry_delay a { RoutingTableEntry.default 0 with hops := ttl, req_count := count }

theorem rreq_retry_delay_nonneg {e : RoutingTableEntry} {retry : Time} (h : rreq_retry_delay a e = some retry) :
    0 ≤ retry := by
  obtain ⟨-, hbounds⟩ := Option.filter_eq_some_iff.mp h
  exact (of_decide_eq_true hbounds).1

theorem rreq_retry_delay_eq (a : Attributes) (e : RoutingTableEntry) :
    rreq_retry_delay a e = round_delay a e.hops e.req_count := rfl

/-- The requests of a discovery whose first one has the TTL `first`. -/
inductive Rounds (a : Attributes) (first : UInt16) : List Round → Prop
  | nil : Rounds a first []
  | snoc {rounds r} (h : Rounds a first rounds) (hgoes : rounds ≠ [] → ¬ UsedUp a rounds)
      (httl : r.ttl = (rounds.getLast?.map fun r => climb a r.ttl).getD first)
      (hdelay : round_delay a r.ttl (tally a (rounds ++ [r])) = some r.delay)
      (hsent : r.sent = r.sockets.map fun iface => (iface.local_addr, r.ttl.toUInt8)) :
      Rounds a first (rounds ++ [r])

theorem diameters_snoc (a : Attributes) (rounds : List Round) (r : Round) : diameters a (rounds ++ [r]) =
    if r.ttl.toUInt32 = a.net_diameter then diameters a rounds + 1 else diameters a rounds := by
  unfold diameters
  rw [List.filter_append, List.length_append, List.filter_singleton]
  split <;> simp_all

theorem tally_snoc (a : Attributes) (rounds : List Round) (r : Round) : tally a (rounds ++ [r]) =
    if r.ttl.toUInt32 = a.net_diameter then tally a rounds + 1 else tally a rounds := by
  unfold tally
  rw [diameters_snoc]
  split
  · exact UInt8.ofNat_add ..
  · rfl

/-- The entry for the destination after the requests: that of the last one, or the one that
the discovery starts with, unless that has expired. -/
def Holds (a : Attributes) (start : Option RoutingTableEntry) (rounds : List Round)
    (found : Option RoutingTableEntry) : Prop :=
  match rounds.getLast? with
  | none => found = start ∨ found = none ∧ ∃ e, start = some e ∧ e.flag = .invalid
  | some r => ∃ e, found = some e ∧ e.flag = .in_search ∧ e.hops = r.ttl ∧ e.req_count = tally a rounds

/-- The TTL with which a discovery may start. -/
def FirstTtl (dst : Ipv4Address) (s₀ : RoutingProtocol) (ttl : UInt16) : Prop :=
  ttl = s₀.next_ttl dst ∨ ttl = s₀.attrs.ttl_start ∧ ∃ e, (s₀.lookup_route dst).1 = some e ∧ e.flag = .invalid

/-- No route for `dst` is known, and none is searched for. -/
def Unknown (dst : Ipv4Address) (s : RoutingProtocol) : Prop :=
  ∀ e, (s.lookup_route dst).1 = some e → e.flag = .invalid ∧ e.req_count = 0

/-- What holds in a discovery after its requests. -/
structure Searching (dst : Ipv4Address) (s₀ : RoutingProtocol) (first : UInt16) (rounds : List Round) (phase : Phase)
    (s : RoutingProtocol) : Prop where
  attrs : s.attrs = s₀.attrs
  may_start : rounds ≠ [] → FirstTtl dst s₀ first
  made : Rounds s₀.attrs first rounds
  entry : phase ≠ .ended → Holds s₀.attrs (s₀.lookup_route dst).1 rounds (s.lookup_route dst).1
  requesting : phase = .requesting → rounds ≠ [] → ¬ UsedUp s₀.attrs rounds
  waiting : phase = .waiting → rounds ≠ [] ∧ ∃ due, s.address_req_timer[dst]? = some (some due) ∧ s.now ≤ due
  ended : phase = .ended → rounds ≠ [] ∧ UsedUp s₀.attrs rounds ∧ Forgotten dst s

theorem Holds.of_ne_nil {start found : Option RoutingTableEntry} (h : Holds a start rounds found) (hne : rounds ≠ []) :
    ∃ r e, rounds.getLast? = some r ∧ found = some e ∧ e.flag = .in_search ∧ e.hops = r.ttl ∧
      e.req_count = tally a rounds := by
  rw [Holds, List.getLast?_eq_some_getLast hne] at h
  obtain ⟨e, he⟩ := h
  exact ⟨_, e, List.getLast?_eq_some_getLast hne, he⟩

theorem Holds.elsewhere {start found found' : Option RoutingTableEntry} (h : Holds a start rounds found)
    (hentry : found' = found ∨ found' = none ∧ ∃ e, found = some e ∧ e.flag = .invalid) :
    Holds a start rounds found' := by
  rcases hentry with rfl | ⟨rfl, e, he, hflag⟩
  · exact h
  · by_cases hne : rounds = []
    · subst hne
      rcases h with hstart | ⟨hnone, -⟩
      · exact .inr ⟨rfl, e, hstart ▸ he, hflag⟩
      · rw [hnone] at he
        cases he
    · obtain ⟨r, e', -, he', hin, -⟩ := h.of_ne_nil hne
      obtain rfl := Option.some.inj (he.symm.trans he')
      rw [hflag] at hin
      cases hin

theorem Holds.next {found : Option RoutingTableEntry} (hunknown : Unknown dst s₀)
    (h : Holds s₀.attrs (s₀.lookup_route dst).1 rounds found) :
    ((found.map (·.req_count)).getD 0 = tally s₀.attrs rounds) ∧
      ∀ r, rounds.getLast? = some r → request_ttl s₀.attrs found = climb s₀.attrs r.ttl := by
  by_cases hne : rounds = []
  · subst hne
    refine ⟨?_, fun r hr => by cases hr⟩
    rcases h with rfl | ⟨rfl, -⟩
    · cases hstart : (s₀.lookup_route dst).1 with
      | none => rfl
      | some e => exact (hunknown e hstart).2
    · rfl
  · obtain ⟨r, e, hlast, rfl, hin, hhops, hcount⟩ := h.of_ne_nil hne
    refine ⟨hcount, fun r' hr' => ?_⟩
    obtain rfl := Option.some.inj (hlast.symm.trans hr')
    rw [climb, ← hhops]
    simp only [request_ttl, hin, ne_eq, not_true_eq_false, if_false]

end Rounds

section Invariant

variable {first : UInt16}

theorem searching_start (dst : Ipv4Address) (s₀ : RoutingProtocol) (first : UInt16) :
    Searching dst s₀ first [] .requesting s₀ where
  attrs := rfl
  may_start := fun hne => absurd rfl hne
  made := .nil
  entry := fun _ => .inl rfl
  requesting := fun _ hne => absurd rfl hne
  waiting := fun h => by cases h
  ended := fun h => by cases h

theorem Searching.elsewhere (h : Searching dst s₀ first rounds phase s) (hopen : phase ≠ .ended)
    (helsewhere : Elsewhere dst s s') : Searching dst s₀ first rounds phase s' where
  attrs := helsewhere.attrs.trans h.attrs
  may_start := h.may_start
  made := h.made
  entry := fun _ => (h.entry hopen).elsewhere helsewhere.entry
  requesting := h.requesting
  waiting := fun hwaiting => by
    obtain ⟨hne, due, hdue, htime⟩ := h.waiting hwaiting
    exact ⟨hne, due, helsewhere.timer.trans hdue, helsewhere.on_time due hdue htime⟩
  ended := fun hended => absurd hended hopen

theorem Searching.not_used_up (h : Searching dst s₀ first rounds phase s) (hgoes : phase.Goes dst s)
    (hne : rounds ≠ []) : ¬ UsedUp s₀.attrs rounds := by
  rcases hgoes with rfl | ⟨rfl, e, he, hin, hcount⟩
  · exact h.requesting rfl hne
  · obtain ⟨r, e', -, he', -, -, htally⟩ := (h.entry (by simp)).of_ne_nil hne
    obtain rfl := Option.some.inj (he.symm.trans he')
    rw [UsedUp, ← htally, ← h.attrs]
    exact hcount

theorem Phase.Goes.ne_ended (hgoes : phase.Goes dst s) : phase ≠ .ended := by
  rintro rfl
  rcases hgoes with h | ⟨h, -⟩ <;> cases h

theorem Searching.put_off (h : Searching dst s₀ first rounds phase s) (hgoes : phase.Goes dst s)
    (hput : PutOff dst s s') : Searching dst s₀ first rounds .requesting s' where
  attrs := hput.attrs.trans h.attrs
  may_start := h.may_start
  made := h.made
  entry := fun _ => by
    rw [hput.entry]
    exact h.entry hgoes.ne_ended
  requesting := fun _ => h.not_used_up hgoes
  waiting := fun hwaiting => by cases hwaiting
  ended := fun hended => by cases hended

theorem Searching.first_ttl (h : Searching dst s₀ first [] phase s) (hgoes : phase.Goes dst s) :
    FirstTtl dst s₀ (s.next_ttl dst) := by
  unfold next_ttl
  rw [h.attrs]
  rcases h.entry hgoes.ne_ended with hstart | ⟨hnone, hinvalid⟩
  · rw [hstart]
    exact .inl rfl
  · rw [hnone]
    exact .inr ⟨rfl, hinvalid⟩

theorem requests_counted_eq (hunknown : Unknown dst s₀) (h : Searching dst s₀ first rounds phase s)
    (hgoes : phase.Goes dst s) : s.requests_counted dst = tally s₀.attrs rounds :=
  ((h.entry hgoes.ne_ended).next hunknown).1

theorem Searching.next (hunknown : Unknown dst s₀) (h : Searching dst s₀ first rounds phase s) (hgoes : phase.Goes dst s)
    (r : Round) (hr : r.ttl = s.next_ttl dst) :
    (s.searched dst).hops = r.ttl ∧ (s.searched dst).req_count = tally s₀.attrs (rounds ++ [r]) ∧
      ∀ last, rounds.getLast? = some last → r.ttl = climb s₀.attrs last.ttl := by
  refine ⟨searched_hops.trans hr.symm, ?_, fun last hlast => ?_⟩
  · rw [searched_req_count, tally_snoc, ← hr, h.attrs, requests_counted_eq hunknown h hgoes]
  · rw [hr, next_ttl, h.attrs]
    exact ((h.entry hgoes.ne_ended).next hunknown).2 last hlast

theorem Requested.round_eq {retry : Time} (h : Requested dst s retry s') : round dst s s' =
    { ttl := s.next_ttl dst, delay := retry, sockets := s.socket_addresses
      sent := s.socket_addresses.map fun iface => (iface.local_addr, (s.next_ttl dst).toUInt8) } := by
  obtain ⟨l, hl, hsent⟩ := h.sent
  unfold round
  rw [h.timer, h.now, hl, List.drop_left, hsent]
  simp

theorem Searching.request (hunknown : Unknown dst s₀) (h : Searching dst s₀ first rounds phase s)
    (hgoes : phase.Goes dst s) (hfirst : rounds = [] → first = s.next_ttl dst) {retry : Time}
    (hretry : rreq_retry_delay s.attrs (s.searched dst) = some retry) (hrequested : Requested dst s retry s') :
    Searching dst s₀ first (rounds ++ [round dst s s']) .waiting s' := by
  have hround := hrequested.round_eq
  have httl : (round dst s s').ttl = s.next_ttl dst := rfl
  have hdelay : (round dst s s').delay = retry := by rw [hround]
  obtain ⟨hhops, hcount, hclimb⟩ := h.next hunknown hgoes (round dst s s') httl
  refine ⟨hrequested.attrs.trans h.attrs, fun _ => ?_, ?_, fun _ => ?_, ?_, fun _ => ?_, ?_⟩
  · by_cases hne : rounds = []
    · rw [hfirst hne]
      subst hne
      exact h.first_ttl hgoes
    · exact h.may_start hne
  · refine h.made.snoc (h.not_used_up hgoes) ?_ ?_ ?_
    · cases hlast : rounds.getLast? with
      | none => exact httl.trans (hfirst (List.getLast?_eq_none_iff.mp hlast)).symm
      | some last => exact hclimb last hlast
    · rw [hdelay, ← hretry, rreq_retry_delay_eq, hhops, hcount, h.attrs]
    · rw [hround]
  · rw [Holds, List.getLast?_concat]
    exact ⟨_, hrequested.entry, searched_flag, hhops, hcount⟩
  · intro hrequesting
    cases hrequesting
  · refine ⟨by simp, _, hrequested.timer, ?_⟩
    rw [hrequested.now]
    exact le_add_of_nonneg_right (rreq_retry_delay_nonneg hretry)
  · intro hended
    cases hended

theorem Searching.stop (h : Searching dst s₀ first rounds .waiting s) (hstop : ¬ s.Continues dst)
    (hcall : Phase.call dst s .waiting = some s') : Searching dst s₀ first rounds .ended s' := by
  obtain ⟨hne, -⟩ := h.waiting rfl
  obtain ⟨r, e, -, he, hin, -, hcount⟩ := (h.entry (by simp)).of_ne_nil hne
  obtain ⟨s₁, hs₁, hattrs, hforgotten⟩ := expire_of_not_continues (due_of_call hcall) he hin hstop
  obtain rfl := Option.some.inj (hs₁.symm.trans hcall)
  have hused : UsedUp s₀.attrs rounds := by
    by_contra hused
    rw [UsedUp, ← hcount, ← h.attrs] at hused
    exact hstop ⟨e, he, hin, hused⟩
  exact ⟨hattrs.trans h.attrs, h.may_start, h.made, fun hopen => absurd rfl hopen, (by intro h; cases h),
    (by intro h; cases h), fun _ => ⟨hne, hused, hforgotten⟩⟩

theorem Searching.restart (h : Searching dst s₀ first [] phase s) (first' : UInt16) :
    Searching dst s₀ first' [] phase s :=
  ⟨h.attrs, fun hne => absurd rfl hne, .nil, h.entry, h.requesting, h.waiting, h.ended⟩

theorem Discovery.searching (hunknown : Unknown dst s₀) (h : Discovery dst s₀ rounds phase s) :
    ∃ first, Searching dst s₀ first rounds phase s := by
  induction h with
  | start => exact ⟨0, searching_start dst s₀ 0⟩
  | elsewhere _ hopen helsewhere ih =>
    obtain ⟨first, hs⟩ := ih
    exact ⟨first, hs.elsewhere hopen helsewhere⟩
  | put_off _ hgoes hlimit hcall ih =>
    obtain ⟨first, hs⟩ := ih
    exact ⟨first, hs.put_off hgoes (put_off_of_call hgoes hlimit hcall)⟩
  | @request rounds phase s s' _ hgoes hbelow hcall ih =>
    obtain ⟨first, hs⟩ := ih
    obtain ⟨retry, hretry, hrequested⟩ := requested_of_call hgoes hbelow hcall
    by_cases hne : rounds = []
    · subst hne
      exact ⟨_, (hs.restart (s.next_ttl dst)).request hunknown hgoes (fun _ => rfl) hretry hrequested⟩
    · exact ⟨first, hs.request hunknown hgoes (fun hnil => absurd hnil hne) hretry hrequested⟩
  | stop _ hstop hcall ih =>
    obtain ⟨first, hs⟩ := ih
    exact ⟨first, hs.stop hstop hcall⟩

end Invariant

end Ns3.Aodv.RoutingProtocol
