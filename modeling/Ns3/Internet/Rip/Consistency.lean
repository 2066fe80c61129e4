import Ns3.Internet.Rip

namespace Ns3

/-- A directly connected network that can be used. -/
def RipRoute.Connected (it : RipRoute) : Prop :=
  it.entry.status = .RIP_VALID ∧ it.entry.is_gateway = false

instance (it : RipRoute) : Decidable it.Connected := inferInstanceAs (Decidable (_ ∧ _))

namespace Rip

/-- The network is that of an address of an interface that is up, and not the loopback. -/
def Attached (interfaces : List RipInterface) (destination : Ipv4Address × Ipv4Mask) : Prop :=
  ∃ x ∈ interfaces, x.up = true ∧ x.loopback = false ∧
    ∃ a ∈ x.addresses, a.scope = .global ∧ network a = destination

instance (interfaces : List RipInterface) (destination : Ipv4Address × Ipv4Mask) :
    Decidable (Attached interfaces destination) :=
  inferInstanceAs (Decidable (∃ x ∈ interfaces, _ ∧ _ ∧ ∃ a ∈ x.addresses, _ ∧ _))

/-- What the table is to satisfy. -/
structure Consistent (p : RipAttributes) (s : Rip) : Prop where
  unique : (s.m_routes.map fun it => it.entry.destination).Nodup
  valid_iff : ∀ it ∈ s.m_routes, it.entry.status = .RIP_VALID ↔ it.entry.metric < link_down
  collected : ∀ it ∈ s.m_routes, it.entry.status = .RIP_INVALID →
    ∃ e ∈ s.simulator.pending, e.call = .DeleteRoute it.ptr ∧
      e.ts ≤ it.invalidated + p.m_garbageCollectionDelay
  timed : ∀ it ∈ s.m_routes, it.entry.status = .RIP_VALID → it.entry.is_gateway = true →
    ∃ e ∈ s.simulator.pending, e.call = .InvalidateRoute it.ptr ∧
      e.ts ≤ it.confirmed + p.m_timeoutDelay
  resolved : ∀ e ∈ s.simulator.pending, (s.run_call p e.call).isSome = true
  connected : ∀ destination, Attached s.m_ipv4 destination →
    ∃ it ∈ s.m_routes, it.entry.destination = destination ∧ it.Connected

/-- A route and its event, by the status of the route. -/
inductive Timed (p : RipAttributes) (pending : List (Agenda.Event RipCall)) (it : RipRoute) : Prop
  | direct (hstatus : it.entry.status = .RIP_VALID) (hgateway : it.entry.is_gateway = false)
      (hmetric : it.entry.metric = 1) (hover : ∀ e ∈ pending, it.event ≠ some e.uid)
  | learnt (e : Agenda.Event RipCall) (hstatus : it.entry.status = .RIP_VALID)
      (hgateway : it.entry.is_gateway = true) (hmetric : it.entry.metric < link_down)
      (hmem : e ∈ pending) (hevent : it.event = some e.uid) (hcall : e.call = .InvalidateRoute it.ptr)
      (hts : e.ts ≤ it.confirmed + p.m_timeoutDelay)
  | invalid (e : Agenda.Event RipCall) (hstatus : it.entry.status = .RIP_INVALID)
      (hmetric : it.entry.metric = link_down)
      (hmem : e ∈ pending) (hevent : it.event = some e.uid) (hcall : e.call = .DeleteRoute it.ptr)
      (hts : e.ts ≤ it.invalidated + p.m_garbageCollectionDelay)

/-- Entries are objects of their own, and each network has one. -/
structure Addressed (s : Rip) : Prop where
  allocated : ∀ it ∈ s.m_routes, it.ptr < s.next_ptr
  distinct : (s.m_routes.map (·.ptr)).Nodup
  unique : (s.m_routes.map fun it => it.entry.destination).Nodup

/-- Entries and events refer to each other. -/
structure Linked (s : Rip) : Prop extends Addressed s where
  agenda : s.simulator.Valid
  scheduled : ∀ it ∈ s.m_routes, ∀ uid, it.event = some uid → uid < s.simulator.next_uid
  owned : ∀ e ∈ s.simulator.pending, ∃ it ∈ s.m_routes, it.ptr = e.call.route ∧ it.event = some e.uid
  owner : ∀ e ∈ s.simulator.pending, ∀ it ∈ s.m_routes, it.event = some e.uid → it.ptr = e.call.route

/-- The invariant of the table, of which the routes to the connected networks are not part. -/
structure Sound (p : RipAttributes) (s : Rip) : Prop extends Linked s where
  timed : ∀ it ∈ s.m_routes, Timed p s.simulator.pending it

theorem Addressed.ext {s : Rip} (h : Addressed s) {it it' : RipRoute} (hit : it ∈ s.m_routes)
    (hit' : it' ∈ s.m_routes) (hptr : it.ptr = it'.ptr) : it = it' :=
  List.inj_on_of_nodup_map h.distinct hit hit' hptr

theorem Addressed.ext_destination {s : Rip} (h : Addressed s) {it it' : RipRoute} (hit : it ∈ s.m_routes)
    (hit' : it' ∈ s.m_routes) (hdest : it.entry.destination = it'.entry.destination) : it = it' :=
  List.inj_on_of_nodup_map h.unique hit hit' hdest

theorem Addressed.find {s : Rip} (h : Addressed s) {it : RipRoute} (hit : it ∈ s.m_routes) :
    (s.m_routes.find? fun x => x.ptr = it.ptr) = some it := by
  cases hfind : s.m_routes.find? fun x => x.ptr = it.ptr with
  | none =>
    have hnone := List.find?_eq_none.mp hfind it hit
    simp at hnone
  | some it' =>
    have hptr := List.find?_some hfind
    rw [h.ext (List.mem_of_find?_eq_some hfind) hit (by simpa using hptr)]

theorem Addressed.filter_destination {s : Rip} (h : Addressed s) (destination : Ipv4Address × Ipv4Mask) :
    (s.m_routes.filter fun it => it.entry.destination = destination) = [] ∨
      ∃ it ∈ s.m_routes, it.entry.destination = destination ∧
        (s.m_routes.filter fun it => it.entry.destination = destination) = [it] := by
  cases hfilter : s.m_routes.filter fun it => it.entry.destination = destination with
  | nil => exact .inl rfl
  | cons it rest =>
    have hmem : ∀ x ∈ it :: rest, x ∈ s.m_routes ∧ x.entry.destination = destination := by
      intro x hx
      rw [← hfilter] at hx
      simpa using hx
    have hnodup : (it :: rest).Nodup := hfilter ▸ h.unique.of_map.filter _
    obtain ⟨hit, hdest⟩ := hmem it List.mem_cons_self
    refine .inr ⟨it, hit, hdest, ?_⟩
    cases rest with
    | nil => rfl
    | cons x rest =>
      obtain ⟨hx, hxdest⟩ := hmem x (by simp)
      have heq := h.ext_destination hit hx (hdest.trans hxdest.symm)
      simp [heq] at hnodup

theorem mem_put {s : Rip} (h : Addressed s) {it : RipRoute} (hit : it ∈ s.m_routes) {route x : RipRoute} :
    x ∈ (s.put it.ptr route).m_routes ↔ x = route ∨ (x ∈ s.m_routes ∧ x ≠ it) := by
  simp only [put, List.mem_map]
  constructor
  · rintro ⟨y, hy, rfl⟩
    split
    next => exact .inl rfl
    next hne => exact .inr ⟨hy, fun heq => hne (by rw [heq])⟩
  · rintro (rfl | ⟨hx, hne⟩)
    · exact ⟨it, hit, by simp⟩
    · exact ⟨x, hx, if_neg fun hptr => hne (h.ext hx hit hptr)⟩

theorem map_put {β : Type} {s : Rip} {ptr : ℕ} {route : RipRoute} {f : RipRoute → β}
    (hf : ∀ it ∈ s.m_routes, it.ptr = ptr → f route = f it) :
    (s.put ptr route).m_routes.map f = s.m_routes.map f := by
  rw [put, List.map_map]
  refine List.map_congr_left ?_
  intro it hit
  rw [Function.comp_apply]
  split
  next hptr => exact hf it hit hptr
  next => rfl

theorem nodup_put {s : Rip} (h : Addressed s) {it route : RipRoute}
    (hapart : ∀ x ∈ s.m_routes, x ≠ it → x.ptr ≠ route.ptr) :
    ((s.put it.ptr route).m_routes.map (·.ptr)).Nodup := by
  rw [put, List.map_map]
  refine List.Nodup.map_on ?_ h.distinct.of_map
  intro x hx y hy heq
  simp only [Function.comp_apply] at heq
  split at heq <;> split at heq
  next hxptr hyptr => exact h.ext hx hy (hxptr.trans hyptr.symm)
  next _ hyptr => exact absurd heq.symm (hapart y hy fun hyit => hyptr (by rw [hyit]))
  next hxptr _ => exact absurd heq (hapart x hx fun hxit => hxptr (by rw [hxit]))
  next => exact h.ext hx hy heq

theorem foldlM_ite {α β : Type} (P : β → Prop) [DecidablePred P] (f : α → β → Option α) (a : α)
    (l : List β) :
    l.foldlM (fun a b => if P b then f a b else some a) a = (l.filter fun b => P b).foldlM f a := by
  rw [List.foldlM_filter]
  simp

/-- A position of the table takes another entry for the same network, at the same address or at a new
one. -/
structure Puts (s : Rip) (it : RipRoute) (s' : Rip) (route : RipRoute) : Prop where
  routes : s'.m_routes = (s.put it.ptr route).m_routes
  next : s.next_ptr ≤ s'.next_ptr
  ptr_lt : route.ptr < s'.next_ptr
  fresh : route.ptr = it.ptr ∨ s.next_ptr ≤ route.ptr
  destination : route.entry.destination = it.entry.destination

theorem Addressed.puts {s s' : Rip} (h : Addressed s) {it route : RipRoute} (hit : it ∈ s.m_routes)
    (hputs : Puts s it s' route) : Addressed s' := by
  have hapart : ∀ x ∈ s.m_routes, x ≠ it → x.ptr ≠ route.ptr := by
    intro x hx hne
    rcases hputs.fresh with hsame | hnew
    · rw [hsame]
      exact fun heq => hne (h.ext hx hit heq)
    · exact ((h.allocated x hx).trans_le hnew).ne
  refine ⟨?_, ?_, ?_⟩
  · intro x hx
    rw [hputs.routes] at hx
    rcases (mem_put h hit).mp hx with rfl | ⟨hx, -⟩
    · exact hputs.ptr_lt
    · exact (h.allocated x hx).trans_le hputs.next
  · rw [hputs.routes]
    exact nodup_put h hapart
  · rw [hputs.routes, map_put]
    · exact h.unique
    · intro x hx hxptr
      rw [hputs.destination, h.ext hx hit hxptr]

theorem Addressed.learn_route {p : RipAttributes} {s : Rip} (h : Addressed s) {rte : RipRte}
    {rteMetric i : ℕ} {senderAddress : Ipv4Address}
    (hnew : ∀ x ∈ s.m_routes, x.entry.destination ≠ rte.destination) :
    Addressed (s.learn_route p rte rteMetric senderAddress i) := by
  refine ⟨?_, List.nodup_cons.mpr ⟨?_, h.distinct⟩, List.nodup_cons.mpr ⟨?_, h.unique⟩⟩
  · intro x hx
    rcases List.mem_cons.mp hx with rfl | hx
    · exact Nat.lt_succ_self _
    · exact Nat.lt_succ_of_lt (h.allocated x hx)
  · intro hmem
    obtain ⟨x, hx, heq⟩ := List.mem_map.mp hmem
    exact (h.allocated x hx).ne heq
  · intro hmem
    obtain ⟨x, hx, heq⟩ := List.mem_map.mp hmem
    exact hnew x hx heq

theorem Linked.cancel {s : Rip} (h : Linked s) {it : RipRoute} (hit : it ∈ s.m_routes) :
    Linked { s with simulator := s.simulator.cancel it.event } ∧
      ∀ e ∈ (s.simulator.cancel it.event).pending, e.call.route ≠ it.ptr := by
  refine ⟨⟨⟨h.allocated, h.distinct, h.unique⟩, h.agenda.cancel _, h.scheduled, ?_, ?_⟩, ?_⟩
  · intro e he
    exact h.owned e (Agenda.mem_cancel.mp he).1
  · intro e he
    exact h.owner e (Agenda.mem_cancel.mp he).1
  · intro e he heq
    obtain ⟨hmem, hne⟩ := Agenda.mem_cancel.mp he
    obtain ⟨it', hit', hptr, hevent⟩ := h.owned e hmem
    rw [h.ext hit' hit (hptr.trans heq)] at hevent
    exact hne hevent.symm

theorem Timed.cancel {p : RipAttributes} {s : Rip} (h : Linked s) {it x : RipRoute}
    (hit : it ∈ s.m_routes) (hne : x.ptr ≠ it.ptr) (hx : Timed p s.simulator.pending x) :
    Timed p (s.simulator.cancel it.event).pending x := by
  have hkeep : ∀ e ∈ s.simulator.pending, e.call.route = x.ptr →
      e ∈ (s.simulator.cancel it.event).pending := by
    intro e he hcall
    refine Agenda.mem_cancel.mpr ⟨he, ?_⟩
    intro heq
    exact hne (hcall.symm.trans (h.owner e he it hit heq.symm).symm)
  cases hx with
  | direct hstatus hgateway hmetric hover =>
    exact .direct hstatus hgateway hmetric fun e he => hover e (Agenda.mem_cancel.mp he).1
  | learnt e hstatus hgateway hmetric hmem hevent hcall hts =>
    exact .learnt e hstatus hgateway hmetric (hkeep e hmem (by rw [hcall]; rfl)) hevent hcall hts
  | invalid e hstatus hmetric hmem hevent hcall hts =>
    exact .invalid e hstatus hmetric (hkeep e hmem (by rw [hcall]; rfl)) hevent hcall hts

theorem Timed.schedule {p : RipAttributes} {a : Agenda RipCall} {delay : Time} {call : RipCall}
    {x : RipRoute} (hscheduled : ∀ uid, x.event = some uid → uid < a.next_uid)
    (hx : Timed p a.pending x) : Timed p (a.schedule delay call).pending x := by
  cases hx with
  | direct hstatus hgateway hmetric hover =>
    refine .direct hstatus hgateway hmetric ?_
    intro e he
    rcases Agenda.mem_schedule.mp he with he | rfl
    · exact hover e he
    · exact fun hevent => (hscheduled _ hevent).ne rfl
  | learnt e hstatus hgateway hmetric hmem hevent hcall hts =>
    exact .learnt e hstatus hgateway hmetric (Agenda.mem_schedule.mpr (.inl hmem)) hevent hcall hts
  | invalid e hstatus hmetric hmem hevent hcall hts =>
    exact .invalid e hstatus hmetric (Agenda.mem_schedule.mpr (.inl hmem)) hevent hcall hts

theorem Linked.put {p : RipAttributes} {s : Rip} (h : Linked s) {it route : RipRoute}
    (hit : it ∈ s.m_routes) (htimed : ∀ x ∈ s.m_routes, x.ptr ≠ it.ptr → Timed p s.simulator.pending x)
    (hfree : ∀ e ∈ s.simulator.pending, e.call.route ≠ it.ptr) {delay : Time} {call : RipCall}
    {next_ptr : ℕ} (hnext : s.next_ptr ≤ next_ptr) (hptr : route.ptr < next_ptr)
    (hfresh : route.ptr = it.ptr ∨ s.next_ptr ≤ route.ptr)
    (hdest : route.entry.destination = it.entry.destination)
    (hevent : route.event = some s.simulator.next_uid) (hcall : call.route = route.ptr)
    (hroute : Timed p (s.simulator.schedule delay call).pending route) :
    Sound p { s.put it.ptr route with
      simulator := s.simulator.schedule delay call, next_ptr := next_ptr } := by
  have hother : ∀ x ∈ s.m_routes, x ≠ it → x.ptr ≠ it.ptr := fun x hx hne heq => hne (h.ext hx hit heq)
  refine ⟨⟨h.toAddressed.puts hit ⟨rfl, hnext, hptr, hfresh, hdest⟩, h.agenda.schedule delay call, ?_,
    ?_, ?_⟩, ?_⟩
  · intro x hx uid huid
    rcases (mem_put h.toAddressed hit).mp hx with rfl | ⟨hx, -⟩
    · rw [hevent] at huid
      cases huid
      exact Nat.lt_succ_self _
    · exact Nat.lt_succ_of_lt (h.scheduled x hx uid huid)
  · intro e he
    rcases Agenda.mem_schedule.mp he with hold | rfl
    · obtain ⟨x, hx, hxptr, hxevent⟩ := h.owned e hold
      refine ⟨x, (mem_put h.toAddressed hit).mpr (.inr ⟨hx, ?_⟩), hxptr, hxevent⟩
      rintro rfl
      exact hfree e hold hxptr.symm
    · exact ⟨route, (mem_put h.toAddressed hit).mpr (.inl rfl), hcall.symm, hevent⟩
  · intro e he x hx hxevent
    rcases Agenda.mem_schedule.mp he with hold | rfl
    · rcases (mem_put h.toAddressed hit).mp hx with rfl | ⟨hx, -⟩
      · rw [hevent] at hxevent
        exact absurd (h.agenda.fresh e hold) (by rw [Option.some.inj hxevent]; exact lt_irrefl _)
      · exact h.owner e hold x hx hxevent
    · rcases (mem_put h.toAddressed hit).mp hx with rfl | ⟨hx, -⟩
      · exact hcall.symm
      · exact absurd (h.scheduled x hx _ hxevent) (lt_irrefl _)
  · intro x hx
    rcases (mem_put h.toAddressed hit).mp hx with rfl | ⟨hx, hne⟩
    · exact hroute
    · exact (htimed x hx (hother x hx hne)).schedule (h.scheduled x hx)

end Rip

end Ns3
