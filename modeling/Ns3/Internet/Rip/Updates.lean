import Ns3.Internet.Rip.Responses
import Ns3.Internet.Rip.Consistency

namespace Ns3.Rip

variable {p : RipAttributes} {s : Rip}

/-- The invariant reads the table, the agenda and the address of the next entry. -/
theorem Sound.congr (h : Sound p s) {s' : Rip} (hroutes : s'.m_routes = s.m_routes)
    (hsimulator : s'.simulator = s.simulator) (hnext : s'.next_ptr = s.next_ptr) : Sound p s' := by
  cases s'
  subst hroutes hsimulator hnext
  exact ⟨⟨⟨h.allocated, h.distinct, h.unique⟩, h.agenda, h.scheduled, h.owned, h.owner⟩, h.timed⟩

/-- The route that `AddNetworkRouteTo` appends. -/
def directRoute (ptr : ℕ) (destination : Ipv4Address × Ipv4Mask) (i : ℕ) : RipRoute where
  ptr := ptr
  entry :=
    { dest_network := destination.1
      dest_network_mask := destination.2
      gateway := Ipv4Address.get_zero
      interface := i
      metric := 1
      status := .RIP_VALID
      changed := true }

theorem mem_add_network_route_to {destination : Ipv4Address × Ipv4Mask} {i : ℕ} {it : RipRoute} :
    it ∈ (s.add_network_route_to destination.1 destination.2 i).m_routes ↔
      it ∈ s.m_routes ∨ it = directRoute s.next_ptr destination i := by
  rw [Rip.add_network_route_to, List.mem_append, List.mem_singleton]
  rfl

theorem Sound.add_network_route_to (h : Sound p s) {destination : Ipv4Address × Ipv4Mask} (i : ℕ)
    (hnew : ∀ it ∈ s.m_routes, it.entry.destination ≠ destination) :
    Sound p (s.add_network_route_to destination.1 destination.2 i) := by
  have hptr : ∀ it ∈ s.m_routes, it.ptr ≠ s.next_ptr := fun it hit => (h.allocated it hit).ne
  refine ⟨⟨⟨?_, ?_, ?_⟩, h.agenda, ?_, ?_, ?_⟩, ?_⟩
  · intro it hit
    rcases mem_add_network_route_to.mp hit with hit | rfl
    · exact Nat.lt_succ_of_lt (h.allocated it hit)
    · exact Nat.lt_succ_self _
  · simpa [Rip.add_network_route_to, List.nodup_append] using ⟨h.distinct, hptr⟩
  · simpa [Rip.add_network_route_to, List.nodup_append, RipRoutingTableEntry.destination] using
      ⟨h.unique, hnew⟩
  · intro it hit uid huid
    rcases mem_add_network_route_to.mp hit with hit | rfl
    · exact h.scheduled it hit uid huid
    · cases huid
  · intro e he
    obtain ⟨it, hit, hiptr, hevent⟩ := h.owned e he
    exact ⟨it, mem_add_network_route_to.mpr (.inl hit), hiptr, hevent⟩
  · intro e he it hit hevent
    rcases mem_add_network_route_to.mp hit with hit | rfl
    · exact h.owner e he it hit hevent
    · cases hevent
  · intro it hit
    rcases mem_add_network_route_to.mp hit with hit | rfl
    · exact h.timed it hit
    · exact .direct rfl rfl rfl fun e _ hevent => by cases hevent

theorem Sound.add_network_routes {i : ℕ} (addresses : List Ipv4InterfaceAddress) {s : Rip} (h : Sound p s)
    (hdistinct : (addresses.map network).Nodup)
    (hnew : ∀ a ∈ addresses, ∀ it ∈ s.m_routes, it.entry.destination ≠ network a) :
    let s' := addresses.foldl (fun s a => s.add_network_route_to (network a).1 (network a).2 i) s
    Sound p s' ∧ (Keeps s s' fun _ => True) ∧
      ∀ a ∈ addresses, ∃ it ∈ s'.m_routes, it.entry.destination = network a ∧ it.Connected := by
  induction addresses generalizing s with
  | nil => exact ⟨h, Keeps.refl _ _, by simp⟩
  | cons a rest ih =>
    obtain ⟨hhead, hrest⟩ := List.nodup_cons.mp hdistinct
    have hsound := h.add_network_route_to i (hnew a List.mem_cons_self)
    obtain ⟨hs', hk, hconn⟩ := ih hsound hrest (by
      intro b hb it hit
      rcases mem_add_network_route_to.mp hit with hit | rfl
      · exact hnew b (List.mem_cons_of_mem _ hb) it hit
      · exact fun heq => hhead (List.mem_map.mpr ⟨b, hb, heq.symm⟩))
    refine ⟨hs', ⟨hk.now, hk.ipv4, fun x hx _ => hk.routes x (mem_add_network_route_to.mpr (.inl hx)) trivial⟩, ?_⟩
    intro b hb
    rcases List.mem_cons.mp hb with rfl | hb
    · exact ⟨_, hk.routes _ (mem_add_network_route_to.mpr (.inr rfl)) trivial, rfl, rfl, rfl⟩
    · exact hconn b hb

theorem Sound.invalidate_routes (routes : List RipRoute) {s : Rip} (h : Sound p s) (hnodup : routes.Nodup)
    (hmem : ∀ it ∈ routes, it ∈ s.m_routes ∧ Invalidable s it) :
    ∃ s', routes.foldlM (fun s it => s.invalidate_route p it.ptr) s = some s' ∧ Sound p s' ∧
      Keeps s s' fun x => x ∉ routes := by
  induction routes generalizing s with
  | nil => exact ⟨s, rfl, h, Keeps.refl _ _⟩
  | cons it rest ih =>
    obtain ⟨hhead, hrest⟩ := List.nodup_cons.mp hnodup
    obtain ⟨hit, hmay⟩ := hmem it List.mem_cons_self
    obtain ⟨s₁, hs₁, hsound₁, hk₁⟩ := h.invalidate_route hit hmay
    obtain ⟨s', hs', hsound, hk⟩ := ih hsound₁ hrest (by
      intro x hx
      obtain ⟨hxs, hxmay⟩ := hmem x (List.mem_cons_of_mem _ hx)
      refine ⟨hk₁.routes x hxs fun heq => hhead (heq ▸ hx), ?_⟩
      intro hstatus
      rw [hk₁.now]
      exact hxmay hstatus)
    refine ⟨s', by rw [List.foldlM_cons, hs₁]; exact hs', hsound, (hk₁.trans hk).mono ?_⟩
    intro x _ hx
    exact ⟨fun heq => hx (heq ▸ List.mem_cons_self), fun hxr => hx (List.mem_cons_of_mem _ hxr)⟩

theorem eraseP_eq_filter (ptr : ℕ) (routes : List RipRoute) (h : (routes.map (·.ptr)).Nodup) :
    (routes.eraseP fun it => it.ptr = ptr) = routes.filter fun it => it.ptr ≠ ptr := by
  induction routes with
  | nil => rfl
  | cons it rest ih =>
    obtain ⟨hhead, hrest⟩ := List.nodup_cons.mp h
    by_cases hptr : it.ptr = ptr
    · have hkeep : ∀ x ∈ rest, decide (x.ptr ≠ ptr) = true := by
        intro x hx
        refine decide_eq_true ?_
        rintro heq
        exact hhead (List.mem_map.mpr ⟨x, hx, heq.trans hptr.symm⟩)
      rw [List.eraseP_cons_of_pos (by simpa using hptr), List.filter_cons_of_neg (by simpa using hptr),
        List.filter_eq_self.mpr hkeep]
    · rw [List.eraseP_cons_of_neg (by simpa using hptr), List.filter_cons_of_pos (by simpa using hptr),
        ih hrest]

theorem Linked.delete_route (h : Linked s) {it : RipRoute} (hit : it ∈ s.m_routes)
    (htimed : ∀ x ∈ s.m_routes, x.ptr ≠ it.ptr → Timed p s.simulator.pending x)
    (hfree : ∀ e ∈ s.simulator.pending, e.call.route ≠ it.ptr) :
    ∃ s', s.delete_route it.ptr = some s' ∧ Sound p s' ∧ Keeps s s' fun x => x ≠ it := by
  have hmem : ∀ {x}, x ∈ (s.m_routes.filter fun x => x.ptr ≠ it.ptr) ↔ x ∈ s.m_routes ∧ x.ptr ≠ it.ptr := by
    intro x
    simp
  refine ⟨{ s with m_routes := s.m_routes.filter fun x => x.ptr ≠ it.ptr }, ?_, ⟨⟨⟨?_, ?_, ?_⟩, h.agenda,
    ?_, ?_, ?_⟩, ?_⟩, rfl, rfl, ?_⟩
  · rw [Rip.delete_route, h.find hit, eraseP_eq_filter _ _ h.distinct]
  · intro x hx
    exact h.allocated x (hmem.mp hx).1
  · exact h.distinct.sublist (List.filter_sublist.map _)
  · exact h.unique.sublist (List.filter_sublist.map _)
  · intro x hx
    exact h.scheduled x (hmem.mp hx).1
  · intro e he
    obtain ⟨x, hx, hptr, hevent⟩ := h.owned e he
    exact ⟨x, hmem.mpr ⟨hx, fun heq => hfree e he (hptr.symm.trans heq)⟩, hptr, hevent⟩
  · intro e he x hx
    exact h.owner e he x (hmem.mp hx).1
  · intro x hx
    exact htimed x (hmem.mp hx).1 (hmem.mp hx).2
  · intro x hx hne
    exact hmem.mpr ⟨hx, fun hptr => hne (h.ext hx hit hptr)⟩

/-- The networks of the interfaces that are up have a route. -/
def Covered (s : Rip) : Prop :=
  ∀ destination, Attached s.m_ipv4 destination →
    ∃ it ∈ s.m_routes, it.entry.destination = destination ∧ it.Connected

theorem Covered.keeps (h : Covered s) {s' : Rip} (hk : Keeps s s' RipRoute.Connected) : Covered s' := by
  intro destination hattached
  rw [hk.ipv4] at hattached
  obtain ⟨it, hit, hdest, hconn⟩ := h destination hattached
  exact ⟨it, hk.routes it hit hconn, hdest, hconn⟩

theorem mem_modify {α : Type} {l : List α} {i : ℕ} {f : α → α} {x : α} (h : x ∈ l.modify i f) :
    x ∈ l ∨ ∃ y, l[i]? = some y ∧ x = f y := by
  obtain ⟨j, hj⟩ := List.mem_iff_getElem?.mp h
  rw [List.getElem?_modify] at hj
  obtain ⟨y, hy, hx⟩ := Option.map_eq_some_iff.mp hj
  split at hx
  next hij =>
    subst hij
    exact .inr ⟨y, hy, hx.symm⟩
  next => exact .inl (List.mem_iff_getElem?.mpr ⟨j, hx ▸ hy⟩)

end Ns3.Rip

namespace Ns3

/-- The part of a route that the neighbours can tell: its network, gateway, metric and status. -/
def RipRoute.summary (it : RipRoute) : (Ipv4Address × Ipv4Mask) × Ipv4Address × ℕ × RipStatus :=
  (it.entry.destination, it.entry.gateway, it.entry.metric, it.entry.status)

namespace Rip

theorem packets_flatten (maxRte : UInt16) (advertised : RipRoute → Option RipRte) (routes : List RipRoute)
    (hdr : List RipRte) (hsize : hdr.length + routes.length < 65536) :
    (packets maxRte advertised routes hdr).flatten = hdr ++ routes.filterMap advertised := by
  induction routes generalizing hdr with
  | nil =>
    rw [packets]
    split
    next => simp
    next hzero =>
      have hempty : hdr = [] := by
        by_contra hne
        have hpos := List.length_pos_iff.mpr hne
        apply hzero
        rw [gt_iff_lt, UInt16.lt_iff_toNat_lt]
        simp only [List.length_nil, Nat.add_zero] at hsize
        rw [Nat.toUInt16_eq, UInt16.toNat_ofNat_of_lt' (by simpa using hsize)]
        simpa using hpos
      simp [hempty]
  | cons it rest ih =>
    have happend : hdr ++ (advertised it).toList ++ rest.filterMap advertised =
        hdr ++ (it :: rest).filterMap advertised := by
      cases hit : advertised it <;> simp [hit]
    have hlen : (advertised it).toList.length ≤ 1 := by
      cases advertised it <;> simp
    simp only [List.length_cons] at hsize
    rw [packets, ← happend]
    split
    next =>
      rw [List.flatten_cons, ih [] (by simp only [List.length_nil]; omega), List.nil_append]
    next => rw [ih _ (by rw [List.length_append]; omega)]

variable {p : RipAttributes} {s s' : Rip}

def part (s : Rip) (destination : Ipv4Address × Ipv4Mask) : List RipRoute :=
  s.m_routes.filter fun it => it.entry.destination = destination

theorem mem_part {destination : Ipv4Address × Ipv4Mask} {it : RipRoute} :
    it ∈ s.part destination ↔ it ∈ s.m_routes ∧ it.entry.destination = destination := by
  simp [part]

theorem Addressed.part_eq (h : Addressed s) {it : RipRoute} (hit : it ∈ s.m_routes) :
    s.part it.entry.destination = [it] := by
  rcases h.filter_destination it.entry.destination with hnone | ⟨it', hit', hdest, hone⟩
  · have hnot := List.filter_eq_nil_iff.mp hnone it hit
    simp at hnot
  · rw [part, hone, h.ext_destination hit' hit hdest]

theorem filter_map_replaced {α : Type} (P : α → Bool) (C : α → Prop) [DecidablePred C] {route : α}
    (hroute : P route = false) (l : List α) (hl : ∀ x ∈ l, C x → P x = false) :
    (l.map fun x => if C x then route else x).filter P = l.filter P := by
  induction l with
  | nil => rfl
  | cons x rest ih =>
    have hrest := ih fun y hy => hl y (List.mem_cons_of_mem _ hy)
    by_cases hx : C x
    · rw [List.map_cons, if_pos hx, List.filter_cons_of_neg (by simp [hroute]),
        List.filter_cons_of_neg (by simp [hl x List.mem_cons_self hx]), hrest]
    · rw [List.map_cons, if_neg hx, List.filter_cons, List.filter_cons, hrest]

theorem Puts.part_of_ne (h : Addressed s) {it route : RipRoute} (hit : it ∈ s.m_routes)
    (hputs : Puts s it s' route) {destination : Ipv4Address × Ipv4Mask}
    (hne : it.entry.destination ≠ destination) : s'.part destination = s.part destination := by
  rw [part, hputs.routes, put, part]
  refine filter_map_replaced _ _ (by simpa [hputs.destination] using hne) _ ?_
  intro x hx hptr
  rw [h.ext hx hit hptr]
  simpa using hne

theorem Puts.part_self (h : Addressed s) {it route : RipRoute} (hit : it ∈ s.m_routes)
    (hputs : Puts s it s' route) : s'.part it.entry.destination = [route] := by
  have hmem : route ∈ s'.m_routes := by
    rw [hputs.routes]
    exact (mem_put h hit).mpr (.inl rfl)
  rw [← hputs.destination]
  exact (h.puts hit hputs).part_eq hmem

/-- What comes of a route that an RTE of the metric `rteMetric` takes for another: a new timeout, when
the gateway confirms it, or a change. -/
inductive Outcome (it it' : RipRoute) (rteMetric : ℕ) (senderAddress : Ipv4Address) : Prop
  | confirmed (hsummary : it'.summary = it.summary) (hmetric : rteMetric = it.entry.metric)
      (hgateway : senderAddress = it.entry.gateway)
  | changed (hsummary : it'.summary ≠ it.summary)

theorem update_route_outcome (h : Addressed s) {it : RipRoute} (hit : it ∈ s.m_routes) {rte : RipRte}
    {senderAddress : Ipv4Address} {i : ℕ} (hdest : it.entry.destination = rte.destination)
    (hstep : s.update_route p it rte senderAddress i = some s') :
    (s' = s ∧ it.entry.metric ≤ p.rte_metric rte i) ∨
      ∃ route, Puts s it s' route ∧ Outcome it route (p.rte_metric rte i) senderAddress := by
  have hkeep : ∀ {entry : RipRoutingTableEntry}, entry.destination = it.entry.destination →
      Puts s it (s.restart_timeout p it it.ptr entry) _ :=
    fun hentry => ⟨rfl, le_rfl, h.allocated it hit, .inl rfl, hentry⟩
  have hnew : Puts s it (s.replace_route p it rte (p.rte_metric rte i) senderAddress i) _ :=
    ⟨rfl, Nat.le_succ _, Nat.lt_succ_self _, .inr le_rfl, hdest.symm⟩
  by_cases hlt : p.rte_metric rte i < it.entry.metric
  · right
    have hother : ∀ {route : RipRoute}, route.entry.metric = p.rte_metric rte i →
        route.summary ≠ it.summary := by
      intro route hroute heq
      have hm : route.entry.metric = it.entry.metric := congrArg (fun x => x.2.2.1) heq
      omega
    by_cases hsame : senderAddress = it.entry.gateway
    · simp only [update_route, if_pos hlt, if_neg (not_not.mpr hsame), Option.some.injEq] at hstep
      subst hstep
      exact ⟨_, hkeep rfl, .changed (hother rfl)⟩
    · simp only [update_route, if_pos hlt, ne_eq, if_pos hsame, Option.some.injEq] at hstep
      subst hstep
      exact ⟨_, hnew, .changed (hother rfl)⟩
  by_cases heq : p.rte_metric rte i = it.entry.metric
  · by_cases hsame : senderAddress = it.entry.gateway
    · simp only [update_route, if_neg hlt, if_pos heq, if_pos hsame, Option.some.injEq] at hstep
      subst hstep
      exact .inr ⟨_, hkeep rfl, .confirmed rfl heq hsame⟩
    by_cases hleft : s.simulator.get_delay_left it.event < p.m_timeoutDelay / 2
    · simp only [update_route, if_neg hlt, if_pos heq, if_neg hsame, if_pos hleft,
        Option.some.injEq] at hstep
      subst hstep
      refine .inr ⟨_, hnew, .changed ?_⟩
      intro hsummary
      exact hsame (congrArg (fun x => x.2.1) hsummary)
    · simp only [update_route, if_neg hlt, if_pos heq, if_neg hsame, if_neg hleft,
        Option.some.injEq] at hstep
      exact .inl ⟨hstep.symm, heq.ge⟩
  have hgt : it.entry.metric < p.rte_metric rte i := by omega
  by_cases hsame : senderAddress = it.entry.gateway
  · right
    by_cases hdown : p.rte_metric rte i < link_down
    · simp only [update_route, if_neg hlt, if_neg heq, if_pos hsame, if_pos hdown,
        Option.some.injEq] at hstep
      subst hstep
      refine ⟨_, hkeep rfl, .changed ?_⟩
      intro hsummary
      exact heq (congrArg (fun x => x.2.2.1) hsummary)
    · have hlimit := min_le_right (rte.route_metric + p.interface_metric i) link_down
      have hfind := h.find hit
      simp only [update_route, if_neg hlt, if_neg heq, if_pos hsame, if_neg hdown, invalidate_route, hfind,
        Option.some.injEq] at hstep
      subst hstep
      refine ⟨_, ⟨rfl, le_rfl, h.allocated it hit, .inl rfl, rfl⟩, .changed ?_⟩
      intro hsummary
      have hm : link_down = it.entry.metric := congrArg (fun x => x.2.2.1) hsummary
      simp only [RipAttributes.rte_metric] at hgt
      omega
  · simp only [update_route, if_neg hlt, if_neg heq, if_neg hsame, Option.some.injEq] at hstep
    exact .inl ⟨hstep.symm, hgt.le⟩

/-- What a network must be like that a table is in agreement with: an RTE has left its route as it
was, but for the timeout, which only the gateway restarts. -/
structure Agrees (s s' : Rip) (destination : Ipv4Address × Ipv4Mask) (rteMetric : ℕ)
    (senderAddress : Ipv4Address) : Prop where
  le : ∀ it ∈ s.part destination, it.entry.metric ≤ rteMetric
  unknown : s.part destination = [] → rteMetric = link_down
  refreshed : s'.part destination ≠ s.part destination →
    ∃ it ∈ s.part destination, rteMetric = it.entry.metric ∧ senderAddress = it.entry.gateway

theorem handle_rte_outcome (h : Addressed s) {rte : RipRte} {senderAddress : Ipv4Address} {i : ℕ}
    (hstep : s.handle_rte p senderAddress i rte = some s') :
    Addressed s' ∧ (∀ destination, rte.destination ≠ destination → s'.part destination = s.part destination) ∧
      ((s'.part rte.destination).map RipRoute.summary = (s.part rte.destination).map RipRoute.summary →
        Agrees s s' rte.destination (p.rte_metric rte i) senderAddress) := by
  unfold handle_rte at hstep
  rw [foldlM_ite] at hstep
  rcases h.filter_destination rte.destination with hnone | ⟨it, hit, hdest, hone⟩
  · have hfound : (s.m_routes.any fun it => it.entry.destination = rte.destination) = false := by
      simpa using List.filter_eq_nil_iff.mp hnone
    rw [hnone, hfound] at hstep
    by_cases hdown : p.rte_metric rte i = link_down
    · simp only [List.foldlM_nil, hdown, bne_self_eq_false, Bool.and_false] at hstep
      cases hstep
      refine ⟨h, fun _ _ => rfl, fun _ => ⟨?_, fun _ => hdown, fun hne => absurd rfl hne⟩⟩
      intro it hit
      rw [part, hnone] at hit
      cases hit
    · have hnew : ∀ x ∈ s.m_routes, x.entry.destination ≠ rte.destination := by
        simpa using List.filter_eq_nil_iff.mp hnone
      simp only [List.foldlM_nil, Bool.not_false, bne_iff_ne, ne_eq, hdown, not_false_eq_true,
        Bool.true_and, if_true, Option.pure_def, Option.bind_eq_bind, Option.bind_some,
        Option.some.injEq] at hstep
      subst hstep
      refine ⟨h.learn_route hnew, ?_, ?_⟩
      · intro destination hne
        exact List.filter_cons_of_neg fun heq => hne (of_decide_eq_true heq)
      · -- the table has a route that it did not have
        intro hsummary
        have hlength := congrArg List.length hsummary
        simp only [List.length_map] at hlength
        have hself : (s.learn_route p rte (p.rte_metric rte i) senderAddress i).part rte.destination =
            _ :: s.part rte.destination :=
          List.filter_cons_of_pos (decide_eq_true rfl)
        rw [hself, List.length_cons] at hlength
        omega
  · have hfound : (s.m_routes.any fun it => it.entry.destination = rte.destination) = true := by
      simpa using ⟨it, hit, hdest⟩
    rw [hone, hfound] at hstep
    simp only [List.foldlM_cons, List.foldlM_nil, Bool.not_true, Bool.false_and, Bool.false_eq_true,
      if_false, Option.pure_def, Option.bind_eq_bind, Option.bind_fun_some] at hstep
    have hpart : s.part rte.destination = [it] := hone
    rcases update_route_outcome h hit hdest hstep with ⟨rfl, hle⟩ | ⟨route, hputs, houtcome⟩
    · refine ⟨h, fun _ _ => rfl, fun _ => ⟨?_, ?_, fun hne => absurd rfl hne⟩⟩
      · intro x hx
        rw [hpart, List.mem_singleton] at hx
        rw [hx]
        exact hle
      · intro hempty
        simp [hpart] at hempty
    · refine ⟨h.puts hit hputs, ?_, ?_⟩
      · intro destination hne
        exact hputs.part_of_ne h hit (by rwa [hdest])
      · intro hsummary
        have hself := hputs.part_self h hit
        rw [hdest] at hself
        rw [hself, hpart, List.map_singleton, List.map_singleton, List.singleton_inj] at hsummary
        cases houtcome with
        | confirmed _ hmetric hgateway =>
          refine ⟨?_, ?_, ?_⟩
          · intro x hx
            rw [hpart, List.mem_singleton] at hx
            rw [hx, hmetric]
          · intro hempty
            simp [hpart] at hempty
          · intro _
            exact ⟨it, by simp [hpart], hmetric, hgateway⟩
        | changed hne => exact absurd hsummary hne

theorem Agrees.congr {s₁ s₁' : Rip} {destination : Ipv4Address × Ipv4Mask} {rteMetric : ℕ}
    {senderAddress : Ipv4Address} (h : Agrees s s' destination rteMetric senderAddress)
    (hs : s₁.part destination = s.part destination) (hs' : s₁'.part destination = s'.part destination) :
    Agrees s₁ s₁' destination rteMetric senderAddress := by
  obtain ⟨hle, hunknown, hrefreshed⟩ := h
  rw [← hs] at hle hunknown hrefreshed
  rw [← hs'] at hrefreshed
  exact ⟨hle, hunknown, hrefreshed⟩

/-- The RTEs of a message are for different networks, so each finds its own network as it was. -/
theorem handle_rtes_outcome {senderAddress : Ipv4Address} {i : ℕ} (rtes : List RipRte) {s : Rip}
    (h : Addressed s) (hnodup : (rtes.map RipRte.destination).Nodup)
    (hstep : rtes.foldlM (fun s rte => s.handle_rte p senderAddress i rte) s = some s') :
    (∀ destination ∉ rtes.map RipRte.destination, s'.part destination = s.part destination) ∧
      ∀ rte ∈ rtes,
        (s'.part rte.destination).map RipRoute.summary = (s.part rte.destination).map RipRoute.summary →
          Agrees s s' rte.destination (p.rte_metric rte i) senderAddress := by
  induction rtes generalizing s with
  | nil =>
    cases hstep
    simp
  | cons rte rest ih =>
    obtain ⟨hhead, hrest⟩ := List.nodup_cons.mp hnodup
    rw [List.foldlM_cons] at hstep
    obtain ⟨s₁, hs₁, hrun⟩ := Option.bind_eq_some_iff.mp hstep
    obtain ⟨h₁, hother, hself⟩ := handle_rte_outcome h hs₁
    obtain ⟨hframe, hagrees⟩ := ih h₁ hrest hrun
    refine ⟨?_, ?_⟩
    · intro destination hnot
      rw [List.map_cons, List.mem_cons, not_or] at hnot
      rw [hframe destination hnot.2, hother destination (Ne.symm hnot.1)]
    · intro x hx hsummary
      rcases List.mem_cons.mp hx with rfl | hx
      · have hsame := hframe _ hhead
        rw [hsame] at hsummary
        exact (hself hsummary).congr rfl hsame
      · have hne : rte.destination ≠ x.destination :=
          fun heq => hhead (List.mem_map.mpr ⟨x, hx, heq.symm⟩)
        have hsame := hother _ hne
        rw [← hsame] at hsummary
        exact (hagrees x hx hsummary).congr hsame.symm rfl

end Rip

end Ns3
