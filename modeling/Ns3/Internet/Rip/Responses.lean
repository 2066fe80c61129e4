import Ns3.Internet.Rip.Consistency

namespace Ns3.Rip

/-- What a function leaves as it is: the clock, the interfaces and the routes that meet `P`. -/
structure Keeps (s s' : Rip) (P : RipRoute → Prop) : Prop where
  now : s'.simulator.now = s.simulator.now
  ipv4 : s'.m_ipv4 = s.m_ipv4
  routes : ∀ x ∈ s.m_routes, P x → x ∈ s'.m_routes

theorem Keeps.refl (s : Rip) (P : RipRoute → Prop) : Keeps s s P := ⟨rfl, rfl, fun _ hx _ => hx⟩

theorem Keeps.trans {s s₁ s₂ : Rip} {P Q : RipRoute → Prop} (h : Keeps s s₁ P) (h' : Keeps s₁ s₂ Q) :
    Keeps s s₂ fun x => P x ∧ Q x :=
  ⟨h'.now.trans h.now, h'.ipv4.trans h.ipv4, fun x hx hP => h'.routes x (h.routes x hx hP.1) hP.2⟩

theorem Keeps.mono {s s' : Rip} {P Q : RipRoute → Prop} (h : Keeps s s' P) (hsub : ∀ x ∈ s.m_routes, Q x → P x) :
    Keeps s s' Q :=
  ⟨h.now, h.ipv4, fun x hx hQ => h.routes x hx (hsub x hx hQ)⟩

variable {p : RipAttributes} {s : Rip} {it : RipRoute}

/-- Only a route that is invalid since this moment may be invalidated once more. -/
def Invalidable (s : Rip) (it : RipRoute) : Prop :=
  it.entry.status = .RIP_INVALID → it.invalidated = s.simulator.now

instance (s : Rip) (it : RipRoute) : Decidable (Invalidable s it) :=
  inferInstanceAs (Decidable (_ → _))

theorem Linked.invalidate_route (h : Linked s) (hit : it ∈ s.m_routes)
    (htimed : ∀ x ∈ s.m_routes, x.ptr ≠ it.ptr → Timed p s.simulator.pending x)
    (hmay : Invalidable s it) :
    ∃ s', s.invalidate_route p it.ptr = some s' ∧ Sound p s' ∧ Keeps s s' fun x => x ≠ it := by
  obtain ⟨hlinked, hfree⟩ := h.cancel hit
  have hnow : (if it.entry.status = .RIP_VALID then s.simulator.now else it.invalidated) =
      s.simulator.now := by
    split
    next => rfl
    next hnot =>
      cases hstatus : it.entry.status with
      | RIP_VALID => exact absurd hstatus hnot
      | RIP_INVALID => exact hmay hstatus
  refine ⟨_, by rw [Rip.invalidate_route, h.find hit], ?_, ?_⟩
  · refine hlinked.put hit (fun x hx hne => (htimed x hx hne).cancel h hit hne) hfree le_rfl
      (h.allocated it hit) (.inl rfl) rfl rfl rfl ?_
    refine .invalid ⟨s.simulator.next_uid, _, _⟩ rfl rfl (Agenda.mem_schedule.mpr (.inr rfl)) rfl rfl ?_
    show s.simulator.now + _ ≤ _
    rw [hnow]
  · refine ⟨rfl, rfl, ?_⟩
    intro x hx hne
    exact (mem_put h.toAddressed hit).mpr (.inr ⟨hx, hne⟩)

theorem Sound.invalidate_route (h : Sound p s) (hit : it ∈ s.m_routes) (hmay : Invalidable s it) :
    ∃ s', s.invalidate_route p it.ptr = some s' ∧ Sound p s' ∧ Keeps s s' fun x => x ≠ it :=
  h.toLinked.invalidate_route hit (fun x hx _ => h.timed x hx) hmay

theorem Sound.restart_timeout (h : Sound p s) (hit : it ∈ s.m_routes) {ptr next_ptr : ℕ}
    {entry : RipRoutingTableEntry} (hnext : s.next_ptr ≤ next_ptr) (hptr : ptr < next_ptr)
    (hfresh : ptr = it.ptr ∨ s.next_ptr ≤ ptr) (hdest : entry.destination = it.entry.destination)
    (hstatus : entry.status = .RIP_VALID) (hgateway : entry.is_gateway = true)
    (hmetric : entry.metric < link_down) :
    Sound p (restart_timeout p { s with next_ptr := next_ptr } it ptr entry) ∧
      Keeps s (restart_timeout p { s with next_ptr := next_ptr } it ptr entry) fun x => x ≠ it := by
  obtain ⟨hlinked, hfree⟩ := h.toLinked.cancel hit
  constructor
  · refine hlinked.put hit (fun x hx hne => (h.timed x hx).cancel h.toLinked hit hne) hfree hnext hptr
      hfresh hdest rfl rfl ?_
    exact .learnt ⟨s.simulator.next_uid, _, _⟩ hstatus hgateway hmetric
      (Agenda.mem_schedule.mpr (.inr rfl)) rfl rfl le_rfl
  · refine ⟨rfl, rfl, ?_⟩
    intro x hx hne
    exact (mem_put h.toAddressed hit).mpr (.inr ⟨hx, hne⟩)

/-- An RTE of the metric that the route has. It is an error when the route cannot be reached: the
timer that is to delete it is exchanged, or the route is taken for valid; and a directly connected
network is learnt from a neighbour. -/
def Confused (p : RipAttributes) (s : Rip) (it : RipRoute) (rteMetric : ℕ) (senderAddress : Ipv4Address) :
    Prop :=
  rteMetric = it.entry.metric ∧
    if senderAddress = it.entry.gateway then it.entry.metric = link_down
    else s.simulator.get_delay_left it.event < p.m_timeoutDelay / 2 ∧
      (it.entry.metric = link_down ∨ it.entry.is_gateway = false)

instance (p : RipAttributes) (s : Rip) (it : RipRoute) (rteMetric : ℕ) (senderAddress : Ipv4Address) :
    Decidable (Confused p s it rteMetric senderAddress) :=
  inferInstanceAs (Decidable (rteMetric = it.entry.metric ∧
    if senderAddress = it.entry.gateway then it.entry.metric = link_down
    else s.simulator.get_delay_left it.event < p.m_timeoutDelay / 2 ∧
      (it.entry.metric = link_down ∨ it.entry.is_gateway = false)))

theorem is_gateway_of_ne_zero {entry : RipRoutingTableEntry} (h : entry.gateway ≠ Ipv4Address.get_zero) :
    entry.is_gateway = true := by
  simpa [RipRoutingTableEntry.is_gateway] using h

theorem Timed.metric_le {pending : List (Agenda.Event RipCall)} (h : Timed p pending it) :
    it.entry.metric ≤ link_down := by
  cases h with
  | direct _ _ hmetric _ => rw [hmetric]; decide
  | learnt _ _ _ hmetric _ _ _ _ => exact hmetric.le
  | invalid _ _ hmetric _ _ _ _ => exact hmetric.le

theorem rte_metric_le (p : RipAttributes) (rte : RipRte) (i : ℕ) :
    p.rte_metric rte i ≤ link_down :=
  min_le_right _ _

theorem update_route_direct {rte : RipRte} {senderAddress : Ipv4Address} {i : ℕ}
    (hmetric : it.entry.metric = 1) (hgateway : it.entry.is_gateway = false)
    (hsender : senderAddress ≠ Ipv4Address.get_zero) (hrte : 1 ≤ p.rte_metric rte i)
    (hregular : ¬ Confused p s it (p.rte_metric rte i) senderAddress) :
    s.update_route p it rte senderAddress i = some s := by
  have hzero : it.entry.gateway = Ipv4Address.get_zero := by
    simpa [RipRoutingTableEntry.is_gateway] using hgateway
  have hne : senderAddress ≠ it.entry.gateway := by rwa [hzero]
  have hnlt : ¬ p.rte_metric rte i < it.entry.metric := by omega
  by_cases heq : p.rte_metric rte i = it.entry.metric
  · have hleft : ¬ s.simulator.get_delay_left it.event < p.m_timeoutDelay / 2 := by
      intro hleft
      exact hregular ⟨heq, by rw [if_neg hne]; exact ⟨hleft, .inr hgateway⟩⟩
    simp only [update_route, if_neg hnlt, if_pos heq, if_neg hne, if_neg hleft]
  · simp only [update_route, if_neg hnlt, if_neg heq, if_neg hne]

theorem Sound.replace_route (h : Sound p s) (hit : it ∈ s.m_routes) {rte : RipRte} {rteMetric i : ℕ}
    {senderAddress : Ipv4Address} (hdest : it.entry.destination = rte.destination)
    (hsender : senderAddress ≠ Ipv4Address.get_zero) (hmetric : rteMetric < link_down) :
    Sound p (s.replace_route p it rte rteMetric senderAddress i) ∧
      Keeps s (s.replace_route p it rte rteMetric senderAddress i) fun x => x ≠ it :=
  h.restart_timeout hit (Nat.le_succ _) (Nat.lt_succ_self _) (.inr le_rfl) hdest.symm rfl
    (is_gateway_of_ne_zero hsender) hmetric

theorem Sound.refresh_route (h : Sound p s) (hit : it ∈ s.m_routes) (rte : RipRte) {rteMetric : ℕ}
    (hgateway : it.entry.is_gateway = true) (hmetric : rteMetric < link_down) :
    Sound p (s.refresh_route p it rte rteMetric) ∧
      Keeps s (s.refresh_route p it rte rteMetric) fun x => x ≠ it :=
  h.restart_timeout hit le_rfl (h.allocated it hit) (.inl rfl) rfl rfl hgateway hmetric

theorem Sound.update_route (h : Sound p s) (hit : it ∈ s.m_routes) {rte : RipRte} {i : ℕ}
    {senderAddress : Ipv4Address} (hdest : it.entry.destination = rte.destination)
    (hsender : senderAddress ≠ Ipv4Address.get_zero) (hrte : 1 ≤ p.rte_metric rte i)
    (hregular : ¬ Confused p s it (p.rte_metric rte i) senderAddress) :
    ∃ s', s.update_route p it rte senderAddress i = some s' ∧ Sound p s' ∧
      Keeps s s' fun x => x ≠ it ∨ x.Connected := by
  by_cases hdirect : it.entry.status = .RIP_VALID ∧ it.entry.is_gateway = false
  · -- the entry stays, whatever the sender
    refine ⟨s, ?_, h, Keeps.refl _ _⟩
    cases h.timed it hit with
    | direct _ hgateway hmetric _ => exact update_route_direct hmetric hgateway hsender hrte hregular
    | learnt _ _ hgateway => simp [hgateway] at hdirect
    | invalid _ hstatus => simp [hstatus] at hdirect
  · have hkeeps : ∀ {s'}, (Keeps s s' fun x => x ≠ it) → Keeps s s' fun x => x ≠ it ∨ x.Connected := by
      intro s' hk
      refine hk.mono fun x _ hx => ?_
      rcases hx with hne | hconn
      · exact hne
      · rintro rfl
        exact hdirect hconn
    have hle := (h.timed it hit).metric_le
    have hcap := rte_metric_le p rte i
    -- a route whose gateway is the sender is a learnt one
    have hlearnt : senderAddress = it.entry.gateway → it.entry.is_gateway = true := by
      intro heq
      exact is_gateway_of_ne_zero (heq ▸ hsender)
    by_cases hlt : p.rte_metric rte i < it.entry.metric
    · by_cases hsame : senderAddress = it.entry.gateway
      · obtain ⟨hs, hk⟩ := h.refresh_route hit rte (hlearnt hsame) (hlt.trans_le hle)
        exact ⟨_, by simp only [Rip.update_route, if_pos hlt, if_neg (not_not.mpr hsame)], hs, hkeeps hk⟩
      · obtain ⟨hs, hk⟩ := h.replace_route hit hdest hsender (hlt.trans_le hle) (i := i)
        exact ⟨_, by simp only [Rip.update_route, if_pos hlt, ne_eq, if_pos hsame], hs, hkeeps hk⟩
    by_cases heq : p.rte_metric rte i = it.entry.metric
    · by_cases hsame : senderAddress = it.entry.gateway
      · have hne : it.entry.metric ≠ link_down :=
          fun hm => hregular ⟨heq, by rw [if_pos hsame]; exact hm⟩
        have hvalid : it.entry.status = .RIP_VALID := by
          cases h.timed it hit with
          | direct hstatus => exact hstatus
          | learnt _ hstatus => exact hstatus
          | invalid _ _ hmetric => exact absurd hmetric hne
        obtain ⟨hs, hk⟩ := h.restart_timeout hit le_rfl (h.allocated it hit) (.inl rfl) rfl hvalid
          (hlearnt hsame) (lt_of_le_of_ne hle hne)
        exact ⟨_, by simp only [Rip.update_route, if_neg hlt, if_pos heq, if_pos hsame], hs, hkeeps hk⟩
      by_cases hleft : s.simulator.get_delay_left it.event < p.m_timeoutDelay / 2
      · have hne : it.entry.metric ≠ link_down :=
          fun hm => hregular ⟨heq, by rw [if_neg hsame]; exact ⟨hleft, .inl hm⟩⟩
        have hlow : p.rte_metric rte i < link_down := by
          rw [heq]
          exact lt_of_le_of_ne hle hne
        obtain ⟨hs, hk⟩ := h.replace_route hit hdest hsender hlow (i := i)
        exact ⟨_, by simp only [Rip.update_route, if_neg hlt, if_pos heq, if_neg hsame, if_pos hleft],
          hs, hkeeps hk⟩
      · exact ⟨s, by simp only [Rip.update_route, if_neg hlt, if_pos heq, if_neg hsame, if_neg hleft], h,
          Keeps.refl _ _⟩
    by_cases hsame : senderAddress = it.entry.gateway
    · by_cases hdown : p.rte_metric rte i < link_down
      · obtain ⟨hs, hk⟩ := h.refresh_route hit rte (hlearnt hsame) hdown
        exact ⟨_, by simp only [Rip.update_route, if_neg hlt, if_neg heq, if_pos hsame, if_pos hdown], hs,
          hkeeps hk⟩
      · -- the gateway reports that it has lost the network
        have hmetric : it.entry.metric < link_down := by omega
        have hmay : Invalidable s it := by
          intro hstatus
          cases h.timed it hit with
          | direct hvalid => simp [hstatus] at hvalid
          | learnt _ hvalid => simp [hstatus] at hvalid
          | invalid _ _ hm => exact absurd hm hmetric.ne
        obtain ⟨hlinked, -⟩ := h.toLinked.cancel hit
        obtain ⟨s', hs', hsound, hk⟩ := hlinked.invalidate_route hit
          (fun x hx hne => (h.timed x hx).cancel h.toLinked hit hne) hmay
        refine ⟨s', ?_, hsound, hkeeps ⟨hk.now, hk.ipv4, hk.routes⟩⟩
        simp only [Rip.update_route, if_neg hlt, if_neg heq, if_pos hsame, if_neg hdown, hs']
    · exact ⟨s, by simp only [Rip.update_route, if_neg hlt, if_neg heq, if_neg hsame], h, Keeps.refl _ _⟩

theorem Sound.learn_route (h : Sound p s) {rte : RipRte} {rteMetric i : ℕ} {senderAddress : Ipv4Address}
    (hsender : senderAddress ≠ Ipv4Address.get_zero) (hmetric : rteMetric < link_down)
    (hnew : ∀ x ∈ s.m_routes, x.entry.destination ≠ rte.destination) :
    Sound p (s.learn_route p rte rteMetric senderAddress i) ∧
      Keeps s (s.learn_route p rte rteMetric senderAddress i) fun _ => True := by
  refine ⟨⟨⟨h.toAddressed.learn_route hnew, h.agenda.schedule _ _, ?_, ?_, ?_⟩, ?_⟩, rfl, rfl, ?_⟩
  · intro x hx uid huid
    rcases List.mem_cons.mp hx with rfl | hx
    · cases huid
      exact Nat.lt_succ_self _
    · exact Nat.lt_succ_of_lt (h.scheduled x hx uid huid)
  · intro e he
    rcases Agenda.mem_schedule.mp he with hold | rfl
    · obtain ⟨x, hx, hxptr, hxevent⟩ := h.owned e hold
      exact ⟨x, List.mem_cons_of_mem _ hx, hxptr, hxevent⟩
    · exact ⟨_, List.mem_cons_self, rfl, rfl⟩
  · intro e he x hx hxevent
    rcases Agenda.mem_schedule.mp he with hold | rfl
    · rcases List.mem_cons.mp hx with rfl | hx
      · exact absurd (h.agenda.fresh e hold) (by rw [Option.some.inj hxevent]; exact lt_irrefl _)
      · exact h.owner e hold x hx hxevent
    · rcases List.mem_cons.mp hx with rfl | hx
      · rfl
      · exact absurd (h.scheduled x hx _ hxevent) (lt_irrefl _)
  · intro x hx
    rcases List.mem_cons.mp hx with rfl | hx
    · exact .learnt ⟨s.simulator.next_uid, _, _⟩ rfl (is_gateway_of_ne_zero hsender) hmetric
        (Agenda.mem_schedule.mpr (.inr rfl)) rfl rfl le_rfl
    · exact (h.timed x hx).schedule (h.scheduled x hx)
  · intro x hx _
    exact List.mem_cons_of_mem _ hx

/-- An RTE is regular for a table that has no route it confuses. -/
def RegularRte (p : RipAttributes) (senderAddress : Ipv4Address) (i : ℕ) (s : Rip) (rte : RipRte) : Prop :=
  ∀ it ∈ s.m_routes, it.entry.destination = rte.destination →
    ¬ Confused p s it (p.rte_metric rte i) senderAddress

instance (p : RipAttributes) (senderAddress : Ipv4Address) (i : ℕ) (s : Rip) (rte : RipRte) :
    Decidable (RegularRte p senderAddress i s rte) :=
  inferInstanceAs (Decidable (∀ it ∈ s.m_routes, _ → _))

/-- Each RTE is regular for the table that it is handled with. -/
def RegularRtes (p : RipAttributes) (senderAddress : Ipv4Address) (i : ℕ) : Rip → List RipRte → Prop
  | _, [] => True
  | s, rte :: rest => RegularRte p senderAddress i s rte ∧
    match s.handle_rte p senderAddress i rte with
    | some s' => RegularRtes p senderAddress i s' rest
    | none => True

instance decidableRegularRtes (p : RipAttributes) (senderAddress : Ipv4Address) (i : ℕ) :
    (s : Rip) → (rtes : List RipRte) → Decidable (RegularRtes p senderAddress i s rtes)
  | _, [] => isTrue trivial
  | s, rte :: rest =>
    have : Decidable (match s.handle_rte p senderAddress i rte with
        | some s' => RegularRtes p senderAddress i s' rest
        | none => True) :=
      match s.handle_rte p senderAddress i rte with
      | some s' => decidableRegularRtes p senderAddress i s' rest
      | none => isTrue trivial
    inferInstanceAs (Decidable (_ ∧ _))

theorem Sound.handle_rte (h : Sound p s) {rte : RipRte} {i : ℕ} {senderAddress : Ipv4Address}
    (hsender : senderAddress ≠ Ipv4Address.get_zero) (hrte : 1 ≤ p.rte_metric rte i)
    (hregular : RegularRte p senderAddress i s rte) :
    ∃ s', s.handle_rte p senderAddress i rte = some s' ∧ Sound p s' ∧ Keeps s s' RipRoute.Connected := by
  unfold Rip.handle_rte
  rw [foldlM_ite]
  rcases h.toAddressed.filter_destination rte.destination with hnone | ⟨it, hit, hdest, hone⟩
  · have hnew : ∀ x ∈ s.m_routes, x.entry.destination ≠ rte.destination := by
      intro x hx
      simpa using List.filter_eq_nil_iff.mp hnone x hx
    have hfound : (s.m_routes.any fun it => it.entry.destination = rte.destination) = false := by
      simpa using hnew
    rw [hnone, hfound]
    by_cases hdown : p.rte_metric rte i = link_down
    · exact ⟨s, by simp [hdown], h, Keeps.refl _ _⟩
    · obtain ⟨hs, hk⟩ := h.learn_route hsender (lt_of_le_of_ne (rte_metric_le p rte i) hdown) hnew (i := i)
      exact ⟨_, by simp [hdown], hs, hk.mono fun _ _ _ => trivial⟩
  · have hfound : (s.m_routes.any fun it => it.entry.destination = rte.destination) = true := by
      simpa using ⟨it, hit, hdest⟩
    obtain ⟨s', hs', hsound, hk⟩ := h.update_route hit hdest hsender hrte (hregular it hit hdest)
    rw [hone, hfound]
    exact ⟨s', by simp [hs'], hsound, hk.mono fun _ _ hconn => .inr hconn⟩

theorem one_le_rte_metric {rte : RipRte} (h : well_formed rte = true) (i : ℕ) : 1 ≤ p.rte_metric rte i := by
  have hpos : rte.route_metric ≠ 0 := by
    rintro heq
    simp [well_formed, heq] at h
  simp only [RipAttributes.rte_metric, link_down]
  omega

theorem Sound.handle_rtes {i : ℕ} {senderAddress : Ipv4Address} (rtes : List RipRte) {s : Rip}
    (h : Sound p s) (hsender : senderAddress ≠ Ipv4Address.get_zero)
    (hwell : ∀ rte ∈ rtes, well_formed rte = true) (hregular : RegularRtes p senderAddress i s rtes) :
    ∃ s', rtes.foldlM (fun s rte => s.handle_rte p senderAddress i rte) s = some s' ∧ Sound p s' ∧
      Keeps s s' RipRoute.Connected := by
  induction rtes generalizing s with
  | nil => exact ⟨s, rfl, h, Keeps.refl _ _⟩
  | cons rte rest ih =>
    obtain ⟨hhead, hrest⟩ := hregular
    obtain ⟨s₁, hs₁, hsound₁, hk₁⟩ :=
      h.handle_rte hsender (one_le_rte_metric (hwell rte List.mem_cons_self) i) hhead
    rw [hs₁] at hrest
    obtain ⟨s', hs', hsound, hk⟩ := ih hsound₁ (fun x hx => hwell x (List.mem_cons_of_mem _ hx)) hrest
    exact ⟨s', by rw [List.foldlM_cons, hs₁]; exact hs', hsound,
      (hk₁.trans hk).mono fun _ _ hconn => ⟨hconn, hconn⟩⟩

/-- The response is neither ignored as one of the router itself or of an excluded interface nor for
its form. -/
def handles (p : RipAttributes) (s : Rip) (rtes : List RipRte) (senderAddress : Ipv4Address) (i : ℕ) :
    Bool :=
  !s.is_own_address senderAddress && !p.excluded i && (deserialize rtes).all well_formed

/-- A response that is ignored, or whose RTEs are regular. -/
def RegularResponse (p : RipAttributes) (s : Rip) (rtes : List RipRte) (senderAddress : Ipv4Address)
    (i : ℕ) : Prop :=
  handles p s rtes senderAddress i = true → RegularRtes p senderAddress i s (deserialize rtes)

instance (p : RipAttributes) (s : Rip) (rtes : List RipRte) (senderAddress : Ipv4Address) (i : ℕ) :
    Decidable (RegularResponse p s rtes senderAddress i) :=
  inferInstanceAs (Decidable (_ = true → _))

theorem receive_eq (p : RipAttributes) (s : Rip) (rtes : List RipRte) (senderAddress : Ipv4Address) (i : ℕ) :
    s.receive p rtes senderAddress i =
      if handles p s rtes senderAddress i then
        (deserialize rtes).foldlM (fun s rte => s.handle_rte p senderAddress i rte) s
      else some s := by
  cases hown : s.is_own_address senderAddress <;> cases hexcluded : p.excluded i <;>
    simp [Rip.receive, handle_responses, handles, hown, hexcluded]

theorem Sound.receive (h : Sound p s) {rtes : List RipRte} {senderAddress : Ipv4Address} {i : ℕ}
    (hsender : senderAddress ≠ Ipv4Address.get_zero) (hregular : RegularResponse p s rtes senderAddress i) :
    ∃ s', s.receive p rtes senderAddress i = some s' ∧ Sound p s' ∧ Keeps s s' RipRoute.Connected := by
  rw [receive_eq]
  split
  next hhandles =>
    have hwell : (deserialize rtes).all well_formed = true := by
      simp only [handles, Bool.and_eq_true] at hhandles
      exact hhandles.2
    exact h.handle_rtes _ hsender (List.all_eq_true.mp hwell) (hregular hhandles)
  next => exact ⟨s, rfl, h, Keeps.refl _ _⟩

end Ns3.Rip
