import Ns3.Foundation.Reachable
import Ns3.Internet.Rip.Updates

namespace Ns3.Rip

open Transition

variable {p : RipAttributes} {s : Rip}

/-- The addresses of an interface that have a route. -/
def globals (s : Rip) (i : ℕ) : List Ipv4InterfaceAddress := (s.addresses i).filter fun a => a.scope = .global

/-- No network of an interface that comes up is in the table already, and none is there twice. -/
def RegularUp (s : Rip) (i : ℕ) : Prop :=
  s.is_loopback i = false → 68 ≤ (s.m_ipv4[i]?.map (·.mtu)).getD 0 →
    ((s.globals i).map network).Nodup ∧
      ∀ a ∈ s.globals i, ∀ it ∈ s.m_routes, it.entry.destination ≠ network a

instance (s : Rip) (i : ℕ) : Decidable (RegularUp s i) :=
  inferInstanceAs (Decidable (_ → _ → _ ∧ ∀ a ∈ s.globals i, ∀ it ∈ s.m_routes, _))

/-- A route that an interface or an address takes with it: it is not one that waits for its deletion,
and no address that stays needs it. -/
def Releasable (s : Rip) (interfaces : List RipInterface) (it : RipRoute) : Prop :=
  Invalidable s it ∧ (it.Connected → ¬ Attached interfaces it.entry.destination)

instance (s : Rip) (interfaces : List RipInterface) (it : RipRoute) :
    Decidable (Releasable s interfaces it) :=
  inferInstanceAs (Decidable (_ ∧ (_ → _)))

/-- The interfaces once an interface is down. -/
def downed (s : Rip) (i : ℕ) : List RipInterface := s.m_ipv4.modify i fun x => { x with up := false }

def RegularDown (s : Rip) (i : ℕ) : Prop :=
  ∀ it ∈ s.m_routes, it.entry.interface = i → Releasable s (s.downed i) it

instance (s : Rip) (i : ℕ) : Decidable (RegularDown s i) :=
  inferInstanceAs (Decidable (∀ it ∈ s.m_routes, _ → _))

/-- The network of an address that is added is new; an excluded interface gets no route. -/
def RegularAdd (p : RipAttributes) (s : Rip) (i : ℕ) (address : Ipv4InterfaceAddress) : Prop :=
  s.is_up i = true → address.scope = .global →
    if p.excluded i then
      s.is_loopback i = false →
        ∃ it ∈ s.m_routes, it.entry.destination = network address ∧ it.Connected
    else ∀ it ∈ s.m_routes, it.entry.destination ≠ network address

instance (p : RipAttributes) (s : Rip) (i : ℕ) (address : Ipv4InterfaceAddress) :
    Decidable (RegularAdd p s i address) :=
  inferInstanceAs (Decidable (_ → _ →
    if p.excluded i then
      s.is_loopback i = false → ∃ it ∈ s.m_routes, it.entry.destination = network address ∧ it.Connected
    else ∀ it ∈ s.m_routes, it.entry.destination ≠ network address))

/-- The interfaces once an address is removed. -/
def stripped (s : Rip) (i addressIndex : ℕ) : List RipInterface :=
  s.m_ipv4.modify i fun x => { x with addresses := x.addresses.eraseIdx addressIndex }

def RegularRemove (s : Rip) (i addressIndex : ℕ) : Prop :=
  ∀ address ∈ (s.addresses i)[addressIndex]?, s.is_up i = true → address.scope = .global →
    ∀ it ∈ s.m_routes, it.entry.interface = i → it.entry.is_network = true →
      it.entry.destination = network address → Releasable s (s.stripped i addressIndex) it

instance (s : Rip) (i addressIndex : ℕ) : Decidable (RegularRemove s i addressIndex) :=
  inferInstanceAs (Decidable (∀ address ∈ (s.addresses i)[addressIndex]?, _ → _ → ∀ it ∈ s.m_routes, _))

/-- What a step must be like for the table to stay consistent. -/
def Regular (p : RipAttributes) (s : Rip) : RipEvent → Prop
  | .response rtes senderAddress i => RegularResponse p s rtes senderAddress i
  | .interfaceUp i => RegularUp s i
  | .interfaceDown i => RegularDown s i
  | .addAddress i address => RegularAdd p s i address
  | .removeAddress i addressIndex => RegularRemove s i addressIndex
  | _ => True

instance (p : RipAttributes) (s : Rip) : (e : RipEvent) → Decidable (Regular p s e)
  | .response rtes senderAddress i => inferInstanceAs (Decidable (RegularResponse p s rtes senderAddress i))
  | .interfaceUp i => inferInstanceAs (Decidable (RegularUp s i))
  | .interfaceDown i => inferInstanceAs (Decidable (RegularDown s i))
  | .addAddress i address => inferInstanceAs (Decidable (RegularAdd p s i address))
  | .removeAddress i addressIndex => inferInstanceAs (Decidable (RegularRemove s i addressIndex))
  | .start | .update _ | .advance _ | .run _ => isTrue trivial

/-- The table is empty, and no interface is up yet but the loopback. `SetIpv4` brings up those that
are. -/
def Initial (s : Rip) : Prop :=
  s.m_routes = [] ∧ s.simulator.pending = [] ∧ ∀ x ∈ s.m_ipv4, x.up = true → x.loopback = true

/-- What every step keeps. -/
structure Invariant (p : RipAttributes) (s : Rip) : Prop where
  sound : Sound p s
  covered : Covered s

theorem Initial.invariant (h : Initial s) : Invariant p s := by
  obtain ⟨hroutes, hpending, hdown⟩ := h
  refine ⟨⟨⟨⟨?_, ?_, ?_⟩, ⟨?_, ?_⟩, ?_, ?_, ?_⟩, ?_⟩, ?_⟩
  all_goals try simp [hroutes, hpending]
  rintro destination ⟨x, hx, hup, hloopback, -⟩
  rw [hdown x hx hup] at hloopback
  cases hloopback

theorem Invariant.release (h : Invariant p s) {interfaces : List RipInterface}
    (hsub : ∀ destination, Attached interfaces destination → Attached s.m_ipv4 destination)
    {routes : List RipRoute} (hnodup : routes.Nodup)
    (hroutes : ∀ it ∈ routes, it ∈ s.m_routes ∧ Releasable s interfaces it) :
    ∃ s', routes.foldlM (fun s it => s.invalidate_route p it.ptr) { s with m_ipv4 := interfaces } = some s' ∧
      Invariant p s' := by
  have hsound : Sound p { s with m_ipv4 := interfaces } := h.sound.congr rfl rfl rfl
  obtain ⟨s', hs', hsound', hk⟩ := hsound.invalidate_routes routes hnodup
    (fun it hit => ⟨(hroutes it hit).1, (hroutes it hit).2.1⟩)
  refine ⟨s', hs', hsound', ?_⟩
  intro destination hattached
  rw [hk.ipv4] at hattached
  obtain ⟨it, hit, hdest, hconn⟩ := h.covered destination (hsub destination hattached)
  refine ⟨it, hk.routes it hit ?_, hdest, hconn⟩
  intro hmem
  exact (hroutes it hmem).2.2 hconn (hdest ▸ hattached)

theorem attached_of_downed {i : ℕ} {destination : Ipv4Address × Ipv4Mask}
    (h : Attached (s.downed i) destination) : Attached s.m_ipv4 destination := by
  obtain ⟨x, hx, hup, hloopback, ha⟩ := h
  rcases mem_modify hx with hx | ⟨y, -, rfl⟩
  · exact ⟨x, hx, hup, hloopback, ha⟩
  · cases hup

theorem attached_of_stripped {i addressIndex : ℕ} {destination : Ipv4Address × Ipv4Mask}
    (h : Attached (s.stripped i addressIndex) destination) : Attached s.m_ipv4 destination := by
  obtain ⟨x, hx, hup, hloopback, a, ha, hglobal⟩ := h
  rcases mem_modify hx with hx | ⟨y, hy, rfl⟩
  · exact ⟨x, hx, hup, hloopback, a, ha, hglobal⟩
  · exact ⟨y, List.mem_of_getElem? hy, hup, hloopback, a, List.mem_of_mem_eraseIdx ha, hglobal⟩

theorem Invariant.interfaceDown (h : Invariant p s) {i : ℕ} (hregular : RegularDown s i) {s' : Rip}
    (hstep : s.set_down p i = some s') : Invariant p s' := by
  unfold set_down notify_interface_down at hstep
  rw [foldlM_ite] at hstep
  obtain ⟨s₁, hs₁, hinv⟩ := h.release (fun _ => attached_of_downed)
    (h.sound.distinct.of_map.filter fun it => it.entry.interface = i) (by
      intro it hit
      obtain ⟨hmem, hi⟩ := List.mem_filter.mp hit
      exact ⟨hmem, hregular it hmem (by simpa using hi)⟩)
  obtain ⟨s₂, hs₂, hdone⟩ := Option.bind_eq_some_iff.mp hstep
  cases hs₂.symm.trans hs₁
  cases hdone
  exact ⟨hinv.sound.congr rfl rfl rfl, hinv.covered⟩

theorem Invariant.removeAddress (h : Invariant p s) {i addressIndex : ℕ}
    (hregular : RegularRemove s i addressIndex) {s' : Rip}
    (hstep : s.remove_address p i addressIndex = some s') : Invariant p s' := by
  have hsame : Invariant p { s with m_ipv4 := s.stripped i addressIndex } := by
    refine ⟨h.sound.congr rfl rfl rfl, ?_⟩
    intro destination hattached
    exact h.covered destination (attached_of_stripped hattached)
  have hup : ∀ x : Rip, x.m_ipv4 = s.stripped i addressIndex → x.is_up i = s.is_up i := by
    intro x hx
    simp [is_up, hx, stripped, Function.comp_def]
  unfold remove_address at hstep
  split at hstep
  next address haddress =>
    unfold notify_remove_address at hstep
    split at hstep
    next =>
      cases hstep
      exact hsame
    next hisup =>
      split at hstep
      next =>
        cases hstep
        exact hsame
      next hglobal =>
        rw [foldlM_ite] at hstep
        rw [hup _ rfl] at hisup
        obtain ⟨s₁, hs₁, hinv⟩ := h.release (fun _ => attached_of_stripped)
          (h.sound.distinct.of_map.filter fun it =>
            it.entry.interface = i ∧ it.entry.is_network ∧ it.entry.destination = network address) (by
            intro it hit
            obtain ⟨hmem, hmatch⟩ := List.mem_filter.mp hit
            obtain ⟨hi, hnet, hdest⟩ := of_decide_eq_true hmatch
            exact ⟨hmem, hregular address haddress (by simpa using hisup) (not_not.mp hglobal) it hmem hi
              hnet hdest⟩)
        cases hstep.symm.trans hs₁
        exact hinv
  next => cases hstep

theorem Invariant.addAddress (h : Invariant p s) {i : ℕ} {address : Ipv4InterfaceAddress}
    (hregular : RegularAdd p s i address) : Invariant p (s.add_address p i address) := by
  -- the networks of the interfaces, the new one among them
  have hattached : ∀ {destination},
      Attached (s.m_ipv4.modify i fun x => { x with addresses := x.addresses ++ [address] }) destination →
        Attached s.m_ipv4 destination ∨ (s.is_up i = true ∧ s.is_loopback i = false ∧
          address.scope = .global ∧ network address = destination) := by
    rintro destination ⟨x, hx, hup, hloopback, a, ha, hglobal⟩
    rcases mem_modify hx with hx | ⟨y, hy, rfl⟩
    · exact .inl ⟨x, hx, hup, hloopback, a, ha, hglobal⟩
    · rcases List.mem_append.mp ha with ha | ha
      · exact .inl ⟨y, List.mem_of_getElem? hy, hup, hloopback, a, ha, hglobal⟩
      · rw [List.mem_singleton] at ha
        subst ha
        exact .inr ⟨by simpa [is_up, hy] using hup, by simpa [is_loopback, hy] using hloopback, hglobal⟩
  have hsound : Sound p { s with
      m_ipv4 := s.m_ipv4.modify i fun x => { x with addresses := x.addresses ++ [address] } } :=
    h.sound.congr rfl rfl rfl
  have hisup : Rip.is_up { s with
      m_ipv4 := s.m_ipv4.modify i fun x => { x with addresses := x.addresses ++ [address] } } i =
        s.is_up i := by
    simp [is_up, Function.comp_def]
  unfold add_address notify_add_address
  rw [hisup]
  split
  next hdown =>
    refine ⟨hsound, ?_⟩
    intro destination hatt
    rcases hattached hatt with hold | ⟨hup, -⟩
    · exact h.covered destination hold
    · simp [hup] at hdown
  next hup =>
    have hup : s.is_up i = true := by simpa using hup
    split
    next hexcluded =>
      refine ⟨hsound, ?_⟩
      intro destination hatt
      rcases hattached hatt with hold | ⟨-, hloopback, hglobal, rfl⟩
      · exact h.covered destination hold
      · have hhave := hregular hup hglobal
        rw [if_pos hexcluded] at hhave
        exact hhave hloopback
    next hactive =>
      split
      next hglobal =>
        have hnew := hregular hup hglobal
        rw [if_neg hactive] at hnew
        refine ⟨hsound.add_network_route_to i hnew, ?_⟩
        intro destination hatt
        rcases hattached hatt with hold | ⟨-, -, -, rfl⟩
        · obtain ⟨it, hit, hdest, hconn⟩ := h.covered destination hold
          exact ⟨it, mem_add_network_route_to.mpr (.inl hit), hdest, hconn⟩
        · exact ⟨_, mem_add_network_route_to.mpr (.inr rfl), rfl, rfl, rfl⟩
      next hlocal =>
        refine ⟨hsound, ?_⟩
        intro destination hatt
        rcases hattached hatt with hold | ⟨-, -, hglobal, -⟩
        · exact h.covered destination hold
        · exact absurd hglobal hlocal

theorem Invariant.congr (h : Invariant p s) {s' : Rip} (hroutes : s'.m_routes = s.m_routes)
    (hipv4 : s'.m_ipv4 = s.m_ipv4) (hsimulator : s'.simulator = s.simulator)
    (hnext : s'.next_ptr = s.next_ptr) : Invariant p s' := by
  refine ⟨h.sound.congr hroutes hsimulator hnext, ?_⟩
  intro destination hattached
  rw [hipv4] at hattached
  rw [hroutes]
  exact h.covered destination hattached

theorem Invariant.interfaceUp (h : Invariant p s) {i : ℕ} (hregular : RegularUp s i) :
    Invariant p (s.set_up p i) := by
  have hattached : ∀ {destination}, Attached (s.m_ipv4.modify i fun x => { x with up := true }) destination →
      Attached s.m_ipv4 destination ∨
        (s.is_loopback i = false ∧ ∃ a ∈ s.globals i, network a = destination) := by
    rintro destination ⟨x, hx, hup, hloopback, a, ha, hglobal, hdest⟩
    rcases mem_modify hx with hx | ⟨y, hy, rfl⟩
    · exact .inl ⟨x, hx, hup, hloopback, a, ha, hglobal, hdest⟩
    · refine .inr ⟨by simpa [is_loopback, hy] using hloopback, a, ?_, hdest⟩
      simpa [globals, addresses, hy] using ⟨ha, hglobal⟩
  have hsound : Sound p { s with m_ipv4 := s.m_ipv4.modify i fun x => { x with up := true } } :=
    h.sound.congr rfl rfl rfl
  unfold set_up
  split
  next hmtu =>
    unfold notify_interface_up
    rw [show is_loopback { s with m_ipv4 := s.m_ipv4.modify i fun x => { x with up := true } } i =
      s.is_loopback i by simp [is_loopback, Function.comp_def]]
    split
    next hloopback =>
      refine ⟨hsound, ?_⟩
      intro destination hatt
      rcases hattached hatt with hold | ⟨hnot, -⟩
      · exact h.covered destination hold
      · rw [hloopback] at hnot
        cases hnot
    next hloopback =>
      obtain ⟨hdistinct, hnew⟩ := hregular (by simpa using hloopback) hmtu
      rw [show addresses { s with m_ipv4 := s.m_ipv4.modify i fun x => { x with up := true } } i =
        s.addresses i by simp [addresses, Function.comp_def]]
      obtain ⟨hsound', hk, hconn⟩ := hsound.add_network_routes (s.globals i) hdistinct hnew (i := i)
      rw [globals, List.foldl_filter] at hsound' hk hconn
      simp only [decide_eq_true_eq] at hsound' hk hconn
      refine Invariant.congr (s := List.foldl _ _ _) ⟨hsound', ?_⟩ ?_ ?_ ?_ ?_
      · intro destination hatt
        rw [hk.ipv4] at hatt
        rcases hattached hatt with hold | ⟨-, a, ha, rfl⟩
        · obtain ⟨it, hit, hdest, hc⟩ := h.covered destination hold
          exact ⟨it, hk.routes it hit trivial, hdest, hc⟩
        · exact hconn a ha
      all_goals
        simp only []
        repeat' split
        all_goals rfl
  next => exact h

theorem Invariant.run (h : Invariant p s) {uid : ℕ} {s' : Rip} (hstep : s.step p (.run uid) = some s') :
    Invariant p s' := by
  cases htake : s.simulator.take uid with
  | none => simp [step, htake] at hstep
  | some taken =>
    obtain ⟨call, simulator⟩ := taken
    simp only [step, htake] at hstep
    obtain ⟨e, he, huid, hcall, -, rfl⟩ := Agenda.take_some htake
    obtain ⟨it, hit, -, hevent⟩ := h.sound.owned e he
    have hid : some uid = it.event := by rw [hevent, huid]
    rw [hid] at hstep
    obtain ⟨hlinked, hfree⟩ := h.sound.cancel hit
    have htimed : ∀ x ∈ s.m_routes, x.ptr ≠ it.ptr → Timed p (s.simulator.cancel it.event).pending x :=
      fun x hx hne => (h.sound.timed x hx).cancel h.sound.toLinked hit hne
    have hevents : ∀ e' ∈ s.simulator.pending, it.event = some e'.uid → e' = e := by
      intro e' he' hevent'
      exact h.sound.agenda.ext he' he (Option.some.inj (hevent'.symm.trans hevent))
    -- either call leaves the directly connected networks alone
    have hcovered : ∀ {s₁ : Rip}, ¬ it.Connected →
        Keeps { s with simulator := s.simulator.cancel it.event } s₁ (fun x => x ≠ it) → Covered s₁ := by
      intro s₁ hnot hk destination hattached
      rw [hk.ipv4] at hattached
      obtain ⟨x, hx, hdest, hconn⟩ := h.covered destination hattached
      exact ⟨x, hk.routes x hx fun heq => hnot (heq ▸ hconn), hdest, hconn⟩
    cases h.sound.timed it hit with
    | direct _ _ _ hover => exact absurd hevent (hover e he)
    | learnt e' hstatus hgateway _ hmem hevent' hcall' _ =>
      rw [hevents e' hmem hevent', hcall] at hcall'
      rw [hcall'] at hstep
      obtain ⟨s₁, hs₁, hsound, hk⟩ := hlinked.invalidate_route hit htimed (by
        intro hinvalid
        simp [hstatus] at hinvalid)
      cases hstep.symm.trans hs₁
      exact ⟨hsound, hcovered (fun hconn => by simp [hconn.2] at hgateway) hk⟩
    | invalid e' hstatus _ hmem hevent' hcall' _ =>
      rw [hevents e' hmem hevent', hcall] at hcall'
      rw [hcall'] at hstep
      obtain ⟨s₁, hs₁, hsound, hk⟩ := hlinked.delete_route hit htimed hfree
      cases hstep.symm.trans hs₁
      exact ⟨hsound, hcovered (fun hconn => by simp [hconn.1] at hstatus) hk⟩

def unchanged (it : RipRoute) : RipRoute := { it with entry := { it.entry with changed := false } }

theorem Invariant.update (h : Invariant p s) (periodic : Bool) :
    Invariant p (s.do_send_route_update p periodic).2 := by
  have hmem : ∀ {x}, x ∈ (s.do_send_route_update p periodic).2.m_routes ↔
      ∃ it ∈ s.m_routes, unchanged it = x := by
    intro x
    exact List.mem_map
  have hmap : ∀ {β : Type} (f : RipRoute → β), (∀ it, f (unchanged it) = f it) →
      (s.do_send_route_update p periodic).2.m_routes.map f = s.m_routes.map f := by
    intro β f hf
    rw [do_send_route_update, List.map_map]
    exact List.map_congr_left fun it _ => hf it
  refine ⟨⟨⟨⟨?_, ?_, ?_⟩, h.sound.agenda, ?_, ?_, ?_⟩, ?_⟩, ?_⟩
  · intro x hx
    obtain ⟨it, hit, rfl⟩ := hmem.mp hx
    exact h.sound.allocated it hit
  · rw [hmap _ fun _ => rfl]
    exact h.sound.distinct
  · rw [hmap _ fun _ => rfl]
    exact h.sound.unique
  · intro x hx
    obtain ⟨it, hit, rfl⟩ := hmem.mp hx
    exact h.sound.scheduled it hit
  · intro e he
    obtain ⟨it, hit, howned⟩ := h.sound.owned e he
    exact ⟨unchanged it, hmem.mpr ⟨it, hit, rfl⟩, howned⟩
  · intro e he x hx
    obtain ⟨it, hit, rfl⟩ := hmem.mp hx
    exact h.sound.owner e he it hit
  · intro x hx
    obtain ⟨it, hit, rfl⟩ := hmem.mp hx
    cases h.sound.timed it hit with
    | direct hstatus hgateway hmetric hover => exact .direct hstatus hgateway hmetric hover
    | learnt e hstatus hgateway hmetric he hevent hcall hts =>
      exact .learnt e hstatus hgateway hmetric he hevent hcall hts
    | invalid e hstatus hmetric he hevent hcall hts =>
      exact .invalid e hstatus hmetric he hevent hcall hts
  · intro destination hattached
    obtain ⟨it, hit, hdest, hconn⟩ := h.covered destination hattached
    exact ⟨unchanged it, hmem.mpr ⟨it, hit, rfl⟩, hdest, hconn⟩

theorem Invariant.start (h : Invariant p s) : Invariant p (s.do_initialize_sockets p) := by
  have hopen : ∀ (l : List ℕ) (x : Rip), Invariant p x →
      Invariant p (l.foldl (fun s i => if s.is_loopback i || p.excluded i then s else s.open_sockets i) x) := by
    intro l
    induction l with
    | nil => exact fun _ hx => hx
    | cons i rest ih =>
      intro x hx
      refine ih _ ?_
      beta_reduce
      split
      next => exact hx
      next => exact hx.congr rfl rfl rfl rfl
  exact hopen _ _ (h.congr rfl rfl rfl rfl)

theorem Invariant.step (h : Invariant p s) {e : RipEvent} (hregular : Regular p s e) {s' : Rip}
    (hstep : s.step p e = some s') : Invariant p s' := by
  cases e with
  | start =>
    cases hstep
    exact h.start
  | response rtes senderAddress i =>
    obtain ⟨s₁, hs₁, hsound, hk⟩ := h.sound.receive senderAddress.2 hregular
    cases hstep.symm.trans hs₁
    exact ⟨hsound, h.covered.keeps hk⟩
  | update periodic =>
    cases hstep
    exact h.update periodic
  | advance t =>
    obtain ⟨simulator, hadvance, rfl⟩ := Option.map_eq_some_iff.mp hstep
    rw [Agenda.advance_some hadvance]
    exact ⟨⟨⟨⟨h.sound.allocated, h.sound.distinct, h.sound.unique⟩,
      ⟨h.sound.agenda.fresh, h.sound.agenda.distinct⟩, h.sound.scheduled, h.sound.owned, h.sound.owner⟩,
      h.sound.timed⟩, h.covered⟩
  | run uid => exact h.run hstep
  | interfaceUp i =>
    cases hstep
    exact h.interfaceUp hregular
  | interfaceDown i => exact h.interfaceDown hregular hstep
  | addAddress i address =>
    cases hstep
    exact h.addAddress hregular
  | removeAddress i addressIndex => exact h.removeAddress hregular hstep

theorem Invariant.consistent (h : Invariant p s) : Consistent p s := by
  refine ⟨h.sound.unique, ?_, ?_, ?_, ?_, h.covered⟩
  · intro it hit
    cases h.sound.timed it hit with
    | direct hstatus _ hmetric => simp [hstatus, hmetric, link_down]
    | learnt _ hstatus _ hmetric => simp [hstatus, hmetric]
    | invalid _ hstatus hmetric => simp [hstatus, hmetric]
  · intro it hit hinvalid
    cases h.sound.timed it hit with
    | direct hstatus => simp [hstatus] at hinvalid
    | learnt _ hstatus => simp [hstatus] at hinvalid
    | invalid e _ _ hmem _ hcall hts => exact ⟨e, hmem, hcall, hts⟩
  · intro it hit hvalid hgateway
    cases h.sound.timed it hit with
    | direct _ hnot => simp [hnot] at hgateway
    | learnt e _ _ _ hmem _ hcall hts => exact ⟨e, hmem, hcall, hts⟩
    | invalid _ hstatus => simp [hstatus] at hvalid
  · intro e he
    obtain ⟨it, hit, hptr, -⟩ := h.sound.owned e he
    cases hcall : e.call with
    | InvalidateRoute route =>
      rw [hcall] at hptr
      simp [run_call, invalidate_route, ← show it.ptr = route from hptr, h.sound.find hit]
    | DeleteRoute route =>
      rw [hcall] at hptr
      simp [run_call, delete_route, ← show it.ptr = route from hptr, h.sound.find hit]

/-- In every run whose steps are regular the table is consistent. -/
theorem consistent_of_regular (p : RipAttributes) {s : Rip}
    (h : Reachable Initial (step p) (Regular p) s) : Consistent p s :=
  (h.invariant (fun _ => Initial.invariant) fun _ _ _ hinv hregular hstep =>
    hinv.step hregular hstep : Invariant p s).consistent

/-- A router with one interface, that is down. -/
def oneInterface : Rip where
  m_ipv4 := [{ addresses := [.of 0x0a000001 0xffffff00], up := false }]

/-- A neighbour announces 10.0.1.0/24 with a metric. -/
def announce (senderAddress : Ipv4Address) (route_metric : ℕ)
    (h : senderAddress ≠ Ipv4Address.get_zero := by decide) : RipEvent :=
  .response [⟨0x0a000100, 0xffffff00, 0, route_metric⟩] ⟨senderAddress, h⟩ 0

/-- A test for an inconsistent table: two entries for a network, a status that does not go with the
metric, or an invalid entry that nothing deletes. -/
def flawed (s : Rip) : Bool :=
  !decide (s.m_routes.map fun it => it.entry.destination).Nodup ||
    s.m_routes.any fun it =>
      decide (it.entry.status = .RIP_VALID) != decide (it.entry.metric < link_down) ||
        (it.entry.status = .RIP_INVALID && s.simulator.pending.all fun e => e.call ≠ .DeleteRoute it.ptr)

theorem not_consistent_of_flawed (h : flawed s = true) : ¬ Consistent p s := by
  intro hconsistent
  simp only [flawed, hconsistent.unique, decide_true, Bool.not_true, Bool.false_or, List.any_eq_true,
    Bool.or_eq_true, Bool.and_eq_true, List.all_eq_true, decide_eq_true_eq] at h
  obtain ⟨it, hit, hstatus | ⟨hinvalid, hnone⟩⟩ := h
  · simp [hconsistent.valid_iff it hit] at hstatus
  · obtain ⟨e, he, hcall, -⟩ := hconsistent.collected it hit hinvalid
    exact hnone e he hcall

/-- The run of the router with one interface ends in a table that is not consistent. -/
def Spoils (events : List RipEvent) : Prop :=
  ∃ s, Reachable Initial (step {}) Always s ∧ execute (step {}) Always oneInterface events = some s ∧
    ¬ Consistent {} s

theorem spoils_of_flawed {events : List RipEvent}
    (h : (execute (step {}) Always oneInterface events).any flawed = true) : Spoils events := by
  obtain ⟨s, hs, hflawed⟩ := (Option.any_eq_true _ _).mp h
  exact ⟨s, (Reachable.init ⟨rfl, rfl, by decide⟩).execute hs, hs, not_consistent_of_flawed hflawed⟩

/-- A network that is reported lost a second time is never deleted; a late report of its loss by
another neighbour makes it a valid route of metric 16; and an interface that comes up again before
the entry of its network is collected gets a second one. -/
theorem inconsistent_runs :
    Spoils [.interfaceUp 0, announce 0x0a000002 1, announce 0x0a000002 16, announce 0x0a000002 16] ∧
      Spoils [.interfaceUp 0, announce 0x0a000002 1, announce 0x0a000002 16, .advance 31000000000,
        announce 0x0a000003 16] ∧
      Spoils [.interfaceUp 0, .interfaceDown 0, .interfaceUp 0] := by
  refine ⟨spoils_of_flawed ?_, spoils_of_flawed ?_, spoils_of_flawed ?_⟩ <;> decide +kernel

/-- A regular run: a network is learnt, confirmed, and lost. -/
theorem consistent_after_loss :
    ∃ s : Rip, s.m_routes.length = 2 ∧ (∃ it ∈ s.m_routes, it.entry.status = .RIP_INVALID) ∧
      Consistent {} s := by
  have hrun : (execute (step {}) (Regular {}) oneInterface [.interfaceUp 0, announce 0x0a000002 1,
      .advance 1000000000, announce 0x0a000002 1, announce 0x0a000002 16]).any (fun s =>
        s.m_routes.length = 2 ∧ ∃ it ∈ s.m_routes, it.entry.status = .RIP_INVALID) = true := by
    decide +kernel
  obtain ⟨s, hs, hroutes⟩ := (Option.any_eq_true _ _).mp hrun
  obtain ⟨hlength, hinvalid⟩ := of_decide_eq_true hroutes
  exact ⟨s, hlength, hinvalid,
    consistent_of_regular {} ((Reachable.init ⟨rfl, rfl, by decide⟩).execute hs)⟩

end Ns3.Rip
