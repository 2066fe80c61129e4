import Ns3.Aodv.Sockets
import Ns3.Foundation.Reachable

namespace Ns3.Aodv

variable {sockets : SocketMap} {addr iface : Ipv4InterfaceAddress} {socket k : Socket}

theorem getElem?_of_find_socket (h : find_socket sockets addr = some socket) : sockets[socket]? = some addr := by
  obtain ⟨p, hp, rfl⟩ := Option.map_eq_some_iff.mp h
  have hmem := List.mem_of_find?_eq_some hp
  have haddr : p.2 = addr := by simpa using List.find?_some hp
  rw [← haddr]
  exact Std.ExtTreeMap.mem_toList_iff_getElem?_eq_some.mp hmem

theorem find_socket_eq_none : find_socket sockets addr = none ↔ ∀ k : Socket, sockets[k]? ≠ some addr := by
  rw [find_socket, Option.map_eq_none_iff, List.find?_eq_none]
  constructor
  · intro hnone k hk
    exact hnone (k, addr) (Std.ExtTreeMap.mem_toList_iff_getElem?_eq_some.mpr hk) (by simp)
  · rintro hnone ⟨k, a⟩ hmem haddr
    obtain rfl : a = addr := by simpa using haddr
    exact hnone k (Std.ExtTreeMap.mem_toList_iff_getElem?_eq_some.mp hmem)

/-- One open socket for each address in a map. -/
structure OneOpen (closed : List Socket) (sockets : SocketMap) : Prop where
  unique : ∀ (a : Ipv4InterfaceAddress) (k k' : Socket), sockets[k]? = some a → sockets[k']? = some a → k = k'
  opened : ∀ k ∈ sockets, k ∉ closed

theorem OneOpen.insert {closed : List Socket} (h : OneOpen closed sockets)
    (hnone : ∀ k : Socket, sockets[k]? ≠ some iface) (hopen : socket ∉ closed) :
    OneOpen closed (sockets.insert socket iface) where
  unique a k k' hk hk' := by
    rw [Std.ExtTreeMap.getElem?_insert] at hk hk'
    have := h.unique a k k'
    grind
  opened k hk := by
    rcases Std.ExtTreeMap.mem_insert.mp hk with hk | hk
    · rwa [← Std.LawfulEqCmp.eq_of_compare hk]
    · exact h.opened k hk

theorem OneOpen.close {closed : List Socket} (h : OneOpen closed sockets) :
    OneOpen (socket :: closed) (sockets.erase socket) where
  unique a k k' hk hk' := by
    rw [Std.ExtTreeMap.getElem?_erase] at hk hk'
    have := h.unique a k k'
    grind
  opened k hk := by
    rw [Std.ExtTreeMap.mem_erase] at hk
    have := h.opened k hk.2
    grind

theorem OneOpen.cons {closed : List Socket} (h : OneOpen closed sockets) (hother : socket ∉ sockets) :
    OneOpen (socket :: closed) sockets where
  unique := h.unique
  opened k hk := by
    have := h.opened k hk
    grind

namespace Sockets

open Transition (Trace)

variable {s s' : Sockets} {pair : Socket × Socket} {op : Operation} {i : Nat}

/-- The maps serve the same addresses, each with one open socket in either map. -/
structure InStep (s : Sockets) : Prop where
  same : ∀ a : Ipv4InterfaceAddress, (∃ k : Socket, s.socket_addresses[k]? = some a) ↔
    ∃ k : Socket, s.socket_subnet_broadcast_addresses[k]? = some a
  unicast : OneOpen s.closed s.socket_addresses
  broadcast : OneOpen s.closed s.socket_subnet_broadcast_addresses

def Apart (s : Sockets) : Prop := ∀ k ∈ s.socket_addresses, k ∉ s.socket_subnet_broadcast_addresses

/-- No address with sockets is removed, and no interface whose address has sockets is set up. -/
def Spares (s : Sockets) : Operation → Prop
  | .remove_address i _ => ∀ a ∈ s.ipv4.get_address i, a ≠ {} → s.find_socket_with_interface_address a = none
  | .set_up i _ => ∀ a ∈ s.ipv4.get_address i, a.local_addr ≠ Ipv4Address.get_loopback →
      s.find_socket_with_interface_address a = none
  | _ => True

instance (s : Sockets) : (op : Operation) → Decidable (s.Spares op)
  | .remove_address i _ => inferInstanceAs (Decidable (∀ a ∈ s.ipv4.get_address i, _))
  | .set_up i _ => inferInstanceAs (Decidable (∀ a ∈ s.ipv4.get_address i, _))
  | .add_interface _ => inferInstanceAs (Decidable True)
  | .add_address .. => inferInstanceAs (Decidable True)
  | .set_down _ => inferInstanceAs (Decidable True)

theorem InStep.create_sockets (h : s.InStep) (hnew : s.New pair)
    (hnone : s.find_socket_with_interface_address iface = none) : (s.create_sockets iface pair).InStep := by
  have hunicast := find_socket_eq_none.mp hnone
  have hbroadcast : ∀ k : Socket, s.socket_subnet_broadcast_addresses[k]? ≠ some iface := by
    intro k hk
    obtain ⟨k', hk'⟩ := (h.same iface).mpr ⟨k, hk⟩
    exact hunicast k' hk'
  refine ⟨?_, h.unicast.insert hunicast (hnew.2 _ (.inl rfl)).2.2,
    h.broadcast.insert hbroadcast (hnew.2 _ (.inr rfl)).2.2⟩
  intro a
  have hsame := h.same a
  have hnew₁ := (hnew.2 _ (.inl rfl)).1
  have hnew₂ := (hnew.2 _ (.inr rfl)).2.1
  simp only [Sockets.create_sockets, Std.ExtTreeMap.getElem?_insert]
  constructor
  · rintro ⟨k, hk⟩
    split at hk
    · exact ⟨pair.2, by simpa using hk⟩
    · obtain ⟨k', hk'⟩ := hsame.mp ⟨k, hk⟩
      refine ⟨k', ?_⟩
      grind
  · rintro ⟨k, hk⟩
    split at hk
    · exact ⟨pair.1, by simpa using hk⟩
    · obtain ⟨k', hk'⟩ := hsame.mpr ⟨k, hk⟩
      refine ⟨k', ?_⟩
      grind

theorem Apart.create_sockets (h : s.Apart) (hnew : s.New pair) : (s.create_sockets iface pair).Apart := by
  intro k hk
  have hk₁ := hnew.2 _ (.inl rfl)
  have hk₂ := hnew.2 _ (.inr rfl)
  have hne := hnew.1
  have hapart := h k
  simp only [Sockets.create_sockets, Std.ExtTreeMap.mem_insert] at hk ⊢
  grind

theorem not_inStep_create_sockets (hnew : s.New pair)
    (hsome : s.find_socket_with_interface_address iface = some socket) :
    ¬ (s.create_sockets iface pair).InStep := by
  intro h
  have hk := getElem?_of_find_socket hsome
  have hne : pair.1 ≠ socket := by
    rintro rfl
    exact (hnew.2 _ (.inl rfl)).1 (Std.ExtTreeMap.mem_iff_isSome_getElem?.mpr (by simp [hk]))
  refine hne (h.unicast.unique iface pair.1 socket ?_ ?_)
  · simp [Sockets.create_sockets]
  · rw [Sockets.create_sockets, Std.ExtTreeMap.getElem?_insert, if_neg (by simpa using hne)]
    exact hk

theorem InStep.close_pair (h : s.InStep) (hapart : s.Apart) (hk : s.socket_addresses[k]? = some iface)
    (hsocket : s.socket_subnet_broadcast_addresses[socket]? = some iface) :
    InStep { s with
      closed := socket :: k :: s.closed
      socket_addresses := s.socket_addresses.erase k
      socket_subnet_broadcast_addresses := s.socket_subnet_broadcast_addresses.erase socket } := by
  have hmem : k ∈ s.socket_addresses := Std.ExtTreeMap.mem_iff_isSome_getElem?.mpr (by simp [hk])
  have hmem' : socket ∈ s.socket_subnet_broadcast_addresses :=
    Std.ExtTreeMap.mem_iff_isSome_getElem?.mpr (by simp [hsocket])
  refine ⟨?_, h.unicast.close.cons ?_, (h.broadcast.cons (hapart k hmem)).close⟩
  · intro a
    have hsame := h.same a
    have hunique := h.unicast.unique iface
    have hunique' := h.broadcast.unique iface
    simp only [Std.ExtTreeMap.getElem?_erase]
    constructor
    · rintro ⟨j, hj⟩
      split at hj
      · cases hj
      next hne =>
        obtain ⟨j', hj'⟩ := hsame.mp ⟨j, hj⟩
        refine ⟨j', ?_⟩
        grind
    · rintro ⟨j, hj⟩
      split at hj
      · cases hj
      next hne =>
        obtain ⟨j', hj'⟩ := hsame.mpr ⟨j, hj⟩
        refine ⟨j', ?_⟩
        grind
  · intro herase
    exact hapart socket (Std.ExtTreeMap.mem_erase.mp herase).2 hmem'

theorem Apart.erase {sockets' : SocketMap} (h : s.Apart) (k : Socket)
    (hsub : ∀ j ∈ sockets', j ∈ s.socket_subnet_broadcast_addresses) (closed : List Socket) :
    Apart { s with
      closed
      socket_addresses := s.socket_addresses.erase k
      socket_subnet_broadcast_addresses := sockets' } :=
  fun j hj hj' => h j (Std.ExtTreeMap.mem_erase.mp hj).2 (hsub j hj')

theorem notify_interface_down_kept (hapart : s.Apart) (hstep : s.notify_interface_down i = some s') :
    s'.Apart ∧ (s.InStep → s'.InStep) := by
  obtain ⟨iface, -, hstep⟩ := Option.bind_eq_some_iff.mp hstep
  obtain ⟨k, hk, hstep⟩ := Option.bind_eq_some_iff.mp hstep
  obtain ⟨socket, hsocket, rfl⟩ := Option.map_eq_some_iff.mp hstep
  refine ⟨hapart.erase k (fun j hj => (Std.ExtTreeMap.mem_erase.mp hj).2) _, fun h => ?_⟩
  exact h.close_pair hapart (getElem?_of_find_socket hk) (getElem?_of_find_socket hsocket)

theorem notify_add_address_kept (hapart : s.Apart) (hnew : s.New pair) :
    (s.notify_add_address i pair).Apart ∧ (s.InStep → (s.notify_add_address i pair).InStep) := by
  unfold notify_add_address
  split
  · exact ⟨hapart, id⟩
  · split
    next iface _ =>
      split
      next hnone =>
        split
        · exact ⟨hapart, id⟩
        · exact ⟨hapart.create_sockets hnew, fun h => h.create_sockets hnew hnone⟩
      next => exact ⟨hapart, id⟩
    next => exact ⟨hapart, id⟩

/-- Setting an interface up keeps the maps in step exactly if its address has no sockets yet. -/
theorem notify_interface_up_kept (hapart : s.Apart) (hnew : s.New pair)
    (hstep : s.notify_interface_up i pair = some s') :
    s'.Apart ∧ (s.InStep → (s'.InStep ↔ ∀ a ∈ s.ipv4.get_address i,
      a.local_addr ≠ Ipv4Address.get_loopback → s.find_socket_with_interface_address a = none)) := by
  obtain ⟨iface, hiface, rfl⟩ := Option.map_eq_some_iff.mp hstep
  split
  next hloopback =>
    refine ⟨hapart, fun h => ⟨fun _ a ha hne => ?_, fun _ => h⟩⟩
    rw [hiface, Option.mem_def] at ha
    obtain rfl := Option.some.inj ha
    exact absurd hloopback hne
  next hloopback =>
    refine ⟨hapart.create_sockets hnew, fun h => ⟨fun h' a ha _ => ?_, fun hnone => ?_⟩⟩
    · rw [hiface, Option.mem_def] at ha
      obtain rfl := Option.some.inj ha
      cases hfind : s.find_socket_with_interface_address iface with
      | none => rfl
      | some socket => exact absurd h' (not_inStep_create_sockets hnew hfind)
    · exact h.create_sockets hnew (hnone iface hiface hloopback)

theorem not_inStep_notify_remove_address (h : s.InStep) (hnone : s.ipv4.get_address i = none)
    (hsome : s.find_socket_with_interface_address iface = some socket) :
    ¬ (s.notify_remove_address i iface pair).InStep := by
  obtain ⟨k, hk⟩ := (h.same iface).mp ⟨socket, getElem?_of_find_socket hsome⟩
  have hfind : ∃ k, find_socket s.socket_subnet_broadcast_addresses iface = some k := by
    cases hfind : find_socket s.socket_subnet_broadcast_addresses iface with
    | none => exact absurd hk (find_socket_eq_none.mp hfind k)
    | some k => exact ⟨k, rfl⟩
  obtain ⟨k, hfind⟩ := hfind
  have hmem : k ∈ s.socket_subnet_broadcast_addresses :=
    Std.ExtTreeMap.mem_iff_isSome_getElem?.mpr (by simp [getElem?_of_find_socket hfind])
  intro h'
  unfold notify_remove_address at h'
  rw [hsome] at h'
  simp only [find_subnet_broadcast_socket_with_interface_address, close, hfind, hnone] at h'
  exact h'.broadcast.opened k hmem List.mem_cons_self

theorem notify_remove_address_apart (hapart : s.Apart) (hnone : s.ipv4.get_address i = none) :
    (s.notify_remove_address i iface pair).Apart := by
  unfold notify_remove_address
  split
  next socket _ =>
    simp only [find_subnet_broadcast_socket_with_interface_address, close]
    cases find_socket s.socket_subnet_broadcast_addresses iface with
    | some unicastSocket =>
      simp only [hnone]
      exact (hapart.erase socket (fun _ hj => hj) s.closed).erase unicastSocket (fun _ hj => hj) _
    | none =>
      simp only [hnone]
      exact hapart.erase socket (fun _ hj => hj) _
  next => exact hapart

theorem notify_remove_address_of_none (hnone : s.find_socket_with_interface_address iface = none) :
    s.notify_remove_address i iface pair = s := by
  rw [notify_remove_address, hnone]

theorem get_address_configure_nil (s : Sockets) (i : Nat) :
    (s.configure i fun iface => { iface with addresses := [] }).ipv4.get_address i = none := by
  unfold configure Ipv4.get_address
  rw [List.getElem?_modify]
  cases s.ipv4.interfaces[i]? <;> simp

theorem get_address_configure_up (s : Sockets) (i : Nat) :
    (s.configure i fun iface => { iface with up := true }).ipv4.get_address i = s.ipv4.get_address i := by
  unfold configure Ipv4.get_address
  rw [List.getElem?_modify]
  cases s.ipv4.interfaces[i]? <;> simp

/-- A step keeps the maps in step exactly if it spares the sockets. -/
theorem step_kept (hapart : s.Apart) (hstep : s.step op = some s') :
    s'.Apart ∧ (s.InStep → (s'.InStep ↔ s.Spares op)) := by
  cases op with
  | add_interface device =>
    obtain rfl := Option.some.inj hstep
    exact ⟨hapart, fun h => ⟨fun _ => trivial, fun _ => ⟨h.same, h.unicast, h.broadcast⟩⟩⟩
  | add_address i address pair =>
    simp only [step] at hstep
    split at hstep
    next hadd =>
      obtain rfl := Option.some.inj hstep
      have hkept := notify_add_address_kept (i := i)
        (s := s.configure i fun iface => { iface with addresses := [address] }) hapart hadd.2
      exact ⟨hkept.1, fun h => ⟨fun _ => trivial, fun _ => hkept.2 ⟨h.same, h.unicast, h.broadcast⟩⟩⟩
    next => cases hstep
  | remove_address i pair =>
    simp only [step] at hstep
    split at hstep
    next hnew =>
      obtain ⟨address, haddress, rfl⟩ := Option.map_eq_some_iff.mp hstep
      have hnone := s.get_address_configure_nil i
      have hin : s.InStep → (s.configure i fun iface => { iface with addresses := [] }).InStep :=
        fun h => ⟨h.same, h.unicast, h.broadcast⟩
      split
      next hdefault =>
        refine ⟨hapart, fun h => ⟨fun _ a ha hne => ?_, fun _ => hin h⟩⟩
        rw [haddress, Option.mem_def] at ha
        obtain rfl := Option.some.inj ha
        exact absurd hdefault hne
      next hdefault =>
        refine ⟨notify_remove_address_apart hapart hnone, fun h => ⟨fun h' a ha _ => ?_, fun hspares => ?_⟩⟩
        · rw [haddress, Option.mem_def] at ha
          obtain rfl := Option.some.inj ha
          cases hfind : s.find_socket_with_interface_address address with
          | none => rfl
          | some socket => exact absurd h' (not_inStep_notify_remove_address (hin h) hnone hfind)
        · have hfind : (s.configure i fun iface => { iface with addresses := [] }).find_socket_with_interface_address
              address = none := hspares address haddress hdefault
          rw [notify_remove_address_of_none hfind]
          exact hin h
    next => cases hstep
  | set_up i pair =>
    simp only [step] at hstep
    split at hstep
    next hnew =>
      have hkept := notify_interface_up_kept (s := s.configure i fun iface => { iface with up := true })
        hapart hnew hstep
      rw [get_address_configure_up] at hkept
      exact ⟨hkept.1, fun h => hkept.2 ⟨h.same, h.unicast, h.broadcast⟩⟩
    next => cases hstep
  | set_down i =>
    have hkept := notify_interface_down_kept (s := s.configure i fun iface => { iface with up := false })
      hapart hstep
    exact ⟨hkept.1, fun h => ⟨fun _ => trivial, fun _ => hkept.2 ⟨h.same, h.unicast, h.broadcast⟩⟩⟩

theorem Initial.kept (h : Initial s) : s.Apart ∧ s.InStep := by
  obtain ⟨lo, rfl⟩ := h
  refine ⟨fun k hk => absurd hk (by simp), ?_, ⟨?_, ?_⟩, ⟨?_, ?_⟩⟩
  all_goals simp

theorem trace_apart {steps : List (Sockets × Operation × Sockets)} (htrace : Trace Initial step steps s) :
    s.Apart := by
  induction htrace with
  | init hinit => exact hinit.kept.1
  | step _ hstep ih => exact (step_kept ih hstep).1

/-- In a run the socket maps are in step in every state exactly if every operation of the
run spares the sockets. -/
theorem sockets_in_step_iff {steps : List (Sockets × Operation × Sockets)}
    (htrace : Trace Initial step steps s) :
    (s.InStep ∧ ∀ x ∈ steps, x.1.InStep) ↔ ∀ x ∈ steps, x.1.Spares x.2.1 := by
  induction htrace with
  | init hinit => simp [hinit.kept.2]
  | @step steps s s' op htrace hstep ih =>
    have hkept := (step_kept (trace_apart htrace) hstep).2
    simp only [List.forall_mem_append, List.forall_mem_singleton]
    constructor
    · rintro ⟨h', hsteps, h⟩
      exact ⟨ih.mp ⟨h, hsteps⟩, (hkept h).mp h'⟩
    · rintro ⟨hsteps, hspares⟩
      obtain ⟨h, hbefore⟩ := ih.mpr hsteps
      exact ⟨(hkept h).mpr hspares, hbefore, h⟩

/-- The node of the runs below, with a loopback interface. -/
def node : Sockets :=
  { ipv4 := { interfaces := [{ device := 0, addresses := [.of Ipv4Address.get_loopback 0xff000000] }] } }

def address : Ipv4InterfaceAddress := .of 0x0a000001 0xffffff00

/-- The node after an interface has got an address and has been set up, with the states before. -/
def setUp : Option (Sockets × Sockets × Sockets) :=
  (node.step (.add_interface 1)).bind fun s₁ =>
  (s₁.step (.add_address 1 address (0, 1))).bind fun s₂ =>
  (s₂.step (.set_up 1 (0, 1))).map fun s₃ => (s₁, s₂, s₃)

theorem setUp_trace {s₁ s₂ s₃ : Sockets} (h : setUp = some (s₁, s₂, s₃)) :
    Trace Initial step [(node, .add_interface 1, s₁), (s₁, .add_address 1 address (0, 1), s₂),
      (s₂, .set_up 1 (0, 1), s₃)] s₃ := by
  obtain ⟨s₁', h₁, h⟩ := Option.bind_eq_some_iff.mp h
  obtain ⟨s₂', h₂, h⟩ := Option.bind_eq_some_iff.mp h
  obtain ⟨s₃', h₃, h⟩ := Option.map_eq_some_iff.mp h
  simp only [Prod.mk.injEq] at h
  obtain ⟨rfl, rfl, rfl⟩ := h
  exact ((Trace.init ⟨0, rfl⟩ |>.step h₁).step h₂).step h₃

theorem setUp_in_step : ∃ steps s, Trace Initial step steps s ∧ steps.length = 3 ∧
    s.InStep ∧ ∀ x ∈ steps, x.1.InStep := by
  have hrun : setUp.any (fun x => decide (x.2.1.Spares (.set_up 1 (0, 1)))) = true := by decide +kernel
  obtain ⟨⟨s₁, s₂, s₃⟩, hsetUp, hspares⟩ := (Option.any_eq_true _ _).mp hrun
  have htrace := setUp_trace hsetUp
  refine ⟨_, s₃, htrace, rfl, (sockets_in_step_iff htrace).mpr ?_⟩
  simp only [List.forall_mem_cons]
  exact ⟨trivial, trivial, of_decide_eq_true hspares, by simp⟩

/-- Removing the address leaves the closed subnet broadcast socket in its map. -/
theorem closed_socket_stays : ∃ steps s, Trace Initial step steps s ∧ s.socket_addresses = ∅ ∧
    s.socket_subnet_broadcast_addresses[(1 : Socket)]? = some address ∧ 1 ∈ s.closed ∧ ¬ s.InStep := by
  have hrun : (setUp.bind fun x => (x.2.2.step (.remove_address 1 (2, 3))).map fun s => (x, s)).any
      (fun x => decide (x.2.socket_addresses.isEmpty = true ∧ 1 ∈ x.2.closed ∧
        x.2.socket_subnet_broadcast_addresses[(1 : Socket)]? = some address)) = true := by decide +kernel
  obtain ⟨⟨⟨s₁, s₂, s₃⟩, s₄⟩, hx, hfacts⟩ := (Option.any_eq_true _ _).mp hrun
  obtain ⟨x, hsetUp, hx⟩ := Option.bind_eq_some_iff.mp hx
  obtain ⟨s, hremove, hx⟩ := Option.map_eq_some_iff.mp hx
  obtain ⟨rfl, rfl⟩ := Prod.mk.inj hx
  obtain ⟨hempty, hclosed, hstale⟩ := of_decide_eq_true hfacts
  refine ⟨_, s, (setUp_trace hsetUp).step hremove, Std.ExtTreeMap.isEmpty_iff.mp hempty, hstale, hclosed, ?_⟩
  intro h
  exact h.broadcast.opened 1 (Std.ExtTreeMap.mem_iff_isSome_getElem?.mpr (by simp [hstale])) hclosed

end Sockets

end Ns3.Aodv
