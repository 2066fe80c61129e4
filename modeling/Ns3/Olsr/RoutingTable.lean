import Ns3.Olsr.RoutingProtocol

namespace Ns3.Olsr.RoutingProtocol

def clear (p : RoutingProtocol) : RoutingProtocol := { p with m_table := fun _ => none }

def lookup (p : RoutingProtocol) (dest : Ipv4Address) : Option RoutingTableEntry := p.m_table dest

def add_entry (p : RoutingProtocol) (dest next : Ipv4Address) (interface distance : ℕ) :
    RoutingProtocol :=
  { p with m_table := Function.update p.m_table dest (some ⟨dest, next, interface, distance⟩) }

/-- The first interface that has an address. -/
def find_interface (p : RoutingProtocol) (address : Ipv4Address) : Option ℕ :=
  p.m_ipv4.findIdx? fun addresses => addresses.contains address

/-- `AddEntry` by the address of the interface; none where no interface has it, which is
asserted not to happen. -/
def add_entry_via (p : RoutingProtocol) (dest next interfaceAddress : Ipv4Address) (distance : ℕ) :
    Option RoutingProtocol :=
  (p.find_interface interfaceAddress).map fun i => p.add_entry dest next i distance

namespace RoutingTableComputation

/-- What the scan of the link tuples of a neighbour has found: whether some interface address
is the main address, and the last link tuple. -/
structure Found where
  nb_main_addr : Bool := false
  lt : Option LinkTuple := none
deriving DecidableEq, Repr

def add_link (now : Time) (nb_tuple : NeighborTuple) (acc : RoutingProtocol × Found)
    (link_tuple : LinkTuple) : Option (RoutingProtocol × Found) :=
  let p := acc.1
  if p.m_state.get_main_address link_tuple.neighborIfaceAddr = nb_tuple.neighborMainAddr ∧
      link_tuple.time ≥ now then do
    let p ← p.add_entry_via link_tuple.neighborIfaceAddr link_tuple.neighborIfaceAddr
      link_tuple.localIfaceAddr 1
    let main := link_tuple.neighborIfaceAddr == nb_tuple.neighborMainAddr
    return (p, ⟨acc.2.nb_main_addr || main, some link_tuple⟩)
  else some acc

/-- Step 2, for one neighbour. -/
def add_neighbor (now : Time) (p : RoutingProtocol) (nb_tuple : NeighborTuple) :
    Option RoutingProtocol :=
  if nb_tuple.status = .STATUS_SYM then do
    let (p, found) ← p.m_state.m_linkSet.foldlM (add_link now nb_tuple) (p, {})
    match found.lt with
    | some lt =>
      if found.nb_main_addr then some p
      else p.add_entry_via nb_tuple.neighborMainAddr lt.neighborIfaceAddr lt.localIfaceAddr 1
    | none => some p
  else some p

/-- Step 3, for one 2-hop tuple. -/
def add_two_hop (p : RoutingProtocol) (nb2hop_tuple : TwoHopNeighborTuple) : RoutingProtocol :=
  if (p.m_state.find_sym_neighbor_tuple nb2hop_tuple.twoHopNeighborAddr).isSome then p
  else if nb2hop_tuple.twoHopNeighborAddr = p.m_mainAddress then p
  else if p.m_state.m_neighborSet.any fun neighbor =>
      neighbor.neighborMainAddr == nb2hop_tuple.neighborMainAddr &&
        neighbor.willingness != Willingness.NEVER then
    match p.lookup nb2hop_tuple.neighborMainAddr with
    | some entry => p.add_entry nb2hop_tuple.twoHopNeighborAddr entry.nextAddr entry.interface 2
    | none => p
  else p

/-- Step 3.1, for one topology tuple. -/
def add_topology (h : ℕ) (acc : RoutingProtocol × Bool) (topology_tuple : TopologyTuple) :
    RoutingProtocol × Bool :=
  let p := acc.1
  match p.lookup topology_tuple.destAddr, p.lookup topology_tuple.lastAddr with
  | none, some lastAddrEntry =>
    if lastAddrEntry.distance = h then
      (p.add_entry topology_tuple.destAddr lastAddrEntry.nextAddr lastAddrEntry.interface (h + 1), true)
    else acc
  | _, _ => acc

/-- The loop over the distances, with a bound on its turns; `none` when the bound is met first. -/
def grow : ℕ → ℕ → RoutingProtocol → Option RoutingProtocol
  | 0, _, _ => none
  | fuel + 1, h, p =>
    let (p, added) := p.m_state.m_topologySet.foldl (add_topology h) (p, false)
    if added then grow fuel (h + 1) p else some p

/-- Step 4, for one interface association. -/
def add_iface_assoc (p : RoutingProtocol) (tuple : IfaceAssocTuple) : RoutingProtocol :=
  match p.lookup tuple.mainAddr, p.lookup tuple.ifaceAddr with
  | some entry1, none => p.add_entry tuple.ifaceAddr entry1.nextAddr entry1.interface entry1.distance
  | _, _ => p

end RoutingTableComputation

open RoutingTableComputation

/-- `RoutingTableComputation`, without the routes to the networks of other gateways, which are
kept in a table of their own. -/
def routing_table_computation (p : RoutingProtocol) (now : Time) : Option RoutingProtocol := do
  let p ← p.m_state.m_neighborSet.foldlM (add_neighbor now) p.clear
  let p := p.m_state.m_twoHopNeighborSet.foldl add_two_hop p
  let p ← grow (p.m_state.m_topologySet.length + 1) 2 p
  return p.m_state.m_ifaceAssocSet.foldl add_iface_assoc p

section Unchanged

/-! Only the table changes. -/

def base (p : RoutingProtocol) : OlsrState × Ipv4Address × List (List Ipv4Address) :=
  (p.m_state, p.m_mainAddress, p.m_ipv4)

variable {p p' : RoutingProtocol}

theorem base_add_entry_via {dest next interfaceAddress : Ipv4Address} {distance : ℕ}
    (h : p.add_entry_via dest next interfaceAddress distance = some p') : p'.base = p.base := by
  obtain ⟨i, -, rfl⟩ := Option.map_eq_some_iff.mp h
  rfl

theorem base_foldlM {α β : Type} (view : β → RoutingProtocol) {f : β → α → Option β}
    (hf : ∀ b a b', f b a = some b' → (view b').base = (view b).base) (l : List α) {b b' : β}
    (h : l.foldlM f b = some b') : (view b').base = (view b).base := by
  induction l generalizing b with
  | nil =>
    cases h
    rfl
  | cons a l ih =>
    rw [List.foldlM_cons] at h
    obtain ⟨b₁, h₁, h⟩ := Option.bind_eq_some_iff.mp h
    rw [ih h, hf b a b₁ h₁]

theorem base_foldl {α β : Type} (view : β → RoutingProtocol) {f : β → α → β}
    (hf : ∀ b a, (view (f b a)).base = (view b).base) (l : List α) (b : β) :
    (view (l.foldl f b)).base = (view b).base := by
  induction l generalizing b with
  | nil => rfl
  | cons a l ih => rw [List.foldl_cons, ih, hf]

theorem base_add_link {now : Time} {nb_tuple : NeighborTuple} (acc : RoutingProtocol × Found)
    (link_tuple : LinkTuple) (acc' : RoutingProtocol × Found)
    (h : add_link now nb_tuple acc link_tuple = some acc') : acc'.1.base = acc.1.base := by
  unfold add_link at h
  dsimp only at h
  split at h
  · obtain ⟨p, hp, h⟩ := Option.bind_eq_some_iff.mp h
    rw [← Option.some.inj h]
    exact base_add_entry_via hp
  · rw [← Option.some.inj h]

theorem base_add_neighbor {now : Time} (p : RoutingProtocol) (nb_tuple : NeighborTuple)
    (p' : RoutingProtocol) (h : add_neighbor now p nb_tuple = some p') : p'.base = p.base := by
  unfold add_neighbor at h
  split at h
  · obtain ⟨⟨p₁, found⟩, h₁, h⟩ := Option.bind_eq_some_iff.mp h
    have hbase : p₁.base = p.base := base_foldlM Prod.fst base_add_link _ h₁
    dsimp only at h
    split at h
    · split at h
      · rw [← Option.some.inj h, hbase]
      · rw [base_add_entry_via h, hbase]
    · rw [← Option.some.inj h, hbase]
  · rw [← Option.some.inj h]

theorem base_add_two_hop (p : RoutingProtocol) (t : TwoHopNeighborTuple) :
    (add_two_hop p t).base = p.base := by
  unfold add_two_hop
  split_ifs
  · rfl
  · rfl
  · split <;> rfl
  · rfl

theorem base_add_topology {h : ℕ} (acc : RoutingProtocol × Bool) (t : TopologyTuple) :
    (add_topology h acc t).1.base = acc.1.base := by
  unfold add_topology
  dsimp only
  split
  · split <;> rfl
  · rfl

theorem base_grow (fuel h : ℕ) (hg : grow fuel h p = some p') : p'.base = p.base := by
  induction fuel generalizing h p with
  | zero => cases hg
  | succ fuel ih =>
    have hbase := base_foldl Prod.fst (base_add_topology (h := h)) p.m_state.m_topologySet
      (p, false)
    unfold grow at hg
    dsimp only at hg
    split at hg
    · rw [ih _ hg]
      exact hbase
    · rw [← Option.some.inj hg]
      exact hbase

theorem base_add_iface_assoc (p : RoutingProtocol) (t : IfaceAssocTuple) :
    (add_iface_assoc p t).base = p.base := by
  unfold add_iface_assoc
  split <;> rfl

theorem base_routing_table_computation {now : Time}
    (h : p.routing_table_computation now = some p') : p'.base = p.base := by
  obtain ⟨p₁, h₁, h⟩ := Option.bind_eq_some_iff.mp h
  obtain ⟨p₂, h₂, h⟩ := Option.bind_eq_some_iff.mp h
  rw [← Option.some.inj h]
  calc (p₂.m_state.m_ifaceAssocSet.foldl add_iface_assoc p₂).base = p₂.base :=
        base_foldl id base_add_iface_assoc _ _
    _ = (p₁.m_state.m_twoHopNeighborSet.foldl add_two_hop p₁).base := base_grow _ _ h₂
    _ = p₁.base := base_foldl id base_add_two_hop _ _
    _ = p.clear.base := base_foldlM id base_add_neighbor _ h₁
    _ = p.base := rfl

end Unchanged

end Ns3.Olsr.RoutingProtocol
