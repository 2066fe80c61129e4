import Ns3.Olsr.OlsrState

namespace Ns3.Olsr

structure RoutingTableEntry where
  destAddr : Ipv4Address
  nextAddr : Ipv4Address
  interface : ℕ
  distance : ℕ
deriving DecidableEq, Repr

/-- What the computations of a node read and write. `m_ipv4` holds the local addresses of each
interface and `m_table` the routing table. -/
structure RoutingProtocol where
  m_mainAddress : Ipv4Address
  m_ipv4 : List (List Ipv4Address)
  m_state : OlsrState := {}
  m_table : Ipv4Address → Option RoutingTableEntry := fun _ => none

namespace RoutingProtocol

/-- The main address or an address of an interface. -/
def Local (p : RoutingProtocol) (a : Ipv4Address) : Prop :=
  a = p.m_mainAddress ∨ ∃ addresses ∈ p.m_ipv4, a ∈ addresses

/-- A symmetric neighbour, by main address. -/
def Symmetric (p : RoutingProtocol) (a : Ipv4Address) : Prop :=
  ∃ n ∈ p.m_state.m_neighborSet, n.neighborMainAddr = a ∧ n.status = .STATUS_SYM

/-- The neighbour `a` reports the 2-hop address `x`. -/
def Reports (p : RoutingProtocol) (a x : Ipv4Address) : Prop :=
  ∃ t ∈ p.m_state.m_twoHopNeighborSet, t.neighborMainAddr = a ∧ t.twoHopNeighborAddr = x

end RoutingProtocol

end Ns3.Olsr

namespace Ns3.Olsr

namespace OlsrState

/-- `RoutingProtocol::Degree`: the tuples of the neighbour are counted only where the
neighbour has no neighbour tuple. -/
def degree (s : OlsrState) (tuple : NeighborTuple) : ℕ :=
  s.m_twoHopNeighborSet.countP fun t =>
    t.neighborMainAddr == tuple.neighborMainAddr && (s.find_neighbor_tuple t.neighborMainAddr).isNone

end OlsrState

/-- The 2-hop addresses that a neighbour reports in a 2-hop set. -/
def reported (neighborMainAddr : Ipv4Address) (N2 : List TwoHopNeighborTuple) : List Ipv4Address :=
  (N2.filter fun t => t.neighborMainAddr == neighborMainAddr).map (·.twoHopNeighborAddr)

/-- Drop the records of a set of addresses. -/
def erase_covered (covered : List Ipv4Address) (N2 : List TwoHopNeighborTuple) :
    List TwoHopNeighborTuple :=
  N2.filter fun t => ¬ t.twoHopNeighborAddr ∈ covered

def cover_two_hop_neighbors (neighborMainAddr : Ipv4Address) (N2 : List TwoHopNeighborTuple) :
    List TwoHopNeighborTuple :=
  erase_covered (reported neighborMainAddr N2) N2

namespace MprComputation

def symmetric (s : OlsrState) : List NeighborTuple :=
  s.m_neighborSet.filter fun n => n.status == .STATUS_SYM

/-- Whether the scan of `N` that stops at the first tuple of the reporting neighbour
finds it willing. -/
def reporter_ok (N : List NeighborTuple) (t : TwoHopNeighborTuple) : Bool :=
  match N.find? fun n => n.neighborMainAddr == t.neighborMainAddr with
  | some n => n.willingness != Willingness.NEVER
  | none => false

/-- The 2-hop records that the selection has to cover. -/
def two_hop (mainAddress : Ipv4Address) (N : List NeighborTuple) (s : OlsrState) :
    List TwoHopNeighborTuple :=
  s.m_twoHopNeighborSet.filter fun t =>
    t.twoHopNeighborAddr != mainAddress && reporter_ok N t &&
      !N.any fun n => n.neighborMainAddr == t.twoHopNeighborAddr

/-- Step 1: the neighbours that are always willing. -/
def select_always : List NeighborTuple → MprSet × List TwoHopNeighborTuple →
    MprSet × List TwoHopNeighborTuple
  | [], acc => acc
  | n :: N, (mprSet, N2) =>
    if n.willingness = Willingness.ALWAYS then
      select_always N
        (insert n.neighborMainAddr mprSet, cover_two_hop_neighbors n.neighborMainAddr N2)
    else select_always N (mprSet, N2)

/-- No other neighbour reports the address of the record. -/
def only_one (N2 : List TwoHopNeighborTuple) (t : TwoHopNeighborTuple) : Bool :=
  !N2.any fun o => o.twoHopNeighborAddr == t.twoHopNeighborAddr && o.neighborMainAddr != t.neighborMainAddr

/-- Step 3: the neighbours that alone report some address, and what they cover. -/
def select_only (N2 : List TwoHopNeighborTuple) : List TwoHopNeighborTuple →
    MprSet × List Ipv4Address → MprSet × List Ipv4Address
  | [], acc => acc
  | t :: rest, (mprSet, covered) =>
    if only_one N2 t then
      select_only N2 rest
        (insert t.neighborMainAddr mprSet, covered ++ reported t.neighborMainAddr N2)
    else select_only N2 rest (mprSet, covered)

/-- Step 4.1: how many records of `N2` a neighbour reports. -/
def reachability (N2 : List TwoHopNeighborTuple) (n : NeighborTuple) : ℕ :=
  N2.countP fun t => n.neighborMainAddr == t.neighborMainAddr

/-- The candidates with their reachability, in the order of the scan of step 4.2:
by reachability, then as in `N`. -/
def candidates (N : List NeighborTuple) (N2 : List TwoHopNeighborTuple) : List (NeighborTuple × ℕ) :=
  let rs := (N.map (reachability N2)).dedup.insertionSort (· ≤ ·)
  (rs.filter (· ≠ 0)).flatMap fun r =>
    (N.filter fun n => reachability N2 n == r).map fun n => (n, r)

/-- Step 4.2, for one candidate. -/
def better (s : OlsrState) (max : Option (NeighborTuple × ℕ)) (c : NeighborTuple × ℕ) :
    Option (NeighborTuple × ℕ) :=
  match max with
  | none => some c
  | some m =>
    if c.1.willingness > m.1.willingness then some c
    else if c.1.willingness = m.1.willingness then
      if c.2 > m.2 then some c
      else if c.2 = m.2 then
        if s.degree c.1 > s.degree m.1 then some c else some m
      else some m
    else some m

/-- Step 4: the loop, with a bound on its turns; `none` when the bound is met first. -/
def cover_loop (s : OlsrState) (N : List NeighborTuple) : ℕ → List TwoHopNeighborTuple → MprSet →
    Option MprSet
  | _, [], mprSet => some mprSet
  | 0, _ :: _, _ => none
  | fuel + 1, N2@(_ :: _), mprSet =>
    match (candidates N N2).foldl (better s) none with
    | some max =>
      cover_loop s N fuel (cover_two_hop_neighbors max.1.neighborMainAddr N2)
        (insert max.1.neighborMainAddr mprSet)
    | none => cover_loop s N fuel N2 mprSet

end MprComputation

open MprComputation

/-- `MprComputation`, with a bound on the turns of its last loop. -/
def RoutingProtocol.mpr_computation (p : RoutingProtocol) (fuel : ℕ) : Option RoutingProtocol := do
  let N := symmetric p.m_state
  let first := select_always N (∅, two_hop p.m_mainAddress N p.m_state)
  let second := select_only first.2 first.2 (first.1, [])
  let mprSet ← cover_loop p.m_state N fuel (erase_covered second.2 first.2) second.1
  return { p with m_state := p.m_state.set_mpr_set mprSet }

end Ns3.Olsr
