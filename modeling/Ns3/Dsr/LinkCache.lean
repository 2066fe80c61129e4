import Ns3.Dsr.PathCache
import Ns3.Foundation.OrderedMap

namespace Ns3.Dsr

instance : IsStrictTotalOrder Ipv4Address (· < ·) where
  irrefl _ := UInt32.lt_irrefl _
  trans _ _ _ := UInt32.lt_trans
  trichotomous _ _ hab hba := UInt32.le_antisymm (UInt32.not_lt.mp hba) (UInt32.not_lt.mp hab)

/-- `Link`: the two ends of a link, the lower one first. -/
structure Link where
  low : Ipv4Address
  high : Ipv4Address
  ordered : low ≤ high
deriving DecidableEq, Repr

namespace Link

def of (ip1 ip2 : Ipv4Address) : Link :=
  if h : ip1 < ip2 then ⟨ip1, ip2, UInt32.le_of_lt h⟩ else ⟨ip2, ip1, UInt32.not_lt.mp h⟩

instance : LT Link := ⟨fun a b => a.low < b.low ∨ a.low = b.low ∧ a.high < b.high⟩

instance (a b : Link) : Decidable (a < b) :=
  inferInstanceAs (Decidable (a.low < b.low ∨ a.low = b.low ∧ a.high < b.high))

instance : IsStrictTotalOrder Link (· < ·) where
  irrefl a h := by
    rcases h with h | ⟨-, h⟩
    · exact UInt32.lt_irrefl _ h
    · exact UInt32.lt_irrefl _ h
  trans a b c hab hbc := by
    rcases hab with hab | ⟨hlow, hab⟩ <;> rcases hbc with hbc | ⟨hlow', hbc⟩
    · exact .inl (UInt32.lt_trans hab hbc)
    · exact .inl (hlow' ▸ hab)
    · exact .inl (hlow ▸ hbc)
    · exact .inr ⟨hlow.trans hlow', UInt32.lt_trans hab hbc⟩
  trichotomous a b hab hba := by
    obtain ⟨hlow, hhigh⟩ := not_or.mp hab
    obtain ⟨hlow', hhigh'⟩ := not_or.mp hba
    have heq : a.low = b.low := UInt32.le_antisymm (UInt32.not_lt.mp hlow') (UInt32.not_lt.mp hlow)
    have heq' : a.high = b.high :=
      UInt32.le_antisymm (UInt32.not_lt.mp fun h => hhigh' ⟨heq.symm, h⟩) (UInt32.not_lt.mp fun h => hhigh ⟨heq, h⟩)
    cases a
    cases b
    simp_all

end Link

/-- The weights of the links from each node. -/
abbrev NetGraph := OrderedMap Ipv4Address (OrderedMap Ipv4Address Nat)

def maxweight : Nat := 0xFFFF

/-- The address that stands for no node. -/
def Ipv4Address.get_broadcast : Ipv4Address := 0xffffffff

/-- The variables of `RebuildBestRouteTable`: the estimates, the preceding nodes, the nodes whose
distance is known and the node that has been chosen last. -/
structure Search where
  net_graph : NetGraph
  d : OrderedMap Ipv4Address Nat
  pre : OrderedMap Ipv4Address Ipv4Address
  s : List Ipv4Address := []
  tempip : Ipv4Address := Ipv4Address.get_broadcast

namespace Search

/-- Initialize-single-source. -/
def initial (net_graph : NetGraph) (source : Ipv4Address) : Search where
  net_graph := net_graph
  d := (net_graph.map fun _ links => (links.find source).getD maxweight).set source 0
  pre := net_graph.map fun _ links => if (links.find source).isSome then source else Ipv4Address.get_broadcast

/-- `temp` and `tempip` after one more node: of the nodes with the least estimate the last one is chosen. -/
def closer (s : List Ipv4Address) (best : Nat × Ipv4Address) (x : Ipv4Address × Nat) : Nat × Ipv4Address :=
  if x.1 ∉ s ∧ x.2 ≤ best.1 then (x.2, x.1) else best

variable (link_cache : OrderedMap Link Time) (now : Time) (q : Search)

def choose : Ipv4Address := (q.d.entries.foldl (closer q.s) (maxweight, q.tempip)).2

def distance (ip : Ipv4Address) : Nat := (q.d.find ip).getD 0

/-- Whether the link to the new preceding node is expected to live longer than that to the old one. -/
def lives_longer (ip : Ipv4Address) : Bool :=
  match link_cache.find (Link.of ip ((q.pre.find ip).getD Ipv4Address.uninitialized)), link_cache.find (Link.of ip q.tempip) with
  | some oldlink, some newlink => oldlink - now < newlink - now
  | _, _ => false

/-- The chosen node becomes the preceding one. -/
def precede (k : Ipv4Address × Nat) : Search :=
  { q with
    d := q.d.set k.1 (q.distance q.tempip + k.2)
    pre := q.pre.set k.1 q.tempip }

def relax (k : Ipv4Address × Nat) : Search :=
  if k.1 ∉ q.s ∧ q.distance q.tempip + k.2 < q.distance k.1 then q.precede k
  else if q.distance k.1 = q.distance q.tempip + k.2 ∧ q.lives_longer link_cache now k.1 then q.precede k
  else q

/-- The links of the chosen node, which `operator[]` creates when there are none. -/
def settle : Search :=
  { q with
    s := q.tempip :: q.s
    net_graph := q.net_graph.set q.tempip ((q.net_graph.find q.tempip).getD ∅) }

def visit : Search :=
  let q := { q with tempip := q.choose }
  if q.tempip.is_broadcast then q
  else
    let q := q.settle
    ((q.net_graph.find q.tempip).getD ∅).entries.foldl (relax link_cache now) q

/-- As many rounds as there are nodes in the graph, if the bound on the rounds allows for them. -/
def rounds : Nat → Nat → Search → Option Search
  | 0, _, _ => none
  | bound + 1, i, q => if i < q.net_graph.entries.length then rounds bound (i + 1) (q.visit link_cache now) else some q

/-- The nodes before a node, back to the source. -/
def follow (pre : OrderedMap Ipv4Address Ipv4Address) (source : Ipv4Address) : Nat → Ipv4Address → Option (List Ipv4Address)
  | 0, _ => none
  | bound + 1, iptemp =>
    if iptemp = source then some [source]
    else (follow pre source bound ((pre.find iptemp).getD Ipv4Address.uninitialized)).map (iptemp :: ·)

/-- The best route table with the route to one more node. -/
def add_best (pre : OrderedMap Ipv4Address Ipv4Address) (source : Ipv4Address)
    (table : OrderedMap Ipv4Address (List Ipv4Address)) (i : Ipv4Address × Ipv4Address) :
    Option (OrderedMap Ipv4Address (List Ipv4Address)) :=
  if i.2.is_broadcast = false ∧ i.1 ≠ source then
    (follow pre source (maxweight + 1) i.1).map fun route => table.set i.1 route.reverse
  else some table

end Search

/-- `RebuildBestRouteTable`, with the graph it leaves. There is none if a loop goes on beyond a bound. -/
def rebuild (link_cache : OrderedMap Link Time) (now : Time) (net_graph : NetGraph) (source : Ipv4Address) :
    Option (NetGraph × OrderedMap Ipv4Address (List Ipv4Address)) :=
  (Search.rounds link_cache now (net_graph.entries.length + 2) 0 (Search.initial net_graph source)).bind fun q =>
    (q.pre.entries.foldlM (Search.add_best q.pre source) ∅).map fun table => (q.net_graph, table)

/-- `DsrRouteCache` as a link cache. The stabilities are kept as the times they end. -/
structure LinkCache where
  stability_decr_factor : UInt32 := 2
  stability_incr_factor : UInt32 := 4
  init_stability : Time := 25000000000
  min_life_time : Time := 1000000000
  use_extends : Time := 120000000000
  route_cache_timeout : Time := 300000000000
  now : Time := 0
  link_cache : OrderedMap Link Time := ∅
  node_cache : OrderedMap Ipv4Address Time := ∅
  net_graph : NetGraph := ∅
  best_routes_table : OrderedMap Ipv4Address (List Ipv4Address) := ∅

namespace LinkCache

variable (s : LinkCache)

def purge_link_node : LinkCache :=
  { s with
    link_cache := s.link_cache.filter fun _ stability => !(stability - s.now ≤ 0)
    node_cache := s.node_cache.filter fun _ stability => !(stability - s.now ≤ 0) }

def add_weight (graph : NetGraph) (a b : Ipv4Address) : NetGraph := graph.set a (((graph.find a).getD ∅).set b 1)

def add_edge (graph : NetGraph) (i : Link × Time) : NetGraph :=
  add_weight (add_weight graph i.1.low i.1.high) i.1.high i.1.low

def update_net_graph : LinkCache := { s with net_graph := s.link_cache.entries.foldl add_edge ∅ }

def rebuild_best_route_table (source : Ipv4Address) : Option LinkCache :=
  (rebuild s.link_cache s.now s.net_graph source).map fun r => { s with net_graph := r.1, best_routes_table := r.2 }

def lookup_route_link (id : Ipv4Address) : Option RouteCacheEntry × LinkCache :=
  let s := s.purge_link_node
  (match s.best_routes_table.find id with
    | none => none
    | some path =>
      if path.length < 2 then none else some { dst := id, path := path, expire := s.route_cache_timeout + s.now }, s)

def set_node_stability (node : Ipv4Address) (stability : Time) : LinkCache :=
  { s with node_cache := s.node_cache.set node (stability + s.now) }

def set_link_stability (link : Link) (stability : Time) : LinkCache :=
  { s with link_cache := s.link_cache.set link (stability + s.now) }

def inc_stability (node : Ipv4Address) : LinkCache :=
  match s.node_cache.find node with
  | none => s.set_node_stability node s.init_stability
  | some stability => s.set_node_stability node ((stability - s.now) * s.stability_incr_factor.toNat)

def dec_stability (node : Ipv4Address) : LinkCache :=
  match s.node_cache.find node with
  | none => s.set_node_stability node s.init_stability
  | some stability => s.set_node_stability node (Int.tdiv (stability - s.now) s.stability_decr_factor.toNat)

/-- A node that is not known yet gets the initial stability. -/
def know_node (node : Ipv4Address) : LinkCache :=
  if (s.node_cache.find node).isNone then s.set_node_stability node s.init_stability else s

def node_stability (node : Ipv4Address) : Time := (s.node_cache.find node).getD 0 - s.now

def add_link (hop : Ipv4Address × Ipv4Address) : LinkCache :=
  let s := (s.know_node hop.1).know_node hop.2
  let stability := if s.node_stability hop.1 < s.node_stability hop.2 then s.node_stability hop.1 else s.node_stability hop.2
  s.set_link_stability (Link.of hop.1 hop.2) (if stability < s.min_life_time then s.min_life_time else stability)

/-- `AddRoute_Link`. There is no result for an empty list, whose size less one wraps around. -/
def add_route_link (nodelist : List Ipv4Address) (source : Ipv4Address) : Option LinkCache :=
  if nodelist = [] then none
  else ((hops nodelist).foldl add_link s.purge_link_node).update_net_graph.rebuild_best_route_table source

def extend_link (hop : Ipv4Address × Ipv4Address) : LinkCache :=
  match s.link_cache.find (Link.of hop.1 hop.2) with
  | none => s
  | some stability =>
    if stability - s.now < s.use_extends then s.set_link_stability (Link.of hop.1 hop.2) s.use_extends else s

def extend_node (node : Ipv4Address) : LinkCache :=
  match s.node_cache.find node with
  | none => s
  | some stability => if stability - s.now ≤ s.init_stability then s.inc_stability node else s

/-- `UseExtends`. -/
def extend_route (rt : List Ipv4Address) : LinkCache :=
  let s := s.purge_link_node
  if rt.length < 2 then s else rt.foldl extend_node ((hops rt).foldl extend_link s)

/-- The stability of a node is decreased if it is known. -/
def decrease_node (node : Ipv4Address) : LinkCache :=
  if (s.node_cache.find node).isNone then s else s.dec_stability node

def delete_all_routes_include_link (error_src unreach_node node : Ipv4Address) : Option LinkCache :=
  let s := s.purge_link_node
  let s := { s with link_cache := (s.link_cache.erase (Link.of error_src unreach_node)).erase (Link.of unreach_node error_src) }
  ((s.decrease_node error_src).decrease_node unreach_node).update_net_graph.rebuild_best_route_table node

inductive Event
  | add_route_link (nodelist : List Ipv4Address)
  | use_extends (rt : List Ipv4Address)
  | delete_all_routes_include_link (error_src unreach_node : Ipv4Address)
  | lookup_route_link (id : Ipv4Address)
  | advance (t : Time)
deriving DecidableEq, Repr

/-- One call at a node, which is the source of its routes, or the passing of time. -/
def step (source : Ipv4Address) : Event → Option LinkCache
  | .add_route_link nodelist => s.add_route_link nodelist source
  | .use_extends rt => some (s.extend_route rt)
  | .delete_all_routes_include_link error_src unreach_node => s.delete_all_routes_include_link error_src unreach_node source
  | .lookup_route_link id => some (s.lookup_route_link id).2
  | .advance t => if s.now ≤ t then some { s with now := t } else none

end LinkCache

end Ns3.Dsr
