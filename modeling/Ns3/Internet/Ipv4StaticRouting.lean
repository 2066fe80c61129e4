import Ns3.Network.Address

namespace Ns3

structure Ipv4RoutingTableEntry where
  m_dest : Ipv4Address
  m_destNetworkMask : Ipv4Mask
  m_gateway : Ipv4Address
  m_interface : ℕ
deriving DecidableEq, Repr

namespace Ipv4RoutingTableEntry

def create_network_route_to (network : Ipv4Address) (networkMask : Ipv4Mask)
    (nextHop : Ipv4Address) (interface : ℕ) : Ipv4RoutingTableEntry :=
  ⟨network, networkMask, nextHop, interface⟩

def network (route : Ipv4RoutingTableEntry) : Ipv4Address × Ipv4Mask :=
  (route.m_dest, route.m_destNetworkMask)

end Ipv4RoutingTableEntry

open Ipv4RoutingTableEntry

/-- The routes with their metrics, in the order of the list. -/
structure Ipv4StaticRouting where
  m_networkRoutes : List (Ipv4RoutingTableEntry × ℕ) := []
deriving DecidableEq, Repr

namespace Ipv4StaticRouting

def get_n_routes (table : Ipv4StaticRouting) : ℕ := table.m_networkRoutes.length

/-- `GetMetric`. An index past the end is asserted not to be given. -/
def get_metric (table : Ipv4StaticRouting) (index : ℕ) : ℕ :=
  (table.m_networkRoutes[index]?.map Prod.snd).getD 0

/-- `RemoveRoute`. An index past the end is asserted not to be given. -/
def remove_route (table : Ipv4StaticRouting) (index : ℕ) : Ipv4StaticRouting :=
  ⟨table.m_networkRoutes.eraseIdx index⟩

def lookup_route (table : Ipv4StaticRouting) (route : Ipv4RoutingTableEntry) (metric : ℕ) : Bool :=
  table.m_networkRoutes.any fun j => j.1 == route && j.2 == metric

/-- `AddNetworkRouteTo`. A route that the table holds with the same metric is not added again. -/
def add_network_route_to (table : Ipv4StaticRouting) (network : Ipv4Address) (networkMask : Ipv4Mask)
    (nextHop : Ipv4Address) (interface metric : ℕ) : Ipv4StaticRouting :=
  let route := create_network_route_to network networkMask nextHop interface
  if table.lookup_route route metric then table else ⟨table.m_networkRoutes ++ [(route, metric)]⟩

theorem lookup_route_iff {table : Ipv4StaticRouting} {route : Ipv4RoutingTableEntry} {metric : ℕ} :
    table.lookup_route route metric = true ↔ (route, metric) ∈ table.m_networkRoutes := by
  unfold lookup_route
  rw [List.any_eq_true]
  constructor
  · rintro ⟨j, hj, h⟩
    rw [Bool.and_eq_true, beq_iff_eq, beq_iff_eq] at h
    rwa [← h.1, ← h.2]
  · intro h
    exact ⟨_, h, by simp⟩

end Ipv4StaticRouting

end Ns3
