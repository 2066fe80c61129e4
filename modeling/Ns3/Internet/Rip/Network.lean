import Ns3.Foundation.ShortestRoute
import Ns3.Internet.Rip.Updates

namespace Ns3

/-- Routers, and the links that their interfaces are on. -/
structure RipNetwork (R Link : Type) where
  node : R → Rip
  attributes : R → RipAttributes
  link : R → ℕ → Option Link

namespace RipNetwork

open Rip WeightedPath

variable {R Link : Type} (net : RipNetwork R Link)

/-- Interface `i` of `r` and interface `j` of another router are on one link, and used by RIP. -/
def Linked (r : R) (i : ℕ) (s : R) (j : ℕ) : Prop :=
  r ≠ s ∧ (net.attributes r).excluded i = false ∧ (net.attributes s).excluded j = false ∧
    ∃ l, net.link r i = some l ∧ net.link s j = some l

/-- A hop to a neighbour costs the metric of the interface that its responses arrive on. -/
def Hop (r : R) (w : ℕ) (s : R) : Prop :=
  ∃ i j, net.Linked r i s j ∧ w = (net.attributes r).interface_metric i

/-- The router has an interface in the network. -/
def Connected (destination : Ipv4Address × Ipv4Mask) (r : R) : Prop :=
  Attached (net.node r).m_ipv4 destination

/-- The metric of a router for a network: `m_linkDown` where it has no valid entry. -/
def metric (r : R) (destination : Ipv4Address × Ipv4Mask) : ℕ :=
  match (net.node r).m_routes.find? fun it =>
    it.entry.destination = destination ∧ it.entry.status = .RIP_VALID with
  | some it => it.entry.metric
  | none => link_down

/-- The gateway of the valid entry of `r` is an address of `s`, on a link of both. -/
def NextHop (destination : Ipv4Address × Ipv4Mask) (r s : R) : Prop :=
  ∃ it ∈ (net.node r).m_routes, it.entry.destination = destination ∧ it.entry.status = .RIP_VALID ∧
    it.entry.is_gateway = true ∧ ∃ i j, net.Linked r i s j ∧
      ∃ x ∈ (net.node s).addresses j, x.local_addr = it.entry.gateway

/-- A packet of the full update of `s` reaches interface `i` of `r`, from the address `a`. -/
structure Delivery (r : R) (i : ℕ) (a : Ipv4Address) (hdr : List RipRte) (s : R) (j : ℕ) : Prop where
  linked : net.Linked r i s j
  sent : ((a, j), hdr) ∈ ((net.node s).do_send_route_update (net.attributes s) true).1

/-- No packet of a full update changes what a table says. -/
def Stable : Prop :=
  ∀ r i a hdr s j, net.Delivery r i a hdr s j →
    ∃ s', (net.node r).receive (net.attributes r) hdr a i = some s' ∧
      s'.m_routes.map RipRoute.summary = (net.node r).m_routes.map RipRoute.summary

/-- Each learnt valid entry gets a new timeout from a packet of a full update. -/
def Refreshed : Prop :=
  ∀ r, ∀ it ∈ (net.node r).m_routes, it.entry.status = .RIP_VALID → it.entry.is_gateway = true →
    ∃ i a hdr s j s', net.Delivery r i a hdr s j ∧
      (net.node r).receive (net.attributes r) hdr a i = some s' ∧
        ∃ it' ∈ s'.m_routes, it'.entry.destination = it.entry.destination ∧ it'.event ≠ it.event

/-- A network of routers whose tables hold their own networks. -/
structure Static (subnet : Link → Ipv4Address × Ipv4Mask) : Prop where
  subnet_eq : ∀ r i l, net.link r i = some l → ∀ x ∈ (net.node r).addresses i, network x = subnet l
  connected : ∀ r i l, net.link r i = some l → net.Connected (subnet l) r
  socket : ∀ r i l, net.link r i = some l → (net.attributes r).excluded i = false →
    ∃ a, (a, i) ∈ (net.node r).m_unicastSocketList
  bound : ∀ r a i, (a, i) ∈ (net.node r).m_unicastSocketList →
    ∃ x ∈ (net.node r).addresses i, x.local_addr = a
  address_unique : ∀ r i l, net.link r i = some l → ∀ x ∈ (net.node r).addresses i,
    ∀ s j, ∀ y ∈ (net.node s).addresses j, x.local_addr = y.local_addr → r = s ∧ i = j
  global : ∀ r destination, net.Connected destination r → destination.1 ≠ Ipv4Address.get_loopback
  one_le_metric : ∀ r i, 1 ≤ (net.attributes r).interface_metric i
  small : ∀ r, (net.node r).m_routes.length < 255
  addressed : ∀ r, (net.node r).Addressed
  connected_entry : ∀ r destination, net.Connected destination r →
    ∃ it ∈ (net.node r).m_routes, it.entry.destination = destination ∧
      it.entry.status = .RIP_VALID ∧ it.entry.metric = 1

/-- The prefix of a network: a unicast address without host bits. -/
def IsPrefix (destination : Ipv4Address × Ipv4Mask) : Prop :=
  destination.1.combine_mask destination.2 = destination.1 ∧ destination.1.is_localhost = false ∧
    destination.1.is_broadcast = false ∧ destination.1.is_multicast = false

instance (destination : Ipv4Address × Ipv4Mask) : Decidable (IsPrefix destination) :=
  inferInstanceAs (Decidable (_ ∧ _ ∧ _ ∧ _))

/-- What runs of the routers establish, and what the plan of the addresses must be like. -/
structure Regular (subnet : Link → Ipv4Address × Ipv4Mask) : Prop where
  status : ∀ r, ∀ it ∈ (net.node r).m_routes,
    it.entry.status = .RIP_VALID ∧ it.entry.metric < link_down ∨
      it.entry.status = .RIP_INVALID ∧ it.entry.metric = link_down
  direct : ∀ r, ∀ it ∈ (net.node r).m_routes, it.entry.status = .RIP_VALID →
    it.entry.is_gateway = false → net.Connected it.entry.destination r ∧
      ∃ x ∈ (net.node r).addresses it.entry.interface, network x = it.entry.destination
  learnt : ∀ r, ∀ it ∈ (net.node r).m_routes, it.entry.status = .RIP_VALID →
    it.entry.is_gateway = true → ∃ s j, net.Linked r it.entry.interface s j ∧
      ∃ x ∈ (net.node s).addresses j, x.local_addr = it.entry.gateway
  is_prefix : ∀ r, ∀ it ∈ (net.node r).m_routes, IsPrefix it.entry.destination
  one_mask : ∀ r i l, net.link r i = some l → ∀ it ∈ (net.node r).m_routes,
    it.entry.dest_network = (subnet l).1 → it.entry.dest_network_mask = (subnet l).2

/-- The metrics are the distances, and the gateways lead to the networks. -/
def ShortestPaths : Prop :=
  ∀ r destination,
    (net.metric r destination : ℕ∞) =
        min (link_down : ℕ∞) (1 + distance net.Hop (net.Connected destination) r) ∧
      ((∃ it ∈ (net.node r).m_routes, it.entry.destination = destination ∧ it.entry.status = .RIP_VALID) →
        ∃ l : List R, List.IsChain (net.NextHop destination) (r :: l) ∧ (r :: l).Nodup ∧
          net.Connected destination ((r :: l).getLast (List.cons_ne_nil r l))) ∧
      ∀ s s', net.NextHop destination r s → net.NextHop destination r s' → s = s'

end RipNetwork

end Ns3
