import Ns3.Foundation.Reachable
import Ns3.NixVectorRouting.Verification

namespace Ns3.NixVectorRouting

open Transition

/-- What the protocol asks of addresses, which are of two kinds. -/
class IpAddress (β : Type) where
  is_ipv4 : Bool
  uninitialized : β
  get_loopback : β
  get_zero : β
  is_localhost : β → Bool
  is_link_local_multicast : β → Bool
  is_multicast : β → Bool

instance : IpAddress Ipv4Address where
  is_ipv4 := true
  uninitialized := Ipv4Address.uninitialized
  get_loopback := Ipv4Address.get_loopback
  get_zero := Ipv4Address.get_zero
  is_localhost := Ipv4Address.is_localhost
  is_link_local_multicast _ := false
  is_multicast := Ipv4Address.is_multicast

/-- `GetAddress` of the addresses of interfaces. -/
class HasAddress (α : Type) (β : outParam Type) where
  get_address : α → β

instance : HasAddress Ipv4InterfaceAddress Ipv4Address := ⟨(·.local_addr)⟩

/-- The topology, and what the IP stack of the node of a device says of the device. -/
structure Network (nodes devices : Nat) (α β : Type) where
  net : Topology nodes devices α
  is_loopback : Fin devices → Bool := fun _ => false
  is_destination_address : β → Fin devices → Bool
  is_forwarding : Fin devices → Bool := fun _ => true
  source_address_selection : Fin devices → β → β

/-- A route. `index` and `requested` are history: the index that led to it, and the output device that
was asked for. -/
structure IpRoute (devices : Nat) (β : Type) where
  destination : β
  source : β
  gateway : β
  output_device : Option (Fin devices)
  index : UInt32 := 0
  requested : Option (Fin devices) := none
deriving DecidableEq

/-- The protocol of one node, with the static variables. A vector is cached with the output device that
was asked for, as history. -/
structure Protocol (nodes devices : Nat) (α β : Type) where
  network : Network nodes devices α β
  is_cache_dirty : Bool := false
  epoch : UInt32 := 0
  nix_cache : β → Option (NixVector × Option (Fin devices)) := fun _ => none
  ip_route_cache : β → Option (IpRoute devices β) := fun _ => none
  total_neighbors : UInt32 := 0

/-- What a call leads to. -/
inductive Answer (devices : Nat) (β : Type)
  | route (rtentry : IpRoute devices β) (nixVector : Option NixVector)
  | no_route_to_host
  | local_delivery
  | declined
  | error_callback
  | null_nix_vector
deriving DecidableEq

variable {nodes devices : Nat} {α β : Type} [IpInterfaceAddress α] [HasAddress α β] [IpAddress β] [DecidableEq β]

namespace Network

variable (w : Network nodes devices α β)

/-- `BuildIpAddressToNodeMap`; `none` is the abort for an address that is there twice. -/
def ip_address_to_node_map : Option (List (β × Fin nodes)) :=
  let entries := ((List.finRange nodes).filter w.net.has_ip).flatMap fun u =>
    ((w.net.node_devices u).filter fun d => !w.is_loopback d).flatMap fun d =>
      ((w.net.device d).interface.toList.flatMap (·.addresses)).map fun a => (HasAddress.get_address a, u)
  if (entries.map (·.1)).Nodup then some entries else none

def get_node_by_ip (dest : β) : Option (Option (Fin nodes)) :=
  w.ip_address_to_node_map.map fun entries => (entries.find? (·.1 = dest)).map (·.2)

/-- `BFS` for as many nodes as there are; from the source only the requested device is explored. -/
def bfs (source dest : Fin nodes) : Option (Fin devices) → Option (Bool × (Fin nodes → Option (Fin nodes)))
  | none => w.net.bfs (nodes + 1) source dest
  | some oif =>
    BreadthFirst.search (fun u => if u = source then w.net.explore_device source oif else w.net.explore u)
      dest (nodes + 1) (BreadthFirst.start source)

def get_nix_vector (epoch : UInt32) (source : Fin nodes) (dest : β) (oif : Option (Fin devices)) :
    Option (Option NixVector) :=
  (w.get_node_by_ip dest).bind fun destNode =>
    match destNode with
    | none => some none
    | some destNode =>
      if source = destNode then some none
      else
        (w.bfs source destNode oif).bind fun (found, parentVector) =>
          if found then
            (w.net.build_nix_vector parentVector source (nodes + 1) destNode { m_epoch := epoch }).map fun r =>
              if r.1 then some r.2 else none
          else some none

/-- `gatewayIp` of `FindNetDeviceForNixIndex`, which stays as it was without a neighbor. -/
def gateway_ip : Option (Fin devices) → Option β
  | none => some IpAddress.uninitialized
  | some d => (w.net.device d).interface.bind fun i => i.addresses.head?.map HasAddress.get_address

/-- The route that an index leads to, with the source address that is chosen for the interface. -/
def build_route (u : Fin nodes) (dest : β) (source : Fin devices → IpInterface α → Option β)
    (requested : Option (Fin devices)) (nodeIndex : UInt32) : Option (IpRoute devices β) := do
  let (index, gatewayDevice) ← w.net.find_net_device_for_nix_index u nodeIndex
  let gateway ← w.gateway_ip gatewayDevice
  let device := requested.getD index
  let interface ← (w.net.device device).interface
  let source ← source device interface
  return { destination := dest, source, gateway, output_device := some device, index := nodeIndex, requested }

end Network

namespace Protocol

variable (u : Fin nodes) (s : Protocol nodes devices α β)

def flush : Protocol nodes devices α β :=
  { s with nix_cache := fun _ => none, ip_route_cache := fun _ => none, total_neighbors := 0 }

def check_cache_state_and_flush : Protocol nodes devices α β :=
  if s.is_cache_dirty then { s.flush with epoch := s.epoch + 1, is_cache_dirty := false } else s

/-- The index in a vector, and the rest of the vector. The number of neighbors is counted once. -/
def extract (v : NixVector) : Option (UInt32 × NixVector × Protocol nodes devices α β) :=
  (if s.total_neighbors = 0 then s.network.net.find_total_neighbors u else some s.total_neighbors).bind fun total =>
    (v.extract_neighbor_index (NixVector.bit_count total)).map fun r => (r.1, r.2, { s with total_neighbors := total })

/-- The cached vector, or a new one that is cached. -/
def cached_nix_vector (dest : β) (oif : Option (Fin devices)) :
    Option (Option NixVector × Protocol nodes devices α β) :=
  match s.nix_cache dest with
  | some (v, _) => some (some v, s)
  | none =>
    (s.network.get_nix_vector s.epoch u dest oif).map fun r =>
      match r with
      | some v => (some v, { s with nix_cache := Function.update s.nix_cache dest (some (v, oif)) })
      | none => (none, s)

/-- The cached route if it will do, or a new one that is cached. -/
def cached_route (dest : β) (usable : IpRoute devices β → Bool) (source : Fin devices → IpInterface α → Option β)
    (requested : Option (Fin devices)) (nodeIndex : UInt32) : Option (IpRoute devices β × Protocol nodes devices α β) :=
  match (s.ip_route_cache dest).filter usable with
  | some rtentry => some (rtentry, s)
  | none =>
    (s.network.build_route u dest source requested nodeIndex).map fun rtentry =>
      (rtentry, { s with ip_route_cache := Function.update s.ip_route_cache dest (some rtentry) })

/-- `RouteOutput`, with or without a packet. -/
def route_output (dest : β) (oif : Option (Fin devices)) (has_packet : Bool) :
    Option (Answer devices β × Protocol nodes devices α β) :=
  let s := s.check_cache_state_and_flush
  if IpAddress.is_localhost dest then
    let lo := (s.network.net.node_devices u).find? fun d => s.network.is_loopback d && (s.network.net.device d).interface.isSome
    some (.route
      { destination := dest, source := IpAddress.get_loopback, gateway := IpAddress.get_zero, output_device := lo } none, s)
  else if !IpAddress.is_ipv4 β && IpAddress.is_link_local_multicast dest then
    oif.map fun d =>
      (.route
        { destination := dest, source := s.network.source_address_selection d dest, gateway := IpAddress.get_zero,
          output_device := some d } none, s)
  else
    (s.cached_nix_vector u dest oif).bind fun (nixVectorInCache, s) =>
      match nixVectorInCache with
      | none => some (.no_route_to_host, s)
      | some v =>
        (s.extract u v).bind fun (nodeIndex, nixVectorForPacket, s) =>
          (s.cached_route u dest (fun rtentry => rtentry.output_device = oif)
            (fun d _ => some (s.network.source_address_selection d dest)) oif nodeIndex).map fun (rtentry, s) =>
              (.route rtentry (if has_packet then some nixVectorForPacket else none), s)

/-- What `RouteInput` does with a packet that is to be forwarded: a vector of another epoch is built
again, and it is read through the pointer. -/
def forward (dest : β) (nixVector : NixVector) : Option (Answer devices β × Protocol nodes devices α β) :=
  (if nixVector.m_epoch ≠ s.epoch then s.network.get_nix_vector s.epoch u dest none else some (some nixVector)).bind fun v =>
    match v with
    | none => some (.null_nix_vector, s)
    | some v =>
      (s.extract u v).bind fun (nodeIndex, nixVector, s) =>
        (s.cached_route u dest (fun _ => true) (fun _ i => i.addresses.head?.map HasAddress.get_address) none nodeIndex).map
          fun (rtentry, s) => (.route rtentry (some nixVector), s)

/-- Whether `RouteInput` handles the packet without a route. -/
def received (dest : β) (idev : Fin devices) : Option (Answer devices β) :=
  if IpAddress.is_ipv4 β then if s.network.is_destination_address dest idev then some .local_delivery else none
  else if IpAddress.is_multicast dest then some .declined
  else if s.network.is_forwarding idev then none else some .error_callback

/-- `RouteInput`; `none` also for the assertions that the device has an interface and the packet a vector. -/
def route_input (dest : β) (idev : Fin devices) (nixVector : Option NixVector) :
    Option (Answer devices β × Protocol nodes devices α β) :=
  let s := s.check_cache_state_and_flush
  if (s.network.net.device idev).interface.isSome then
    match s.received dest idev with
    | some answer => some (answer, s)
    | none => nixVector.bind fun v => s.forward u dest v
  else none

/-- The calls of a node, changes of the topology that are notified, and calls that only flush. -/
inductive Event (nodes devices : Nat) (α β : Type)
  | route_output (dest : β) (oif : Option (Fin devices)) (has_packet : Bool)
  | route_input (dest : β) (idev : Fin devices) (nixVector : Option NixVector)
  | change (network : Network nodes devices α β)
  | refresh

def answer : Event nodes devices α β → Option (Option (Answer devices β) × Protocol nodes devices α β)
  | .route_output dest oif has_packet => (s.route_output u dest oif has_packet).map fun r => (some r.1, r.2)
  | .route_input dest idev nixVector => (s.route_input u dest idev nixVector).map fun r => (some r.1, r.2)
  | .change network => some (none, { s with network, is_cache_dirty := true })
  | .refresh => some (none, s.check_cache_state_and_flush)

def step (e : Event nodes devices α β) : Option (Protocol nodes devices α β) := (s.answer u e).map (·.2)

def Fresh : Prop := s.nix_cache = (fun _ => none) ∧ s.ip_route_cache = (fun _ => none) ∧ s.total_neighbors = 0

end Protocol

/-- What is compared of an answer: all but the source address of a route, and its history. -/
def Answer.visible : Answer devices β → Answer devices β
  | .route rtentry nixVector =>
    .route { rtentry with source := IpAddress.get_zero, index := 0, requested := none } nixVector
  | a => a

end Ns3.NixVectorRouting
