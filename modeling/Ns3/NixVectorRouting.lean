import Ns3.Foundation.BreadthFirst
import Ns3.Network.Address
import Ns3.Network.NixVector.Fields

namespace Ns3.NixVectorRouting

/-- What the routing protocol asks of the addresses of interfaces. -/
class IpInterfaceAddress (α : Type) where
  /-- Whether the second address is in the subnet of the first one. -/
  is_in_same_subnet : α → α → Bool
  /-- Whether the scope is link-local, which only IPv6 has. -/
  is_link_local : α → Bool

instance : IpInterfaceAddress Ipv4InterfaceAddress where
  is_in_same_subnet a b := a.local_addr.combine_mask a.mask == b.local_addr.combine_mask a.mask
  is_link_local _ := false

structure IpInterface (α : Type) where
  is_up : Bool := true
  addresses : List α := []

/-- `NetDevice`. The channel is the list of the devices on it; a bridge has ports. -/
structure NetDevice (nodes devices : Nat) (α : Type) where
  node : Fin nodes
  channel : Option (List (Fin devices)) := none
  bridge_ports : Option (List (Fin devices)) := none
  is_link_up : Bool := true
  interface : Option (IpInterface α) := none

/-- The nodes with their devices, in the order of `GetDevice`, and whether they have an IP stack. -/
structure Topology (nodes devices : Nat) (α : Type) where
  device : Fin devices → NetDevice nodes devices α
  node_devices : Fin nodes → List (Fin devices)
  has_ip : Fin nodes → Bool := fun _ => true

namespace Topology

variable {nodes devices : Nat} {α : Type} [IpInterfaceAddress α] (net : Topology nodes devices α)

/-- `GetInterfaceByNetDevice`, if the interface is up. -/
def get_up_interface (d : Fin devices) : Option (IpInterface α) := (net.device d).interface.filter (·.is_up)

/-- Whether two interfaces have a subnet in common, apart from link-local addresses. -/
def common_subnet (i j : IpInterface α) : Bool :=
  i.addresses.any fun a => !IpInterfaceAddress.is_link_local a &&
    j.addresses.any fun b => !IpInterfaceAddress.is_link_local b && IpInterfaceAddress.is_in_same_subnet a b

/-- `NetDeviceIsBridged`: the ports of the first bridge of the node that has the device as a port. -/
def net_device_is_bridged (d : Fin devices) : Option (List (Fin devices)) :=
  (net.node_devices (net.device d).node).findSome? fun t => (net.device t).bridge_ports.filter (d ∈ ·)

/-- `GetAdjacentNetDevices`. There is no result if the calls for the ports of bridges nest too deeply. -/
def get_adjacent_net_devices : Nat → Fin devices → List (Fin devices) → Option (List (Fin devices))
  | 0, _, _ => none
  | bound + 1, d, channel =>
    match net.get_up_interface d with
    | none => some []
    | some i =>
      (channel.mapM fun r =>
        if r = d then some []
        else
          match net.get_up_interface r with
          | none => some []
          | some j =>
            if common_subnet i j then
              match net.net_device_is_bridged r with
              | none => some [r]
              | some ports =>
                (ports.mapM fun p =>
                  if p = r then some []
                  else
                    match (net.device p).channel with
                    | none => some []
                    | some channel => get_adjacent_net_devices bound p channel).map List.flatten
            else some []).map List.flatten

/-- The devices adjacent to one, if it has a channel. A call for each device is the deepest nesting in
which no call is repeated. -/
def adjacent (d : Fin devices) : Option (List (Fin devices)) :=
  match (net.device d).channel with
  | none => some []
  | some channel => net.get_adjacent_net_devices (devices + 1) d channel

def find_total_neighbors (u : Fin nodes) : Option UInt32 :=
  (net.node_devices u).foldlM (fun total d => (net.adjacent d).map fun c => total + UInt32.ofNat c.length) 0

/-- The last index in a container of a device of a node, from the number of neighbors before it on. -/
def scan_container (dest : Fin nodes) (c : List (Fin devices)) (destId totalNeighbors : UInt32) : UInt32 :=
  (c.foldl (fun s r => (if (net.device r).node = dest then totalNeighbors + s.2 else s.1, s.2 + 1)) (destId, (0 : UInt32))).1

/-- The loop of `BuildNixVector` over the devices of the parent: `destId` and `totalNeighbors`. -/
def scan_devices (dest : Fin nodes) (s : UInt32 × UInt32) (d : Fin devices) : Option (UInt32 × UInt32) :=
  if (net.device d).bridge_ports.isSome then some s
  else (net.adjacent d).map fun c => (net.scan_container dest c s.1 s.2, s.2 + UInt32.ofNat c.length)

/-- `BuildNixVector`, which goes back to the source in as many calls as the bound allows for. -/
def build_nix_vector (parentVector : Fin nodes → Option (Fin nodes)) (source : Fin nodes) :
    Nat → Fin nodes → NixVector → Option (Bool × NixVector)
  | 0, _, _ => none
  | bound + 1, dest, nixVector =>
    if source = dest then some (true, nixVector)
    else
      match parentVector dest with
      | none => some (false, nixVector)
      | some parent => do
        let s ← (net.node_devices parent).foldlM (net.scan_devices dest) (0, 0)
        let nixVector ← nixVector.add_neighbor_index s.1 (NixVector.bit_count s.2)
        let r ← build_nix_vector parentVector source bound parent nixVector
        return (true, r.2)

/-- The loop of `FindNetDeviceForNixIndex`: the device, and the neighbor that is the gateway. Without such
a neighbor the index of the device stays zero. -/
def find_device (u : Fin nodes) (nodeIndex : UInt32) : UInt32 → List (Fin devices) →
    Option (Fin devices × Option (Fin devices))
  | _, [] => (net.node_devices u).head?.map fun d => (d, none)
  | totalNeighbors, d :: ds =>
    (net.adjacent d).bind fun l =>
      if nodeIndex < totalNeighbors + UInt32.ofNat l.length then some (d, l[(nodeIndex - totalNeighbors).toNat]?)
      else find_device u nodeIndex (totalNeighbors + UInt32.ofNat l.length) ds

def find_net_device_for_nix_index (u : Fin nodes) (nodeIndex : UInt32) :
    Option (Fin devices × Option (Fin devices)) :=
  net.find_device u nodeIndex 0 (net.node_devices u)

/-- What `RouteOutput` and `RouteInput` do with the vector of a packet: the device it is sent out of, the
neighbor it is sent to, and the vector it carries on. -/
def route (u : Fin nodes) (nixVector : NixVector) :
    Option (Fin devices × Option (Fin devices) × NixVector) := do
  let totalNeighbors ← net.find_total_neighbors u
  let r ← nixVector.extract_neighbor_index (NixVector.bit_count totalNeighbors)
  let index ← net.find_net_device_for_nix_index u r.1
  return (index.1, index.2, r.2)

/-- The neighbors that `BFS` looks at from one device. There is no result when the IP stack has no
interface for the device, since `IsUp` then reads through a null pointer. -/
def explore_device (u : Fin nodes) (d : Fin devices) : Option (List (Fin nodes)) :=
  let found := (net.adjacent d).map fun c => (c.filter fun r => (net.get_up_interface r).isSome).map fun r => (net.device r).node
  if net.has_ip u then
    match (net.device d).interface with
    | none => none
    | some i => if i.is_up && (net.device d).is_link_up then found else some []
  else if (net.device d).is_link_up then found else some []

/-- The neighbors of a node in the order in which `BFS` looks at them. -/
def explore (u : Fin nodes) : Option (List (Fin nodes)) :=
  ((net.node_devices u).mapM (net.explore_device u)).map List.flatten

/-- `BFS` without an output device, for as many nodes as the bound allows for. -/
def bfs (bound : Nat) (source dest : Fin nodes) : Option (Bool × (Fin nodes → Option (Fin nodes))) :=
  BreadthFirst.search net.explore dest bound (BreadthFirst.start source)

end Topology

end Ns3.NixVectorRouting
