import Ns3.Network.Address

namespace Ns3

structure Ipv4Interface where
  device : NetDevice
  addresses : List Ipv4InterfaceAddress
  up : Bool := true
  forwarding : Bool := true
deriving DecidableEq, Repr

/-- What the routing protocol reads of `Ipv4L3Protocol`: the interfaces in index
order (index 0 is the loopback) and the end-system model. -/
structure Ipv4 where
  interfaces : List Ipv4Interface
  weak_es_model : Bool := true
deriving DecidableEq, Repr

namespace Ipv4

/-- `GetInterfaceForAddress`; `none` is the index -1. -/
def get_interface_for_address (ipv4 : Ipv4) (address : Ipv4Address) : Option Nat :=
  ipv4.interfaces.findIdx? fun i => i.addresses.any (·.local_addr == address)

/-- `GetInterfaceForDevice`, -1 when no interface uses the device. -/
def get_interface_for_device (ipv4 : Ipv4) (device : Option NetDevice) : Int :=
  match ipv4.interfaces.findIdx? fun i => some i.device == device with
  | some i => i
  | none => -1

def get_net_device (ipv4 : Ipv4) (i : Nat) : Option NetDevice :=
  ipv4.interfaces[i]?.map (·.device)

/-- `GetAddress(i, 0)`. -/
def get_address (ipv4 : Ipv4) (i : Nat) : Option Ipv4InterfaceAddress :=
  ipv4.interfaces[i]?.bind (·.addresses.head?)

/-- `GetNetDevice(GetInterfaceForAddress(receiver))` with
`GetAddress(GetInterfaceForAddress(receiver), 0)`; `none` where the source
dereferences the null interface of index -1. -/
def interface_of (ipv4 : Ipv4) (receiver : Ipv4Address) : Option (NetDevice × Ipv4InterfaceAddress) := do
  let i ← ipv4.get_interface_for_address receiver
  let device ← ipv4.get_net_device i
  let address ← ipv4.get_address i
  pure (device, address)

def is_up (ipv4 : Ipv4) (i : Nat) : Bool := (ipv4.interfaces[i]?.map (·.up)).getD false

def is_forwarding (ipv4 : Ipv4) (i : Int) : Bool :=
  (ipv4.interfaces[i.toNat]?.map (·.forwarding)).getD false

def is_destination_address (ipv4 : Ipv4) (address : Ipv4Address) (iif : Int) : Bool :=
  let matching := fun (i : Ipv4Interface) =>
    i.addresses.any fun a => address == a.local_addr || address == a.broadcast
  (ipv4.interfaces[iif.toNat]?.map matching).getD false
    || Ipv4Address.is_multicast address
    || Ipv4Address.is_broadcast address
    || (ipv4.weak_es_model && ipv4.interfaces.any matching)

end Ipv4

end Ns3
