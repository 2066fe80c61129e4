import Ns3.Internet.Ipv4

namespace Ns3.Aodv

abbrev Socket := Nat

/-- The sockets of one kind with the address each serves, in the order of their pointers. -/
abbrev SocketMap := Std.ExtTreeMap Socket Ipv4InterfaceAddress

/-- The loop of `FindSocketWithInterfaceAddress` and of its sibling for the other map. -/
def find_socket (sockets : SocketMap) (addr : Ipv4InterfaceAddress) : Option Socket :=
  (sockets.toList.find? (·.2 == addr)).map (·.1)

/-- The two socket maps of a node, the interfaces the IPv4 layer has, and the sockets
closed so far. -/
structure Sockets where
  ipv4 : Ipv4
  socket_addresses : SocketMap := ∅
  socket_subnet_broadcast_addresses : SocketMap := ∅
  closed : List Socket := []

namespace Sockets

def find_socket_with_interface_address (s : Sockets) (addr : Ipv4InterfaceAddress) : Option Socket :=
  find_socket s.socket_addresses addr

def find_subnet_broadcast_socket_with_interface_address (s : Sockets) (addr : Ipv4InterfaceAddress) :
    Option Socket :=
  find_socket s.socket_subnet_broadcast_addresses addr

def close (s : Sockets) (socket : Socket) : Sockets := { s with closed := socket :: s.closed }

/-- The creation of the two sockets for `iface`; the simulator has made them as `pair`. -/
def create_sockets (s : Sockets) (iface : Ipv4InterfaceAddress) (pair : Socket × Socket) : Sockets :=
  { s with
    socket_addresses := s.socket_addresses.insert pair.1 iface
    socket_subnet_broadcast_addresses := s.socket_subnet_broadcast_addresses.insert pair.2 iface }

/-- `NotifyInterfaceUp`; `none` is the fatal error on an interface without addresses. -/
def notify_interface_up (s : Sockets) (i : Nat) (pair : Socket × Socket) : Option Sockets :=
  (s.ipv4.get_address i).map fun iface =>
    if iface.local_addr = Ipv4Address.get_loopback then s else s.create_sockets iface pair

/-- `NotifyInterfaceDown`; `none` is that error or a failing assertion on a null socket. -/
def notify_interface_down (s : Sockets) (i : Nat) : Option Sockets :=
  (s.ipv4.get_address i).bind fun iface =>
  (s.find_socket_with_interface_address iface).bind fun socket =>
  let s := { s.close socket with socket_addresses := s.socket_addresses.erase socket }
  (s.find_subnet_broadcast_socket_with_interface_address iface).map fun socket =>
    { s.close socket with
      socket_subnet_broadcast_addresses := s.socket_subnet_broadcast_addresses.erase socket }

def notify_add_address (s : Sockets) (i : Nat) (pair : Socket × Socket) : Sockets :=
  if s.ipv4.is_up i = false then s
  else
    match s.ipv4.interfaces[i]?.map (·.addresses) with
    | some [iface] =>
      match s.find_socket_with_interface_address iface with
      | none => if iface.local_addr = Ipv4Address.get_loopback then s else s.create_sockets iface pair
      | some _ => s
    | _ => s

/-- `NotifyRemoveAddress`. The subnet broadcast socket is erased from the map of the
unicast ones. -/
def notify_remove_address (s : Sockets) (i : Nat) (address : Ipv4InterfaceAddress) (pair : Socket × Socket) :
    Sockets :=
  match s.find_socket_with_interface_address address with
  | some socket =>
    let s := { s.close socket with socket_addresses := s.socket_addresses.erase socket }
    let s :=
      match s.find_subnet_broadcast_socket_with_interface_address address with
      | some unicastSocket =>
        { s.close unicastSocket with socket_addresses := s.socket_addresses.erase unicastSocket }
      | none => s
    match s.ipv4.get_address i with
    | some iface => s.create_sockets iface pair
    | none => s
  | none => s

/-- The operations of the IPv4 layer on the interfaces of a node, with one address on an
interface at a time. `pair` is made of sockets that do not exist yet. -/
inductive Operation
  | add_interface (device : NetDevice)
  | add_address (i : Nat) (address : Ipv4InterfaceAddress) (pair : Socket × Socket)
  | remove_address (i : Nat) (pair : Socket × Socket)
  | set_up (i : Nat) (pair : Socket × Socket)
  | set_down (i : Nat)

def New (s : Sockets) (pair : Socket × Socket) : Prop :=
  pair.1 ≠ pair.2 ∧ ∀ socket, socket = pair.1 ∨ socket = pair.2 →
    socket ∉ s.socket_addresses ∧ socket ∉ s.socket_subnet_broadcast_addresses ∧ socket ∉ s.closed

instance (s : Sockets) (pair : Socket × Socket) : Decidable (s.New pair) :=
  decidable_of_iff
    (pair.1 ≠ pair.2 ∧
      (pair.1 ∉ s.socket_addresses ∧ pair.1 ∉ s.socket_subnet_broadcast_addresses ∧ pair.1 ∉ s.closed) ∧
      pair.2 ∉ s.socket_addresses ∧ pair.2 ∉ s.socket_subnet_broadcast_addresses ∧ pair.2 ∉ s.closed) (by
    unfold New
    constructor
    · rintro ⟨hne, h₁, h₂⟩
      refine ⟨hne, ?_⟩
      rintro socket (rfl | rfl)
      · exact h₁
      · exact h₂
    · rintro ⟨hne, h⟩
      exact ⟨hne, h pair.1 (.inl rfl), h pair.2 (.inr rfl)⟩)

def configure (s : Sockets) (i : Nat) (change : Ipv4Interface → Ipv4Interface) : Sockets :=
  { s with ipv4 := { s.ipv4 with interfaces := s.ipv4.interfaces.modify i change } }

/-- One operation; `none` where it cannot happen or the program stops. -/
def step (s : Sockets) : Operation → Option Sockets
  | .add_interface device =>
    some { s with ipv4 := { s.ipv4 with
      interfaces := s.ipv4.interfaces ++ [{ device, addresses := [], up := false }] } }
  | .add_address i address pair =>
    if s.ipv4.interfaces[i]?.map (·.addresses) = some [] ∧ s.New pair then
      some ((s.configure i fun iface => { iface with addresses := [address] }).notify_add_address i pair)
    else none
  | .remove_address i pair =>
    if s.New pair then
      (s.ipv4.get_address i).map fun address =>
        let s := s.configure i fun iface => { iface with addresses := [] }
        if address = {} then s else s.notify_remove_address i address pair
    else none
  | .set_up i pair =>
    if s.New pair then
      (s.configure i fun iface => { iface with up := true }).notify_interface_up i pair
    else none
  | .set_down i => (s.configure i fun iface => { iface with up := false }).notify_interface_down i

/-- The node as `SetIpv4` finds it, with the loopback interface only. -/
def Initial (s : Sockets) : Prop :=
  ∃ lo, s = { ipv4 := { interfaces :=
    [{ device := lo, addresses := [.of Ipv4Address.get_loopback 0xff000000] }] } }

end Sockets

end Ns3.Aodv
