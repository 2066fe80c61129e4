import Mathlib

namespace Ns3

/-- Simulated time, in nanoseconds. -/
abbrev Time := Int

def get_maximum_simulation_time : Time := 0x7fffffffffffffff

def milliseconds (n : Int) : Time := n * 1000000

def microseconds (n : Int) : Time := n * 1000

/-- `Time::GetMilliSeconds`: integer division, truncated toward zero. -/
def Time.get_milliseconds (t : Time) : Int := Int.tdiv t 1000000

/-- An IPv4 address, in host order. -/
abbrev Ipv4Address := UInt32

/-- The garbage value a default-constructed address holds. -/
def Ipv4Address.uninitialized : Ipv4Address := 0x66666666

def Ipv4Address.get_loopback : Ipv4Address := 0x7f000001

def Ipv4Address.get_zero : Ipv4Address := 0

def Ipv4Address.is_localhost (address : Ipv4Address) : Bool := address == 0x7f000001

def Ipv4Address.is_broadcast (address : Ipv4Address) : Bool := address == 0xffffffff

def Ipv4Address.is_multicast (address : Ipv4Address) : Bool :=
  0xe0000000 ≤ address && address ≤ 0xefffffff

/-- The addresses of 224.0.0.0/24. -/
def Ipv4Address.is_local_multicast (address : Ipv4Address) : Bool := address &&& 0xffffff00 == 0xe0000000

abbrev Ipv4Mask := UInt32

def Ipv4Mask.get_zero : Ipv4Mask := 0

def Ipv4Address.combine_mask (address : Ipv4Address) (mask : Ipv4Mask) : Ipv4Address := address &&& mask

def Ipv4Mask.get_ones : Ipv4Mask := 0xffffffff

def Ipv4Mask.is_match (mask : Ipv4Mask) (a b : Ipv4Address) : Bool := a &&& mask == b &&& mask

def Ipv4Mask.get_prefix_length_loop : ℕ → Ipv4Mask → ℕ
  | 0, _ => 0
  | turns + 1, mask => if mask = 0 then 0 else get_prefix_length_loop turns (mask <<< 1) + 1

/-- `GetPrefixLength`, whose loop no mask keeps going for more than 32 turns. -/
def Ipv4Mask.get_prefix_length (mask : Ipv4Mask) : ℕ := get_prefix_length_loop 32 mask

inductive InterfaceAddressScope
  | host | link | global
deriving DecidableEq, Repr

structure Ipv4InterfaceAddress where
  local_addr : Ipv4Address := Ipv4Address.uninitialized
  mask : Ipv4Mask := 0x66666666
  broadcast : Ipv4Address := Ipv4Address.uninitialized
  scope : InterfaceAddressScope := .global
  secondary : Bool := false
deriving DecidableEq, Repr

/-- The constructor from a local address and a mask derives the broadcast
address of the subnet. -/
def Ipv4InterfaceAddress.of (local_addr : Ipv4Address) (mask : Ipv4Mask) : Ipv4InterfaceAddress where
  local_addr := local_addr
  mask := mask
  broadcast := local_addr ||| ~~~mask
  scope := if local_addr = Ipv4Address.get_loopback then .host else .global

/-- The identity of a network device; a null pointer is `none` where one can occur. -/
abbrev NetDevice := Nat

structure Ipv4Route where
  destination : Ipv4Address
  source : Ipv4Address
  gateway : Ipv4Address
  output_device : Option NetDevice
deriving DecidableEq, Repr

structure Ipv4Header where
  source : Ipv4Address
  destination : Ipv4Address
  ttl : UInt8
  protocol : UInt8
deriving DecidableEq, Repr

abbrev Mac16Address := Fin 2 → UInt8

abbrev Mac48Address := Fin 6 → UInt8

abbrev Mac64Address := Fin 8 → UInt8

end Ns3
