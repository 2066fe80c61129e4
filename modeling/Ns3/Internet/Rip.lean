import Ns3.Foundation.Agenda
import Ns3.Network.Address

namespace Ns3

/-- `m_linkDown` at its default: the metric of a network that cannot be reached. -/
def link_down : ℕ := 16

inductive SplitHorizonType
  | NO_SPLIT_HORIZON | SPLIT_HORIZON | POISON_REVERSE
deriving DecidableEq, Repr

inductive RipStatus
  | RIP_VALID | RIP_INVALID
deriving DecidableEq, Repr

/-- The gateway of a directly connected network is `0.0.0.0`. -/
structure RipRoutingTableEntry where
  dest_network : Ipv4Address
  dest_network_mask : Ipv4Mask
  gateway : Ipv4Address
  interface : ℕ
  tag : UInt16 := 0
  metric : ℕ := 0
  status : RipStatus := .RIP_INVALID
  changed : Bool := false
deriving DecidableEq, Repr

def RipRoutingTableEntry.is_gateway (route : RipRoutingTableEntry) : Bool :=
  route.gateway != Ipv4Address.get_zero

def RipRoutingTableEntry.is_network (route : RipRoutingTableEntry) : Bool :=
  route.dest_network_mask != Ipv4Mask.get_ones

/-- The network and the mask that a route is for. -/
def RipRoutingTableEntry.destination (route : RipRoutingTableEntry) : Ipv4Address × Ipv4Mask :=
  (route.dest_network, route.dest_network_mask)

/-- One element of `m_routes`: the address of the entry, the entry, and the event that belongs to it.
Two history variables, which no function reads, follow: when the entry last became invalid, and when
a response of its gateway last confirmed it. -/
structure RipRoute where
  ptr : ℕ
  entry : RipRoutingTableEntry
  event : Option ℕ := none
  invalidated : Time := 0
  confirmed : Time := 0
deriving DecidableEq, Repr

structure RipRte where
  prefixAddr : Ipv4Address
  subnet_mask : Ipv4Mask
  route_tag : UInt16 := 0
  route_metric : ℕ
deriving DecidableEq, Repr

def RipRte.destination (rte : RipRte) : Ipv4Address × Ipv4Mask :=
  (rte.prefixAddr.combine_mask rte.subnet_mask, rte.subnet_mask)

/-- The calls that the events of the table make. -/
inductive RipCall
  | InvalidateRoute (route : ℕ)
  | DeleteRoute (route : ℕ)
deriving DecidableEq, Repr

def RipCall.route : RipCall → ℕ
  | .InvalidateRoute route => route
  | .DeleteRoute route => route

structure RipInterface where
  addresses : List Ipv4InterfaceAddress
  up : Bool := true
  loopback : Bool := false
  mtu : UInt16 := 1500
deriving DecidableEq, Repr

theorem timeout_delay_nonneg : (0 : Time) ≤ 180000000000 := by decide

theorem garbage_collection_delay_nonneg : (0 : Time) ≤ 120000000000 := by decide

theorem no_metric_admitted (i m : ℕ) : (fun _ => none : ℕ → Option ℕ) i = some m → m < link_down := nofun

/-- What is set before a run. `SetInterfaceMetric` ignores a metric from `m_linkDown` on. -/
structure RipAttributes where
  m_splitHorizonStrategy : SplitHorizonType := .POISON_REVERSE
  m_timeoutDelay : Time := 180000000000
  m_garbageCollectionDelay : Time := 120000000000
  m_interfaceExclusions : List ℕ := []
  m_interfaceMetrics : ℕ → Option ℕ := fun _ => none
  timeout_nonneg : 0 ≤ m_timeoutDelay := by first | exact timeout_delay_nonneg | decide
  garbage_nonneg : 0 ≤ m_garbageCollectionDelay := by first | exact garbage_collection_delay_nonneg | decide
  metric_admitted : ∀ i m, m_interfaceMetrics i = some m → m < link_down := by first | exact no_metric_admitted | simp

/-- The state of a router. `m_unicastSocketList` holds the local address and the interface of each
socket, in the order of creation. -/
structure Rip where
  m_routes : List RipRoute := []
  m_ipv4 : List RipInterface
  m_unicastSocketList : List (Ipv4Address × ℕ) := []
  m_initialized : Bool := false
  simulator : Agenda RipCall := ⟨0, [], 0⟩
  next_ptr : ℕ := 0
deriving DecidableEq, Repr

namespace RipAttributes

def excluded (p : RipAttributes) (i : ℕ) : Bool := p.m_interfaceExclusions.contains i

/-- `GetInterfaceMetric`: 1 where none was set. -/
def interface_metric (p : RipAttributes) (i : ℕ) : ℕ := (p.m_interfaceMetrics i).getD 1

/-- The metric that an RTE has for its receiver. -/
def rte_metric (p : RipAttributes) (rte : RipRte) (i : ℕ) : ℕ :=
  min (rte.route_metric + p.interface_metric i) link_down

end RipAttributes

namespace Rip

def addresses (s : Rip) (i : ℕ) : List Ipv4InterfaceAddress := (s.m_ipv4[i]?.map (·.addresses)).getD []

def is_up (s : Rip) (i : ℕ) : Bool := (s.m_ipv4[i]?.map (·.up)).getD false

def is_loopback (s : Rip) (i : ℕ) : Bool := (s.m_ipv4[i]?.map (·.loopback)).getD false

/-- Let the list position that holds the entry `ptr` hold `route`. -/
def put (s : Rip) (ptr : ℕ) (route : RipRoute) : Rip :=
  { s with m_routes := s.m_routes.map fun it => if it.ptr = ptr then route else it }

def add_network_route_to (s : Rip) (network : Ipv4Address) (networkPrefix : Ipv4Mask) (interface : ℕ) :
    Rip :=
  { s with
    m_routes := s.m_routes ++
      [{ ptr := s.next_ptr
         entry :=
          { dest_network := network
            dest_network_mask := networkPrefix
            gateway := Ipv4Address.get_zero
            interface := interface
            metric := 1
            status := .RIP_VALID
            changed := true } }]
    next_ptr := s.next_ptr + 1 }

/-- `NS_ABORT` where the table does not hold the entry. -/
def invalidate_route (p : RipAttributes) (s : Rip) (ptr : ℕ) : Option Rip :=
  match s.m_routes.find? fun it => it.ptr = ptr with
  | some it =>
    some
      { s.put ptr
          { it with
            entry := { it.entry with status := .RIP_INVALID, metric := link_down, changed := true }
            event := some s.simulator.next_uid
            invalidated :=
              if it.entry.status = .RIP_VALID then s.simulator.now else it.invalidated } with
        simulator :=
          (s.simulator.cancel it.event).schedule p.m_garbageCollectionDelay (.DeleteRoute ptr) }
  | none => none

/-- `NS_ABORT` where the table does not hold the entry. -/
def delete_route (s : Rip) (ptr : ℕ) : Option Rip :=
  match s.m_routes.find? fun it => it.ptr = ptr with
  | some _ => some { s with m_routes := s.m_routes.eraseP fun it => it.ptr = ptr }
  | none => none

/-- Cancel the event of `it`, let the position hold `entry`, at the address `ptr`, and schedule its
`InvalidateRoute`. The response that is handled confirms the entry. -/
def restart_timeout (p : RipAttributes) (s : Rip) (it : RipRoute) (ptr : ℕ)
    (entry : RipRoutingTableEntry) : Rip :=
  { s.put it.ptr
      { ptr := ptr
        entry := entry
        event := some s.simulator.next_uid
        invalidated := it.invalidated
        confirmed := s.simulator.now } with
    simulator := (s.simulator.cancel it.event).schedule p.m_timeoutDelay (.InvalidateRoute ptr) }

/-- A new entry takes the place of the one at `it`. -/
def replace_route (p : RipAttributes) (s : Rip) (it : RipRoute) (rte : RipRte) (rteMetric : ℕ)
    (senderAddress : Ipv4Address) (incomingInterface : ℕ) : Rip :=
  restart_timeout p { s with next_ptr := s.next_ptr + 1 } it s.next_ptr
    { dest_network := rte.prefixAddr.combine_mask rte.subnet_mask
      dest_network_mask := rte.subnet_mask
      gateway := senderAddress
      interface := incomingInterface
      tag := rte.route_tag
      metric := rteMetric
      status := .RIP_VALID
      changed := true }

/-- The entry at `it` takes the metric of the RTE. -/
def refresh_route (p : RipAttributes) (s : Rip) (it : RipRoute) (rte : RipRte) (rteMetric : ℕ) : Rip :=
  restart_timeout p s it it.ptr
    { it.entry with
      metric := rteMetric
      status := .RIP_VALID
      tag := rte.route_tag
      changed := true }

/-- What `HandleResponses` does with a route that an RTE is for. -/
def update_route (p : RipAttributes) (s : Rip) (it : RipRoute) (rte : RipRte)
    (senderAddress : Ipv4Address) (incomingInterface : ℕ) : Option Rip :=
  let rteMetric := p.rte_metric rte incomingInterface
  if rteMetric < it.entry.metric then
    if senderAddress ≠ it.entry.gateway then
      some (s.replace_route p it rte rteMetric senderAddress incomingInterface)
    else
      some (s.refresh_route p it rte rteMetric)
  else if rteMetric = it.entry.metric then
    if senderAddress = it.entry.gateway then
      some (s.restart_timeout p it it.ptr it.entry)
    else if s.simulator.get_delay_left it.event < p.m_timeoutDelay / 2 then
      some (s.replace_route p it rte rteMetric senderAddress incomingInterface)
    else
      some s
  else if senderAddress = it.entry.gateway then
    if rteMetric < link_down then
      some (s.refresh_route p it rte rteMetric)
    else
      { s with simulator := s.simulator.cancel it.event }.invalidate_route p it.ptr
  else
    some s

/-- A route to a network that the table does not have; it takes no tag. -/
def learn_route (p : RipAttributes) (s : Rip) (rte : RipRte) (rteMetric : ℕ)
    (senderAddress : Ipv4Address) (incomingInterface : ℕ) : Rip :=
  { s with
    m_routes :=
      { ptr := s.next_ptr
        entry :=
          { dest_network := rte.prefixAddr.combine_mask rte.subnet_mask
            dest_network_mask := rte.subnet_mask
            gateway := senderAddress
            interface := incomingInterface
            metric := rteMetric
            status := .RIP_VALID
            changed := true }
        event := some s.simulator.next_uid
        confirmed := s.simulator.now } :: s.m_routes
    next_ptr := s.next_ptr + 1
    simulator := s.simulator.schedule p.m_timeoutDelay (.InvalidateRoute s.next_ptr) }

/-- One pass of the loop of `HandleResponses` over the RTEs. -/
def handle_rte (p : RipAttributes) (senderAddress : Ipv4Address) (incomingInterface : ℕ) (s : Rip)
    (rte : RipRte) : Option Rip := do
  let found := s.m_routes.any fun it => it.entry.destination = rte.destination
  let s ← s.m_routes.foldlM
    (fun s it =>
      if it.entry.destination = rte.destination then
        s.update_route p it rte senderAddress incomingInterface
      else some s) s
  let rteMetric := p.rte_metric rte incomingInterface
  if !found && rteMetric != link_down then
    return s.learn_route p rte rteMetric senderAddress incomingInterface
  return s

/-- The metric and the prefix that an RTE must have for its message not to be ignored. -/
def well_formed (rte : RipRte) : Bool :=
  !(rte.route_metric == 0 || rte.route_metric > link_down) &&
    !(rte.prefixAddr.is_localhost || rte.prefixAddr.is_broadcast || rte.prefixAddr.is_multicast)

def handle_responses (p : RipAttributes) (s : Rip) (rtes : List RipRte) (senderAddress : Ipv4Address)
    (incomingInterface : ℕ) : Option Rip :=
  if p.excluded incomingInterface then some s
  else if rtes.all well_formed then
    rtes.foldlM (fun s rte => s.handle_rte p senderAddress incomingInterface rte) s
  else some s

/-- `RipHeader::Deserialize` counts the RTEs that it reads in eight bits. -/
def deserialize (rtes : List RipRte) : List RipRte := rtes.take (rtes.length % 256)

/-- `GetInterfaceForAddress` finds an interface. -/
def is_own_address (s : Rip) (address : Ipv4Address) : Bool :=
  s.m_ipv4.any fun i => i.addresses.any fun a => a.local_addr == address

/-- A response arrives; a packet of an address of the router itself is ignored. -/
def receive (p : RipAttributes) (s : Rip) (rtes : List RipRte) (senderAddress : Ipv4Address)
    (incomingInterface : ℕ) : Option Rip :=
  if s.is_own_address senderAddress then some s
  else s.handle_responses p (deserialize rtes) senderAddress incomingInterface

def network (address : Ipv4InterfaceAddress) : Ipv4Address × Ipv4Mask :=
  (address.local_addr.combine_mask address.mask, address.mask)

/-- Open a socket for each address of an interface that is not of host scope. -/
def open_sockets (s : Rip) (i : ℕ) : Rip :=
  { s with
    m_unicastSocketList := s.m_unicastSocketList ++
      ((s.addresses i).filter fun a => a.scope ≠ .host).map fun a => (a.local_addr, i) }

/-- `DoInitialize`, without the updates that it schedules. -/
def do_initialize_sockets (p : RipAttributes) (s : Rip) : Rip :=
  (List.range s.m_ipv4.length).foldl
    (fun s i => if s.is_loopback i || p.excluded i then s else s.open_sockets i)
    { s with m_initialized := true }

def notify_interface_up (p : RipAttributes) (s : Rip) (i : ℕ) : Rip :=
  if s.is_loopback i then s
  else
    let s := (s.addresses i).foldl
      (fun s address =>
        if address.scope = .global then
          s.add_network_route_to (network address).1 (network address).2 i
        else s) s
    if !s.m_initialized then s
    else
      let sendSocketFound := s.m_unicastSocketList.any fun socket => socket.2 = i
      if sendSocketFound || p.excluded i then s else s.open_sockets i

def notify_interface_down (p : RipAttributes) (s : Rip) (interface : ℕ) : Option Rip := do
  let s ← s.m_routes.foldlM
    (fun s it => if it.entry.interface = interface then s.invalidate_route p it.ptr else some s) s
  return { s with
    m_unicastSocketList := s.m_unicastSocketList.eraseP fun socket => socket.2 = interface }

def notify_add_address (p : RipAttributes) (s : Rip) (interface : ℕ) (address : Ipv4InterfaceAddress) :
    Rip :=
  if !s.is_up interface then s
  else if p.excluded interface then s
  else if address.scope = .global then
    s.add_network_route_to (network address).1 (network address).2 interface
  else s

def notify_remove_address (p : RipAttributes) (s : Rip) (interface : ℕ)
    (address : Ipv4InterfaceAddress) : Option Rip :=
  if !s.is_up interface then some s
  else if address.scope ≠ .global then some s
  else s.m_routes.foldlM
    (fun s it =>
      if it.entry.interface = interface ∧ it.entry.is_network ∧ it.entry.destination = network address then
        s.invalidate_route p it.ptr
      else some s) s

/-- What `DoSendRouteUpdate` puts into the update on an interface for a route. -/
def advertise (p : RipAttributes) (s : Rip) (periodic : Bool) (interface : ℕ)
    (route : RipRoutingTableEntry) : Option RipRte :=
  let splitHorizoning := route.interface = interface
  let isGlobal := (Ipv4InterfaceAddress.of route.dest_network route.dest_network_mask).scope = .global
  let isDefaultRoute := route.dest_network = Ipv4Address.get_zero ∧
    route.dest_network_mask = Ipv4Mask.get_zero ∧ route.interface ≠ interface
  let sameNetwork := (s.addresses interface).any fun addr => (network addr).1 = route.dest_network
  let rte : RipRte :=
    { prefixAddr := route.dest_network
      subnet_mask := route.dest_network_mask
      route_metric :=
        if p.m_splitHorizonStrategy = .POISON_REVERSE ∧ splitHorizoning then link_down
        else route.metric
      route_tag := route.tag }
  if (isGlobal ∨ isDefaultRoute) ∧ (periodic ∨ route.changed) ∧ !sameNetwork then
    if p.m_splitHorizonStrategy = .SPLIT_HORIZON ∧ splitHorizoning then none else some rte
  else none

/-- The RTEs that one packet of an interface holds at most. -/
def max_rte (mtu : UInt16) : UInt16 := ((mtu.toUInt32 - 20 - 8 - 4) / 20).toUInt16

/-- The packets that go out on an interface; `hdr` is the header that is being filled. -/
def packets (maxRte : UInt16) (advertised : RipRoute → Option RipRte) :
    List RipRoute → List RipRte → List (List RipRte)
  | [], hdr => if hdr.length.toUInt16 > 0 then [hdr] else []
  | it :: rest, hdr =>
    let hdr := hdr ++ (advertised it).toList
    if hdr.length.toUInt16 = maxRte then hdr :: packets maxRte advertised rest []
    else packets maxRte advertised rest hdr

/-- The packets of `DoSendRouteUpdate` on an interface. -/
def route_update (p : RipAttributes) (s : Rip) (periodic : Bool) (interface : ℕ) :
    List (List RipRte) :=
  packets (max_rte ((s.m_ipv4[interface]?.map (·.mtu)).getD 0))
    (fun it => s.advertise p periodic interface it.entry) s.m_routes []

/-- Each packet of the update with the address and the interface that it leaves from. -/
def sent_updates (p : RipAttributes) (s : Rip) (periodic : Bool) :
    List ((Ipv4Address × ℕ) × List RipRte) :=
  s.m_unicastSocketList.flatMap fun socket =>
    if p.excluded socket.2 then []
    else (s.route_update p periodic socket.2).map fun hdr => (socket, hdr)

def do_send_route_update (p : RipAttributes) (s : Rip) (periodic : Bool) :
    List ((Ipv4Address × ℕ) × List RipRte) × Rip :=
  (s.sent_updates p periodic,
    { s with m_routes := s.m_routes.map fun it => { it with entry := { it.entry with changed := false } } })

/-- `Ipv4L3Protocol::SetUp`: a device with less than the least MTU of IPv4 stays down. -/
def set_up (p : RipAttributes) (s : Rip) (i : ℕ) : Rip :=
  if 68 ≤ ((s.m_ipv4[i]?.map (·.mtu)).getD 0) then
    { s with m_ipv4 := s.m_ipv4.modify i fun x => { x with up := true } }.notify_interface_up p i
  else s

def set_down (p : RipAttributes) (s : Rip) (i : ℕ) : Option Rip :=
  { s with m_ipv4 := s.m_ipv4.modify i fun x => { x with up := false } }.notify_interface_down p i

def add_address (p : RipAttributes) (s : Rip) (i : ℕ) (address : Ipv4InterfaceAddress) : Rip :=
  { s with
    m_ipv4 := s.m_ipv4.modify i fun x =>
      { x with addresses := x.addresses ++ [address] } }.notify_add_address p i address

def remove_address (p : RipAttributes) (s : Rip) (i : ℕ) (addressIndex : ℕ) : Option Rip :=
  match (s.addresses i)[addressIndex]? with
  | some address =>
    { s with
      m_ipv4 := s.m_ipv4.modify i fun x =>
        { x with addresses := x.addresses.eraseIdx addressIndex } }.notify_remove_address p i address
  | none => none

def run_call (p : RipAttributes) (s : Rip) : RipCall → Option Rip
  | .InvalidateRoute route => s.invalidate_route p route
  | .DeleteRoute route => s.delete_route route

end Rip

abbrev NeighborAddress := { address : Ipv4Address // address ≠ Ipv4Address.get_zero }

/-- What happens to a router. -/
inductive RipEvent
  | start
  | response (rtes : List RipRte) (senderAddress : NeighborAddress) (incomingInterface : ℕ)
  | update (periodic : Bool)
  | advance (t : Time)
  | run (uid : ℕ)
  | interfaceUp (i : ℕ)
  | interfaceDown (i : ℕ)
  | addAddress (i : ℕ) (address : Ipv4InterfaceAddress)
  | removeAddress (i : ℕ) (addressIndex : ℕ)
deriving DecidableEq

/-- `none` is an event that cannot happen, or an abort. -/
def Rip.step (p : RipAttributes) (s : Rip) : RipEvent → Option Rip
  | .start => some (s.do_initialize_sockets p)
  | .response rtes senderAddress incomingInterface => s.receive p rtes senderAddress incomingInterface
  | .update periodic => some (s.do_send_route_update p periodic).2
  | .advance t => (s.simulator.advance t).map fun simulator => { s with simulator := simulator }
  | .run uid =>
    match s.simulator.take uid with
    | some (call, simulator) => { s with simulator := simulator }.run_call p call
    | none => none
  | .interfaceUp i => some (s.set_up p i)
  | .interfaceDown i => s.set_down p i
  | .addAddress i address => some (s.add_address p i address)
  | .removeAddress i addressIndex => s.remove_address p i addressIndex

end Ns3
