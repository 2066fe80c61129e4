import Ns3.Olsr.Recv

namespace Ns3.Olsr

def OLSR_MAX_MSGS : ℕ := 64

namespace Node

/-! ### Sending -/

def send_packet (n : Node) (messages : List MessageHeader) : Node :=
  { n with sent := n.sent ++ n.m_sendSockets.map fun source => ⟨source, messages⟩ }

/-- The loop of `SendQueuedMessages`, with the messages of the packet that is being built. -/
def send_messages : List MessageHeader → List MessageHeader → Node → Node
  | [], msglist, n => if msglist = [] then n else n.send_packet msglist
  | message :: messages, msglist, n =>
    if (msglist ++ [message]).length = OLSR_MAX_MSGS then
      send_messages messages [] (n.send_packet (msglist ++ [message]))
    else send_messages messages (msglist ++ [message]) n

def send_queued_messages (n : Node) : Node :=
  { send_messages n.m_queuedMessages [] n with m_queuedMessages := [] }

/-- Queue a message of the node itself, with the next sequence number and a jitter. -/
def originate (n : Node) (vTime : UInt8) (timeToLive : UInt8) (message : Message) : Node :=
  let msg : MessageHeader :=
    { m_vTime := vTime
      m_originatorAddress := n.m_mainAddress
      m_timeToLive := timeToLive
      m_hopCount := 0
      m_messageSequenceNumber := n.get_message_sequence_number.1
      m_message := message
      originated := timeToLive.toNat
      retransmitters := [] }
  n.get_message_sequence_number.2.jitter.2.queue_message msg n.jitter.1

/-- What `SendHello` says of a link; none where the neighbour is not known. -/
def neighbor_type (n : Node) (link_tuple : LinkTuple) : Option NeighborType :=
  let mainAddr := n.get_main_address link_tuple.neighborIfaceAddr
  if mainAddr ∈ n.m_state.m_mprSet then some .MPR_NEIGH
  else (n.m_state.find_neighbor_tuple mainAddr).map fun nb =>
    match nb.status with
    | .STATUS_SYM => .SYM_NEIGH
    | .STATUS_NOT_SYM => .NOT_NEIGH

def link_message (n : Node) (link_tuple : LinkTuple) : Option LinkMessage :=
  if n.get_main_address link_tuple.localIfaceAddr = n.m_mainAddress ∧ link_tuple.time ≥ n.now then
    let linkType :=
      if link_tuple.symTime ≥ n.now then LinkType.SYM_LINK
      else if link_tuple.asymTime ≥ n.now then .ASYM_LINK
      else .LOST_LINK
    (n.neighbor_type link_tuple).map fun neighborType =>
      { linkCode := link_code linkType neighborType
        neighborInterfaceAddresses := link_tuple.neighborIfaceAddr ::
          n.m_state.find_neighbor_interfaces link_tuple.neighborIfaceAddr }
  else none

def send_hello (n : Node) : Option Node := do
  let vTime ← time_to_emf n.neighb_hold_time
  let hTime ← time_to_emf n.m_helloInterval
  return n.originate vTime 1
    (.hello ⟨hTime, n.m_willingness, n.m_state.m_linkSet.filterMap n.link_message⟩)

def send_tc (n : Node) : Option Node := do
  let vTime ← time_to_emf (3 * n.m_tcInterval)
  return n.originate vTime 255 (.tc ⟨n.m_state.m_mprSelectorSet.map (·.mainAddr), n.m_ansn⟩)

/-- The first addresses of the other interfaces that are used. None where an interface has no
address. -/
def mid_addresses (n : Node) : Option (List Ipv4Address) := do
  let addresses ← n.m_ipv4.zipIdx.mapM fun x => x.1.head?.map fun addr => (addr, x.2)
  return (addresses.filter fun x =>
    x.1 ≠ n.m_mainAddress ∧ x.1 ≠ Ipv4Address.get_loopback ∧ x.2 ∉ n.m_interfaceExclusions).map (·.1)

def send_mid (n : Node) : Option Node := do
  let interfaceAddresses ← n.mid_addresses
  if interfaceAddresses = [] then some n
  else
    let vTime ← time_to_emf (3 * n.m_midInterval)
    return n.originate vTime 255 (.mid interfaceAddresses)

def send_hna (n : Node) : Option Node := do
  let vTime ← time_to_emf (3 * n.m_hnaInterval)
  return n.originate vTime 255 (.hna n.m_associations)

/-! ### Timers -/

def hello_timer_expire (n : Node) : Option Node :=
  n.send_hello.map fun n => n.schedule n.m_helloInterval .hello_timer_expire

def tc_timer_expire (n : Node) : Option Node :=
  (if n.m_state.m_mprSelectorSet = [] then some n else n.send_tc).map fun n =>
    n.schedule n.m_tcInterval .tc_timer_expire

def mid_timer_expire (n : Node) : Option Node :=
  n.send_mid.map fun n => n.schedule n.m_midInterval .mid_timer_expire

def hna_timer_expire (n : Node) : Option Node :=
  (if n.m_associations = [] then some n else n.send_hna).map fun n =>
    n.schedule n.m_hnaInterval .hna_timer_expire

/-- A timer of a tuple: it is removed when its time is over, and else looked at again then. -/
def tuple_timer_expire {α : Type} (n : Node) (found : Option α) (expirationTime : α → Time)
    (remove : α → Node) (call : OlsrCall) : Node :=
  match found with
  | none => n
  | some tuple =>
    if expirationTime tuple < n.now then remove tuple
    else n.schedule (n.delay (expirationTime tuple)) call

def remove_duplicate_tuple (n : Node) (tuple : DuplicateTuple) : Node :=
  n.set_state { n.m_state with
      m_duplicateSet := n.m_state.m_duplicateSet.eraseP fun t =>
        t.address == tuple.address && t.sequenceNumber == tuple.sequenceNumber }

def dup_tuple_timer_expire (n : Node) (address : Ipv4Address) (sequenceNumber : UInt16) : Node :=
  n.tuple_timer_expire (n.m_state.find_duplicate_tuple address sequenceNumber) (·.expirationTime)
    n.remove_duplicate_tuple (.dup_tuple_timer_expire address sequenceNumber)

def remove_two_hop_neighbor_tuple (n : Node) (tuple : TwoHopNeighborTuple) : Node :=
  n.set_state { n.m_state with
      m_twoHopNeighborSet := n.m_state.m_twoHopNeighborSet.eraseP fun t =>
        t.neighborMainAddr == tuple.neighborMainAddr &&
          t.twoHopNeighborAddr == tuple.twoHopNeighborAddr }

def nb2hop_tuple_timer_expire (n : Node) (neighborMainAddr twoHopNeighborAddr : Ipv4Address) : Node :=
  n.tuple_timer_expire (n.m_state.find_two_hop_neighbor_tuple neighborMainAddr twoHopNeighborAddr)
    (·.expirationTime) n.remove_two_hop_neighbor_tuple
    (.nb2hop_tuple_timer_expire neighborMainAddr twoHopNeighborAddr)

def remove_mpr_selector_tuple (n : Node) (tuple : MprSelectorTuple) : Node :=
  (n.set_state { n.m_state with
      m_mprSelectorSet := n.m_state.m_mprSelectorSet.eraseP fun t =>
        t.mainAddr == tuple.mainAddr }).increment_ansn

def mpr_sel_tuple_timer_expire (n : Node) (mainAddr : Ipv4Address) : Node :=
  n.tuple_timer_expire (n.m_state.find_mpr_selector_tuple mainAddr) (·.expirationTime)
    n.remove_mpr_selector_tuple (.mpr_sel_tuple_timer_expire mainAddr)

def remove_topology_tuple (n : Node) (tuple : TopologyTuple) : Node :=
  n.set_state { n.m_state with
      m_topologySet := n.m_state.m_topologySet.eraseP fun t =>
        t.destAddr == tuple.destAddr && t.lastAddr == tuple.lastAddr &&
          t.sequenceNumber == tuple.sequenceNumber }

def topology_tuple_timer_expire (n : Node) (destAddr lastAddr : Ipv4Address) : Node :=
  n.tuple_timer_expire (n.m_state.find_topology_tuple destAddr lastAddr) (·.expirationTime)
    n.remove_topology_tuple (.topology_tuple_timer_expire destAddr lastAddr)

def remove_iface_assoc_tuple (n : Node) (tuple : IfaceAssocTuple) : Node :=
  n.set_state { n.m_state with
      m_ifaceAssocSet := n.m_state.m_ifaceAssocSet.eraseP fun t =>
        t.ifaceAddr == tuple.ifaceAddr && t.mainAddr == tuple.mainAddr }

def iface_assoc_tuple_timer_expire (n : Node) (ifaceAddr : Ipv4Address) : Node :=
  n.tuple_timer_expire (n.m_state.find_iface_assoc_tuple ifaceAddr) (·.time)
    n.remove_iface_assoc_tuple (.iface_assoc_tuple_timer_expire ifaceAddr)

def remove_association_tuple (n : Node) (tuple : AssociationTuple) : Node :=
  { n with
    m_associationSet := n.m_associationSet.eraseP fun t =>
      t.gatewayAddr == tuple.gatewayAddr && t.networkAddr == tuple.networkAddr &&
        t.netmask == tuple.netmask }

def association_tuple_timer_expire (n : Node) (gatewayAddr networkAddr : Ipv4Address)
    (netmask : Ipv4Mask) : Node :=
  n.tuple_timer_expire (n.find_association_tuple gatewayAddr networkAddr netmask) (·.expirationTime)
    n.remove_association_tuple (.association_tuple_timer_expire gatewayAddr networkAddr netmask)

def neighbor_loss (n : Node) (tuple : LinkTuple) : Option Node := do
  let n := n.link_tuple_updated tuple Willingness.DEFAULT
  let mainAddr := n.get_main_address tuple.neighborIfaceAddr
  let s := (n.m_state.erase_two_hop_neighbors_of mainAddr).erase_mpr_selector_tuples mainAddr
  let n ← (n.set_state s).mpr_computation
  n.routing_table_computation

/-- The neighbour tuple goes with the link tuple. -/
def remove_link_tuple (n : Node) (tuple : LinkTuple) : Node :=
  let s := n.m_state.erase_neighbor_tuple (n.get_main_address tuple.neighborIfaceAddr)
  n.set_state { s with
      m_linkSet := s.m_linkSet.eraseP fun l =>
        l.localIfaceAddr == tuple.localIfaceAddr && l.neighborIfaceAddr == tuple.neighborIfaceAddr }

/-- The first timer of any link that finds its link asymmetric does nothing but start again. -/
def link_tuple_lost (n : Node) (tuple : LinkTuple) : Option Node :=
  if n.m_linkTupleTimerFirstTime then some { n with m_linkTupleTimerFirstTime := false }
  else n.neighbor_loss tuple

def link_tuple_timer_expire (n : Node) (neighborIfaceAddr : Ipv4Address) : Option Node :=
  match n.m_state.find_link_tuple neighborIfaceAddr with
  | none => some n
  | some tuple =>
    if tuple.time < n.now then some (n.remove_link_tuple tuple)
    else if tuple.symTime < n.now then
      (n.link_tuple_lost tuple).map fun n =>
        n.schedule (n.delay tuple.time) (.link_tuple_timer_expire neighborIfaceAddr)
    else
      some (n.schedule (n.delay (min tuple.time tuple.symTime))
        (.link_tuple_timer_expire neighborIfaceAddr))

def expire (n : Node) : OlsrCall → Option Node
  | .hello_timer_expire => n.hello_timer_expire
  | .tc_timer_expire => n.tc_timer_expire
  | .mid_timer_expire => n.mid_timer_expire
  | .hna_timer_expire => n.hna_timer_expire
  | .send_queued_messages => some n.send_queued_messages
  | .dup_tuple_timer_expire address sequenceNumber =>
    some (n.dup_tuple_timer_expire address sequenceNumber)
  | .link_tuple_timer_expire neighborIfaceAddr => n.link_tuple_timer_expire neighborIfaceAddr
  | .nb2hop_tuple_timer_expire neighborMainAddr twoHopNeighborAddr =>
    some (n.nb2hop_tuple_timer_expire neighborMainAddr twoHopNeighborAddr)
  | .mpr_sel_tuple_timer_expire mainAddr => some (n.mpr_sel_tuple_timer_expire mainAddr)
  | .topology_tuple_timer_expire destAddr lastAddr =>
    some (n.topology_tuple_timer_expire destAddr lastAddr)
  | .iface_assoc_tuple_timer_expire ifaceAddr => some (n.iface_assoc_tuple_timer_expire ifaceAddr)
  | .association_tuple_timer_expire gatewayAddr networkAddr netmask =>
    some (n.association_tuple_timer_expire gatewayAddr networkAddr netmask)

/-! ### Start -/

/-- An association that never expires, so that the other addresses of the node lead to its main
address. -/
def associate_interface (n : Node) (addr : Ipv4Address) : Option Node :=
  if addr = n.m_mainAddress then some n
  else
    let n := n.add_iface_assoc_tuple ⟨addr, n.m_mainAddress, 0⟩
    if n.get_main_address addr = n.m_mainAddress then some n else none

/-- The part of `DoInitialize` for one interface. -/
def start_interface (n : Node) (x : Ipv4Address × ℕ) : Option Node :=
  if x.1 = Ipv4Address.get_loopback then some n
  else (n.associate_interface x.1).map fun n =>
    if x.2 ∈ n.m_interfaceExclusions then n
    else { n with m_sendSockets := n.m_sendSockets ++ [x.1] }

/-- The main address: the one that has been set, or the first that is not the loopback address. -/
def choose_main_address (n : Node) (addresses : List Ipv4Address) : Option Ipv4Address :=
  if n.m_mainAddress = Ipv4Address.uninitialized then
    (addresses.find? (· ≠ Ipv4Address.get_loopback)).filter (· ≠ Ipv4Address.uninitialized)
  else some n.m_mainAddress

/-- The timers expire once at the start. -/
def start_timers (n : Node) : Option Node := do
  let n ← n.hello_timer_expire
  let n ← n.tc_timer_expire
  let n ← n.mid_timer_expire
  n.hna_timer_expire

def do_initialize (n : Node) : Option Node :=
  if n.initialized then none
  else do
    let addresses ← n.m_ipv4.mapM List.head?
    let mainAddress ← n.choose_main_address addresses
    let n ← addresses.zipIdx.foldlM start_interface
      { n with m_mainAddress := mainAddress, initialized := true }
    if n.m_sendSockets = [] then some n else n.start_timers

def add_host_network_association (n : Node) (association : Association) : Node :=
  if association ∈ n.m_associations then n
  else { n with m_associations := n.m_associations ++ [association] }

def remove_host_network_association (n : Node) (association : Association) : Node :=
  { n with m_associations := n.m_associations.erase association }

inductive Event
  | start
  | recv_olsr (recvInterfaceIndex : ℕ) (packet : OlsrPacket)
  | expire (uid : ℕ)
  | advance (time : Time)
  | add_host_network_association (association : Association)
  | remove_host_network_association (association : Association)

def step (n : Node) : Event → Option Node
  | .start => n.do_initialize
  | .recv_olsr recvInterfaceIndex packet => n.recv_olsr recvInterfaceIndex packet
  | .expire uid => do
    let (call, simulator) ← n.simulator.take uid
    { n with simulator := simulator }.expire call
  | .advance time => (n.simulator.advance time).map fun simulator => { n with simulator := simulator }
  | .add_host_network_association association => some (n.add_host_network_association association)
  | .remove_host_network_association association =>
    some (n.remove_host_network_association association)

/-- A node before its start: its tables are empty and nothing is scheduled. -/
structure Initial (n : Node) : Prop where
  initialized : n.initialized = false
  m_state : n.m_state = {}
  m_associationSet : n.m_associationSet = []
  m_ansn : n.m_ansn = 65535
  m_messageSequenceNumber : n.m_messageSequenceNumber = 65535
  m_linkTupleTimerFirstTime : n.m_linkTupleTimerFirstTime = true
  m_queuedMessages : n.m_queuedMessages = []
  m_queuedMessagesTimer : n.m_queuedMessagesTimer = none
  m_sendSockets : n.m_sendSockets = []
  pending : n.simulator.pending = []
  sent : n.sent = []
  history : n.history = []

end Node

end Ns3.Olsr
