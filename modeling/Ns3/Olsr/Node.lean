import Ns3.Foundation.Agenda
import Ns3.Olsr.OlsrHeader
import Ns3.Olsr.RoutingProtocol
import Ns3.Olsr.RoutingTable

namespace Ns3.Olsr

def seconds (n : Int) : Time := n * 1000000000

def OLSR_DUP_HOLD_TIME : Time := seconds 30

/-- What a node gives the simulator to call. -/
inductive OlsrCall
  | hello_timer_expire
  | tc_timer_expire
  | mid_timer_expire
  | hna_timer_expire
  | send_queued_messages
  | dup_tuple_timer_expire (address : Ipv4Address) (sequenceNumber : UInt16)
  | link_tuple_timer_expire (neighborIfaceAddr : Ipv4Address)
  | nb2hop_tuple_timer_expire (neighborMainAddr twoHopNeighborAddr : Ipv4Address)
  | mpr_sel_tuple_timer_expire (mainAddr : Ipv4Address)
  | topology_tuple_timer_expire (destAddr lastAddr : Ipv4Address)
  | iface_assoc_tuple_timer_expire (ifaceAddr : Ipv4Address)
  | association_tuple_timer_expire (gatewayAddr networkAddr : Ipv4Address) (netmask : Ipv4Mask)
deriving DecidableEq, Repr

/-- What a node may do with a message that is not a HELLO: let it change the state, or queue it
for retransmission. -/
inductive EffectKind
  | processed | queued
deriving DecidableEq, Repr

structure Effect where
  kind : EffectKind
  message : MessageHeader
  time : Time
deriving DecidableEq, Repr

/-- A node: what the computations read and write, and the rest of the protocol object. -/
structure Node extends RoutingProtocol where
  m_associationSet : List AssociationTuple := []
  m_associations : List Association := []
  m_interfaceExclusions : Finset ℕ := ∅
  m_helloInterval : Time := seconds 2
  m_tcInterval : Time := seconds 5
  m_midInterval : Time := seconds 5
  m_hnaInterval : Time := seconds 5
  m_willingness : Willingness := Willingness.DEFAULT
  m_ansn : UInt16 := 65535
  m_messageSequenceNumber : UInt16 := 65535
  m_linkTupleTimerFirstTime : Bool := true
  m_queuedMessages : List MessageHeader := []
  m_queuedMessagesTimer : Option ℕ := none
  /-- The addresses that the sending sockets are bound to. -/
  m_sendSockets : List Ipv4Address := []
  /-- The values that the random variable is going to return. -/
  m_uniformRandomVariable : ℕ → Time := fun _ => 0
  initialized : Bool := false
  simulator : Agenda OlsrCall := ⟨0, [], 0⟩
  /-- The packets that have been handed to the sockets. -/
  sent : List OlsrPacket := []
  /-- History of what has been done with the messages of others. -/
  history : List Effect := []

namespace Node

def now (n : Node) : Time := n.simulator.now

def get_main_address (n : Node) (iface_addr : Ipv4Address) : Ipv4Address :=
  n.m_state.get_main_address iface_addr

def neighb_hold_time (n : Node) : Time := 3 * n.m_helloInterval

/-- The macro `DELAY`: a microsecond more than what is left. -/
def delay (n : Node) (time : Time) : Time :=
  if time < n.now then microseconds 1 else time - n.now + microseconds 1

def set_state (n : Node) (s : OlsrState) : Node := { n with m_state := s }

def schedule (n : Node) (delay : Time) (call : OlsrCall) : Node :=
  { n with simulator := n.simulator.schedule delay call }

def record (n : Node) (kind : EffectKind) (msg : MessageHeader) : Node :=
  { n with history := n.history ++ [⟨kind, msg, n.now⟩] }

def mpr_computation (n : Node) : Option Node :=
  (n.toRoutingProtocol.mpr_computation n.m_state.m_twoHopNeighborSet.length).map fun p =>
    { n with toRoutingProtocol := p }

def routing_table_computation (n : Node) : Option Node :=
  (n.toRoutingProtocol.routing_table_computation n.now).map fun p => { n with toRoutingProtocol := p }

def increment_ansn (n : Node) : Node := { n with m_ansn := n.m_ansn + 1 }

/-- Returns the number and the node. -/
def get_message_sequence_number (n : Node) : UInt16 × Node :=
  (n.m_messageSequenceNumber + 1, { n with m_messageSequenceNumber := n.m_messageSequenceNumber + 1 })

/-! ### HELLO messages -/

def add_neighbor_tuple (n : Node) (tuple : NeighborTuple) : Node :=
  (n.set_state (n.m_state.insert_neighbor_tuple tuple)).increment_ansn

def link_tuple_added (n : Node) (tuple : LinkTuple) (willingness : Willingness) : Node :=
  n.add_neighbor_tuple
    { neighborMainAddr := n.get_main_address tuple.neighborIfaceAddr
      status := if tuple.symTime ≥ n.now then .STATUS_SYM else .STATUS_NOT_SYM
      willingness := willingness }

/-- Some link tuple of a main address is symmetric now. -/
def has_symmetric_link (n : Node) (mainAddr : Ipv4Address) : Bool :=
  n.m_state.m_linkSet.any fun l =>
    n.get_main_address l.neighborIfaceAddr == mainAddr && decide (l.symTime ≥ n.now)

def link_tuple_updated (n : Node) (tuple : LinkTuple) (willingness : Willingness) : Node :=
  let mainAddr := n.get_main_address tuple.neighborIfaceAddr
  let n := if (n.m_state.find_neighbor_tuple mainAddr).isNone then n.link_tuple_added tuple willingness
    else n
  let status := if n.has_symmetric_link mainAddr then NeighborStatus.STATUS_SYM else .STATUS_NOT_SYM
  n.set_state { n.m_state with
      m_neighborSet := n.m_state.m_neighborSet.modifyFirst (fun nb => nb.neighborMainAddr == mainAddr)
        fun nb => { nb with status := status } }

/-- The loop of `LinkSensing` over the link messages: only the first mention of the receiving
interface in a message counts. None where a link type is fatal. -/
def sense_link (n : Node) (vtime : Time) (receiverIface : Ipv4Address) (acc : LinkTuple × Bool)
    (linkMessage : LinkMessage) : Option (LinkTuple × Bool) :=
  let linkType := linkMessage.linkCode &&& (0x03 : UInt8)
  let neighborType := (linkMessage.linkCode >>> 2) &&& (0x03 : UInt8)
  if linkType = LinkType.SYM_LINK.code ∧ neighborType = NeighborType.NOT_NEIGH.code ∨
      neighborType ≠ NeighborType.SYM_NEIGH.code ∧ neighborType ≠ NeighborType.MPR_NEIGH.code ∧
        neighborType ≠ NeighborType.NOT_NEIGH.code then some acc
  else if receiverIface ∈ linkMessage.neighborInterfaceAddresses then
    if linkType = LinkType.LOST_LINK.code then
      some ({ acc.1 with symTime := n.now - seconds 1 }, true)
    else if linkType = LinkType.SYM_LINK.code ∨ linkType = LinkType.ASYM_LINK.code then
      some ({ acc.1 with symTime := n.now + vtime, time := n.now + vtime + n.neighb_hold_time }, true)
    else none
  else some acc

def link_sensing (n : Node) (msg : MessageHeader) (hello : Hello)
    (receiverIface senderIface : Ipv4Address) : Option Node := do
  let vtime := msg.get_vtime
  let found := n.m_state.find_link_tuple senderIface
  let link_tuple := found.getD
    { localIfaceAddr := receiverIface
      neighborIfaceAddr := senderIface
      symTime := n.now - seconds 1
      asymTime := 0
      time := n.now + vtime }
  let (link_tuple, updated) ← hello.linkMessages.foldlM (n.sense_link vtime receiverIface)
    ({ link_tuple with asymTime := n.now + vtime }, found.isSome)
  let link_tuple := { link_tuple with time := max link_tuple.time link_tuple.asymTime }
  let linkSet :=
    if found.isSome then
      n.m_state.m_linkSet.modifyFirst (fun l => l.neighborIfaceAddr == senderIface) fun _ => link_tuple
    else n.m_state.m_linkSet ++ [link_tuple]
  let n := n.set_state { n.m_state with m_linkSet := linkSet }
  let n := if updated then n.link_tuple_updated link_tuple hello.willingness else n
  return if found.isSome then n
  else
    (n.link_tuple_added link_tuple hello.willingness).schedule
      (n.delay (min link_tuple.time link_tuple.symTime))
      (.link_tuple_timer_expire link_tuple.neighborIfaceAddr)

def populate_neighbor_set (n : Node) (msg : MessageHeader) (hello : Hello) : Node :=
  n.set_state { n.m_state with
      m_neighborSet := n.m_state.m_neighborSet.modifyFirst
        (fun nb => nb.neighborMainAddr == msg.m_originatorAddress)
        fun nb => { nb with willingness := hello.willingness } }

def add_two_hop_neighbor_tuple (n : Node) (tuple : TwoHopNeighborTuple) : Node :=
  n.set_state { n.m_state with
      m_twoHopNeighborSet := n.m_state.m_twoHopNeighborSet ++ [tuple] }

def populate_two_hop_address (msg : MessageHeader) (neighborType : UInt8) (n : Node)
    (address : Ipv4Address) : Node :=
  let nb2hop_addr := n.get_main_address address
  if neighborType = NeighborType.SYM_NEIGH.code ∨ neighborType = NeighborType.MPR_NEIGH.code then
    if nb2hop_addr = n.m_mainAddress then n
    else
      let expirationTime := n.now + msg.get_vtime
      match n.m_state.find_two_hop_neighbor_tuple msg.m_originatorAddress nb2hop_addr with
      | none =>
        (n.add_two_hop_neighbor_tuple ⟨msg.m_originatorAddress, nb2hop_addr, expirationTime⟩).schedule
          (n.delay expirationTime) (.nb2hop_tuple_timer_expire msg.m_originatorAddress nb2hop_addr)
      | some _ =>
        n.set_state { n.m_state with
            m_twoHopNeighborSet := n.m_state.m_twoHopNeighborSet.modifyFirst
              (fun t => t.neighborMainAddr == msg.m_originatorAddress &&
                t.twoHopNeighborAddr == nb2hop_addr)
              fun t => { t with expirationTime := expirationTime } }
  else if neighborType = NeighborType.NOT_NEIGH.code then
    n.set_state (n.m_state.erase_two_hop_neighbor_tuples msg.m_originatorAddress nb2hop_addr)
  else n

def populate_two_hop_message (msg : MessageHeader) (n : Node) (linkMessage : LinkMessage) : Node :=
  linkMessage.neighborInterfaceAddresses.foldl
    (populate_two_hop_address msg ((linkMessage.linkCode >>> 2) &&& (0x03 : UInt8))) n

/-- The link messages are gone through for each symmetric link of the originator. -/
def populate_two_hop_neighbor_set (n : Node) (msg : MessageHeader) (hello : Hello) : Node :=
  n.m_state.m_linkSet.foldl
    (fun n link_tuple =>
      if n.get_main_address link_tuple.neighborIfaceAddr ≠ msg.m_originatorAddress then n
      else if link_tuple.symTime < n.now then n
      else hello.linkMessages.foldl (populate_two_hop_message msg) n) n

def add_mpr_selector_tuple (n : Node) (tuple : MprSelectorTuple) : Node :=
  (n.set_state { n.m_state with
      m_mprSelectorSet := n.m_state.m_mprSelectorSet ++ [tuple] }).increment_ansn

def populate_mpr_selector_address (msg : MessageHeader) (n : Node) (address : Ipv4Address) : Node :=
  if n.get_main_address address = n.m_mainAddress then
    let expirationTime := n.now + msg.get_vtime
    match n.m_state.find_mpr_selector_tuple msg.m_originatorAddress with
    | none =>
      (n.add_mpr_selector_tuple ⟨msg.m_originatorAddress, expirationTime⟩).schedule
        (n.delay expirationTime) (.mpr_sel_tuple_timer_expire msg.m_originatorAddress)
    | some _ =>
      n.set_state { n.m_state with
          m_mprSelectorSet := n.m_state.m_mprSelectorSet.modifyFirst
            (fun t => t.mainAddr == msg.m_originatorAddress)
            fun t => { t with expirationTime := expirationTime } }
  else n

/-- The link code is compared without a mask here. -/
def populate_mpr_selector_set (n : Node) (msg : MessageHeader) (hello : Hello) : Node :=
  hello.linkMessages.foldl
    (fun n linkMessage =>
      if linkMessage.linkCode >>> (2 : UInt8) = NeighborType.MPR_NEIGH.code then
        linkMessage.neighborInterfaceAddresses.foldl (populate_mpr_selector_address msg) n
      else n) n

def process_hello (n : Node) (msg : MessageHeader) (hello : Hello)
    (receiverIface senderIface : Ipv4Address) : Option Node := do
  let n ← n.link_sensing msg hello receiverIface senderIface
  let n := n.populate_neighbor_set msg hello
  let n := n.populate_two_hop_neighbor_set msg hello
  let n ← n.mpr_computation
  return n.populate_mpr_selector_set msg hello

end Node

end Ns3.Olsr
