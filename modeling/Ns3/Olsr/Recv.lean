import Ns3.Olsr.Node

namespace Ns3.Olsr.Node

/-! ### Messages that are flooded -/

def add_topology_tuple (n : Node) (tuple : TopologyTuple) : Node :=
  n.set_state { n.m_state with m_topologySet := n.m_state.m_topologySet ++ [tuple] }

def process_tc_address (msg : MessageHeader) (tc : Tc) (n : Node) (addr : Ipv4Address) : Node :=
  let expirationTime := n.now + msg.get_vtime
  match n.m_state.find_topology_tuple addr msg.m_originatorAddress with
  | some _ =>
    n.set_state { n.m_state with
        m_topologySet := n.m_state.m_topologySet.modifyFirst
          (fun t => t.destAddr == addr && t.lastAddr == msg.m_originatorAddress)
          fun t => { t with expirationTime := expirationTime } }
  | none =>
    (n.add_topology_tuple ⟨addr, msg.m_originatorAddress, tc.ansn, expirationTime⟩).schedule
      (n.delay expirationTime) (.topology_tuple_timer_expire addr msg.m_originatorAddress)

def process_tc (n : Node) (msg : MessageHeader) (tc : Tc) (senderIface : Ipv4Address) : Node :=
  match n.m_state.find_sym_link_tuple senderIface n.now with
  | none => n
  | some _ =>
    let n := n.record .processed msg
    match n.m_state.find_newer_topology_tuple msg.m_originatorAddress tc.ansn with
    | some _ => n
    | none =>
      tc.neighborAddresses.foldl (process_tc_address msg tc)
        (n.set_state (n.m_state.erase_older_topology_tuples msg.m_originatorAddress tc.ansn))

def add_iface_assoc_tuple (n : Node) (tuple : IfaceAssocTuple) : Node :=
  n.set_state { n.m_state with m_ifaceAssocSet := n.m_state.m_ifaceAssocSet ++ [tuple] }

def process_mid_address (msg : MessageHeader) (n : Node) (address : Ipv4Address) : Node :=
  let time := n.now + msg.get_vtime
  let same (t : IfaceAssocTuple) : Bool :=
    t.ifaceAddr == address && t.mainAddr == msg.m_originatorAddress
  if n.m_state.m_ifaceAssocSet.any same then
    n.set_state { n.m_state with
        m_ifaceAssocSet := n.m_state.m_ifaceAssocSet.map fun t =>
          if same t then { t with time := time } else t }
  else
    (n.add_iface_assoc_tuple ⟨address, msg.m_originatorAddress, time⟩).schedule
      (n.delay time) (.iface_assoc_tuple_timer_expire address)

/-- The addresses of the neighbours and of the 2-hop neighbours become main addresses. -/
def rename_neighbors (n : Node) : Node :=
  n.set_state { n.m_state with
      m_neighborSet := n.m_state.m_neighborSet.map fun nb =>
        { nb with neighborMainAddr := n.get_main_address nb.neighborMainAddr }
      m_twoHopNeighborSet := n.m_state.m_twoHopNeighborSet.map fun t =>
        { t with
          neighborMainAddr := n.get_main_address t.neighborMainAddr
          twoHopNeighborAddr := n.get_main_address t.twoHopNeighborAddr } }

def process_mid (n : Node) (msg : MessageHeader) (interfaceAddresses : List Ipv4Address)
    (senderIface : Ipv4Address) : Node :=
  match n.m_state.find_sym_link_tuple senderIface n.now with
  | none => n
  | some _ =>
    (interfaceAddresses.foldl (process_mid_address msg) (n.record .processed msg)).rename_neighbors

def find_association_tuple (n : Node) (gatewayAddr networkAddr : Ipv4Address) (netmask : Ipv4Mask) :
    Option AssociationTuple :=
  n.m_associationSet.find? fun t =>
    t.gatewayAddr == gatewayAddr && t.networkAddr == networkAddr && t.netmask == netmask

def add_association_tuple (n : Node) (tuple : AssociationTuple) : Node :=
  { n with m_associationSet := n.m_associationSet ++ [tuple] }

def process_hna_association (msg : MessageHeader) (n : Node) (it : Association) : Node :=
  let expirationTime := n.now + msg.get_vtime
  match n.find_association_tuple msg.m_originatorAddress it.networkAddr it.netmask with
  | some _ =>
    { n with
      m_associationSet := n.m_associationSet.modifyFirst
        (fun t => t.gatewayAddr == msg.m_originatorAddress && t.networkAddr == it.networkAddr &&
          t.netmask == it.netmask)
        fun t => { t with expirationTime := expirationTime } }
  | none =>
    (n.add_association_tuple
        ⟨msg.m_originatorAddress, it.networkAddr, it.netmask, expirationTime⟩).schedule
      (n.delay expirationTime)
      (.association_tuple_timer_expire msg.m_originatorAddress it.networkAddr it.netmask)

def process_hna (n : Node) (msg : MessageHeader) (associations : List Association)
    (senderIface : Ipv4Address) : Node :=
  match n.m_state.find_sym_link_tuple senderIface n.now with
  | none => n
  | some _ => associations.foldl (process_hna_association msg) (n.record .processed msg)

/-- The timer runs while its event is pending. -/
def queue_message (n : Node) (msg : MessageHeader) (delay : Time) : Node :=
  let n := { n with m_queuedMessages := n.m_queuedMessages ++ [msg] }
  if (n.simulator.find n.m_queuedMessagesTimer).isSome then n
  else
    { n.schedule delay .send_queued_messages with
      m_queuedMessagesTimer := some n.simulator.next_uid }

/-- `JITTER`: the next value of the random variable, and the node. -/
def jitter (n : Node) : Time × Node :=
  (n.m_uniformRandomVariable 0, { n with
    m_uniformRandomVariable := fun i => n.m_uniformRandomVariable (i + 1) })

/-- Queue a message of another node for retransmission. -/
def retransmit (n : Node) (msg : MessageHeader) : Node :=
  let msg' := { msg with
    m_timeToLive := msg.m_timeToLive - 1
    m_hopCount := msg.m_hopCount + 1
    retransmitters := msg.retransmitters ++ [n.m_mainAddress] }
  (n.jitter.2.queue_message msg' n.jitter.1).record .queued msg'

def add_duplicate_tuple (n : Node) (tuple : DuplicateTuple) : Node :=
  n.set_state { n.m_state with m_duplicateSet := n.m_state.m_duplicateSet ++ [tuple] }

/-- The last part of `ForwardDefault`: the duplicate tuple of the message is updated or created. -/
def update_duplicate (n : Node) (msg : MessageHeader) (duplicated : Option DuplicateTuple)
    (retransmitted : Bool) (localIface : Ipv4Address) : Node :=
  let expirationTime := n.now + OLSR_DUP_HOLD_TIME
  match duplicated with
  | some _ =>
    n.set_state { n.m_state with
        m_duplicateSet := n.m_state.m_duplicateSet.modifyFirst
          (fun t => t.address == msg.m_originatorAddress &&
            t.sequenceNumber == msg.m_messageSequenceNumber)
          fun t => { t with
            expirationTime := expirationTime
            retransmitted := retransmitted
            ifaceList := t.ifaceList ++ [localIface] } }
  | none =>
    (n.add_duplicate_tuple
        ⟨msg.m_originatorAddress, msg.m_messageSequenceNumber, retransmitted, [localIface],
          expirationTime⟩).schedule OLSR_DUP_HOLD_TIME
      (.dup_tuple_timer_expire msg.m_originatorAddress msg.m_messageSequenceNumber)

/-- The sender has chosen the node as a relay, and the message may go on. -/
def Forwards (n : Node) (msg : MessageHeader) (senderAddress : Ipv4Address) : Prop :=
  1 < msg.m_timeToLive ∧
    (n.m_state.find_mpr_selector_tuple (n.get_main_address senderAddress)).isSome

instance (n : Node) (msg : MessageHeader) (senderAddress : Ipv4Address) :
    Decidable (n.Forwards msg senderAddress) := inferInstanceAs (Decidable (_ ∧ _))

def forward_default (n : Node) (msg : MessageHeader) (duplicated : Option DuplicateTuple)
    (localIface senderAddress : Ipv4Address) : Node :=
  match n.m_state.find_sym_link_tuple senderAddress n.now with
  | none => n
  | some _ =>
    if duplicated.any (·.retransmitted) then n
    else if n.Forwards msg senderAddress then
      (n.retransmit msg).update_duplicate msg duplicated true localIface
    else n.update_duplicate msg duplicated false localIface

/-! ### Packets -/

/-- The switch of `RecvOlsr` on the message type. -/
def process (n : Node) (msg : MessageHeader) (receiverIface senderIface : Ipv4Address) :
    Option Node :=
  match msg.m_message with
  | .hello hello => n.process_hello msg hello receiverIface senderIface
  | .tc tc => some (n.process_tc msg tc senderIface)
  | .mid interfaceAddresses => some (n.process_mid msg interfaceAddresses senderIface)
  | .hna associations => some (n.process_hna msg associations senderIface)

/-- The loop of `RecvOlsr` over the messages. -/
def recv_message (receiverIface senderIface : Ipv4Address) (n : Node) (msg : MessageHeader) :
    Option Node :=
  if msg.m_timeToLive = 0 ∨ msg.m_originatorAddress = n.m_mainAddress then some n
  else do
    let duplicated :=
      n.m_state.find_duplicate_tuple msg.m_originatorAddress msg.m_messageSequenceNumber
    let n ← match duplicated with
      | none => n.process msg receiverIface senderIface
      | some _ => some n
    let do_forwarding := !duplicated.any fun t => t.ifaceList.contains receiverIface
    return if do_forwarding && !msg.m_message.is_hello then
      n.forward_default msg duplicated receiverIface senderIface
    else n

/-- A packet arrives on an interface. None where the node has no socket or stops. -/
def recv_olsr (n : Node) (recvInterfaceIndex : ℕ) (packet : OlsrPacket) : Option Node :=
  if n.m_sendSockets = [] then none
  else if recvInterfaceIndex ∈ n.m_interfaceExclusions then some n
  else if (n.find_interface packet.source).isSome then some n
  else do
    let receiverIface ← (n.m_ipv4[recvInterfaceIndex]?).bind List.head?
    if receiverIface = Ipv4Address.uninitialized then none
    let n ← packet.messages.foldlM (recv_message receiverIface packet.source) n
    n.routing_table_computation

end Ns3.Olsr.Node
