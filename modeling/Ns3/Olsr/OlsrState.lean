import Ns3.Foundation.Lists
import Ns3.Network.Address

namespace Ns3.Olsr

/-- The willingness of a node to forward for others. Values beyond those of the
standard are not refused. -/
abbrev Willingness := UInt8

namespace Willingness

def NEVER : Willingness := 0
def LOW : Willingness := 1
def DEFAULT : Willingness := 3
def HIGH : Willingness := 6
def ALWAYS : Willingness := 7

end Willingness

structure IfaceAssocTuple where
  ifaceAddr : Ipv4Address
  mainAddr : Ipv4Address
  time : Time
deriving DecidableEq, Repr

structure LinkTuple where
  localIfaceAddr : Ipv4Address
  neighborIfaceAddr : Ipv4Address
  /-- The link is bidirectional until then. -/
  symTime : Time
  /-- The link is unidirectional until then. -/
  asymTime : Time
  time : Time
deriving DecidableEq, Repr

inductive NeighborStatus
  | STATUS_NOT_SYM | STATUS_SYM
deriving DecidableEq, Repr

structure NeighborTuple where
  neighborMainAddr : Ipv4Address
  status : NeighborStatus
  willingness : Willingness
deriving DecidableEq, Repr

structure TwoHopNeighborTuple where
  neighborMainAddr : Ipv4Address
  twoHopNeighborAddr : Ipv4Address
  expirationTime : Time
deriving DecidableEq, Repr

structure MprSelectorTuple where
  mainAddr : Ipv4Address
  expirationTime : Time
deriving DecidableEq, Repr

structure DuplicateTuple where
  address : Ipv4Address
  sequenceNumber : UInt16
  retransmitted : Bool
  /-- The interfaces on which the message has been received. -/
  ifaceList : List Ipv4Address
  expirationTime : Time
deriving DecidableEq, Repr

structure TopologyTuple where
  destAddr : Ipv4Address
  lastAddr : Ipv4Address
  sequenceNumber : UInt16
  expirationTime : Time
deriving DecidableEq, Repr

/-- A network that a gateway announces. -/
structure AssociationTuple where
  gatewayAddr : Ipv4Address
  networkAddr : Ipv4Address
  netmask : Ipv4Mask
  expirationTime : Time
deriving DecidableEq, Repr

/-- A network that the node itself announces. -/
structure Association where
  networkAddr : Ipv4Address
  netmask : Ipv4Mask
deriving DecidableEq, Repr

abbrev MprSet := Finset Ipv4Address

/-- The repositories of a node, in the order in which they are stored. -/
structure OlsrState where
  m_linkSet : List LinkTuple := []
  m_neighborSet : List NeighborTuple := []
  m_twoHopNeighborSet : List TwoHopNeighborTuple := []
  m_topologySet : List TopologyTuple := []
  m_mprSet : MprSet := ∅
  m_mprSelectorSet : List MprSelectorTuple := []
  m_duplicateSet : List DuplicateTuple := []
  m_ifaceAssocSet : List IfaceAssocTuple := []
deriving DecidableEq

namespace OlsrState

def find_neighbor_tuple (s : OlsrState) (mainAddr : Ipv4Address) : Option NeighborTuple :=
  s.m_neighborSet.find? fun n => n.neighborMainAddr == mainAddr

def find_sym_neighbor_tuple (s : OlsrState) (mainAddr : Ipv4Address) : Option NeighborTuple :=
  s.m_neighborSet.find? fun n => n.neighborMainAddr == mainAddr && n.status == .STATUS_SYM

def find_iface_assoc_tuple (s : OlsrState) (ifaceAddr : Ipv4Address) : Option IfaceAssocTuple :=
  s.m_ifaceAssocSet.find? fun t => t.ifaceAddr == ifaceAddr

def find_mpr_selector_tuple (s : OlsrState) (mainAddr : Ipv4Address) : Option MprSelectorTuple :=
  s.m_mprSelectorSet.find? fun t => t.mainAddr == mainAddr

def erase_mpr_selector_tuples (s : OlsrState) (mainAddr : Ipv4Address) : OlsrState :=
  { s with m_mprSelectorSet := s.m_mprSelectorSet.filter fun t => t.mainAddr != mainAddr }

/-- A tuple replaces the one of the same neighbour. -/
def insert_neighbor_tuple (s : OlsrState) (tuple : NeighborTuple) : OlsrState :=
  match s.find_neighbor_tuple tuple.neighborMainAddr with
  | some _ => { s with
      m_neighborSet := s.m_neighborSet.modifyFirst
        (fun n => n.neighborMainAddr == tuple.neighborMainAddr) fun _ => tuple }
  | none => { s with m_neighborSet := s.m_neighborSet ++ [tuple] }

def erase_neighbor_tuple (s : OlsrState) (mainAddr : Ipv4Address) : OlsrState :=
  { s with m_neighborSet := s.m_neighborSet.eraseP fun n => n.neighborMainAddr == mainAddr }

def find_two_hop_neighbor_tuple (s : OlsrState) (neighborMainAddr twoHopNeighborAddr : Ipv4Address) :
    Option TwoHopNeighborTuple :=
  s.m_twoHopNeighborSet.find? fun t =>
    t.neighborMainAddr == neighborMainAddr && t.twoHopNeighborAddr == twoHopNeighborAddr

/-- `EraseTwoHopNeighborTuples`, for one 2-hop address. -/
def erase_two_hop_neighbor_tuples (s : OlsrState)
    (neighborMainAddr twoHopNeighborAddr : Ipv4Address) : OlsrState :=
  { s with
    m_twoHopNeighborSet := s.m_twoHopNeighborSet.filter fun t =>
      !(t.neighborMainAddr == neighborMainAddr && t.twoHopNeighborAddr == twoHopNeighborAddr) }

/-- `EraseTwoHopNeighborTuples`, for all that a neighbour reports. -/
def erase_two_hop_neighbors_of (s : OlsrState) (neighborMainAddr : Ipv4Address) : OlsrState :=
  { s with
    m_twoHopNeighborSet := s.m_twoHopNeighborSet.filter fun t =>
      t.neighborMainAddr != neighborMainAddr }

def find_duplicate_tuple (s : OlsrState) (addr : Ipv4Address) (sequenceNumber : UInt16) :
    Option DuplicateTuple :=
  s.m_duplicateSet.find? fun t => t.address == addr && t.sequenceNumber == sequenceNumber

def find_link_tuple (s : OlsrState) (ifaceAddr : Ipv4Address) : Option LinkTuple :=
  s.m_linkSet.find? fun l => l.neighborIfaceAddr == ifaceAddr

/-- Only the first link tuple of the interface is looked at. -/
def find_sym_link_tuple (s : OlsrState) (ifaceAddr : Ipv4Address) (now : Time) : Option LinkTuple :=
  match s.find_link_tuple ifaceAddr with
  | some l => if l.symTime > now then some l else none
  | none => none

def find_topology_tuple (s : OlsrState) (destAddr lastAddr : Ipv4Address) : Option TopologyTuple :=
  s.m_topologySet.find? fun t => t.destAddr == destAddr && t.lastAddr == lastAddr

def find_newer_topology_tuple (s : OlsrState) (lastAddr : Ipv4Address) (ansn : UInt16) :
    Option TopologyTuple :=
  s.m_topologySet.find? fun t => t.lastAddr == lastAddr && t.sequenceNumber > ansn

def erase_older_topology_tuples (s : OlsrState) (lastAddr : Ipv4Address) (ansn : UInt16) :
    OlsrState :=
  { s with
    m_topologySet := s.m_topologySet.filter fun t =>
      !(t.lastAddr == lastAddr && t.sequenceNumber < ansn) }

def find_neighbor_interfaces (s : OlsrState) (neighborMainAddr : Ipv4Address) : List Ipv4Address :=
  (s.m_ifaceAssocSet.filter fun t => t.mainAddr == neighborMainAddr).map (·.ifaceAddr)

def set_mpr_set (s : OlsrState) (mprSet : MprSet) : OlsrState := { s with m_mprSet := mprSet }

def get_main_address (s : OlsrState) (iface_addr : Ipv4Address) : Ipv4Address :=
  match s.find_iface_assoc_tuple iface_addr with
  | some tuple => tuple.mainAddr
  | none => iface_addr

end OlsrState

end Ns3.Olsr
