import Ns3.Foundation.ByteFormat
import Ns3.Network.Address
import Ns3.Olsr.OlsrState

namespace Ns3.Olsr

/-- `EmfToSeconds`, in nanoseconds: the value of a mantissa and exponent byte is
`(1 + a / 16) * 2 ^ b / 16` seconds. -/
def emf_to_time (olsrFormat : UInt8) : Time :=
  (16 + (olsrFormat >>> 4).toNat) * 2 ^ (olsrFormat &&& 0xf).toNat * 3906250

/-- `SecondsToEmf` of a duration: the mantissa is rounded to the nearest, a half downwards.
None where an assertion fails. -/
def time_to_emf (time : Time) : Option UInt8 :=
  let n := time.toNat
  if n < 62500000 then none
  else
    let b := Nat.log2 (n / 62500000)
    -- `16 * (T / (C * 2 ^ b))`, rounded, is from 16 to 32
    let unit := 62500000 * 2 ^ b
    let a := (32 * n + unit - 1) / (2 * unit) - 16
    let ab := if a = 16 then (0, b + 1) else (a, b)
    if ab.1 < 16 ∧ ab.2 < 16 then some (UInt8.ofNat (16 * ab.1 + ab.2)) else none

inductive LinkType
  | UNSPEC_LINK | ASYM_LINK | SYM_LINK | LOST_LINK
deriving DecidableEq, Repr

def LinkType.code : LinkType → UInt8
  | UNSPEC_LINK => 0
  | ASYM_LINK => 1
  | SYM_LINK => 2
  | LOST_LINK => 3

inductive NeighborType
  | NOT_NEIGH | SYM_NEIGH | MPR_NEIGH
deriving DecidableEq, Repr

def NeighborType.code : NeighborType → UInt8
  | NOT_NEIGH => 0
  | SYM_NEIGH => 1
  | MPR_NEIGH => 2

structure LinkMessage where
  linkCode : UInt8
  neighborInterfaceAddresses : List Ipv4Address
deriving DecidableEq, Repr

/-- The code of a link message that `SendHello` writes. -/
def link_code (linkType : LinkType) (neighborType : NeighborType) : UInt8 :=
  (linkType.code &&& (0x03 : UInt8)) ||| ((neighborType.code <<< 2) &&& (0x0f : UInt8))

structure Hello where
  hTime : UInt8
  willingness : Willingness
  linkMessages : List LinkMessage
deriving DecidableEq, Repr

structure Tc where
  neighborAddresses : List Ipv4Address
  ansn : UInt16
deriving DecidableEq, Repr

inductive Message
  | hello (hello : Hello)
  | tc (tc : Tc)
  | mid (interfaceAddresses : List Ipv4Address)
  | hna (associations : List Association)
deriving DecidableEq, Repr

def Message.is_hello : Message → Bool
  | hello _ => true
  | _ => false

structure MessageHeader where
  m_vTime : UInt8
  m_originatorAddress : Ipv4Address
  m_timeToLive : UInt8
  m_hopCount : UInt8
  m_messageSequenceNumber : UInt16
  m_message : Message
  /-- History: the TTL of the message at its originator. -/
  originated : ℕ
  /-- History: the main addresses of the nodes that have queued it for retransmission. -/
  retransmitters : List Ipv4Address
deriving DecidableEq, Repr

def MessageHeader.get_vtime (msg : MessageHeader) : Time := emf_to_time msg.m_vTime

/-- A packet that a socket has broadcast, and the address that the socket is bound to. -/
structure OlsrPacket where
  source : Ipv4Address
  messages : List MessageHeader
deriving DecidableEq, Repr

example : time_to_emf 6000000000 = some 0x86 ∧ emf_to_time 0x86 = 6000000000 := by decide

open ByteFormat

/-- A message as it is sent. -/
structure WireMessage where
  m_vTime : UInt8
  m_originatorAddress : Ipv4Address
  m_timeToLive : UInt8
  m_hopCount : UInt8
  m_messageSequenceNumber : UInt16
  m_message : Message
deriving DecidableEq, Repr

def ipv4_address_size : ℕ := 4

def olsr_msg_header_size : ℕ := 12

def olsr_pkt_header_size : ℕ := 4

def Message.code : Message → UInt8
  | hello _ => 1
  | tc _ => 2
  | mid _ => 3
  | hna _ => 4

/-! ## Writing -/

def LinkMessage.size (lm : LinkMessage) : ℕ := 4 + ipv4_address_size * lm.neighborInterfaceAddresses.length

def Message.get_serialized_size : Message → ℕ
  | hello h => 4 + (h.linkMessages.map LinkMessage.size).sum
  | tc t => 4 + t.neighborAddresses.length * ipv4_address_size
  | mid interfaceAddresses => interfaceAddresses.length * ipv4_address_size
  | hna associations => 2 * associations.length * ipv4_address_size

def WireMessage.get_serialized_size (msg : WireMessage) : ℕ := olsr_msg_header_size + msg.m_message.get_serialized_size

def write_addresses (addresses : List Ipv4Address) : List UInt8 := addresses.flatMap write_hton_u32

def LinkMessage.serialize (lm : LinkMessage) : List UInt8 :=
  [lm.linkCode] ++ [0] ++ write_hton_u16 (UInt16.ofNat (4 + lm.neighborInterfaceAddresses.length * ipv4_address_size)) ++
    write_addresses lm.neighborInterfaceAddresses

def Association.serialize (association : Association) : List UInt8 :=
  write_hton_u32 association.networkAddr ++ write_hton_u32 association.netmask

def Message.serialize : Message → List UInt8
  | hello h =>
    write_hton_u16 0 ++ [h.hTime] ++ [h.willingness] ++ h.linkMessages.flatMap LinkMessage.serialize
  | tc t => write_hton_u16 t.ansn ++ write_hton_u16 0 ++ write_addresses t.neighborAddresses
  | mid interfaceAddresses => write_addresses interfaceAddresses
  | hna associations => associations.flatMap Association.serialize

def WireMessage.serialize (msg : WireMessage) : List UInt8 :=
  [msg.m_message.code] ++ [msg.m_vTime] ++ write_hton_u16 (UInt16.ofNat msg.get_serialized_size) ++
    write_hton_u32 msg.m_originatorAddress ++ [msg.m_timeToLive] ++ [msg.m_hopCount] ++
    write_hton_u16 msg.m_messageSequenceNumber ++ msg.m_message.serialize

/-- `SendPacket` of the messages that `SendQueuedMessages` puts behind each other. -/
def send_packet (packetSequenceNumber : UInt16) (messages : List WireMessage) : List UInt8 :=
  let packet := messages.flatMap WireMessage.serialize
  write_hton_u16 (UInt16.ofNat (olsr_pkt_header_size + packet.length)) ++ write_hton_u16 packetSequenceNumber ++ packet

/-! ## Reading -/

def read_many {α : Type} (r : Reader α) : ℕ → Reader (List α)
  | 0 => return []
  | n + 1 => do
    let a ← r
    let l ← read_many r n
    return a :: l

def read_association : Reader Association := do
  let networkAddr ← read_ntoh_u32
  let netmask ← read_ntoh_u32
  return ⟨networkAddr, netmask⟩

/-- The loop over the link messages of a HELLO, for a number of turns; none where these run out. -/
def read_link_messages : ℕ → UInt16 → Reader (Option (List LinkMessage))
  | 0, _ => return none
  | turns + 1, helloSizeLeft =>
    if helloSizeLeft = 0 then return some []
    else do
      check (4 ≤ helloSizeLeft.toNat)
      let linkCode ← read_u8
      let _ ← read_u8
      let lmSize ← read_ntoh_u16
      check (Int.tmod ((lmSize.toNat : ℤ) - 4) ipv4_address_size = 0)
      -- from a negative count the loop over the addresses goes on to the end of the buffer
      check (4 ≤ lmSize.toNat)
      let addresses ← read_many read_ntoh_u32 ((lmSize.toNat - 4) / ipv4_address_size)
      let linkMessages ← read_link_messages turns (helloSizeLeft - lmSize)
      return linkMessages.map (⟨linkCode, addresses⟩ :: ·)

def deserialize_mid (messageSize : UInt32) : Reader (Message × UInt32) := do
  check (messageSize.toNat % ipv4_address_size = 0)
  let interfaceAddresses ← read_many read_ntoh_u32 (messageSize.toNat / ipv4_address_size)
  let mid := Message.mid interfaceAddresses
  return (mid, UInt32.ofNat mid.get_serialized_size)

def deserialize_hello (turns : ℕ) (messageSize : UInt32) : Reader (Option (Message × UInt32)) := do
  check (4 ≤ messageSize.toNat)
  let _ ← read_ntoh_u16
  let hTime ← read_u8
  let willingness ← read_u8
  let linkMessages ← read_link_messages turns (messageSize.toUInt16 - 4)
  return linkMessages.map fun linkMessages => (.hello ⟨hTime, willingness, linkMessages⟩, messageSize)

def deserialize_tc (messageSize : UInt32) : Reader (Message × UInt32) := do
  check (4 ≤ messageSize.toNat)
  let ansn ← read_ntoh_u16
  let _ ← read_ntoh_u16
  check ((messageSize.toNat - 4) % ipv4_address_size = 0)
  let neighborAddresses ← read_many read_ntoh_u32 ((messageSize.toNat - 4) / ipv4_address_size)
  return (.tc ⟨neighborAddresses, ansn⟩, messageSize)

def deserialize_hna (messageSize : UInt32) : Reader (Message × UInt32) := do
  check (messageSize.toNat % (ipv4_address_size * 2) = 0)
  let associations ← read_many read_association (messageSize.toNat / ipv4_address_size / 2)
  return (.hna associations, messageSize)

/-- The content of a message of a type, with the size that its `Deserialize` returns. -/
def deserialize_message (turns : ℕ) (messageType : UInt8) (messageSize : UInt32) : Reader (Option (Message × UInt32)) :=
  if messageType = 1 then deserialize_hello turns messageSize
  else if messageType = 2 then some <$> deserialize_tc messageSize
  else if messageType = 3 then some <$> deserialize_mid messageSize
  else some <$> deserialize_hna messageSize

/-- The fields before the content of a message, with the one that announces its size. -/
def read_fixed : Reader (UInt8 × UInt16 × (Message → WireMessage)) := do
  let messageType ← read_u8
  check (1 ≤ messageType.toNat ∧ messageType.toNat ≤ 4)
  let vTime ← read_u8
  let messageSize ← read_ntoh_u16
  let originatorAddress ← read_ntoh_u32
  let timeToLive ← read_u8
  let hopCount ← read_u8
  let messageSequenceNumber ← read_ntoh_u16
  return (messageType, messageSize, WireMessage.mk vTime originatorAddress timeToLive hopCount messageSequenceNumber)

/-- A message that was taken off a packet, the size that it announces and how many bytes were read for it. -/
structure Parsed where
  message : WireMessage
  m_messageSize : UInt16
  read : ℕ
deriving DecidableEq, Repr

/-- `Deserialize` of a message, which returns its size; none where a loop over link messages runs out of turns. -/
def WireMessage.deserialize : Reader (Option (WireMessage × UInt16 × UInt32)) := do
  let buffer ← get
  let (messageType, messageSize, make) ← read_fixed
  let content ← deserialize_message buffer.length messageType (messageSize.toUInt32 - UInt32.ofNat olsr_msg_header_size)
  return content.map fun (message, size) => (make message, messageSize, UInt32.ofNat olsr_msg_header_size + size)

inductive Outcome
  | finished | assertion | out_of_turns
deriving DecidableEq, Repr

/-- The loop of `RecvOlsr` that takes the messages off a packet, for a number of turns. -/
def parse_messages : ℕ → UInt32 → List UInt8 → List Parsed × Outcome
  | 0, _, _ => ([], .out_of_turns)
  | turns + 1, sizeLeft, packet =>
    if sizeLeft = 0 then ([], .finished)
    else match WireMessage.deserialize.run packet with
      | none => ([], .assertion)
      | some (none, _) => ([], .out_of_turns)
      | some (some (message, messageSize, deserialized), rest) =>
        if deserialized = 0 then ([], .assertion)
        else
          let parsed := ⟨message, messageSize, packet.length - rest.length⟩
          let (messages, outcome) := parse_messages turns
            (sizeLeft - UInt32.ofNat message.get_serialized_size) (packet.drop deserialized.toNat)
          (parsed :: messages, outcome)

def read_packet_header : Reader UInt16 := do
  let packetLength ← read_ntoh_u16
  let _ ← read_ntoh_u16
  return packetLength

/-- `RecvOlsr` up to the messages of the packet. A turn takes a byte at least. -/
def recv_olsr (packet : List UInt8) : List Parsed × Outcome :=
  match read_packet_header.run packet with
  | none => ([], .assertion)
  | some (packetLength, rest) =>
    if olsr_pkt_header_size ≤ packetLength.toNat then
      parse_messages (rest.length + 1) (packetLength.toUInt32 - UInt32.ofNat olsr_pkt_header_size) rest
    else ([], .assertion)

example :
    let msg : WireMessage := ⟨0x86, 1, 255, 0, 7, .tc ⟨[2, 3], 5⟩⟩
    recv_olsr (send_packet 1 [msg]) = ([⟨msg, 24, 24⟩], .finished) := by decide

end Ns3.Olsr
