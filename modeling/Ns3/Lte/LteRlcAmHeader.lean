import Ns3.Foundation.ByteFormat
import Ns3.Lte.SequenceNumber10

namespace Ns3

inductive ExtensionBit
  | data_field_follows | e_li_fields_follow
deriving DecidableEq, Repr

def ExtensionBit.code : ExtensionBit → UInt16
  | .data_field_follows => 0
  | .e_li_fields_follow => 1

inductive DataControlPdu
  | control_pdu | data_pdu
deriving DecidableEq, Repr

/-- The header of a data PDU or of a STATUS PDU. -/
structure LteRlcAmHeader where
  header_length : UInt16 := 4
  data_control : DataControlPdu := .data_pdu
  resegmentation_flag : Bool := false
  polling_bit : Bool := false
  framing_info : UInt8 := 0
  sequence_number : SequenceNumber10 := {}
  last_segment_flag : Bool := false
  segment_offset : UInt16 := 0
  last_offset : UInt16 := 0xffff
  extension_bits : List ExtensionBit := []
  length_indicators : List UInt16 := []
  control_pdu_type : UInt8 := 0xff
  ack_sn : SequenceNumber10 := {}
  nack_sn_list : List (Fin 1024) := []
deriving DecidableEq, Repr

namespace LteRlcAmHeader

open ByteFormat

def set_data_pdu (h : LteRlcAmHeader) : LteRlcAmHeader := { h with header_length := 4, data_control := .data_pdu }

def set_control_pdu (h : LteRlcAmHeader) (control_pdu_type : UInt8) : LteRlcAmHeader :=
  { h with header_length := 2, data_control := .control_pdu, control_pdu_type := control_pdu_type }

def set_framing_info (h : LteRlcAmHeader) (framing_info : UInt8) : LteRlcAmHeader :=
  { h with framing_info := framing_info &&& 0x03 }

def set_segment_offset (h : LteRlcAmHeader) (segment_offset : UInt16) : LteRlcAmHeader :=
  { h with segment_offset := segment_offset &&& 0x7fff }

def push_extension_bit (h : LteRlcAmHeader) (extension_bit : ExtensionBit) : LteRlcAmHeader :=
  let extension_bits := h.extension_bits ++ [extension_bit]
  { h with
    extension_bits := extension_bits
    header_length :=
      if extension_bits.length > 1 then
        if extension_bits.length % 2 = 1 then h.header_length + 1 else h.header_length + 2
      else h.header_length }

def push_length_indicator (h : LteRlcAmHeader) (length_indicator : UInt16) : LteRlcAmHeader :=
  { h with length_indicators := h.length_indicators ++ [length_indicator] }

def one_more_nack_would_fit_in (h : LteRlcAmHeader) (bytes : UInt16) : Bool :=
  if h.nack_sn_list.length % 2 = 0 then h.header_length.toNat < bytes.toNat
  else (h.header_length.toNat : ℤ) < (bytes.toNat : ℤ) - 1

def push_nack (h : LteRlcAmHeader) (nack : Fin 1024) : LteRlcAmHeader :=
  let nack_sn_list := h.nack_sn_list ++ [nack]
  { h with
    nack_sn_list := nack_sn_list
    header_length := if nack_sn_list.length % 2 = 0 then h.header_length + 1 else h.header_length + 2 }

def get_serialized_size (h : LteRlcAmHeader) : UInt16 := h.header_length

def status_pdu : UInt8 := 0

def bit (b : Bool) : UInt16 := if b then 1 else 0

/-- The byte that `WriteU8` writes of a number. -/
def u8 (data : UInt16) : UInt8 := data.toUInt8

def shl_and (data count mask : UInt16) : UInt16 := (data <<< count) &&& mask

def shr_and (data count mask : UInt16) : UInt16 := (data >>> count) &&& mask

/-- The loop of `Serialize` over the extension bits and the length indicators, two turns of each at a time. -/
def serialize_li : List ExtensionBit → List UInt16 → List UInt8
  | oddE :: evenE :: es, oddLi :: evenLi :: lis =>
    [u8 (shl_and oddE.code 7 0x80 ||| shr_and oddLi 4 0x007f),
      u8 (shl_and oddLi 4 0x00f0 ||| shl_and evenE.code 3 0x08 ||| shr_and evenLi 8 0x0007),
      u8 (evenLi &&& 0x00ff)] ++ serialize_li es lis
  | oddE :: _, oddLi :: _ =>
    [u8 (shl_and oddE.code 7 0x80 ||| shr_and oddLi 4 0x007f), u8 (shl_and oddLi 4 0x00f0)]
  | _, _ => []

/-- The loop of `Serialize` over the NACKs, from one whose first bit is written. -/
def serialize_nacks (oddNack : UInt16) : List UInt16 → List UInt8
  | [] => [u8 (shr_and oddNack 1 0xff), u8 (shl_and oddNack 7 0x80)]
  | [evenNack] =>
    [u8 (shr_and oddNack 1 0xff), u8 (shl_and oddNack 7 0x80 ||| 0x40 ||| shr_and evenNack 5 0x1f),
      u8 (shl_and evenNack 3 0xf8)]
  | evenNack :: nextNack :: nacks =>
    [u8 (shr_and oddNack 1 0xff), u8 (shl_and oddNack 7 0x80 ||| 0x40 ||| shr_and evenNack 5 0x1f),
      u8 (shl_and evenNack 3 0xf8 ||| 0x04 ||| shr_and nextNack 9 0x01)] ++ serialize_nacks nextNack nacks

def word (sn : Fin 1024) : UInt16 := UInt16.ofNat sn.val

/-- `Serialize`, which reads the first extension bit of a data PDU. -/
def serialize (h : LteRlcAmHeader) : Option (List UInt8) :=
  match h.data_control with
  | .data_pdu => do
    let e ← h.extension_bits.head?
    let sn := word h.sequence_number.value
    return [u8 (0x80 ||| shl_and (bit h.resegmentation_flag) 6 0x40 ||| shl_and (bit h.polling_bit) 5 0x20 |||
          shl_and h.framing_info.toUInt16 3 0x18 ||| shl_and e.code 2 0x04 ||| shr_and sn 8 0x0003),
        u8 (sn &&& 0x00ff),
        u8 (shl_and (bit h.last_segment_flag) 7 0x80 ||| shr_and h.segment_offset 8 0x007f),
        u8 (h.segment_offset &&& 0x00ff)] ++ serialize_li h.extension_bits.tail h.length_indicators
  | .control_pdu =>
    let ack := word h.ack_sn.value
    let first := u8 (shl_and h.control_pdu_type.toUInt16 4 0x70 ||| shr_and ack 6 0x0f)
    match h.nack_sn_list.map word with
    | [] => some [first, u8 (shl_and ack 2 0xfc)]
    | nack :: nacks =>
      some ([first, u8 (shl_and ack 2 0xfc ||| 0x02 ||| shr_and nack 9 0x01)] ++ serialize_nacks nack nacks)

def extension_bit_of (code : UInt8) : ExtensionBit := if code = 1 then .e_li_fields_follow else .data_field_follows

/-- The loop of `Deserialize` over the length indicators, for a number of turns. -/
def deserialize_li : ℕ → LteRlcAmHeader → Reader LteRlcAmHeader
  | 0, _ => lift none
  | turns + 1, h => do
    let byte_1 ← read_u8
    let byte_2 ← read_u8
    let oddE := extension_bit_of ((byte_1 &&& 0x80) >>> 7)
    let oddLi := ((byte_1.toUInt16 &&& 0x7f) <<< 4) ||| ((byte_2.toUInt16 &&& 0xf0) >>> 4)
    let h := { h with
      extension_bits := h.extension_bits ++ [oddE]
      length_indicators := h.length_indicators ++ [oddLi]
      header_length := h.header_length + 2 }
    if oddE = .e_li_fields_follow then do
      let byte_3 ← read_u8
      let evenE := extension_bit_of ((byte_2 &&& 0x08) >>> 3)
      let evenLi := ((byte_2.toUInt16 &&& 0x07) <<< 8) ||| (byte_3.toUInt16 &&& 0xff)
      let h := { h with
        extension_bits := h.extension_bits ++ [evenE]
        length_indicators := h.length_indicators ++ [evenLi]
        header_length := h.header_length + 1 }
      if evenE = .e_li_fields_follow then deserialize_li turns h else return h
    else return h

/-- A list of numbers of ten bits. -/
def nack_of (w : UInt16) : Fin 1024 := Fin.ofNat 1024 w.toNat

/-- The loop of `Deserialize` over the NACKs, for a number of turns, from the byte that a NACK starts in. -/
def deserialize_nacks : ℕ → LteRlcAmHeader → UInt8 → Reader LteRlcAmHeader
  | 0, _, _ => lift none
  | turns + 1, h, byte => do
    let nextByte ← read_u8
    let nack := nack_of (((byte.toUInt16 &&& 0x1f) <<< 5) ||| ((nextByte.toUInt16 &&& 0xf8) >>> 3))
    let h := { h with nack_sn_list := h.nack_sn_list ++ [nack] }
    if (nextByte &&& 0x04) >>> 2 = 1 then do
      let byte := nextByte
      let nextByte ← read_u8
      let finalByte ← read_u8
      let nack := nack_of (((byte.toUInt16 &&& 0x01) <<< 9) ||| (nextByte.toUInt16 <<< 1) |||
        ((finalByte.toUInt16 &&& 0x80) >>> 7))
      let h := { h with nack_sn_list := h.nack_sn_list ++ [nack], header_length := h.header_length + 3 }
      if (finalByte &&& 0x40) >>> 6 = 1 then deserialize_nacks turns h finalByte else return h
    else return { h with header_length := h.header_length + 1 }

/-- `Deserialize` of what follows the first byte of a data PDU, in a buffer of `size` bytes. -/
def deserialize_data (size : ℕ) (h : LteRlcAmHeader) (byte_1 : UInt8) : Reader LteRlcAmHeader := do
  let byte_2 ← read_u8
  let byte_3 ← read_u8
  let byte_4 ← read_u8
  let e := extension_bit_of ((byte_1 &&& 0x04) >>> 2)
  let h := { h with
    header_length := 1 + 3
    data_control := .data_pdu
    resegmentation_flag := (byte_1 &&& 0x40) >>> 6 = 1
    polling_bit := (byte_1 &&& 0x20) >>> 5 = 1
    framing_info := (byte_1 &&& 0x18) >>> 3
    sequence_number := { h.sequence_number with
      value := nack_of (((byte_1.toUInt16 &&& 0x03) <<< 8) ||| byte_2.toUInt16) }
    last_segment_flag := (byte_3 &&& 0x80) >>> 7 = 1
    -- the upper bits of the offset are not shifted back
    segment_offset := (byte_3.toUInt16 &&& 0x7f) ||| byte_4.toUInt16
    extension_bits := h.extension_bits ++ [e] }
  if e = .data_field_follows then return h
  else
    let h ← deserialize_li size h
    return if h.resegmentation_flag then
      { h with last_offset := h.segment_offset + UInt16.ofNat size - h.header_length } else h

def deserialize_control (size : ℕ) (h : LteRlcAmHeader) (byte_1 : UInt8) : Reader LteRlcAmHeader := do
  let byte_2 ← read_u8
  let h := { h with
    data_control := .control_pdu
    control_pdu_type := (byte_1 &&& 0x70) >>> 4
    ack_sn := { h.ack_sn with
      value := nack_of (((byte_1.toUInt16 &&& 0x0f) <<< 6) ||| ((byte_2.toUInt16 &&& 0xfc) >>> 2)) } }
  if (byte_2 &&& 0x02) >>> 1 = 1 then do
    let byte_3 ← read_u8
    let byte_4 ← read_u8
    let nack := nack_of (((byte_2.toUInt16 &&& 0x01) <<< 9) ||| (byte_3.toUInt16 <<< 1) |||
      ((byte_4.toUInt16 &&& 0x80) >>> 7))
    let h := { h with header_length := 4, nack_sn_list := h.nack_sn_list ++ [nack] }
    if (byte_4 &&& 0x40) >>> 6 = 1 then deserialize_nacks size h byte_4 else return h
  else return { h with header_length := 1 + 1 }

/-- `Deserialize`. A turn of a loop takes a byte at least. -/
def deserialize (h : LteRlcAmHeader) : Reader LteRlcAmHeader := do
  let buffer ← get
  let byte_1 ← read_u8
  if (byte_1 &&& 0x80) >>> 7 = 1 then deserialize_data buffer.length h byte_1
  else deserialize_control buffer.length h byte_1

end LteRlcAmHeader

end Ns3
