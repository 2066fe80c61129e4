import Ns3.Foundation.Framing
import Ns3.Lte.LteRlcAm

namespace Ns3

structure LteRlcHeader where
  header_length : UInt16 := 0
  framing_info : UInt8 := 0xff
  sequence_number : SequenceNumber10 := {}
  extension_bits : List ExtensionBit := []
  length_indicators : List UInt16 := []
deriving DecidableEq, Repr

namespace LteRlcHeader

open LteRlcAmHeader (serialize_li shl_and shr_and u8 word)

def set_framing_info (h : LteRlcHeader) (framing_info : UInt8) : LteRlcHeader :=
  { h with framing_info := framing_info &&& 0x03 }

def set_sequence_number (h : LteRlcHeader) (sequence_number : SequenceNumber10) : LteRlcHeader :=
  { h with sequence_number := sequence_number }

def push_extension_bit (h : LteRlcHeader) (extension_bit : ExtensionBit) : LteRlcHeader :=
  let extension_bits := h.extension_bits ++ [extension_bit]
  { h with
    extension_bits := extension_bits
    header_length :=
      if extension_bits.length = 1 then 2
      else if extension_bits.length % 2 = 1 then h.header_length + 1 else h.header_length + 2 }

def push_length_indicator (h : LteRlcHeader) (length_indicator : UInt16) : LteRlcHeader :=
  { h with length_indicators := h.length_indicators ++ [length_indicator] }

def get_serialized_size (h : LteRlcHeader) : UInt32 := h.header_length.toUInt32

/-- `Serialize`, which reads the first extension bit. -/
def serialize (h : LteRlcHeader) : Option (List UInt8) := do
  let e ← h.extension_bits.head?
  let sn := word h.sequence_number.value
  return [u8 (shl_and h.framing_info.toUInt16 3 0x18 ||| shl_and e.code 2 0x04 ||| shr_and sn 8 0x0003),
    u8 (sn &&& 0x00ff)] ++ serialize_li h.extension_bits.tail h.length_indicators

end LteRlcHeader

/-- A PDCP PDU. The size of a packet is a 32-bit word. -/
structure PdcpPdu where
  bytes : List UInt8
  length_lt : bytes.length < 2 ^ 32

def PdcpPdu.get_size (p : PdcpPdu) : UInt32 := .ofNat p.bytes.length

namespace LteRlcUm

/-- An SDU or a segment of one, with its status tag. -/
structure Segment where
  bytes : List UInt8
  status : LteRlcSduStatus := .full_sdu
deriving DecidableEq, Repr

structure TxPdu where
  pdu : Segment
  waiting_since : Time
deriving DecidableEq, Repr

def TxPdu.get_size (p : TxPdu) : UInt32 := .ofNat p.pdu.bytes.length

/-- A PDU that is handed to the MAC: its header and its data field. -/
structure UmdPdu where
  header : LteRlcHeader
  data_field : List UInt8
deriving DecidableEq, Repr

/-- The traces, and what the entity hands to the MAC. -/
inductive Output
  | tx_drop (p : PdcpPdu)
  | tx_pdu (size : UInt32)
  | transmit_pdu (pdu : UmdPdu)
  | report_buffer_status (r : ReportBufferStatusParameters)

end LteRlcUm

/-- The transmitting side of an entity. -/
structure LteRlcUm where
  max_tx_buffer_size : UInt32 := 10 * 1024
  enable_pdcp_discarding : Bool := true
  discard_timer_ms : UInt32 := 0
  packet_delay_budget_ms : UInt16 := 0xffff
  tx_buffer : List LteRlcUm.TxPdu := []
  tx_buffer_size : UInt32 := 0
  sequence_number : SequenceNumber10 := {}
  rbs_timer : Bool := false

namespace LteRlcUm

open LteRlcAm (cut_status remaining_status whole_status framing_info)

def do_report_buffer_status (s : LteRlcUm) (now : Time) : Output :=
  let hol_delay : Time := match s.tx_buffer with
    | [] => 0
    | front :: _ => now - front.waiting_since
  .report_buffer_status {
    tx_queue_size := if s.tx_buffer = [] then 0 else s.tx_buffer_size + 2 * .ofNat s.tx_buffer.length
    tx_queue_hol_delay := .ofInt hol_delay.get_milliseconds
    retx_queue_size := 0
    retx_queue_hol_delay := 0
    status_pdu_size := 0 }

/-- Whether an SDU fits into the transmission buffer. -/
def has_room (s : LteRlcUm) (p : PdcpPdu) : Prop := s.tx_buffer_size + p.get_size ≤ s.max_tx_buffer_size

/-- Whether the SDU at the head of the line waits for longer than the discard timer. -/
def discards (s : LteRlcUm) (now : Time) : Prop :=
  let head_of_line_delay_in_ms : UInt32 := match s.tx_buffer with
    | [] => 0
    | front :: _ => .ofInt (Time.get_milliseconds (now - front.waiting_since))
  let discard_timer_ms := if s.discard_timer_ms > 0 then s.discard_timer_ms else s.packet_delay_budget_ms.toUInt32
  s.enable_pdcp_discarding ∧ head_of_line_delay_in_ms > discard_timer_ms

instance (s : LteRlcUm) (p : PdcpPdu) : Decidable (s.has_room p) :=
  inferInstanceAs (Decidable (s.tx_buffer_size + p.get_size ≤ s.max_tx_buffer_size))

instance (s : LteRlcUm) (now : Time) : Decidable (s.discards now) :=
  inferInstanceAs (Decidable (s.enable_pdcp_discarding ∧ _))

/-- `DoTransmitPdcpPdu`. An SDU that is discarded is stored nevertheless. -/
def do_transmit_pdcp_pdu (s : LteRlcUm) (now : Time) (p : PdcpPdu) : LteRlcUm × List Output :=
  let drops := if s.has_room p then if s.discards now then [.tx_drop p] else [] else [.tx_drop p]
  let s := if s.has_room p then
      { s with
        tx_buffer := s.tx_buffer ++ [{ pdu := { bytes := p.bytes }, waiting_since := now }]
        tx_buffer_size := s.tx_buffer_size + p.get_size }
    else s
  ({ s with rbs_timer := false }, drops ++ [s.do_report_buffer_status now])

/-- What the loop that builds a data field leaves. -/
structure DataField where
  data_field : List Segment
  header : LteRlcHeader
  tx_buffer : List TxPdu
  tx_buffer_size : UInt32

/-- A segment is cut off the first SDU; what remains of it is given back to the transmission buffer. -/
def segment (first_segment : TxPdu) (next_segment_size : ℕ) (header : LteRlcHeader) (tx_buffer : List TxPdu)
    (tx_buffer_size : UInt32) : DataField :=
  let curr_segment_size := min first_segment.pdu.bytes.length next_segment_size
  let new_status := cut_status first_segment.pdu.status
  let new_bytes := first_segment.pdu.bytes.take curr_segment_size
  let remaining : TxPdu := { first_segment with
    pdu := {
      bytes := first_segment.pdu.bytes.drop curr_segment_size
      status := remaining_status first_segment.pdu.status } }
  let header := header.push_extension_bit .data_field_follows
  if remaining.pdu.bytes.length > 0 then
    { data_field := [{ bytes := new_bytes, status := new_status }]
      header := header
      tx_buffer := remaining :: tx_buffer
      tx_buffer_size := tx_buffer_size + remaining.get_size }
  else
    { data_field := [{ bytes := new_bytes, status := whole_status new_status }]
      header := header
      tx_buffer := tx_buffer
      tx_buffer_size := tx_buffer_size }

/-- The loop that builds a data field, with the SDU that was taken out of the transmission buffer. -/
def build (first_segment : TxPdu) (next_segment_size next_segment_id : ℕ) (header : LteRlcHeader)
    (tx_buffer : List TxPdu) (tx_buffer_size : UInt32) : DataField :=
  if first_segment.pdu.bytes.length > 0 ∧ next_segment_size > 0 then
    if first_segment.pdu.bytes.length > next_segment_size ∨ first_segment.pdu.bytes.length > 2047 then
      segment first_segment next_segment_size header tx_buffer tx_buffer_size
    else
      let last : DataField := {
        data_field := [first_segment.pdu]
        header := header.push_extension_bit .data_field_follows
        tx_buffer := tx_buffer
        tx_buffer_size := tx_buffer_size }
      match tx_buffer with
      | [] => last
      | p :: rest =>
        if next_segment_size - first_segment.pdu.bytes.length ≤ 2 then last
        else
          let header := header.push_extension_bit .e_li_fields_follow
          let header := header.push_length_indicator (.ofNat first_segment.pdu.bytes.length)
          let li_size := if next_segment_id % 2 = 1 then 2 else 1
          let field := build p (next_segment_size - (li_size + first_segment.pdu.bytes.length)) (next_segment_id + 1)
            header rest (tx_buffer_size - p.get_size)
          { field with data_field := first_segment.pdu :: field.data_field }
  else
    { data_field := [], header := header, tx_buffer := tx_buffer, tx_buffer_size := tx_buffer_size }

/-- `AddHeader`, for a header that takes as many bytes as are put before the packet. -/
def add_header (header : LteRlcHeader) (data_field : List UInt8) : Option UmdPdu := do
  let bytes ← header.serialize
  if bytes.length = header.get_serialized_size.toNat then return { header := header, data_field := data_field } else none

/-- `DoNotifyTxOpportunity`. The first segment and the last one of the data field are looked at. -/
def do_notify_tx_opportunity (s : LteRlcUm) (bytes : UInt32) : Option (LteRlcUm × List Output) :=
  if bytes ≤ 2 then some (s, [])
  else match s.tx_buffer with
  | [] => some (s, [])
  | first :: rest => do
    let field := build first (bytes.toNat - 2) 1 {} rest (s.tx_buffer_size - first.get_size)
    let header := field.header.set_sequence_number s.sequence_number
    let first ← field.data_field.head?
    let last ← field.data_field.getLast?
    let packet := field.data_field.flatMap Segment.bytes
    let pdu ← add_header (header.set_framing_info (framing_info first.status last.status)) packet
    let s := { s with
      tx_buffer := field.tx_buffer
      tx_buffer_size := field.tx_buffer_size
      sequence_number := s.sequence_number.next
      rbs_timer := if field.tx_buffer = [] then s.rbs_timer else true }
    return (s, [.tx_pdu (pdu.header.get_serialized_size + .ofNat packet.length), .transmit_pdu pdu])

def expire_rbs_timer (s : LteRlcUm) (now : Time) : LteRlcUm × List Output :=
  if s.tx_buffer = [] then ({ s with rbs_timer := false }, [])
  else ({ s with rbs_timer := true }, [s.do_report_buffer_status now])

/-- What can happen to the transmitting side. -/
inductive Event
  | transmit_pdcp_pdu (p : PdcpPdu)
  | notify_tx_opportunity (bytes : UInt32)
  | notify_harq_delivery_failure
  | expire_rbs_timer

def step (s : LteRlcUm) (now : Time) : Event → Option (LteRlcUm × List Output)
  | .transmit_pdcp_pdu p => some (s.do_transmit_pdcp_pdu now p)
  | .notify_tx_opportunity bytes => s.do_notify_tx_opportunity bytes
  | .notify_harq_delivery_failure => some (s, [])
  | .expire_rbs_timer => some (LteRlcUm.expire_rbs_timer s now)

end LteRlcUm

end Ns3
