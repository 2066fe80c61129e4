import Ns3.Foundation.Lists
import Ns3.Lte.LteRlcAmHeader
import Ns3.Network.Address

namespace Ns3

/-- `LteRlcSduStatusTag`. -/
inductive LteRlcSduStatus
  | full_sdu | first_segment | middle_segment | last_segment | any_segment
deriving DecidableEq, Repr

/-- An RLC SDU or a segment of one: the size of the packet and its status tag. -/
structure LteRlcSdu where
  size : UInt32
  status : LteRlcSduStatus := .full_sdu
deriving DecidableEq, Repr

/-- A data PDU: its header and the sizes of the segments in its data field. -/
structure LteRlcPdu where
  header : LteRlcAmHeader
  data_field : List UInt32
deriving DecidableEq, Repr

def LteRlcPdu.get_size (p : LteRlcPdu) : UInt32 := p.header.header_length.toUInt32 + p.data_field.sum

structure TxPdu where
  pdu : LteRlcSdu
  waiting_since : Time
deriving DecidableEq, Repr

structure RetxPdu where
  pdu : Option LteRlcPdu := none
  retx_count : UInt16 := 0
  waiting_since : Time := 0
deriving DecidableEq, Repr

/-- The bytes that a slot of a buffer holds. -/
def RetxPdu.size (r : RetxPdu) : UInt32 := (r.pdu.map LteRlcPdu.get_size).getD 0

structure ReportBufferStatusParameters where
  tx_queue_size : UInt32
  tx_queue_hol_delay : UInt16
  retx_queue_size : UInt32
  retx_queue_hol_delay : UInt16
  status_pdu_size : UInt16
deriving DecidableEq, Repr

/-- What the entity hands to the MAC. The contents of a STATUS PDU belong to the receiving side. -/
inductive LteMacSap
  | transmit_pdu (pdu : LteRlcPdu)
  | transmit_status
  | report_buffer_status (r : ReportBufferStatusParameters)
deriving DecidableEq, Repr

/-- A STATUS PDU. -/
structure LteRlcStatus where
  ack_sn : SequenceNumber10
  nack_sn_list : List (Fin 1024)
deriving DecidableEq, Repr

def LteRlcStatus.is_nack_present (r : LteRlcStatus) (nack : SequenceNumber10) : Bool := nack.value ∈ r.nack_sn_list

/-- The transmitting side of an entity. -/
structure LteRlcAm where
  max_tx_buffer_size : UInt32 := 10 * 1024
  tx_opportunity_for_retx_always_big_enough : Bool := false
  txon_buffer : List TxPdu := []
  txed_buffer : Fin 1024 → RetxPdu := fun _ => {}
  retx_buffer : Fin 1024 → RetxPdu := fun _ => {}
  txon_buffer_size : UInt32 := 0
  retx_buffer_size : UInt32 := 0
  txed_buffer_size : UInt32 := 0
  status_pdu_requested : Bool := false
  status_pdu_buffer_size : UInt32 := 0
  vt_a : SequenceNumber10 := {}
  vt_ms : SequenceNumber10 := { value := 512 }
  vt_s : SequenceNumber10 := {}
  poll_sn : SequenceNumber10 := {}
  pdu_without_poll : UInt32 := 0
  byte_without_poll : UInt32 := 0
  poll_pdu : UInt32 := 1
  poll_byte : UInt32 := 50
  window_size : Fin 1024 := 512
  poll_retransmit_timer : Bool := false
  status_prohibit_timer : Bool := false
  rbs_timer : Bool := false
  poll_retransmit_timer_just_expired : Bool := false

namespace LteRlcAm

/-- `NS_ASSERT`, which stops the program when it fails. -/
def ns_assert (condition : Option Bool) : Option Unit := condition.bind fun c => if c then some () else none

def do_report_buffer_status (s : LteRlcAm) (now : Time) : Option (List LteMacSap) := do
  let txon_queue_hol_delay ←
    if s.txon_buffer_size > 0 then s.txon_buffer.head?.map fun p => now - p.waiting_since else some 0
  let retx_queue_hol_delay :=
    if s.retx_buffer_size > 0 then
      if (s.retx_buffer s.vt_a.value).pdu.isSome then now - (s.retx_buffer s.vt_a.value).waiting_since
      else now - (s.txed_buffer s.vt_a.value).waiting_since
    else 0
  let r : ReportBufferStatusParameters := {
    tx_queue_size := s.txon_buffer_size
    tx_queue_hol_delay := .ofInt (Time.get_milliseconds txon_queue_hol_delay)
    retx_queue_size := s.retx_buffer_size + s.txed_buffer_size
    retx_queue_hol_delay := .ofInt (Time.get_milliseconds retx_queue_hol_delay)
    status_pdu_size :=
      if s.status_pdu_requested && !s.status_prohibit_timer then s.status_pdu_buffer_size.toUInt16 else 0 }
  return if r.tx_queue_size != 0 || r.retx_queue_size != 0 || r.status_pdu_size != 0 then [.report_buffer_status r]
    else []

def do_transmit_pdcp_pdu (s : LteRlcAm) (now : Time) (size : UInt32) : Option (LteRlcAm × List LteMacSap) := do
  let s :=
    if s.txon_buffer_size + size ≤ s.max_tx_buffer_size || s.max_tx_buffer_size == 0 then
      { s with
        txon_buffer := s.txon_buffer ++ [{ pdu := { size := size }, waiting_since := now }]
        txon_buffer_size := s.txon_buffer_size + size }
    else s
  let out ← s.do_report_buffer_status now
  return ({ s with rbs_timer := true }, out)

def poll (s : LteRlcAm) : LteRlcAm :=
  { s with
    poll_retransmit_timer_just_expired := false
    pdu_without_poll := 0
    byte_without_poll := 0
    poll_sn := s.vt_s.sub 1
    poll_retransmit_timer := true }

/-- A PDU is moved from the retransmission buffer back to the buffer of transmitted PDUs. -/
def move_to_txed (s : LteRlcAm) (now : Time) (sn : Fin 1024) (pdu : LteRlcPdu) : LteRlcAm :=
  { s with
    txed_buffer := Function.update s.txed_buffer sn
      { pdu := some pdu, retx_count := (s.retx_buffer sn).retx_count + 1, waiting_since := now }
    txed_buffer_size := s.txed_buffer_size + pdu.get_size
    retx_buffer_size := s.retx_buffer_size - pdu.get_size
    retx_buffer := Function.update s.retx_buffer sn {} }

/-- Whether a retransmitted PDU carries a poll. -/
def retx_poll_condition (s : LteRlcAm) (pdu : LteRlcPdu) : Option Bool :=
  if s.txon_buffer.isEmpty ∧ s.retx_buffer_size = pdu.get_size then some true
  else (s.vt_s.ge s.vt_ms).map (· || s.poll_retransmit_timer_just_expired)

/-- The retransmission of a PDU: the header is rebuilt for the copy that is sent. -/
def retransmit (s : LteRlcAm) (now : Time) (sn : Fin 1024) (pdu : LteRlcPdu) :
    Option (LteRlcAm × List LteMacSap) := do
  let polling ← s.retx_poll_condition pdu
  let s := if polling then s.poll else s
  return (s.move_to_txed now sn pdu,
    [.transmit_pdu { pdu with header := { pdu.header with polling_bit := polling } }])

/-- The search for a PDU to retransmit from a number on, for a number of turns. -/
def retransmission (s : LteRlcAm) (now : Time) (bytes : UInt32) :
    ℕ → SequenceNumber10 → Option (LteRlcAm × List LteMacSap)
  | 0, _ => none
  | turns + 1, sn => do
    if ← sn.lt s.vt_s then
      match (s.retx_buffer sn.value).pdu with
      | some pdu =>
        if pdu.get_size ≤ bytes || s.tx_opportunity_for_retx_always_big_enough then s.retransmit now sn.value pdu
        else return (s, [])
      | none => s.retransmission now bytes turns sn.next
    else none

/-- What the loop that builds a data field leaves. -/
structure DataField where
  data_field : List LteRlcSdu
  header : LteRlcAmHeader
  txon_buffer : List TxPdu
  txon_buffer_size : UInt32

/-- The status of a segment that is cut off an SDU. -/
def cut_status : LteRlcSduStatus → LteRlcSduStatus
  | .full_sdu => .first_segment
  | .last_segment => .middle_segment
  | status => status

def remaining_status : LteRlcSduStatus → LteRlcSduStatus
  | .full_sdu => .last_segment
  | status => status

/-- The status of a segment that turns out to be all of the SDU. -/
def whole_status : LteRlcSduStatus → LteRlcSduStatus
  | .first_segment => .full_sdu
  | .middle_segment => .last_segment
  | status => status

/-- A segment is cut off the first SDU; what remains of it is given back to the transmission buffer. -/
def segment (first_segment : TxPdu) (next_segment_size : UInt32) (header : LteRlcAmHeader) (txon_buffer : List TxPdu)
    (txon_buffer_size : UInt32) : DataField :=
  let curr_segment_size := min first_segment.pdu.size next_segment_size
  let new_status := cut_status first_segment.pdu.status
  let remaining : LteRlcSdu := {
    size := first_segment.pdu.size - curr_segment_size
    status := remaining_status first_segment.pdu.status }
  let header := header.push_extension_bit .data_field_follows
  if remaining.size > 0 then
    { data_field := [{ size := curr_segment_size, status := new_status }]
      header := header
      txon_buffer := { pdu := remaining, waiting_since := first_segment.waiting_since } :: txon_buffer
      txon_buffer_size := txon_buffer_size + remaining.size }
  else
    { data_field := [{ size := curr_segment_size, status := whole_status new_status }]
      header := header
      txon_buffer := txon_buffer
      txon_buffer_size := txon_buffer_size }

/-- The loop that builds a data field, with the SDU that was taken out of the transmission buffer. -/
def build (first_segment : TxPdu) (next_segment_size : UInt32) (next_segment_id : ℕ) (header : LteRlcAmHeader)
    (txon_buffer : List TxPdu) (txon_buffer_size : UInt32) : DataField :=
  if first_segment.pdu.size > 0 && next_segment_size > 0 then
    if first_segment.pdu.size > next_segment_size || first_segment.pdu.size > 2047 then
      segment first_segment next_segment_size header txon_buffer txon_buffer_size
    else
      let last : DataField := {
        data_field := [first_segment.pdu]
        header := header.push_extension_bit .data_field_follows
        txon_buffer := txon_buffer
        txon_buffer_size := txon_buffer_size }
      match txon_buffer with
      | [] => last
      | p :: rest =>
        if next_segment_size - first_segment.pdu.size ≤ 2 then last
        else
          let header := header.push_extension_bit .e_li_fields_follow
          let header := header.push_length_indicator first_segment.pdu.size.toUInt16
          let li_size : UInt32 := if next_segment_id % 2 = 1 then 2 else 1
          let field := build p (next_segment_size - (li_size + first_segment.pdu.size)) (next_segment_id + 1) header
            rest (txon_buffer_size - p.pdu.size)
          { field with data_field := first_segment.pdu :: field.data_field }
  else
    { data_field := [], header := header, txon_buffer := txon_buffer, txon_buffer_size := txon_buffer_size }

def framing_info (first last : LteRlcSduStatus) : UInt8 :=
  (if first = .full_sdu || first = .first_segment then 0x00 else 0x02) |||
    (if last = .full_sdu || last = .last_segment then 0x00 else 0x01)

/-- The PDU is put into the buffer of transmitted PDUs. -/
def put_txed (s : LteRlcAm) (now : Time) (sn : Fin 1024) (pdu : LteRlcPdu) : LteRlcAm :=
  { s with
    txed_buffer_size := s.txed_buffer_size + pdu.get_size
    txed_buffer := Function.update s.txed_buffer sn { pdu := some pdu, retx_count := 0, waiting_since := now } }

def poll_condition (s : LteRlcAm) : Option Bool :=
  if s.pdu_without_poll ≥ s.poll_pdu ∨ s.byte_without_poll ≥ s.poll_byte ∨
    (s.txon_buffer.isEmpty ∧ s.retx_buffer_size = 0) then some true
  else (s.vt_s.ge s.vt_ms).map (· || s.poll_retransmit_timer_just_expired)

def new_pdu (s : LteRlcAm) (now : Time) (bytes : UInt32) : Option (LteRlcAm × List LteMacSap) :=
  match s.txon_buffer with
  | [] => some (s, [])
  | first :: rest => do
    let field := build first (bytes - 4) 1 {} rest (s.txon_buffer_size - first.pdu.size)
    let sequence_number := s.vt_s
    let s := { s with
      txon_buffer := field.txon_buffer
      txon_buffer_size := field.txon_buffer_size
      vt_s := s.vt_s.next }
    ns_assert (sequence_number.lt s.vt_ms)
    ns_assert (sequence_number.ge s.vt_a)
    let first ← field.data_field.head?
    let last ← field.data_field.getLast?
    let data_field := field.data_field.map LteRlcSdu.size
    let s := { s with
      pdu_without_poll := s.pdu_without_poll + 1
      byte_without_poll := s.byte_without_poll + data_field.sum }
    let polling ← s.poll_condition
    let s := if polling then s.poll else s
    let header := { field.header with
      sequence_number := sequence_number
      framing_info := framing_info first.status last.status
      polling_bit := polling }
    let pdu : LteRlcPdu := { header := header, data_field := data_field }
    return (s.put_txed now sequence_number.value pdu, [.transmit_pdu pdu])

def do_notify_tx_opportunity (s : LteRlcAm) (now : Time) (bytes : UInt32) : Option (LteRlcAm × List LteMacSap) :=
  if bytes < 4 then none
  else if s.status_pdu_requested && !s.status_prohibit_timer then
    if bytes < s.status_pdu_buffer_size then none
    else some ({ s with
      status_pdu_requested := false
      status_pdu_buffer_size := 0
      status_prohibit_timer := true }, [.transmit_status])
  else if s.retx_buffer_size > 0 then do
    ns_assert (s.vt_a.lt s.vt_s)
    s.retransmission now bytes 1025 s.vt_a
  else if s.txon_buffer_size > 0 then
    if bytes < 7 then none
    else do
      ns_assert (s.vt_s.le s.vt_ms)
      if s.vt_s.value = s.vt_ms.value then return (s, []) else s.new_pdu now bytes
  else some (s, [])

/-- A PDU is moved from the buffer of transmitted PDUs to the retransmission buffer, if there is one. -/
def move_to_retx (s : LteRlcAm) (sn : Fin 1024) : LteRlcAm :=
  match (s.txed_buffer sn).pdu with
  | some pdu =>
    { s with
      retx_buffer := Function.update s.retx_buffer sn (s.txed_buffer sn)
      retx_buffer_size := s.retx_buffer_size + pdu.get_size
      txed_buffer_size := s.txed_buffer_size - pdu.get_size
      txed_buffer := Function.update s.txed_buffer sn {} }
  | none => s

/-- A PDU that is acknowledged is dropped from the buffer of transmitted PDUs. -/
def ack_txed (s : LteRlcAm) (sn : Fin 1024) : Option LteRlcAm :=
  match (s.txed_buffer sn).pdu with
  | some pdu => do
    ns_assert (some (s.retx_buffer sn).pdu.isNone)
    return { s with
      txed_buffer_size := s.txed_buffer_size - pdu.get_size
      txed_buffer := Function.update s.txed_buffer sn { s.txed_buffer sn with pdu := none, waiting_since := 0 } }
  | none => some s

/-- A PDU that is acknowledged is dropped from the retransmission buffer. -/
def ack_retx (s : LteRlcAm) (sn : Fin 1024) : LteRlcAm :=
  match (s.retx_buffer sn).pdu with
  | some pdu =>
    { s with
      retx_buffer_size := s.retx_buffer_size - pdu.get_size
      retx_buffer := Function.update s.retx_buffer sn {} }
  | none => s

def set_modulus_bases (s : LteRlcAm) : LteRlcAm :=
  { s with
    vt_a := s.vt_a.set_modulus_base s.vt_a
    vt_s := s.vt_s.set_modulus_base s.vt_a
    vt_ms := s.vt_ms.set_modulus_base s.vt_a }

def increment_vt_a (s : LteRlcAm) : LteRlcAm :=
  set_modulus_bases { s with vt_a := s.vt_a.next, vt_ms := s.vt_a.next.add s.window_size }

/-- The timer is cancelled by a report on the number of the last poll. -/
def stop_poll_retransmit_timer (s : LteRlcAm) (sn : Fin 1024) : LteRlcAm :=
  if s.poll_retransmit_timer && sn = s.poll_sn.value then { s with poll_retransmit_timer := false } else s

/-- The loop over the sequence numbers that a STATUS PDU reports on, for a number of turns. -/
def status_turns (status : LteRlcStatus) : ℕ → LteRlcAm → SequenceNumber10 → SequenceNumber10 → Bool → Option LteRlcAm
  | 0, _, _, _, _ => none
  | turns + 1, s, ack_sn, sn, increment => do
    if (← sn.lt ack_sn) && (← sn.lt s.vt_s) then
      let s := s.stop_poll_retransmit_timer sn.value
      if status.is_nack_present sn then
        let s := s.move_to_retx sn.value
        ns_assert (some (s.retx_buffer sn.value).pdu.isSome)
        status_turns status turns s ack_sn sn.next false
      else
        let s ← s.ack_txed sn.value
        let s := s.ack_retx sn.value
        if increment then
          let s := s.increment_vt_a
          status_turns status turns s (ack_sn.set_modulus_base s.vt_a) (sn.set_modulus_base s.vt_a).next true
        else status_turns status turns s ack_sn sn.next false
    else return s

/-- `DoReceivePdu` for a STATUS PDU. -/
def do_receive_status (s : LteRlcAm) (status : LteRlcStatus) : Option LteRlcAm :=
  let s := s.set_modulus_bases
  status_turns status 1025 s (status.ack_sn.set_modulus_base s.vt_a) s.vt_a true

/-- What `DoReceivePdu` does on the transmitting side for a data PDU, with the poll that it carries. -/
def do_receive_data (s : LteRlcAm) (now : Time) (polling_bit : Bool) : Option (LteRlcAm × List LteMacSap) :=
  if polling_bit then
    let s := { s with status_pdu_requested := true, status_pdu_buffer_size := 4 }
    if s.status_prohibit_timer then some (s, []) else (s.do_report_buffer_status now).map fun out => (s, out)
  else some (s, [])

/-- The loop of `ExpirePollRetransmitTimer`. -/
def move_all_to_retx : ℕ → LteRlcAm → SequenceNumber10 → Option LteRlcAm
  | 0, _, _ => none
  | turns + 1, s, sn => do
    if ← sn.lt s.vt_s then move_all_to_retx turns (s.move_to_retx sn.value) sn.next else return s

def expire_poll_retransmit_timer (s : LteRlcAm) (now : Time) : Option (LteRlcAm × List LteMacSap) := do
  let s := { s with poll_retransmit_timer_just_expired := true, poll_retransmit_timer := false }
  ns_assert (s.vt_s.le s.vt_ms)
  let s ←
    if (s.txon_buffer_size = 0 && s.retx_buffer_size = 0) || s.vt_s.value = s.vt_ms.value then
      move_all_to_retx 1025 s s.vt_a
    else some s
  let out ← s.do_report_buffer_status now
  return (s, out)

def expire_rbs_timer (s : LteRlcAm) (now : Time) : Option (LteRlcAm × List LteMacSap) :=
  if s.txon_buffer_size + s.txed_buffer_size + s.retx_buffer_size > 0 then do
    let out ← s.do_report_buffer_status now
    return ({ s with rbs_timer := true }, out)
  else some ({ s with rbs_timer := false }, [])

/-- What can happen to the entity. -/
inductive Event
  | transmit_pdcp_pdu (size : UInt32)
  | notify_tx_opportunity (bytes : UInt32)
  | receive_status (status : LteRlcStatus)
  | receive_data (polling_bit : Bool)
  | expire_poll_retransmit_timer
  | expire_reordering_timer
  | expire_status_prohibit_timer
  | expire_rbs_timer
deriving DecidableEq, Repr

def step (s : LteRlcAm) (now : Time) : Event → Option (LteRlcAm × List LteMacSap)
  | .transmit_pdcp_pdu size => s.do_transmit_pdcp_pdu now size
  | .notify_tx_opportunity bytes => s.do_notify_tx_opportunity now bytes
  | .receive_status status => (s.do_receive_status status).map fun s => (s, [])
  | .receive_data polling_bit => s.do_receive_data now polling_bit
  | .expire_poll_retransmit_timer => LteRlcAm.expire_poll_retransmit_timer s now
  | .expire_reordering_timer => some ({ s with status_pdu_requested := true }, [])
  | .expire_status_prohibit_timer => some ({ s with status_prohibit_timer := false }, [])
  | .expire_rbs_timer => LteRlcAm.expire_rbs_timer s now

end LteRlcAm

end Ns3
