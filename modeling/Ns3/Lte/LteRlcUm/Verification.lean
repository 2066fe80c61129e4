import Ns3.Lte.LteRlcUm.DataField

namespace Ns3.LteRlcUm

open Framing
open LteRlcAmHeader (li_size)
open LteRlcHeader (li_size_mono)
open LteRlcAm (framing_info)

/-- The pieces in a data field, as the framing info and the length indicators describe them. -/
def UmdPdu.pieces (pdu : UmdPdu) : List (Piece UInt8) :=
  mark (pdu.header.framing_info &&& 0x02 = 0) (pdu.header.framing_info &&& 0x01 = 0)
    (cut (pdu.header.length_indicators.map UInt16.toNat) pdu.data_field)

def UmdPdu.size (pdu : UmdPdu) : ℕ := pdu.header.get_serialized_size.toNat + pdu.data_field.length

/-- A PDU for a transmission opportunity: it fits, and its data field is made of the pieces that its header tells. -/
structure UmdPdu.Framed (pdu : UmdPdu) (bytes : UInt32) : Prop where
  fits : pdu.size ≤ bytes.toNat
  extension_bits : pdu.header.extension_bits =
    List.replicate pdu.header.length_indicators.length .e_li_fields_follow ++ [.data_field_follows]
  length_indicators : ∀ li ∈ pdu.header.length_indicators, li ≤ 2047
  data_field : (pdu.pieces.map Piece.content).flatten = pdu.data_field
  described : (pdu.pieces.map fun p => p.content.length).dropLast = pdu.header.length_indicators.map UInt16.toNat
  nonempty : ∀ p ∈ pdu.pieces, p.content ≠ []

/-- The transmission buffer, of whose first SDU some bytes have been sent, and its counter. -/
structure Kept (s : LteRlcUm) (sent : List UInt8) : Prop where
  queued : Queued sent s.tx_buffer
  counter : s.tx_buffer_size = .ofNat (amount s.tx_buffer)
  bounded : amount s.tx_buffer < 2 ^ 32

/-- So many SDUs fit into an opportunity that the length indicators make a header of 65536 bytes or more. -/
def LongHeader (s : LteRlcUm) (bytes : UInt32) : Prop :=
  43689 < s.tx_buffer.length ∧ (∀ content ∈ (contents s.tx_buffer).take 43689, content.length ≤ 2047) ∧
    (((contents s.tx_buffer).take 43689).map List.length).sum + 65536 < bytes.toNat

/-- The entity with the attributes that a user may set. -/
def create (max_tx_buffer_size : UInt32) (enable_pdcp_discarding : Bool) (discard_timer_ms : UInt32)
    (packet_delay_budget_ms : UInt16) : LteRlcUm := {
  max_tx_buffer_size := max_tx_buffer_size
  enable_pdcp_discarding := enable_pdcp_discarding
  discard_timer_ms := discard_timer_ms
  packet_delay_budget_ms := packet_delay_budget_ms }

/-- An event, and what the entity does about it. -/
structure Call where
  now : Time
  event : Event
  output : List Output

def Output.is_drop : Output → Bool
  | .tx_drop _ => true
  | _ => false

def Output.pdu : Output → Option UmdPdu
  | .transmit_pdu pdu => some pdu
  | _ => none

/-- The SDU of a call that does not report it as dropped. -/
def Call.stored (call : Call) : Option (List UInt8) :=
  match call.event with
  | .transmit_pdcp_pdu p => if call.output.any Output.is_drop then none else some p.bytes
  | _ => none

/-- Whether a call gives the entity room for data. -/
def Call.opportunity (call : Call) : Bool :=
  match call.event with
  | .notify_tx_opportunity bytes => 2 < bytes
  | _ => false

/-- The SDUs that are not reported as dropped. -/
def stored (calls : List Call) : List (List UInt8) := calls.filterMap Call.stored

def pdus (calls : List Call) : List UmdPdu := calls.flatMap fun call => call.output.filterMap Output.pdu

def joined (calls : List Call) : Reassembly UInt8 := join ((pdus calls).flatMap UmdPdu.pieces)

/-- The calls of a run, from one state to another; each event is allowed where it happens. -/
inductive Run (allowed : LteRlcUm → Time → Event → Prop) (s : LteRlcUm) : List Call → LteRlcUm → Prop
  | nil : Run allowed s [] s
  | step {calls : List Call} {s' s'' : LteRlcUm} {now : Time} {event : Event} {output : List Output} :
    Run allowed s calls s' → allowed s' now event → s'.step now event = some (s'', output) →
    Run allowed s (calls ++ [⟨now, event, output⟩]) s''

/-- An SDU that is stored is not empty, the counter does not overflow, and the head of the line has not waited for too
long. The header of a PDU is shorter than 65536 bytes. -/
def Regular (s : LteRlcUm) (now : Time) : Event → Prop
  | .transmit_pdcp_pdu p => s.has_room p →
    p.bytes ≠ [] ∧ s.tx_buffer_size.toNat + p.bytes.length < 2 ^ 32 ∧ ¬ s.discards now
  | .notify_tx_opportunity bytes => ¬ s.LongHeader bytes
  | _ => True

/-- After some calls: the SDUs that are not reported as dropped are, in order, those that the pieces in the PDUs give
and those in the transmission buffer. -/
structure Delivers (calls : List Call) (s : LteRlcUm) : Prop where
  counter : s.tx_buffer_size.toNat = amount s.tx_buffer
  reported : ∀ call ∈ calls, ∀ p, .tx_drop p ∈ call.output → call.event = .transmit_pdcp_pdu p
  framed : ∀ call ∈ calls, ∀ pdu, .transmit_pdu pdu ∈ call.output →
    ∃ bytes, call.event = .notify_tx_opportunity bytes ∧ pdu.Framed bytes
  numbered : (pdus calls).map (fun pdu => pdu.header.sequence_number.value) =
    (List.range (pdus calls).length).map (Fin.ofNat 1024)
  ordered : (joined calls).messages ++ Sender.messages ⟨(joined calls).rest, contents s.tx_buffer⟩ = stored calls
  idle : s.tx_buffer = [] → (joined calls).rest = []

/-- What carries over from one call to the next. -/
structure Sent (calls : List Call) (s : LteRlcUm) : Prop extends Delivers calls s where
  kept : s.Kept (joined calls).rest
  next_number : s.sequence_number.value = .ofNat 1024 (pdus calls).length

/-- A call moves on from one reception to another: messages stay, and an opportunity with something to send adds. -/
structure Advances (calls : List Call) (s : LteRlcUm) (call : Call) : Prop where
  messages : (joined calls).messages <+: (joined (calls ++ [call])).messages
  size : (joined calls).size ≤ (joined (calls ++ [call])).size
  opportunity : call.opportunity → s.tx_buffer ≠ [] → (joined calls).size < (joined (calls ++ [call])).size

variable {s s' : LteRlcUm} {sent : List UInt8} {bytes : UInt32} {now : Time} {p : PdcpPdu}

theorem starts_framing_info (first last : LteRlcSduStatus) :
    decide (framing_info first last &&& 0x03 &&& 0x02 = 0) = starts first := by
  cases first <;> cases last <;> rfl

theorem ends_framing_info (first last : LteRlcSduStatus) :
    decide (framing_info first last &&& 0x03 &&& 0x01 = 0) = ends last := by
  cases first <;> cases last <;> rfl

section Opportunity

variable {first : TxPdu} {rest : List TxPdu} {field : DataField}

theorem Built.length_lt (h : Built sent s.tx_buffer 0 (bytes.toNat - 2) {} field) (hbytes : 2 < bytes.toNat)
    (hlong : ¬ s.LongHeader bytes) : field.data_field.length - 1 < 43689 := by
  by_contra hlength
  rw [not_lt] at hlength
  have htake : (contents s.tx_buffer).take 43689 =
      (field.data_field.dropLast.map Segment.bytes).take 43689 := by
    rw [h.whole, List.take_take, min_eq_left hlength]
  have hbehind := h.behind
  have hroom := h.room (by omega)
  have hmono := li_size_mono (show 43688 ≤ 0 + (field.data_field.length - 1) - 1 by omega)
  have hheader : li_size 43688 = 65532 := rfl
  have hzero : li_size 0 = 0 := rfl
  have hsum : (((contents s.tx_buffer).take 43689).map List.length).sum ≤
      (field.data_field.dropLast.map fun segment => segment.bytes.length).sum := by
    rw [htake, ← List.map_take, List.map_map]
    exact ((List.take_sublist _ _).map _).sum_le_sum fun _ _ => Nat.zero_le _
  refine hlong ⟨by omega, fun content hcontent => ?_, by omega⟩
  rw [htake] at hcontent
  obtain ⟨segment, hsegment, rfl⟩ := List.mem_map.mp (List.mem_of_mem_take hcontent)
  exact h.small segment hsegment

theorem Built.add_header (h : Built sent s.tx_buffer 0 (bytes.toNat - 2) {} field) (hbytes : 2 < bytes.toNat)
    (hlong : ¬ s.LongHeader bytes) (sequence_number : SequenceNumber10) (first last : LteRlcSduStatus)
    (data_field : List UInt8) :
    let header := (field.header.set_sequence_number sequence_number).set_framing_info (framing_info first last)
    LteRlcUm.add_header header data_field = some { header := header, data_field := data_field } ∧
      header.get_serialized_size.toNat = 2 + li_size (field.data_field.length - 1) := by
  intro header
  have hcount := h.length_lt hbytes hlong
  have hbits : header.extension_bits =
      List.replicate (field.data_field.length - 1) .e_li_fields_follow ++ [.data_field_follows] := h.extension_bits
  have hlis : header.length_indicators.length = field.data_field.length - 1 := by
    have heq : header.length_indicators = _ := h.length_indicators
    simp [heq]
  have hmono := li_size_mono (show field.data_field.length - 1 ≤ 43688 by omega)
  have hheader : li_size 43688 = 65532 := rfl
  have hsize : header.get_serialized_size.toNat = 2 + li_size (field.data_field.length - 1) := by
    have hsized : header.header_length = .ofNat (2 + li_size (header.extension_bits.length - 1)) :=
      h.sized (by simp [h.extension_bits])
    rw [LteRlcHeader.get_serialized_size, UInt16.toNat_toUInt32, hsized, UInt16.toNat_ofNat', hbits]
    simp only [List.length_append, List.length_replicate, List.length_singleton, Nat.add_sub_cancel]
    omega
  refine ⟨?_, hsize⟩
  obtain ⟨e, es, hcons⟩ := List.exists_cons_of_ne_nil (l := header.extension_bits) (by simp [hbits])
  have hes : es.length = field.data_field.length - 1 := by
    have heq := congrArg List.length (hcons.symm.trans hbits)
    simpa using heq
  obtain ⟨serialized, hserialize, hlength⟩ := LteRlcHeader.length_serialize hcons (hlis.trans hes.symm)
  rw [LteRlcUm.add_header, hserialize, Option.bind_eq_bind, Option.bind_some, if_pos (by rw [hlength, hes, hsize])]
  rfl

theorem Built.framed (h : Built sent s.tx_buffer 0 (bytes.toNat - 2) {} field) (hbytes : 2 < bytes.toNat)
    (pdu : UmdPdu) (hdata : pdu.data_field = field.data_field.flatMap Segment.bytes)
    (hbits : pdu.header.extension_bits = field.header.extension_bits)
    (hlis : pdu.header.length_indicators = field.header.length_indicators)
    (hframing : pdu.header.framing_info = framing_info (field.data_field.head h.nonempty).status
      (field.data_field.getLast h.nonempty).status &&& 0x03)
    (hsize : pdu.header.get_serialized_size.toNat = 2 + li_size (field.data_field.length - 1)) :
    pdu.pieces = mark sent.isEmpty (ends (field.data_field.getLast h.nonempty).status)
      (field.data_field.map Segment.bytes) ∧ pdu.Framed bytes := by
  have hsizes : pdu.header.length_indicators.map UInt16.toNat =
      (field.data_field.map Segment.bytes).dropLast.map List.length := by
    rw [hlis, h.length_indicators, List.nil_append, List.map_map, ← List.map_dropLast, List.map_map]
    refine List.map_congr_left fun segment hsegment => ?_
    have hsmall := h.small segment hsegment
    rw [Function.comp_apply, UInt16.toNat_ofNat', Nat.mod_eq_of_lt (by omega)]
    rfl
  have hcontents : field.data_field.map Segment.bytes ≠ [] := by simpa using h.nonempty
  have hpieces : pdu.pieces = mark sent.isEmpty (ends (field.data_field.getLast h.nonempty).status)
      (field.data_field.map Segment.bytes) := by
    rw [UmdPdu.pieces, hframing, starts_framing_info, ends_framing_info, h.starts_first, hsizes, hdata,
      List.flatMap_def, cut_flatten hcontents]
  have hmap : pdu.pieces.map Piece.content = field.data_field.map Segment.bytes := by rw [hpieces, map_content_mark]
  obtain ⟨sent', _, hsends⟩ := h.sends
  refine ⟨hpieces, ?_, ?_, ?_, ?_, ?_, hpieces ▸ hsends.content_ne_nil⟩
  · have hfits := h.fits
    have hzero : li_size 0 = 0 := rfl
    rw [UmdPdu.size, hsize, hdata, List.length_flatMap]
    rw [zero_add] at hfits
    omega
  · rw [hbits, h.extension_bits, hlis, h.length_indicators]
    simp
  · intro li hli
    rw [hlis, h.length_indicators, List.nil_append] at hli
    obtain ⟨segment, hsegment, rfl⟩ := List.mem_map.mp hli
    have hsmall := h.small segment hsegment
    rw [UInt16.le_iff_toNat_le, UInt16.toNat_ofNat', Nat.mod_eq_of_lt (by omega)]
    exact hsmall
  · rw [hmap, hdata, List.flatMap_def]
  · rw [hsizes, ← hmap, List.map_dropLast, List.map_map]
    rfl

theorem Kept.notify_tx_opportunity (h : s.Kept sent) (hbytes : 2 < bytes) (hbuffer : s.tx_buffer ≠ [])
    (hlong : ¬ s.LongHeader bytes) :
    ∃ s' size pdu sent', s.do_notify_tx_opportunity bytes = some (s', [.tx_pdu size, .transmit_pdu pdu]) ∧
      s'.Kept sent' ∧ Sends ⟨sent, contents s.tx_buffer⟩ pdu.pieces ⟨sent', contents s'.tx_buffer⟩ ∧ pdu.pieces ≠ [] ∧
      pdu.Framed bytes ∧ pdu.header.sequence_number = s.sequence_number ∧
      s'.sequence_number = s.sequence_number.next := by
  obtain ⟨first, rest, hcons⟩ := List.exists_cons_of_ne_nil hbuffer
  have hword : 2 < bytes.toNat := hbytes
  have hqueued := h.queued
  rw [hcons] at hqueued
  have hsize : s.tx_buffer_size - first.get_size = .ofNat (amount rest) := by
    rw [h.counter, hcons, amount_cons, UInt32.ofNat_add]
    exact add_sub_cancel_left ..
  have hbuilt : Built sent s.tx_buffer 0 (bytes.toNat - 2) {} (build first (bytes.toNat - 2) 1 {} rest
      (s.tx_buffer_size - first.get_size)) := by
    rw [hcons]
    exact hqueued.build (fun hbits => absurd rfl hbits) hsize (by omega)
  rw [do_notify_tx_opportunity, if_neg (UInt32.not_le.mpr hbytes), hcons]
  simp only
  generalize build first (bytes.toNat - 2) 1 {} rest (s.tx_buffer_size - first.get_size) = field at hbuilt ⊢
  obtain ⟨hadd, hheader⟩ := hbuilt.add_header hword hlong s.sequence_number (field.data_field.head hbuilt.nonempty).status
    (field.data_field.getLast hbuilt.nonempty).status (field.data_field.flatMap Segment.bytes)
  obtain ⟨sent', hleft, hsends⟩ := hbuilt.sends
  obtain ⟨hpieces, hframed⟩ := hbuilt.framed hword
    ⟨(field.header.set_sequence_number s.sequence_number).set_framing_info _, field.data_field.flatMap Segment.bytes⟩
    rfl rfl rfl rfl hheader
  have hamount := hsends.length_queue
  have hbounded := h.bounded
  rw [List.head?_eq_some_head hbuilt.nonempty, List.getLast?_eq_some_getLast hbuilt.nonempty]
  simp only [Option.bind_eq_bind, Option.bind_some, hadd]
  refine ⟨_, _, _, sent', rfl, ⟨hleft, hbuilt.counter, ?_⟩, ?_, ?_, hframed, rfl, rfl⟩
  · rw [amount] at hbounded ⊢
    dsimp only at hamount ⊢
    omega
  · rw [hpieces, ← hcons]
    exact hsends
  · rw [hpieces, ne_eq, ← List.map_eq_nil_iff (f := Piece.content), map_content_mark]
    simpa using hbuilt.nonempty

end Opportunity

section Runs

variable {c s'' : LteRlcUm} {calls later : List Call} {call : Call} {event : Event} {output : List Output}
  {allowed : LteRlcUm → Time → Event → Prop}

theorem Kept.transmit_pdcp_pdu (h : s.Kept sent) (hp : p.bytes ≠ [])
    (hbounded : s.tx_buffer_size.toNat + p.bytes.length < 2 ^ 32) :
    Kept { s with
      tx_buffer := s.tx_buffer ++ [{ pdu := { bytes := p.bytes }, waiting_since := now }]
      tx_buffer_size := s.tx_buffer_size + p.get_size
      rbs_timer := false } sent := by
  have hcounter : s.tx_buffer_size.toNat = amount s.tx_buffer := by
    rw [h.counter, UInt32.toNat_ofNat', Nat.mod_eq_of_lt h.bounded]
  have hamount : amount (s.tx_buffer ++ [{ pdu := { bytes := p.bytes }, waiting_since := now }]) =
      amount s.tx_buffer + p.bytes.length := by
    simp [amount, contents]
  obtain ⟨hnonempty, hhead, htail, hidle⟩ := h.queued
  refine ⟨⟨?_, ?_, ?_, by simp⟩, ?_, ?_⟩
  · intro q hq
    obtain hq | hq := List.mem_append.mp hq
    · exact hnonempty q hq
    · rw [List.mem_singleton.mp hq]
      exact hp
  · cases hbuffer : s.tx_buffer with
    | nil => simp [hidle hbuffer]
    | cons first rest =>
      rw [hbuffer] at hhead
      exact hhead
  · cases hbuffer : s.tx_buffer with
    | nil => simp
    | cons first rest =>
      rw [hbuffer] at htail
      intro q hq
      obtain hq | hq := List.mem_append.mp hq
      · exact htail q hq
      · rw [List.mem_singleton.mp hq]
  · dsimp only
    rw [hamount, UInt32.ofNat_add, h.counter]
    rfl
  · dsimp only
    rw [hamount]
    omega

theorem stored_append : stored (calls ++ later) = stored calls ++ stored later := List.filterMap_append

theorem pdus_append : pdus (calls ++ later) = pdus calls ++ pdus later := List.flatMap_append

theorem Kept.toNat_counter (h : s.Kept sent) : s.tx_buffer_size.toNat = amount s.tx_buffer := by
  rw [h.counter, UInt32.toNat_ofNat', Nat.mod_eq_of_lt h.bounded]

theorem Sent.of_create (max_tx_buffer_size : UInt32) (enable_pdcp_discarding : Bool) (discard_timer_ms : UInt32)
    (packet_delay_budget_ms : UInt16) :
    Sent [] (create max_tx_buffer_size enable_pdcp_discarding discard_timer_ms packet_delay_budget_ms) where
  counter := rfl
  reported := by simp
  framed := by simp
  numbered := rfl
  ordered := rfl
  idle _ := rfl
  kept := ⟨⟨by simp [create], by simp [create], by simp [create], fun _ => rfl⟩, rfl, by simp [create, amount, contents]⟩
  next_number := rfl

theorem Advances.of_silent (hjoined : joined (calls ++ [call]) = joined calls)
    (hidle : call.opportunity → s.tx_buffer = []) : Advances calls s call := by
  refine ⟨?_, ?_, fun hcall hbuffer => absurd (hidle hcall) hbuffer⟩
  · rw [hjoined]
  · rw [hjoined]

theorem Sent.silent (h : Sent calls s) (s' : LteRlcUm) (call : Call) (hkept : s'.Kept (joined calls).rest)
    (hpdus : call.output.filterMap Output.pdu = [])
    (hreported : ∀ p, .tx_drop p ∈ call.output → call.event = .transmit_pdcp_pdu p)
    (hcontents : contents s'.tx_buffer = contents s.tx_buffer ++ call.stored.toList)
    (hnumber : s'.sequence_number = s.sequence_number) (hidle : call.opportunity → s.tx_buffer = []) :
    Sent (calls ++ [call]) s' ∧ Advances calls s call := by
  have hsame : pdus (calls ++ [call]) = pdus calls := by
    rw [pdus_append]
    simp [pdus, hpdus]
  have hjoined : joined (calls ++ [call]) = joined calls := by rw [joined, joined, hsame]
  refine ⟨⟨⟨hkept.toNat_counter, ?_, ?_, ?_, ?_, ?_⟩, ?_, ?_⟩, .of_silent hjoined hidle⟩
  · intro call' hcall
    obtain hcall | hcall := List.mem_append.mp hcall
    · exact h.reported call' hcall
    · rw [List.mem_singleton.mp hcall]
      exact hreported
  · intro call' hcall pdu hpdu
    obtain hcall | hcall := List.mem_append.mp hcall
    · exact h.framed call' hcall pdu hpdu
    · rw [List.mem_singleton.mp hcall] at hpdu
      have hmem := List.mem_filterMap.mpr ⟨_, hpdu, (rfl : Output.pdu (.transmit_pdu pdu) = some pdu)⟩
      rw [hpdus] at hmem
      cases hmem
  · rw [hsame]
    exact h.numbered
  · have hidle : contents s.tx_buffer = [] → (joined calls).rest = [] := fun hnil =>
      h.idle (List.map_eq_nil_iff.mp hnil)
    rw [hjoined, hcontents, Sender.messages_append _ hidle, ← List.append_assoc, h.ordered, stored_append]
    cases hstored : call.stored with
    | none => simp [stored, hstored]
    | some bytes => simp [stored, hstored]
  · rw [hjoined]
    exact hkept.queued.idle
  · rw [hjoined]
    exact hkept
  · rw [hsame, hnumber]
    exact h.next_number

theorem Sent.send (h : Sent calls s) (now : Time) {pdu : UmdPdu} {size : UInt32} (hkept : s'.Kept sent)
    (hsends : Sends ⟨(joined calls).rest, contents s.tx_buffer⟩ pdu.pieces ⟨sent, contents s'.tx_buffer⟩)
    (hframed : pdu.Framed bytes) (hnumber : pdu.header.sequence_number = s.sequence_number)
    (hnext : s'.sequence_number = s.sequence_number.next)
    (hcall : call = ⟨now, .notify_tx_opportunity bytes, [.tx_pdu size, .transmit_pdu pdu]⟩) :
    Sent (calls ++ [call]) s' ∧ (joined calls).messages <+: (joined (calls ++ [call])).messages ∧
      (joined (calls ++ [call])).size = (joined calls).size + (pdu.pieces.map fun p => p.content.length).sum := by
  have hpdus : pdus (calls ++ [call]) = pdus calls ++ [pdu] := by
    rw [hcall]
    exact pdus_append
  obtain ⟨complete, hfold, hmessages⟩ := hsends.foldl_add (joined calls).messages
  have hpieces : joined (calls ++ [call]) = pdu.pieces.foldl Reassembly.add (joined calls) := by
    rw [joined, hpdus, List.flatMap_append, join_append, List.flatMap_singleton]
    rfl
  have hjoined : joined (calls ++ [call]) = ⟨(joined calls).messages ++ complete, sent⟩ := hpieces.trans hfold
  refine ⟨⟨⟨hkept.toNat_counter, ?_, ?_, ?_, ?_, ?_⟩, ?_, ?_⟩, ?_, ?_⟩
  · intro call' hcall'
    obtain hcall' | hcall' := List.mem_append.mp hcall'
    · exact h.reported call' hcall'
    · rw [List.mem_singleton.mp hcall', hcall]
      simp
  · intro call' hcall' pdu' hpdu
    obtain hcall' | hcall' := List.mem_append.mp hcall'
    · exact h.framed call' hcall' pdu' hpdu
    · rw [List.mem_singleton.mp hcall', hcall] at hpdu ⊢
      obtain rfl : pdu' = pdu := by simpa using hpdu
      exact ⟨bytes, rfl, hframed⟩
  · rw [hpdus, List.map_append, h.numbered, List.length_append, List.length_singleton, List.range_succ, List.map_append,
      List.map_singleton, List.map_singleton, hnumber, h.next_number]
  · rw [hjoined, List.append_assoc, hmessages, h.ordered, stored_append, hcall]
    simp [stored, Call.stored]
  · rw [hjoined]
    exact hkept.queued.idle
  · rw [hjoined]
    exact hkept
  · rw [hnext, hpdus, List.length_append, List.length_singleton, SequenceNumber10.next, h.next_number]
    apply Fin.ext
    rw [Fin.val_add, Fin.val_ofNat, Fin.val_ofNat]
    exact Nat.mod_add_mod _ _ _
  · rw [hjoined]
    exact List.prefix_append _ _
  · rw [hpieces]
    exact hsends.size_foldl_add _

theorem do_transmit_pdcp_pdu_of_room (hroom : s.has_room p) (hdiscards : ¬ s.discards now) :
    ∃ s' r, s.do_transmit_pdcp_pdu now p = (s', [.report_buffer_status r]) ∧ s' = { s with
      tx_buffer := s.tx_buffer ++ [{ pdu := { bytes := p.bytes }, waiting_since := now }]
      tx_buffer_size := s.tx_buffer_size + p.get_size
      rbs_timer := false } := by
  rw [do_transmit_pdcp_pdu, if_pos hroom, if_neg hdiscards, if_pos hroom]
  exact ⟨_, _, rfl, rfl⟩

theorem do_transmit_pdcp_pdu_of_full (now : Time) (hroom : ¬ s.has_room p) :
    ∃ r, s.do_transmit_pdcp_pdu now p = ({ s with rbs_timer := false }, [.tx_drop p, .report_buffer_status r]) := by
  rw [do_transmit_pdcp_pdu, if_neg hroom, if_neg hroom]
  exact ⟨_, rfl⟩

theorem Sent.step (h : Sent calls s) (hregular : Regular s now event) : ∃ s' output, s.step now event = some (s', output) ∧
    Sent (calls ++ [⟨now, event, output⟩]) s' ∧ Advances calls s ⟨now, event, output⟩ := by
  have hkept := h.kept
  cases event with
  | transmit_pdcp_pdu p =>
    by_cases hroom : s.has_room p
    · obtain ⟨hp, hbounded, hdiscards⟩ := hregular hroom
      obtain ⟨s', r, hstep, hstored⟩ := do_transmit_pdcp_pdu_of_room hroom hdiscards
      refine ⟨s', _, congrArg some hstep, ?_⟩
      subst hstored
      exact h.silent _ _ (hkept.transmit_pdcp_pdu hp hbounded) rfl (by simp)
        (by simp [contents, Call.stored, Output.is_drop]) rfl (by simp [Call.opportunity])
    · obtain ⟨r, hstep⟩ := do_transmit_pdcp_pdu_of_full now hroom
      exact ⟨_, _, congrArg some hstep, h.silent _ _ ⟨hkept.queued, hkept.counter, hkept.bounded⟩ rfl (by simp)
        (by simp [Call.stored, Output.is_drop]) rfl (by simp [Call.opportunity])⟩
  | notify_tx_opportunity bytes =>
    have hsilent (hidle : 2 < bytes → s.tx_buffer = []) := h.silent s ⟨now, .notify_tx_opportunity bytes, []⟩ hkept rfl
      (by simp) (by simp [Call.stored]) rfl fun hcall => hidle (of_decide_eq_true hcall)
    by_cases hbytes : 2 < bytes
    · by_cases hbuffer : s.tx_buffer = []
      · refine ⟨s, [], ?_, hsilent fun _ => hbuffer⟩
        rw [LteRlcUm.step, do_notify_tx_opportunity, if_neg (UInt32.not_le.mpr hbytes), hbuffer]
      · obtain ⟨s', size, pdu, sent', hstep, hkept', hsends, hpieces, hframed, hnumber, hnext⟩ :=
          hkept.notify_tx_opportunity hbytes hbuffer hregular
        obtain ⟨hsent, hmessages, hsize⟩ := h.send now hkept' hsends hframed hnumber hnext rfl
        have hpos : 0 < (pdu.pieces.map fun p => p.content.length).sum := by
          obtain ⟨p, pieces, hcons⟩ := List.exists_cons_of_ne_nil hpieces
          have hcontent := List.length_pos_iff.mpr (hframed.nonempty p (by simp [hcons]))
          rw [hcons, List.map_cons, List.sum_cons]
          omega
        exact ⟨s', _, hstep, hsent, hmessages, by omega, fun _ _ => by omega⟩
    · exact ⟨s, [], if_pos (UInt32.not_lt.mp hbytes), hsilent fun h => absurd h hbytes⟩
  | notify_harq_delivery_failure =>
    exact ⟨s, [], rfl, h.silent _ _ hkept rfl (by simp) (by simp [Call.stored]) rfl (by simp [Call.opportunity])⟩
  | expire_rbs_timer =>
    by_cases hbuffer : s.tx_buffer = []
    · exact ⟨{ s with rbs_timer := false }, [], congrArg some (if_pos hbuffer),
        h.silent _ _ ⟨hkept.queued, hkept.counter, hkept.bounded⟩ rfl (by simp) (by simp [Call.stored]) rfl
          (by simp [Call.opportunity])⟩
    · exact ⟨{ s with rbs_timer := true }, [s.do_report_buffer_status now], congrArg some (if_neg hbuffer),
        h.silent _ _ ⟨hkept.queued, hkept.counter, hkept.bounded⟩ rfl (by simp [do_report_buffer_status])
          (by simp [Call.stored]) rfl (by simp [Call.opportunity])⟩

theorem Sent.run (h : Sent calls s) (hrun : Run Regular s later s') : Sent (calls ++ later) s' := by
  induction hrun with
  | nil => simpa using h
  | step _ hregular hstep ih =>
    obtain ⟨s', output, heq, hsent, _⟩ := ih.step hregular
    rw [heq] at hstep
    obtain ⟨rfl, rfl⟩ := Prod.mk.inj (Option.some.inj hstep)
    rwa [← List.append_assoc]

theorem Sent.progress (h : Sent calls s) (hrun : Run Regular s later s') :
    stored calls <+: (joined (calls ++ later)).messages ∨
      (joined calls).size + later.countP Call.opportunity ≤ (joined (calls ++ later)).size := by
  induction hrun with
  | nil => simp
  | @step later s' s'' now event output hrun hregular hstep ih =>
    obtain ⟨t, output', heq, hsent, hadvances⟩ := (h.run hrun).step hregular
    rw [heq] at hstep
    obtain ⟨rfl, rfl⟩ := Prod.mk.inj (Option.some.inj hstep)
    rw [← List.append_assoc]
    obtain hdone | hcount := ih
    · exact .inl (hdone.trans hadvances.messages)
    · rw [List.countP_append, List.countP_singleton]
      split
      next hcall =>
        obtain hbuffer | hbuffer := eq_or_ne s'.tx_buffer []
        · -- there is nothing left to send
          have hordered := (h.run hrun).ordered
          have hmessages : (joined (calls ++ later)).messages = stored calls ++ stored later := by
            rw [← stored_append, ← hordered, hbuffer]
            exact (List.append_nil _).symm
          exact .inl ((hmessages ▸ List.prefix_append _ _).trans hadvances.messages)
        · have hmore := hadvances.opportunity hcall hbuffer
          exact .inr (by omega)
      next =>
        have hsize := hadvances.size
        exact .inr (by omega)

theorem Sent.size_add_amount (h : Sent calls s) :
    (joined calls).size + amount s.tx_buffer = ((stored calls).map List.length).sum := by
  have hidle : contents s.tx_buffer = [] → (joined calls).rest = [] := fun hnil => h.idle (List.map_eq_nil_iff.mp hnil)
  rw [← h.ordered, List.map_append, List.sum_append, Sender.length_messages hidle, Reassembly.size, amount, add_assoc]

theorem Sent.prefix_of_size (h : Sent (calls ++ later) s)
    (hsize : ((stored calls).map List.length).sum ≤ (joined (calls ++ later)).size) :
    stored calls <+: (joined (calls ++ later)).messages := by
  have hordered := h.ordered
  rw [stored_append] at hordered
  have hprefix : stored calls <+: (joined (calls ++ later)).messages ++
      Sender.messages ⟨(joined (calls ++ later)).rest, contents s.tx_buffer⟩ := by
    rw [hordered]
    exact List.prefix_append _ _
  obtain hdone | ⟨left, hleft⟩ := List.prefix_or_prefix_of_prefix hprefix (List.prefix_append _ _)
  · exact hdone
  · -- what is left would be the message that is sent in part, and the ones behind it
    rw [← hleft, List.append_assoc, List.append_cancel_left_eq] at hordered
    rw [← hleft]
    cases left with
    | nil => rw [List.append_nil]
    | cons message left =>
      exfalso
      cases hbuffer : s.tx_buffer with
      | nil =>
        rw [hbuffer] at hordered
        cases hordered
      | cons first rest =>
        rw [hbuffer, contents, List.map_cons, Sender.messages, List.cons_append] at hordered
        obtain ⟨rfl, -⟩ := List.cons.inj hordered
        have hpos := List.length_pos_iff.mpr (h.kept.queued.nonempty first (by simp [hbuffer]))
        rw [← hleft, Reassembly.size, List.map_append, List.map_cons, List.sum_append, List.sum_cons,
          List.length_append] at hsize
        omega

end Runs

/-- In a run of regular events, what the entity sends is what it was given and did not report as dropped, in order;
nothing stops it, and enough opportunities send everything that is stored. -/
theorem transmits_in_order {max_tx_buffer_size discard_timer_ms : UInt32} {enable_pdcp_discarding : Bool}
    {packet_delay_budget_ms : UInt16} {calls : List Call}
    (h : Run Regular (create max_tx_buffer_size enable_pdcp_discarding discard_timer_ms packet_delay_budget_ms) calls s) :
    Delivers calls s ∧ (∀ now event, Regular s now event → (s.step now event).isSome) ∧
      ∀ later s', Run Regular s later s' → amount s.tx_buffer ≤ later.countP Call.opportunity →
        stored calls <+: (joined (calls ++ later)).messages := by
  have hsent : Sent calls s := (Sent.of_create ..).run h
  refine ⟨hsent.toDelivers, fun now event hregular => ?_, fun later s' hrun hmany => ?_⟩
  · obtain ⟨s', output, hstep, _⟩ := hsent.step hregular
    rw [hstep]
    rfl
  · obtain hdone | hcount := hsent.progress hrun
    · exact hdone
    · apply (hsent.run hrun).prefix_of_size
      have hsize := hsent.size_add_amount
      omega

/-- The entity when two bytes of an SDU of three bytes have been sent. -/
def sampleLeft : LteRlcUm := { create 10240 true 0 100 with
  tx_buffer := [{ pdu := { bytes := [3], status := .last_segment }, waiting_since := 0 }]
  tx_buffer_size := 1
  sequence_number := { value := 1 }
  rbs_timer := true }

/-- An SDU of three bytes, which is sent in two PDUs. -/
theorem transmits_in_order_two_pieces : ∃ calls s later s', Run Regular (create 10240 true 0 100) calls s ∧
    Run Regular s later s' ∧ Delivers calls s ∧ (joined calls).messages = [] ∧
      [[1, 2, 3]] <+: (joined (calls ++ later)).messages := by
  have hrun : Run Regular (create 10240 true 0 100) ([] ++ [⟨0, .transmit_pdcp_pdu ⟨[1, 2, 3], by decide⟩, _⟩] ++
      [⟨0, .notify_tx_opportunity 4, _⟩]) sampleLeft :=
    .step (.step .nil (fun _ => ⟨by decide, by decide, by decide⟩) rfl) (fun h => absurd h.1 (by decide)) rfl
  have hlater : Run Regular sampleLeft ([] ++ [⟨0, .notify_tx_opportunity 10, _⟩]) _ :=
    .step .nil (fun h => absurd h.1 (by decide)) rfl
  obtain ⟨hdelivers, _, hsends⟩ := transmits_in_order hrun
  exact ⟨_, _, _, _, hrun, hlater, hdelivers, by decide, hsends _ _ hlater (by decide)⟩

/-- An SDU that is reported as dropped is sent all the same. -/
theorem dropped_but_sent : ∃ calls s, Run (fun _ _ _ => True) (create 10240 true 100 0xffff) calls s ∧
    (joined calls).messages = [[1], [2]] ∧ stored calls = [[1]] ∧ ¬ Delivers calls s := by
  refine ⟨[] ++ [⟨0, .transmit_pdcp_pdu ⟨[1], by decide⟩, _⟩] ++ [⟨200000000, .transmit_pdcp_pdu ⟨[2], by decide⟩, _⟩] ++
    [⟨200000000, .notify_tx_opportunity 100, _⟩], _, .step (.step (.step .nil trivial rfl) trivial rfl) trivial rfl,
    ?_, ?_, fun h => ?_⟩
  · decide
  · decide
  · have hordered := h.ordered
    revert hordered
    decide

end Ns3.LteRlcUm
