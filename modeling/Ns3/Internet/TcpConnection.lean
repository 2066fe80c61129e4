import Ns3.Internet.TcpRxBuffer.Reassembly
import Ns3.Internet.TcpTxBuffer.Stream

/-! The data of one direction of a connection: the buffers of two sockets and a network between them that loses, duplicates
and reorders. -/

namespace Ns3

/-- A segment. `position` is history: what its number stands for in the stream. -/
structure TcpSegment where
  seq : SequenceNumber32
  packet : PacketBytes
  position : ℕ
deriving DecidableEq, Repr

/-- The network keeps all segments and acknowledgments, the newest first: one that is never received is lost. An
acknowledgment has the number of bytes received before it was sent, which is history. -/
structure TcpConnection where
  sender : TcpTxBuffer.Session
  segments : List TcpSegment := []
  receiver : TcpRxBuffer.Exchange
  acks : List (SequenceNumber32 × ℕ) := []
deriving DecidableEq, Repr

namespace TcpConnection

open TcpRxBuffer (Exchange Holds SpansWindow finished_by)
open TcpTxBuffer (Streams Session)
open Segments (Part)
open Transition

inductive Event
  /-- `Send`, an option of an acknowledgment or a timer changes the buffer of the sender. -/
  | buffer (operation : TcpTxBuffer.Operation)
  | send_data_packet (now : Time) (seq : SequenceNumber32) (maxSize : UInt32)
  | received_data (i : ℕ)
  | recv (maxSize : UInt32)
  | send_ack
  | received_ack (now : Time) (i : ℕ)

/-- One event at either end; `none` is a failing assertion, the use of a null pointer or a message that does not exist. -/
def step (c : TcpConnection) : Event → Option TcpConnection
  | .buffer operation => (c.sender.step operation).map fun sender => { c with sender }
  | .send_data_packet now seq maxSize => do
    let (outItem, buffer) ← c.sender.buffer.copy_from_sequence now maxSize seq
    let item ← outItem
    let position := c.sender.acked + (seq.value - c.sender.buffer.first_byte_seq.value).toNat
    some { c with sender := { c.sender with buffer }, segments := ⟨seq, item.packet, position⟩ :: c.segments }
  | .received_data i => do
    let segment ← c.segments[i]?
    let (_, buffer) ← c.receiver.buffer.add segment.packet segment.seq
    some { c with receiver := { c.receiver with buffer } }
  | .recv maxSize => do
    let (outPacket, buffer) ← c.receiver.buffer.extract maxSize
    some { c with receiver := ⟨buffer, c.receiver.delivered ++ outPacket.getD []⟩ }
  | .send_ack => some { c with acks := (c.receiver.buffer.next_rx_seq, c.receiver.received) :: c.acks }
  | .received_ack now i => do
    let (ackNumber, _) ← c.acks[i]?
    if ackNumber.less c.sender.buffer.first_byte_seq then some c
    else
      let buffer ← c.sender.buffer.discard_up_to now ackNumber
      some { c with sender := { c.sender with buffer } }

def Fresh (isn : SequenceNumber32) (c : TcpConnection) : Prop :=
  c = { sender := ⟨.init isn, []⟩, receiver := ⟨.init isn, []⟩ }

/-- Only acknowledgments take data off the sender, and no message is so old that its numbers mean others: a segment spans
less than half of them with what the receiver holds, and an acknowledgment with what was acknowledged. -/
def Timely (isn : SequenceNumber32) (c : TcpConnection) : Event → Prop
  | .buffer operation => Session.Within c.sender operation ∧ operation.discards = false
  | .received_data i => ∀ segment ∈ c.segments[i]?,
      SpansWindow c.sender.written isn c.receiver (.add segment.position segment.packet.length)
  | .received_ack _ i => ∀ ack ∈ c.acks[i]?, c.sender.acked < ack.2 + 2 ^ 31
  | _ => True

instance (isn : SequenceNumber32) (c : TcpConnection) (e : Event) : Decidable (Timely isn c e) :=
  match e with
  | .buffer _ => inferInstanceAs (Decidable (_ ∧ _ = _))
  | .received_data _ => inferInstanceAs (Decidable (∀ _ ∈ _, SpansWindow _ _ _ _))
  | .received_ack _ _ => inferInstanceAs (Decidable (∀ _ ∈ _, _ < _))
  | .send_data_packet .. | .recv _ | .send_ack => inferInstanceAs (Decidable True)

variable {isn : SequenceNumber32} {c c' : TcpConnection} {e : Event}

theorem add_got_fin {b : TcpRxBuffer} {p : PacketBytes} {seq : SequenceNumber32} {r : Bool × TcpRxBuffer}
    (h : b.add p seq = some r) : r.2.got_fin = b.got_fin := by
  rw [TcpRxBuffer.add] at h
  dsimp only at h
  split at h
  · cases h
    rfl
  · obtain ⟨fragment, _, h⟩ := Option.bind_eq_some_iff.mp h
    split at h
    · obtain ⟨sacks, _, h⟩ := Option.bind_eq_some_iff.mp h
      obtain ⟨_, _, h⟩ := Option.bind_eq_some_iff.mp h
      cases h
      rfl
    · cases h

theorem extract_got_fin {b : TcpRxBuffer} {maxSize : UInt32} {r : Option PacketBytes × TcpRxBuffer}
    (h : b.extract maxSize = some r) : r.2.got_fin = b.got_fin := by
  rw [TcpRxBuffer.extract] at h
  generalize (if b.avail_bytes < maxSize then b.avail_bytes else maxSize) = size at h
  dsimp only at h
  split at h
  · cases h
    rfl
  split at h
  · cases h
  obtain ⟨_, _, h⟩ := Option.bind_eq_some_iff.mp h
  cases h
  rfl

/-- What the receiver holds is still a part of the stream when more is written. -/
theorem holds_more {stream : PacketBytes} {x : Exchange} {held later : List (ℕ × PacketBytes)} {n : ℕ}
    (h : Holds stream isn x held later n) (hfin : x.buffer.got_fin = false) (more : PacketBytes) :
    Holds (stream ++ more) isn x held later n := by
  have hbound := h.bound
  have hle := h.delivered_le
  have hnone : ∀ stream, finished_by x.buffer stream n = 0 := fun stream => by
    rw [finished_by, hfin]
    exact if_neg fun h => Bool.false_ne_true h.1
  have hnext := h.next
  have hnear := h.next_near
  rw [hnone] at hnext hnear
  refine { h with
    parts := fun s hs => (h.parts s hs).append more
    delivered := ?_
    bound := ?_
    next := by rw [hnone, hnext]
    next_near := by rw [hnone]; exact hnear
    fin := fun hgot => ?_ }
  · rw [List.take_append_of_le_length (by omega)]
    exact h.delivered
  · rw [List.length_append]
    omega
  · rw [hfin] at hgot
    cases hgot

/-- What every event keeps. -/
structure Safe (isn : SequenceNumber32) (c : TcpConnection) : Prop where
  sender : Streams isn c.sender.written c.sender.acked c.sender.buffer
  segments : ∀ segment ∈ c.segments,
    segment.seq = isn.plus segment.position ∧ Part c.sender.written (segment.position, segment.packet)
  no_fin : c.receiver.buffer.got_fin = false
  receiver : ∃ held later n, Holds c.sender.written isn c.receiver held later n ∧ c.sender.acked ≤ n ∧
    ∀ ack ∈ c.acks, ack.1 = isn.plus ack.2 ∧ ack.2 ≤ n

theorem Safe.of_sender {x : Session} (h : Safe isn c) (hstreams : Streams isn x.written c.sender.acked x.buffer)
    (hmore : ∃ more, x.written = c.sender.written ++ more) : Safe isn { c with sender := x } := by
  obtain ⟨more, hmore⟩ := hmore
  obtain ⟨held, later, n, hholds, hacked, hacks⟩ := h.receiver
  have hsame := Session.acked_eq hstreams
  refine ⟨by rwa [hsame], fun segment hsegment => ?_, h.no_fin, held, later, n, ?_, by rwa [hsame], hacks⟩
  · obtain ⟨hseq, hpart⟩ := h.segments segment hsegment
    rw [hmore]
    exact ⟨hseq, hpart.append more⟩
  · rw [hmore]
    exact holds_more hholds h.no_fin more

theorem Safe.send_data_packet {now : Time} {seq : SequenceNumber32} {maxSize : UInt32} (h : Safe isn c)
    (hstep : step c (.send_data_packet now seq maxSize) = some c') : Safe isn c' := by
  obtain ⟨⟨outItem, buffer⟩, hcopy, hstep⟩ := Option.bind_eq_some_iff.mp hstep
  obtain ⟨item, rfl, hstep⟩ := Option.bind_eq_some_iff.mp hstep
  cases hstep
  obtain ⟨hkeeps, hout⟩ := h.sender.toSound.copy_keeps hcopy
  obtain ⟨hitem, hseq, _⟩ := hout item rfl
  have hstreams := h.sender.of_keeps (h.sender.toSound.copy_from_sequence hcopy) hkeeps
  have hsafe := h.of_sender (x := { c.sender with buffer }) hstreams ⟨[], (List.append_nil _).symm⟩
  obtain ⟨q, hstart, hnear, hpart⟩ := hstreams.part hitem
  rw [hseq, hkeeps.2] at hstart
  have hposition : (seq.value - c.sender.buffer.first_byte_seq.value).toNat = q := by
    rw [hstart]
    simp only [SequenceNumber32.plus, add_sub_cancel_left]
    exact UInt32.toNat_ofNat_of_lt' (by rw [UInt32.size]; omega)
  refine { hsafe with segments := fun segment hsegment => ?_ }
  rcases List.mem_cons.mp hsegment with rfl | hsegment
  · rw [hposition]
    exact ⟨by rw [hstart, h.sender.first, TcpTxBuffer.plus_plus], hpart⟩
  · exact hsafe.segments segment hsegment

theorem Safe.received_data {i : ℕ} (h : Safe isn c) (htimely : Timely isn c (.received_data i)) (hi : i < c.segments.length) :
    ∃ c', step c (.received_data i) = some c' ∧ Safe isn c' := by
  obtain ⟨segment, hget⟩ : ∃ segment, c.segments[i]? = some segment := ⟨_, List.getElem?_eq_getElem hi⟩
  obtain ⟨hseq, hpart⟩ := h.segments segment (List.mem_of_getElem? hget)
  obtain ⟨held, later, n, hholds, hacked, hacks⟩ := h.receiver
  obtain ⟨x, held', later', n', hadd, hholds', hle⟩ := hholds.add_spec (htimely segment hget)
  have hpacket : TcpRxBuffer.segment c.sender.written segment.position segment.packet.length = segment.packet := hpart.2.2.symm
  rw [TcpRxBuffer.step, hpacket, ← hseq] at hadd
  obtain ⟨r, hr, rfl⟩ := Option.map_eq_some_iff.mp hadd
  refine ⟨{ c with receiver := { c.receiver with buffer := r.2 } }, ?_, h.sender, h.segments, (add_got_fin hr).trans h.no_fin, held',
    later', n', hholds', hacked.trans hle, fun ack hack => ?_⟩
  · simp only [step, hget, Option.bind_eq_bind, Option.bind_some, hr]
  · exact ⟨(hacks ack hack).1, (hacks ack hack).2.trans hle⟩

theorem Safe.recv (h : Safe isn c) (maxSize : UInt32) : ∃ c', step c (.recv maxSize) = some c' ∧ Safe isn c' := by
  obtain ⟨held, later, n, hholds, hacked, hacks⟩ := h.receiver
  obtain ⟨x, held', hextract, hholds'⟩ := hholds.extract_spec maxSize
  obtain ⟨r, hr, rfl⟩ := Option.map_eq_some_iff.mp hextract
  refine ⟨{ c with receiver := ⟨r.2, c.receiver.delivered ++ r.1.getD []⟩ }, ?_, h.sender, h.segments,
    (extract_got_fin hr).trans h.no_fin, held', later, n, hholds', hacked, hacks⟩
  simp only [step, Option.bind_eq_bind, hr, Option.bind_some]

theorem Safe.received_ack {now : Time} {i : ℕ} (h : Safe isn c) (htimely : Timely isn c (.received_ack now i))
    (hstep : step c (.received_ack now i) = some c') : Safe isn c' := by
  obtain ⟨⟨ackNumber, position⟩, hget, hstep⟩ := Option.bind_eq_some_iff.mp hstep
  obtain ⟨held, later, n, hholds, hacked, hacks⟩ := h.receiver
  obtain ⟨hnumber, hle⟩ := hacks _ (List.mem_of_getElem? hget)
  obtain ⟨hsize, hlt⟩ := h.sender.end_eq
  have hbound := hholds.bound
  have hfresh : c.sender.acked < position + 2 ^ 31 := htimely _ hget
  dsimp only at hnumber hle hstep
  rw [hnumber, h.sender.first, SequenceNumber32.less_plus (by omega) (by omega)] at hstep
  split at hstep
  · cases hstep
    exact h
  next hahead =>
    obtain ⟨buffer, hdiscard, hstep⟩ := Option.bind_eq_some_iff.mp hstep
    cases hstep
    rw [decide_eq_true_eq, not_lt] at hahead
    have hstreams := h.sender.discard_up_to hahead (by omega) hdiscard
    have hnow := Session.acked_eq (x := { c.sender with buffer }) hstreams
    exact ⟨by rwa [hnow], h.segments, h.no_fin, held, later, n, hholds, by rwa [hnow], hacks⟩

theorem Safe.step (h : Safe isn c) (htimely : Timely isn c e) (hstep : step c e = some c') : Safe isn c' := by
  cases e with
  | buffer operation =>
    obtain ⟨x, hx, rfl⟩ := Option.map_eq_some_iff.mp hstep
    obtain ⟨hstreams, hmore⟩ := Session.step_keeps h.sender htimely.1 htimely.2 hx
    exact h.of_sender hstreams hmore
  | send_data_packet now seq maxSize => exact h.send_data_packet hstep
  | received_data i =>
    obtain ⟨segment, hget, _⟩ := Option.bind_eq_some_iff.mp hstep
    obtain ⟨c'', hstep', hsafe⟩ := h.received_data htimely (List.getElem?_eq_some_iff.mp hget).1
    rwa [Option.some.inj (hstep.symm.trans hstep')]
  | recv maxSize =>
    obtain ⟨c'', hstep', hsafe⟩ := h.recv maxSize
    rwa [Option.some.inj (hstep.symm.trans hstep')]
  | send_ack =>
    cases hstep
    obtain ⟨held, later, n, hholds, hacked, hacks⟩ := h.receiver
    refine ⟨h.sender, h.segments, h.no_fin, held, later, n, hholds, hacked, fun ack hack => ?_⟩
    rcases List.mem_cons.mp hack with rfl | hack
    · have hnone : finished_by c.receiver.buffer c.sender.written n = 0 := by
        rw [finished_by, h.no_fin]
        exact if_neg fun h => Bool.false_ne_true h.1
      exact ⟨by rw [hholds.next, hnone, hholds.received, Nat.add_zero], hholds.received.le⟩
    · exact hacks ack hack
  | received_ack now i => exact h.received_ack htimely hstep

/-- What has been read and what can be read is the first part of what was written, and the sender still holds all that the
receiver may lack. What the network holds are parts of what was written, and they can be received. -/
structure Delivers (isn : SequenceNumber32) (c : TcpConnection) : Prop where
  read : c.receiver.delivered ++ c.receiver.in_order = c.sender.written.take c.receiver.received
  held : c.sender.buffer.held = c.sender.written.drop c.sender.acked
  order : c.sender.acked ≤ c.receiver.received ∧ c.receiver.received ≤ c.sender.written.length
  segments : ∀ segment ∈ c.segments, Part c.sender.written (segment.position, segment.packet)
  complete : c.sender.buffer.size = 0 → c.receiver.delivered ++ c.receiver.in_order = c.sender.written
  receives : ∀ i < c.segments.length, Timely isn c (.received_data i) → (step c (.received_data i)).isSome
  reads : ∀ maxSize, (step c (.recv maxSize)).isSome

theorem tcp_connection_delivers (hreach : Reachable (Fresh isn) step (Timely isn) c) : Delivers isn c := by
  have hsafe : Safe isn c := by
    refine hreach.invariant (I := Safe isn) ?_ fun _ _ _ h htimely hstep => h.step htimely hstep
    rintro c rfl
    exact ⟨Streams.init isn, by simp, rfl, [], [], 0, TcpRxBuffer.fresh_holds [] isn, le_rfl, by simp⟩
  obtain ⟨held, later, n, hholds, hacked, _⟩ := hsafe.receiver
  have hread := hholds.reassembles.bytes
  have hbound := hholds.bound
  refine ⟨hread, hsafe.sender.bytes, ?_, fun segment hsegment => (hsafe.segments segment hsegment).2, fun hzero => ?_,
    fun i hi htimely => ?_, fun maxSize => ?_⟩
  · rw [hholds.received]
    exact ⟨hacked, hbound⟩
  · have hsize := hsafe.sender.end_eq.1
    rw [hzero] at hsize
    have hzeroNat : (0 : UInt32).toNat = 0 := rfl
    rw [hread, hholds.received, List.take_of_length_le (by omega)]
  · obtain ⟨c', hstep, _⟩ := hsafe.received_data htimely hi
    rw [hstep]
    rfl
  · obtain ⟨c', hstep, _⟩ := hsafe.recv maxSize
    rw [hstep]
    rfl

/-- A segment is lost, the one behind it arrives first, the retransmission and then a duplicate; the newer acknowledgment comes
before the older one, over the end of the sequence space. -/
theorem tcp_connection_delivers_sample : ∃ c, Reachable (Fresh ⟨0xfffffffe⟩) step (Timely ⟨0xfffffffe⟩) c ∧
    c.sender.buffer.size = 0 ∧ c.receiver.delivered = [10, 11, 12, 13] ∧ Delivers ⟨0xfffffffe⟩ c := by
  have hrun : (execute step (Timely ⟨0xfffffffe⟩) { sender := ⟨.init ⟨0xfffffffe⟩, []⟩, receiver := ⟨.init ⟨0xfffffffe⟩, []⟩ }
      [.buffer (.add [10, 11, 12, 13, 14]), .send_data_packet 0 ⟨0xfffffffe⟩ 2, .send_data_packet 0 ⟨0⟩ 3, .received_data 0, .send_ack,
        .buffer (.update [(⟨0⟩, ⟨3⟩)]), .buffer (.set_sent_list_lost false), .send_data_packet 1 ⟨0xfffffffe⟩ 2, .received_data 0,
        .received_data 2, .send_ack, .received_ack 2 0, .received_ack 2 1, .recv 4]).map
      (fun c => (c.sender.buffer.size, c.receiver.delivered)) = some (0, [10, 11, 12, 13]) := by decide +kernel
  obtain ⟨c, hc, hfacts⟩ := Option.map_eq_some_iff.mp hrun
  have hreach := (Reachable.init (show Fresh ⟨0xfffffffe⟩ _ from rfl)).execute hc
  simp only [Prod.mk.injEq] at hfacts
  exact ⟨c, hreach, hfacts.1, hfacts.2, tcp_connection_delivers hreach⟩

end TcpConnection

end Ns3
