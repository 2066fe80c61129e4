import Ns3.Internet.TcpTxBuffer.Sound
import Ns3.Foundation.Segments

/-! Which bytes of the stream a buffer holds, and which ones it gives out. -/

namespace Ns3.TcpTxBuffer

open Transition
open Segments (Part)

variable {s s' : TcpTxBuffer} {l l' : List TcpTxItem} {base isn seq : SequenceNumber32} {p k j : ℕ}
  {item : TcpTxItem} {rest : List TcpTxItem} {now : Time} {n numBytes : UInt32} {out : Option TcpTxItem} {written : PacketBytes}

theorem plus_plus (base : SequenceNumber32) (k q : ℕ) : (base.plus k).plus q = base.plus (k + q) := by
  simp only [SequenceNumber32.plus, UInt32.ofNat_add, add_assoc]

def held (s : TcpTxBuffer) : PacketBytes := (s.sent_list ++ s.app_list).flatMap TcpTxItem.packet

theorem held_length (s : TcpTxBuffer) : s.held.length = total s.sent_list + total s.app_list := by
  rw [held, ← total_eq_length, total_append]

/-- The same bytes are held, from the same number on. -/
def Keeps (s s' : TcpTxBuffer) : Prop := s'.held = s.held ∧ s'.first_byte_seq = s.first_byte_seq

theorem Reflag.keeps (h : Reflag s s') : Keeps s s' := by
  have hpackets := congrArg (List.flatMap fun k => k.2.1) h.sent
  rw [List.flatMap_map, List.flatMap_map] at hpackets
  have hsent : s'.sent_list.flatMap TcpTxItem.packet = s.sent_list.flatMap TcpTxItem.packet := hpackets
  refine ⟨?_, by rw [h.rest]⟩
  rw [held, held, List.flatMap_append, List.flatMap_append, hsent, h.rest]

theorem Sound.copy_keeps (h : Sound s) (hcopy : s.copy_from_sequence now numBytes seq = some (out, s')) :
    Keeps s s' ∧ ∀ item ∈ out, item ∈ s'.sent_list ∧ item.start_seq = seq ∧ item.packet.length ≤ numBytes.toNat := by
  rcases h.toShape.copy_spec hcopy with ⟨rfl, rfl⟩ | ⟨kept, m, front, item, behind, after, hresent, rfl, hseq, hlength⟩ |
    ⟨item, hsent, rfl, hseq, hlength⟩
  · exact ⟨⟨rfl, rfl⟩, by simp⟩
  · have happ : s'.app_list = s.app_list := by rw [hresent.rest]
    have hbytes := hresent.recut.bytes
    simp only [List.flatMap_append, List.flatMap_cons] at hbytes
    refine ⟨⟨?_, by rw [hresent.rest]⟩, ?_⟩
    · simp only [held, happ, hresent.list, hresent.list', List.flatMap_append, List.flatMap_cons, hbytes]
    · rintro _ ⟨⟩
      exact ⟨by simp [hresent.list'], hseq, hlength⟩
  · refine ⟨⟨?_, by rw [hsent.rest]⟩, ?_⟩
    · simp only [held, hsent.list, List.flatMap_append, List.flatMap_cons, List.flatMap_nil, List.append_nil, List.append_assoc,
        hsent.bytes]
    · rintro _ ⟨⟩
      exact ⟨by simp [hsent.list], hseq, hlength⟩

/-- A sound buffer holds the stream from a position on. -/
structure Streams (isn : SequenceNumber32) (written : PacketBytes) (k : ℕ) (s : TcpTxBuffer) : Prop extends Sound s where
  first : s.first_byte_seq = isn.plus k
  bytes : s.held = written.drop k
  bound : k ≤ written.length

theorem Streams.init (isn : SequenceNumber32) : Streams isn [] 0 (init isn) :=
  ⟨Sound.init isn, isn.plus_zero.symm, rfl, le_rfl⟩

theorem Streams.of_keeps (h : Streams isn written k s) (hs : Sound s') (hkeeps : Keeps s s') : Streams isn written k s' :=
  ⟨hs, hkeeps.2.trans h.first, hkeeps.1.trans h.bytes, h.bound⟩

theorem Streams.reflag (h : Streams isn written k s) (hflags : Reflag s s') : Streams isn written k s' :=
  h.of_keeps (hflags.sound h.toSound) hflags.keeps

theorem Streams.held_le (h : Streams isn written k s) : k + s.held.length = written.length := by
  have hbound := h.bound
  rw [h.bytes, List.length_drop]
  omega

theorem Streams.end_eq (h : Streams isn written k s) : k + s.size.toNat = written.length ∧ s.size.toNat < 2 ^ 31 := by
  have hlt := h.lt
  rw [← h.held_le, held_length, h.size, UInt32.toNat_ofNat_of_lt' (hlt.trans (by decide))]
  exact ⟨rfl, hlt⟩

theorem Streams.part (h : Streams isn written k s) (hitem : item ∈ s.sent_list) :
    ∃ q, item.start_seq = s.first_byte_seq.plus q ∧ q < 2 ^ 31 ∧ Part written (k + q, item.packet) := by
  have hplaced := h.placed
  have hlt := h.lt
  have hle := h.held_le
  have hheld := h.bytes
  obtain ⟨A, B, hlist⟩ := List.append_of_mem hitem
  rw [held_length, hlist, total_append, total_cons] at hle
  rw [hlist, total_append, total_cons] at hlt
  rw [hlist] at hplaced
  obtain ⟨_, hstart, hpos, _⟩ := placed_append.mp hplaced
  refine ⟨total A, by rw [hstart, Nat.zero_add], by omega, List.length_pos_iff.mp hpos, by simp only; omega, ?_⟩
  rw [← List.drop_drop, ← hheld, held, hlist, total_eq_length, List.append_assoc, List.flatMap_append, List.cons_append,
    List.flatMap_cons, List.drop_left, List.take_left]

theorem Streams.add (h : Streams isn written k s) {p : PacketBytes} (hp : p.length < 2 ^ 32) :
    Streams isn (if (s.add p).1 then written ++ p else written) k (s.add p).2 := by
  have hsound := h.toSound.add hp
  have hbound := h.bound
  have hadd : (s.add p).2.held = (if (s.add p).1 then s.held ++ p else s.held) ∧
      (s.add p).2.first_byte_seq = s.first_byte_seq := by
    rw [TcpTxBuffer.add]
    split
    · split
      · exact ⟨by simp [held], rfl⟩
      next hzero =>
        have hnil : p = [] := by
          rw [gt_iff_lt, UInt32.lt_iff_toNat_lt, PacketBytes.get_size_toNat hp] at hzero
          exact List.length_eq_zero_iff.mp (Nat.eq_zero_of_not_pos hzero)
        exact ⟨by simp [hnil], rfl⟩
    · exact ⟨rfl, rfl⟩
  refine ⟨hsound, hadd.2.trans h.first, ?_, ?_⟩
  · rw [hadd.1, h.bytes]
    split
    · rw [List.drop_append_of_le_length hbound]
    · rfl
  · split
    · rw [List.length_append]
      omega
    · exact hbound

theorem Streams.shorten (h : Streams isn written k s) (hs : Sound s') (hfirst : s'.first_byte_seq = s.first_byte_seq.add n)
    (hheld : s'.held = s.held.drop n.toNat) (hle : n.toNat ≤ s.held.length) : Streams isn written (k + n.toNat) s' := by
  have hlength := h.held_le
  refine ⟨hs, ?_, ?_, by omega⟩
  · rw [hfirst, h.first, SequenceNumber32.plus_add]
  · rw [hheld, h.bytes, List.drop_drop]

theorem Streams.without (h : Streams isn written k s) (hlist : s.sent_list = item :: rest)
    (hs : remove_from_counts (s.without item rest) item item.get_size = some s') :
    Streams isn written (k + item.get_size.toNat) s' := by
  have hsound : Sound s' := ⟨h.toShape.without hlist hs, by rw [remove_from_counts_app hs]; exact h.clean⟩
  have hlt := h.lt
  rw [hlist, total_cons] at hlt
  have hsize := get_size_toNat (i := item) (by omega)
  have hcounts := remove_from_counts_spec hs
  apply h.shorten hsound
  · rw [hcounts]
    rfl
  · rw [hcounts, held, held, hlist, hsize, List.cons_append, List.flatMap_cons, List.drop_left]
    rfl
  · rw [hsize, held_length, hlist, total_cons]
    omega

theorem Streams.without_part (h : Streams isn written k s) (hlist : s.sent_list = item :: rest) (hless : n < item.get_size)
    (hs : remove_from_counts (s.without_part item rest n) item n = some s') : Streams isn written (k + n.toNat) s' := by
  have hsound : Sound s' := ⟨h.toShape.without_part hlist hless hs, by rw [remove_from_counts_app hs]; exact h.clean⟩
  have hlt := h.lt
  rw [hlist, total_cons] at hlt
  rw [UInt32.lt_iff_toNat_lt, get_size_toNat (by omega)] at hless
  have hcounts := remove_from_counts_spec hs
  apply h.shorten hsound
  · rw [hcounts]
    rfl
  · rw [hcounts, held, held, hlist, List.cons_append, List.flatMap_cons, List.drop_append_of_le_length hless.le]
    rfl
  · rw [held_length, hlist, total_cons]
    omega

theorem Streams.discard_up_to (h : Streams isn written k s) (hle : k ≤ j) (hend : j ≤ written.length)
    (hdiscard : s.discard_up_to now (isn.plus j) = some s') : Streams isn written j s' := by
  obtain ⟨hsize, hlt⟩ := h.end_eq
  rw [TcpTxBuffer.discard_up_to, h.first, SequenceNumber32.greater_equal_plus (by omega) (by omega)] at hdiscard
  split at hdiscard
  next hback =>
    cases hdiscard
    obtain rfl : k = j := by
      rw [decide_eq_true_eq] at hback
      omega
    exact h
  next =>
    obtain ⟨s₁, hloop, hdiscard⟩ := Option.bind_eq_some_iff.mp hdiscard
    obtain ⟨s₂, hhead, hdiscard⟩ := Option.bind_eq_some_iff.mp hdiscard
    rw [SequenceNumber32.plus_sub hle (by omega)] at hloop
    -- what is still to be taken off ends at the number
    obtain ⟨o, ⟨d, h₁, hd⟩, hstop⟩ : ∃ o : UInt32, (∃ d, Streams isn written d s₁ ∧ d + o.toNat = j) ∧ (s₁.size = 0 ∨ o = 0) := by
      refine discard_induct (I := fun (o : UInt32) s => ∃ d, Streams isn written d s ∧ d + o.toNat = j) ?_ ?_ ?_ ?_ hloop
      · intro o s item s' htaken _ hcopy
        obtain ⟨d, h, hd⟩ := htaken
        exact ⟨d, h.of_keeps (h.toSound.copy_from_sequence hcopy) (h.toSound.copy_keeps hcopy).1, hd⟩
      · intro o s item rest s' htaken _ hlist hwhole hs
        obtain ⟨d, h, hd⟩ := htaken
        refine ⟨_, h.without hlist hs, ?_⟩
        rw [UInt32.toNat_sub_of_le _ _ hwhole]
        rw [UInt32.le_iff_toNat_le] at hwhole
        omega
      · intro o s item rest s' htaken _ hlist hless hs
        obtain ⟨d, h, hd⟩ := htaken
        exact ⟨_, h.without_part hlist hless hs, hd⟩
      · refine ⟨k, h, ?_⟩
        rw [UInt32.toNat_ofNat_of_lt' (by rw [UInt32.size]; omega)]
        omega
    have h₂ : Streams isn written j (if s₁.size = 0 then { s₁ with first_byte_seq := isn.plus j } else s₁) := by
      obtain ⟨hsize₁, _⟩ := h₁.end_eq
      split
      next hzero =>
        rw [hzero] at hsize₁
        obtain rfl : d = j := by
          have hzeroNat : (0 : UInt32).toNat = 0 := rfl
          omega
        exact ⟨h₁.toSound.rebase hzero _, rfl, h₁.bytes, h₁.bound⟩
      next hsome =>
        rw [hstop.resolve_left hsome] at hd
        exact hd ▸ h₁
    have h₃ := h₂.reflag (reflag_check_head hhead)
    obtain ⟨_, hdiscard⟩ := Option.ite_none_right_eq_some.mp hdiscard
    cases hdiscard
    split
    · exact h₃.reflag ⟨rfl, rfl⟩
    · exact h₃

theorem Keeps.reset_last_segment_sent (s : TcpTxBuffer) : Keeps s s.reset_last_segment_sent := by
  rw [TcpTxBuffer.reset_last_segment_sent]
  split
  · exact ⟨rfl, rfl⟩
  next item hitem =>
    obtain ⟨front, hfront⟩ := List.getLast?_eq_some_iff.mp hitem
    refine ⟨?_, rfl⟩
    rw [held, held, hfront, List.dropLast_concat, List.append_assoc]
    rfl

/-- Whether an operation leaves alone the data and its numbers. -/
def Operation.manages : Operation → Bool
  | .add _ | .set_head_sequence _ | .discard_up_to .. => false
  | _ => true

def Operation.discards : Operation → Bool
  | .discard_up_to .. => true
  | _ => false

theorem Streams.step {operation : Operation} (h : Streams isn written k s) (hadmitted : Admitted s operation)
    (hmanages : operation.manages = true) (hstep : s.step operation = some s') : Streams isn written k s' := by
  refine h.of_keeps (h.toSound.step hadmitted hstep) ?_
  cases operation with
  | add p | set_head_sequence seq | discard_up_to now seq => cases hmanages
  | set_max_buffer_size n | set_dup_ack_thresh n | set_segment_size n | set_sack_enabled enabled =>
    cases hstep
    exact ⟨rfl, rfl⟩
  | copy_from_sequence now numBytes seq =>
    obtain ⟨⟨out, s₁⟩, hcopy, rfl⟩ := Option.map_eq_some_iff.mp hstep
    exact (h.toSound.copy_keeps hcopy).1
  | update list =>
    obtain ⟨⟨bytes, s₁⟩, hupdate, rfl⟩ := Option.map_eq_some_iff.mp hstep
    exact (reflag_update hupdate).keeps
  | set_sent_list_lost resetSack => exact (reflag_set_sent_list_lost hstep).keeps
  | reset_sent_list =>
    cases hstep
    refine ⟨?_, rfl⟩
    simp [held, reset_sent_list, List.flatMap_map]
  | reset_last_segment_sent =>
    cases hstep
    exact Keeps.reset_last_segment_sent s
  | mark_head_as_lost =>
    cases hstep
    exact (reflag_mark_head_as_lost s).keeps
  | delete_retransmitted_flag_from_head =>
    cases hstep
    exact (reflag_delete_retransmitted_flag s).keeps
  | add_reno_sack => exact (reflag_add_reno_sack hstep).keeps
  | reset_reno_sack =>
    cases hstep
    exact (reflag_reset_reno_sack s).keeps

/-- A buffer and the bytes that `Add` has accepted. -/
structure Session where
  buffer : TcpTxBuffer
  written : PacketBytes
deriving DecidableEq, Repr

namespace Session

/-- The position in the stream of the first byte held. -/
def acked (x : Session) : ℕ := x.written.length - x.buffer.size.toNat

def step (x : Session) : Operation → Option Session
  | .add p => some ⟨(x.buffer.add p).2, if (x.buffer.add p).1 then x.written ++ p else x.written⟩
  | operation => (x.buffer.step operation).map fun buffer => { x with buffer }

def Fresh (isn : SequenceNumber32) (x : Session) : Prop := x = ⟨init isn, []⟩

/-- The operations are admitted, acknowledgments are old or of bytes that are held, and the first number is set before. -/
def Within (x : Session) : Operation → Prop
  | .set_head_sequence _ => False
  | .discard_up_to _ seq => x.buffer.first_byte_seq.greater_equal seq = true ∨
      seq.value - x.buffer.first_byte_seq.value ≤ x.buffer.size
  | operation => Admitted x.buffer operation

variable {x x' : Session} {operation : Operation}

theorem step_eq (hmanages : operation.manages = true) :
    (x.step operation = (x.buffer.step operation).map fun buffer => { x with buffer }) ∧
      Within x operation = Admitted x.buffer operation := by
  cases operation with
  | add p | set_head_sequence seq | discard_up_to now seq => cases hmanages
  | _ => exact ⟨rfl, rfl⟩

theorem acked_eq (h : Streams isn x.written k x.buffer) : x.acked = k := by
  have hsize := h.end_eq.1
  rw [acked]
  omega

theorem step_keeps (h : Streams isn x.written k x.buffer) (hwithin : Within x operation)
    (hdiscard : operation.discards = false) (hstep : x.step operation = some x') : Streams isn x'.written k x'.buffer ∧ ∃ more, x'.written = x.written ++ more := by
  by_cases hmanages : operation.manages = true
  · obtain ⟨heq, hadmitted⟩ := step_eq (x := x) hmanages
    rw [heq] at hstep
    rw [hadmitted] at hwithin
    obtain ⟨s, hs, rfl⟩ := Option.map_eq_some_iff.mp hstep
    exact ⟨h.step hwithin hmanages hs, [], (List.append_nil _).symm⟩
  cases operation with
  | add p =>
    cases hstep
    refine ⟨h.add hwithin, if (x.buffer.add p).1 then p else [], ?_⟩
    cases (x.buffer.add p).1 <;> simp
  | set_head_sequence seq => cases hwithin
  | discard_up_to now seq => cases hdiscard
  | _ => exact absurd rfl hmanages

theorem step_streams (h : Streams isn x.written x.acked x.buffer) (hwithin : Within x operation)
    (hstep : x.step operation = some x') : Streams isn x'.written x'.acked x'.buffer := by
  obtain ⟨hsize, hlt⟩ := h.end_eq
  suffices hstreams : ∃ k, Streams isn x'.written k x'.buffer by
    obtain ⟨k, hk⟩ := hstreams
    rwa [acked_eq hk]
  cases hdiscard : operation.discards with
  | false => exact ⟨_, (step_keeps h hwithin hdiscard hstep).1⟩
  | true =>
    cases operation with
    | discard_up_to now seq =>
      obtain ⟨s, hs, rfl⟩ := Option.map_eq_some_iff.mp hstep
      rcases hwithin with hback | hin
      · rw [TcpTxBuffer.step, TcpTxBuffer.discard_up_to, if_pos hback] at hs
        cases hs
        exact ⟨_, h⟩
      · rw [UInt32.le_iff_toNat_le] at hin
        have hseq : seq = isn.plus (x.acked + (seq.value - x.buffer.first_byte_seq.value).toNat) := by
          rw [← SequenceNumber32.plus_add, ← h.first]
          cases seq
          simp [SequenceNumber32.add]
        rw [TcpTxBuffer.step, hseq] at hs
        exact ⟨_, h.discard_up_to (Nat.le_add_right _ _) (by omega) hs⟩
    | _ => cases hdiscard

/-- The buffer holds the stream from the first byte on that is not acknowledged, and gives out parts of it at their
numbers. -/
structure Faithful (isn : SequenceNumber32) (x : Session) : Prop where
  held : x.buffer.held = x.written.drop x.acked
  head : x.buffer.first_byte_seq = isn.plus x.acked
  tail : x.buffer.tail_sequence = isn.plus x.written.length
  size : x.buffer.size.toNat = x.buffer.held.length
  sent_size : x.buffer.sent_size.toNat = (x.buffer.sent_list.flatMap TcpTxItem.packet).length
  sent : ∀ item ∈ x.buffer.sent_list, ∃ q, item.start_seq = isn.plus q ∧ x.acked ≤ q ∧ Part x.written (q, item.packet)
  copied : ∀ now numBytes seq item s, x.buffer.copy_from_sequence now numBytes seq = some (some item, s) →
    ∃ q, seq = isn.plus q ∧ x.acked ≤ q ∧ Part x.written (q, item.packet) ∧ item.packet.length ≤ numBytes.toNat

theorem faithful (h : Streams isn x.written x.acked x.buffer) : Faithful isn x := by
  obtain ⟨hsize, hlt⟩ := h.end_eq
  have hheld := h.held_le
  refine ⟨h.bytes, h.first, ?_, by omega, ?_, fun item hitem => ?_, fun now numBytes seq item s hcopy => ?_⟩
  · rw [tail_sequence, h.first, SequenceNumber32.plus_add, hsize]
  · have htotal := h.lt
    rw [h.sent_size, UInt32.toNat_ofNat_of_lt' (by rw [UInt32.size]; omega), total_eq_length]
  · obtain ⟨q, hstart, _, hpart⟩ := h.part hitem
    exact ⟨_, by rw [hstart, h.first, plus_plus], Nat.le_add_right _ _, hpart⟩
  · obtain ⟨hkeeps, hout⟩ := h.toSound.copy_keeps hcopy
    obtain ⟨hitem, hseq, hlength⟩ := hout item rfl
    have h' := h.of_keeps (h.toSound.copy_from_sequence hcopy) hkeeps
    obtain ⟨q, hstart, _, hpart⟩ := h'.part hitem
    exact ⟨_, by rw [← hseq, hstart, h'.first, plus_plus], Nat.le_add_right _ _, hpart, hlength⟩

/-- Every run leaves the buffer faithful to what `Add` has accepted. -/
theorem tcp_tx_buffer_faithful (hreach : Reachable (Fresh isn) step Within x) : Faithful isn x := by
  apply faithful
  refine hreach.invariant (I := fun x => Streams isn x.written x.acked x.buffer) ?_ fun _ _ _ h hwithin hstep =>
    step_streams h hwithin hstep
  rintro x rfl
  exact Streams.init isn

instance (x : Session) (operation : Operation) : Decidable (Within x operation) :=
  match operation with
  | .add p => inferInstanceAs (Decidable (Admitted x.buffer (.add p)))
  | .set_max_buffer_size n => inferInstanceAs (Decidable (Admitted x.buffer (.set_max_buffer_size n)))
  | .reset_last_segment_sent => inferInstanceAs (Decidable (Admitted x.buffer .reset_last_segment_sent))
  | .discard_up_to _ _ => inferInstanceAs (Decidable (_ ∨ _))
  | .set_head_sequence _ => inferInstanceAs (Decidable False)
  | .set_dup_ack_thresh _ | .set_segment_size _ | .set_sack_enabled _ | .copy_from_sequence .. | .update _
  | .set_sent_list_lost _ | .reset_sent_list | .mark_head_as_lost | .delete_retransmitted_flag_from_head | .add_reno_sack
  | .reset_reno_sack => inferInstanceAs (Decidable True)

/-- Items are cut anew and a part of one is acknowledged, over the end of the sequence space. -/
theorem tcp_tx_buffer_faithful_sample : ∃ x, Reachable (Fresh ⟨0xfffffffe⟩) step Within x ∧ x.acked = 3 ∧
    x.buffer.held = [13, 14] ∧ Faithful ⟨0xfffffffe⟩ x := by
  have hrun : (execute step Within ⟨init ⟨0xfffffffe⟩, []⟩ [.add [10, 11, 12], .copy_from_sequence 0 2 ⟨0xfffffffe⟩, .add [13, 14],
      .copy_from_sequence 0 3 ⟨0⟩, .set_sent_list_lost false, .copy_from_sequence 1 4 ⟨0xfffffffe⟩,
      .discard_up_to 2 ⟨1⟩]).map (fun x => (x.acked, x.buffer.held)) = some (3, [13, 14]) := by decide +kernel
  obtain ⟨x, hx, hfacts⟩ := Option.map_eq_some_iff.mp hrun
  have hreach := (Reachable.init (show Fresh ⟨0xfffffffe⟩ ⟨init ⟨0xfffffffe⟩, []⟩ from rfl)).execute hx
  simp only [Prod.mk.injEq] at hfacts
  exact ⟨x, hreach, hfacts.1, hfacts.2, tcp_tx_buffer_faithful hreach⟩

end Session

end Ns3.TcpTxBuffer
