import Ns3.Foundation.Reachable
import Ns3.Wifi.BlockAckManager.InFlight

namespace Ns3.BlockAckManager

open BlockAckAgreement (get_distance)
open BlockAckWindow (Tracks)
open SequenceSpace
open Transition (Reachable)

variable {α : Type}

/-- A call of the manager for one agreement. The links an MPDU is in flight on are kept with the
MPDU, by the EDCA queue. -/
inductive Call (α : Type)
  | store_packet (mpdu : WifiMpdu α)
  | got_ack (mpdu : WifiMpdu α)
  | missed_ack (mpdu : WifiMpdu α)
  | got_block_ack (link_id : ℕ) (block_ack : CtrlBAckResponseHeader) (index : ℕ)
      (in_flight_link_ids : WifiMpdu α → List ℕ)
  | missed_block_ack (link_id : ℕ) (in_flight_link_ids : WifiMpdu α → List ℕ)
  | discarded_mpdu (mpdu : WifiMpdu α) (transmitted : Bool)

def step (s : BlockAckManager α) : Call α → Option (BlockAckManager α)
  | .store_packet m => s.store_packet m
  | .got_ack m => s.notify_got_ack m
  | .missed_ack m => s.notify_missed_ack m
  | .got_block_ack link h index links => s.notify_got_block_ack link h index links
  | .missed_block_ack link links => s.notify_missed_block_ack link links
  | .discarded_mpdu m transmitted => s.notify_discarded_mpdu m transmitted

/-- An agreement that has just been established. -/
def established (starting_seq buffer_size : ℕ) : BlockAckManager α where
  agreement := { starting_seq, buffer_size : OriginatorBlockAckAgreement }.init_tx_window

/-- No MPDU in flight is older than the starting sequence number. -/
def NoOld (s : BlockAckManager α) : Prop := ∀ y ∈ s.in_flight, ¬s.IsOld y

instance (s : BlockAckManager α) : Decidable s.NoOld := inferInstanceAs (Decidable (∀ _ ∈ _, _))

/-- What the calls of a run have to meet. An MPDU that enters the queue finds its place before the
scan meets an old one; a call that can move the window is for an MPDU less than half the space
ahead of those in flight; and a discard is ignored only when nothing in flight is old. -/
def Admitted (s : BlockAckManager α) : Call α → Prop
  | .store_packet m => ¬s.IsOld m → (∀ x ∈ s.in_flight, x.sequence_control ≠ m.sequence_control) →
      s.ScanMeetsNoOld m ∧ s.IsNear m
  | .got_ack m => ¬s.IsOld m → s.IsNear m
  | .discarded_mpdu m transmitted =>
    if transmitted = true ∧ ¬s.IsOld m then s.IsNear m else s.NoOld
  | .missed_ack _ | .got_block_ack .. | .missed_block_ack .. => True

instance (s : BlockAckManager α) (call : Call α) : Decidable (Admitted s call) :=
  match call with
  | .store_packet m => inferInstanceAs (Decidable (¬s.IsOld m → (∀ _ ∈ s.in_flight, _) → _ ∧ _))
  | .got_ack m => inferInstanceAs (Decidable (¬s.IsOld m → _))
  | .discarded_mpdu m transmitted =>
    inferInstanceAs (Decidable (if transmitted = true ∧ ¬s.IsOld m then s.IsNear m else s.NoOld))
  | .missed_ack _ | .got_block_ack .. | .missed_block_ack .. => inferInstanceAs (Decidable True)

/-- How far an MPDU is ahead of the starting sequence number, negative if it is older. -/
def offset (s : BlockAckManager α) (m : WifiMpdu α) : ℤ :=
  if SEQNO_SPACE_HALF_SIZE ≤ distance SEQNO_SPACE_SIZE m.sequence_number s.agreement.tx_window.win_start then
    (distance SEQNO_SPACE_SIZE m.sequence_number s.agreement.tx_window.win_start : ℤ) - SEQNO_SPACE_SIZE
  else distance SEQNO_SPACE_SIZE m.sequence_number s.agreement.tx_window.win_start

/-- What an originator keeps. -/
structure InOrder (s : BlockAckManager α) (size : ℕ) : Prop where
  distinct : s.in_flight.Pairwise (·.sequence_control ≠ ·.sequence_control)
  increasing : s.in_flight.Pairwise fun x y => s.offset x < s.offset y ∨
    s.offset x = s.offset y ∧ x.fragment_number < y.fragment_number
  in_window : ∀ m ∈ s.in_flight, ¬s.IsOld m →
    distance SEQNO_SPACE_SIZE m.sequence_number s.agreement.tx_window.win_start < size
  ack_succeeds : ∀ m ∈ s.in_flight, (s.agreement.notify_acked_mpdu m.sequence_number).isSome

variable {s s' : BlockAckManager α} {m : WifiMpdu α} {size start top : ℕ} {call : Call α}

theorem Ordered.offset_eq (h : s.Ordered size start top) (m : WifiMpdu α) :
    s.offset m = (rank start m : ℤ) - (start + SEQNO_SPACE_SIZE) := by
  have hle := le_rank (b := start) (m := m)
  rw [offset, h.win_start]
  by_cases hold : rank start m < start + SEQNO_SPACE_SIZE
  · rw [if_pos (is_old_iff.mpr hold), distance_behind hold]
    omega
  · rw [if_neg (mt is_old_iff.mp hold), distance_ahead (by omega)]
    omega

theorem Ordered.inOrder (h : s.Ordered size start top) (hsize : size ≤ SEQNO_SPACE_HALF_SIZE) :
    s.InOrder size where
  distinct := h.sorted.imp Precedes.ne
  increasing := by
    apply h.sorted.imp
    intro x y hxy
    rw [Precedes] at hxy
    rw [h.offset_eq, h.offset_eq]
    omega
  in_window _ hm hold := h.in_window hm hold
  ack_succeeds m hm := by
    by_cases hold : s.IsOld m
    · rw [(h.notify_old hold).1]
      rfl
    · obtain ⟨x, hrank, hle, -, hseq⟩ := h.position_eq hold
      have hbelow := h.below m hm
      have htop := h.top_le
      obtain ⟨a', -, heq, -⟩ := OriginatorBlockAckAgreement.notify_acked_spec h.tracks hsize hle (by omega)
        (by omega)
      rw [hseq, heq]
      rfl

theorem established_ordered (hstart : start < SEQNO_SPACE_SIZE) :
    (established start size : BlockAckManager α).Ordered size start start where
  tracks := BlockAckWindow.tracks_init hstart
  start_le := le_rfl
  top_le := Nat.le_add_right ..
  sorted := List.Pairwise.nil
  above := by simp [established]
  below := by simp [established]

theorem Ordered.discard_step (h : s.Ordered size start top) (hsize : 0 < size) {transmitted : Bool}
    (hadmitted : Admitted s (.discarded_mpdu m transmitted))
    (hstep : s.notify_discarded_mpdu m transmitted = some s') :
    (∃ start' top', s'.Ordered size start' top') ∧ s'.NoOld := by
  have hstarting : s.agreement.get_starting_sequence = s.agreement.tx_window.win_start := by
    rw [OriginatorBlockAckAgreement.get_starting_sequence,
      OriginatorBlockAckAgreement.get_win_size_eq h.tracks, if_neg (by omega)]
  have hutils : qos_utils_is_old_packet s.agreement.get_starting_sequence m.sequence_number
      = some (decide (s.IsOld m)) := by
    have hwin : s.agreement.tx_window.win_start < SEQNO_SPACE_SIZE := by
      rw [h.win_start]
      exact Nat.mod_lt _ (by decide)
    rw [qos_utils_is_old_packet, hstarting, BlockAckAgreement.get_distance_eq m.sequence_number_lt hwin]
    rfl
  rw [notify_discarded_mpdu, hutils] at hstep
  rw [Admitted] at hadmitted
  cases transmitted with
  | false =>
    cases hstep
    exact ⟨⟨start, top, h⟩, by simpa using hadmitted⟩
  | true =>
    by_cases hold : s.IsOld m
    · simp only [hold] at hstep hadmitted
      cases hstep
      exact ⟨⟨start, top, h⟩, by simpa using hadmitted⟩
    · rw [if_pos ⟨rfl, hold⟩] at hadmitted
      obtain ⟨a', l, start', top', heq, hl, hordered, hnoold⟩ := h.discarded hsize hold hadmitted
      simp only [hold, heq, hl, Option.bind_eq_bind, Option.bind_some] at hstep
      cases hstep
      exact ⟨⟨start', top', hordered⟩, hnoold⟩

theorem Ordered.step (h : s.Ordered size start top) (hsize : 0 < size ∧ size ≤ SEQNO_SPACE_HALF_SIZE)
    (hadmitted : Admitted s call) (hstep : step s call = some s') :
    ∃ start' top', s'.Ordered size start' top' := by
  cases call with
  | store_packet m =>
    obtain ⟨s'', start', top', heq, h'⟩ := h.store_packet hsize m hadmitted
    cases hstep.symm.trans heq
    exact ⟨start', top', h'⟩
  | got_ack m =>
    rw [BlockAckManager.step, notify_got_ack] at hstep
    obtain ⟨a', hack, hstep⟩ := Option.bind_eq_some_iff.mp hstep
    obtain ⟨l, hl, hstep⟩ := Option.bind_eq_some_iff.mp hstep
    cases hstep
    exact h.acked hsize.2 hadmitted hack (handle_first_sublist hl)
  | missed_ack m =>
    rw [BlockAckManager.step, notify_missed_ack] at hstep
    obtain ⟨l, hl, hstep⟩ := Option.bind_eq_some_iff.mp hstep
    cases hstep
    exact ⟨start, top, h.shrink h.tracks le_rfl h.start_le (handle_first_sublist hl)⟩
  | got_block_ack link header index links =>
    rw [BlockAckManager.step, notify_got_block_ack] at hstep
    split at hstep
    · cases hstep
    · obtain ⟨r, hr, hstep⟩ := Option.bind_eq_some_iff.mp hstep
      obtain ⟨l, hl, hstep⟩ := Option.bind_eq_some_iff.mp hstep
      cases hstep
      obtain ⟨start', top', h'⟩ := remove_acked_ordered (K := []) hsize.2 h hr
      exact ⟨start', top', h'.shrink h'.tracks le_rfl h'.start_le (handle_all_sublist hl)⟩
  | missed_block_ack link links =>
    rw [BlockAckManager.step, notify_missed_block_ack] at hstep
    obtain ⟨l, hl, hstep⟩ := Option.bind_eq_some_iff.mp hstep
    cases hstep
    exact ⟨start, top, h.shrink h.tracks le_rfl h.start_le (handle_all_sublist hl)⟩
  | discarded_mpdu m transmitted => exact (h.discard_step hsize.1 hadmitted hstep).1

/-- In every run of an agreement whose calls meet the condition the queue of the MPDUs in flight holds no
MPDU twice, is in order, lies inside the window up to its old MPDUs, and has no old MPDU
after a discard. -/
theorem in_flight_in_order (start size : ℕ) (hstart : start < SEQNO_SPACE_SIZE)
    (hsize : 0 < size ∧ size ≤ SEQNO_SPACE_HALF_SIZE) (s : BlockAckManager α)
    (hreach : Reachable (· = established start size) step Admitted s) :
    s.InOrder size ∧ ∀ m transmitted s', Admitted s (.discarded_mpdu m transmitted) →
      s.notify_discarded_mpdu m transmitted = some s' → s'.NoOld := by
  have hinv : ∃ start' top', s.Ordered size start' top' := by
    apply hreach.invariant
    · rintro _ rfl
      exact ⟨start, start, established_ordered hstart⟩
    · rintro s call s' ⟨start', top', h⟩ hadmitted hstep
      exact h.step hsize hadmitted hstep
  obtain ⟨start', top', h⟩ := hinv
  exact ⟨h.inOrder hsize.2, fun m transmitted s' hadmitted hstep => (h.discard_step hsize.1 hadmitted hstep).2⟩

namespace Sample

def mpdu (sequence_number : ℕ) (h : sequence_number < SEQNO_SPACE_SIZE := by decide) : WifiMpdu Unit where
  sequence_number := sequence_number
  packet := ()
  sequence_number_lt := h

/-- MPDUs around the wrap, one of them lost, one acknowledged and one discarded. -/
def calls : List (Call Unit) :=
  [.store_packet (mpdu 4095), .store_packet (mpdu 1), .store_packet (mpdu 0), .got_ack (mpdu 4095),
    .missed_ack (mpdu 1), .store_packet (mpdu 70), .missed_block_ack 0 (fun _ => [1]), .discarded_mpdu (mpdu 70) true]

end Sample

theorem in_flight_in_order_sample : ∃ s : BlockAckManager Unit,
    Reachable (· = established 4095 64) step Admitted s ∧ s.agreement.tx_window.win_start = 71 ∧
      s.InOrder 64 ∧ ∀ m transmitted s', Admitted s (.discarded_mpdu m transmitted) →
        s.notify_discarded_mpdu m transmitted = some s' → s'.NoOld := by
  have hrun : (Transition.execute step Admitted (established 4095 64) Sample.calls).map
      (fun s => s.agreement.tx_window.win_start) = some 71 := by decide +kernel
  obtain ⟨s, hs, hstart⟩ := Option.map_eq_some_iff.mp hrun
  have hreach : Reachable (· = established 4095 64) step Admitted s := Reachable.execute (.init rfl) hs
  exact ⟨s, hreach, hstart, in_flight_in_order 4095 64 (by decide) (by decide) s hreach⟩

/-- A transmission beyond the window leaves an old MPDU in flight, the next one is put before it, and
a discard does not find it. -/
theorem old_mpdu_stays_in_flight : ∃ s s' : BlockAckManager Unit,
    Reachable (· = established 0 64) step Transition.Always s ∧ ¬s.InOrder 64 ∧
      s.notify_discarded_mpdu (Sample.mpdu 2) true = some s' ∧ ¬s'.NoOld := by
  have hrun : (Transition.execute step Transition.Always (established 0 64)
      [.store_packet (Sample.mpdu 0), .store_packet (Sample.mpdu 64), .store_packet (Sample.mpdu 5)]).map
      (fun s => (s.in_flight, s.agreement.tx_window.win_start,
        (s.notify_discarded_mpdu (Sample.mpdu 2) true).map fun s' => decide s'.NoOld))
      = some ([Sample.mpdu 5, Sample.mpdu 0, Sample.mpdu 64], 1, some false) := by decide +kernel
  obtain ⟨s, hs, hfacts⟩ := Option.map_eq_some_iff.mp hrun
  simp only [Prod.mk.injEq, Option.map_eq_some_iff, decide_eq_false_iff_not] at hfacts
  obtain ⟨hqueue, hstart, s', hs', hold⟩ := hfacts
  refine ⟨s, s', Reachable.execute (.init rfl) hs, fun h => ?_, hs', hold⟩
  have hincreasing := h.increasing
  rw [hqueue, List.pairwise_cons] at hincreasing
  have hfirst := hincreasing.1 (Sample.mpdu 0) (by simp)
  simp only [offset, hstart] at hfirst
  revert hfirst
  decide +kernel

end Ns3.BlockAckManager
