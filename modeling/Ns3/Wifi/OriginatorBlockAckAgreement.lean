import Ns3.Wifi.BlockAckWindow

namespace Ns3

open BlockAckAgreement (get_distance get_distance_eq)
open BlockAckWindow (Tracks)
open SequenceSpace

/-- The transmit window of an established agreement. -/
structure OriginatorBlockAckAgreement where
  starting_seq : ℕ
  buffer_size : ℕ
  tx_window : BlockAckWindow := {}
deriving DecidableEq, Repr

namespace OriginatorBlockAckAgreement

def get_starting_sequence (a : OriginatorBlockAckAgreement) : ℕ :=
  if a.tx_window.get_win_size = 0 then a.starting_seq else a.tx_window.win_start

def distance_to (a : OriginatorBlockAckAgreement) (seq_number : ℕ) : Option ℕ :=
  get_distance seq_number a.tx_window.win_start

def init_tx_window (a : OriginatorBlockAckAgreement) : OriginatorBlockAckAgreement :=
  { a with tx_window := .init a.starting_seq a.buffer_size }

/-- The loop of `AdvanceTxWindow`, for a number of turns. -/
def advance_turns : ℕ → BlockAckWindow → Option BlockAckWindow
  | 0, _ => none
  | turns + 1, w => do
    if ← w.get 0 then advance_turns turns (w.advance 1)
    else some w

/-- `AdvanceTxWindow`, which makes a turn for each flag at most. -/
def advance_tx_window (a : OriginatorBlockAckAgreement) : Option OriginatorBlockAckAgreement := do
  let tx_window ← advance_turns (a.tx_window.get_win_size + 1) a.tx_window
  return { a with tx_window }

def notify_transmitted_mpdu (a : OriginatorBlockAckAgreement) (seq_number : ℕ) :
    Option OriginatorBlockAckAgreement := do
  let distance ← a.distance_to seq_number
  if distance ≥ SEQNO_SPACE_HALF_SIZE then return a
  if distance ≥ a.tx_window.get_win_size then
    let count := distance - a.tx_window.get_win_size + 1
    advance_tx_window { a with tx_window := a.tx_window.advance count }
  else return a

def notify_acked_mpdu (a : OriginatorBlockAckAgreement) (seq_number : ℕ) :
    Option OriginatorBlockAckAgreement := do
  let distance ← a.distance_to seq_number
  if distance ≥ SEQNO_SPACE_HALF_SIZE then return a
  let tx_window ← a.tx_window.set distance
  advance_tx_window { a with tx_window }

def notify_discarded_mpdu (a : OriginatorBlockAckAgreement) (seq_number : ℕ) :
    Option OriginatorBlockAckAgreement := do
  let distance ← a.distance_to seq_number
  if distance ≥ SEQNO_SPACE_HALF_SIZE then return a
  advance_tx_window { a with tx_window := a.tx_window.advance (distance + 1) }

section Specification

variable {a a' : OriginatorBlockAckAgreement} {w : BlockAckWindow} {size start x n : ℕ} {P : ℕ → Prop}

/-- The loop ends within a turn for each flag up to the last one that is set, and passes
flagged positions only. -/
theorem advance_turns_spec (htracks : Tracks w size start P) (hsize : 0 < size)
    (hclear : ∀ i < size, n ≤ i → w.bit i = false) {t : ℕ} (hturns : n < t) :
    ∃ w' start', advance_turns t w = some w' ∧ Tracks w' size start' P ∧ start ≤ start' ∧
      start' ≤ start + n ∧ ∀ p, start ≤ p → p < start' → P p := by
  induction n generalizing w start t with
  | zero =>
    obtain ⟨t, rfl⟩ := Nat.exists_eq_add_of_lt hturns
    refine ⟨w, start, ?_, htracks, le_rfl, le_rfl, fun p h h' => by omega⟩
    rw [Nat.zero_add, advance_turns, BlockAckWindow.get_eq (by rwa [htracks.size_eq]), hclear 0 hsize le_rfl]
    rfl
  | succ n ih =>
    obtain ⟨t, rfl⟩ := Nat.exists_eq_succ_of_ne_zero (by omega : t ≠ 0)
    rw [advance_turns, BlockAckWindow.get_eq (by rw [htracks.size_eq]; omega), Option.bind_eq_bind,
      Option.bind_some]
    cases hbit : w.bit 0 with
    | false => exact ⟨w, start, rfl, htracks, le_rfl, by omega, fun p h h' => by omega⟩
    | true =>
      have hP : P start := htracks.flagged 0 (by omega) hbit
      have hclear' : ∀ i < size, n ≤ i → (w.advance 1).bit i = false := by
        intro i hi hni
        rw [BlockAckWindow.bit_advance (by rwa [htracks.size_eq]), htracks.size_eq]
        by_cases hin : i + 1 < size
        · simp [hclear (i + 1) hin (by omega)]
        · simp [hin]
      obtain ⟨w', start', heq, htracks', hle, hbound, hpassed⟩ :=
        ih (htracks.advance 1) hclear' (by omega : n < t)
      refine ⟨w', start', heq, htracks', by omega, by omega, fun p hp hlt => ?_⟩
      rcases Nat.eq_or_lt_of_le hp with rfl | hp
      · exact hP
      · exact hpassed p hp hlt

/-- What a notification does: the window moves to a start, past positions with a property. -/
structure Moved (a a' : OriginatorBlockAckAgreement) (size start start' : ℕ) (P Q : ℕ → Prop) : Prop where
  tracks : Tracks a'.tx_window size start' P
  le : start ≤ start'
  passed : ∀ p, start ≤ p → p < start' → Q p

theorem get_win_size_eq (htracks : Tracks w size start P) : w.get_win_size = size := htracks.size_eq

theorem advance_tx_window_spec (htracks : Tracks a.tx_window size start P) (hsize : 0 < size) (hn : n ≤ size)
    (hclear : ∀ i < size, n ≤ i → a.tx_window.bit i = false) :
    ∃ a' start', a.advance_tx_window = some a' ∧ Moved a a' size start start' P P ∧ start' ≤ start + n := by
  obtain ⟨w', start', heq, htracks', hle, hbound, hpassed⟩ :=
    advance_turns_spec htracks hsize hclear (t := a.tx_window.get_win_size + 1)
      (by rw [get_win_size_eq htracks]; omega)
  refine ⟨{ a with tx_window := w' }, start', ?_, ⟨htracks', hle, hpassed⟩, hbound⟩
  rw [advance_tx_window, heq]
  rfl

variable {seq_number : ℕ}

theorem distance_to_eq (htracks : Tracks a.tx_window size start P) (hle : start ≤ x)
    (hlt : x < start + SEQNO_SPACE_SIZE) : a.distance_to (x % SEQNO_SPACE_SIZE) = some (x - start) := by
  rw [distance_to, htracks.start_eq, get_distance_eq (Nat.mod_lt _ (by decide)) (Nat.mod_lt _ (by decide)),
    distance_mod hle hlt]

theorem notify_old (htracks : Tracks a.tx_window size start P) (hle : start + SEQNO_SPACE_HALF_SIZE ≤ x)
    (hlt : x < start + SEQNO_SPACE_SIZE) :
    a.notify_transmitted_mpdu (x % SEQNO_SPACE_SIZE) = some a ∧
      a.notify_acked_mpdu (x % SEQNO_SPACE_SIZE) = some a ∧
      a.notify_discarded_mpdu (x % SEQNO_SPACE_SIZE) = some a := by
  have hdist := distance_to_eq htracks (by omega : start ≤ x) hlt
  have hold : x - start ≥ SEQNO_SPACE_HALF_SIZE := by omega
  simp [notify_transmitted_mpdu, notify_acked_mpdu, notify_discarded_mpdu, hdist, hold]

theorem notify_transmitted_spec (htracks : Tracks a.tx_window size start P) (hsize : 0 < size)
    (hle : start ≤ x) (hlt : x < start + SEQNO_SPACE_HALF_SIZE) :
    ∃ a' start', a.notify_transmitted_mpdu (x % SEQNO_SPACE_SIZE) = some a' ∧
      Moved a a' size start start' P (fun p => p + size ≤ x ∨ P p) ∧ start' ≤ x ∧ x < start' + size := by
  have hhalf : SEQNO_SPACE_HALF_SIZE ≤ SEQNO_SPACE_SIZE := by decide
  have hdist := distance_to_eq htracks hle (by omega)
  have hwin := get_win_size_eq htracks
  simp only [notify_transmitted_mpdu, hdist, Option.bind_eq_bind, Option.bind_some, hwin]
  rw [if_neg (by omega)]
  by_cases hbeyond : x - start ≥ size
  · rw [if_pos hbeyond]
    have hadv := htracks.advance (x - start - size + 1)
    have hclear : ∀ i < size, size - 1 ≤ i → (a.tx_window.advance (x - start - size + 1)).bit i = false := by
      intro i hi hlast
      rw [BlockAckWindow.bit_advance (by rwa [htracks.size_eq]), htracks.size_eq]
      simp [show ¬i + (x - start - size + 1) < size by omega]
    obtain ⟨a', start', heq, hmoved, hbound⟩ := advance_tx_window_spec
      (a := { a with tx_window := a.tx_window.advance (x - start - size + 1) }) hadv hsize (by omega) hclear
    have hle' := hmoved.le
    refine ⟨a', start', heq, ⟨hmoved.tracks, by omega, fun p hp hlt' => ?_⟩, by omega, by omega⟩
    by_cases hfirst : p + size ≤ x
    · exact .inl hfirst
    · exact .inr (hmoved.passed p (by omega) hlt')
  · rw [if_neg hbeyond]
    exact ⟨a, start, rfl, ⟨htracks, le_rfl, fun p h h' => by omega⟩, hle, by omega⟩

theorem notify_transmitted_inside (htracks : Tracks a.tx_window size start P)
    (hsize : size ≤ SEQNO_SPACE_HALF_SIZE) (hle : start ≤ x) (hlt : x < start + size) :
    a.notify_transmitted_mpdu (x % SEQNO_SPACE_SIZE) = some a := by
  have hhalf : SEQNO_SPACE_HALF_SIZE ≤ SEQNO_SPACE_SIZE := by decide
  have hdist := distance_to_eq htracks hle (by omega)
  simp only [notify_transmitted_mpdu, hdist, Option.bind_eq_bind, Option.bind_some, get_win_size_eq htracks]
  rw [if_neg (by omega), if_neg (by omega)]
  rfl

theorem notify_acked_spec (htracks : Tracks a.tx_window size start P) (hsize : size ≤ SEQNO_SPACE_HALF_SIZE)
    (hle : start ≤ x) (hlt : x < start + size) (hP : P x) :
    ∃ a' start', a.notify_acked_mpdu (x % SEQNO_SPACE_SIZE) = some a' ∧
      Moved a a' size start start' P P ∧ start' ≤ start + size := by
  have hhalf : SEQNO_SPACE_HALF_SIZE ≤ SEQNO_SPACE_SIZE := by decide
  have hdist := distance_to_eq htracks hle (by omega)
  obtain ⟨w', hw'⟩ := Option.isSome_iff_exists.mp
    (BlockAckWindow.set_isSome (by rw [htracks.size_eq]; omega : x - start < a.tx_window.window.length))
  have htracks' := htracks.set hw' (by rwa [Nat.add_sub_cancel' hle])
  obtain ⟨a', start', heq, hmoved, hbound⟩ := advance_tx_window_spec (a := { a with tx_window := w' }) htracks'
    (by omega) le_rfl (fun i hi hn => by omega)
  refine ⟨a', start', ?_, ⟨hmoved.tracks, hmoved.le, hmoved.passed⟩, hbound⟩
  simp only [notify_acked_mpdu, hdist, hw', Option.bind_eq_bind, Option.bind_some]
  rw [if_neg (by omega), heq]

theorem notify_discarded_empty (htracks : Tracks a.tx_window 0 start P) (hle : start ≤ x)
    (hlt : x < start + SEQNO_SPACE_HALF_SIZE) : a.notify_discarded_mpdu (x % SEQNO_SPACE_SIZE) = none := by
  have hhalf : SEQNO_SPACE_HALF_SIZE ≤ SEQNO_SPACE_SIZE := by decide
  have hlen : (a.tx_window.advance (x - start + 1)).window.length = 0 := (htracks.advance _).size_eq
  rw [notify_discarded_mpdu, distance_to_eq htracks hle (by omega), Option.bind_eq_bind, Option.bind_some,
    if_neg (by omega), advance_tx_window, advance_turns, BlockAckWindow.get_eq_none hlen.le]
  rfl

theorem notify_discarded_spec (htracks : Tracks a.tx_window size start P) (hsize : 0 < size)
    (hle : start ≤ x) (hlt : x < start + SEQNO_SPACE_HALF_SIZE) :
    ∃ a' start', a.notify_discarded_mpdu (x % SEQNO_SPACE_SIZE) = some a' ∧
      Moved a a' size start start' P (fun p => p ≤ x ∨ P p) ∧ x < start' ∧
      start' ≤ max (x + 1) (start + size) := by
  have hhalf : SEQNO_SPACE_HALF_SIZE ≤ SEQNO_SPACE_SIZE := by decide
  have hdist := distance_to_eq htracks hle (by omega)
  have hadv := htracks.advance (x - start + 1)
  have hclear : ∀ i < size, size - (x - start + 1) ≤ i →
      (a.tx_window.advance (x - start + 1)).bit i = false := by
    intro i hi hlast
    rw [BlockAckWindow.bit_advance (by rwa [htracks.size_eq]), htracks.size_eq]
    simp [show ¬i + (x - start + 1) < size by omega]
  obtain ⟨a', start', heq, hmoved, hbound⟩ := advance_tx_window_spec
    (a := { a with tx_window := a.tx_window.advance (x - start + 1) }) hadv hsize (by omega) hclear
  have hle' := hmoved.le
  refine ⟨a', start', ?_, ⟨hmoved.tracks, by omega, fun p hp hlt' => ?_⟩, by omega, by omega⟩
  · simp only [notify_discarded_mpdu, hdist, Option.bind_eq_bind, Option.bind_some]
    rw [if_neg (by omega), heq]
  · by_cases hfirst : p ≤ x
    · exact .inl hfirst
    · exact .inr (hmoved.passed p (by omega) hlt')

end Specification

end OriginatorBlockAckAgreement

end Ns3
