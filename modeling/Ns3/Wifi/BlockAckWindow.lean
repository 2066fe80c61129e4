import Ns3.Foundation.SequenceSpace

namespace Ns3

def SEQNO_SPACE_SIZE : ℕ := 4096

def SEQNO_SPACE_HALF_SIZE : ℕ := SEQNO_SPACE_SIZE / 2

theorem head_in_empty : 0 < ([] : List Bool).length → 0 < ([] : List Bool).length := id

/-- The flags of a run of sequence numbers, in a cyclic buffer. -/
structure BlockAckWindow where
  win_start : ℕ := 0
  window : List Bool := []
  head : ℕ := 0
  /-- The head is an element of the buffer, if there are any. -/
  head_in : 0 < window.length → head < window.length := by first | exact head_in_empty | simp
deriving DecidableEq, Repr

namespace BlockAckWindow

def init (win_start win_size : ℕ) : BlockAckWindow where
  win_start := win_start
  window := List.replicate win_size false
  head := 0
  head_in := id

def get_win_size (w : BlockAckWindow) : ℕ := w.window.length

def reset (w : BlockAckWindow) (win_start : ℕ) : BlockAckWindow := init win_start w.get_win_size

/-- `At`, where it is read. -/
def get (w : BlockAckWindow) (distance : ℕ) : Option Bool :=
  if distance < w.window.length then w.window[(w.head + distance) % w.window.length]? else none

/-- `At`, where true is written to the element. -/
def set (w : BlockAckWindow) (distance : ℕ) : Option BlockAckWindow :=
  if distance < w.window.length then
    some { w with
      window := w.window.set ((w.head + distance) % w.window.length) true
      head_in := by simpa using w.head_in }
  else none

/-- One turn of the loop of `Advance`. -/
def drop_head (w : BlockAckWindow) : BlockAckWindow where
  win_start := w.win_start
  window := w.window.set w.head false
  head := (w.head + 1) % w.window.length
  head_in _ := by
    rw [List.length_set]
    exact Nat.mod_lt _ (by simp_all)

/-- The loop of `Advance`. -/
def drop_heads : ℕ → BlockAckWindow → BlockAckWindow
  | 0, w => w
  | count + 1, w => drop_heads count w.drop_head

def advance (w : BlockAckWindow) (count : ℕ) : BlockAckWindow :=
  if count ≥ w.window.length then w.reset ((w.win_start + count) % SEQNO_SPACE_SIZE)
  else { drop_heads count w with win_start := (w.win_start + count) % SEQNO_SPACE_SIZE }

/-- The flag some places ahead of the head. -/
def bit (w : BlockAckWindow) (i : ℕ) : Bool := (w.window[(w.head + i) % w.window.length]?).getD false

variable {w w' : BlockAckWindow} {count distance i size start : ℕ}

theorem get_eq (h : i < w.window.length) : w.get i = some (w.bit i) := by
  have hin : (w.head + i) % w.window.length < w.window.length := Nat.mod_lt _ (by omega)
  rw [get, if_pos h, bit, List.getElem?_eq_getElem hin, Option.getD_some]

theorem get_eq_none (h : w.window.length ≤ i) : w.get i = none := if_neg (by omega)

theorem bit_init : (init start size).bit i = false := by
  rw [bit, init, List.getElem?_replicate]
  split <;> rfl

theorem place_inj {h n i j : ℕ} (hi : i < n) (hj : j < n) (heq : (h + i) % n = (h + j) % n) : i = j := by
  have hmod : i ≡ j [MOD n] := Nat.ModEq.add_left_cancel' h heq
  exact Nat.ModEq.eq_of_lt_of_lt hmod hi hj

theorem length_set (h : w.set distance = some w') : w'.window.length = w.window.length := by
  rw [set] at h
  split at h
  next =>
    cases h
    exact List.length_set
  next => cases h

theorem win_start_set (h : w.set distance = some w') : w'.win_start = w.win_start := by
  rw [set] at h
  split at h
  next =>
    cases h
    rfl
  next => cases h

theorem set_isSome (h : distance < w.window.length) : (w.set distance).isSome := by
  rw [set, if_pos h]
  rfl

theorem bit_set (hset : w.set distance = some w') (hi : i < w.window.length) :
    w'.bit i = (decide (i = distance) || w.bit i) := by
  rw [set] at hset
  split at hset
  next hd =>
    cases hset
    have hin : (w.head + i) % w.window.length < w.window.length := Nat.mod_lt _ (by omega)
    simp only [bit, List.length_set, List.getElem?_set]
    by_cases heq : i = distance
    · simp [heq, Nat.mod_lt _ (by omega : 0 < w.window.length)]
    · rw [if_neg fun h => heq (place_inj hi hd h.symm)]
      simp [heq]
  next => cases hset

theorem length_drop_head : w.drop_head.window.length = w.window.length := List.length_set

theorem bit_drop_head (hi : i < w.window.length) :
    w.drop_head.bit i = (decide (i + 1 < w.window.length) && w.bit (i + 1)) := by
  have hhead := w.head_in (by omega)
  simp only [bit, drop_head, List.length_set]
  rw [Nat.mod_add_mod, List.getElem?_set, Nat.add_assoc, Nat.add_comm 1 i]
  by_cases hlast : i + 1 < w.window.length
  · have hne : w.head ≠ (w.head + (i + 1)) % w.window.length := by
      intro heq
      have hzero : (w.head + 0) % w.window.length = (w.head + (i + 1)) % w.window.length := by
        rw [Nat.add_zero, Nat.mod_eq_of_lt hhead]
        exact heq
      exact absurd (place_inj (by omega) hlast hzero) (by omega)
    rw [if_neg hne]
    simp [hlast]
  · have heq : (w.head + (i + 1)) % w.window.length = w.head := by
      rw [show i + 1 = w.window.length by omega, Nat.add_mod_right, Nat.mod_eq_of_lt hhead]
    rw [heq, if_pos rfl]
    simp [hlast, hhead]

theorem length_drop_heads : (drop_heads count w).window.length = w.window.length := by
  induction count generalizing w with
  | zero => rfl
  | succ count ih => rw [drop_heads, ih, length_drop_head]

theorem bit_drop_heads (hi : i < w.window.length) :
    (drop_heads count w).bit i = (decide (i + count < w.window.length) && w.bit (i + count)) := by
  induction count generalizing w with
  | zero => simp [drop_heads, hi]
  | succ count ih =>
    rw [drop_heads, ih (by rwa [length_drop_head]), length_drop_head]
    by_cases hin : i + count < w.window.length
    · rw [bit_drop_head hin]
      simp [hin, Nat.add_assoc]
    · simp [hin, show ¬i + (count + 1) < w.window.length by omega]

theorem length_advance : (w.advance count).window.length = w.window.length := by
  rw [advance]
  split
  · simp [reset, init, get_win_size]
  · exact length_drop_heads

theorem win_start_advance : (w.advance count).win_start = (w.win_start + count) % SEQNO_SPACE_SIZE := by
  rw [advance]
  split <;> rfl

theorem bit_advance (hi : i < w.window.length) :
    (w.advance count).bit i = (decide (i + count < w.window.length) && w.bit (i + count)) := by
  rw [advance]
  split
  next h => simp [reset, bit_init, show ¬i + count < w.window.length by omega]
  next => exact bit_drop_heads hi

/-- The window starts at a position, and its flags are of positions with a property. -/
structure Tracks (w : BlockAckWindow) (size start : ℕ) (P : ℕ → Prop) : Prop where
  size_eq : w.window.length = size
  start_eq : w.win_start = start % SEQNO_SPACE_SIZE
  flagged : ∀ i < size, w.bit i = true → P (start + i)

variable {P Q : ℕ → Prop}

theorem tracks_init (hstart : start < SEQNO_SPACE_SIZE) : Tracks (init start size) size start P where
  size_eq := List.length_replicate
  start_eq := (Nat.mod_eq_of_lt hstart).symm
  flagged i _ h := by simp [bit_init] at h

theorem Tracks.mono (h : Tracks w size start P) (hPQ : ∀ p, P p → Q p) : Tracks w size start Q :=
  ⟨h.size_eq, h.start_eq, fun i hi hbit => hPQ _ (h.flagged i hi hbit)⟩

theorem Tracks.bounded (h : Tracks w size start P) : Tracks w size start fun p => P p ∧ p < start + size :=
  ⟨h.size_eq, h.start_eq, fun i hi hbit => ⟨h.flagged i hi hbit, by omega⟩⟩

theorem Tracks.set (h : Tracks w size start P) (hset : w.set distance = some w')
    (hP : P (start + distance)) : Tracks w' size start P where
  size_eq := (length_set hset).trans h.size_eq
  start_eq := (win_start_set hset).trans h.start_eq
  flagged i hi hbit := by
    rw [bit_set hset (by rwa [h.size_eq]), Bool.or_eq_true, decide_eq_true_eq] at hbit
    rcases hbit with rfl | hbit
    · exact hP
    · exact h.flagged i hi hbit

theorem Tracks.advance (h : Tracks w size start P) (count : ℕ) :
    Tracks (w.advance count) size (start + count) P where
  size_eq := length_advance.trans h.size_eq
  start_eq := by rw [win_start_advance, h.start_eq, Nat.mod_add_mod]
  flagged i hi hbit := by
    rw [bit_advance (by rwa [h.size_eq]), h.size_eq, Bool.and_eq_true, decide_eq_true_eq] at hbit
    have hP := h.flagged (i + count) hbit.1 hbit.2
    rwa [Nat.add_assoc, Nat.add_comm count i]

theorem Tracks.reset (h : Tracks w size start P) {seq : ℕ} (hseq : seq < SEQNO_SPACE_SIZE) :
    Tracks (w.reset seq) size (start + SequenceSpace.distance SEQNO_SPACE_SIZE seq w.win_start) P where
  size_eq := List.length_replicate.trans h.size_eq
  start_eq := by rw [h.start_eq, SequenceSpace.add_distance_mod hseq]; rfl
  flagged i _ hbit := by simp [BlockAckWindow.reset, bit_init] at hbit

end BlockAckWindow

end Ns3

namespace Ns3

theorem first_fragment_lt : 0 < 16 := by decide

/-- An MPDU with the numbers of its header's sequence control field. -/
structure WifiMpdu (α : Type) where
  sequence_number : ℕ
  fragment_number : ℕ := 0
  packet : α
  sequence_number_lt : sequence_number < SEQNO_SPACE_SIZE
  fragment_number_lt : fragment_number < 16 := by first | exact first_fragment_lt | decide
deriving DecidableEq, Repr

/-- `GetSequenceControl`. -/
def WifiMpdu.sequence_control {α : Type} (mpdu : WifiMpdu α) : ℕ :=
  mpdu.sequence_number * 16 + mpdu.fragment_number

namespace BlockAckAgreement

/-- `GetDistance`, with its assertion. -/
def get_distance (seq_number starting_seq_number : ℕ) : Option ℕ :=
  if seq_number < SEQNO_SPACE_SIZE ∧ starting_seq_number < SEQNO_SPACE_SIZE then
    some ((seq_number + SEQNO_SPACE_SIZE - starting_seq_number) % SEQNO_SPACE_SIZE)
  else none

theorem get_distance_eq {a b : ℕ} (ha : a < SEQNO_SPACE_SIZE) (hb : b < SEQNO_SPACE_SIZE) :
    get_distance a b = some (SequenceSpace.distance SEQNO_SPACE_SIZE a b) := if_pos ⟨ha, hb⟩

theorem get_distance_eq_none {a b : ℕ} (ha : SEQNO_SPACE_SIZE ≤ a) : get_distance a b = none :=
  if_neg fun h => absurd h.1 (by omega)

end BlockAckAgreement

end Ns3
