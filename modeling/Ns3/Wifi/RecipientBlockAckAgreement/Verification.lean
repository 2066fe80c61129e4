import Ns3.Foundation.Reachable
import Ns3.Wifi.RecipientBlockAckAgreement.Reorder
import Ns3.Wifi.RecipientBlockAckAgreement.Scoreboard

namespace Ns3.RecipientBlockAckAgreement

open BlockAckAgreement (get_distance)
open BlockAckWindow (Tracks)
open SequenceSpace
open Transition (Reachable)

/-- A call of a recipient's agreement. -/
inductive Call (α : Type)
  | received_mpdu (mpdu : WifiMpdu α)
  | received_bar (starting_sequence_number : Fin SEQNO_SPACE_SIZE)

/-- A recipient over a run. `start` is its window start counted without wrap, `received` the
MPDUs that arrived inside or ahead of the window and `passed` those passed up, each with
its position. -/
structure Reordering (α : Type) where
  agreement : RecipientBlockAckAgreement α
  start : ℕ
  received : List (ℕ × WifiMpdu α) := []
  passed : List (ℕ × WifiMpdu α) := []
deriving DecidableEq

namespace Reordering

variable {α : Type}

def initial (buffer_size starting_seq : ℕ) : Reordering α where
  agreement := .create buffer_size starting_seq
  start := starting_seq

/-- The MPDU of a call, if it is inside or ahead of the window, with its position. -/
def arrival (j : Reordering α) : Call α → List (ℕ × WifiMpdu α)
  | .received_mpdu m =>
    if pos j.start m < j.start + SEQNO_SPACE_HALF_SIZE then [(pos j.start m, m)] else []
  | .received_bar _ => []

def run (s : RecipientBlockAckAgreement α) : Call α → Option (RecipientBlockAckAgreement α)
  | .received_mpdu m => s.notify_received_mpdu m
  | .received_bar ssn => s.notify_received_bar ssn

def record (j : Reordering α) (call : Call α) (agreement : RecipientBlockAckAgreement α) : Reordering α where
  agreement := agreement
  start := position SEQNO_SPACE_SIZE j.start agreement.win_start_b
  received := j.received ++ j.arrival call
  passed := j.passed ++
    (agreement.rx_middle.drop j.agreement.rx_middle.length).map fun m => (pos j.start m, m)

def step (j : Reordering α) (call : Call α) : Option (Reordering α) :=
  (run j.agreement call).map (j.record call)

/-- An MPDU ahead of the window has a number below the one the window would end with when
it starts at number zero: the new start would lie before zero. -/
def EndsBeforeZero (s : RecipientBlockAckAgreement α) (m : WifiMpdu α) : Prop :=
  s.win_size_b ≤ distance SEQNO_SPACE_SIZE m.sequence_number s.win_start_b ∧
    distance SEQNO_SPACE_SIZE m.sequence_number s.win_start_b < SEQNO_SPACE_HALF_SIZE ∧
    m.sequence_number + 1 < s.win_size_b

/-- No MPDU moves the window to a start before zero. -/
def Admitted (j : Reordering α) : Call α → Prop
  | .received_mpdu m => ¬EndsBeforeZero j.agreement m
  | .received_bar _ => True

instance (s : RecipientBlockAckAgreement α) (m : WifiMpdu α) : Decidable (EndsBeforeZero s m) :=
  inferInstanceAs (Decidable (_ ∧ _ ∧ _))

instance (j : Reordering α) (call : Call α) : Decidable (Admitted j call) :=
  match call with
  | .received_mpdu m => inferInstanceAs (Decidable ¬EndsBeforeZero j.agreement m)
  | .received_bar _ => inferInstanceAs (Decidable True)

/-- What a recipient keeps. -/
structure InOrder (j : Reordering α) (size : ℕ) : Prop where
  win_size : j.agreement.win_size_b = size
  win_start : j.agreement.win_start_b = j.start % SEQNO_SPACE_SIZE
  scoreboard : ∃ r, Tracks j.agreement.scoreboard size r fun _ => True
  sorted : Sorted j.start j.agreement.buffered_mpdus
  inside : ∀ m ∈ j.agreement.buffered_mpdus, j.start < pos j.start m ∧ pos j.start m < j.start + size
  buffered_received : ∀ m ∈ j.agreement.buffered_mpdus, (pos j.start m, m) ∈ j.received
  numbered : ∀ e ∈ j.received, e.1 % SEQNO_SPACE_SIZE = e.2.sequence_number
  passed_up : j.passed.map (·.2) = j.agreement.rx_middle
  passed_received : ∀ e ∈ j.passed, e ∈ j.received
  increasing : j.passed.Pairwise (·.1 < ·.1)
  behind : ∀ e ∈ j.passed, e.1 < j.start
  kept : ∀ e ∈ j.received, (∃ x ∈ j.passed, x.1 = e.1) ∨
    ∃ m ∈ j.agreement.buffered_mpdus, pos j.start m = e.1

variable {j : Reordering α} {size start' : ℕ} {call : Call α} {a' : RecipientBlockAckAgreement α}
  {buffer passed : List (WifiMpdu α)}

/-- The result of a call: the MPDU it brings is in the buffer if it is new, and then a first
part of the buffer is passed up. -/
structure Handled (j : Reordering α) (size : ℕ) (call : Call α) (a' : RecipientBlockAckAgreement α)
    (buffer : List (WifiMpdu α)) (start' : ℕ) (passed : List (WifiMpdu α)) : Prop where
  passes : Passes { j.agreement with buffered_mpdus := buffer, scoreboard := a'.scoreboard } a' j.start start'
    passed
  scoreboard : ∃ r, Tracks a'.scoreboard size r fun _ => True
  sorted : Sorted j.start buffer
  stored : ∀ x ∈ j.agreement.buffered_mpdus, x ∈ buffer
  origin : ∀ x ∈ buffer, x ∈ j.agreement.buffered_mpdus ∨ (pos j.start x, x) ∈ j.arrival call
  arrived : ∀ e ∈ j.arrival call, ∃ x ∈ buffer, pos j.start x = e.1
  strict : ∀ m ∈ a'.buffered_mpdus, start' < pos start' m
  inside : ∀ m ∈ a'.buffered_mpdus, pos start' m < start' + size
  near : start' < j.start + SEQNO_SPACE_SIZE

theorem arrival_numbered {e : ℕ × WifiMpdu α} (he : e ∈ j.arrival call) :
    e.1 % SEQNO_SPACE_SIZE = e.2.sequence_number := by
  cases call with
  | received_mpdu m =>
    rw [arrival] at he
    split at he
    · rw [List.mem_singleton.mp he]
      exact pos_mod
    · simp at he
  | received_bar _ => simp [arrival] at he

theorem InOrder.handled (h : j.InOrder size) (hcall : Handled j size call a' buffer start' passed) :
    (j.record call a').InOrder size := by
  have hp := hcall.passes
  have hbuffer : buffer = passed ++ a'.buffered_mpdus := hp.buffered
  have hrx : a'.rx_middle = j.agreement.rx_middle ++ passed := hp.rx_middle
  have hstart : position SEQNO_SPACE_SIZE j.start a'.win_start_b = start' := by
    rw [hp.win_start_b]
    exact position_of_mod hp.le hcall.near
  have hpos : ∀ m ∈ a'.buffered_mpdus, pos start' m = pos j.start m :=
    fun m hm => pos_advance hp.le (hp.after m hm)
  have hreceived : ∀ x ∈ buffer, (pos j.start x, x) ∈ j.received ++ j.arrival call := by
    intro x hx
    rcases hcall.origin x hx with hold | hnew
    · exact List.mem_append_left _ (h.buffered_received x hold)
    · exact List.mem_append_right _ hnew
  have hrecord : j.record call a' = ⟨a', start', j.received ++ j.arrival call,
      j.passed ++ passed.map fun m => (pos j.start m, m)⟩ := by
    rw [record, hstart, hrx, List.drop_left]
  have hplace : ∀ x ∈ buffer, (∃ y ∈ j.passed ++ passed.map fun m => (pos j.start m, m), y.1 = pos j.start x) ∨
      ∃ m ∈ a'.buffered_mpdus, pos start' m = pos j.start x := by
    intro x hx
    rw [hbuffer] at hx
    rcases List.mem_append.mp hx with hx | hx
    · exact .inl ⟨(pos j.start x, x), List.mem_append_right _ (List.mem_map.mpr ⟨x, hx, rfl⟩), rfl⟩
    · exact .inr ⟨x, hx, hpos x hx⟩
  rw [hrecord]
  constructor
  case win_size => exact hp.win_size_b.trans h.win_size
  case win_start => exact hp.win_start_b
  case scoreboard => exact hcall.scoreboard
  case sorted => exact hp.sorted hcall.sorted
  case inside => exact fun m hm => ⟨hcall.strict m hm, hcall.inside m hm⟩
  case buffered_received =>
    intro m hm
    show (pos start' m, m) ∈ _
    rw [hpos m hm]
    exact hreceived m (by rw [hbuffer]; exact List.mem_append_right _ hm)
  case numbered =>
    intro e he
    rcases List.mem_append.mp he with he | he
    · exact h.numbered e he
    · exact arrival_numbered he
  case passed_up => simp [h.passed_up, hrx, Function.comp_def]
  case passed_received =>
    intro e he
    rcases List.mem_append.mp he with he | he
    · exact List.mem_append_left _ (h.passed_received e he)
    · obtain ⟨m, hm, rfl⟩ := List.mem_map.mp he
      exact hreceived m (by rw [hbuffer]; exact List.mem_append_left _ hm)
  case increasing =>
    apply List.pairwise_append.mpr ⟨h.increasing, _, _⟩
    · have hsorted := hcall.sorted
      rw [hbuffer] at hsorted
      exact List.pairwise_map.mpr (List.pairwise_append.mp hsorted).1
    · intro e he x hx
      obtain ⟨m, -, rfl⟩ := List.mem_map.mp hx
      exact (h.behind e he).trans_le le_pos
  case behind =>
    intro e he
    rcases List.mem_append.mp he with he | he
    · exact (h.behind e he).trans_le hp.le
    · obtain ⟨m, hm, rfl⟩ := List.mem_map.mp he
      exact hp.before m hm
  case kept =>
    intro e he
    rcases List.mem_append.mp he with he | he
    · rcases h.kept e he with ⟨x, hx, heq⟩ | ⟨m, hm, heq⟩
      · exact .inl ⟨x, List.mem_append_left _ hx, heq⟩
      · rw [← heq]
        exact hplace m (hcall.stored m hm)
    · obtain ⟨x, hx, heq⟩ := hcall.arrived e he
      rw [← heq]
      exact hplace x hx

variable {m : WifiMpdu α}

/-- The agreement with an MPDU put into the buffer. -/
def store (s : RecipientBlockAckAgreement α) (scoreboard : BlockAckWindow) (m : WifiMpdu α) :
    RecipientBlockAckAgreement α :=
  { s with
    scoreboard
    buffered_mpdus := insert s.win_start_b m s.buffered_mpdus }

theorem handled_store (h : j.InOrder size) {w : BlockAckWindow} (hw : ∃ r, Tracks w size r fun _ => True)
    (hahead : pos j.start m < j.start + SEQNO_SPACE_HALF_SIZE)
    (hpasses : Passes (store j.agreement w m) a' j.start start' passed)
    (hstrict : ∀ x ∈ a'.buffered_mpdus, start' < pos start' x) (hin : pos j.start m < start' + size)
    (hnear : start' < j.start + SEQNO_SPACE_SIZE) :
    Handled j size (.received_mpdu m) a' (store j.agreement w m).buffered_mpdus start' passed := by
  have harrival : j.arrival (.received_mpdu m) = [(pos j.start m, m)] := if_pos hahead
  have hscore : a'.scoreboard = w := hpasses.scoreboard
  refine ⟨by rw [hscore]; exact hpasses, by rwa [hscore], ?_, fun x => mem_insert_of_mem, ?_, ?_, hstrict, ?_,
    hnear⟩
  · rw [store, h.win_start]
    exact sorted_insert h.sorted
  · intro x hx
    rw [harrival]
    rcases mem_insert hx with rfl | hx
    · exact .inr (by simp)
    · exact .inl hx
  · rw [harrival, store, h.win_start]
    simpa using exists_mem_insert j.start m j.agreement.buffered_mpdus
  · intro x hx
    have hmem : x ∈ (store j.agreement w m).buffered_mpdus := by
      rw [hpasses.buffered]
      exact List.mem_append_right _ hx
    have hle := hpasses.le
    rw [pos_advance hle (hpasses.after x hx)]
    rcases mem_insert hmem with rfl | hold
    · exact hin
    · have := (h.inside x hold).2
      omega

theorem handled_nothing (h : j.InOrder size) {w : BlockAckWindow} (hw : ∃ r, Tracks w size r fun _ => True)
    (harrival : j.arrival call = []) :
    Handled j size call { j.agreement with scoreboard := w } j.agreement.buffered_mpdus j.start [] where
  passes :=
    { le := le_rfl
      win_start_b := h.win_start
      win_size_b := rfl
      scoreboard := rfl
      buffered := rfl
      rx_middle := (List.append_nil _).symm
      before := by simp
      after := fun _ _ => le_pos }
  scoreboard := hw
  sorted := h.sorted
  stored _ hx := hx
  origin _ hx := .inl hx
  arrived := by simp [harrival]
  strict m hm := (h.inside m hm).1
  inside m hm := (h.inside m hm).2
  near := Nat.lt_add_of_pos_right (by decide)

theorem scoreboard_mark (hsize : 0 < size ∧ size ≤ SEQNO_SPACE_HALF_SIZE) {w : BlockAckWindow}
    (hw : ∃ r, Tracks w size r fun _ => True) (m : WifiMpdu α) :
    ∃ w', mark_received w m.sequence_number = some w' ∧ ∃ r, Tracks w' size r fun _ => True := by
  obtain ⟨r, htracks⟩ := hw
  rw [← pos_mod (b := r) (m := m)]
  by_cases hahead : pos r m < r + SEQNO_SPACE_HALF_SIZE
  · obtain ⟨w', r', heq, htracks', -⟩ := mark_received_spec htracks hsize.1 le_pos hahead trivial
    exact ⟨w', heq, r', htracks'⟩
  · exact ⟨w, mark_received_old htracks hsize.2 (by omega) pos_lt, r, htracks⟩

theorem scoreboard_bar (hsize : size ≤ SEQNO_SPACE_HALF_SIZE) {w : BlockAckWindow}
    (hw : ∃ r, Tracks w size r fun _ => True) {ssn : ℕ} (hssn : ssn < SEQNO_SPACE_SIZE) :
    ∃ w', move_start w ssn = some w' ∧ ∃ r, Tracks w' size r fun _ => True := by
  obtain ⟨r, htracks⟩ := hw
  rw [← position_mod (b := r) hssn]
  by_cases hahead : position SEQNO_SPACE_SIZE r ssn < r + SEQNO_SPACE_HALF_SIZE
  · obtain ⟨w', heq, htracks'⟩ := move_start_spec htracks le_position hahead
    exact ⟨w', heq, _, htracks'⟩
  · exact ⟨w, move_start_old htracks hsize (by omega) (position_lt (by decide)), r, htracks⟩

theorem start_of_window_ending_eq (hsn : size ≤ m.sequence_number + 1) (hpos : 0 < size) :
    start_of_window_ending m.sequence_number size = (pos start' m + 1 - size) % SEQNO_SPACE_SIZE := by
  have hmod := pos_mod (b := start') (m := m)
  have hlt := m.sequence_number_lt
  have hge := le_pos (b := start') (m := m)
  simp only [SEQNO_SPACE_SIZE] at hmod hlt ⊢
  rw [start_of_window_ending]
  omega

theorem handled_mpdu (h : j.InOrder size) (hsize : 0 < size ∧ size ≤ SEQNO_SPACE_HALF_SIZE)
    (hadmitted : ¬EndsBeforeZero j.agreement m) :
    ∃ a' buffer start' passed, j.agreement.notify_received_mpdu m = some a' ∧
      Handled j size (.received_mpdu m) a' buffer start' passed := by
  obtain ⟨w, hmark, hw⟩ := scoreboard_mark hsize h.scoreboard m
  have hhalf : SEQNO_SPACE_HALF_SIZE + SEQNO_SPACE_HALF_SIZE = SEQNO_SPACE_SIZE := by decide
  have hle := le_pos (b := j.start) (m := m)
  have hdist : get_distance m.sequence_number j.agreement.win_start_b = some (pos j.start m - j.start) := by
    rw [h.win_start, distance_eq]
  have hwin := h.win_size
  simp only [notify_received_mpdu, hmark, hdist, Option.bind_eq_bind, Option.bind_some]
  by_cases hahead : pos j.start m < j.start + SEQNO_SPACE_HALF_SIZE
  case neg =>
    have harrival : j.arrival (.received_mpdu m) = [] := if_neg hahead
    rw [if_neg (by omega), if_neg (by omega)]
    exact ⟨_, _, _, _, rfl, handled_nothing h hw harrival⟩
  case pos =>
    have hsorted : Sorted j.start (store j.agreement w m).buffered_mpdus := by
      rw [store, h.win_start]
      exact sorted_insert h.sorted
    have hnear : ∀ x ∈ (store j.agreement w m).buffered_mpdus,
        pos j.start x < j.start + SEQNO_SPACE_HALF_SIZE := by
      intro x hx
      rcases mem_insert hx with rfl | hx
      · exact hahead
      · have := (h.inside x hx).2
        omega
    by_cases hin : pos j.start m - j.start < size
    · rw [if_pos (by rwa [hwin])]
      obtain ⟨a', start', passed, heq, hpasses, hstrict, hbound⟩ :=
        until_first_lost_spec (s := store j.agreement w m) h.win_start hsorted hnear
      have hb := hbound (j.start + SEQNO_SPACE_HALF_SIZE) (by omega) hnear
      have hle' := hpasses.le
      exact ⟨a', _, start', passed, heq,
        handled_store h hw hahead hpasses hstrict (by omega) (by omega)⟩
    · have hadm : size ≤ m.sequence_number + 1 := by
        by_contra hsn
        have hd : distance SEQNO_SPACE_SIZE m.sequence_number j.agreement.win_start_b
            = pos j.start m - j.start := by
          rw [h.win_start, distance_eq_position]
          rfl
        exact hadmitted ⟨by omega, by omega, by omega⟩
      have hnew : start_of_window_ending m.sequence_number j.agreement.win_size_b
          = (pos j.start m + 1 - size) % SEQNO_SPACE_SIZE := by
        rw [hwin, start_of_window_ending_eq hadm hsize.1]
      rw [if_neg (by rwa [hwin]), if_pos (by omega), hnew]
      -- the window moves so that it ends with the MPDU, and then past the run it starts with
      obtain ⟨s₁, passed₁, heq₁, hpasses₁⟩ := less_than_spec (c := pos j.start m + 1 - size)
        (s := store j.agreement w m) h.win_start hsorted hnear (by omega) (by omega)
      have hnear₁ : ∀ x ∈ s₁.buffered_mpdus,
          pos (pos j.start m + 1 - size) x < j.start + SEQNO_SPACE_HALF_SIZE := by
        intro x hx
        rw [pos_advance hpasses₁.le (hpasses₁.after x hx)]
        exact hnear x (by rw [hpasses₁.buffered]; exact List.mem_append_right _ hx)
      have hle₁ := hpasses₁.le
      obtain ⟨a', start', passed, heq, hpasses, hstrict, hbound⟩ :=
        until_first_lost_spec hpasses₁.win_start_b (hpasses₁.sorted hsorted)
          (fun x hx => (hnear₁ x hx).trans_le (by omega))
      have hb := hbound (j.start + SEQNO_SPACE_HALF_SIZE) (by omega) hnear₁
      have hle' := hpasses.le
      refine ⟨a', _, start', passed₁ ++ passed, ?_,
        handled_store h hw hahead (hpasses₁.trans hpasses) hstrict (by omega) (by omega)⟩
      rw [store] at heq₁
      rw [heq₁, Option.bind_some, heq]

theorem handled_bar (h : j.InOrder size) (hsize : size ≤ SEQNO_SPACE_HALF_SIZE) (ssn : Fin SEQNO_SPACE_SIZE) :
    ∃ a' buffer start' passed, j.agreement.notify_received_bar ssn = some a' ∧
      Handled j size (.received_bar ssn) a' buffer start' passed := by
  obtain ⟨w, hmove, hw⟩ := scoreboard_bar hsize h.scoreboard ssn.isLt
  have hhalf : SEQNO_SPACE_HALF_SIZE + SEQNO_SPACE_HALF_SIZE = SEQNO_SPACE_SIZE := by decide
  obtain ⟨x, hx⟩ : ∃ x, position SEQNO_SPACE_SIZE j.start ssn = x := ⟨_, rfl⟩
  have hle : j.start ≤ x := hx ▸ le_position
  have hdist : get_distance ssn j.agreement.win_start_b = some (x - j.start) := by
    rw [h.win_start, BlockAckAgreement.get_distance_eq ssn.isLt mod_lt, distance_eq_position, hx]
  have harrival : j.arrival (.received_bar ssn) = [] := rfl
  simp only [notify_received_bar, hmove, hdist, Option.bind_eq_bind, Option.bind_some]
  by_cases hahead : 0 < x - j.start ∧ x - j.start < SEQNO_SPACE_HALF_SIZE
  case neg =>
    rw [if_neg hahead]
    exact ⟨_, _, _, _, rfl, handled_nothing h hw harrival⟩
  case pos =>
    have hnear : ∀ m ∈ j.agreement.buffered_mpdus, pos j.start m < j.start + SEQNO_SPACE_HALF_SIZE :=
      fun m hm => (h.inside m hm).2.trans_le (by omega)
    have hmod : (ssn : ℕ) = x % SEQNO_SPACE_SIZE := by rw [← hx, position_mod ssn.isLt]
    rw [if_pos hahead, hmod]
    obtain ⟨s₁, passed₁, heq₁, hpasses₁⟩ := less_than_spec (c := x)
      (s := { j.agreement with scoreboard := w }) h.win_start h.sorted hnear hle (by omega)
    have hnear₁ : ∀ m ∈ s₁.buffered_mpdus, pos x m < j.start + size := by
      intro m hm
      have hold : m ∈ j.agreement.buffered_mpdus := by
        have hbuffer : j.agreement.buffered_mpdus = passed₁ ++ s₁.buffered_mpdus := hpasses₁.buffered
        rw [hbuffer]
        exact List.mem_append_right _ hm
      rw [pos_advance hpasses₁.le (hpasses₁.after m hm)]
      exact (h.inside m hold).2
    obtain ⟨a', start', passed, heq, hpasses, hstrict, hbound⟩ :=
      until_first_lost_spec hpasses₁.win_start_b (hpasses₁.sorted h.sorted)
        (fun m hm => (hnear₁ m hm).trans_le (by omega))
    have hb := hbound (j.start + SEQNO_SPACE_HALF_SIZE) (by omega)
      (fun m hm => (hnear₁ m hm).trans_le (by omega))
    have htrans := hpasses₁.trans hpasses
    have hscore : a'.scoreboard = w := htrans.scoreboard
    refine ⟨a', j.agreement.buffered_mpdus, start', passed₁ ++ passed, ?_, by rw [hscore]; exact htrans,
      by rwa [hscore], h.sorted, fun _ hm => hm, fun _ hm => .inl hm, by simp [harrival], hstrict, ?_, by omega⟩
    · rw [heq₁, Option.bind_some, heq]
    · intro m hm
      have hle' := hpasses.le
      have hmem : m ∈ s₁.buffered_mpdus := by
        rw [hpasses.buffered]
        exact List.mem_append_right _ hm
      rw [pos_advance hle' (hpasses.after m hm)]
      have := hnear₁ m hmem
      omega

theorem EndsBeforeZero.fails (h : j.InOrder size) (hsize : 0 < size ∧ size ≤ SEQNO_SPACE_HALF_SIZE)
    (hm : EndsBeforeZero j.agreement m) : j.agreement.notify_received_mpdu m = none := by
  obtain ⟨w, hmark, -⟩ := scoreboard_mark hsize h.scoreboard m
  obtain ⟨hsize', hhalf, hsn⟩ := hm
  have hdist := BlockAckAgreement.get_distance_eq m.sequence_number_lt (h.win_start ▸ mod_lt : j.agreement.win_start_b < _)
  have hnew : SEQNO_SPACE_SIZE ≤ start_of_window_ending m.sequence_number j.agreement.win_size_b := by
    have hlt := m.sequence_number_lt
    have hwin := h.win_size
    simp only [SEQNO_SPACE_SIZE, SEQNO_SPACE_HALF_SIZE] at *
    rw [start_of_window_ending]
    omega
  simp only [notify_received_mpdu, hmark, hdist, Option.bind_eq_bind, Option.bind_some]
  obtain ⟨x, hx, -⟩ := exists_mem_insert j.start m j.agreement.buffered_mpdus
  rw [← h.win_start] at hx
  rw [if_neg (by omega), if_pos hhalf, less_than_none hnew (List.ne_nil_of_mem hx), Option.bind_none]

/-- Every call is handled, except for the MPDUs that move the window to a start before zero. -/
theorem run_isSome_iff (h : j.InOrder size) (hsize : 0 < size ∧ size ≤ SEQNO_SPACE_HALF_SIZE) :
    (run j.agreement call).isSome ↔ Admitted j call := by
  cases call with
  | received_mpdu m =>
    constructor
    · intro hsome hends
      rw [run, hends.fails h hsize] at hsome
      cases hsome
    · intro hadmitted
      obtain ⟨a', _, _, _, heq, -⟩ := handled_mpdu h hsize hadmitted
      rw [run, heq]
      rfl
  | received_bar ssn =>
    obtain ⟨a', _, _, _, heq, -⟩ := handled_bar h hsize.2 ssn
    exact ⟨fun _ => trivial, fun _ => by rw [run, heq]; rfl⟩

theorem InOrder.run (h : j.InOrder size) (hsize : 0 < size ∧ size ≤ SEQNO_SPACE_HALF_SIZE)
    (hrun : run j.agreement call = some a') : (j.record call a').InOrder size := by
  have hadmitted := (run_isSome_iff h hsize).mp (by rw [hrun]; rfl)
  cases call with
  | received_mpdu m =>
    obtain ⟨a'', _, _, _, heq, hhandled⟩ := handled_mpdu h hsize hadmitted
    cases hrun.symm.trans heq
    exact h.handled hhandled
  | received_bar ssn =>
    obtain ⟨a'', _, _, _, heq, hhandled⟩ := handled_bar h hsize.2 ssn
    cases hrun.symm.trans heq
    exact h.handled hhandled

theorem inOrder_initial (hstart : start' < SEQNO_SPACE_SIZE) : (initial (α := α) size start').InOrder size where
  win_size := rfl
  win_start := (Nat.mod_eq_of_lt hstart).symm
  scoreboard := ⟨start', BlockAckWindow.tracks_init hstart⟩
  sorted := List.Pairwise.nil
  inside := by simp [initial, create]
  buffered_received := by simp [initial, create]
  numbered := by simp [initial]
  passed_up := rfl
  passed_received := by simp [initial]
  increasing := List.Pairwise.nil
  behind := by simp [initial]
  kept := by simp [initial]

theorem reachable_inOrder (hstart : start' < SEQNO_SPACE_SIZE) (hsize : 0 < size ∧ size ≤ SEQNO_SPACE_HALF_SIZE)
    (hreach : Reachable (· = initial size start') step Admitted j) : j.InOrder size := by
  apply hreach.invariant
  · rintro _ rfl
    exact inOrder_initial hstart
  · intro j call j' h _ hstep
    obtain ⟨a', hrun, rfl⟩ := Option.map_eq_some_iff.mp hstep
    exact h.run hsize hrun

/-- A recipient of any buffer size up to half the sequence space keeps its MPDUs in order and passes
each up once, and no assertion fails, in every run in which no MPDU ahead of the window has a
number so small that the start of the window that ends with it lies before zero. The call
that brings such an MPDU fails. -/
theorem received_in_order (start size : ℕ) (hstart : start < SEQNO_SPACE_SIZE)
    (hsize : 0 < size ∧ size ≤ SEQNO_SPACE_HALF_SIZE) (j : Reordering α)
    (hreach : Reachable (· = initial size start) step Admitted j) :
    j.agreement.win_start_b < SEQNO_SPACE_SIZE ∧ j.InOrder size ∧
      ∀ call, (j.step call).isSome ↔ Admitted j call := by
  have hinv := reachable_inOrder hstart hsize hreach
  refine ⟨hinv.win_start ▸ mod_lt, hinv, fun call => ?_⟩
  rw [step, Option.isSome_map, run_isSome_iff hinv hsize]

namespace Sample

def mpdu (sequence_number : ℕ) (h : sequence_number < SEQNO_SPACE_SIZE := by decide) : WifiMpdu Unit where
  sequence_number := sequence_number
  packet := ()
  sequence_number_lt := h

/-- MPDUs out of order around the wrap, a late one, one far ahead and a block ack request. -/
def calls : List (Call Unit) :=
  [.received_mpdu (mpdu 4091), .received_mpdu (mpdu 4), .received_mpdu (mpdu 4090), .received_mpdu (mpdu 4089),
    .received_mpdu (mpdu 63), .received_bar ⟨10, by decide⟩]

end Sample

theorem received_in_order_sample : ∃ j : Reordering Unit,
    Reachable (· = initial 64 4090) step Admitted j ∧ j.passed.map (·.1) = [4090, 4091, 4100] ∧
      j.agreement.win_start_b < SEQNO_SPACE_SIZE ∧ j.InOrder 64 ∧
      ∀ call, (j.step call).isSome ↔ Admitted j call := by
  have hrun : (Transition.execute step Admitted (initial 64 4090) Sample.calls).map
      (fun j => j.passed.map (·.1)) = some [4090, 4091, 4100] := by decide +kernel
  obtain ⟨j, hj, hpassed⟩ := Option.map_eq_some_iff.mp hrun
  have hreach : Reachable (· = initial 64 4090) step Admitted j := Reachable.execute (.init rfl) hj
  exact ⟨j, hreach, hpassed, received_in_order 4090 64 (by decide) (by decide) j hreach⟩

/-- The sixteen bits of the new start are no sequence number when the window wraps. -/
theorem window_start_before_zero : SEQNO_SPACE_SIZE ≤ start_of_window_ending 60 64 ∧
    (initial 64 4090).step (.received_mpdu (Sample.mpdu 60)) = none := by decide +kernel

end Reordering

end Ns3.RecipientBlockAckAgreement
