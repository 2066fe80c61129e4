import Ns3.Wifi.RecipientBlockAckAgreement

namespace Ns3.RecipientBlockAckAgreement

open BlockAckAgreement (get_distance get_distance_eq get_distance_eq_none)
open SequenceSpace

variable {α : Type} {s s' : RecipientBlockAckAgreement α} {m x : WifiMpdu α}
  {l : List (WifiMpdu α)} {start start' : ℕ}

/-- The position of an MPDU, counted without wrap from a window start. -/
def pos (start : ℕ) (m : WifiMpdu α) : ℕ := position SEQNO_SPACE_SIZE start m.sequence_number

theorem le_pos {b : ℕ} : b ≤ pos b m := le_position

theorem pos_lt : pos start m < start + SEQNO_SPACE_SIZE := position_lt (by decide)

theorem pos_mod {b : ℕ} : pos b m % SEQNO_SPACE_SIZE = m.sequence_number := position_mod m.sequence_number_lt

theorem pos_advance (hle : start ≤ start') (h : start' ≤ pos start m) : pos start' m = pos start m :=
  position_advance m.sequence_number_lt hle h

theorem mod_lt : start % SEQNO_SPACE_SIZE < SEQNO_SPACE_SIZE := Nat.mod_lt _ (by decide)

theorem distance_eq : get_distance m.sequence_number (start % SEQNO_SPACE_SIZE) = some (pos start m - start) := by
  rw [get_distance_eq m.sequence_number_lt mod_lt, distance_eq_position]
  rfl

theorem compare_eq : compare (start % SEQNO_SPACE_SIZE) x.sequence_number m.sequence_number
    = decide (pos start x < pos start m) := by
  have hx : pos start x = start + (x.sequence_number + SEQNO_SPACE_SIZE - start % SEQNO_SPACE_SIZE)
      % SEQNO_SPACE_SIZE := rfl
  have hm : pos start m = start + (m.sequence_number + SEQNO_SPACE_SIZE - start % SEQNO_SPACE_SIZE)
      % SEQNO_SPACE_SIZE := rfl
  rw [compare, hx, hm]
  congr 1
  simp

/-- The buffer is in the order of the positions. -/
def Sorted (start : ℕ) (l : List (WifiMpdu α)) : Prop := l.Pairwise (pos start · < pos start ·)

theorem mem_insert (h : x ∈ insert start m l) : x = m ∨ x ∈ l := by
  induction l with
  | nil => simpa [insert] using h
  | cons y ys ih =>
    rw [insert] at h
    split_ifs at h
    · rcases List.mem_cons.mp h with rfl | h
      · simp
      · exact (ih h).imp_right (List.mem_cons_of_mem y)
    · simpa using h
    · exact .inr h

theorem mem_insert_of_mem (h : x ∈ l) : x ∈ insert start m l := by
  induction l with
  | nil => simp at h
  | cons y ys ih =>
    rw [insert]
    split_ifs
    · rcases List.mem_cons.mp h with rfl | h
      · simp
      · exact List.mem_cons_of_mem y (ih h)
    · exact List.mem_cons_of_mem m h
    · exact h

theorem exists_mem_insert (start : ℕ) (m : WifiMpdu α) (l : List (WifiMpdu α)) :
    ∃ x ∈ insert (start % SEQNO_SPACE_SIZE) m l, pos start x = pos start m := by
  induction l with
  | nil => exact ⟨m, by simp [insert], rfl⟩
  | cons y ys ih =>
    rw [insert, compare_eq, compare_eq]
    split_ifs with hym hmy
    · obtain ⟨x, hx, hpos⟩ := ih
      exact ⟨x, List.mem_cons_of_mem y hx, hpos⟩
    · exact ⟨m, by simp, rfl⟩
    · simp only [decide_eq_true_eq] at hym hmy
      exact ⟨y, by simp, by omega⟩

theorem sorted_insert (h : Sorted start l) : Sorted start (insert (start % SEQNO_SPACE_SIZE) m l) := by
  induction l with
  | nil => simp [insert, Sorted]
  | cons y ys ih =>
    obtain ⟨hy, hys⟩ := List.pairwise_cons.mp h
    rw [insert, compare_eq, compare_eq]
    split_ifs with hym hmy
    · simp only [decide_eq_true_eq] at hym
      apply List.pairwise_cons.mpr ⟨_, ih hys⟩
      intro x hx
      rcases mem_insert hx with rfl | hx
      · exact hym
      · exact hy x hx
    · simp only [decide_eq_true_eq] at hmy
      apply List.pairwise_cons.mpr ⟨_, h⟩
      intro x hx
      rcases List.mem_cons.mp hx with rfl | hx
      · exact hmy
      · exact hmy.trans (hy x hx)
    · exact h

theorem Sorted.advance (h : Sorted start l) (hle : start ≤ start') (hl : ∀ m ∈ l, start' ≤ pos start m) :
    Sorted start' l := by
  apply List.Pairwise.imp_of_mem _ h
  intro a b ha hb hab
  rwa [pos_advance hle (hl a ha), pos_advance hle (hl b hb)]

/-- The assertion holds when no MPDU of the buffer is half the space ahead. -/
theorem no_old_eq (hstart : s.win_start_b = start % SEQNO_SPACE_SIZE)
    (h : ∀ m ∈ s.buffered_mpdus, pos start m < start + SEQNO_SPACE_HALF_SIZE) : s.no_old = some () := by
  rw [no_old]
  cases hlast : s.buffered_mpdus.getLast? with
  | none => rfl
  | some last =>
    have hin := h last (List.mem_of_getLast? hlast)
    have hle := le_pos (b := start) (m := last)
    simp only [hstart, distance_eq, Option.bind_eq_bind, Option.bind_some]
    exact if_pos (by omega)

/-- What a move of the window does: it passes up a first part of the buffer, up to the new start. -/
structure Passes (s s' : RecipientBlockAckAgreement α) (start start' : ℕ) (passed : List (WifiMpdu α)) :
    Prop where
  le : start ≤ start'
  win_start_b : s'.win_start_b = start' % SEQNO_SPACE_SIZE
  win_size_b : s'.win_size_b = s.win_size_b
  scoreboard : s'.scoreboard = s.scoreboard
  buffered : s.buffered_mpdus = passed ++ s'.buffered_mpdus
  rx_middle : s'.rx_middle = s.rx_middle ++ passed
  before : ∀ m ∈ passed, pos start m < start'
  after : ∀ m ∈ s'.buffered_mpdus, start' ≤ pos start m

theorem Passes.trans {s'' : RecipientBlockAckAgreement α} {start'' : ℕ} {p q : List (WifiMpdu α)}
    (h : Passes s s' start start' p) (h' : Passes s' s'' start' start'' q) :
    Passes s s'' start start'' (p ++ q) where
  le := h.le.trans h'.le
  win_start_b := h'.win_start_b
  win_size_b := h'.win_size_b.trans h.win_size_b
  scoreboard := h'.scoreboard.trans h.scoreboard
  buffered := by rw [h.buffered, h'.buffered, List.append_assoc]
  rx_middle := by rw [h'.rx_middle, h.rx_middle, List.append_assoc]
  before m hm := by
    rcases List.mem_append.mp hm with hm | hm
    · exact (h.before m hm).trans_le h'.le
    · have hmem : m ∈ s'.buffered_mpdus := by rw [h'.buffered]; exact List.mem_append_left _ hm
      rw [← pos_advance h.le (h.after m hmem)]
      exact h'.before m hm
  after m hm := by
    have hmem : m ∈ s'.buffered_mpdus := by rw [h'.buffered]; exact List.mem_append_right _ hm
    rw [← pos_advance h.le (h.after m hmem)]
    exact h'.after m hm

theorem Passes.sorted {p : List (WifiMpdu α)} (h : Passes s s' start start' p)
    (hsorted : Sorted start s.buffered_mpdus) : Sorted start' s'.buffered_mpdus := by
  rw [h.buffered] at hsorted
  exact Sorted.advance (List.pairwise_append.mp hsorted).2.1 h.le h.after

theorem pass_run_spec (hstart : s.win_start_b = start % SEQNO_SPACE_SIZE) (hbuffer : s.buffered_mpdus = l)
    (hsorted : Sorted start l) :
    ∃ start' passed, Passes s (pass_run s l) start start' passed ∧
      (∀ m ∈ (pass_run s l).buffered_mpdus, start' < pos start' m) ∧
      ∀ bound, start ≤ bound → (∀ m ∈ l, pos start m < bound) → start' ≤ bound := by
  induction l generalizing s start with
  | nil =>
    exact ⟨start, [], by constructor <;> simp [pass_run, hstart, hbuffer], by simp [pass_run, hbuffer],
      fun bound h _ => h⟩
  | cons y ys ih =>
    obtain ⟨hy, hys⟩ := List.pairwise_cons.mp hsorted
    rw [pass_run]
    by_cases hfirst : y.sequence_number = s.win_start_b
    · have hpos : pos start y = start := by
        rw [pos, hfirst, hstart]
        exact position_self (by decide)
      have hahead : ∀ m ∈ ys, start + 1 ≤ pos start m := by
        intro m hm
        have := hy m hm
        omega
      have hhead : Passes s { s with
          rx_middle := s.rx_middle ++ [y]
          buffered_mpdus := ys
          win_start_b := (s.win_start_b + 1) % SEQNO_SPACE_SIZE } start (start + 1) [y] :=
        { le := by omega
          win_start_b := by rw [hstart]; exact Nat.mod_add_mod ..
          win_size_b := rfl
          scoreboard := rfl
          buffered := hbuffer
          rx_middle := rfl
          before := by simp [hpos]
          after := hahead }
      obtain ⟨start', passed, hpasses, hafter, hbound⟩ :=
        ih hhead.win_start_b rfl (Sorted.advance hys (by omega) hahead)
      rw [if_pos hfirst]
      refine ⟨start', y :: passed, hhead.trans hpasses, hafter, fun bound hle hl => ?_⟩
      have hlty := hl y (by simp)
      apply hbound bound (by omega)
      intro m hm
      rw [pos_advance (by omega) (hahead m hm)]
      exact hl m (by simp [hm])
    · rw [if_neg hfirst]
      have hne : start < pos start y := by
        apply lt_of_le_of_ne le_pos
        intro heq
        apply hfirst
        rw [hstart, heq, pos_mod]
      refine ⟨start, [], by constructor <;> simp [hstart, hbuffer, le_pos], fun m hm => ?_, fun bound h _ => h⟩
      rw [hbuffer] at hm
      rcases List.mem_cons.mp hm with rfl | hm
      · exact hne
      · exact hne.trans (hy m hm)

theorem until_first_lost_spec (hstart : s.win_start_b = start % SEQNO_SPACE_SIZE)
    (hsorted : Sorted start s.buffered_mpdus)
    (hnear : ∀ m ∈ s.buffered_mpdus, pos start m < start + SEQNO_SPACE_HALF_SIZE) :
    ∃ s' start' passed, s.pass_buffered_mpdus_until_first_lost = some s' ∧
      Passes s s' start start' passed ∧ (∀ m ∈ s'.buffered_mpdus, start' < pos start' m) ∧
      ∀ bound, start ≤ bound → (∀ m ∈ s.buffered_mpdus, pos start m < bound) → start' ≤ bound := by
  obtain ⟨start', passed, hpasses, hafter⟩ := pass_run_spec hstart rfl hsorted
  refine ⟨_, start', passed, ?_, hpasses, hafter⟩
  rw [pass_buffered_mpdus_until_first_lost, no_old_eq hstart hnear]
  rfl

theorem pass_less_spec (hstart : s.win_start_b = start % SEQNO_SPACE_SIZE) (hbuffer : s.buffered_mpdus = l)
    (hsorted : Sorted start l) (hle : start ≤ start') (hlt : start' < start + SEQNO_SPACE_SIZE) :
    ∃ s' passed, pass_less (start' % SEQNO_SPACE_SIZE) s l = some s' ∧
      Passes s { s' with win_start_b := start' % SEQNO_SPACE_SIZE } start start' passed := by
  induction l generalizing s with
  | nil => exact ⟨s, [], rfl, by constructor <;> simp [hle, hbuffer]⟩
  | cons y ys ih =>
    obtain ⟨hy, hys⟩ := List.pairwise_cons.mp hsorted
    have hnew : get_distance (start' % SEQNO_SPACE_SIZE) s.win_start_b = some (start' - start) := by
      rw [hstart, get_distance_eq mod_lt mod_lt, distance_mod hle hlt]
    have hdist : get_distance y.sequence_number s.win_start_b = some (pos start y - start) := by
      rw [hstart, distance_eq]
    have hley := le_pos (b := start) (m := y)
    simp only [pass_less, hnew, hdist, Option.bind_eq_bind, Option.bind_some]
    by_cases hbefore : pos start y < start'
    · rw [if_pos (by omega)]
      obtain ⟨s', passed, heq, hpasses⟩ :=
        ih (s := { s with rx_middle := s.rx_middle ++ [y], buffered_mpdus := ys }) hstart rfl hys
      refine ⟨s', y :: passed, heq, ?_⟩
      exact
        { le := hle
          win_start_b := rfl
          win_size_b := hpasses.win_size_b
          scoreboard := hpasses.scoreboard
          buffered := by rw [hbuffer, List.cons_append, ← hpasses.buffered]
          rx_middle := by rw [hpasses.rx_middle, List.append_assoc, List.singleton_append]
          before := by simpa [hbefore] using hpasses.before
          after := hpasses.after }
    · rw [if_neg (by omega)]
      refine ⟨s, [], rfl, ?_⟩
      constructor
      case after =>
        intro m hm
        simp only [hbuffer] at hm
        rcases List.mem_cons.mp hm with rfl | hm
        · omega
        · have := hy m hm
          omega
      all_goals simp [hle]

theorem less_than_spec {c : ℕ} (hstart : s.win_start_b = start % SEQNO_SPACE_SIZE)
    (hsorted : Sorted start s.buffered_mpdus)
    (hnear : ∀ m ∈ s.buffered_mpdus, pos start m < start + SEQNO_SPACE_HALF_SIZE)
    (hle : start ≤ c) (hlt : c < start + SEQNO_SPACE_SIZE) :
    ∃ s' passed, s.pass_buffered_mpdus_with_seq_number_less_than (c % SEQNO_SPACE_SIZE) = some s' ∧
      Passes s s' start c passed := by
  obtain ⟨s', passed, heq, hpasses⟩ := pass_less_spec hstart rfl hsorted hle hlt
  refine ⟨_, passed, ?_, hpasses⟩
  rw [pass_buffered_mpdus_with_seq_number_less_than, no_old_eq hstart hnear]
  simp [heq]

theorem less_than_none (hnew : SEQNO_SPACE_SIZE ≤ start') (hne : s.buffered_mpdus ≠ []) :
    s.pass_buffered_mpdus_with_seq_number_less_than start' = none := by
  obtain ⟨y, ys, hbuffer⟩ := List.exists_cons_of_ne_nil hne
  rw [pass_buffered_mpdus_with_seq_number_less_than, hbuffer, pass_less, get_distance_eq_none hnew]
  cases s.no_old with
  | none => rfl
  | some => cases get_distance y.sequence_number s.win_start_b <;> rfl

end Ns3.RecipientBlockAckAgreement
