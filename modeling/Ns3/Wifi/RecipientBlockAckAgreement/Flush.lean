import Ns3.Wifi.RecipientBlockAckAgreement.Verification

namespace Ns3.RecipientBlockAckAgreement

open SequenceSpace
open Transition (Reachable)

variable {α : Type} {s : RecipientBlockAckAgreement α} {l : List (WifiMpdu α)} {start size : ℕ}

/-- `Flush` passes up every MPDU of the buffer, each once and in the order of the window. -/
def FlushesAll (s : RecipientBlockAckAgreement α) (start : ℕ) : Prop :=
  ∃ s' passed, s.flush = some s' ∧ s'.rx_middle = s.rx_middle ++ passed ∧
    (∀ m, m ∈ passed ↔ m ∈ s.buffered_mpdus) ∧ passed.Pairwise (pos start · < pos start ·)

/-- No number is missing from the scoreboard's start up to an MPDU of the buffer. -/
def NoGapAhead (s : RecipientBlockAckAgreement α) : Prop :=
  ∀ m ∈ s.buffered_mpdus, ∀ sn < SEQNO_SPACE_SIZE,
    distance SEQNO_SPACE_SIZE s.scoreboard.win_start s.win_start_b
      ≤ distance SEQNO_SPACE_SIZE sn s.win_start_b →
    distance SEQNO_SPACE_SIZE sn s.win_start_b
      ≤ distance SEQNO_SPACE_SIZE m.sequence_number s.win_start_b →
    ∃ x ∈ s.buffered_mpdus, x.sequence_number = sn

/-- The run that is passed up is the whole buffer if no position before one of its MPDUs is missing. -/
theorem pass_run_empties_iff (hstart : s.win_start_b = start % SEQNO_SPACE_SIZE)
    (hbuffer : s.buffered_mpdus = l) (hsorted : Sorted start l) :
    (pass_run s l).buffered_mpdus = [] ↔
      ∀ m ∈ l, ∀ p, start ≤ p → p ≤ pos start m → ∃ x ∈ l, pos start x = p := by
  induction l generalizing s start with
  | nil => simp [pass_run, hbuffer]
  | cons y ys ih =>
    obtain ⟨hy, hys⟩ := List.pairwise_cons.mp hsorted
    rw [pass_run]
    by_cases hfirst : y.sequence_number = s.win_start_b
    · have hpos : pos start y = start := by
        rw [pos, hfirst, hstart]
        exact position_self (by decide)
      have hahead : ∀ m ∈ ys, start + 1 ≤ pos start m := by
        intro m hm
        have := hy m hm
        omega
      have hsame : ∀ m ∈ ys, pos (start + 1) m = pos start m := fun m hm =>
        pos_advance (by omega) (hahead m hm)
      have hnext : (s.win_start_b + 1) % SEQNO_SPACE_SIZE = (start + 1) % SEQNO_SPACE_SIZE := by
        rw [hstart]
        exact Nat.mod_add_mod ..
      rw [if_pos hfirst, ih hnext rfl (Sorted.advance hys (by omega) hahead)]
      constructor
      · intro h m hm p hle hp
        rcases hle.eq_or_lt with rfl | hlt
        · exact ⟨y, by simp, hpos⟩
        · obtain rfl | hm := List.mem_cons.mp hm
          · omega
          · obtain ⟨x, hx, heq⟩ := h m hm p hlt (by rwa [hsame m hm])
            exact ⟨x, List.mem_cons_of_mem y hx, by rwa [← hsame x hx]⟩
      · intro h m hm p hle hp
        obtain ⟨x, hx, heq⟩ := h m (List.mem_cons_of_mem y hm) p (by omega) (by rwa [← hsame m hm])
        obtain rfl | hx := List.mem_cons.mp hx
        · omega
        · exact ⟨x, hx, by rwa [hsame x hx]⟩
    · rw [if_neg hfirst, hbuffer]
      have hne : pos start y ≠ start := by
        intro heq
        apply hfirst
        rw [hstart, ← heq, pos_mod]
      have hle := le_pos (b := start) (m := y)
      refine iff_of_false (List.cons_ne_nil y ys) fun h => ?_
      obtain ⟨x, hx, heq⟩ := h y (by simp) start le_rfl hle
      obtain rfl | hx := List.mem_cons.mp hx
      · exact hne heq
      · have := hy x hx
        omega

/-- What is ahead of the scoreboard's start has no gap as numbers if it has none as positions. -/
theorem noGapAhead_iff (hstart : s.win_start_b = start % SEQNO_SPACE_SIZE) :
    s.NoGapAhead ↔ ∀ m ∈ s.buffered_mpdus, ∀ p, position SEQNO_SPACE_SIZE start s.scoreboard.win_start ≤ p →
      p ≤ pos start m → ∃ x ∈ s.buffered_mpdus, pos start x = p := by
  have hdist : ∀ a, distance SEQNO_SPACE_SIZE a s.win_start_b = position SEQNO_SPACE_SIZE start a - start := by
    intro a
    rw [hstart, distance_eq_position]
  have hfrom : ∀ a, start ≤ position SEQNO_SPACE_SIZE start a := fun a => le_position
  have hpos : ∀ m : WifiMpdu α, pos start m = position SEQNO_SPACE_SIZE start m.sequence_number := fun m => rfl
  have hscore := hfrom s.scoreboard.win_start
  constructor
  · intro h m hm p hle hp
    have hlt : pos start m < start + SEQNO_SPACE_SIZE := pos_lt
    have hp' : position SEQNO_SPACE_SIZE start (p % SEQNO_SPACE_SIZE) = p := position_of_mod (by omega) (by omega)
    obtain ⟨x, hx, heq⟩ := h m hm (p % SEQNO_SPACE_SIZE) mod_lt (by rw [hdist, hdist, hp']; omega)
      (by rw [hdist, hdist, hp', ← hpos]; omega)
    exact ⟨x, hx, by rw [hpos, heq, hp']⟩
  · intro h m hm sn hsn hle hp
    rw [hdist, hdist] at hle hp
    have hsnle := hfrom sn
    have hmle := hfrom m.sequence_number
    obtain ⟨x, hx, heq⟩ := h m hm (position SEQNO_SPACE_SIZE start sn) (by omega) (by rw [hpos]; omega)
    refine ⟨x, hx, ?_⟩
    rw [← pos_mod (b := start) (m := x), heq, position_mod hsn]

/-- `Flush` passes up a first part of the buffer, all of it if the rest of the buffer has no gap
from the scoreboard's start on. -/
theorem flush_spec (hstart : s.win_start_b = start % SEQNO_SPACE_SIZE) (hsorted : Sorted start s.buffered_mpdus)
    (hnear : ∀ m ∈ s.buffered_mpdus, pos start m < start + SEQNO_SPACE_HALF_SIZE)
    (hscore : s.scoreboard.win_start < SEQNO_SPACE_SIZE) :
    ∃ s' passed, s.flush = some s' ∧ s'.rx_middle = s.rx_middle ++ passed ∧
      s.buffered_mpdus = passed ++ s'.buffered_mpdus ∧ (s'.buffered_mpdus = [] ↔ s.NoGapAhead) := by
  obtain ⟨c, hc⟩ : ∃ c, c = position SEQNO_SPACE_SIZE start s.scoreboard.win_start := ⟨_, rfl⟩
  have hle : start ≤ c := hc ▸ le_position
  have hlt : c < start + SEQNO_SPACE_SIZE := hc ▸ position_lt (by decide)
  have hmod : s.scoreboard.win_start = c % SEQNO_SPACE_SIZE := by rw [hc, position_mod hscore]
  obtain ⟨s₁, passed₁, heq₁, hpasses⟩ := less_than_spec hstart hsorted hnear hle hlt
  have hmem : ∀ m ∈ s₁.buffered_mpdus, m ∈ s.buffered_mpdus := fun m hm => by
    rw [hpasses.buffered]
    exact List.mem_append_right _ hm
  have hsame : ∀ m ∈ s₁.buffered_mpdus, pos c m = pos start m := fun m hm =>
    pos_advance hle (hpasses.after m hm)
  have hsorted₁ := hpasses.sorted hsorted
  have hnear₁ : ∀ m ∈ s₁.buffered_mpdus, pos c m < c + SEQNO_SPACE_HALF_SIZE := by
    intro m hm
    rw [hsame m hm]
    have := hnear m (hmem m hm)
    omega
  obtain ⟨s', start', passed, heq, hpasses', -⟩ := until_first_lost_spec hpasses.win_start_b hsorted₁ hnear₁
  have hflush : s.flush = some s' := by
    rw [flush, hmod, heq₁]
    exact heq
  have htrans := hpasses.trans hpasses'
  refine ⟨s', passed₁ ++ passed, hflush, htrans.rx_middle, htrans.buffered, ?_⟩
  have hrun : s' = pass_run s₁ s₁.buffered_mpdus := by
    rw [pass_buffered_mpdus_until_first_lost, no_old_eq hpasses.win_start_b hnear₁] at heq
    exact (Option.some.inj heq).symm
  rw [hrun, pass_run_empties_iff hpasses.win_start_b rfl hsorted₁, noGapAhead_iff hstart, ← hc]
  -- what is left for the run are the MPDUs from the scoreboard's start on
  have hrest : ∀ m ∈ s.buffered_mpdus, c ≤ pos start m → m ∈ s₁.buffered_mpdus := by
    intro m hm hpos
    rw [hpasses.buffered] at hm
    refine (List.mem_append.mp hm).resolve_left fun hpassed => ?_
    have := hpasses.before m hpassed
    omega
  constructor
  · intro h m hm p hle' hp
    have hm₁ := hrest m hm (by omega)
    obtain ⟨x, hx, hpos⟩ := h m hm₁ p hle' (by rwa [hsame m hm₁])
    exact ⟨x, hmem x hx, by rw [← hsame x hx, hpos]⟩
  · intro h m hm p hle' hp
    obtain ⟨x, hx, hpos⟩ := h m (hmem m hm) p hle' (by rwa [← hsame m hm])
    have hx₁ := hrest x hx (by omega)
    exact ⟨x, hx₁, by rw [hsame x hx₁, hpos]⟩

namespace Reordering

/-- In every run in which no window start lies before zero, `Flush` passes up all MPDUs of the
buffer exactly if none of them is behind a gap that starts at or after the scoreboard's start. -/
theorem flush_passes_all_iff (hstart : start < SEQNO_SPACE_SIZE)
    (hsize : 0 < size ∧ size ≤ SEQNO_SPACE_HALF_SIZE) {j : Reordering α}
    (hreach : Reachable (· = initial size start) step Admitted j) :
    FlushesAll j.agreement j.start ↔ NoGapAhead j.agreement := by
  have hinv := reachable_inOrder hstart hsize hreach
  obtain ⟨r, htracks⟩ := hinv.scoreboard
  have hnear : ∀ m ∈ j.agreement.buffered_mpdus, pos j.start m < j.start + SEQNO_SPACE_HALF_SIZE :=
    fun m hm => (hinv.inside m hm).2.trans_le (by omega)
  obtain ⟨s', passed, hflush, hrx, hbuffer, hempty⟩ :=
    flush_spec hinv.win_start hinv.sorted hnear (htracks.start_eq ▸ mod_lt)
  rw [← hempty]
  have hsorted := hinv.sorted
  rw [Sorted, hbuffer] at hsorted
  constructor
  · rintro ⟨s'', passed', hflush', hrx', hall, -⟩
    obtain rfl : s' = s'' := Option.some.inj (hflush.symm.trans hflush')
    obtain rfl : passed = passed' := List.append_cancel_left (hrx.symm.trans hrx')
    apply List.eq_nil_iff_forall_not_mem.mpr
    intro m hm
    have hmem : m ∈ passed := (hall m).mpr (by rw [hbuffer]; exact List.mem_append_right _ hm)
    exact absurd ((List.pairwise_append.mp hsorted).2.2 m hmem m hm) (lt_irrefl _)
  · intro hnil
    rw [hnil, List.append_nil] at hbuffer hsorted
    exact ⟨s', passed, hflush, hrx, fun m => by rw [hbuffer], hsorted⟩

theorem flush_passes_all_sample : ∃ j : Reordering Unit,
    Reachable (· = initial 64 4094) step Admitted j ∧ j.agreement.buffered_mpdus = [Sample.mpdu 0] ∧
      (FlushesAll j.agreement j.start ↔ NoGapAhead j.agreement) := by
  have hrun : (Transition.execute step Admitted (initial 64 4094) [.received_mpdu (Sample.mpdu 4094), .received_mpdu (Sample.mpdu 0)]).map
      (fun j => j.agreement.buffered_mpdus) = some [Sample.mpdu 0] := by decide +kernel
  obtain ⟨j, hj, hbuffer⟩ := Option.map_eq_some_iff.mp hrun
  have hreach : Reachable (· = initial 64 4094) step Admitted j := Reachable.execute (.init rfl) hj
  exact ⟨j, hreach, hbuffer, flush_passes_all_iff (by decide) (by decide) hreach⟩

/-- An MPDU behind a gap at the window start stays in the buffer and is destroyed with it. -/
theorem flush_leaves_mpdu : ∃ j : Reordering Unit,
    Reachable (· = initial 64 4094) step Admitted j ∧ j.agreement.buffered_mpdus = [Sample.mpdu 0] ∧
      ¬ FlushesAll j.agreement j.start := by
  have hrun : (Transition.execute step Admitted (initial 64 4094) [.received_mpdu (Sample.mpdu 0)]).map
      (fun j => (j.agreement.buffered_mpdus, j.agreement.rx_middle, j.agreement.flush.map (·.rx_middle))) =
        some ([Sample.mpdu 0], [], some []) := by decide +kernel
  obtain ⟨j, hj, hfacts⟩ := Option.map_eq_some_iff.mp hrun
  simp only [Prod.mk.injEq] at hfacts
  obtain ⟨hbuffer, hrx, hflush⟩ := hfacts
  refine ⟨j, Reachable.execute (.init rfl) hj, hbuffer, ?_⟩
  rintro ⟨s', passed, hflush', hpassed, hall, -⟩
  rw [hflush', Option.map_some, Option.some.injEq, hpassed, hrx] at hflush
  have hmem := (hall (Sample.mpdu 0)).mpr (by simp [hbuffer])
  rw [List.nil_append] at hflush
  simp [hflush] at hmem

end Reordering

end Ns3.RecipientBlockAckAgreement
