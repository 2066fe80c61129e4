import Ns3.Wifi.BlockAckManager

namespace Ns3.BlockAckManager

open BlockAckAgreement (get_distance get_distance_eq)
open BlockAckWindow (Tracks)
open SequenceSpace

variable {α : Type} {s s' : BlockAckManager α} {m x y : WifiMpdu α} {l : List (WifiMpdu α)}
  {start start' top size : ℕ} {a a' : OriginatorBlockAckAgreement} {P : ℕ → Prop}

/-- The position of an MPDU less than half the space from a start, counted one round later. -/
def rank (start : ℕ) (m : WifiMpdu α) : ℕ :=
  position SEQNO_SPACE_SIZE (start + SEQNO_SPACE_HALF_SIZE) m.sequence_number

theorem half_add_half : SEQNO_SPACE_HALF_SIZE + SEQNO_SPACE_HALF_SIZE = SEQNO_SPACE_SIZE := by decide

theorem le_rank {b : ℕ} : b + SEQNO_SPACE_HALF_SIZE ≤ rank b m := le_position

theorem rank_lt {b : ℕ} : rank b m < b + SEQNO_SPACE_HALF_SIZE + SEQNO_SPACE_SIZE := position_lt (by decide)

theorem rank_mod {b : ℕ} : rank b m % SEQNO_SPACE_SIZE = m.sequence_number := position_mod m.sequence_number_lt

/-- The rank does not depend on the start while the start is near. -/
theorem rank_advance (hle : start ≤ start') (h : start' + SEQNO_SPACE_HALF_SIZE ≤ rank start m) :
    rank start' m = rank start m := position_advance m.sequence_number_lt (by omega) h

theorem rank_eq_of_sequence_number {b : ℕ} (h : x.sequence_number = y.sequence_number) : rank b x = rank b y := by
  rw [rank, rank, h]

theorem sequence_number_eq_of_rank (h : rank start x = rank start y) : x.sequence_number = y.sequence_number := by
  rw [← rank_mod (b := start) (m := x), h, rank_mod]

theorem distance_ahead (h : start + SEQNO_SPACE_SIZE ≤ rank start m) :
    distance SEQNO_SPACE_SIZE m.sequence_number (start % SEQNO_SPACE_SIZE)
      = rank start m - (start + SEQNO_SPACE_SIZE) := by
  have hhalf := half_add_half
  have hlt := rank_lt (b := start) (m := m)
  have hmod : m.sequence_number = (rank start m - SEQNO_SPACE_SIZE) % SEQNO_SPACE_SIZE := by
    rw [← Nat.mod_eq_sub_mod (by omega), rank_mod]
  rw [hmod, distance_mod (by omega) (by omega)]
  omega

theorem distance_behind (h : rank start m < start + SEQNO_SPACE_SIZE) :
    distance SEQNO_SPACE_SIZE m.sequence_number (start % SEQNO_SPACE_SIZE) = rank start m - start := by
  have hle := le_rank (b := start) (m := m)
  rw [← rank_mod (b := start) (m := m), distance_mod (by omega) (by omega)]

theorem is_old_iff {b : ℕ} : SEQNO_SPACE_HALF_SIZE ≤ distance SEQNO_SPACE_SIZE m.sequence_number (b % SEQNO_SPACE_SIZE)
    ↔ rank b m < b + SEQNO_SPACE_SIZE := by
  have hhalf := half_add_half
  have hle := le_rank (b := b) (m := m)
  have hlt := rank_lt (b := b) (m := m)
  by_cases h : rank b m < b + SEQNO_SPACE_SIZE
  · rw [distance_behind h]
    omega
  · rw [distance_ahead (by omega)]
    omega

/-- The order of the queue: by position, and by fragment for one position. -/
def Precedes (start : ℕ) (x y : WifiMpdu α) : Prop :=
  rank start x < rank start y ∨ rank start x = rank start y ∧ x.fragment_number < y.fragment_number

/-- The order that the scan tests, on distances from the start. -/
def Nearer (start : ℕ) (x y : WifiMpdu α) : Prop :=
  distance SEQNO_SPACE_SIZE x.sequence_number start < distance SEQNO_SPACE_SIZE y.sequence_number start ∨
    distance SEQNO_SPACE_SIZE x.sequence_number start = distance SEQNO_SPACE_SIZE y.sequence_number start ∧
      x.fragment_number < y.fragment_number

theorem Precedes.trans {z : WifiMpdu α} (h : Precedes start x y) (h' : Precedes start y z) :
    Precedes start x z := by
  rw [Precedes] at *
  omega

theorem Precedes.rank_le (h : Precedes start x y) : rank start x ≤ rank start y := by
  rcases h with h | h <;> omega

theorem Precedes.advance (h : Precedes start x y) (hle : start ≤ start')
    (hx : start' + SEQNO_SPACE_HALF_SIZE ≤ rank start x) : Precedes start' x y := by
  have hy := h.rank_le
  rwa [Precedes, rank_advance hle hx, rank_advance hle (by omega)]

theorem nearer_iff (hx : start + SEQNO_SPACE_SIZE ≤ rank start x) (hy : start + SEQNO_SPACE_SIZE ≤ rank start y) :
    Nearer (start % SEQNO_SPACE_SIZE) x y ↔ Precedes start x y := by
  rw [Nearer, Precedes, distance_ahead hx, distance_ahead hy]
  omega

theorem Nearer.ahead (h : Nearer (start % SEQNO_SPACE_SIZE) x y) (hy : start + SEQNO_SPACE_SIZE ≤ rank start y) :
    start + SEQNO_SPACE_SIZE ≤ rank start x := by
  by_contra hx
  have hold := (is_old_iff (b := start) (m := x)).mpr (by omega)
  have hyold := mt (is_old_iff (b := start) (m := y)).mp (by omega)
  rcases h with h | h <;> omega

theorem sequence_control_inj (h : x.sequence_control = y.sequence_control) :
    x.sequence_number = y.sequence_number ∧ x.fragment_number = y.fragment_number := by
  have hx := x.fragment_number_lt
  have hy := y.fragment_number_lt
  simp only [WifiMpdu.sequence_control] at h
  omega

theorem sequence_control_eq (h : x.sequence_number = y.sequence_number)
    (hf : x.fragment_number = y.fragment_number) : x.sequence_control = y.sequence_control := by
  rw [WifiMpdu.sequence_control, h, hf, WifiMpdu.sequence_control]

theorem precedes_of_not (hne : x.sequence_control ≠ y.sequence_control) (h : ¬Precedes start x y) :
    Precedes start y x := by
  rw [Precedes] at h ⊢
  by_contra hnot
  have hrank : rank start x = rank start y := by omega
  exact hne (sequence_control_eq (sequence_number_eq_of_rank hrank) (by omega))

theorem scan_spec (start : ℕ) (m : WifiMpdu α) (l : List (WifiMpdu α)) :
    (∃ x ∈ l, m.sequence_control = x.sequence_control) ∧
        scan (start % SEQNO_SPACE_SIZE)
          (distance SEQNO_SPACE_SIZE m.sequence_number (start % SEQNO_SPACE_SIZE)) m l = some .present ∨
      ∃ after before, l = after ++ before ∧
        scan (start % SEQNO_SPACE_SIZE)
            (distance SEQNO_SPACE_SIZE m.sequence_number (start % SEQNO_SPACE_SIZE)) m l
          = some (.insert (after ++ m :: before)) ∧
        (∀ x ∈ after, m.sequence_control ≠ x.sequence_control ∧ ¬Nearer (start % SEQNO_SPACE_SIZE) x m) ∧
        ∀ x ∈ before.head?, Nearer (start % SEQNO_SPACE_SIZE) x m := by
  induction l with
  | nil => exact .inr ⟨[], [], rfl, rfl, by simp, by simp⟩
  | cons y ys ih =>
    have hdist := get_distance_eq y.sequence_number_lt
      (Nat.mod_lt start (by decide) : start % SEQNO_SPACE_SIZE < SEQNO_SPACE_SIZE)
    by_cases hsame : m.sequence_control = y.sequence_control
    · exact .inl ⟨⟨y, by simp, hsame⟩, by rw [scan, if_pos hsame]⟩
    · rw [scan, if_neg hsame]
      simp only [hdist, Option.bind_eq_bind, Option.bind_some]
      by_cases hnear : Nearer (start % SEQNO_SPACE_SIZE) y m
      · have hcond := hnear
        rw [Nearer] at hcond
        refine .inr ⟨[], y :: ys, rfl, ?_, by simp, by simpa using hnear⟩
        rw [if_pos (by omega)]
        rfl
      · have hcond := hnear
        rw [Nearer] at hcond
        rw [if_neg (by omega)]
        rcases ih with ⟨⟨x, hx, hxm⟩, heq⟩ | ⟨after, before, hl, heq, hafter, hbefore⟩
        · exact .inl ⟨⟨x, List.mem_cons_of_mem y hx, hxm⟩, by rw [heq]; rfl⟩
        · refine .inr ⟨y :: after, before, by rw [hl]; rfl, by rw [heq]; rfl, ?_, hbefore⟩
          intro x hx
          rcases List.mem_cons.mp hx with rfl | hx
          · exact ⟨hsame, hnear⟩
          · exact hafter x hx

/-- The queue of an agreement over a run. The window starts at a position, `top` is past every
position that was stored, and no MPDU in flight is half the space behind it. -/
structure Ordered (s : BlockAckManager α) (size start top : ℕ) : Prop where
  tracks : Tracks s.agreement.tx_window size start (· < top)
  start_le : start ≤ top
  top_le : top ≤ start + size
  sorted : s.in_flight.Pairwise (Precedes start)
  above : ∀ m ∈ s.in_flight, top + SEQNO_SPACE_HALF_SIZE ≤ rank start m
  below : ∀ m ∈ s.in_flight, rank start m < top + SEQNO_SPACE_SIZE

theorem Ordered.win_start (h : s.Ordered size start top) :
    s.agreement.tx_window.win_start = start % SEQNO_SPACE_SIZE := h.tracks.start_eq

/-- The queue keeps its order when the window moves and MPDUs leave it. -/
theorem Ordered.shrink (h : s.Ordered size start top) (htracks : Tracks s'.agreement.tx_window size start' (· < top))
    (hle : start ≤ start') (hstart : start' ≤ top) (hsub : s'.in_flight.Sublist s.in_flight) :
    s'.Ordered size start' top := by
  have hrank : ∀ m ∈ s'.in_flight, rank start' m = rank start m := by
    intro m hm
    have := h.above m (hsub.subset hm)
    exact rank_advance hle (by omega)
  have htop := h.top_le
  refine ⟨htracks, hstart, by omega, ?_, fun m hm => ?_, fun m hm => ?_⟩
  · apply List.Pairwise.imp_of_mem _ (h.sorted.sublist hsub)
    intro x y hx hy hxy
    have := h.above x (hsub.subset hx)
    exact hxy.advance hle (by omega)
  · rw [hrank m hm]
    exact h.above m (hsub.subset hm)
  · rw [hrank m hm]
    exact h.below m (hsub.subset hm)

theorem distance_to_eq (htracks : Tracks a.tx_window size start P) :
    a.distance_to m.sequence_number
      = some (distance SEQNO_SPACE_SIZE m.sequence_number (start % SEQNO_SPACE_SIZE)) := by
  rw [OriginatorBlockAckAgreement.distance_to, htracks.start_eq,
    get_distance_eq m.sequence_number_lt (Nat.mod_lt _ (by decide))]

theorem handle_all_sublist {status : WifiMpdu α → MpduStatus} {l' : List (WifiMpdu α)}
    (h : s.handle_all status l = some l') : l'.Sublist l := by
  induction l generalizing l' with
  | nil =>
    cases h
    exact List.Sublist.refl _
  | cons x xs ih =>
    rw [handle_all] at h
    obtain ⟨stays, -, h⟩ := Option.bind_eq_some_iff.mp h
    obtain ⟨xs', hxs, h⟩ := Option.bind_eq_some_iff.mp h
    cases stays <;> cases h
    · exact (ih hxs).cons x
    · exact (ih hxs).cons_cons x

theorem handle_first_sublist {status : MpduStatus} {n : ℕ} {l' : List (WifiMpdu α)}
    (h : s.handle_first n status l = some l') : l'.Sublist l := by
  induction l generalizing l' with
  | nil =>
    cases h
    exact List.Sublist.refl _
  | cons x xs ih =>
    rw [handle_first] at h
    split at h
    · obtain ⟨stays, -, h⟩ := Option.bind_eq_some_iff.mp h
      cases stays <;> cases h
      · exact List.sublist_cons_self x xs
      · exact List.Sublist.refl _
    · obtain ⟨xs', hxs, h⟩ := Option.bind_eq_some_iff.mp h
      cases h
      exact (ih hxs).cons_cons x

/-- An MPDU is older than the starting sequence number. -/
def IsOld (s : BlockAckManager α) (m : WifiMpdu α) : Prop :=
  SEQNO_SPACE_HALF_SIZE ≤ distance SEQNO_SPACE_SIZE m.sequence_number s.agreement.tx_window.win_start

/-- An MPDU is less than half the space ahead of every old MPDU in flight. -/
def IsNear (s : BlockAckManager α) (m : WifiMpdu α) : Prop :=
  ∀ y ∈ s.in_flight, s.IsOld y →
    distance SEQNO_SPACE_SIZE m.sequence_number y.sequence_number < SEQNO_SPACE_HALF_SIZE

/-- The scan for the place of an MPDU does not meet an old one: none is in flight, or one
that is not old comes before the MPDU. -/
def ScanMeetsNoOld (s : BlockAckManager α) (m : WifiMpdu α) : Prop :=
  (∃ y ∈ s.in_flight, s.IsOld y) →
    ∃ x ∈ s.in_flight, ¬s.IsOld x ∧ Nearer s.agreement.tx_window.win_start x m

instance (start : ℕ) (x y : WifiMpdu α) : Decidable (Nearer start x y) := inferInstanceAs (Decidable (_ ∨ _))

instance (s : BlockAckManager α) (m : WifiMpdu α) : Decidable (s.IsOld m) := inferInstanceAs (Decidable (_ ≤ _))

instance (s : BlockAckManager α) (m : WifiMpdu α) : Decidable (s.IsNear m) :=
  inferInstanceAs (Decidable (∀ _ ∈ _, _ → _))

instance (s : BlockAckManager α) (m : WifiMpdu α) : Decidable (s.ScanMeetsNoOld m) :=
  inferInstanceAs (Decidable ((∃ _ ∈ _, _) → ∃ _ ∈ _, _))

theorem Ordered.isOld_iff (h : s.Ordered size start top) :
    s.IsOld m ↔ rank start m < start + SEQNO_SPACE_SIZE := by
  rw [IsOld, h.win_start, is_old_iff]

theorem Ordered.near (h : s.Ordered size start top) (hm : ¬s.IsOld m) (hnear : s.IsNear m)
    (hy : y ∈ s.in_flight) : rank start m < rank start y + SEQNO_SPACE_HALF_SIZE := by
  have hhalf := half_add_half
  have hlt := rank_lt (b := start) (m := m)
  rw [h.isOld_iff] at hm
  by_cases hold : s.IsOld y
  · have hdist := hnear y hy hold
    rw [h.isOld_iff] at hold
    have hle := le_rank (b := start) (m := y)
    rw [← rank_mod (b := start) (m := m), ← rank_mod (b := start) (m := y),
      distance_mod (by omega) (by omega)] at hdist
    omega
  · rw [h.isOld_iff] at hold
    omega

theorem Ordered.position_eq (h : s.Ordered size start top) (hm : ¬s.IsOld m) :
    ∃ x, rank start m = x + SEQNO_SPACE_SIZE ∧ start ≤ x ∧ x < start + SEQNO_SPACE_HALF_SIZE ∧
      m.sequence_number = x % SEQNO_SPACE_SIZE := by
  have hlt := rank_lt (b := start) (m := m)
  rw [h.isOld_iff] at hm
  refine ⟨rank start m - SEQNO_SPACE_SIZE, by omega, by omega, by omega, ?_⟩
  rw [← Nat.mod_eq_sub_mod (by omega), rank_mod]

theorem Precedes.ne (h : Precedes start x y) : x.sequence_control ≠ y.sequence_control := by
  intro heq
  obtain ⟨hnum, hfrag⟩ := sequence_control_inj heq
  have hrank := rank_eq_of_sequence_number (b := start) hnum
  rw [Precedes] at h
  omega

theorem Ordered.before_precedes (h : s.Ordered size start top) (hm : ¬s.IsOld m)
    {after before : List (WifiMpdu α)} (hqueue : s.in_flight = before.reverse ++ after.reverse)
    (hbefore : ∀ x ∈ before.head?, Nearer (start % SEQNO_SPACE_SIZE) x m) :
    ∀ x ∈ before, Precedes start x m := by
  rw [h.isOld_iff, not_lt] at hm
  cases before with
  | nil => simp
  | cons z zs =>
    have hz := hbefore z rfl
    have hzm := (nearer_iff (hz.ahead hm) hm).mp hz
    have hsorted := h.sorted
    rw [hqueue, List.reverse_cons, List.pairwise_append, List.pairwise_append] at hsorted
    intro x hx
    rcases List.mem_cons.mp hx with rfl | hx
    · exact hzm
    · exact (hsorted.1.2.2 x (List.mem_reverse.mpr hx) z (by simp)).trans hzm

theorem Ordered.sorted_insert (h : s.Ordered size start top) (hm : ¬s.IsOld m) (hscan : s.ScanMeetsNoOld m)
    {after before : List (WifiMpdu α)} (hqueue : s.in_flight = before.reverse ++ after.reverse)
    (hafter : ∀ x ∈ after, m.sequence_control ≠ x.sequence_control ∧ ¬Nearer (start % SEQNO_SPACE_SIZE) x m)
    (hbefore : ∀ x ∈ before.head?, Nearer (start % SEQNO_SPACE_SIZE) x m) :
    (after ++ m :: before).reverse.Pairwise (Precedes start) := by
  have hmb := h.before_precedes hm hqueue hbefore
  have hsorted := h.sorted
  rw [hqueue, List.pairwise_append] at hsorted
  obtain ⟨hb, ha, hba⟩ := hsorted
  have hmrank := hm
  rw [h.isOld_iff, not_lt] at hmrank
  have hahead : ∀ x ∈ after, start + SEQNO_SPACE_SIZE ≤ rank start x := by
    intro x hx
    have hxin : x ∈ s.in_flight := by simp [hqueue, hx]
    cases before with
    | nil =>
      by_contra hold
      obtain ⟨y, hy, -, hnear⟩ := hscan ⟨x, hxin, h.isOld_iff.mpr (by omega)⟩
      rw [h.win_start] at hnear
      exact (hafter y (by simpa [hqueue] using hy)).2 hnear
    | cons z zs =>
      have hz := (hbefore z rfl).ahead hmrank
      have := (hba z (by simp) x (by simpa using hx)).rank_le
      omega
  have hma : ∀ x ∈ after, Precedes start m x := by
    intro x hx
    obtain ⟨hne, hnot⟩ := hafter x hx
    rw [nearer_iff (hahead x hx) hmrank] at hnot
    exact precedes_of_not hne.symm hnot
  rw [List.reverse_append, List.reverse_cons, List.append_assoc, List.singleton_append, List.pairwise_append]
  refine ⟨hb, List.pairwise_cons.mpr ⟨fun x hx => hma x (by simpa using hx), ha⟩, fun x hx y hy => ?_⟩
  rcases List.mem_cons.mp hy with rfl | hy
  · exact hmb x (by simpa using hx)
  · exact hba x hx y hy

theorem Ordered.store_packet (h : s.Ordered size start top) (hsize : 0 < size ∧ size ≤ SEQNO_SPACE_HALF_SIZE)
    (m : WifiMpdu α)
    (hm : ¬s.IsOld m → (∀ x ∈ s.in_flight, x.sequence_control ≠ m.sequence_control) →
      s.ScanMeetsNoOld m ∧ s.IsNear m) :
    ∃ s' start' top', s.store_packet m = some s' ∧ s'.Ordered size start' top' := by
  have hhalf := half_add_half
  by_cases hold : s.IsOld m
  · refine ⟨s, start, top, ?_, h⟩
    rw [IsOld, h.win_start] at hold
    rw [BlockAckManager.store_packet, distance_to_eq h.tracks, Option.bind_eq_bind, Option.bind_some, if_pos hold]
    rfl
  · have hdist := hold
    rw [IsOld, h.win_start] at hdist
    rw [BlockAckManager.store_packet, distance_to_eq h.tracks, Option.bind_eq_bind, Option.bind_some,
      if_neg hdist, h.win_start]
    rcases scan_spec start m s.in_flight.reverse with ⟨-, heq⟩ | ⟨after, before, hqueue, heq, hafter, hbefore⟩
    · exact ⟨s, start, top, by rw [heq]; rfl, h⟩
    · have hlist : s.in_flight = before.reverse ++ after.reverse := by
        rw [← List.reverse_append, ← hqueue, List.reverse_reverse]
      obtain ⟨hscan, hnear⟩ := hm hold fun x hx => by
        rw [hlist, List.mem_append, List.mem_reverse, List.mem_reverse] at hx
        rcases hx with hx | hx
        · exact (h.before_precedes hold hlist hbefore x hx).ne
        · exact (hafter x hx).1.symm
      have hsorted := h.sorted_insert hold hscan hlist hafter hbefore
      obtain ⟨x, hrank, hle, hlt, hseq⟩ := h.position_eq hold
      have htop : Tracks s.agreement.tx_window size start (· < max top (x + 1)) :=
        h.tracks.mono fun p hp => lt_of_lt_of_le hp (le_max_left ..)
      obtain ⟨a', start', heq', hmoved, hstart, hin⟩ :=
        OriginatorBlockAckAgreement.notify_transmitted_spec htop hsize.1 hle hlt
      have hle' := hmoved.le
      have hmem : ∀ y ∈ (after ++ m :: before).reverse, y = m ∨ y ∈ s.in_flight := by
        intro y hy
        simp only [List.mem_reverse, List.mem_append, List.mem_cons] at hy
        simp only [hlist, List.mem_append, List.mem_reverse]
        rcases hy with hy | hy | hy
        · exact .inr (.inr hy)
        · exact .inl hy
        · exact .inr (.inl hy)
      have habove : ∀ y ∈ (after ++ m :: before).reverse,
          max top (x + 1) + SEQNO_SPACE_HALF_SIZE ≤ rank start y := by
        intro y hy
        have htop' := h.top_le
        rcases hmem y hy with rfl | hy
        · omega
        · have habove := h.above y hy
          have hspan := h.near hold hnear hy
          omega
      have hadvance : ∀ y ∈ (after ++ m :: before).reverse, rank start' y = rank start y := by
        intro y hy
        have := habove y hy
        exact rank_advance hle' (by omega)
      refine ⟨⟨a', (after ++ m :: before).reverse⟩, start', max top (x + 1), ?_, ⟨hmoved.tracks, by omega, ?_, ?_,
        fun y hy => ?_, fun y hy => ?_⟩⟩
      · rw [heq, hseq]
        simp only [heq']
        rfl
      · have := h.top_le
        omega
      · apply List.Pairwise.imp_of_mem _ hsorted
        intro y z hy hz hyz
        have := habove y hy
        exact hyz.advance hle' (by omega)
      · rw [hadvance y hy]
        exact habove y hy
      · rw [hadvance y hy]
        rcases hmem y hy with rfl | hy
        · omega
        · have := h.below y hy
          omega

theorem Ordered.in_window (h : s.Ordered size start top) (hm : m ∈ s.in_flight) (hold : ¬s.IsOld m) :
    distance SEQNO_SPACE_SIZE m.sequence_number s.agreement.tx_window.win_start < size := by
  have hbelow := h.below m hm
  have htop := h.top_le
  rw [h.isOld_iff, not_lt] at hold
  rw [h.win_start, distance_ahead hold]
  omega

/-- An MPDU in flight is near: nothing is in flight that is half the space behind it. -/
theorem Ordered.isNear (h : s.Ordered size start top) (hm : m ∈ s.in_flight) (hold : ¬s.IsOld m) :
    s.IsNear m := by
  have hhalf := half_add_half
  intro y hy hyold
  have hbelow := h.below m hm
  have habove := h.above y hy
  rw [h.isOld_iff] at hold hyold
  rw [← rank_mod (b := start) (m := m), ← rank_mod (b := start) (m := y),
    distance_mod (by omega) (by omega)]
  omega

theorem Ordered.above_near (h : s.Ordered size start top) (hm : ¬s.IsOld m) (hnear : s.IsNear m) {x : ℕ}
    (hrank : rank start m = x + SEQNO_SPACE_SIZE) (hy : y ∈ s.in_flight) :
    max top (x + 1) + SEQNO_SPACE_HALF_SIZE ≤ rank start y := by
  have hhalf := half_add_half
  have habove := h.above y hy
  have hspan := h.near hm hnear hy
  omega

theorem Ordered.move (h : s.Ordered size start top) (hm : ¬s.IsOld m) (hnear : s.IsNear m) {x : ℕ}
    (hrank : rank start m = x + SEQNO_SPACE_SIZE) {Q : ℕ → Prop}
    (hmoved : OriginatorBlockAckAgreement.Moved s.agreement a' size start start' (· < max top (x + 1)) Q)
    (hQ : ∀ p, Q p → p ≤ x ∨ p < max top (x + 1)) (hwindow : x < start' + size) (hsub : l.Sublist s.in_flight) :
    Ordered ⟨a', l⟩ size start' (max top (x + 1)) := by
  have hle := hmoved.le
  have htop := h.top_le
  have hstart := h.start_le
  have hstart' : start' ≤ max top (x + 1) := by
    by_contra hlt
    have := hQ _ (hmoved.passed (start' - 1) (by omega) (by omega))
    omega
  have habove : ∀ y ∈ l, max top (x + 1) + SEQNO_SPACE_HALF_SIZE ≤ rank start y :=
    fun y hy => h.above_near hm hnear hrank (hsub.subset hy)
  have hadvance : ∀ y ∈ l, rank start' y = rank start y := by
    intro y hy
    have := habove y hy
    exact rank_advance hle (by omega)
  refine ⟨hmoved.tracks, hstart', by omega, ?_, fun y hy => ?_, fun y hy => ?_⟩
  · apply List.Pairwise.imp_of_mem _ (h.sorted.sublist hsub)
    intro y z hy hz hyz
    have := habove y hy
    exact hyz.advance hle (by omega)
  · rw [hadvance y hy]
    exact habove y hy
  · rw [hadvance y hy]
    have := h.below y (hsub.subset hy)
    omega

theorem Ordered.raise_tracks (h : s.Ordered size start top) (x : ℕ) :
    Tracks s.agreement.tx_window size start (· < max top (x + 1)) :=
  h.tracks.mono fun _ hp => lt_of_lt_of_le hp (le_max_left ..)

theorem Ordered.notify_old (h : s.Ordered size start top) (hold : s.IsOld m) :
    s.agreement.notify_acked_mpdu m.sequence_number = some s.agreement ∧
      s.agreement.notify_discarded_mpdu m.sequence_number = some s.agreement := by
  have hle := le_rank (b := start) (m := m)
  rw [h.isOld_iff] at hold
  rw [← rank_mod (b := start) (m := m)]
  exact (OriginatorBlockAckAgreement.notify_old h.tracks hle hold).2

theorem Ordered.ack_inside (h : s.Ordered size start top) {x : ℕ} (hle : start ≤ x)
    (hlt : x < start + SEQNO_SPACE_HALF_SIZE)
    (hack : s.agreement.notify_acked_mpdu (x % SEQNO_SPACE_SIZE) = some a') : x < start + size := by
  have hhalf := half_add_half
  by_contra hout
  have hset : s.agreement.tx_window.set (x - start) = none := if_neg (by rw [h.tracks.size_eq]; omega)
  rw [OriginatorBlockAckAgreement.notify_acked_mpdu,
    OriginatorBlockAckAgreement.distance_to_eq h.tracks hle (by omega), Option.bind_eq_bind, Option.bind_some,
    if_neg (by omega), hset] at hack
  cases hack

theorem Ordered.acked (h : s.Ordered size start top) (hsize : size ≤ SEQNO_SPACE_HALF_SIZE)
    (hnear : ¬s.IsOld m → s.IsNear m) (hack : s.agreement.notify_acked_mpdu m.sequence_number = some a')
    (hsub : l.Sublist s.in_flight) : ∃ start' top', Ordered ⟨a', l⟩ size start' top' := by
  by_cases hold : s.IsOld m
  · rw [(h.notify_old hold).1] at hack
    cases hack
    exact ⟨start, top, h.shrink h.tracks le_rfl h.start_le hsub⟩
  · obtain ⟨x, hrank, hle, hlt, hseq⟩ := h.position_eq hold
    rw [hseq] at hack
    have hin := h.ack_inside hle hlt hack
    obtain ⟨a'', start', heq, hmoved, -⟩ := OriginatorBlockAckAgreement.notify_acked_spec (h.raise_tracks x)
      hsize hle hin (by omega)
    cases hack.symm.trans heq
    have hle' := hmoved.le
    exact ⟨start', _, h.move hold (hnear hold) hrank hmoved (fun p hp => .inr hp) (by omega) hsub⟩

theorem drop_old_spec (htracks : Tracks a.tx_window size start P) (hsorted : l.Pairwise (Precedes start)) :
    ∃ l', drop_old a l = some l' ∧ l'.Sublist l ∧ ∀ y ∈ l', start + SEQNO_SPACE_SIZE ≤ rank start y := by
  induction l with
  | nil => exact ⟨[], rfl, List.Sublist.refl _, by simp⟩
  | cons x xs ih =>
    obtain ⟨hx, hxs⟩ := List.pairwise_cons.mp hsorted
    rw [drop_old, distance_to_eq htracks, Option.bind_eq_bind, Option.bind_some]
    by_cases hold : rank start x < start + SEQNO_SPACE_SIZE
    · obtain ⟨l', heq, hsub, hahead⟩ := ih hxs
      rw [if_pos (is_old_iff.mpr hold)]
      exact ⟨l', heq, hsub.cons x, hahead⟩
    · rw [if_neg (mt is_old_iff.mp hold)]
      refine ⟨x :: xs, rfl, List.Sublist.refl _, fun y hy => ?_⟩
      rcases List.mem_cons.mp hy with rfl | hy
      · omega
      · have := (hx y hy).rank_le
        omega

theorem Ordered.discarded (h : s.Ordered size start top) (hsize : 0 < size) (hold : ¬s.IsOld m)
    (hnear : s.IsNear m) :
    ∃ a' l start' top', s.agreement.notify_discarded_mpdu m.sequence_number = some a' ∧
      drop_old a' s.in_flight = some l ∧ Ordered ⟨a', l⟩ size start' top' ∧ ∀ y ∈ l, ¬IsOld ⟨a', l⟩ y := by
  obtain ⟨x, hrank, hle, hlt, hseq⟩ := h.position_eq hold
  obtain ⟨a', start', heq, hmoved, hpast, -⟩ := OriginatorBlockAckAgreement.notify_discarded_spec
    (h.raise_tracks x) hsize hle hlt
  have hQ : ∀ p, p ≤ x ∨ p < max top (x + 1) → p ≤ x ∨ p < max top (x + 1) := fun _ hp => hp
  have hordered := h.move hold hnear hrank hmoved hQ (by omega) (List.Sublist.refl s.in_flight)
  obtain ⟨l, hl, hsub, hahead⟩ := drop_old_spec hmoved.tracks hordered.sorted
  have hordered' : Ordered ⟨a', l⟩ size start' _ := h.move hold hnear hrank hmoved hQ (by omega) hsub
  refine ⟨a', l, start', _, by rw [hseq]; exact heq, hl, hordered', fun y hy hyold => ?_⟩
  have := hahead y hy
  rw [hordered'.isOld_iff] at hyold
  omega

/-- The loop over an acknowledgement marks MPDUs in flight only, which are all near. -/
theorem remove_acked_ordered {received : ℕ → Option Bool} {K : List (WifiMpdu α)}
    (hsize : size ≤ SEQNO_SPACE_HALF_SIZE) (h : Ordered ⟨a, K ++ l⟩ size start top)
    (hrun : remove_acked received a l = some s') :
    ∃ start' top', Ordered ⟨s'.agreement, K ++ s'.in_flight⟩ size start' top' := by
  induction l generalizing a K start top s' with
  | nil =>
    cases hrun
    exact ⟨start, top, h⟩
  | cons x xs ih =>
    rw [remove_acked] at hrun
    obtain ⟨b, -, hrun⟩ := Option.bind_eq_some_iff.mp hrun
    cases b with
    | true =>
      obtain ⟨a', hack, hrun⟩ := Option.bind_eq_some_iff.mp hrun
      have hsub : (K ++ xs).Sublist (K ++ x :: xs) := (List.sublist_cons_self x xs).append_left K
      obtain ⟨start', top', h'⟩ := h.acked hsize (h.isNear (by simp)) hack hsub
      exact ih h' hrun
    | false =>
      obtain ⟨r, hr, hrun⟩ := Option.bind_eq_some_iff.mp hrun
      cases hrun
      have h' := ih (K := K ++ [x]) (by simpa using h) hr
      simpa using h'

end Ns3.BlockAckManager
