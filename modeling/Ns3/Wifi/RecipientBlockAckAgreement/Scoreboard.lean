import Ns3.Wifi.RecipientBlockAckAgreement

namespace Ns3.RecipientBlockAckAgreement

open BlockAckAgreement (get_distance get_distance_eq)
open BlockAckWindow (Tracks)
open SequenceSpace

variable {w : BlockAckWindow} {size start x : ℕ} {P : ℕ → Prop}

theorem distance_from_start (htracks : Tracks w size start P) (hle : start ≤ x)
    (hlt : x < start + SEQNO_SPACE_SIZE) : get_distance (x % SEQNO_SPACE_SIZE) w.win_start = some (x - start) := by
  rw [htracks.start_eq, get_distance_eq (Nat.mod_lt _ (by decide)) (Nat.mod_lt _ (by decide)),
    distance_mod hle hlt]

theorem mark_received_spec (htracks : Tracks w size start P) (hsize : 0 < size) (hle : start ≤ x)
    (hlt : x < start + SEQNO_SPACE_HALF_SIZE) (hP : P x) :
    ∃ w' start', mark_received w (x % SEQNO_SPACE_SIZE) = some w' ∧ Tracks w' size start' P ∧
      start ≤ start' ∧ (start' = start ∨ start' + size = x + 1) := by
  have hhalf : SEQNO_SPACE_HALF_SIZE ≤ SEQNO_SPACE_SIZE := by decide
  have hlen : w.get_win_size = size := htracks.size_eq
  rw [mark_received, distance_from_start htracks hle (by omega), Option.bind_eq_bind, Option.bind_some, hlen]
  by_cases hin : x - start < size
  · rw [if_pos hin]
    obtain ⟨w', hw'⟩ := Option.isSome_iff_exists.mp
      (BlockAckWindow.set_isSome (by rwa [htracks.size_eq] : x - start < w.window.length))
    exact ⟨w', start, hw', htracks.set hw' (by rwa [Nat.add_sub_cancel' hle]), le_rfl, .inl rfl⟩
  · rw [if_neg hin, if_pos (by omega)]
    have hadv := htracks.advance (x - start - size + 1)
    obtain ⟨w', hw'⟩ := Option.isSome_iff_exists.mp (BlockAckWindow.set_isSome
      (by rw [hadv.size_eq]; omega : size - 1 < (w.advance (x - start - size + 1)).window.length))
    refine ⟨w', _, hw', hadv.set hw' ?_, by omega, .inr (by omega)⟩
    rwa [show start + (x - start - size + 1) + (size - 1) = x by omega]

theorem mark_received_old (htracks : Tracks w size start P) (hsize : size ≤ SEQNO_SPACE_HALF_SIZE)
    (hle : start + SEQNO_SPACE_HALF_SIZE ≤ x) (hlt : x < start + SEQNO_SPACE_SIZE) :
    mark_received w (x % SEQNO_SPACE_SIZE) = some w := by
  have hlen : w.get_win_size = size := htracks.size_eq
  rw [mark_received, distance_from_start htracks (by omega) hlt, Option.bind_eq_bind, Option.bind_some, hlen,
    if_neg (by omega), if_neg (by omega)]

theorem move_start_spec (htracks : Tracks w size start P) (hle : start ≤ x)
    (hlt : x < start + SEQNO_SPACE_HALF_SIZE) :
    ∃ w', move_start w (x % SEQNO_SPACE_SIZE) = some w' ∧ Tracks w' size x P := by
  have hhalf : SEQNO_SPACE_HALF_SIZE ≤ SEQNO_SPACE_SIZE := by decide
  have hlen : w.get_win_size = size := htracks.size_eq
  have hmod : x % SEQNO_SPACE_SIZE < SEQNO_SPACE_SIZE := Nat.mod_lt _ (by decide)
  rw [move_start, distance_from_start htracks hle (by omega), Option.bind_eq_bind, Option.bind_some, hlen]
  by_cases hin : 0 < x - start ∧ x - start < size
  · have hadv := htracks.advance (x - start)
    rw [Nat.add_sub_cancel' hle] at hadv
    rw [if_pos hin, if_pos hadv.start_eq]
    exact ⟨_, rfl, hadv⟩
  · rw [if_neg hin]
    by_cases hahead : 0 < x - start ∧ x - start < SEQNO_SPACE_HALF_SIZE
    · have hreset := htracks.reset hmod
      rw [htracks.start_eq, distance_mod hle (by omega), Nat.add_sub_cancel' hle] at hreset
      rw [if_pos hahead]
      exact ⟨_, rfl, hreset⟩
    · have hx : x = start := by omega
      rw [if_neg hahead, hx]
      exact ⟨w, rfl, htracks⟩

theorem move_start_old (htracks : Tracks w size start P) (hsize : size ≤ SEQNO_SPACE_HALF_SIZE)
    (hle : start + SEQNO_SPACE_HALF_SIZE ≤ x) (hlt : x < start + SEQNO_SPACE_SIZE) :
    move_start w (x % SEQNO_SPACE_SIZE) = some w := by
  have hlen : w.get_win_size = size := htracks.size_eq
  rw [move_start, distance_from_start htracks (by omega) hlt, Option.bind_eq_bind, Option.bind_some, hlen,
    if_neg (by omega), if_neg (by omega)]

section Frame

variable {α : Type} {s s' : RecipientBlockAckAgreement α} {l : List (WifiMpdu α)} {m : WifiMpdu α} {new : ℕ}

theorem pass_run_scoreboard : (pass_run s l).scoreboard = s.scoreboard := by
  induction l generalizing s with
  | nil => rfl
  | cons x xs ih =>
    rw [pass_run]
    split
    · exact ih
    · rfl

theorem pass_less_scoreboard (h : pass_less new s l = some s') : s'.scoreboard = s.scoreboard := by
  induction l generalizing s with
  | nil =>
    cases h
    rfl
  | cons x xs ih =>
    rw [pass_less] at h
    obtain ⟨d, -, h⟩ := Option.bind_eq_some_iff.mp h
    obtain ⟨d', -, h⟩ := Option.bind_eq_some_iff.mp h
    split at h
    · have hrest := ih h
      exact hrest
    · cases h
      rfl

theorem until_first_lost_scoreboard (h : s.pass_buffered_mpdus_until_first_lost = some s') :
    s'.scoreboard = s.scoreboard := by
  obtain ⟨-, -, h⟩ := Option.bind_eq_some_iff.mp h
  cases h
  exact pass_run_scoreboard

theorem less_than_scoreboard (h : s.pass_buffered_mpdus_with_seq_number_less_than new = some s') :
    s'.scoreboard = s.scoreboard := by
  obtain ⟨-, -, h⟩ := Option.bind_eq_some_iff.mp h
  obtain ⟨r, hr, h⟩ := Option.bind_eq_some_iff.mp h
  cases h
  have hscore := pass_less_scoreboard hr
  exact hscore

theorem notify_received_mpdu_scoreboard (h : s.notify_received_mpdu m = some s') :
    mark_received s.scoreboard m.sequence_number = some s'.scoreboard := by
  rw [notify_received_mpdu] at h
  obtain ⟨w, hmark, h⟩ := Option.bind_eq_some_iff.mp h
  obtain ⟨d, -, h⟩ := Option.bind_eq_some_iff.mp h
  rw [hmark, Option.some.injEq]
  simp only at h
  split_ifs at h
  · exact (until_first_lost_scoreboard h).symm
  · obtain ⟨r, hr, h⟩ := Option.bind_eq_some_iff.mp h
    rw [until_first_lost_scoreboard h, less_than_scoreboard hr]
  · cases h
    rfl

theorem notify_received_bar_scoreboard (h : s.notify_received_bar new = some s') :
    move_start s.scoreboard new = some s'.scoreboard := by
  rw [notify_received_bar] at h
  obtain ⟨w, hmove, h⟩ := Option.bind_eq_some_iff.mp h
  obtain ⟨d, -, h⟩ := Option.bind_eq_some_iff.mp h
  rw [hmove, Option.some.injEq]
  split_ifs at h
  · obtain ⟨r, hr, h⟩ := Option.bind_eq_some_iff.mp h
    rw [until_first_lost_scoreboard h, less_than_scoreboard hr]
  · cases h
    rfl

end Frame

open CtrlBAckResponseHeader (Shaped bit)

/-- The bits of a field that are set are of positions with a property. -/
structure Reports (h : CtrlBAckResponseHeader) (index start : ℕ) (P : ℕ → Prop) (all_ack : Bool)
    (info : BaInfoInstance) : Prop where
  shaped : Shaped h index info
  starting_seq : info.starting_seq = start % SEQNO_SPACE_SIZE
  all_ack : h.is_all_ack info = all_ack
  reported : ∀ i < info.bitmap.length * 8, bit info i = true → P (start + i)

variable {h h' : CtrlBAckResponseHeader} {index : ℕ} {info : BaInfoInstance} {b : Bool}

theorem fill_bits_spec {is : List ℕ} (htracks : Tracks w size start P) (hsize : size ≤ SEQNO_SPACE_SIZE)
    (his : ∀ i ∈ is, i < size) (hreports : Reports h index start P b info)
    (hfill : fill_bits w index is h = some h') : ∃ info', Reports h' index start P b info' := by
  induction is generalizing h info with
  | nil =>
    cases hfill
    exact ⟨info, hreports⟩
  | cons i is ih =>
    have hi := his i (by simp)
    rw [fill_bits, BlockAckWindow.get_eq (by rwa [htracks.size_eq]), Option.bind_eq_bind, Option.bind_some] at hfill
    cases hbit : w.bit i with
    | false =>
      rw [hbit] at hfill
      exact ih (fun j hj => his j (by simp [hj])) hreports hfill
    | true =>
      rw [hbit] at hfill
      have hP := htracks.flagged i hi hbit
      have hmod : (w.win_start + i) % SEQNO_SPACE_SIZE < SEQNO_SPACE_SIZE := Nat.mod_lt _ (by decide)
      obtain ⟨h₁, info₁, heq, hshaped, hstart, hlength, hall, hbits⟩ := hreports.shaped.set_received_packet hmod
      obtain ⟨h₂, heq₂, hfill⟩ := Option.bind_eq_some_iff.mp hfill
      cases heq.symm.trans heq₂
      have hdist : distance SEQNO_SPACE_SIZE ((w.win_start + i) % SEQNO_SPACE_SIZE) info.starting_seq = i := by
        rw [hreports.starting_seq, htracks.start_eq, Nat.mod_add_mod,
          distance_mod (Nat.le_add_right ..) (by omega), Nat.add_sub_cancel_left]
      refine ih (fun j hj => his j (by simp [hj])) (?_ : Reports h₁ index start P b info₁) hfill
      refine ⟨hshaped, hstart.trans hreports.starting_seq, hall.trans hreports.all_ack, fun j hj hset => ?_⟩
      rw [hlength] at hj
      rw [hbits j hj, hdist, Bool.or_eq_true, decide_eq_true_eq] at hset
      rcases hset with rfl | hset
      · exact hP
      · exact hreports.reported j hj hset

/-- A bitmap that the recipient fills reports flagged positions only, whatever the header held. -/
theorem fill_block_ack_bitmap_spec {α : Type} {s : RecipientBlockAckAgreement α}
    (htracks : Tracks s.scoreboard size start P) (hsize : size ≤ SEQNO_SPACE_SIZE) (hinfo : h.info index = some info)
    (hfill : s.fill_block_ack_bitmap h index = some h') :
    ∃ info', Reports h' index start P (h.is_all_ack info) info' := by
  have hvariant : h.variant = .compressed ∨ h.variant = .extended_compressed ∨ h.variant = .multi_sta := by
    rw [RecipientBlockAckAgreement.fill_block_ack_bitmap] at hfill
    cases hv : h.variant <;> simp_all
  have hrun : (do
      let h ← h.set_starting_sequence index s.scoreboard.win_start
      let h ← h.reset_bitmap index
      fill_bits s.scoreboard index (List.range s.scoreboard.get_win_size) h) = some h' := by
    rw [RecipientBlockAckAgreement.fill_block_ack_bitmap] at hfill
    rcases hvariant with hv | hv | hv <;> simpa only [hv] using hfill
  obtain ⟨h₁, hstart, hrun⟩ := Option.bind_eq_some_iff.mp hrun
  obtain ⟨h₂, hreset, hrun⟩ := Option.bind_eq_some_iff.mp hrun
  rw [CtrlBAckResponseHeader.set_starting_sequence, hinfo] at hstart
  cases hstart
  have hinfo₁ := CtrlBAckResponseHeader.info_set_info
    (j := { info with starting_seq := s.scoreboard.win_start }) hinfo
  rw [CtrlBAckResponseHeader.reset_bitmap, hinfo₁, Option.bind_eq_bind, Option.bind_some] at hreset
  obtain ⟨len, hlen, hreset⟩ := Option.bind_eq_some_iff.mp hreset
  cases hreset
  have hstart_lt : s.scoreboard.win_start < SEQNO_SPACE_SIZE := by
    rw [htracks.start_eq]
    exact Nat.mod_lt _ (by decide)
  have hsize_eq : s.scoreboard.get_win_size = size := htracks.size_eq
  apply fill_bits_spec htracks hsize _ _ hrun
  · exact { info with starting_seq := s.scoreboard.win_start, bitmap := List.replicate len 0 }
  · intro i hi
    rw [← hsize_eq]
    exact List.mem_range.mp hi
  · refine ⟨⟨hvariant, CtrlBAckResponseHeader.info_set_info hinfo₁, ?_, hstart_lt⟩, htracks.start_eq, rfl, ?_⟩
    · rw [List.length_replicate]
      exact hlen
    · intro i hi hset
      have hzero : bit { info with starting_seq := s.scoreboard.win_start, bitmap := List.replicate len 0 } i
          = false := by
        rw [bit, List.getElem?_replicate]
        split <;> simp
      rw [hzero] at hset
      cases hset

theorem Reports.of_received (hr : Reports h index start P false info) (hle : start ≤ x)
    (hlt : x < start + SEQNO_SPACE_SIZE) (hreceived : h.is_packet_received index (x % SEQNO_SPACE_SIZE) = some true) :
    P x := by
  rw [hr.shaped.is_packet_received hr.all_ack (Nat.mod_lt _ (by decide)), hr.starting_seq, distance_mod hle hlt] at hreceived
  simp only [Option.some.injEq, Bool.and_eq_true, decide_eq_true_eq] at hreceived
  have hP := hr.reported (x - start) hreceived.1 hreceived.2
  rwa [Nat.add_sub_cancel' hle] at hP

end Ns3.RecipientBlockAckAgreement
