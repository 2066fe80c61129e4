import Ns3.Lte.LteRlcAm.Buffers

namespace Ns3.LteRlcAm

open Slots

variable {s : LteRlcAm} {acked : Set (Fin 1024)} {i : Fin 1024} {e turns : ℕ} {now : Time} {bytes : UInt32}
  {sn ack_sn : SequenceNumber10} {status : LteRlcStatus} {first : TxPdu} {next txon_size : UInt32}
  {header : LteRlcAmHeader} {txon : List TxPdu}

/-- A data field with the SDUs that are left, which are counted and not empty. -/
structure DataField.Valid (f : DataField) : Prop where
  data_field : f.data_field ≠ []
  txon_buffer_size : f.txon_buffer_size = (f.txon_buffer.map fun p => p.pdu.size).sum
  nonempty : ∀ p ∈ f.txon_buffer, 0 < p.pdu.size

theorem segment_valid (hsize : txon_size = (txon.map fun p => p.pdu.size).sum) (hpos : ∀ p ∈ txon, 0 < p.pdu.size) :
    (segment first next header txon txon_size).Valid := by
  rw [segment]
  split
  next hremaining =>
    constructor
    · simp
    · rw [List.map_cons, List.sum_cons, ← hsize, add_comm]
    · intro p hp
      obtain rfl | hp := List.mem_cons.mp hp
      · exact hremaining
      · exact hpos p hp
  next => exact ⟨by simp, hsize, hpos⟩

theorem build_valid (id : ℕ) (header : LteRlcAmHeader) (hfirst : 0 < first.pdu.size) (hnext : 0 < next)
    (hsize : txon_size = (txon.map fun p => p.pdu.size).sum) (hpos : ∀ p ∈ txon, 0 < p.pdu.size) :
    (build first next id header txon txon_size).Valid := by
  induction txon generalizing id header first next txon_size with
  | nil =>
    unfold build
    rw [if_pos (by simp [hfirst, hnext])]
    split
    · exact segment_valid hsize hpos
    · exact ⟨by simp, hsize, hpos⟩
  | cons p rest ih =>
    unfold build
    rw [if_pos (by simp [hfirst, hnext])]
    split
    · exact segment_valid hsize hpos
    next hfits =>
      simp only
      split
      · exact ⟨by simp, hsize, hpos⟩
      next hroom =>
        have hrest : txon_size - p.pdu.size = (rest.map fun p => p.pdu.size).sum := by
          rw [hsize, List.map_cons, List.sum_cons, add_sub_cancel_left]
        have hleft : 0 < next - ((if id % 2 = 1 then 2 else 1) + first.pdu.size) := by
          simp only [Bool.or_eq_true, decide_eq_true_eq, not_or, gt_iff_lt, UInt32.lt_iff_toNat_lt, not_lt,
            UInt32.le_iff_toNat_le, not_le] at hfits hroom ⊢
          have hle : first.pdu.size ≤ next := UInt32.le_iff_toNat_le.mpr hfits.1
          rw [UInt32.toNat_sub_of_le _ _ hle] at hroom
          have htwo : (2 : UInt32).toNat = 2 := rfl
          have hone : (1 : UInt32).toNat = 1 := rfl
          have hzero : (0 : UInt32).toNat = 0 := rfl
          have hword := next.toNat_lt
          have hli : ((if id % 2 = 1 then 2 else 1) + first.pdu.size : UInt32).toNat ≤ 2 + first.pdu.size.toNat := by
            rw [UInt32.toNat_add]
            split <;> omega
          have hle' : ((if id % 2 = 1 then 2 else 1) + first.pdu.size : UInt32) ≤ next :=
            UInt32.le_iff_toNat_le.mpr (by omega)
          rw [UInt32.toNat_sub_of_le _ _ hle']
          omega
        have hrestPos : ∀ q ∈ rest, 0 < q.pdu.size := fun q hq => hpos q (by simp [hq])
        exact ⟨by simp, (ih _ _ (hpos p (by simp)) hleft hrest hrestPos).txon_buffer_size,
          (ih _ _ (hpos p (by simp)) hleft hrest hrestPos).nonempty⟩

/-- The numbers that a STATUS PDU reports on. -/
def reported (s : LteRlcAm) (status : LteRlcStatus) (i : Fin 1024) : Prop :=
  Between s.vt_a.value 0 (min (gap s.vt_a.value status.ack_sn.value) (gap s.vt_a.value s.vt_s.value)) i

theorem lt_eq_gap {b : SequenceNumber10} (hsn : sn.modulus_base = i) (hb : b.modulus_base = i) :
    sn.lt b = some (decide (gap i sn.value < gap i b.value)) := by
  rw [SequenceNumber10.lt_eq (hsn.trans hb.symm), SequenceNumber10.ahead, SequenceNumber10.ahead, hsn, hb, gap, gap]

theorem Bookkept.stop_poll_retransmit_timer (h : s.Bookkept acked) : (s.stop_poll_retransmit_timer i).Bookkept acked ∧
    SameWindow s (s.stop_poll_retransmit_timer i) := by
  rw [LteRlcAm.stop_poll_retransmit_timer]
  split
  · exact ⟨h.congr ⟨rfl, rfl, rfl, rfl, rfl, rfl⟩ rfl rfl rfl rfl, ⟨rfl, rfl, rfl, rfl, rfl, rfl⟩⟩
  · exact ⟨h, .refl⟩

/-- The numbers between two distances that are not among the NACKs. -/
def accepted (a : Fin 1024) (e m : ℕ) (nacks : List (Fin 1024)) : Set (Fin 1024) := {i | Between a e m i ∧ i ∉ nacks}

variable {a : Fin 1024} {m : ℕ} {nacks : List (Fin 1024)}

theorem accepted_nack (hi : gap a i = e) (hm : e < m) (hnack : i ∈ nacks) :
    accepted a e m nacks = accepted a (e + 1) m nacks := by
  ext j
  have hfirst := between_first hi hm j
  have hne : j ∉ nacks → j ≠ i := fun hj heq => hj (heq ▸ hnack)
  simp only [accepted, Set.mem_ofPred_eq, hfirst]
  tauto

theorem accepted_ack (hi : gap a i = e) (hm : e < m) (hnack : i ∉ nacks) :
    accepted a e m nacks = insert i (accepted a (e + 1) m nacks) := by
  ext j
  have hfirst := between_first hi hm j
  have hnot : j = i → j ∉ nacks := fun heq => heq ▸ hnack
  simp only [accepted, Set.mem_ofPred_eq, Set.mem_insert_iff, hfirst]
  tauto

theorem accepted_advance (hm : 0 < m) (hlast : m ≤ 1024) (hnack : a ∉ nacks) :
    accepted a 0 m nacks = insert a (accepted (a + 1) 0 (m - 1) nacks) := by
  ext j
  have hfirst := between_advance hm hlast j (a := a)
  have hnot : j = a → j ∉ nacks := fun heq => heq ▸ hnack
  simp only [accepted, Set.mem_ofPred_eq, Set.mem_insert_iff, hfirst]
  tauto

/-- What the loop over a STATUS PDU leaves: the numbers from the current one on, up to the end of the report, are
acknowledged unless they are among the NACKs. -/
theorem status_turns_spec (status : LteRlcStatus) (turns : ℕ) (increment : Bool) (h : s.Bookkept acked) (hsn : sn.modulus_base = s.vt_a.value)
    (hack : ack_sn.modulus_base = s.vt_a.value) (hfirst : increment = true → sn.value = s.vt_a.value)
    (hm : m = min (gap s.vt_a.value ack_sn.value) (gap s.vt_a.value s.vt_s.value))
    (he : gap s.vt_a.value sn.value = e) (hstart : e ≤ m) (hturns : m < e + turns)
    (hnacks : ∀ i ∈ status.nack_sn_list, Between s.vt_a.value e m i → i ∉ acked) :
    ∃ s', status_turns status turns s ack_sn sn increment = some s' ∧ s'.vt_s.value = s.vt_s.value ∧
      s'.Bookkept (acked ∪ accepted s.vt_a.value e m status.nack_sn_list) := by
  induction turns generalizing increment s acked sn ack_sn e m with
  | zero => omega
  | succ turns ih =>
    have hwindowed := h.windowed
    have hbounded := hwindowed.bounded
    rw [status_turns, lt_eq_gap hsn hack, lt_eq_gap hsn hwindowed.base_s]
    simp only [Option.bind_eq_bind, Option.bind_some, Bool.and_eq_true, decide_eq_true_eq]
    by_cases hturn : e < m
    · rw [if_pos (by omega)]
      have hin : s.InWindow sn.value := by
        rw [InWindow]
        omega
      have hnext : gap s.vt_a.value sn.next.value = e + 1 := by
        rw [SequenceNumber10.next, gap_succ (by omega), he]
      have hlater : ∀ i ∈ status.nack_sn_list, Between s.vt_a.value (e + 1) m i → i ∉ acked :=
        fun i hi hbi => hnacks i hi ⟨by have := hbi.1; omega, hbi.2⟩
      obtain ⟨hstop, hstopSame⟩ := h.stop_poll_retransmit_timer (i := sn.value)
      generalize s.stop_poll_retransmit_timer sn.value = s₁ at hstop hstopSame ⊢
      by_cases hnack : sn.value ∈ status.nack_sn_list
      · -- the PDU is moved to the retransmission buffer, and VT(A) stays from now on
        have hout : s₁.Outstanding acked sn.value :=
          hstopSame.outstanding.mpr ⟨hin, hnacks _ hnack ⟨by omega, by omega⟩⟩
        obtain ⟨hmove, hheld⟩ := hstop.move_to_retx (i := sn.value)
        have hsame := hstopSame.trans (move_to_retx_same (i := sn.value))
        have hva := hsame.vt_a
        rw [if_pos (by simpa [LteRlcStatus.is_nack_present] using hnack), hheld hout,
          accepted_nack he hturn hnack]
        generalize s₁.move_to_retx sn.value = s₂ at hmove hsame hva ⊢
        rw [← hva] at hsn hack hnext hlater ⊢
        rw [← hva, ← hsame.vt_s] at hm
        rw [← hsame.vt_s]
        exact ih false hmove hsn hack (by simp) hm hnext hturn (by omega) hlater
      · rw [if_neg (by simpa [LteRlcStatus.is_nack_present] using hnack)]
        obtain ⟨s₂, hack₂, hackSame, hacked⟩ := hstop.acknowledge (i := sn.value)
        have hsame := hstopSame.trans hackSame
        have hva := hsame.vt_a
        rw [hack₂, Option.bind_some]
        generalize s₂.ack_retx sn.value = s₃ at hacked hsame hva ⊢
        cases increment with
        | true =>
          -- VT(A) is the number that is acknowledged, and moves on
          have ha : s.vt_a.value = sn.value := (hfirst rfl).symm
          obtain rfl : e = 0 := by rw [← he, ha, gap_self]
          have hpos : 0 < gap s₃.vt_a.value s₃.vt_s.value := by
            rw [hva, hsame.vt_s]
            omega
          have hmember : s₃.vt_a.value ∈ insert sn.value acked := by
            rw [hva, ha]
            exact Set.mem_insert _ _
          have hmoved := hacked.increment_vt_a hmember hpos
          have hnew : s₃.increment_vt_a.vt_a.value = s.vt_a.value + 1 := by rw [← hva]; rfl
          have hvs : s₃.increment_vt_a.vt_s.value = s.vt_s.value := by rw [← hsame.vt_s]; rfl
          have hfar : ∀ i, 0 < gap s.vt_a.value i → gap (s.vt_a.value + 1) i = gap s.vt_a.value i - 1 := by
            intro i hi
            have hne : i ≠ s.vt_a.value := by
              rintro rfl
              rw [gap_self] at hi
              exact hi.false
            have hgap := gap_advance hne
            omega
          have hvalue : (sn.set_modulus_base s₃.increment_vt_a.vt_a).next.value = s₃.increment_vt_a.vt_a.value := by
            rw [hnew, ha]
            rfl
          have hend : m - 1 = min (gap s₃.increment_vt_a.vt_a.value ack_sn.value)
              (gap s₃.increment_vt_a.vt_a.value s₃.increment_vt_a.vt_s.value) := by
            rw [hnew, hvs, hfar ack_sn.value (by omega), hfar s.vt_s.value (by omega)]
            omega
          rw [accepted_advance (by omega) (by omega) (ha ▸ hnack), Set.union_insert, ← Set.insert_union, ← hnew, ← hvs, ha]
          refine ih true hmoved rfl rfl (fun _ => hvalue) hend (by rw [hvalue, gap_self]) (Nat.zero_le _) (by omega) ?_
          intro i hi hbi hmem
          rw [hnew] at hbi
          obtain rfl | hmem := hmem
          · exact hnack hi
          · exact hnacks i hi ((between_advance (by omega) (by omega) i).mpr (.inr hbi)) hmem
        | false =>
          rw [accepted_ack he hturn hnack, Set.union_insert, ← Set.insert_union]
          rw [← hva] at hsn hack hnext hlater ⊢
          rw [← hva, ← hsame.vt_s] at hm
          rw [← hsame.vt_s]
          refine ih false hacked hsn hack (by simp) hm hnext hturn (by omega) fun i hi hbi hmem => ?_
          obtain rfl | hmem := hmem
          · exact hnack hi
          · exact hlater i hi hbi hmem
    · rw [if_neg (by omega)]
      refine ⟨s, rfl, rfl, ?_⟩
      convert h using 1
      ext i
      simp only [Set.mem_union, accepted, Set.mem_ofPred_eq, Between]
      constructor
      · rintro (hi | ⟨⟨_, _⟩, _⟩)
        · exact hi
        · omega
      · exact .inl

theorem move_all_to_retx_spec (turns : ℕ) (h : s.Bookkept acked) (hsn : sn.modulus_base = s.vt_a.value)
    (he : gap s.vt_a.value sn.value = e) (hstart : e ≤ gap s.vt_a.value s.vt_s.value)
    (hturns : gap s.vt_a.value s.vt_s.value < e + turns) :
    ∃ s', move_all_to_retx turns s sn = some s' ∧ SameWindow s s' ∧ s'.Bookkept acked := by
  induction turns generalizing s sn e with
  | zero => omega
  | succ turns ih =>
    have hwindowed := h.windowed
    have hbounded := hwindowed.bounded
    rw [move_all_to_retx, lt_eq_gap hsn hwindowed.base_s, he]
    simp only [Option.bind_eq_bind, Option.bind_some, decide_eq_true_eq]
    by_cases hturn : e < gap s.vt_a.value s.vt_s.value
    · rw [if_pos hturn]
      have hmove := (h.move_to_retx (i := sn.value)).1
      have hsame := move_to_retx_same (s := s) (i := sn.value)
      generalize s.move_to_retx sn.value = s₁ at hmove hsame ⊢
      have hnext : gap s.vt_a.value sn.next.value = e + 1 := by
        rw [SequenceNumber10.next, gap_succ (by omega), he]
      rw [← hsame.vt_a] at hsn hnext
      rw [← hsame.vt_a, ← hsame.vt_s] at hturn hturns
      have hbase : sn.next.modulus_base = s₁.vt_a.value := hsn
      obtain ⟨s', heq, hsame', hbook⟩ := ih hmove hbase hnext hturn (by omega)
      exact ⟨s', heq, hsame.trans hsame', hbook⟩
    · rw [if_neg hturn]
      exact ⟨s, rfl, .refl, h⟩

/-- The search finds a PDU when one is held at or behind the current number. -/
theorem retransmission_spec (now : Time) (bytes : UInt32) (turns : ℕ) (h : s.Bookkept acked) (hsn : sn.modulus_base = s.vt_a.value)
    (he : gap s.vt_a.value sn.value = e) (hturns : gap s.vt_a.value s.vt_s.value < e + turns)
    (hheld : ∃ i, Between s.vt_a.value e (gap s.vt_a.value s.vt_s.value) i ∧ (s.retx_buffer i).pdu.isSome) :
    ∃ i pdu, (s.retx_buffer i).pdu = some pdu ∧ (s.retransmission now bytes turns sn = some (s, []) ∨
      s.retransmission now bytes turns sn = s.retransmit now i pdu) := by
  induction turns generalizing sn e with
  | zero =>
    obtain ⟨i, ⟨hle, hlt⟩, _⟩ := hheld
    omega
  | succ turns ih =>
    obtain ⟨i, hbetween, hsome⟩ := hheld
    have hbounded := h.windowed.bounded
    have hturn : e < gap s.vt_a.value s.vt_s.value := hbetween.1.trans_lt hbetween.2
    rw [retransmission, lt_eq_gap hsn h.windowed.base_s, he]
    simp only [Option.bind_eq_bind, Option.bind_some, decide_eq_true_eq, if_pos hturn]
    cases hpdu : (s.retx_buffer sn.value).pdu with
    | some pdu =>
      refine ⟨sn.value, pdu, hpdu, ?_⟩
      simp only
      split
      · exact .inr rfl
      · exact .inl rfl
    | none =>
      have hnext : gap s.vt_a.value sn.next.value = e + 1 := by
        rw [SequenceNumber10.next, gap_succ (by omega), he]
      have hbase : sn.next.modulus_base = s.vt_a.value := hsn
      refine ih hbase hnext (by omega) ⟨i, ?_, hsome⟩
      obtain rfl | hlater := (between_first he hturn i).mp hbetween
      · rw [hpdu] at hsome
        cases hsome
      · exact hlater

theorem Bookkept.retx_held (h : s.Bookkept acked) (hpos : s.retx_buffer_size ≠ 0) :
    ∃ i, s.InWindow i ∧ (s.retx_buffer i).pdu.isSome := by
  by_contra hnone
  push Not at hnone
  apply hpos
  rw [h.counted.retx, total]
  apply Finset.sum_eq_zero
  intro i _
  apply RetxPdu.size_of_none
  by_cases hi : s.InWindow i
  · exact Option.not_isSome_iff_eq_none.mp (hnone i hi)
  · exact (h.held.rest i fun hout => hi hout.1).2

theorem Bookkept.report (h : s.Bookkept acked) (now : Time) : ∃ out, s.do_report_buffer_status now = some out := by
  have hfront : 0 < s.txon_buffer_size → ∃ p, s.txon_buffer.head? = some p := by
    intro hpos
    cases hbuffer : s.txon_buffer with
    | nil =>
      rw [h.counted.txon, hbuffer] at hpos
      exact absurd hpos (by decide)
    | cons p rest => exact ⟨p, rfl⟩
  rw [do_report_buffer_status]
  by_cases hpos : 0 < s.txon_buffer_size
  · obtain ⟨p, hp⟩ := hfront hpos
    simp only [gt_iff_lt, if_pos hpos, hp, Option.map_some, Option.bind_eq_bind, Option.bind_some]
    exact ⟨_, rfl⟩
  · simp only [gt_iff_lt, if_neg hpos, Option.bind_eq_bind, Option.bind_some]
    exact ⟨_, rfl⟩

theorem Bookkept.poll (h : s.Bookkept acked) (polling : Bool) :
    (if polling then s.poll else s).Bookkept acked ∧ SameWindow s (if polling then s.poll else s) ∧
      (if polling then s.poll else s).retx_buffer = s.retx_buffer := by
  cases polling with
  | true => exact ⟨h.congr ⟨rfl, rfl, rfl, rfl, rfl, rfl⟩ rfl rfl rfl rfl, ⟨rfl, rfl, rfl, rfl, rfl, rfl⟩, rfl⟩
  | false => exact ⟨h, .refl, rfl⟩

theorem Windowed.ge_ms (h : s.Windowed) : ∃ b, s.vt_s.ge s.vt_ms = some b :=
  ⟨_, SequenceNumber10.ge_eq (h.base_s.trans h.base_ms.symm)⟩

theorem Bookkept.retransmit (h : s.Bookkept acked) {pdu : LteRlcPdu} (hpdu : (s.retx_buffer i).pdu = some pdu) :
    ∃ s' out, s.retransmit now i pdu = some (s', out) ∧ s'.Bookkept acked ∧ SameWindow s s' := by
  obtain ⟨full, hfull⟩ := h.windowed.ge_ms
  obtain ⟨polling, hpolling⟩ : ∃ polling, s.retx_poll_condition pdu = some polling := by
    rw [retx_poll_condition, hfull]
    split <;> exact ⟨_, rfl⟩
  obtain ⟨hbook, hsame, hretx⟩ := h.poll polling
  rw [LteRlcAm.retransmit, hpolling]
  refine ⟨_, _, rfl, hbook.move_to_txed (hretx ▸ hpdu), hsame.trans ⟨rfl, rfl, rfl, rfl, rfl, rfl⟩⟩

end Ns3.LteRlcAm
