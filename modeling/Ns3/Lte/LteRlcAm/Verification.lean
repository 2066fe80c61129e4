import Ns3.Lte.LteRlcAm.Loops

namespace Ns3.LteRlcAm

open Slots

variable {s s' : LteRlcAm} {acked : Set (Fin 1024)} {now : Time} {bytes size : UInt32} {status : LteRlcStatus}
  {event : Event} {out : List LteMacSap}

theorem ns_assert_true {c : Option Bool} {α : Type} {f : Unit → Option α} (hc : c = some true) :
    (ns_assert c >>= f) = f () := by
  rw [hc]
  rfl

theorem Bookkept.transmit_pdcp_pdu (h : s.Bookkept acked) (now : Time) (hsize : 0 < size) :
    ∃ s' out, s.do_transmit_pdcp_pdu now size = some (s', out) ∧ s'.Bookkept acked := by
  have hcounted := h.counted
  have hwindowed := h.windowed
  have hstored : LteRlcAm.Bookkept { s with
      txon_buffer := s.txon_buffer ++ [{ pdu := { size := size }, waiting_since := now }]
      txon_buffer_size := s.txon_buffer_size + size } acked := by
    refine ⟨{ hwindowed with }, ⟨?_, hcounted.txed, hcounted.retx⟩, ⟨h.held.outstanding, h.held.rest⟩, fun p hp => ?_⟩
    · simp [hcounted.txon]
    · obtain hp | hp := List.mem_append.mp hp
      · exact h.nonempty p hp
      · rw [List.mem_singleton.mp hp]
        exact hsize
  rw [do_transmit_pdcp_pdu]
  split
  · obtain ⟨out, hout⟩ := hstored.report now
    rw [hout]
    exact ⟨_, _, rfl, hstored.congr ⟨rfl, rfl, rfl, rfl, rfl, rfl⟩ rfl rfl rfl rfl⟩
  · obtain ⟨out, hout⟩ := h.report now
    rw [hout]
    exact ⟨_, _, rfl, h.congr ⟨rfl, rfl, rfl, rfl, rfl, rfl⟩ rfl rfl rfl rfl⟩

theorem poll_condition_some (hbase : s.vt_s.modulus_base = s.vt_ms.modulus_base) :
    ∃ polling, s.poll_condition = some polling := by
  rw [poll_condition, SequenceNumber10.ge_eq hbase]
  split <;> exact ⟨_, rfl⟩

theorem Bookkept.new_pdu (h : s.Bookkept acked) (now : Time) (hfresh : ∀ i ∈ acked, s.InWindow i)
    (hroom : gap s.vt_a.value s.vt_s.value < 512) (hbytes : 7 ≤ bytes) :
    ∃ s' out, s.new_pdu now bytes = some (s', out) ∧ s'.Bookkept acked := by
  cases hbuffer : s.txon_buffer with
  | nil => exact ⟨s, [], by rw [LteRlcAm.new_pdu, hbuffer], h⟩
  | cons first rest =>
    have hwindowed := h.windowed
    have hcounted := h.counted
    have hpos := h.nonempty
    rw [hbuffer] at hpos
    have hspace : 0 < bytes - 4 := by
      rw [UInt32.le_iff_toNat_le] at hbytes
      have hseven : (7 : UInt32).toNat = 7 := rfl
      have hfour : (4 : UInt32).toNat = 4 := rfl
      rw [UInt32.lt_iff_toNat_lt, UInt32.toNat_sub_of_le _ _ (UInt32.le_iff_toNat_le.mpr (by omega))]
      have hzero : (0 : UInt32).toNat = 0 := rfl
      omega
    have hsum : s.txon_buffer_size - first.pdu.size = (rest.map fun p => p.pdu.size).sum := by
      rw [hcounted.txon, hbuffer, List.map_cons, List.sum_cons, add_sub_cancel_left]
    have hfield := build_valid 1 {} (hpos first (by simp)) hspace hsum
      fun p hp => hpos p (by simp [hp])
    have hlt : s.vt_s.lt s.vt_ms = some true := by
      rw [SequenceNumber10.lt_eq (hwindowed.base_s.trans hwindowed.base_ms.symm), hwindowed.ahead_s, hwindowed.ahead_ms,
        decide_eq_true hroom]
    have hge : s.vt_s.ge s.vt_a = some true := by
      rw [SequenceNumber10.ge_eq (hwindowed.base_s.trans hwindowed.base_a.symm), hwindowed.ahead_a,
        decide_eq_true (Nat.zero_le _)]
    rw [LteRlcAm.new_pdu, hbuffer]
    simp only
    rw [ns_assert_true hlt, ns_assert_true hge]
    generalize build first (bytes - 4) 1 {} rest (s.txon_buffer_size - first.pdu.size) = field at hfield ⊢
    rw [List.head?_eq_some_head hfield.data_field, List.getLast?_eq_some_getLast hfield.data_field]
    simp only [Option.bind_eq_bind, Option.bind_some]
    generalize hcondition : poll_condition _ = condition
    obtain ⟨polling, rfl⟩ : ∃ polling, condition = some polling :=
      hcondition ▸ poll_condition_some (hwindowed.base_s.trans hwindowed.base_ms.symm)
    have htaken : LteRlcAm.Bookkept { s with
        txon_buffer := field.txon_buffer
        txon_buffer_size := field.txon_buffer_size } acked := by
      refine ⟨?_, ?_, ⟨h.held.outstanding, h.held.rest⟩, hfield.nonempty⟩
      · exact { hwindowed with }
      · exact ⟨hfield.txon_buffer_size, hcounted.txed, hcounted.retx⟩
    cases polling with
    | true =>
      refine ⟨_, _, rfl, Bookkept.put_txed (s := { s with
        txon_buffer := field.txon_buffer
        txon_buffer_size := field.txon_buffer_size
        poll_retransmit_timer_just_expired := false
        pdu_without_poll := 0
        byte_without_poll := 0
        poll_sn := s.vt_s.next.sub 1
        poll_retransmit_timer := true }) (htaken.congr ⟨rfl, rfl, rfl, rfl, rfl, rfl⟩ rfl rfl rfl rfl) hfresh hroom⟩
    | false =>
      refine ⟨_, _, rfl, Bookkept.put_txed (s := { s with
        txon_buffer := field.txon_buffer
        txon_buffer_size := field.txon_buffer_size
        pdu_without_poll := s.pdu_without_poll + 1
        byte_without_poll := s.byte_without_poll + (field.data_field.map LteRlcSdu.size).sum })
        (htaken.congr ⟨rfl, rfl, rfl, rfl, rfl, rfl⟩ rfl rfl rfl rfl) hfresh hroom⟩

theorem Bookkept.notify_tx_opportunity (h : s.Bookkept acked) (now : Time) (hfresh : ∀ i ∈ acked, s.InWindow i)
    (hfour : 4 ≤ bytes) (hstatus : s.status_pdu_requested ∧ ¬ s.status_prohibit_timer → s.status_pdu_buffer_size ≤ bytes)
    (hseven : s.retx_buffer_size = 0 → 0 < s.txon_buffer_size → ¬ (s.status_pdu_requested ∧ ¬ s.status_prohibit_timer) →
      7 ≤ bytes) :
    ∃ s' out, s.do_notify_tx_opportunity now bytes = some (s', out) ∧ s'.Bookkept acked := by
  have hwindowed := h.windowed
  rw [do_notify_tx_opportunity, if_neg (UInt32.not_lt.mpr hfour)]
  by_cases hpending : s.status_pdu_requested ∧ ¬ s.status_prohibit_timer
  · rw [if_pos (by simpa using hpending), if_neg (UInt32.not_lt.mpr (hstatus hpending))]
    exact ⟨_, _, rfl, h.congr ⟨rfl, rfl, rfl, rfl, rfl, rfl⟩ rfl rfl rfl rfl⟩
  rw [if_neg (by simpa using hpending)]
  by_cases hretx : s.retx_buffer_size = 0
  · rw [if_neg (by simp [hretx])]
    by_cases htxon : 0 < s.txon_buffer_size
    · have hbytes := hseven hretx htxon hpending
      have hle : s.vt_s.le s.vt_ms = some true := by
        rw [SequenceNumber10.le_eq (hwindowed.base_s.trans hwindowed.base_ms.symm), hwindowed.ahead_s,
          hwindowed.ahead_ms, decide_eq_true hwindowed.bounded]
      rw [if_pos htxon, if_neg (UInt32.not_lt.mpr hbytes), ns_assert_true hle]
      by_cases hstall : s.vt_s.value = s.vt_ms.value
      · rw [if_pos hstall]
        exact ⟨s, [], rfl, h⟩
      · rw [if_neg hstall]
        apply h.new_pdu now hfresh _ hbytes
        refine lt_of_le_of_ne hwindowed.bounded fun hfull => hstall ?_
        rw [hwindowed.ms]
        exact gap_inj.mp (hfull.trans gap_window.symm)
    · rw [if_neg htxon]
      exact ⟨s, [], rfl, h⟩
  · have hpos : 0 < s.retx_buffer_size := UInt32.pos_iff_ne_zero.mpr hretx
    obtain ⟨i, hi, hsome⟩ := h.retx_held hretx
    have hopen : 0 < gap s.vt_a.value s.vt_s.value := (Nat.zero_le _).trans_lt hi
    have hlt : s.vt_a.lt s.vt_s = some true := by
      rw [lt_eq_gap hwindowed.base_a hwindowed.base_s, gap_self, decide_eq_true hopen]
    rw [if_pos hpos, ns_assert_true hlt]
    obtain ⟨j, pdu, hpdu, hscan | hscan⟩ := retransmission_spec now bytes 1025 h hwindowed.base_a
      gap_self (by have hbounded := hwindowed.bounded; omega) ⟨i, ⟨Nat.zero_le _, hi⟩, hsome⟩
    · exact ⟨s, [], hscan, h⟩
    · obtain ⟨s', out, heq, hbook, _⟩ := h.retransmit hpdu
      exact ⟨s', out, hscan.trans heq, hbook⟩

theorem Bookkept.receive_status (h : s.Bookkept acked)
    (hnacks : ∀ i ∈ status.nack_sn_list, s.reported status i → i ∉ acked) :
    ∃ s', s.do_receive_status status = some s' ∧
      s'.Bookkept (acked ∪ {i | s.reported status i ∧ i ∉ status.nack_sn_list}) := by
  have hwindowed := h.windowed
  have hbounded := hwindowed.bounded
  have hbased : s.set_modulus_bases.Bookkept acked := by
    refine ⟨⟨rfl, rfl, rfl, hwindowed.window_size, hwindowed.ms, hwindowed.bounded⟩,
      ⟨h.counted.txon, h.counted.txed, h.counted.retx⟩, ⟨h.held.outstanding, h.held.rest⟩, h.nonempty⟩
  have hack : (status.ack_sn.set_modulus_base s.set_modulus_bases.vt_a).modulus_base = s.set_modulus_bases.vt_a.value :=
    rfl
  obtain ⟨s', heq, _, hbook⟩ := status_turns_spec status 1025 true hbased
    rfl hack (fun _ => rfl) rfl gap_self (Nat.zero_le _)
    (by
      have hlast : gap s.set_modulus_bases.vt_a.value s.set_modulus_bases.vt_s.value ≤ 512 := hbounded
      omega) hnacks
  exact ⟨s', heq, hbook⟩

theorem Bookkept.receive_data (h : s.Bookkept acked) (now : Time) {polling_bit : Bool} :
    ∃ s' out, s.do_receive_data now polling_bit = some (s', out) ∧ s'.Bookkept acked := by
  have hrequested : LteRlcAm.Bookkept { s with status_pdu_requested := true, status_pdu_buffer_size := 4 } acked :=
    h.congr ⟨rfl, rfl, rfl, rfl, rfl, rfl⟩ rfl rfl rfl rfl
  obtain ⟨out, hout⟩ := hrequested.report now
  cases polling_bit with
  | true =>
    rw [do_receive_data, if_pos rfl]
    by_cases hprohibit : s.status_prohibit_timer = true
    · exact ⟨_, [], if_pos hprohibit, hrequested⟩
    · simp only [if_neg hprohibit, hout]
      exact ⟨_, out, rfl, hrequested⟩
  | false => exact ⟨s, [], rfl, h⟩

theorem Bookkept.expire_poll_retransmit_timer (h : s.Bookkept acked) (now : Time) :
    ∃ s' out, LteRlcAm.expire_poll_retransmit_timer s now = some (s', out) ∧ s'.Bookkept acked := by
  have hexpired : LteRlcAm.Bookkept { s with
      poll_retransmit_timer_just_expired := true, poll_retransmit_timer := false } acked :=
    h.congr ⟨rfl, rfl, rfl, rfl, rfl, rfl⟩ rfl rfl rfl rfl
  have hwindowed := hexpired.windowed
  have hbounded := hwindowed.bounded
  have hle := SequenceNumber10.le_eq (hwindowed.base_s.trans hwindowed.base_ms.symm)
  rw [hwindowed.ahead_s, hwindowed.ahead_ms, decide_eq_true hbounded] at hle
  rw [LteRlcAm.expire_poll_retransmit_timer]
  simp only
  rw [ns_assert_true hle]
  obtain ⟨s₁, hmove, _, hmoved⟩ := move_all_to_retx_spec 1025 hexpired hwindowed.base_a gap_self
    (Nat.zero_le _) (by omega)
  split
  · obtain ⟨out, hout⟩ := hmoved.report now
    exact ⟨s₁, out, by rw [hmove]; simp [hout], hmoved⟩
  · obtain ⟨out, hout⟩ := hexpired.report now
    exact ⟨_, out, by simp [hout], hexpired⟩

theorem Bookkept.expire_rbs_timer (h : s.Bookkept acked) (now : Time) :
    ∃ s' out, LteRlcAm.expire_rbs_timer s now = some (s', out) ∧ s'.Bookkept acked := by
  obtain ⟨out, hout⟩ := h.report now
  rw [LteRlcAm.expire_rbs_timer]
  split
  · rw [hout]
    exact ⟨_, out, rfl, h.congr ⟨rfl, rfl, rfl, rfl, rfl, rfl⟩ rfl rfl rfl rfl⟩
  · exact ⟨_, [], rfl, h.congr ⟨rfl, rfl, rfl, rfl, rfl, rfl⟩ rfl rfl rfl rfl⟩

/-- What can happen in a state: SDUs are not empty, transmission opportunities are large enough for what there is to
send, and a peer's NACKs are for PDUs that it has not acknowledged. -/
def Admissible (s : LteRlcAm) (acked : Set (Fin 1024)) : Event → Prop
  | .transmit_pdcp_pdu size => 0 < size
  | .notify_tx_opportunity bytes =>
    4 ≤ bytes ∧ (s.status_pdu_requested ∧ ¬ s.status_prohibit_timer → s.status_pdu_buffer_size ≤ bytes) ∧
      (s.retx_buffer_size = 0 → 0 < s.txon_buffer_size →
        ¬ (s.status_pdu_requested ∧ ¬ s.status_prohibit_timer) → 7 ≤ bytes)
  | .receive_status status => ∀ i ∈ status.nack_sn_list, s.reported status i → i ∉ acked
  | _ => True

/-- The numbers that an event acknowledges. -/
def acknowledged (s : LteRlcAm) : Event → Set (Fin 1024)
  | .receive_status status => {i | s.reported status i ∧ i ∉ status.nack_sn_list}
  | _ => ∅

/-- The states of an entity, with the numbers in the window that have been acknowledged. -/
inductive Reachable : LteRlcAm → Set (Fin 1024) → Prop
  | init (max_tx_buffer_size : UInt32) (always_big_enough : Bool) :
    Reachable {
      max_tx_buffer_size := max_tx_buffer_size
      tx_opportunity_for_retx_always_big_enough := always_big_enough } ∅
  | step {s s' : LteRlcAm} {acked : Set (Fin 1024)} {now : Time} {event : Event} {out : List LteMacSap} :
    Reachable s acked → Admissible s acked event → s.step now event = some (s', out) →
    Reachable s' ((acked ∪ s.acknowledged event) ∩ {i | s'.InWindow i})

/-- The books of the transmitting side. A counter is a 32-bit word: it is the sum of the sizes when that fits. -/
structure Accurate (s : LteRlcAm) (acked : Set (Fin 1024)) : Prop where
  txon_buffer_size : s.txon_buffer_size.toNat = (s.txon_buffer.map fun p => p.pdu.size.toNat).sum % 2 ^ 32
  txed_buffer_size : s.txed_buffer_size.toNat = total (fun r => r.size.toNat) s.txed_buffer % 2 ^ 32
  retx_buffer_size : s.retx_buffer_size.toNat = total (fun r => r.size.toNat) s.retx_buffer % 2 ^ 32
  txon_enough : (s.txon_buffer.map fun p => p.pdu.size.toNat).sum < 2 ^ 32 →
    ∀ p ∈ s.txon_buffer, p.pdu.size ≤ s.txon_buffer_size
  txed_enough : total (fun r => r.size.toNat) s.txed_buffer < 2 ^ 32 →
    ∀ i, (s.txed_buffer i).size ≤ s.txed_buffer_size
  retx_enough : total (fun r => r.size.toNat) s.retx_buffer < 2 ^ 32 →
    ∀ i, (s.retx_buffer i).size ≤ s.retx_buffer_size
  held : ∀ i, s.InWindow i → i ∉ acked → (s.txed_buffer i).pdu.isSome ≠ (s.retx_buffer i).pdu.isSome
  outside : ∀ i, ¬ s.InWindow i → (s.txed_buffer i).pdu = none ∧ (s.retx_buffer i).pdu = none
  window : gap s.vt_a.value s.vt_s.value ≤ 512
  retx_found : 0 < s.retx_buffer_size → ∃ i, s.InWindow i ∧ (s.retx_buffer i).pdu.isSome
  no_assertion : ∀ now event, s.Admissible acked event → (s.step now event).isSome

theorem Bookkept.restrict (h : s.Bookkept acked) : s.Bookkept (acked ∩ {i | s.InWindow i}) := by
  have hiff : ∀ i, s.Outstanding (acked ∩ {i | s.InWindow i}) i ↔ s.Outstanding acked i := by
    intro i
    simp only [Outstanding, Set.mem_inter_iff, Set.mem_ofPred_eq]
    tauto
  exact ⟨h.windowed, h.counted, ⟨fun i hi => h.held.outstanding i ((hiff i).mp hi),
    fun i hi => h.held.rest i fun hout => hi ((hiff i).mpr hout)⟩, h.nonempty⟩

theorem Bookkept.step (h : s.Bookkept acked) (now : Time) (hfresh : ∀ i ∈ acked, s.InWindow i) (hevent : s.Admissible acked event) :
    ∃ s' out, s.step now event = some (s', out) ∧ s'.Bookkept (acked ∪ s.acknowledged event) := by
  have hsame : ∀ {s' : LteRlcAm}, s'.Bookkept acked → s'.Bookkept (acked ∪ ∅) := by
    intro s' hbook
    rwa [Set.union_empty]
  cases event with
  | transmit_pdcp_pdu size =>
    obtain ⟨s', out, heq, hbook⟩ := h.transmit_pdcp_pdu now hevent
    exact ⟨s', out, heq, hsame hbook⟩
  | notify_tx_opportunity bytes =>
    obtain ⟨hfour, hstatus, hseven⟩ := hevent
    obtain ⟨s', out, heq, hbook⟩ := h.notify_tx_opportunity now hfresh hfour hstatus hseven
    exact ⟨s', out, heq, hsame hbook⟩
  | receive_status status =>
    obtain ⟨s', heq, hbook⟩ := h.receive_status hevent
    exact ⟨s', [], by rw [LteRlcAm.step, heq]; rfl, hbook⟩
  | receive_data polling_bit =>
    obtain ⟨s', out, heq, hbook⟩ := h.receive_data now
    exact ⟨s', out, heq, hsame hbook⟩
  | expire_poll_retransmit_timer =>
    obtain ⟨s', out, heq, hbook⟩ := h.expire_poll_retransmit_timer now
    exact ⟨s', out, heq, hsame hbook⟩
  | expire_reordering_timer =>
    exact ⟨_, [], rfl, hsame (h.congr ⟨rfl, rfl, rfl, rfl, rfl, rfl⟩ rfl rfl rfl rfl)⟩
  | expire_status_prohibit_timer =>
    exact ⟨_, [], rfl, hsame (h.congr ⟨rfl, rfl, rfl, rfl, rfl, rfl⟩ rfl rfl rfl rfl)⟩
  | expire_rbs_timer =>
    obtain ⟨s', out, heq, hbook⟩ := h.expire_rbs_timer now
    exact ⟨s', out, heq, hsame hbook⟩

theorem Reachable.bookkept (h : Reachable s acked) : s.Bookkept acked ∧ ∀ i ∈ acked, s.InWindow i := by
  induction h with
  | init max_tx_buffer_size always_big_enough =>
    refine ⟨⟨⟨rfl, rfl, rfl, rfl, rfl, gap_self.trans_le (Nat.zero_le _)⟩, ⟨rfl, ?_, ?_⟩, ⟨?_, fun i _ => ⟨rfl, rfl⟩⟩, by simp⟩, by simp⟩
    · exact (Finset.sum_eq_zero fun i _ => rfl).symm
    · exact (Finset.sum_eq_zero fun i _ => rfl).symm
    · rintro i ⟨hi, _⟩
      exact absurd hi (Nat.not_lt_zero _)
  | step _ hevent hstep ih =>
    obtain ⟨hbook, hfresh⟩ := ih
    obtain ⟨s', out, heq, hnext⟩ := hbook.step _ hfresh hevent
    rw [heq] at hstep
    obtain ⟨rfl, -⟩ := Prod.mk.inj (Option.some.inj hstep)
    exact ⟨hnext.restrict, fun i hi => hi.2⟩

theorem Bookkept.accurate_of_fresh (h : s.Bookkept acked) (hfresh : ∀ i ∈ acked, s.InWindow i) : s.Accurate acked := by
  have htxon : s.txon_buffer_size.toNat = (s.txon_buffer.map fun p => p.pdu.size.toNat).sum % 2 ^ 32 := by
    rw [h.counted.txon, toNat_list_sum, List.map_map]
    rfl
  have htxed : s.txed_buffer_size.toNat = total (fun r => r.size.toNat) s.txed_buffer % 2 ^ 32 := by
    rw [h.counted.txed, toNat_total]
  have hretx : s.retx_buffer_size.toNat = total (fun r => r.size.toNat) s.retx_buffer % 2 ^ 32 := by
    rw [h.counted.retx, toNat_total]
  refine ⟨htxon, htxed, hretx, fun hfits p hp => ?_, fun hfits i => ?_, fun hfits i => ?_, fun i hi hacked => ?_,
    fun i hi => h.held.rest i fun hout => hi hout.1, h.windowed.bounded, fun hpos => ?_, fun now event hevent => ?_⟩
  · rw [UInt32.le_iff_toNat_le, htxon, Nat.mod_eq_of_lt hfits]
    exact List.single_le_sum (fun _ _ => Nat.zero_le _) _ (List.mem_map_of_mem hp)
  · rw [UInt32.le_iff_toNat_le, htxed, Nat.mod_eq_of_lt hfits]
    exact le_total (fun r : RetxPdu => r.size.toNat) s.txed_buffer i
  · rw [UInt32.le_iff_toNat_le, hretx, Nat.mod_eq_of_lt hfits]
    exact le_total (fun r : RetxPdu => r.size.toNat) s.retx_buffer i
  · obtain ⟨hsome, hnone⟩ | ⟨hnone, hsome⟩ := h.held.outstanding i ⟨hi, hacked⟩
    · simp [hsome, hnone]
    · simp [hsome, hnone]
  · exact h.retx_held (UInt32.pos_iff_ne_zero.mp hpos)
  · obtain ⟨s', out, heq, _⟩ := h.step now hfresh hevent
    rw [heq]
    rfl

section Samples

/-- An entity after some events, the last ones first. -/
def after (events : List Event) : LteRlcAm :=
  events.foldr (fun event s => ((s.step 0 event).map Prod.fst).getD s) { max_tx_buffer_size := 0 }

theorem after_cons {events : List Event} (h : (after events).step 0 event = some (s', out)) :
    after (event :: events) = s' := by
  rw [after, List.foldr_cons, ← after, h]
  rfl

theorem after_reachable (events : List Event) (event : Event) (h : Reachable (after events) acked)
    (hevent : (after events).Admissible acked event) :
    Reachable (after (event :: events))
      ((acked ∪ (after events).acknowledged event) ∩ {i | (after (event :: events)).InWindow i}) := by
  obtain ⟨s', out, heq, _⟩ := h.bookkept.1.step 0 h.bookkept.2 hevent
  rw [after_cons heq]
  exact .step h hevent heq

def sampleSdu : Event := .transmit_pdcp_pdu 100

def sampleOpportunity : Event := .notify_tx_opportunity 60

theorem transmit_pdcp_pdu_unlimited (hmax : s.max_tx_buffer_size = 0)
    (h : s.do_transmit_pdcp_pdu now size = some (s', out)) :
    s'.max_tx_buffer_size = 0 ∧ s'.txon_buffer = s.txon_buffer ++ [{ pdu := { size := size }, waiting_since := now }] := by
  rw [do_transmit_pdcp_pdu, if_pos (by simp [hmax])] at h
  obtain ⟨out, _, heq⟩ := Option.bind_eq_some_iff.mp h
  obtain ⟨rfl, -⟩ := Prod.mk.inj (Option.some.inj heq)
  exact ⟨hmax, rfl⟩

theorem after_sdus (hsize : 0 < size) (n : ℕ) :
    ∃ acked, Reachable (after (List.replicate n (.transmit_pdcp_pdu size))) acked ∧
      (after (List.replicate n (.transmit_pdcp_pdu size))).max_tx_buffer_size = 0 ∧
      (after (List.replicate n (.transmit_pdcp_pdu size))).txon_buffer.map (fun p => p.pdu.size.toNat) =
        List.replicate n size.toNat := by
  induction n with
  | zero => exact ⟨_, .init 0 false, rfl, rfl⟩
  | succ n ih =>
    obtain ⟨acked, hreach, hmax, hbuffer⟩ := ih
    obtain ⟨s', out, hstep, _⟩ := hreach.bookkept.1.transmit_pdcp_pdu 0 hsize
    have hnext := after_reachable _ (.transmit_pdcp_pdu size) hreach hsize
    obtain ⟨hmax', hstored⟩ := transmit_pdcp_pdu_unlimited hmax hstep
    have hcons : after (.transmit_pdcp_pdu size :: List.replicate n (.transmit_pdcp_pdu size)) = s' := after_cons hstep
    rw [hcons] at hnext
    rw [List.replicate_succ, hcons]
    refine ⟨_, hnext, hmax', ?_⟩
    rw [hstored, List.map_append, hbuffer, List.map_singleton, ← List.replicate_succ']

end Samples

end Ns3.LteRlcAm
