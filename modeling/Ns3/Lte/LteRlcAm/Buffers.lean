import Ns3.Lte.LteRlcAm

namespace Ns3.LteRlcAm

open Slots

/-- How far one sequence number is ahead of another. -/
def gap (a i : Fin 1024) : ℕ := (i - a).val

/-- The sequence numbers in the transmitting window that have been given out. -/
def InWindow (s : LteRlcAm) (i : Fin 1024) : Prop := gap s.vt_a.value i < gap s.vt_a.value s.vt_s.value

/-- The sequence numbers whose PDUs have been sent and not acknowledged. -/
def Outstanding (s : LteRlcAm) (acked : Set (Fin 1024)) (i : Fin 1024) : Prop := s.InWindow i ∧ i ∉ acked

/-- The state variables of the window, which are compared from VT(A) on. -/
structure Windowed (s : LteRlcAm) : Prop where
  base_a : s.vt_a.modulus_base = s.vt_a.value
  base_s : s.vt_s.modulus_base = s.vt_a.value
  base_ms : s.vt_ms.modulus_base = s.vt_a.value
  window_size : s.window_size = 512
  ms : s.vt_ms.value = s.vt_a.value + 512
  bounded : gap s.vt_a.value s.vt_s.value ≤ 512

/-- The counters are the sums of the sizes of what the buffers hold, as 32-bit words. -/
structure Counted (s : LteRlcAm) : Prop where
  txon : s.txon_buffer_size = (s.txon_buffer.map fun p => p.pdu.size).sum
  txed : s.txed_buffer_size = total RetxPdu.size s.txed_buffer
  retx : s.retx_buffer_size = total RetxPdu.size s.retx_buffer

/-- A PDU that is outstanding is in one of the two buffers, and no other PDU is in either. -/
structure Held (s : LteRlcAm) (acked : Set (Fin 1024)) : Prop where
  outstanding : ∀ i, s.Outstanding acked i →
    ((s.txed_buffer i).pdu.isSome ∧ (s.retx_buffer i).pdu = none) ∨
      ((s.txed_buffer i).pdu = none ∧ (s.retx_buffer i).pdu.isSome)
  rest : ∀ i, ¬ s.Outstanding acked i → (s.txed_buffer i).pdu = none ∧ (s.retx_buffer i).pdu = none

structure Bookkept (s : LteRlcAm) (acked : Set (Fin 1024)) : Prop where
  windowed : s.Windowed
  counted : s.Counted
  held : s.Held acked
  nonempty : ∀ p ∈ s.txon_buffer, 0 < p.pdu.size

/-- Another state with the same window and the same transmission buffer. -/
structure SameWindow (s s' : LteRlcAm) : Prop where
  vt_a : s'.vt_a = s.vt_a
  vt_s : s'.vt_s = s.vt_s
  vt_ms : s'.vt_ms = s.vt_ms
  window_size : s'.window_size = s.window_size
  txon_buffer : s'.txon_buffer = s.txon_buffer
  txon_buffer_size : s'.txon_buffer_size = s.txon_buffer_size

variable {s s' s'' : LteRlcAm} {acked acked' : Set (Fin 1024)} {a i : Fin 1024} {e m : ℕ} {pdu : LteRlcPdu} {now : Time}

section Gap

theorem gap_self : gap a a = 0 := by simp [gap]

theorem gap_lt : gap a i < 1024 := (i - a).isLt

theorem gap_inj {j : Fin 1024} : gap a i = gap a j ↔ i = j := by
  rw [gap, gap, Fin.val_inj, sub_left_inj]

theorem gap_succ (h : gap a i < 1023) : gap a (i + 1) = gap a i + 1 := by
  rw [gap] at h
  rw [gap, add_sub_right_comm, Fin.val_add, gap]
  have hone : (1 : Fin 1024).val = 1 := rfl
  omega

theorem gap_advance (h : i ≠ a) : gap (a + 1) i + 1 = gap a i := by
  have hpos : gap a i ≠ 0 := by
    rw [← gap_self (a := a)]
    exact fun h' => h (gap_inj.mp h')
  have hlt := gap_lt (a := a) (i := i)
  rw [gap, sub_add_eq_sub_sub, Fin.val_sub]
  rw [gap] at hpos hlt ⊢
  have hone : (1 : Fin 1024).val = 1 := rfl
  omega

theorem gap_window : gap a (a + 512) = 512 := by
  rw [gap, add_sub_cancel_left]
  rfl

/-- The numbers at distances from one bound up to another. -/
def Between (a : Fin 1024) (e m : ℕ) (i : Fin 1024) : Prop := e ≤ gap a i ∧ gap a i < m

theorem between_first (hi : gap a i = e) (hm : e < m) (j : Fin 1024) :
    Between a e m j ↔ j = i ∨ Between a (e + 1) m j := by
  rw [Between, Between, ← gap_inj (a := a), hi]
  omega

theorem between_advance (hm : 0 < m) (hlast : m ≤ 1024) (j : Fin 1024) :
    Between a 0 m j ↔ j = a ∨ Between (a + 1) 0 (m - 1) j := by
  by_cases hj : j = a
  · simp [hj, Between, gap_self, hm]
  · have hgap := gap_advance hj
    simp only [Between, hj, false_or]
    omega

end Gap

theorem Windowed.ahead_s (h : s.Windowed) : s.vt_s.ahead = gap s.vt_a.value s.vt_s.value := by
  rw [SequenceNumber10.ahead, h.base_s, gap]

theorem Windowed.ahead_ms (h : s.Windowed) : s.vt_ms.ahead = 512 := by
  rw [SequenceNumber10.ahead, h.base_ms, h.ms]
  exact gap_window

theorem Windowed.ahead_a (h : s.Windowed) : s.vt_a.ahead = 0 := by
  rw [SequenceNumber10.ahead, h.base_a]
  exact gap_self

theorem Windowed.of_same (h : s.Windowed) (hs : SameWindow s s') : s'.Windowed := by
  obtain ⟨ha, hb, hc, hd, _, _⟩ := hs
  constructor <;> simp only [ha, hb, hc, hd, h.base_a, h.base_s, h.base_ms, h.window_size, h.ms, h.bounded]

theorem SameWindow.refl : SameWindow s s := ⟨rfl, rfl, rfl, rfl, rfl, rfl⟩

theorem SameWindow.trans (h : SameWindow s s') (h' : SameWindow s' s'') : SameWindow s s'' where
  vt_a := h'.vt_a.trans h.vt_a
  vt_s := h'.vt_s.trans h.vt_s
  vt_ms := h'.vt_ms.trans h.vt_ms
  window_size := h'.window_size.trans h.window_size
  txon_buffer := h'.txon_buffer.trans h.txon_buffer
  txon_buffer_size := h'.txon_buffer_size.trans h.txon_buffer_size

theorem SameWindow.outstanding (h : SameWindow s s') : s'.Outstanding acked i ↔ s.Outstanding acked i := by
  simp only [Outstanding, InWindow, h.vt_a, h.vt_s]

/-- The state keeps its books when only what they do not mention changes. -/
theorem Bookkept.congr (h : s.Bookkept acked) (hs : SameWindow s s') (htxed : s'.txed_buffer = s.txed_buffer)
    (hretx : s'.retx_buffer = s.retx_buffer) (htxedSize : s'.txed_buffer_size = s.txed_buffer_size)
    (hretxSize : s'.retx_buffer_size = s.retx_buffer_size) : s'.Bookkept acked where
  windowed := h.windowed.of_same hs
  counted := by
    obtain ⟨htxon, ht, hr⟩ := h.counted
    constructor
    · rw [hs.txon_buffer_size, hs.txon_buffer, htxon]
    · rw [htxedSize, htxed, ht]
    · rw [hretxSize, hretx, hr]
  held := by
    obtain ⟨hout, hrest⟩ := h.held
    constructor
    · intro i hi
      rw [htxed, hretx]
      exact hout i (hs.outstanding.mp hi)
    · intro i hi
      rw [htxed, hretx]
      exact hrest i fun h => hi (hs.outstanding.mpr h)
  nonempty := by
    rw [hs.txon_buffer]
    exact h.nonempty

theorem RetxPdu.size_of_some {r : RetxPdu} (h : r.pdu = some pdu) : r.size = pdu.get_size := by
  simp [RetxPdu.size, h]

theorem RetxPdu.size_of_none {r : RetxPdu} (h : r.pdu = none) : r.size = 0 := by
  simp [RetxPdu.size, h]

section Moves

theorem move_to_retx_same : SameWindow s (s.move_to_retx i) := by
  rw [move_to_retx]
  split <;> exact ⟨rfl, rfl, rfl, rfl, rfl, rfl⟩

theorem Bookkept.move_to_retx (h : s.Bookkept acked) : (s.move_to_retx i).Bookkept acked ∧
    (s.Outstanding acked i → ((s.move_to_retx i).retx_buffer i).pdu.isSome) := by
  have hsame := move_to_retx_same (s := s) (i := i)
  cases htxed : (s.txed_buffer i).pdu with
  | none =>
    have heq : s.move_to_retx i = s := by simp only [LteRlcAm.move_to_retx, htxed]
    rw [heq]
    refine ⟨h, fun hi => ?_⟩
    obtain ⟨hsome, _⟩ | ⟨_, hsome⟩ := h.held.outstanding i hi
    · rw [htxed] at hsome
      cases hsome
    · exact hsome
  | some pdu =>
    have hout : s.Outstanding acked i := by
      by_contra hi
      have hnone := (h.held.rest i hi).1
      rw [htxed] at hnone
      cases hnone
    have hretx : (s.retx_buffer i).pdu = none := by
      obtain ⟨_, hnone⟩ | ⟨hnone, _⟩ := h.held.outstanding i hout
      · exact hnone
      · rw [htxed] at hnone
        cases hnone
    have hheld := h.held
    have hcounted := h.counted
    have hnonempty := h.nonempty
    refine ⟨⟨h.windowed.of_same hsame, ?_, ?_, hsame.txon_buffer ▸ hnonempty⟩, fun _ => ?_⟩
    · constructor
      · rw [hsame.txon_buffer_size, hsame.txon_buffer, hcounted.txon]
      · simp only [LteRlcAm.move_to_retx, htxed]
        rw [total_update, hcounted.txed, RetxPdu.size_of_some htxed, RetxPdu.size_of_none rfl, add_zero]
      · simp only [LteRlcAm.move_to_retx, htxed]
        rw [total_update, hcounted.retx, RetxPdu.size_of_none hretx, RetxPdu.size_of_some htxed, sub_zero]
    · constructor
      · intro j hj
        have hj := hsame.outstanding.mp hj
        simp only [LteRlcAm.move_to_retx, htxed, Function.update_apply]
        by_cases hij : j = i
        · simp [hij, htxed]
        · simpa only [hij, if_false] using hheld.outstanding j hj
      · intro j hj
        have hj : ¬ s.Outstanding acked j := fun h => hj (hsame.outstanding.mpr h)
        have hij : j ≠ i := fun h => hj (h ▸ hout)
        simpa only [LteRlcAm.move_to_retx, htxed, Function.update_apply, hij, if_false] using hheld.rest j hj
    · simp only [LteRlcAm.move_to_retx, htxed, Function.update_self]
      rfl

theorem Held.acknowledge (h : s.Held acked) (hs : SameWindow s s') (htxed : (s'.txed_buffer i).pdu = none)
    (hretx : (s'.retx_buffer i).pdu = none) (hothers : ∀ j, j ≠ i → s'.txed_buffer j = s.txed_buffer j ∧
      s'.retx_buffer j = s.retx_buffer j) : s'.Held (insert i acked) := by
  have hiff : ∀ j, s'.Outstanding (insert i acked) j ↔ j ≠ i ∧ s.Outstanding acked j := by
    intro j
    rw [hs.outstanding, Outstanding, Outstanding, Set.mem_insert_iff]
    tauto
  constructor
  · intro j hj
    obtain ⟨hne, hj⟩ := (hiff j).mp hj
    rw [(hothers j hne).1, (hothers j hne).2]
    exact h.outstanding j hj
  · intro j hj
    by_cases hij : j = i
    · subst hij
      exact ⟨htxed, hretx⟩
    · rw [(hothers j hij).1, (hothers j hij).2]
      exact h.rest j fun hout => hj ((hiff j).mpr ⟨hij, hout⟩)

theorem Bookkept.acknowledge (h : s.Bookkept acked) : ∃ s₁, s.ack_txed i = some s₁ ∧
    SameWindow s (s₁.ack_retx i) ∧ (s₁.ack_retx i).Bookkept (insert i acked) := by
  have hcounted := h.counted
  have hempty : (s.txed_buffer i).pdu = none ∨ (s.retx_buffer i).pdu = none := by
    by_cases hi : s.Outstanding acked i
    · obtain ⟨_, hnone⟩ | ⟨hnone, _⟩ := h.held.outstanding i hi
      · exact .inr hnone
      · exact .inl hnone
    · exact .inl (h.held.rest i hi).1
  cases htxed : (s.txed_buffer i).pdu with
  | some pdu =>
    have hretx : (s.retx_buffer i).pdu = none := hempty.resolve_left (by simp [htxed])
    refine ⟨{ s with
      txed_buffer_size := s.txed_buffer_size - pdu.get_size
      txed_buffer := Function.update s.txed_buffer i { s.txed_buffer i with pdu := none, waiting_since := 0 } },
      ?_, ?_, ?_⟩
    · simp [ack_txed, htxed, hretx, ns_assert]
    · simp only [ack_retx, hretx]
      exact ⟨rfl, rfl, rfl, rfl, rfl, rfl⟩
    · simp only [ack_retx, hretx]
      refine ⟨h.windowed.of_same ⟨rfl, rfl, rfl, rfl, rfl, rfl⟩, ⟨hcounted.txon, ?_, hcounted.retx⟩, ?_, h.nonempty⟩
      · rw [total_update, hcounted.txed, RetxPdu.size_of_some htxed, RetxPdu.size_of_none rfl, add_zero]
      · refine h.held.acknowledge ?_ ?_ ?_ ?_
        · exact ⟨rfl, rfl, rfl, rfl, rfl, rfl⟩
        · simp
        · exact hretx
        · intro j hj
          exact ⟨Function.update_of_ne hj _ _, rfl⟩
  | none =>
    refine ⟨s, by simp only [ack_txed, htxed], ?_⟩
    cases hretx : (s.retx_buffer i).pdu with
    | some pdu =>
      simp only [ack_retx, hretx]
      refine ⟨⟨rfl, rfl, rfl, rfl, rfl, rfl⟩, h.windowed.of_same ⟨rfl, rfl, rfl, rfl, rfl, rfl⟩,
        ⟨hcounted.txon, hcounted.txed, ?_⟩, ?_, h.nonempty⟩
      · rw [total_update, hcounted.retx, RetxPdu.size_of_some hretx, RetxPdu.size_of_none rfl, add_zero]
      · refine h.held.acknowledge ?_ ?_ ?_ ?_
        · exact ⟨rfl, rfl, rfl, rfl, rfl, rfl⟩
        · exact htxed
        · simp
        · intro j hj
          exact ⟨rfl, Function.update_of_ne hj _ _⟩
    | none =>
      simp only [ack_retx, hretx]
      exact ⟨.refl, h.windowed, hcounted, h.held.acknowledge .refl htxed hretx fun j _ => ⟨rfl, rfl⟩, h.nonempty⟩

theorem Bookkept.increment_vt_a (h : s.Bookkept acked) (hacked : s.vt_a.value ∈ acked)
    (hpos : 0 < gap s.vt_a.value s.vt_s.value) : s.increment_vt_a.Bookkept acked := by
  have hne : s.vt_s.value ≠ s.vt_a.value := by
    intro heq
    rw [heq, gap_self] at hpos
    exact hpos.false
  have hgap := gap_advance hne
  have hiff : ∀ j, s.increment_vt_a.Outstanding acked j ↔ s.Outstanding acked j := by
    intro j
    by_cases hj : j = s.vt_a.value
    · subst hj
      simp [Outstanding, hacked]
    · have hgap' := gap_advance hj
      simp only [Outstanding, InWindow, LteRlcAm.increment_vt_a, set_modulus_bases, SequenceNumber10.set_modulus_base,
        SequenceNumber10.next]
      rw [← hgap, ← hgap', Nat.add_lt_add_iff_right]
  have hbounded := h.windowed.bounded
  refine ⟨⟨rfl, rfl, rfl, h.windowed.window_size, ?_, ?_⟩, ⟨h.counted.txon, h.counted.txed, h.counted.retx⟩, ?_, h.nonempty⟩
  · simp only [LteRlcAm.increment_vt_a, set_modulus_bases, SequenceNumber10.set_modulus_base, SequenceNumber10.next,
      SequenceNumber10.add, h.windowed.window_size]
  · simp only [LteRlcAm.increment_vt_a, set_modulus_bases, SequenceNumber10.set_modulus_base, SequenceNumber10.next]
    omega
  · exact ⟨fun j hj => h.held.outstanding j ((hiff j).mp hj), fun j hj => h.held.rest j fun h => hj ((hiff j).mpr h)⟩

theorem Bookkept.move_to_txed (h : s.Bookkept acked) (hpdu : (s.retx_buffer i).pdu = some pdu) :
    (s.move_to_txed now i pdu).Bookkept acked := by
  have hout : s.Outstanding acked i := by
    by_contra hi
    have hnone := (h.held.rest i hi).2
    rw [hpdu] at hnone
    cases hnone
  have htxed : (s.txed_buffer i).pdu = none := by
    obtain ⟨_, hnone⟩ | ⟨hnone, _⟩ := h.held.outstanding i hout
    · rw [hpdu] at hnone
      cases hnone
    · exact hnone
  have hcounted := h.counted
  refine ⟨h.windowed.of_same ⟨rfl, rfl, rfl, rfl, rfl, rfl⟩, ⟨hcounted.txon, ?_, ?_⟩, ?_, h.nonempty⟩
  · simp only [LteRlcAm.move_to_txed]
    rw [total_update, hcounted.txed, RetxPdu.size_of_none htxed, RetxPdu.size_of_some rfl, sub_zero]
  · simp only [LteRlcAm.move_to_txed]
    rw [total_update, hcounted.retx, RetxPdu.size_of_some hpdu, RetxPdu.size_of_none rfl, add_zero]
  · constructor
    · intro j hj
      simp only [LteRlcAm.move_to_txed, Function.update_apply]
      by_cases hij : j = i
      · simp [hij]
      · simpa only [hij, if_false] using h.held.outstanding j hj
    · intro j hj
      have hij : j ≠ i := fun heq => hj (heq ▸ hout)
      simpa only [LteRlcAm.move_to_txed, Function.update_apply, hij, if_false] using h.held.rest j hj

theorem Bookkept.put_txed (h : s.Bookkept acked) (hfresh : ∀ j ∈ acked, s.InWindow j)
    (hroom : gap s.vt_a.value s.vt_s.value < 512) :
    (LteRlcAm.put_txed { s with vt_s := s.vt_s.next } now s.vt_s.value pdu).Bookkept acked := by
  have hgap : gap s.vt_a.value (s.vt_s.value + 1) = gap s.vt_a.value s.vt_s.value + 1 := gap_succ (by omega)
  have hnot : ¬ s.Outstanding acked s.vt_s.value := fun hout => hout.1.false
  have hiff : ∀ j, (LteRlcAm.put_txed { s with vt_s := s.vt_s.next } now s.vt_s.value pdu).Outstanding acked j ↔
      j = s.vt_s.value ∨ s.Outstanding acked j := by
    intro j
    simp only [Outstanding, InWindow, LteRlcAm.put_txed, SequenceNumber10.next]
    rw [hgap, ← gap_inj (a := s.vt_a.value)]
    have hnew : gap s.vt_a.value j = gap s.vt_a.value s.vt_s.value → j ∉ acked := by
      intro heq hj
      have hlt : gap s.vt_a.value j < gap s.vt_a.value s.vt_s.value := hfresh j hj
      omega
    constructor
    · rintro ⟨hlt, hj⟩
      obtain hlt | heq := Nat.lt_succ_iff_lt_or_eq.mp hlt
      · exact .inr ⟨hlt, hj⟩
      · exact .inl heq
    · rintro (heq | ⟨hlt, hj⟩)
      · exact ⟨by omega, hnew heq⟩
      · exact ⟨by omega, hj⟩
  obtain ⟨htxed, hretx⟩ := h.held.rest _ hnot
  have hcounted := h.counted
  have hwindowed := h.windowed
  refine ⟨⟨hwindowed.base_a, hwindowed.base_s, hwindowed.base_ms, hwindowed.window_size, hwindowed.ms, ?_⟩,
    ⟨hcounted.txon, ?_, hcounted.retx⟩, ?_, h.nonempty⟩
  · simp only [LteRlcAm.put_txed, SequenceNumber10.next]
    omega
  · simp only [LteRlcAm.put_txed]
    rw [total_update, hcounted.txed, RetxPdu.size_of_none htxed, RetxPdu.size_of_some rfl, sub_zero]
  · constructor
    · intro j hj
      simp only [LteRlcAm.put_txed, Function.update_apply]
      obtain rfl | hj := (hiff j).mp hj
      · simp [hretx]
      · have hne : j ≠ s.vt_s.value := fun heq => hnot (heq ▸ hj)
        simpa only [hne, if_false] using h.held.outstanding j hj
    · intro j hj
      have hne : j ≠ s.vt_s.value := fun heq => hj ((hiff j).mpr (.inl heq))
      simpa only [LteRlcAm.put_txed, Function.update_apply, hne, if_false] using
        h.held.rest j fun hout => hj ((hiff j).mpr (.inr hout))

end Moves

end Ns3.LteRlcAm
