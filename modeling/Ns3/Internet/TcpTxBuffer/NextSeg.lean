import Ns3.Internet.TcpTxBuffer.Transmit

/-! What `NextSeg` picks to be sent next, and that it can be sent. -/

namespace Ns3.TcpTxBuffer

open Transition

def Waiting (item : TcpTxItem) : Bool := !item.retrans && !item.sacked

/-- How many bytes `SendPendingData` sends of the range that `NextSeg` gives. -/
def send_pending_size (availableWindow segmentSize : UInt32) (next nextHigh : SequenceNumber32) : UInt32 :=
  min (min availableWindow segmentSize) (nextHigh.sub next).toUInt32

variable {s s' : TcpTxBuffer} {l l' A B : List TcpTxItem} {base seq high : SequenceNumber32} {p q node : ℕ} {item : TcpTxItem}
  {rest : List TcpTxItem} {now : Time} {n r_wnd : UInt32} {isRecovery : Bool} {rule3 : Option SequenceNumber32 × SequenceNumber32}

theorem scan_lost (isRecovery : Bool) (rule3 : Option SequenceNumber32 × SequenceNumber32) (hplaced : Placed base p l) (h : l.find? (fun item => Waiting item && item.lost) = some item) :
    scan isRecovery (base.plus p) rule3 l = (some item.start_seq, none) := by
  induction l generalizing p rule3 with
  | nil => cases h
  | cons first l ih =>
    obtain ⟨hstart, _, hrest⟩ := hplaced
    rw [List.find?_cons] at h
    rw [scan, plus_get_size]
    cases hwaiting : (!first.retrans && !first.sacked) with
    | false =>
      rw [Waiting, hwaiting] at h
      rw [if_neg Bool.false_ne_true]
      exact ih _ hrest h
    | true =>
      rw [if_pos rfl]
      cases hlost : first.lost with
      | true =>
        rw [Waiting, hwaiting, hlost] at h
        cases h
        rw [if_pos rfl, hstart]
      | false =>
        rw [Waiting, hwaiting, hlost] at h
        rw [if_neg Bool.false_ne_true]
        split
        · exact ih _ hrest h
        · exact ih _ hrest h

theorem scan_kept (rule3 : Option SequenceNumber32 × SequenceNumber32) (hplaced : Placed base p l)
    (h : l.find? (fun item => Waiting item && item.lost) = none)
    (hkept : isRecovery = false ∨ rule3.2.value ≠ 0 ∨ l.find? Waiting = none) :
    scan isRecovery (base.plus p) rule3 l = (none, rule3.1) := by
  induction l generalizing p with
  | nil => rfl
  | cons first l ih =>
    obtain ⟨hstart, _, hrest⟩ := hplaced
    rw [List.find?_cons] at h hkept
    rw [scan, plus_get_size]
    cases hwaiting : (!first.retrans && !first.sacked) with
    | false =>
      rw [Waiting, hwaiting] at h hkept
      rw [if_neg Bool.false_ne_true]
      exact ih hrest h hkept
    | true =>
      rw [if_pos rfl]
      cases hlost : first.lost with
      | true =>
        rw [Waiting, hwaiting, hlost] at h
        cases h
      | false =>
        rw [Waiting, hwaiting, hlost] at h
        rw [Waiting, hwaiting] at hkept
        have hkept' : isRecovery = false ∨ rule3.2.value ≠ 0 := by
          rcases hkept with hkept | hkept | hkept
          · exact .inl hkept
          · exact .inr hkept
          · cases hkept
        have hnot : ¬(decide (rule3.2.value = 0) && isRecovery) = true := by
          rw [Bool.and_eq_true, decide_eq_true_eq]
          rintro ⟨hzero, hrecovery⟩
          rcases hkept' with hkept' | hkept'
          · rw [hrecovery] at hkept'
            cases hkept'
          · exact hkept' hzero
        rw [if_neg Bool.false_ne_true, if_neg hnot]
        exact ih hrest h (hkept'.imp_right .inl)

theorem scan_rule3 (rule3 : Option SequenceNumber32 × SequenceNumber32) (hplaced : Placed base p l)
    (h : l.find? (fun item => Waiting item && item.lost) = none)
    (hrule3 : rule3.2.value = 0) (hfind : l.find? Waiting = some item) (hstart : item.start_seq.value ≠ 0) :
    scan true (base.plus p) rule3 l = (none, some item.start_seq) := by
  induction l generalizing p with
  | nil => cases hfind
  | cons first l ih =>
    obtain ⟨hfirst, _, hrest⟩ := hplaced
    rw [List.find?_cons] at h hfind
    rw [scan, plus_get_size]
    cases hwaiting : (!first.retrans && !first.sacked) with
    | false =>
      rw [Waiting, hwaiting] at h hfind
      rw [if_neg Bool.false_ne_true]
      exact ih hrest h hfind
    | true =>
      rw [if_pos rfl]
      cases hlost : first.lost with
      | true =>
        rw [Waiting, hwaiting, hlost] at h
        cases h
      | false =>
        rw [Waiting, hwaiting, hlost] at h
        rw [Waiting, hwaiting] at hfind
        cases hfind
        have hzero : (decide (rule3.2.value = 0) && true) = true := by rw [decide_eq_true hrule3]; rfl
        rw [if_neg Bool.false_ne_true, if_pos hzero, ← hfirst]
        exact scan_kept _ hrest h (.inr (.inl hstart))

theorem scan_mem {r : Option SequenceNumber32 × Option SequenceNumber32} (hplaced : Placed base p l)
    (h : scan isRecovery (base.plus p) rule3 l = r) :
    (∀ seq ∈ r.1, ∃ item ∈ l, (Waiting item && item.lost) = true ∧ item.start_seq = seq) ∧
      ∀ seq ∈ r.2, rule3.1 = some seq ∨ ∃ item ∈ l, Waiting item = true ∧ item.start_seq = seq := by
  induction l generalizing p rule3 with
  | nil =>
    cases h
    refine ⟨fun seq hseq => ?_, fun seq hseq => .inl hseq⟩
    cases hseq
  | cons first l ih =>
    obtain ⟨hstart, _, hrest⟩ := hplaced
    have hlater : ∀ rule3, scan isRecovery (base.plus (p + first.packet.length)) rule3 l = r →
        (∀ seq ∈ r.1, ∃ item ∈ first :: l, (Waiting item && item.lost) = true ∧ item.start_seq = seq) ∧
          ∀ seq ∈ r.2, rule3.1 = some seq ∨ ∃ item ∈ first :: l, Waiting item = true ∧ item.start_seq = seq := by
      intro rule3 h
      obtain ⟨hfirst, hthird⟩ := ih hrest h
      refine ⟨fun seq hseq => ?_, fun seq hseq => (hthird seq hseq).imp_right fun ⟨item, hitem, hrest⟩ => ⟨item, by simp [hitem], hrest⟩⟩
      obtain ⟨item, hitem, hrest⟩ := hfirst seq hseq
      exact ⟨item, by simp [hitem], hrest⟩
    rw [scan, plus_get_size] at h
    cases hwaiting : (!first.retrans && !first.sacked) with
    | false =>
      rw [hwaiting, if_neg Bool.false_ne_true] at h
      exact hlater rule3 h
    | true =>
      rw [hwaiting, if_pos rfl] at h
      split at h
      next hlost =>
        cases h
        refine ⟨fun seq hseq => ?_, fun seq hseq => ?_⟩
        · cases hseq
          exact ⟨first, by simp, by rw [Waiting, hwaiting, hlost]; rfl, hstart⟩
        · cases hseq
      next =>
        split at h
        · obtain ⟨hone, hthree⟩ := hlater _ h
          refine ⟨hone, fun seq hseq => .inr ?_⟩
          rcases hthree seq hseq with heq | hmem
          · cases heq
            exact ⟨first, by simp, hwaiting, hstart⟩
          · exact hmem
        · exact hlater rule3 h

/-- What `NextSeg` returns, by the first rule that applies. -/
structure Rules (s : TcpTxBuffer) (r_wnd : UInt32) (isRecovery : Bool) (r : Option (SequenceNumber32 × SequenceNumber32)) : Prop where
  lost : ∀ item, s.sent_list.find? (fun item => Waiting item && item.lost) = some item →
    r = some (item.start_seq, item.start_seq.add s.segment_size)
  unsent : s.sent_list.find? (fun item => Waiting item && item.lost) = none → s.app_list ≠ [] →
    r = if s.sent_size ≤ r_wnd then
        some (s.first_byte_seq.add s.sent_size,
          (s.first_byte_seq.add s.sent_size).add (min s.segment_size (r_wnd - s.sent_size)))
      else none
  waiting : s.sent_list.find? (fun item => Waiting item && item.lost) = none → s.app_list = [] → isRecovery = true →
    ∀ item, s.sent_list.find? Waiting = some item → item.start_seq.value ≠ 0 →
      r = some (item.start_seq, item.start_seq.add s.segment_size)
  nothing : s.sent_list.find? (fun item => Waiting item && item.lost) = none → s.app_list = [] →
    isRecovery = false ∨ s.sent_list.find? Waiting = none → r = none

theorem Shape.app_pos (h : Shape s) : 0 < total s.app_list ↔ s.app_list ≠ [] := by
  have hpos := h.app
  cases hlist : s.app_list with
  | nil => simp
  | cons item rest =>
    have hitem := hpos item (by rw [hlist]; simp)
    rw [total_cons]
    exact ⟨fun _ => List.cons_ne_nil _ _, fun _ => by omega⟩

theorem Shape.unsent_iff (h : Shape s) : s.size_from_sequence (s.first_byte_seq.add s.sent_size) > 0 ↔ s.app_list ≠ [] := by
  have hfrom := h.size_from (q := total s.sent_list) (Nat.le_add_right _ _)
  have hlt := h.lt
  rw [h.sent_end, hfrom, Nat.add_sub_cancel_left, ← h.app_pos, gt_iff_lt, UInt32.lt_iff_toNat_lt,
    UInt32.toNat_ofNat_of_lt' (lt_of_le_of_lt (Nat.le_add_left _ _) (hlt.trans (by decide)))]
  rfl

theorem Shape.rules (h : Shape s) (r_wnd : UInt32) (isRecovery : Bool) : Rules s r_wnd isRecovery (s.next_seg r_wnd isRecovery) := by
  have hplaced := h.placed
  have hunsent := h.unsent_iff
  have hzero : s.first_byte_seq.plus 0 = s.first_byte_seq := SequenceNumber32.plus_zero _
  refine ⟨fun item hfind => ?_, fun hfind happ => ?_, fun hfind happ hrecovery item hitem hstart => ?_, fun hfind happ hnone => ?_⟩
  · have hscan := scan_lost isRecovery (none, ⟨0⟩) hplaced hfind
    rw [hzero] at hscan
    rw [next_seg, hscan]
  · obtain ⟨r, hscan⟩ : ∃ r, scan isRecovery s.first_byte_seq (none, ⟨0⟩) s.sent_list = (none, r) := by
      cases hscan : scan isRecovery s.first_byte_seq (none, ⟨0⟩) s.sent_list with
      | mk one three =>
        cases one with
        | none => exact ⟨three, rfl⟩
        | some seq =>
          rw [← hzero] at hscan
          obtain ⟨item, hitem, hlost, _⟩ := (scan_mem hplaced hscan).1 seq rfl
          exact absurd hlost (List.find?_eq_none.mp hfind item hitem)
    rw [next_seg, hscan]
    dsimp only
    rw [if_pos (hunsent.mpr happ)]
  · have hscan := scan_rule3 (none, ⟨0⟩) hplaced hfind rfl hitem hstart
    rw [hzero] at hscan
    rw [next_seg, hrecovery, hscan]
    dsimp only
    rw [if_neg (fun hpos => hunsent.mp hpos happ)]
    rfl
  · have hscan := scan_kept (none, ⟨0⟩) hplaced hfind (hnone.imp_right .inr)
    rw [hzero] at hscan
    rw [next_seg, hscan]
    dsimp only
    rw [if_neg (fun hpos => hunsent.mp hpos happ)]
    rfl

theorem Shape.range (h : Shape s) (hseg : s.next_seg r_wnd isRecovery = some (seq, high)) :
    (∃ A item B, s.sent_list = A ++ item :: B ∧ item.sacked = false ∧ item.start_seq = seq ∧ high = seq.add s.segment_size) ∨
      s.app_list ≠ [] ∧ s.sent_size ≤ r_wnd ∧ seq = s.first_byte_seq.plus (total s.sent_list) ∧
        high = seq.add (min s.segment_size (r_wnd - s.sent_size)) := by
  have hzero : s.first_byte_seq.plus 0 = s.first_byte_seq := SequenceNumber32.plus_zero _
  have hunsent := h.unsent_iff
  have hwaiting : ∀ item ∈ s.sent_list, Waiting item = true → item.start_seq = seq → high = seq.add s.segment_size →
      ∃ A item B, s.sent_list = A ++ item :: B ∧ item.sacked = false ∧ item.start_seq = seq ∧ high = seq.add s.segment_size := by
    intro item hitem hwaiting hstart hhigh
    obtain ⟨A, B, hlist⟩ := List.append_of_mem hitem
    rw [Waiting, Bool.and_eq_true, Bool.not_eq_true', Bool.not_eq_true'] at hwaiting
    exact ⟨A, item, B, hlist, hwaiting.2, hstart, hhigh⟩
  cases hscan : scan isRecovery s.first_byte_seq (none, ⟨0⟩) s.sent_list with
  | mk one three =>
    rw [next_seg, hscan] at hseg
    rw [← hzero] at hscan
    obtain ⟨hone, hthree⟩ := scan_mem h.placed hscan
    cases one with
    | some start =>
      cases hseg
      obtain ⟨item, hitem, hlost, hstart⟩ := hone seq rfl
      rw [Bool.and_eq_true] at hlost
      exact .inl (hwaiting item hitem hlost.1 hstart rfl)
    | none =>
      dsimp only at hseg
      split at hseg
      next hpos =>
        obtain ⟨hwnd, hseg⟩ := Option.ite_none_right_eq_some.mp hseg
        cases hseg
        exact .inr ⟨hunsent.mp hpos, hwnd, h.sent_end, rfl⟩
      next =>
        obtain ⟨start, hstart, hseg⟩ := Option.map_eq_some_iff.mp hseg
        cases hseg
        obtain ⟨item, hitem, hwait, hitemStart⟩ := (hthree seq hstart).resolve_left (by simp)
        exact .inl (hwaiting item hitem hwait hitemStart rfl)

theorem add_ne {n : UInt32} (hn : n ≠ 0) (seq : SequenceNumber32) : seq ≠ seq.add n := by
  intro heq
  rw [SequenceNumber32.add] at heq
  have hvalue : seq.value = seq.value + n := congrArg SequenceNumber32.value heq
  exact hn (by grind)

theorem sub_ne_zero {a b : SequenceNumber32} (h : a ≠ b) : (b.sub a).toUInt32 ≠ 0 := by
  rw [SequenceNumber32.sub_toUInt32]
  intro heq
  refine h ?_
  cases a
  cases b
  simp only [SequenceNumber32.mk.injEq] at heq ⊢
  grind

theorem Shape.item_end (h : Shape s) (hcopy : s.copy_from_sequence now n seq = some (some item, s')) :
    item.start_seq = seq ∧ 0 < item.packet.length ∧ item.get_size ≤ n ∧
      (item.start_seq.add item.get_size).less_equal s.tail_sequence = true := by
  have hs' := h.copy_from_sequence hcopy
  have hlt := h.lt
  have hfacts : item ∈ s'.sent_list ∧ s'.first_byte_seq = s.first_byte_seq ∧ s'.size = s.size ∧ item.start_seq = seq ∧
      item.packet.length ≤ n.toNat := by
    rcases h.copy_spec hcopy with ⟨hout, _⟩ | ⟨kept, m, front, new, behind, after, hresent, hout, hstart, hle⟩ |
      ⟨new, hsent, hout, hstart, hle⟩
    · cases hout
    · cases hout
      exact ⟨by rw [hresent.list']; simp, by rw [hresent.rest], by rw [hresent.rest], hstart, hle⟩
    · cases hout
      exact ⟨by rw [hsent.list]; simp, by rw [hsent.rest], by rw [hsent.rest], hstart, hle⟩
  obtain ⟨hmem, hfirst, hsize, hstart, hle⟩ := hfacts
  have hall : total s'.sent_list + total s'.app_list = total s.sent_list + total s.app_list := by
    have hlt' := hs'.lt
    have hsizes := hs'.size.symm.trans (hsize.trans h.size)
    rw [← UInt32.toNat_inj, UInt32.toNat_ofNat_of_lt' (hlt'.trans (by decide)), UInt32.toNat_ofNat_of_lt' (hlt.trans (by decide))] at hsizes
    exact hsizes
  obtain ⟨k, hk, hend⟩ := hs'.placed.mem hmem
  have hpos := hs'.placed.pos item hmem
  rw [hfirst, Nat.zero_add] at hk
  refine ⟨hstart, hpos, ?_, ?_⟩
  · rw [UInt32.le_iff_toNat_le, get_size_toNat (by omega)]
    exact hle
  · rw [hk, plus_get_size, h.tail, SequenceNumber32.less_equal_plus (by omega) (by omega)]
    exact decide_eq_true (by omega)

def half_sent : TcpTxBuffer := {
  app_list := [⟨0, [2], ⟨1⟩, false, false, -2 ^ 63, false⟩]
  sent_list := [⟨2, [1], ⟨1⟩, false, false, 0, false⟩]
  size := 2
  sent_size := 1
  first_byte_seq := ⟨1⟩
  segment_size := 5
  next_node := 3 }

theorem reachable_half_sent : Reachable (fun s => ∃ n, s = TcpTxBuffer.init n) step Admitted half_sent :=
  (Reachable.init ⟨⟨1⟩, rfl⟩).execute (show execute step Admitted (TcpTxBuffer.init ⟨1⟩) [.set_segment_size 5,
    .add [1, 2], .copy_from_sequence 0 1 ⟨1⟩] = some half_sent by decide +kernel)

end Ns3.TcpTxBuffer
