import Ns3.Internet.TcpTxBuffer.Update

/-! Which items a SACK option makes sacked and lost. -/

namespace Ns3.TcpTxBuffer

open Transition

variable {s s' : TcpTxBuffer} {l l' A B : List TcpTxItem} {base : SequenceNumber32} {p q t node : ℕ} {thresh : UInt32}
  {item P T : TcpTxItem} {rest : List TcpTxItem} {n offset lost_out bytes : UInt32} {list : List SackBlock} {tally : Tally}
  {c f : TcpTxItem → Bool}

def scored (thresh : UInt32) (list : List SackBlock) (l : List TcpTxItem) : List TcpTxItem :=
  relabel thresh.toNat (l.map (touch (covered list)))

/-- What the callers of `Update` see to: a threshold is set, there is sent data, the blocks are not beyond it and none
covers the first item, and the item below the highest one that is sacked at the end is not sacked later than that. -/
def Orderly (s : TcpTxBuffer) (list : List SackBlock) : Prop :=
  0 < s.dup_ack_thresh.toNat ∧ s.sent_list ≠ [] ∧
    (∀ block ∈ list, (s.first_byte_seq.add s.sent_size).less block.1 = false ∧
      (s.first_byte_seq.add s.sent_size).greater_equal block.2 = true ∧
      ∀ item ∈ s.sent_list.head?, covers block item = false) ∧
    overtakes list s.sent_list = false

instance (s : TcpTxBuffer) (list : List SackBlock) : Decidable (Orderly s list) :=
  inferInstanceAs (Decidable (_ ∧ _ ∧ _ ∧ _))

theorem exists_last (h : ∃ i ∈ l, f i = true) : ∃ A T B, l = A ++ T :: B ∧ f T = true ∧ ∀ i ∈ B, f i = false := by
  induction l with
  | nil =>
    obtain ⟨i, hi, _⟩ := h
    cases hi
  | cons item l ih =>
    by_cases hl : ∃ i ∈ l, f i = true
    · obtain ⟨A, T, B, rfl, hT, hB⟩ := ih hl
      exact ⟨item :: A, T, B, rfl, hT, hB⟩
    · have hnone : ∀ i ∈ l, f i = false := fun i hi => by
        by_contra hnot
        exact hl ⟨i, hi, by simpa using hnot⟩
      obtain ⟨i, hi, hitem⟩ := h
      rcases List.mem_cons.mp hi with rfl | hi
      · exact ⟨[], i, l, rfl, hitem, hnone⟩
      · exact absurd ⟨i, hi, hitem⟩ hl

theorem highest_of_split (hT : T.sacked = true) (hB : ∀ i ∈ B, i.sacked = false) :
    highest (A ++ T :: B) = (some T.node, T.start_seq) := by
  have hnil : B.filter TcpTxItem.sacked = [] := by
    rw [List.filter_eq_nil_iff]
    intro i hi
    rw [hB i hi]
    exact Bool.false_ne_true
  rw [highest, List.filter_append, List.filter_cons, if_pos hT, hnil, List.getLast?_concat]

theorem relabel_of_unsacked (hthresh : 0 < thresh.toNat) (h : ∀ i ∈ l, i.sacked = false) : relabel thresh.toNat l = l :=
  relabel_of_marked (marked_of_unsacked hthresh h)

theorem countP_of_unsacked (h : ∀ i ∈ l, i.sacked = false) : l.countP TcpTxItem.sacked = 0 := by
  rw [List.countP_eq_zero]
  intro i hi
  rw [h i hi]
  exact Bool.false_ne_true

/-- What the turn of an item does, when those above it are marked. -/
theorem mark_lost_eq (thresh : UInt32) (item : TcpTxItem) (l : List TcpTxItem) (lost_out : UInt32) :
    ∃ lost_out', mark_lost thresh item (relabel thresh.toNat l, l.countP TcpTxItem.sacked, lost_out) =
        (relabel thresh.toNat (item :: l), (item :: l).countP TcpTxItem.sacked, lost_out') ∧
      lost_out' + bytes_of TcpTxItem.lost (item :: l) + bytes_of TcpTxItem.lost (relabel thresh.toNat l) =
        lost_out + bytes_of TcpTxItem.lost l + bytes_of TcpTxItem.lost (relabel thresh.toNat (item :: l)) := by
  rw [mark_lost, relabel, List.countP_cons, bytes_of_cons, bytes_of_cons]
  rcases item with ⟨_, packet, _, lost, _, _, sacked⟩
  cases sacked with
  | true =>
    refine ⟨lost_out, by simp, ?_⟩
    simp only [Bool.not_true, Bool.false_and, Bool.or_false]
    grind
  | false =>
    cases lost with
    | true =>
      refine ⟨lost_out, by simp, ?_⟩
      simp only [Bool.true_or, if_true, get_size_eq]
      grind
    | false =>
      by_cases hle : thresh.toNat ≤ l.countP TcpTxItem.sacked
      · refine ⟨lost_out + packet.get_size, by simp [hle, TcpTxItem.get_size], ?_⟩
        simp only [hle, decide_true, Bool.not_false, Bool.and_self, Bool.or_true, if_true, TcpTxItem.get_size, Bool.false_eq_true, if_false]
        grind
      · refine ⟨lost_out, by simp [hle], ?_⟩
        simp only [hle, decide_false, Bool.and_false, Bool.or_false, Bool.false_eq_true, if_false]
        grind

theorem mark_lost_from_eq (lost_out : UInt32) (hthresh : 0 < thresh.toNat) (hB : ∀ i ∈ B, i.sacked = false)
    (hA : ∀ i ∈ A, i.node ≠ T.node) :
    ∃ lost_out', mark_lost_from thresh T.node lost_out (A ++ T :: B) =
        some (relabel thresh.toNat (A ++ T :: B), (A ++ T :: B).countP TcpTxItem.sacked, lost_out') ∧
      lost_out' + bytes_of TcpTxItem.lost (A ++ T :: B) = lost_out + bytes_of TcpTxItem.lost (relabel thresh.toNat (A ++ T :: B)) := by
  induction A with
  | nil =>
    obtain ⟨lost_out', heq, hbytes⟩ := mark_lost_eq thresh T B lost_out
    rw [relabel_of_unsacked hthresh hB, countP_of_unsacked hB] at heq
    rw [relabel_of_unsacked hthresh hB] at hbytes
    refine ⟨lost_out', ?_, ?_⟩
    · rw [List.nil_append, mark_lost_from, if_pos rfl, heq]
    · rw [List.nil_append]
      grind
  | cons a A ih =>
    obtain ⟨mid, hmid, hbytes⟩ := ih fun i hi => hA i (by simp [hi])
    obtain ⟨lost_out', heq, hbytes'⟩ := mark_lost_eq thresh a (A ++ T :: B) mid
    refine ⟨lost_out', ?_, ?_⟩
    · rw [List.cons_append, mark_lost_from, if_neg (hA a (by simp)), hmid, Option.map_some, heq]
    · rw [List.cons_append]
      grind

theorem update_lost_count_eq (hthresh : 0 < s.dup_ack_thresh.toNat) (hsome : ∃ i ∈ s.sent_list, i.sacked = true)
    (hhead : ∀ item ∈ s.sent_list.head?, item.sacked = false) (hdistinct : (s.sent_list.map TcpTxItem.node).Nodup)
    (hhighest : s.highest_sack = highest s.sent_list) (hlost : s.lost_out = bytes_of TcpTxItem.lost s.sent_list) :
    s.update_lost_count = some { s with
      sent_list := relabel s.dup_ack_thresh.toNat s.sent_list
      lost_out := bytes_of TcpTxItem.lost (relabel s.dup_ack_thresh.toNat s.sent_list) } := by
  obtain ⟨A, T, B, hlist, hT, hB⟩ := exists_last hsome
  rw [hlist] at hhead hdistinct hlost
  rw [hlist, highest_of_split hT hB] at hhighest
  cases A with
  | nil =>
    have hnot := hhead T rfl
    rw [hT] at hnot
    cases hnot
  | cons head A =>
    have hsacked := hhead head rfl
    rw [List.map_append, List.map_cons, List.map_cons] at hdistinct
    have hnodup := List.nodup_append.mp hdistinct
    have hA : ∀ i ∈ head :: A, i.node ≠ T.node := fun i hi =>
      hnodup.2.2 _ (by rw [← List.map_cons]; exact List.mem_map_of_mem hi) _ (by simp)
    obtain ⟨mid, hmid, hbytes⟩ := mark_lost_from_eq s.lost_out hthresh hB fun i (hi : i ∈ A) => hA i (by simp [hi])
    rw [update_lost_count, hlist, hhighest]
    dsimp only [List.cons_append]
    rw [if_neg (hA head (by simp)), hmid, Option.bind_eq_bind, Option.bind_some]
    dsimp only
    rw [List.cons_append, bytes_of_cons] at hlost
    rw [relabel]
    rcases head with ⟨_, _, _, lost, _, _, sacked⟩
    obtain rfl : sacked = false := hsacked
    cases lost with
    | true =>
      simp only [Bool.not_true, Bool.false_eq_true, and_false, if_false, Bool.true_or, bytes_of_cons, if_true] at hlost ⊢
      simp only [get_size_eq] at hlost ⊢
      congr 2
      grind
    | false =>
      by_cases hle : s.dup_ack_thresh.toNat ≤ (A ++ T :: B).countP TcpTxItem.sacked
      · simp only [hle, decide_true, Bool.not_false, Bool.and_self, Bool.or_true, bytes_of_cons, if_true,
          Bool.false_eq_true, if_false] at hlost ⊢
        simp only [get_size_eq] at hlost ⊢
        grind
      · simp only [hle, decide_false, Bool.and_false, Bool.or_false, bytes_of_cons, false_and, Bool.false_eq_true,
          if_false] at hlost ⊢
        grind

def score (s : TcpTxBuffer) (list : List SackBlock) : TcpTxBuffer :=
  { s with
    sent_list := scored s.dup_ack_thresh list s.sent_list
    sacked_out := bytes_of TcpTxItem.sacked (scored s.dup_ack_thresh list s.sent_list)
    lost_out := bytes_of TcpTxItem.lost (scored s.dup_ack_thresh list s.sent_list)
    highest_sack := highest (scored s.dup_ack_thresh list s.sent_list) }

theorem filter_relabel (thresh : ℕ) (l : List TcpTxItem) :
    ((relabel thresh l).filter TcpTxItem.sacked).map key = (l.filter TcpTxItem.sacked).map key := by
  induction l with
  | nil => rfl
  | cons item l ih =>
    rw [relabel, List.filter_cons, List.filter_cons]
    dsimp only
    split
    · rw [List.map_cons, List.map_cons, ih]
      rfl
    · exact ih

theorem apart_relabel (thresh : ℕ) (h : ∀ i ∈ l, i.sacked = true → i.lost = false) :
    ∀ i ∈ relabel thresh l, i.sacked = true → i.lost = false := by
  induction l with
  | nil => exact fun i hi => nomatch hi
  | cons item l ih =>
    intro i hi hsacked
    rw [relabel] at hi
    rcases List.mem_cons.mp hi with rfl | hi
    · have hitem : item.sacked = true := hsacked
      show (item.lost || !item.sacked && _) = false
      rw [hitem, h item (by simp) hitem]
      rfl
    · exact ih (fun j hj => h j (by simp [hj])) i hi hsacked

theorem apart_touch (h : ∀ i ∈ l, i.sacked = true → i.lost = false) :
    ∀ i ∈ l.map (touch c), i.sacked = true → i.lost = false := by
  intro i hi hsacked
  obtain ⟨j, hj, rfl⟩ := List.mem_map.mp hi
  rw [touch] at hsacked ⊢
  split at hsacked
  next hnew => rw [if_pos hnew]
  next hnew =>
    rw [if_neg hnew]
    exact h j hj hsacked

theorem counts_le (h : ∀ i ∈ l, i.sacked = true → i.lost = false) (ht : total l < 2 ^ 32) :
    bytes_of TcpTxItem.sacked l + bytes_of TcpTxItem.lost l ≤ UInt32.ofNat (total l) := by
  have hsum : total (l.filter TcpTxItem.sacked) + total (l.filter TcpTxItem.lost) ≤ total l := by
    clear ht
    induction l with
    | nil => exact le_rfl
    | cons item l ih =>
      have hrest := ih fun i hi => h i (by simp [hi])
      have hitem := h item (by simp)
      rw [List.filter_cons, List.filter_cons, total_cons]
      cases hs : item.sacked
      · rw [if_neg Bool.false_ne_true]
        split
        · rw [total_cons]
          omega
        · omega
      · rw [hitem hs]
        simp only [if_true, Bool.false_eq_true, if_false, total_cons]
        omega
  rw [UInt32.le_iff_toNat_le, UInt32.toNat_add, bytes_of_toNat ht, bytes_of_toNat ht, UInt32.toNat_ofNat_of_lt' ht]
  omega

theorem counts_of_false (h : ∀ i ∈ l, covered list i = false) : counts list tally l = tally := by
  induction list generalizing tally with
  | nil => rfl
  | cons block list ih =>
    have hblock : ∀ i ∈ l, covers block i = false := fun i hi => by
      have hi' := h i hi
      rw [covered, List.any_cons, Bool.or_eq_false_iff] at hi'
      exact hi'.1
    have hlist : ∀ i ∈ l, covered list i = false := fun i hi => by
      have hi' := h i hi
      rw [covered, List.any_cons, Bool.or_eq_false_iff] at hi'
      exact hi'.2
    rw [counts, foldl_count_of_false hblock, map_touch_of_false hblock, ih hlist]

theorem Board.counts_highest (h : Board s) (tally : Tally) (horderly : Orderly s list) (hhighest : tally.highest_sack = s.highest_sack) :
    (counts list tally s.sent_list).highest_sack = highest (s.sent_list.map (touch (covered list))) := by
  obtain ⟨_, hsome, hblocks, horder⟩ := horderly
  have hlt := h.lt
  have hplaced := h.placed
  have hhead := h.head
  have hboard := h.highest_sack
  have hfirst : ∀ item ∈ s.sent_list.head?, covered list item = false := by
    intro item hitem
    rw [covered, List.any_eq_false]
    intro block hblock
    rw [(hblocks block hblock).2.2 item hitem]
    exact Bool.false_ne_true
  rw [hboard] at hhighest
  by_cases hany : ∃ i ∈ s.sent_list, (i.sacked || covered list i) = true
  · obtain ⟨A, T, B, hlist, hT, hB⟩ := exists_last hany
    rw [hlist] at hplaced hhead hfirst hhighest horder hlt ⊢
    rcases List.eq_nil_or_concat A with rfl | ⟨A, P, rfl⟩
    · have hs := hhead T rfl
      have hc := hfirst T rfl
      rw [hs, hc] at hT
      cases hT
    have hBs : ∀ i ∈ B, i.sacked = false := fun i hi => (Bool.or_eq_false_iff.mp (hB i hi)).1
    have hBc : ∀ i ∈ B, covered list i = false := fun i hi => (Bool.or_eq_false_iff.mp (hB i hi)).2
    rw [List.concat_eq_append, ← List.append_cons] at hplaced hhighest horder hlt ⊢
    rw [TcpTxBuffer.counts_highest hplaced (by omega) (fun hs => ?_) (fun hs => ?_) hBc hT (overtakes_append hT hB horder)]
    · rw [List.map_append, List.map_cons, List.map_cons, List.append_cons, highest_of_split]
      · have hkey := key_touch (covered list) T
        simp only [key, Prod.mk.injEq] at hkey
        rw [hkey.1, hkey.2.2]
      · rw [sacked_touch, hT]
      · intro i hi
        obtain ⟨j, hj, rfl⟩ := List.mem_map.mp hi
        rw [sacked_touch, hB j hj]
    · rw [hhighest, List.append_cons, highest_of_split hs hBs]
    · rw [hhighest, highest]
      cases hlast : ((A ++ P :: T :: B).filter TcpTxItem.sacked).getLast? with
      | none => exact .inl rfl
      | some i =>
        obtain ⟨hi, hsacked⟩ := List.mem_filter.mp (List.mem_of_getLast? hlast)
        refine .inr ⟨i, ?_, rfl⟩
        simp only [List.mem_append, List.mem_cons] at hi ⊢
        rcases hi with hi | rfl | rfl | hi
        · exact .inl hi
        · exact .inr (.inl rfl)
        · rw [hs] at hsacked
          cases hsacked
        · rw [hBs i hi] at hsacked
          cases hsacked
  · have hnone : ∀ i ∈ s.sent_list, (i.sacked || covered list i) = false := fun i hi => by
      by_contra hnot
      exact hany ⟨i, hi, Bool.not_eq_false _ ▸ hnot⟩
    have hnever : ∀ i ∈ s.sent_list, covered list i = false := fun i hi => (Bool.or_eq_false_iff.mp (hnone i hi)).2
    rw [counts_of_false hnever, map_touch_of_false hnever, hhighest]

theorem Orderly.head (h : Orderly s list) : ∀ item ∈ s.sent_list.head?, covered list item = false := by
  intro item hitem
  rw [covered, List.any_eq_false]
  intro block hblock
  rw [(h.2.2.1 block hblock).2.2 item hitem]
  exact Bool.false_ne_true

theorem bytes_of_relabel (thresh : ℕ) (l : List TcpTxItem) :
    bytes_of TcpTxItem.sacked (relabel thresh l) = bytes_of TcpTxItem.sacked l := by
  induction l with
  | nil => rfl
  | cons item l ih =>
    rw [relabel, bytes_of_cons, bytes_of_cons, ih]
    rfl

theorem bytes_of_pos (hpos : ∀ i ∈ l, 0 < i.packet.length) (ht : total l < 2 ^ 32) (hitem : item ∈ l) (hf : f item = true) :
    bytes_of f l > 0 := by
  have hle : item.packet.length ≤ total (l.filter f) :=
    List.single_le_sum (fun _ _ => Nat.zero_le _) _ (List.mem_map_of_mem (List.mem_filter.mpr ⟨hitem, hf⟩))
  have hitem' := hpos item hitem
  rw [gt_iff_lt, UInt32.lt_iff_toNat_lt, bytes_of_toNat ht]
  show 0 < _
  omega

theorem head_map {g : TcpTxItem → TcpTxItem} (h : ∀ item ∈ l.head?, (g item).sacked = false) :
    ∀ item ∈ (l.map g).head?, item.sacked = false := by
  intro item hitem
  rw [List.head?_map] at hitem
  obtain ⟨i, hi, rfl⟩ := Option.mem_map.mp hitem
  exact h i hi

theorem Board.update_eq (h : Board s) (horderly : Orderly s list) :
    s.update list = some (bytes_of (fun item => !item.sacked && covered list item) s.sent_list, s.score list) := by
  have hfirst := horderly.head
  have hhighest := h.counts_highest ⟨s.sacked_out, s.lost_out, 0, s.highest_sack⟩ horderly rfl
  obtain ⟨hthresh, hsome, hinside, _⟩ := horderly
  have hlt := h.lt
  have hblocks := update_blocks_eq ⟨s.sacked_out, s.lost_out, 0, s.highest_sack⟩ h.placed h.apart (by omega)
    fun block hblock => by
      rw [← h.sent_end]
      exact ⟨(hinside block hblock).1, (hinside block hblock).2.1⟩
  obtain ⟨hbytes, hsacked, hlost⟩ := counts_eq list s.sent_list ⟨s.sacked_out, s.lost_out, 0, s.highest_sack⟩
  have hnewly := bytes_of_newly (c := covered list) s.sent_list
  obtain ⟨t, ht⟩ : ∃ t, t = counts list ⟨s.sacked_out, s.lost_out, 0, s.highest_sack⟩ s.sent_list := ⟨_, rfl⟩
  obtain ⟨l, hl⟩ : ∃ l, l = s.sent_list.map (touch (covered list)) := ⟨_, rfl⟩
  rw [← ht] at hhighest hblocks hbytes hsacked hlost
  rw [← hl] at hhighest hblocks hsacked hlost hnewly
  simp only [h.sacked_out, h.lost_out] at hbytes hsacked hlost
  have hkey : l.map key = s.sent_list.map key := by
    rw [hl, List.map_map]
    exact List.map_congr_left fun i _ => key_touch _ i
  have htally : t.sacked_out = bytes_of TcpTxItem.sacked l ∧ t.lost_out = bytes_of TcpTxItem.lost l ∧
      t.bytes_sacked = bytes_of (fun item => !item.sacked && covered list item) s.sent_list := by
    refine ⟨?_, ?_, ?_⟩
    · grind
    · grind
    · grind
  have hlast : (relabel s.dup_ack_thresh.toNat l).map key = s.sent_list.map key := (relabel_key _ l).trans hkey
  have hapart := apart_relabel s.dup_ack_thresh.toNat (hl ▸ apart_touch h.apart : ∀ i ∈ l, i.sacked = true → i.lost = false)
  have hscored : scored s.dup_ack_thresh list s.sent_list = relabel s.dup_ack_thresh.toNat l := by rw [scored, hl]
  have hhead : ∀ item ∈ l.head?, item.sacked = false := by
    rw [hl]
    exact head_map fun item hitem => by rw [sacked_touch, h.head item hitem, hfirst item hitem]; rfl
  have hboth : highest (relabel s.dup_ack_thresh.toNat l) = highest l := highest_congr (filter_relabel _ l)
  obtain ⟨s₁, hs₁⟩ : ∃ s₁, s₁ = { s with
      sent_list := l, sacked_out := t.sacked_out, lost_out := t.lost_out, highest_sack := t.highest_sack } := ⟨_, rfl⟩
  have hcount : (if t.bytes_sacked > 0 then s₁.update_lost_count else some s₁) = some (s.score list) := by
    rw [score, hscored, bytes_of_relabel, hboth]
    split
    next hpos =>
      have hany : ∃ i ∈ l, i.sacked = true := by
        by_contra hnone
        refine absurd hpos ?_
        rw [htally.2.2, bytes_of_eq_zero]
        · decide
        · intro i hi
          by_contra hnot
          rw [Bool.not_eq_false, Bool.and_eq_true] at hnot
          refine hnone ⟨touch (covered list) i, hl ▸ List.mem_map_of_mem hi, ?_⟩
          rw [sacked_touch, hnot.2, Bool.or_true]
      have hs₁list : s₁.sent_list = l := by rw [hs₁]
      have hs₁thresh : s₁.dup_ack_thresh = s.dup_ack_thresh := by rw [hs₁]
      rw [update_lost_count_eq (s := s₁) (by rwa [hs₁thresh]) (by rwa [hs₁list]) (by rwa [hs₁list])
        (by rw [hs₁list, nodes_of_key hkey]; exact h.distinct) (by rw [hs₁list, hs₁]; exact hhighest)
        (by rw [hs₁list, hs₁]; exact htally.2.1), hs₁list, hs₁thresh, hs₁]
      simp only [htally.1, hhighest]
    next hzero =>
      -- the marks of the lost items are as they should be when nothing new is sacked
      have hsame : l = s.sent_list := by
        rw [hl]
        refine (List.map_congr_left fun i hi => ?_).trans (List.map_id _)
        rw [touch, if_neg]
        · rfl
        · intro hnew
          exact hzero (htally.2.2 ▸ bytes_of_pos h.placed.pos (by omega) hi hnew)
      rw [hs₁, htally.1, htally.2.1, hhighest, hsame, relabel_of_marked (h.marked hthresh)]
  have hle : s.sent_size ≥ (s.score list).sacked_out + (s.score list).lost_out := by
    rw [h.sent_size, score, hscored, ← total_of_key hlast]
    exact counts_le hapart (by rw [total_of_key hlast]; omega)
  rw [update, h.sent_end, hblocks]
  dsimp only [Option.bind_eq_bind, Option.bind_some]
  rw [if_pos rfl, ← hs₁, hcount, Option.bind_some]
  have hscore : (s.score list).sent_list = relabel s.dup_ack_thresh.toNat l := hscored
  rw [hscore]
  cases hlist : relabel s.dup_ack_thresh.toNat l with
  | nil =>
    rw [hlist] at hlast
    exact absurd (List.map_eq_nil_iff.mp hlast.symm) hsome
  | cons head rest =>
    have hheadSacked : head.sacked = false := by
      cases hlc : l with
      | nil =>
        rw [hlc] at hlist
        cases hlist
      | cons first others =>
        rw [hlc, relabel] at hlist
        cases hlist
        exact hhead first (by rw [hlc]; rfl)
    have hsize : (s.score list).sent_size = s.sent_size := rfl
    dsimp only
    rw [hheadSacked, hsize, if_pos ⟨rfl, hle⟩, htally.2.2]

theorem Board.update (h : Board s) (horderly : Orderly s list) (hs : s.update list = some (bytes, s')) : Board s' := by
  have hsound := (reflag_update hs).sound h.toSound
  rw [h.update_eq horderly] at hs
  cases hs
  refine ⟨⟨hsound, rfl, rfl, apart_relabel _ (apart_touch h.apart), fun _ => marked_relabel _ _⟩, fun item hitem => ?_, rfl⟩
  cases hlist : s.sent_list with
  | nil => exact absurd hlist horderly.2.1
  | cons first rest =>
    have hfirst := horderly.head first (by rw [hlist]; rfl)
    have hhead := h.head first (by rw [hlist]; rfl)
    rw [score, scored, hlist, List.map_cons, relabel] at hitem
    cases hitem
    show (touch (covered list) first).sacked = false
    rw [sacked_touch, hhead, hfirst]
    rfl

/-- What the callers of a sender with SACK see to. -/
def Regular (s : TcpTxBuffer) : Operation → Prop
  | .set_dup_ack_thresh n => 0 < n.toNat → Marked n.toNat 0 s.sent_list
  | .set_sack_enabled enabled => enabled = true
  | .discard_up_to _ seq => Between s seq
  | .update list => Orderly s list
  | .add_reno_sack => False
  | operation => Admitted s operation

instance (s : TcpTxBuffer) (operation : Operation) : Decidable (Regular s operation) :=
  match operation with
  | .set_dup_ack_thresh n => inferInstanceAs (Decidable (0 < n.toNat → Marked n.toNat 0 s.sent_list))
  | .set_sack_enabled enabled => inferInstanceAs (Decidable (enabled = true))
  | .discard_up_to _ seq => inferInstanceAs (Decidable (Between s seq))
  | .update list => inferInstanceAs (Decidable (Orderly s list))
  | .add_reno_sack => inferInstanceAs (Decidable False)
  | .add p => inferInstanceAs (Decidable (Admitted s (.add p)))
  | .set_max_buffer_size n => inferInstanceAs (Decidable (Admitted s (.set_max_buffer_size n)))
  | .reset_last_segment_sent => inferInstanceAs (Decidable (Admitted s .reset_last_segment_sent))
  | .set_head_sequence _ | .set_segment_size _ | .copy_from_sequence .. | .set_sent_list_lost _ | .reset_sent_list
  | .mark_head_as_lost | .delete_retransmitted_flag_from_head | .reset_reno_sack => inferInstanceAs (Decidable True)

theorem Board.step {operation : Operation} (h : Board s) (hregular : Regular s operation) (hstep : s.step operation = some s') :
    Board s' := by
  cases operation with
  | add p =>
    cases hstep
    refine h.of_marks (h.toSound.add hregular) ?_ ?_ ?_
    all_goals
      rw [TcpTxBuffer.add]
      split
      · split <;> simp
      · simp
  | set_head_sequence seq =>
    have hsound := h.toSound.step (show Admitted s (.set_head_sequence seq) from trivial) hstep
    obtain ⟨hnil, hs⟩ := Option.ite_none_right_eq_some.mp hstep
    cases hs
    refine ⟨⟨hsound, h.sacked_out, h.lost_out, h.apart, h.marked⟩, h.head, ?_⟩
    show _ = highest s.sent_list
    rw [hnil]
    rfl
  | set_max_buffer_size n =>
    have hsound := h.toSound.step (show Admitted s (.set_max_buffer_size n) from hregular) hstep
    cases hstep
    exact h.of_marks hsound rfl ⟨rfl, rfl, rfl⟩ rfl
  | set_dup_ack_thresh n =>
    have hsound := h.toSound.step (show Admitted s (.set_dup_ack_thresh n) from trivial) hstep
    cases hstep
    exact ⟨⟨hsound, h.sacked_out, h.lost_out, h.apart, hregular⟩, h.head, h.highest_sack⟩
  | set_segment_size n =>
    have hsound := h.toSound.step (show Admitted s (.set_segment_size n) from trivial) hstep
    cases hstep
    exact h.of_marks hsound rfl ⟨rfl, rfl, rfl⟩ rfl
  | set_sack_enabled enabled =>
    have hsound := h.toSound.step (show Admitted s (.set_sack_enabled enabled) from trivial) hstep
    cases hstep
    exact h.of_marks hsound rfl ⟨rfl, rfl, rfl⟩ rfl
  | copy_from_sequence now numBytes seq =>
    obtain ⟨⟨out, s₁⟩, hcopy, rfl⟩ := Option.map_eq_some_iff.mp hstep
    exact h.copy_from_sequence hcopy
  | discard_up_to now seq => exact h.discard_up_to hregular hstep
  | update list =>
    obtain ⟨⟨bytes, s₁⟩, hupdate, rfl⟩ := Option.map_eq_some_iff.mp hstep
    exact h.update hregular hupdate
  | set_sent_list_lost resetSack => exact h.set_sent_list_lost hstep
  | reset_sent_list =>
    cases hstep
    exact h.reset_sent_list
  | reset_last_segment_sent =>
    cases hstep
    exact h.reset_last_segment_sent hregular
  | mark_head_as_lost =>
    cases hstep
    exact h.mark_head_as_lost
  | delete_retransmitted_flag_from_head =>
    cases hstep
    exact h.delete_retransmitted_flag_from_head
  | add_reno_sack => cases hregular
  | reset_reno_sack =>
    cases hstep
    exact h.reset_reno_sack

theorem board_of_reachable (h : Reachable (fun s => ∃ n, s = TcpTxBuffer.init n) step Regular s) : Board s :=
  h.invariant (fun _ ⟨n, hn⟩ => hn ▸ Board.init n) fun _ _ _ hs hregular hstep => hs.step hregular hstep

/-- What an option says of the items of the sent list: sacked is what was so or lies wholly inside a block, and lost is
what was so or has enough sacked items above. -/
def Scored (thresh : UInt32) (list : List SackBlock) : List TcpTxItem → List TcpTxItem → Prop
  | [], [] => True
  | item :: rest, item' :: rest' =>
    key item' = key item ∧
      (item'.sacked = true ↔ item.sacked = true ∨ ∃ block ∈ list, covers block item = true) ∧
      (item'.sacked = false → (item'.lost = true ↔ item.lost = true ∨ thresh.toNat ≤ rest'.countP TcpTxItem.sacked)) ∧
      Scored thresh list rest rest'
  | _, _ => False

/-- The iterator to the last sacked item and its sequence number, or to the end. -/
def Highest (l : List TcpTxItem) (h : Option ℕ × SequenceNumber32) : Prop :=
  (∀ i ∈ l, i.sacked = false) ∧ h = (none, ⟨0⟩) ∨
    ∃ A T B, l = A ++ T :: B ∧ T.sacked = true ∧ (∀ i ∈ B, i.sacked = false) ∧ h = (some T.node, T.start_seq)

theorem highest_spec (l : List TcpTxItem) : Highest l (highest l) := by
  by_cases hany : ∃ i ∈ l, i.sacked = true
  · obtain ⟨A, T, B, rfl, hT, hB⟩ := exists_last hany
    exact .inr ⟨A, T, B, rfl, hT, hB, highest_of_split hT hB⟩
  · have hnone : ∀ i ∈ l, i.sacked = false := fun i hi => by
      by_contra hnot
      exact hany ⟨i, hi, Bool.not_eq_false _ ▸ hnot⟩
    exact .inl ⟨hnone, highest_of_unsacked hnone⟩

theorem foldl_highest (hplaced : Placed base p l) (ret : Option ℕ × SequenceNumber32) :
    (l.foldl (fun (ret, begin) item =>
      (if item.sacked then (some item.node, begin) else ret, begin.add item.get_size)) (ret, base.plus p)).1 =
      (((l.filter TcpTxItem.sacked).getLast?.map fun item => (some item.node, item.start_seq)).getD ret) := by
  induction l generalizing p ret with
  | nil => rfl
  | cons item l ih =>
    obtain ⟨hstart, _, hrest⟩ := hplaced
    rw [List.foldl_cons, List.filter_cons]
    dsimp only
    rw [plus_get_size, ih hrest, ← hstart]
    cases item.sacked with
    | true =>
      rw [if_pos rfl, if_pos rfl, List.getLast?_cons]
      cases (l.filter TcpTxItem.sacked).getLast? <;> rfl
    | false => rfl

theorem Shape.find_highest_sacked (h : Shape s) : s.find_highest_sacked = highest s.sent_list := by
  have hfold := foldl_highest h.placed (none, ⟨0⟩)
  rw [SequenceNumber32.plus_zero] at hfold
  rw [TcpTxBuffer.find_highest_sacked, highest]
  refine hfold.trans ?_
  cases (s.sent_list.filter TcpTxItem.sacked).getLast? <;> rfl

theorem scored_spec (thresh : UInt32) (list : List SackBlock) (l : List TcpTxItem) :
    Scored thresh list l (scored thresh list l) := by
  induction l with
  | nil => trivial
  | cons item l ih =>
    have hcount : (relabel thresh.toNat (l.map (touch (covered list)))).countP TcpTxItem.sacked =
        (l.map (touch (covered list))).countP TcpTxItem.sacked := countP_relabel _ _
    refine ⟨?_, ?_, fun hsacked => ?_, ih⟩
    · show key (touch (covered list) item) = key item
      exact key_touch _ item
    · show (touch (covered list) item).sacked = true ↔ _
      rw [sacked_touch, Bool.or_eq_true, covered, List.any_eq_true]
    · have hnew : (touch (covered list) item).sacked = false := hsacked
      have hsame : touch (covered list) item = item := by
        rw [sacked_touch, Bool.or_eq_false_iff] at hnew
        exact touch_of_false hnew.2
      show ((touch (covered list) item).lost || !(touch (covered list) item).sacked && decide _) = true ↔ _
      rw [hnew, hsame, Bool.not_false, Bool.true_and, Bool.or_eq_true, decide_eq_true_eq]
      exact or_congr_right (by rw [← hcount])

theorem score_perm {list' : List SackBlock} (h : list.Perm list') : covered list = covered list' := by
  funext item
  exact h.any_eq

/-- After an orderly option, in a buffer that regular operations have made, the marks are right, and they do not depend on
the order of the blocks. -/
theorem update_scores (h : Reachable (fun s => ∃ n, s = TcpTxBuffer.init n) step Regular s) (horderly : Orderly s list) :
    ∃ bytes s', s.update list = some (bytes, s') ∧ Scored s.dup_ack_thresh list s.sent_list s'.sent_list ∧
      Highest s'.sent_list s'.highest_sack ∧ s'.highest_sack = s'.find_highest_sacked ∧
      bytes.toNat = total (s.sent_list.filter fun item => !item.sacked && list.any fun block => covers block item) ∧
      ∀ list', list.Perm list' → Orderly s list' → s.update list' = some (bytes, s') := by
  have hboard := board_of_reachable h
  have hlt := hboard.lt
  have hupdate := hboard.update_eq horderly
  have hfind := (hboard.update horderly hupdate).toShape.find_highest_sacked
  refine ⟨_, _, hupdate, scored_spec _ _ _, highest_spec _, hfind.symm, bytes_of_toNat (by omega), ?_⟩
  intro list' hperm horderly'
  rw [hboard.update_eq horderly', score, score, scored, scored, score_perm hperm]

theorem bytes_of_relabel_retrans (thresh : ℕ) (l : List TcpTxItem) :
    bytes_of TcpTxItem.retrans (relabel thresh l) = bytes_of TcpTxItem.retrans l := by
  induction l with
  | nil => rfl
  | cons item l ih =>
    rw [relabel, bytes_of_cons, bytes_of_cons, ih]
    rfl

theorem mark_head_as_lost_retrans (h : s.retrans = bytes_of TcpTxItem.retrans s.sent_list) :
    s.mark_head_as_lost.retrans = bytes_of TcpTxItem.retrans s.mark_head_as_lost.sent_list := by
  rw [mark_head_as_lost]
  split
  · exact h
  next head rest hlist =>
    rw [hlist, bytes_of_cons] at h
    rw [bytes_of_cons, if_neg Bool.false_ne_true, h]
    dsimp only
    split <;> grind

theorem sack_first_retrans {r : TcpTxItem × List TcpTxItem} (h : sack_first l = some r) :
    bytes_of TcpTxItem.retrans r.2 = bytes_of TcpTxItem.retrans l := by
  induction l generalizing r with
  | nil => cases h
  | cons item l ih =>
    rw [sack_first] at h
    split at h
    · obtain ⟨r', hr', rfl⟩ := Option.map_eq_some_iff.mp h
      rw [bytes_of_cons, bytes_of_cons, ih hr']
    · cases h
      rw [bytes_of_cons, bytes_of_cons]
      rfl

theorem add_reno_sack_retrans (h : s.add_reno_sack = some s') (hretrans : s.retrans = bytes_of TcpTxItem.retrans s.sent_list) :
    s'.retrans = bytes_of TcpTxItem.retrans s'.sent_list := by
  rw [add_reno_sack] at h
  split at h
  · cases h
  next head rest hlist =>
    obtain ⟨_, h⟩ := Option.ite_none_left_eq_some.mp h
    split at h
    · cases h
      exact hretrans
    next item rest' hsack =>
      cases h
      rw [hlist, bytes_of_cons] at hretrans
      dsimp only
      rw [bytes_of_cons, hretrans, sack_first_retrans hsack]

theorem check_head_retrans (h : s.check_head seq = some s') (hretrans : s.retrans = bytes_of TcpTxItem.retrans s.sent_list) :
    s'.retrans = bytes_of TcpTxItem.retrans s'.sent_list := by
  rw [check_head] at h
  split at h
  · cases h
    exact hretrans
  next head rest hlist =>
    obtain ⟨s₁, hs₁, h⟩ := Option.bind_eq_some_iff.mp h
    obtain ⟨_, h⟩ := Option.ite_none_right_eq_some.mp h
    cases h
    split at hs₁
    · obtain ⟨_, hs₁⟩ := Option.ite_none_left_eq_some.mp hs₁
      obtain ⟨s₂, hs₂, rfl⟩ := Option.map_eq_some_iff.mp hs₁
      apply mark_head_as_lost_retrans
      apply add_reno_sack_retrans hs₂
      rw [hlist, bytes_of_cons] at hretrans
      rw [bytes_of_cons]
      exact hretrans
    · cases hs₁
      exact hretrans

theorem Sound.copy_retrans {out : Option TcpTxItem} {numBytes : UInt32} (h : Sound s)
    (hcopy : s.copy_from_sequence now numBytes seq = some (out, s')) (hretrans : s.retrans = bytes_of TcpTxItem.retrans s.sent_list) :
    s'.retrans = bytes_of TcpTxItem.retrans s'.sent_list := by
  rcases h.toShape.copy_spec hcopy with ⟨_, rfl⟩ | ⟨_, _, _, _, _, _, hresent, _⟩ | ⟨_, hsent, _⟩
  · exact hretrans
  · have hcount := hresent.retrans
    rw [hretrans, hresent.list, bytes_of_append, bytes_of_append] at hcount
    rw [hresent.list', bytes_of_append, bytes_of_append]
    grind
  · obtain ⟨hitem, hclean⟩ := hsent.clean
    obtain ⟨hsame, _⟩ := hclean fun i hi => (h.clean i hi).2.2
    rw [hsame, hretrans, hsent.list, bytes_of_append, bytes_of_eq_zero (l := [_]) (by simp [hitem]), add_zero]

theorem Sound.discard_retrans (h : Sound s) (hdiscard : s.discard_up_to now seq = some s')
    (hretrans : s.retrans = bytes_of TcpTxItem.retrans s.sent_list) : s'.retrans = bytes_of TcpTxItem.retrans s'.sent_list := by
  rw [TcpTxBuffer.discard_up_to] at hdiscard
  split at hdiscard
  · cases hdiscard
    exact hretrans
  obtain ⟨s₁, hloop, hdiscard⟩ := Option.bind_eq_some_iff.mp hdiscard
  obtain ⟨s₂, hcheck, hdiscard⟩ := Option.bind_eq_some_iff.mp hdiscard
  obtain ⟨_, ⟨_, h₁⟩, _⟩ : ∃ o : UInt32, (Sound s₁ ∧ s₁.retrans = bytes_of TcpTxItem.retrans s₁.sent_list) ∧ (s₁.size = 0 ∨ o = 0) := by
    refine discard_induct (I := fun _ s => Sound s ∧ s.retrans = bytes_of TcpTxItem.retrans s.sent_list) ?_ ?_ ?_ ⟨h, hretrans⟩ hloop
    · intro o s item s' hs _ hcopy
      exact ⟨hs.1.copy_from_sequence hcopy, hs.1.copy_retrans hcopy hs.2⟩
    · intro o s item rest s' hs _ hlist _ hremove
      refine ⟨⟨hs.1.toShape.without hlist hremove, by rw [remove_from_counts_app hremove]; exact hs.1.clean⟩, ?_⟩
      have hcount := hs.2
      rw [hlist, bytes_of_cons] at hcount
      rw [remove_from_counts_spec hremove]
      show (if item.retrans then s.retrans - item.get_size else s.retrans) = bytes_of _ rest
      rw [hcount]
      cases item.retrans <;> simp
    · intro o s item rest s' hs _ hlist hlt hremove
      refine ⟨⟨hs.1.toShape.without_part hlist hlt hremove, by rw [remove_from_counts_app hremove]; exact hs.1.clean⟩, ?_⟩
      have hcount := hs.2
      have hsize : (fragment item o).get_size = item.get_size - o := by
        have htotal := hs.1.lt
        rw [hlist, total_cons] at htotal
        rw [UInt32.lt_iff_toNat_lt, get_size_toNat (by omega)] at hlt
        show UInt32.ofNat (item.packet.drop o.toNat).length = UInt32.ofNat item.packet.length - o
        rw [List.length_drop, ofNat_sub hlt.le]
      rw [hlist, bytes_of_cons] at hcount
      rw [remove_from_counts_spec hremove]
      show (if item.retrans then s.retrans - o else s.retrans) = bytes_of _ (fragment item o :: rest)
      rw [bytes_of_cons, hsize, hcount]
      show _ = (if item.retrans then _ else _) + _
      split <;> grind
  have h₂ : s₂.retrans = bytes_of TcpTxItem.retrans s₂.sent_list := by
    apply check_head_retrans hcheck
    split <;> exact h₁
  obtain ⟨_, hdiscard⟩ := Option.ite_none_right_eq_some.mp hdiscard
  cases hdiscard
  split <;> exact h₂

theorem Board.retrans_step {operation : Operation} (h : Board s) (hregular : Regular s operation) (hstep : s.step operation = some s')
    (hretrans : s.retrans = bytes_of TcpTxItem.retrans s.sent_list) : s'.retrans = bytes_of TcpTxItem.retrans s'.sent_list := by
  cases operation with
  | add p =>
    cases hstep
    rw [TcpTxBuffer.add]
    split
    · split <;> exact hretrans
    · exact hretrans
  | set_head_sequence seq =>
    obtain ⟨_, hs⟩ := Option.ite_none_right_eq_some.mp hstep
    cases hs
    exact hretrans
  | copy_from_sequence now numBytes seq =>
    obtain ⟨⟨out, s₁⟩, hcopy, rfl⟩ := Option.map_eq_some_iff.mp hstep
    exact h.toSound.copy_retrans hcopy hretrans
  | discard_up_to now seq => exact h.toSound.discard_retrans hstep hretrans
  | update list =>
    obtain ⟨⟨bytes, s₁⟩, hupdate, rfl⟩ := Option.map_eq_some_iff.mp hstep
    rw [h.update_eq hregular] at hupdate
    cases hupdate
    show s.retrans = bytes_of _ (relabel _ (s.sent_list.map (touch (covered list))))
    rw [bytes_of_relabel_retrans, bytes_of_map fun i => congrArg (fun k => k.2.1) (key_touch (covered list) i), hretrans]
    congr 1
    funext i
    rw [touch]
    split <;> rfl
  | set_sent_list_lost resetSack =>
    obtain ⟨_, hs⟩ := Option.ite_none_right_eq_some.mp hstep
    cases resetSack with
    | true | false =>
      cases hs
      rw [bytes_of_eq_zero]
      · rfl
      · intro i hi
        obtain ⟨j, _, rfl⟩ := List.mem_map.mp hi
        rfl
  | reset_sent_list =>
    cases hstep
    rfl
  | reset_last_segment_sent =>
    cases hstep
    rw [TcpTxBuffer.reset_last_segment_sent]
    split
    · exact hretrans
    next item hitem =>
      obtain ⟨front, hfront⟩ := List.getLast?_eq_some_iff.mp hitem
      obtain ⟨_, _, hitem'⟩ := hregular item hitem
      rw [hfront, bytes_of_append, bytes_of_eq_zero (l := [item]) (by simp [hitem']), add_zero] at hretrans
      dsimp only
      rw [hfront, List.dropLast_concat, hitem', if_neg Bool.false_ne_true, hretrans]
  | mark_head_as_lost =>
    cases hstep
    exact mark_head_as_lost_retrans hretrans
  | delete_retransmitted_flag_from_head =>
    cases hstep
    rw [TcpTxBuffer.delete_retransmitted_flag_from_head]
    split
    · exact hretrans
    next head rest hlist =>
      split
      · exact hretrans
      next hflag =>
        rw [not_or, Bool.not_eq_true', Bool.not_eq_false] at hflag
        rw [hlist, bytes_of_cons, if_pos hflag.2] at hretrans
        dsimp only
        rw [bytes_of_cons, if_neg Bool.false_ne_true, hretrans]
        grind
  | add_reno_sack => cases hregular
  | reset_reno_sack =>
    cases hstep
    show s.retrans = bytes_of _ (s.sent_list.map _)
    rw [bytes_of_map]
    · exact hretrans
    · exact fun _ => rfl
  | set_max_buffer_size n | set_dup_ack_thresh n | set_segment_size n | set_sack_enabled enabled =>
    cases hstep
    exact hretrans

/-- The counters of a buffer are the bytes of the items with the marks, which are not both sacked and lost, the data that is
not sent has no marks, and what is in flight is neither sacked nor lost, or sent again. -/
structure Accounted (s : TcpTxBuffer) : Prop where
  sacked_out : s.sacked_out = bytes_of TcpTxItem.sacked s.sent_list
  lost_out : s.lost_out = bytes_of TcpTxItem.lost s.sent_list
  retrans : s.retrans = bytes_of TcpTxItem.retrans s.sent_list
  apart : ∀ item ∈ s.sent_list, item.sacked = true → item.lost = false
  unsent : ∀ item ∈ s.app_list, Unmarked item
  highest_sack : s.highest_sack = s.find_highest_sacked
  in_flight : s.bytes_in_flight =
    some (bytes_of (fun item => !item.sacked && !item.lost) s.sent_list + bytes_of TcpTxItem.retrans s.sent_list)

theorem bytes_of_parts (h : ∀ i ∈ l, i.sacked = true → i.lost = false) : bytes_of TcpTxItem.sacked l + bytes_of TcpTxItem.lost l +
    bytes_of (fun item => !item.sacked && !item.lost) l = UInt32.ofNat (total l) := by
  induction l with
  | nil => rfl
  | cons item l ih =>
    have hrest := ih fun i hi => h i (by simp [hi])
    have hitem := h item (by simp)
    rw [bytes_of_cons, bytes_of_cons, bytes_of_cons, total_cons, UInt32.ofNat_add, ← hrest, ← get_size_eq]
    cases hs : item.sacked
    · cases item.lost <;> simp <;> grind
    · rw [hitem hs]
      simp
      grind

def four_sent : TcpTxBuffer := {
  sent_list := [
    ⟨2, [1], ⟨1⟩, false, false, 0, false⟩, ⟨4, [2], ⟨2⟩, false, false, 0, false⟩,
    ⟨6, [3], ⟨3⟩, false, false, 0, false⟩, ⟨7, [4], ⟨4⟩, false, false, 0, false⟩]
  size := 4
  sent_size := 4
  first_byte_seq := ⟨1⟩
  dup_ack_thresh := 3
  next_node := 8 }

theorem reachable_four_sent : Reachable (fun s => ∃ n, s = TcpTxBuffer.init n) step Regular four_sent :=
  (Reachable.init ⟨⟨1⟩, rfl⟩).execute (show execute step Regular (TcpTxBuffer.init ⟨1⟩) [.set_dup_ack_thresh 3,
    .add [1, 2, 3, 4], .copy_from_sequence 0 1 ⟨1⟩, .copy_from_sequence 0 1 ⟨2⟩, .copy_from_sequence 0 1 ⟨3⟩,
    .copy_from_sequence 0 1 ⟨4⟩] = some four_sent by decide +kernel)

/-- Three items are sacked in one option, from below, and the first item is lost. -/
theorem update_scores_upward : ∃ bytes s', four_sent.update [(⟨2⟩, ⟨3⟩), (⟨3⟩, ⟨5⟩)] = some (bytes, s') ∧
    Scored four_sent.dup_ack_thresh [(⟨2⟩, ⟨3⟩), (⟨3⟩, ⟨5⟩)] four_sent.sent_list s'.sent_list ∧
    Highest s'.sent_list s'.highest_sack ∧ s'.highest_sack = s'.find_highest_sacked ∧
    bytes.toNat = total (four_sent.sent_list.filter fun item =>
      !item.sacked && [((⟨2⟩, ⟨3⟩) : SackBlock), (⟨3⟩, ⟨5⟩)].any fun block => covers block item) ∧
    ∀ list', [((⟨2⟩, ⟨3⟩) : SackBlock), (⟨3⟩, ⟨5⟩)].Perm list' → Orderly four_sent list' →
      four_sent.update list' = some (bytes, s') :=
  update_scores reachable_four_sent (by decide +kernel)

/-- In the other order `m_highestSack` ends at the lowest of the sacked items, which leaves the first one not lost. -/
theorem update_downward : ∃ s', Reachable (fun s => ∃ n, s = TcpTxBuffer.init n) step Regular four_sent ∧
    (∀ block ∈ [((⟨4⟩, ⟨5⟩) : SackBlock), (⟨3⟩, ⟨4⟩), (⟨2⟩, ⟨3⟩)],
      four_sent.first_byte_seq.less_equal block.1 = true ∧ block.2.less_equal (four_sent.first_byte_seq.add four_sent.sent_size) = true) ∧
    four_sent.update [(⟨4⟩, ⟨5⟩), (⟨3⟩, ⟨4⟩), (⟨2⟩, ⟨3⟩)] = some (3, s') ∧
    ¬Scored four_sent.dup_ack_thresh [(⟨4⟩, ⟨5⟩), (⟨3⟩, ⟨4⟩), (⟨2⟩, ⟨3⟩)] four_sent.sent_list s'.sent_list ∧
    ¬Highest s'.sent_list s'.highest_sack ∧
    ∃ list', [((⟨4⟩, ⟨5⟩) : SackBlock), (⟨3⟩, ⟨4⟩), (⟨2⟩, ⟨3⟩)].Perm list' ∧ four_sent.update list' ≠ some (3, s') := by
  refine ⟨{ four_sent with
    sent_list := [
      ⟨2, [1], ⟨1⟩, false, false, 0, false⟩, ⟨4, [2], ⟨2⟩, false, false, 0, true⟩,
      ⟨6, [3], ⟨3⟩, false, false, 0, true⟩, ⟨7, [4], ⟨4⟩, false, false, 0, true⟩]
    highest_sack := (some 4, ⟨2⟩)
    sacked_out := 3 }, reachable_four_sent, by decide +kernel, by decide +kernel, fun h => ?_, fun h => ?_,
    [(⟨2⟩, ⟨3⟩), (⟨3⟩, ⟨4⟩), (⟨4⟩, ⟨5⟩)], by decide, by decide +kernel⟩
  · have hlost := (h.2.2.1 rfl).mpr (.inr (by decide))
    cases hlost
  · rcases h with ⟨_, hend⟩ | ⟨A, T, B, hlist, hT, hB, htop⟩
    · cases hend
    · have hhighest := highest_of_split (A := A) hT hB
      rw [← hlist, ← htop] at hhighest
      exact absurd hhighest (by decide)

end Ns3.TcpTxBuffer
