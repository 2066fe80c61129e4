import Ns3.Internet.TcpTxBuffer.Sound

/-! The marks of a sent list: which items are sacked or lost, and what a buffer remembers of them. -/

namespace Ns3.TcpTxBuffer

/-- What `m_highestSack` stands for: the last sacked item of a list. -/
def highest (l : List TcpTxItem) : Option ℕ × SequenceNumber32 :=
  match (l.filter TcpTxItem.sacked).getLast? with
  | none => (none, ⟨0⟩)
  | some item => (some item.node, item.start_seq)

/-- The items with a number of sacked items above them are lost, unless they are sacked. Above the list there are some
more. -/
def Marked (thresh above : ℕ) : List TcpTxItem → Prop
  | [] => True
  | item :: rest =>
    (item.sacked = false → thresh ≤ rest.countP TcpTxItem.sacked + above → item.lost = true) ∧ Marked thresh above rest

/-- The list once these items are marked as lost. -/
def relabel (thresh : ℕ) : List TcpTxItem → List TcpTxItem
  | [] => []
  | item :: rest =>
    { item with lost := item.lost || !item.sacked && decide (thresh ≤ rest.countP TcpTxItem.sacked) } :: relabel thresh rest

variable {s s' : TcpTxBuffer} {l l' m m' : List TcpTxItem} {base : SequenceNumber32} {p q thresh above : ℕ} {seq : SequenceNumber32}
  {item : TcpTxItem} {rest : List TcpTxItem} {now : Time} {n offset numBytes : UInt32} {out : Option TcpTxItem}
  {f g : TcpTxItem → Bool}

instance Marked.decidable (thresh above : ℕ) : ∀ l, Decidable (Marked thresh above l)
  | [] => inferInstanceAs (Decidable True)
  | _ :: rest =>
    haveI := Marked.decidable thresh above rest
    inferInstanceAs (Decidable (_ ∧ _))

theorem bytes_of_toNat (h : total l < 2 ^ 32) : (bytes_of f l).toNat = total (l.filter f) := by
  induction l with
  | nil => rfl
  | cons item l ih =>
    rw [total_cons] at h
    have hrest := ih (by omega)
    have hsize := get_size_toNat (i := item) (by omega)
    have hle : total (l.filter f) ≤ total l := by
      have hsub := (List.filter_sublist (p := f) (l := l)).map fun i => i.packet.length
      exact hsub.sum_le_sum fun _ _ => Nat.zero_le _
    rw [bytes_of_cons, UInt32.toNat_add, hrest, List.filter_cons]
    split
    · rw [hsize, total_cons]
      omega
    · show (0 + total (l.filter f)) % 2 ^ 32 = _
      omega

theorem bytes_of_all (h : ∀ i ∈ l, f i = true) : bytes_of f l = UInt32.ofNat (total l) := by
  induction l with
  | nil => rfl
  | cons item l ih =>
    rw [bytes_of_cons, if_pos (h item (by simp)), ih fun i hi => h i (by simp [hi]), total_cons, UInt32.ofNat_add, get_size_eq]

theorem Recut.bytes_of {node node' : ℕ} {sacked lost : Bool} (h : Recut node node' sacked lost m m')
    (hf : (∀ i ∈ m ++ m', f i = true) ∨ ∀ i ∈ m ++ m', f i = false) : bytes_of f m' = bytes_of f m := by
  rcases hf with hf | hf
  · rw [bytes_of_all fun i hi => hf i (List.mem_append_left _ hi), bytes_of_all fun i hi => hf i (List.mem_append_right _ hi),
      h.total]
  · rw [bytes_of_eq_zero fun i hi => hf i (List.mem_append_left _ hi),
      bytes_of_eq_zero fun i hi => hf i (List.mem_append_right _ hi)]

theorem marked_append :
    Marked thresh above (l ++ m) ↔ Marked thresh (m.countP TcpTxItem.sacked + above) l ∧ Marked thresh above m := by
  induction l with
  | nil => simp [Marked]
  | cons item l ih =>
    rw [List.cons_append, Marked, Marked, ih, List.countP_append, Nat.add_assoc, and_assoc]

theorem marked_of_flags {sacked lost : Bool} (h : ∀ i ∈ m', i.sacked = sacked ∧ i.lost = lost)
    (hm : ∀ i ∈ m, i.sacked = sacked ∧ i.lost = lost) (hsome : m ≠ []) (hsacked : sacked = false)
    (hmarked : Marked thresh above m) : Marked thresh above m' := by
  have hnone : ∀ l : List TcpTxItem, (∀ i ∈ l, i.sacked = sacked ∧ i.lost = lost) → l.countP TcpTxItem.sacked = 0 := by
    intro l hl
    rw [List.countP_eq_zero]
    intro i hi
    rw [(hl i hi).1, hsacked]
    exact Bool.false_ne_true
  have hlost : thresh ≤ above → lost = true := by
    intro hle
    cases m with
    | nil => exact absurd rfl hsome
    | cons i m =>
      rw [← (hm i (by simp)).2]
      exact hmarked.1 ((hm i (by simp)).1.trans hsacked) (hle.trans (Nat.le_add_left _ _))
  clear hmarked hsome
  induction m' with
  | nil => trivial
  | cons i m' ih =>
    refine ⟨fun _ hle => ?_, ih fun i hi => h i (by simp [hi])⟩
    rw [hnone m' fun i hi => h i (by simp [hi]), Nat.zero_add] at hle
    exact (h i (by simp)).2.trans (hlost hle)

@[simp] theorem relabel_sacked (thresh : ℕ) (l : List TcpTxItem) : (relabel thresh l).map TcpTxItem.sacked = l.map TcpTxItem.sacked := by
  induction l with
  | nil => rfl
  | cons item l ih => rw [relabel, List.map_cons, List.map_cons, ih]

theorem relabel_key (thresh : ℕ) (l : List TcpTxItem) : (relabel thresh l).map key = l.map key := by
  induction l with
  | nil => rfl
  | cons item l ih =>
    rw [relabel, List.map_cons, List.map_cons, ih]
    rfl

theorem countP_relabel (thresh : ℕ) (l : List TcpTxItem) :
    (relabel thresh l).countP TcpTxItem.sacked = l.countP TcpTxItem.sacked := by
  have hmap : ∀ l : List TcpTxItem, l.countP TcpTxItem.sacked = (l.map TcpTxItem.sacked).countP id := by
    intro l
    rw [List.countP_map]
    rfl
  rw [hmap, hmap, relabel_sacked]

theorem marked_relabel (thresh : ℕ) (l : List TcpTxItem) : Marked thresh 0 (relabel thresh l) := by
  induction l with
  | nil => trivial
  | cons item l ih =>
    refine ⟨fun hsacked hle => ?_, ih⟩
    rw [countP_relabel, Nat.add_zero] at hle
    simp only at hsacked ⊢
    rw [hsacked, decide_eq_true hle, Bool.not_false, Bool.true_and, Bool.or_true]

theorem relabel_of_marked (h : Marked thresh 0 l) : relabel thresh l = l := by
  induction l with
  | nil => rfl
  | cons item l ih =>
    rw [relabel, ih h.2]
    congr 1
    have hitem := h.1
    rw [Nat.add_zero] at hitem
    rcases item with ⟨_, _, _, lost, _, _, sacked⟩
    cases sacked
    · by_cases hle : thresh ≤ l.countP TcpTxItem.sacked
      · have hlost : lost = true := hitem rfl hle
        simp [hlost]
      · simp [hle]
    · simp

theorem highest_congr (h : (l'.filter TcpTxItem.sacked).map key = (l.filter TcpTxItem.sacked).map key) : highest l' = highest l := by
  have hlast := congrArg List.getLast? h
  rw [List.getLast?_map, List.getLast?_map] at hlast
  rw [highest, highest]
  cases hl : (l.filter TcpTxItem.sacked).getLast? <;> cases hl' : (l'.filter TcpTxItem.sacked).getLast? <;>
    rw [hl, hl'] at hlast <;> simp_all [key]

/-- The counts agree with the marks of the items, and the marks with each other. -/
structure Counted (s : TcpTxBuffer) : Prop extends Sound s where
  sacked_out : s.sacked_out = bytes_of TcpTxItem.sacked s.sent_list
  lost_out : s.lost_out = bytes_of TcpTxItem.lost s.sent_list
  apart : ∀ item ∈ s.sent_list, item.sacked = true → item.lost = false
  marked : 0 < s.dup_ack_thresh.toNat → Marked s.dup_ack_thresh.toNat 0 s.sent_list

/-- The scoreboard of a sender with SACK. -/
structure Board (s : TcpTxBuffer) : Prop extends Counted s where
  head : ∀ item ∈ s.sent_list.head?, item.sacked = false
  highest_sack : s.highest_sack = highest s.sent_list

theorem Board.init (n : SequenceNumber32) : Board (init n) := by
  refine ⟨⟨Sound.init n, rfl, rfl, ?_, fun _ => trivial⟩, ?_, rfl⟩
  all_goals simp [TcpTxBuffer.init]

theorem Board.of_marks (h : Board s) (hs : Sound s') (hsent : s'.sent_list = s.sent_list)
    (hcounts : s'.sacked_out = s.sacked_out ∧ s'.lost_out = s.lost_out ∧ s'.highest_sack = s.highest_sack)
    (hthresh : s'.dup_ack_thresh = s.dup_ack_thresh) : Board s' := by
  refine ⟨⟨hs, ?_, ?_, ?_, ?_⟩, ?_, ?_⟩
  · rw [hcounts.1, hsent, h.sacked_out]
  · rw [hcounts.2.1, hsent, h.lost_out]
  · rw [hsent]
    exact h.apart
  · rw [hthresh, hsent]
    exact h.marked
  · rw [hsent]
    exact h.head
  · rw [hcounts.2.2, hsent, h.highest_sack]

theorem Board.resent {kept front behind after : List TcpTxItem} (h : Board s) (hs : Sound s')
    (hresent : Resent s s' item kept m front behind after) : Board s' := by
  obtain ⟨pieces, hpieces⟩ : ∃ x, x = front ++ item :: behind := ⟨_, rfl⟩
  have hrecut := hresent.recut
  have hlist := hresent.list
  have hlist' := hresent.list'
  rw [← hpieces] at hrecut hlist'
  have hflags : (∀ i ∈ m, i.sacked = false ∧ i.lost = item.lost) ∧ ∀ i ∈ pieces, i.sacked = false ∧ i.lost = item.lost :=
    ⟨fun i hi => hrecut.flags i (List.mem_append_left _ hi), fun i hi => hrecut.flags i (List.mem_append_right _ hi)⟩
  have hnone : ∀ l : List TcpTxItem, (∀ i ∈ l, i.sacked = false ∧ i.lost = item.lost) → l.filter TcpTxItem.sacked = [] := by
    intro l hl
    rw [List.filter_eq_nil_iff]
    intro i hi
    rw [(hl i hi).1]
    exact Bool.false_ne_true
  have hcount : pieces.countP TcpTxItem.sacked = m.countP TcpTxItem.sacked := by
    rw [List.countP_eq_length_filter, List.countP_eq_length_filter, hnone _ hflags.1, hnone _ hflags.2]
  refine ⟨⟨hs, ?_, ?_, fun i hi => ?_, ?_⟩, fun i hi => ?_, ?_⟩
  · rw [hlist', bytes_of_append, bytes_of_append, hrecut.bytes_of (.inr fun i hi => (hrecut.flags i hi).1),
      ← bytes_of_append, ← bytes_of_append, ← hlist, hresent.rest]
    exact h.sacked_out
  · have hlost : (∀ i ∈ m ++ pieces, i.lost = true) ∨ ∀ i ∈ m ++ pieces, i.lost = false := by
      cases hb : item.lost
      · exact .inr fun i hi => (hrecut.flags i hi).2.trans hb
      · exact .inl fun i hi => (hrecut.flags i hi).2.trans hb
    rw [hlist', bytes_of_append, bytes_of_append, hrecut.bytes_of hlost, ← bytes_of_append, ← bytes_of_append, ← hlist,
      hresent.rest]
    exact h.lost_out
  · intro hsacked
    rw [hlist', List.mem_append, List.mem_append] at hi
    rcases hi with (hi | hi) | hi
    · exact h.apart i (by simp [hlist, hi]) hsacked
    · rw [(hflags.2 i hi).1] at hsacked
      cases hsacked
    · exact h.apart i (by simp [hlist, hi]) hsacked
  · intro hpos
    have hthresh : s'.dup_ack_thresh = s.dup_ack_thresh := by rw [hresent.rest]
    rw [hthresh] at hpos ⊢
    have hmarked := h.marked hpos
    rw [hlist, marked_append, marked_append] at hmarked
    rw [hlist', marked_append, marked_append, hcount]
    exact ⟨⟨hmarked.1.1, marked_of_flags hflags.2 hflags.1 hresent.some rfl hmarked.1.2⟩, hmarked.2⟩
  · have hold := h.head i
    rw [hlist] at hold
    rw [hlist'] at hi
    cases kept with
    | nil =>
      cases hcut : pieces with
      | nil =>
        rw [hpieces] at hcut
        exact absurd hcut (by simp)
      | cons first cut =>
        rw [hcut] at hi
        cases hi
        exact (hflags.2 i (by simp [hcut])).1
    | cons first kept => exact hold hi
  · rw [hresent.rest]
    refine h.highest_sack.trans (highest_congr ?_).symm
    simp only [hlist, hlist', List.filter_append, hnone _ hflags.1, hnone _ hflags.2]

theorem Counted.sent (h : Counted s) (hs : Sound s') (hsent : Sent s s' item) : Counted s' := by
  obtain ⟨hitem, _⟩ := hsent.unmarked h.clean
  have hlist := hsent.list
  refine ⟨hs, ?_, ?_, fun i hi => ?_, fun hpos => ?_⟩
  · rw [hlist, bytes_of_append, bytes_of_eq_zero (l := [item]) (by simp [hitem.1]), add_zero, hsent.rest]
    exact h.sacked_out
  · rw [hlist, bytes_of_append, bytes_of_eq_zero (l := [item]) (by simp [hitem.2.1]), add_zero, hsent.rest]
    exact h.lost_out
  · intro hsacked
    rw [hlist, List.mem_append, List.mem_singleton] at hi
    rcases hi with hi | rfl
    · exact h.apart i hi hsacked
    · exact hitem.2.1
  · have hthresh : s'.dup_ack_thresh = s.dup_ack_thresh := by rw [hsent.rest]
    rw [hthresh] at hpos ⊢
    rw [hlist, marked_append]
    refine ⟨by simpa [hitem.1] using h.marked hpos, fun _ hle => ?_, trivial⟩
    rw [List.countP_nil] at hle
    omega

theorem Board.sent (h : Board s) (hs : Sound s') (hsent : Sent s s' item) : Board s' := by
  obtain ⟨hitem, _⟩ := hsent.unmarked h.clean
  have hlist := hsent.list
  refine ⟨h.toCounted.sent hs hsent, fun i hi => ?_, ?_⟩
  · rw [hlist] at hi
    cases hl : s.sent_list with
    | nil =>
      rw [hl] at hi
      cases hi
      exact hitem.1
    | cons first rest =>
      rw [hl] at hi
      exact h.head i (by rw [hl]; exact hi)
  · rw [hsent.rest]
    refine h.highest_sack.trans (highest_congr ?_).symm
    simp [hlist, hitem.1]

theorem Board.copy_from_sequence (h : Board s) (hcopy : s.copy_from_sequence now numBytes seq = some (out, s')) :
    Board s' := by
  have hs := h.toSound.copy_from_sequence hcopy
  rcases h.toShape.copy_spec hcopy with ⟨_, rfl⟩ | ⟨_, _, _, _, _, _, hresent, _⟩ | ⟨_, hsent, _⟩
  · exact h
  · exact h.resent hs hresent
  · exact h.sent hs hsent

theorem bytes_of_map {t : TcpTxItem → TcpTxItem} (ht : ∀ i, (t i).packet = i.packet) (l : List TcpTxItem) :
    bytes_of f (l.map t) = bytes_of (fun i => f (t i)) l := by
  induction l with
  | nil => rfl
  | cons item l ih => rw [List.map_cons, bytes_of_cons, bytes_of_cons, ih, get_size_eq, get_size_eq, ht]

theorem marked_of_unsacked (hthresh : 0 < thresh) (h : ∀ i ∈ l, i.sacked = false) : Marked thresh 0 l := by
  induction l with
  | nil => trivial
  | cons item l ih =>
    refine ⟨fun _ hle => ?_, ih fun i hi => h i (by simp [hi])⟩
    have hnone : l.countP TcpTxItem.sacked = 0 := by
      rw [List.countP_eq_zero]
      intro i hi
      rw [h i (by simp [hi])]
      exact Bool.false_ne_true
    omega

theorem highest_of_unsacked (h : ∀ i ∈ l, i.sacked = false) : highest l = (none, ⟨0⟩) := by
  have hnil : l.filter TcpTxItem.sacked = [] := by
    rw [List.filter_eq_nil_iff]
    intro i hi
    rw [h i hi]
    exact Bool.false_ne_true
  rw [highest, hnil]
  rfl

theorem Board.unsacked (hs : Sound s') (hnone : ∀ i ∈ s'.sent_list, i.sacked = false) (hout : s'.sacked_out = 0)
    (hlost : s'.lost_out = bytes_of TcpTxItem.lost s'.sent_list) (hhighest : s'.highest_sack = (none, ⟨0⟩)) : Board s' := by
  refine ⟨⟨hs, ?_, hlost, fun i hi hsacked => ?_, fun hpos => marked_of_unsacked hpos hnone⟩,
    fun i hi => hnone i (List.mem_of_mem_head? hi), ?_⟩
  · rw [hout, bytes_of_eq_zero hnone]
  · rw [hnone i hi] at hsacked
    cases hsacked
  · rw [hhighest, highest_of_unsacked hnone]

theorem Board.reset_reno_sack (h : Board s) : Board s.reset_reno_sack := by
  refine Board.unsacked ((reflag_reset_reno_sack s).sound h.toSound) (fun i hi => ?_) rfl ?_ rfl
  · obtain ⟨j, _, rfl⟩ := List.mem_map.mp hi
    rfl
  · refine h.lost_out.trans ?_
    show _ = bytes_of _ (s.sent_list.map _)
    rw [bytes_of_map]
    exact fun _ => rfl

theorem Board.reset_sent_list (h : Board s) : Board s.reset_sent_list := by
  refine Board.unsacked h.toSound.reset_sent_list (fun i hi => ?_) rfl rfl rfl
  cases hi

theorem foldl_bytes_of (l : List TcpTxItem) (n : UInt32) :
    l.foldl (fun n item => if f item then n + item.get_size else n) n = n + bytes_of f l := by
  induction l generalizing n with
  | nil => simp
  | cons item l ih =>
    rw [List.foldl_cons, ih, bytes_of_cons]
    split <;> simp [add_assoc]

theorem Board.set_sent_list_lost {resetSack : Bool} (h : Board s) (hs : s.set_sent_list_lost resetSack = some s') : Board s' := by
  have hsound := (reflag_set_sent_list_lost hs).sound h.toSound
  obtain ⟨_, hs⟩ := Option.ite_none_right_eq_some.mp hs
  cases resetSack with
  | true =>
    cases hs
    refine Board.unsacked hsound (fun i hi => ?_) rfl ?_ rfl
    · obtain ⟨j, _, rfl⟩ := List.mem_map.mp hi
      rfl
    · show s.sent_size = bytes_of _ (s.sent_list.map _)
      rw [bytes_of_map, bytes_of_all fun _ _ => rfl, h.sent_size]
      exact fun _ => rfl
  | false =>
    cases hs
    refine ⟨⟨hsound, ?_, ?_, fun i hi hsacked => ?_, fun hpos => ?_⟩, fun i hi => ?_, ?_⟩
    · refine h.sacked_out.trans ?_
      show _ = bytes_of _ (s.sent_list.map _)
      rw [bytes_of_map]
      exact fun _ => rfl
    · show s.sent_list.foldl _ _ = bytes_of _ (s.sent_list.map _)
      rw [bytes_of_map, foldl_bytes_of, zero_add]
      exact fun _ => rfl
    · obtain ⟨j, hj, rfl⟩ := List.mem_map.mp hi
      show (j.lost || !j.sacked) = false
      have hj' : j.sacked = true := hsacked
      rw [hj', h.apart j hj hj']
      rfl
    · show Marked _ 0 (s.sent_list.map _)
      generalize s.sent_list = l
      induction l with
      | nil => trivial
      | cons item l ih =>
        refine ⟨fun hsacked _ => ?_, ih⟩
        have hitem : item.sacked = false := hsacked
        show (item.lost || !item.sacked) = true
        rw [hitem, Bool.not_false, Bool.or_true]
    · obtain ⟨j, hj, rfl⟩ := Option.mem_map.mp (List.head?_map (l := s.sent_list) ▸ hi)
      exact h.head j hj
    · refine h.highest_sack.trans (highest_congr ?_).symm
      show ((s.sent_list.map _).filter _).map _ = _
      rw [List.filter_map, List.map_map]
      rfl

theorem Board.mark_head_as_lost (h : Board s) : Board s.mark_head_as_lost := by
  have hsound := (reflag_mark_head_as_lost s).sound h.toSound
  revert hsound
  rw [TcpTxBuffer.mark_head_as_lost]
  split
  · exact fun _ => h
  next head rest hlist =>
    intro hsound
    have hsacked : head.sacked = false := h.head head (by rw [hlist]; rfl)
    have hsackedOut := h.sacked_out
    have hlostOut := h.lost_out
    have happart := h.apart
    have hhighest := h.highest_sack
    have hmarked := h.marked
    rw [hlist] at hsackedOut hlostOut happart hhighest hmarked
    rw [bytes_of_cons] at hsackedOut hlostOut
    refine ⟨⟨hsound, ?_, ?_, fun i hi hi' => ?_, fun hpos => ⟨fun _ _ => rfl, (hmarked hpos).2⟩⟩, fun i hi => ?_, ?_⟩
    · rw [bytes_of_cons]
      simpa [hsacked] using hsackedOut
    · rw [bytes_of_cons, if_pos rfl]
      show (if head.lost then s.lost_out else s.lost_out + head.get_size) = head.get_size + _
      cases hlost : head.lost
      · rw [hlost] at hlostOut
        simp only [Bool.false_eq_true, if_false, zero_add] at hlostOut ⊢
        rw [hlostOut, add_comm]
      · rw [hlost] at hlostOut
        simpa using hlostOut
    · rcases List.mem_cons.mp hi with rfl | hi
      · cases hi'
      · exact happart i (by simp [hi]) hi'
    · cases hi
      rfl
    · refine hhighest.trans (highest_congr ?_).symm
      simp [hsacked]

theorem Board.delete_retransmitted_flag_from_head (h : Board s) : Board s.delete_retransmitted_flag_from_head := by
  have hsound := (reflag_delete_retransmitted_flag s).sound h.toSound
  revert hsound
  rw [TcpTxBuffer.delete_retransmitted_flag_from_head]
  split
  · exact fun _ => h
  next head rest hlist =>
    split
    · exact fun _ => h
    intro hsound
    have hsackedOut := h.sacked_out
    have hlostOut := h.lost_out
    have happart := h.apart
    have hhead := h.head
    have hhighest := h.highest_sack
    have hmarked := h.marked
    rw [hlist] at hsackedOut hlostOut happart hhead hhighest hmarked
    refine ⟨⟨hsound, hsackedOut, hlostOut, fun i hi => ?_, hmarked⟩, fun i hi => ?_, hhighest.trans (highest_congr ?_).symm⟩
    · rcases List.mem_cons.mp hi with rfl | hi
      · exact happart head (by simp)
      · exact happart i (by simp [hi])
    · cases hi
      exact hhead head rfl
    · cases hsacked : head.sacked <;> simp [hsacked, key]

theorem Board.reset_last_segment_sent (h : Board s) (hlast : ∀ item ∈ s.sent_list.getLast?, Unmarked item) :
    Board s.reset_last_segment_sent := by
  have hsound := h.toSound.reset_last_segment_sent hlast
  revert hsound
  rw [TcpTxBuffer.reset_last_segment_sent]
  split
  · exact fun _ => h
  next item hitem =>
    intro hsound
    obtain ⟨front, hfront⟩ := List.getLast?_eq_some_iff.mp hitem
    obtain ⟨hsacked, hlost, _⟩ := hlast item hitem
    have hdrop : s.sent_list.dropLast = front := by rw [hfront, List.dropLast_concat]
    have hsackedOut := h.sacked_out
    have hlostOut := h.lost_out
    have happart := h.apart
    have hhead := h.head
    have hhighest := h.highest_sack
    have hmarked := h.marked
    rw [hfront] at hsackedOut hlostOut happart hhead hhighest hmarked
    rw [bytes_of_append, bytes_of_eq_zero (l := [item]) (by simp [hsacked]), add_zero] at hsackedOut
    rw [bytes_of_append, bytes_of_eq_zero (l := [item]) (by simp [hlost]), add_zero] at hlostOut
    rw [hdrop] at hsound ⊢
    refine ⟨⟨hsound, hsackedOut, hlostOut, fun i hi => happart i (by simp [show i ∈ front from hi]), fun hpos => ?_⟩,
      fun i hi => ?_, hhighest.trans (highest_congr ?_)⟩
    · have hfirst := (marked_append.mp (hmarked hpos)).1
      simpa [hsacked] using hfirst
    · refine hhead i ?_
      have hi' : i ∈ front.head? := hi
      rw [List.head?_append, Option.mem_def.mp hi']
      rfl
    · simp [hsacked]

end Ns3.TcpTxBuffer
