import Ns3.Internet.TcpTxBuffer.Scoreboard

/-! What an acknowledgment leaves of the scoreboard. -/

namespace Ns3.TcpTxBuffer

variable {s s' s₀ : TcpTxBuffer} {l l' m m' : List TcpTxItem} {base : SequenceNumber32} {p q k far : ℕ} {seq : SequenceNumber32}
  {item : TcpTxItem} {rest : List TcpTxItem} {now : Time} {n offset : UInt32}

theorem Placed.mem (h : Placed base p l) (hitem : item ∈ l) :
    ∃ k, item.start_seq = base.plus (p + k) ∧ k + item.packet.length ≤ total l := by
  induction l generalizing p with
  | nil => cases hitem
  | cons first l ih =>
    obtain ⟨hstart, _, hrest⟩ := h
    rcases List.mem_cons.mp hitem with rfl | hitem
    · exact ⟨0, hstart, by rw [total_cons]; omega⟩
    · obtain ⟨k, hk, hle⟩ := ih hrest hitem
      exact ⟨first.packet.length + k, by rw [hk, Nat.add_assoc], by rw [total_cons]; omega⟩

theorem ahead (h : base.greater_equal seq = false) :
    seq = base.plus (seq.sub base).toUInt32.toNat ∧ (seq.sub base).toUInt32.toNat ≤ 2 ^ 31 := by
  rw [SequenceNumber32.sub_toUInt32]
  refine ⟨?_, ?_⟩
  · cases seq with
    | mk value =>
      simp only [SequenceNumber32.plus, UInt32.ofNat_toNat, SequenceNumber32.mk.injEq]
      grind
  · have hhalf : SequenceNumber32.half_max_value.toNat = 2147483647 := rfl
    have hbase := base.value.toNat_lt
    have hseq := seq.value.toNat_lt
    rw [SequenceNumber32.greater_equal, Bool.or_eq_false_iff, SequenceNumber32.greater, Bool.or_eq_false_iff,
      Bool.and_eq_false_iff, Bool.and_eq_false_iff] at h
    simp only [decide_eq_false_iff_not, gt_iff_lt, UInt32.lt_iff_toNat_lt, UInt32.le_iff_toNat_le, UInt32.toNat_sub,
      hhalf] at h ⊢
    omega

theorem less_equal_of_ahead (h : base.greater_equal seq = false) (hk : k < (seq.sub base).toUInt32.toNat) :
    (base.plus k).less_equal seq = true := by
  obtain ⟨hseq, hfar⟩ := ahead h
  obtain ⟨far, hdist⟩ : ∃ far, far = (seq.sub base).toUInt32.toNat := ⟨_, rfl⟩
  rw [← hdist] at hk hseq hfar
  subst hseq
  rcases Nat.eq_zero_or_pos k with rfl | hpos
  · rw [SequenceNumber32.plus_zero, SequenceNumber32.less_equal]
    rw [SequenceNumber32.greater_equal, Bool.or_eq_false_iff] at h
    rw [h.1]
    rfl
  · rw [SequenceNumber32.less_equal_plus (by omega) (by omega)]
    exact decide_eq_true hk.le

/-- No sacked item has a byte of a sequence number. -/
def Between (s : TcpTxBuffer) (seq : SequenceNumber32) : Prop :=
  ∀ item ∈ s.sent_list, item.sacked = true →
    (item.start_seq.less_equal seq && seq.less (item.start_seq.add item.get_size)) = false

instance (s : TcpTxBuffer) (seq : SequenceNumber32) : Decidable (Between s seq) :=
  inferInstanceAs (Decidable (∀ item ∈ s.sent_list, item.sacked = true →
    (item.start_seq.less_equal seq && seq.less (item.start_seq.add item.get_size)) = false))

theorem Between.ne (hitem : item ∈ s.sent_list) (hsacked : item.sacked = true) (hpos : 0 < item.packet.length)
    (hlt : item.packet.length < 2 ^ 31) (h : Between s item.start_seq) : False := by
  have hself := h item hitem hsacked
  have hend : item.start_seq.add item.get_size = item.start_seq.plus item.packet.length := by
    rw [add_eq_plus, get_size_toNat (by omega)]
  have hle : item.start_seq.less_equal item.start_seq = true := by
    have hzero := SequenceNumber32.less_equal_plus (b := item.start_seq) (m := 0) (n := 0) (by omega) (by omega)
    rwa [SequenceNumber32.plus_zero, decide_eq_true le_rfl] at hzero
  have hless : item.start_seq.less (item.start_seq.add item.get_size) = true := by
    have hzero := SequenceNumber32.less_plus (b := item.start_seq) (m := 0) (n := item.packet.length) (by omega) (by omega)
    rwa [SequenceNumber32.plus_zero, decide_eq_true hpos, ← hend] at hzero
  rw [hle, hless] at hself
  cases hself

/-- A buffer while data up to a distance is taken off it: what was sacked and is not passed stays. -/
structure Discarding (s₀ : TcpTxBuffer) (far : ℕ) (o : UInt32) (s : TcpTxBuffer) : Prop extends Counted s where
  same : s.highest_sack = s₀.highest_sack
  first : ∃ d, s.first_byte_seq = s₀.first_byte_seq.plus d ∧ d + o.toNat = far ∧
    ∃ passed, s₀.sent_list.filter TcpTxItem.sacked = passed ++ s.sent_list.filter TcpTxItem.sacked ∧
      ∀ item ∈ passed, ∃ k < d, item.start_seq = s₀.first_byte_seq.plus k

theorem Discarding.pull (h : Discarding s₀ far offset s) (hnil : s.sent_list = [])
    (hcopy : s.copy_from_sequence now offset s.first_byte_seq = some (some item, s')) : Discarding s₀ far offset s' := by
  have hs := h.toSound.copy_from_sequence hcopy
  obtain ⟨d, hfirst, hd, passed, hpassed, hbehind⟩ := h.first
  rcases h.toShape.copy_spec hcopy with ⟨hout, _⟩ | ⟨kept, m, _, _, _, after, hresent, _⟩ | ⟨new, hsent, _⟩
  · cases hout
  · have hlist := hresent.list
    rw [hnil, eq_comm, List.append_eq_nil_iff, List.append_eq_nil_iff] at hlist
    exact absurd hlist.1.2 hresent.some
  · obtain ⟨hnew, _⟩ := hsent.unmarked h.clean
    refine ⟨h.toCounted.sent hs hsent, ?_, d, ?_, hd, passed, ?_, hbehind⟩
    · rw [hsent.rest]
      exact h.same
    · rw [hsent.rest]
      exact hfirst
    · rw [hpassed, hsent.list, hnil]
      simp [hnew.1]

theorem Discarding.whole (h : Discarding s₀ far offset s) (hlist : s.sent_list = item :: rest)
    (hle : item.get_size ≤ offset) (hs : remove_from_counts (s.without item rest) item item.get_size = some s') :
    Discarding s₀ far (offset - item.get_size) s' := by
  have hsound : Sound s' := ⟨h.toShape.without hlist hs, by rw [remove_from_counts_app hs]; exact h.clean⟩
  have hsacked := h.sacked_out
  have hlost := h.lost_out
  have hmarked := h.marked
  have hplaced := h.placed
  have hpos := h.placed.pos item (by rw [hlist]; simp)
  have hlt := h.lt
  obtain ⟨d, hfirst, hd, passed, hpassed, hbehind⟩ := h.first
  rw [hlist] at hsacked hlost hmarked hplaced hpassed hlt
  rw [bytes_of_cons] at hsacked hlost
  rw [total_cons] at hlt
  have hsize := get_size_toNat (i := item) (by omega)
  have hstart : item.start_seq = s₀.first_byte_seq.plus d := by
    rw [hplaced.1, SequenceNumber32.plus_zero, hfirst]
  rw [remove_from_counts_spec hs] at hsound ⊢
  refine ⟨⟨hsound, ?_, ?_, fun i hi => h.apart i (by rw [hlist]; exact List.mem_cons_of_mem _ hi), fun hthresh => (hmarked hthresh).2⟩,
    h.same, d + item.packet.length, ?_, ?_,
    passed ++ (if item.sacked then [item] else []), ?_, fun t ht => ?_⟩
  · show (if item.sacked then s.sacked_out - item.get_size else s.sacked_out) = bytes_of _ rest
    rw [hsacked]
    cases item.sacked <;> simp
  · show (if item.lost then s.lost_out - item.get_size else s.lost_out) = bytes_of _ rest
    rw [hlost]
    cases item.lost <;> simp
  · show s.first_byte_seq.add item.get_size = _
    rw [hfirst, SequenceNumber32.plus_add, hsize]
  · rw [UInt32.toNat_sub_of_le _ _ hle, hsize]
    rw [UInt32.le_iff_toNat_le, hsize] at hle
    omega
  · rw [hpassed]
    show _ = _ ++ rest.filter _
    cases hb : item.sacked <;> simp [hb]
  · rw [List.mem_append] at ht
    rcases ht with ht | ht
    · obtain ⟨k, hk, hseq⟩ := hbehind t ht
      exact ⟨k, by omega, hseq⟩
    · split at ht
      · rw [List.mem_singleton.mp ht]
        exact ⟨d, by omega, hstart⟩
      · cases ht

theorem Discarding.part (h : Discarding s₀ (seq.sub s₀.first_byte_seq).toUInt32.toNat offset s) (hlist : s.sent_list = item :: rest)
    (hahead : s₀.first_byte_seq.greater_equal seq = false) (hbetween : Between s₀ seq) (hless : offset < item.get_size)
    (hs : remove_from_counts (s.without_part item rest offset) item offset = some s') :
    Discarding s₀ (seq.sub s₀.first_byte_seq).toUInt32.toNat 0 s' := by
  have hsound : Sound s' := ⟨h.toShape.without_part hlist hless hs, by rw [remove_from_counts_app hs]; exact h.clean⟩
  have hsacked := h.sacked_out
  have hlost := h.lost_out
  have hmarked := h.marked
  have hplaced := h.placed
  have hlt := h.lt
  obtain ⟨d, hfirst, hd, passed, hpassed, hbehind⟩ := h.first
  rw [hlist] at hsacked hlost hmarked hplaced hpassed hlt
  rw [bytes_of_cons] at hsacked hlost
  rw [total_cons] at hlt
  have hsize := get_size_toNat (i := item) (by omega)
  have hstart : item.start_seq = s₀.first_byte_seq.plus d := by
    rw [hplaced.1, SequenceNumber32.plus_zero, hfirst]
  obtain ⟨hseq, hfar⟩ := ahead hahead
  obtain ⟨far, hdist⟩ : ∃ far, far = (seq.sub s₀.first_byte_seq).toUInt32.toNat := ⟨_, rfl⟩
  rw [← hdist] at hseq hfar hd ⊢
  rw [UInt32.lt_iff_toNat_lt, hsize] at hless
  have hitem : item.sacked = false := by
    by_contra hnot
    rw [Bool.not_eq_false] at hnot
    have hmem : item ∈ s₀.sent_list.filter TcpTxItem.sacked := by
      rw [hpassed, List.filter_cons, if_pos hnot]
      simp
    have hcontains := hbetween item (List.mem_filter.mp hmem).1 hnot
    rw [hseq, hstart, SequenceNumber32.plus_add, hsize, SequenceNumber32.less_equal_plus (by omega) (by omega),
      SequenceNumber32.less_plus (by omega) (by omega), decide_eq_true (by omega), decide_eq_true (by omega)] at hcontains
    cases hcontains
  have hpart : (fragment item offset).get_size = item.get_size - offset := by
    show UInt32.ofNat (item.packet.drop offset.toNat).length = UInt32.ofNat item.packet.length - offset
    rw [List.length_drop, ofNat_sub hless.le]
  rw [remove_from_counts_spec hs] at hsound ⊢
  refine ⟨⟨hsound, ?_, ?_, fun i hi hi' => ?_, hmarked⟩, h.same, far, ?_, ?_, passed, ?_, fun t ht => ?_⟩
  · show (if item.sacked then s.sacked_out - offset else s.sacked_out) = bytes_of _ (fragment item offset :: rest)
    rw [bytes_of_cons, hsacked, hitem, show (fragment item offset).sacked = false from hitem]
    rfl
  · show (if item.lost then s.lost_out - offset else s.lost_out) = bytes_of _ (fragment item offset :: rest)
    rw [bytes_of_cons, hpart, hlost]
    show _ = (if item.lost then _ else _) + _
    split <;> grind
  · rcases List.mem_cons.mp hi with rfl | hi
    · exact absurd (hitem.symm.trans hi') Bool.false_ne_true
    · exact h.apart i (by rw [hlist]; exact List.mem_cons_of_mem _ hi) hi'
  · show s.first_byte_seq.add offset = _
    rw [hfirst, SequenceNumber32.plus_add, hd]
  · rfl
  · rw [hpassed]
    show _ = _ ++ (fragment item offset :: rest).filter _
    rw [List.filter_cons, List.filter_cons, hitem, show (fragment item offset).sacked = false from hitem]
    rfl
  · obtain ⟨k, hk, hseq'⟩ := hbehind t ht
    exact ⟨k, by omega, hseq'⟩

theorem Board.discard_loop {turns : ℕ} (h : Board s) (hahead : s.first_byte_seq.greater_equal seq = false) (hbetween : Between s seq)
    (hloop : s.discard_loop now turns (seq.sub s.first_byte_seq).toUInt32 = some s') :
    ∃ o, Discarding s (seq.sub s.first_byte_seq).toUInt32.toNat o s' ∧ (s'.size = 0 ∨ o = 0) := by
  refine discard_induct (I := Discarding s (seq.sub s.first_byte_seq).toUInt32.toNat)
    (fun _ _ _ _ hd hnil hcopy => hd.pull hnil hcopy) (fun _ _ _ _ _ hd _ hlist hle hs => hd.whole hlist hle hs)
    (fun _ _ _ _ _ hd _ hlist hlt hs => hd.part hlist hahead hbetween hlt hs) ?_ hloop
  refine ⟨h.toCounted, rfl, 0, (SequenceNumber32.plus_zero _).symm, Nat.zero_add _, [], rfl, ?_⟩
  simp

theorem Discarding.highest {o : UInt32} (h : Discarding s₀ (seq.sub s₀.first_byte_seq).toUInt32.toNat o s) (hboard : Board s₀)
    (hahead : s₀.first_byte_seq.greater_equal seq = false) (hbetween : Between s₀ seq)
    (hfirst : s.sent_list = [] ∨ s.first_byte_seq = seq) :
    (if s.highest_sack.2.less_equal seq then (none, ⟨0⟩) else s.highest_sack) = highest s.sent_list := by
  obtain ⟨d, _, hd, passed, hpassed, hbehind⟩ := h.first
  rw [h.same, hboard.highest_sack]
  rw [TcpTxBuffer.highest, hpassed]
  cases hlast : (s.sent_list.filter TcpTxItem.sacked).getLast? with
  | none =>
    rw [List.getLast?_eq_none_iff] at hlast
    rw [hlast, List.append_nil, TcpTxBuffer.highest, hlast]
    cases htop : passed.getLast? with
    | none => simp
    | some t =>
      obtain ⟨k, hk, hstart⟩ := hbehind t (List.mem_of_getLast? htop)
      show (if t.start_seq.less_equal seq then _ else _) = _
      rw [hstart, less_equal_of_ahead hahead (by omega), if_pos rfl]
      rfl
  | some t =>
    have hmem := List.mem_of_getLast? hlast
    obtain ⟨ht, hsacked⟩ := List.mem_filter.mp hmem
    have hold : t ∈ s₀.sent_list := (List.mem_filter.mp (hpassed ▸ List.mem_append_right _ hmem)).1
    have hlt := h.lt
    obtain ⟨k, hk, hle⟩ := h.placed.mem ht
    have hpos := h.placed.pos t ht
    rw [List.getLast?_append, hlast, TcpTxBuffer.highest, hlast]
    show (if t.start_seq.less_equal seq then _ else _) = _
    have hseq : s.first_byte_seq = seq := by
      rcases hfirst with hnil | hseq
      · rw [hnil] at ht
        cases ht
      · exact hseq
    rw [hseq, Nat.zero_add] at hk
    have hne : k ≠ 0 := by
      rintro rfl
      rw [SequenceNumber32.plus_zero] at hk
      subst hk
      exact hbetween.ne hold hsacked hpos (by omega)
    have hafter : t.start_seq.less_equal seq = false := by
      have hplus := SequenceNumber32.less_equal_plus (b := seq) (m := k) (n := 0) (by omega) (by omega)
      rwa [SequenceNumber32.plus_zero, decide_eq_false (by omega), ← hk] at hplus
    rw [hafter]
    rfl

theorem check_head_of_unsacked (hhead : ∀ item ∈ s.sent_list.head?, item.sacked = false) (h : s.check_head seq = some s') :
    s' = s := by
  rw [check_head] at h
  split at h
  · cases h
    rfl
  next head rest hlist =>
    have hsacked : head.sacked = false := hhead head (by rw [hlist]; rfl)
    rw [hsacked] at h
    obtain ⟨s₁, hs₁, h⟩ := Option.bind_eq_some_iff.mp h
    cases hs₁
    split at h
    · cases h
      rfl
    · cases h

theorem Board.discard_up_to (h : Board s) (hbetween : Between s seq) (hdiscard : s.discard_up_to now seq = some s') : Board s' := by
  have hsound := h.toSound.discard_up_to hdiscard
  rw [TcpTxBuffer.discard_up_to] at hdiscard
  split at hdiscard
  · cases hdiscard
    exact h
  next hahead =>
    rw [Bool.not_eq_true] at hahead
    obtain ⟨s₁, hloop, hdiscard⟩ := Option.bind_eq_some_iff.mp hdiscard
    obtain ⟨s₂, hcheck, hdiscard⟩ := Option.bind_eq_some_iff.mp hdiscard
    obtain ⟨o, h₁, hstop⟩ := h.discard_loop hahead hbetween hloop
    obtain ⟨s₃, hs₃⟩ : ∃ s₃, s₃ = if s₁.size = 0 then { s₁ with first_byte_seq := seq } else s₁ := ⟨_, rfl⟩
    rw [← hs₃] at hcheck
    have hfields : s₃ = { s₁ with first_byte_seq := seq } ∧ (s₁.sent_list = [] ∨ s₁.first_byte_seq = seq) := by
      by_cases hzero : s₁.size = 0
      · rw [if_pos hzero] at hs₃
        exact ⟨hs₃, .inl (h₁.toShape.empty hzero).1⟩
      · rw [if_neg hzero] at hs₃
        obtain rfl := hstop.resolve_left hzero
        obtain ⟨d, hfirst, hd, _⟩ := h₁.first
        have hseq : s₁.first_byte_seq = seq := by
          rw [hfirst, (ahead hahead).1]
          congr 1
        exact ⟨by rw [hs₃, ← hseq], .inr hseq⟩
    obtain ⟨rfl, hempty⟩ := hfields
    -- the new head starts where the acknowledgment ends
    have hhead : ∀ item ∈ s₁.sent_list.head?, item.sacked = false := by
      intro item hitem
      by_contra hnot
      rw [Bool.not_eq_false] at hnot
      have hmem := List.mem_of_mem_head? hitem
      obtain ⟨_, _, _, passed, hpassed, _⟩ := h₁.first
      have hold : item ∈ s.sent_list.filter TcpTxItem.sacked := by
        rw [hpassed]
        exact List.mem_append_right _ (List.mem_filter.mpr ⟨hmem, hnot⟩)
      have hseq : item.start_seq = seq := by
        have hplaced := h₁.placed
        obtain ⟨rest, hrest⟩ := List.head?_eq_some_iff.mp hitem
        rw [hrest] at hplaced
        rw [hplaced.1, SequenceNumber32.plus_zero]
        refine hempty.resolve_left fun hnil => ?_
        rw [hnil] at hmem
        cases hmem
      subst hseq
      have hlt := h₁.lt
      obtain ⟨k, _, hle⟩ := h₁.placed.mem hmem
      exact hbetween.ne (List.mem_filter.mp hold).1 hnot (h₁.placed.pos item hmem) (by omega)
    obtain rfl := check_head_of_unsacked (by exact hhead) hcheck
    obtain ⟨_, hdiscard⟩ := Option.ite_none_right_eq_some.mp hdiscard
    have hhighest := h₁.highest h hahead hbetween hempty
    cases hdiscard
    by_cases hreset : s₁.highest_sack.2.less_equal seq = true
    · rw [if_pos hreset] at hhighest
      rw [if_pos hreset] at hsound ⊢
      exact ⟨⟨hsound, h₁.sacked_out, h₁.lost_out, h₁.apart, h₁.marked⟩, hhead, hhighest⟩
    · rw [if_neg hreset] at hhighest
      rw [if_neg hreset] at hsound ⊢
      exact ⟨⟨hsound, h₁.sacked_out, h₁.lost_out, h₁.apart, h₁.marked⟩, hhead, hhighest⟩

end Ns3.TcpTxBuffer
