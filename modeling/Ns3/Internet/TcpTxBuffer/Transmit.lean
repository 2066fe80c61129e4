import Ns3.Internet.TcpTxBuffer.Ack

/-! `CopyFromSequence` yields an item where one can be sent. -/

namespace Ns3.TcpTxBuffer

variable {s s' : TcpTxBuffer} {l l' A B : List TcpTxItem} {base seq : SequenceNumber32} {p q node : ℕ} {item : TcpTxItem}
  {rest : List TcpTxItem} {now : Time} {n retrans numBytes : UInt32} {first : Option SequenceNumber32}

theorem fit_isSome (h : n ≤ item.get_size) : ∃ f, fit n retrans node item rest = some f ∧ f.item.sacked = item.sacked ∧
    f.item.start_seq = item.start_seq := by
  rw [fit]
  split
  · exact ⟨_, rfl, rfl, rfl⟩
  next hne =>
    have hlt : n < item.get_size := by
      rw [UInt32.lt_iff_toNat_lt]
      rw [UInt32.le_iff_toNat_le] at h
      exact lt_of_le_of_ne h fun heq => hne (UInt32.toNat_inj.mp heq)
    rw [if_pos hlt]
    exact ⟨_, rfl, rfl, rfl⟩

theorem ends_le (seq : SequenceNumber32) (item : TcpTxItem) (hn : n.toNat < 2 ^ 31) (hitem : item.packet.length < 2 ^ 31) :
    (seq.add n).less_equal (seq.add item.get_size) = decide (n.toNat ≤ item.packet.length) := by
  rw [add_eq_plus, add_eq_plus, get_size_toNat (by omega), SequenceNumber32.less_equal_plus (by omega) (by omega)]

theorem take_end_fit (seq : SequenceNumber32) (node : ℕ) (retrans : UInt32) (rest : List TcpTxItem) (hn : n.toNat < 2 ^ 31) (hitem : item.packet.length < 2 ^ 31) (hle : n.toNat ≤ item.packet.length) :
    ∃ f, take_end n seq node retrans item rest = some f ∧ f.item.sacked = item.sacked ∧ f.item.start_seq = item.start_seq := by
  have hsize : n ≤ item.get_size := by
    rw [UInt32.le_iff_toNat_le, get_size_toNat (by omega)]
    exact hle
  have hends := ends_le seq item hn hitem
  rw [decide_eq_true hle] at hends
  cases rest with
  | nil =>
    rw [take_end, if_pos hends]
    exact fit_isSome hsize
  | cons next rest =>
    rw [take_end, if_pos hends]
    exact fit_isSome hsize

theorem take_end_two {next : TcpTxItem} (hn : n.toNat < 2 ^ 31) (hitem : item.packet.length + next.packet.length < 2 ^ 31)
    (hle : n.toNat ≤ item.packet.length + next.packet.length) (hflags : item.sacked = next.sacked ∧ item.lost = next.lost) :
    ∃ f, take_end n seq node retrans item (next :: rest) = some f ∧ f.item.sacked = item.sacked ∧
      f.item.start_seq = item.start_seq := by
  by_cases hone : n.toNat ≤ item.packet.length
  · exact take_end_fit _ _ _ _ hn (by omega) hone
  · have hends := ends_le seq item hn (by omega)
    rw [decide_eq_false hone] at hends
    rw [take_end, hends, if_neg Bool.false_ne_true, TcpTxItem.merge_items, if_pos hflags]
    dsimp only [Option.bind_eq_bind, Option.bind_some]
    exact take_end_fit _ _ _ _ hn (by rw [List.length_append]; exact hitem) (by rw [List.length_append]; exact hle)

theorem take_end_unmarked (seq : SequenceNumber32) (node : ℕ) (retrans : UInt32) (hn : n.toNat < 2 ^ 31) (htotal : total (item :: rest) < 2 ^ 31) (hle : n.toNat ≤ total (item :: rest))
    (hclean : ∀ i ∈ item :: rest, Unmarked i) : ∃ f, take_end n seq node retrans item rest = some f := by
  induction rest generalizing item retrans with
  | nil =>
    rw [total_cons, total_nil] at htotal hle
    obtain ⟨f, hf, _⟩ := take_end_fit seq node retrans [] hn (by omega) hle
    exact ⟨f, hf⟩
  | cons next rest ih =>
    rw [total_cons] at htotal hle
    by_cases hone : n.toNat ≤ item.packet.length
    · obtain ⟨f, hf, _⟩ := take_end_fit seq node retrans (next :: rest) hn (by omega) hone
      exact ⟨f, hf⟩
    · have hends := ends_le seq item hn (by omega)
      rw [decide_eq_false hone] at hends
      have hitem := hclean item (by simp)
      have hnext := hclean next (by simp)
      rw [total_cons] at htotal hle
      rw [take_end, hends, if_neg Bool.false_ne_true, TcpTxItem.merge_items,
        if_pos ⟨hitem.1.trans hnext.1.symm, hitem.2.1.trans hnext.2.1.symm⟩]
      dsimp only [Option.bind_eq_bind, Option.bind_some]
      refine ih _ ?_ ?_ fun i hi => ?_
      · rw [total_cons, List.length_append]
        omega
      · rw [total_cons, List.length_append]
        omega
      · rcases List.mem_cons.mp hi with rfl | hi
        · refine ⟨hitem.1, hitem.2.1, ?_⟩
          show (item.retrans && next.retrans) = false
          rw [hitem.2.2, Bool.false_and]
        · exact hclean i (by simp [hi])

theorem get_packet_at (first : Option SequenceNumber32) (hplaced : Placed base p (A ++ item :: B)) (hfar : p + total (A ++ item :: B) < 2 ^ 31)
    (htake : ∃ f, take_end n (base.plus (p + total A)) node retrans item B = some f ∧ f.item.sacked = item.sacked ∧
      f.item.start_seq = item.start_seq)
    (hfirst : ∀ i ∈ A ++ item :: B, (first.all fun f => i.start_seq.greater_equal f) = true) :
    ∃ f, get_packet_from_list first n (base.plus (p + total A)) retrans node (base.plus p) (A ++ item :: B) = some f ∧
      f.item.sacked = item.sacked ∧ f.item.start_seq = item.start_seq := by
  induction A generalizing p with
  | nil =>
    obtain ⟨_, hpos, _⟩ := hplaced
    rw [List.nil_append, total_cons] at hfar
    rw [total_nil, Nat.add_zero] at htake ⊢
    rw [List.nil_append, get_packet_from_list, if_pos (hfirst item (by simp)), plus_get_size,
      SequenceNumber32.less_plus (by omega) (by omega), if_pos (decide_eq_true (by omega)), if_pos rfl]
    exact htake
  | cons a A ih =>
    obtain ⟨_, hpos, hrest⟩ := hplaced
    rw [List.cons_append, total_cons] at hfar
    have hsum : p + total (a :: A) = p + a.packet.length + total A := by rw [total_cons, Nat.add_assoc]
    have hall := total_append A (item :: B)
    rw [hsum] at htake ⊢
    obtain ⟨f, hf, hflags⟩ := ih hrest (by omega) htake fun i hi => hfirst i (by simp_all)
    rw [List.cons_append, get_packet_from_list, if_pos (hfirst a (by simp)), plus_get_size,
      SequenceNumber32.less_plus (by omega) (by omega), if_neg (by simp), hf]
    exact ⟨_, rfl, hflags⟩

/-- The limit of a retransmission keeps two items together only if their marks agree. -/
theorem merge_limit_at (hplaced : Placed base p (A ++ item :: B)) (hfar : p + total (A ++ item :: B) < 2 ^ 31) :
    merge_limit n (base.plus (p + total A)) (A ++ item :: B) = merge_limit n item.start_seq (item :: B) := by
  induction A generalizing p with
  | nil =>
    rw [total_nil, Nat.add_zero, hplaced.1]
    rfl
  | cons a A ih =>
    obtain ⟨hstart, hpos, hrest⟩ := hplaced
    rw [List.cons_append, total_cons] at hfar
    have hsum : p + total (a :: A) = p + a.packet.length + total A := by rw [total_cons, Nat.add_assoc]
    have hall := total_append A (item :: B)
    have hne : a.start_seq ≠ base.plus (p + a.packet.length + total A) := by
      rw [hstart, ne_eq, SequenceNumber32.plus_inj (by omega) (by omega)]
      omega
    rw [hsum, ← ih hrest (by omega), List.cons_append]
    cases hlist : A ++ item :: B with
    | nil => simp at hlist
    | cons next rest => rw [merge_limit, if_neg hne]

theorem take_end_limit (seq : SequenceNumber32) (node : ℕ) (retrans : UInt32) (hpos : ∀ i ∈ item :: B, 0 < i.packet.length) (htotal : total (item :: B) < 2 ^ 31) (hn : n.toNat < 2 ^ 31)
    (hsacked : item.sacked = false) :
    ∃ f, take_end (merge_limit n item.start_seq (item :: B)) seq node retrans item B = some f ∧ f.item.sacked = item.sacked ∧
      f.item.start_seq = item.start_seq := by
  rw [total_cons] at htotal
  cases B with
  | nil =>
    have hsize := get_size_toNat (i := item) (by omega)
    rw [merge_limit, if_pos rfl]
    refine take_end_fit _ _ _ _ ?_ (by omega) ?_
    · rw [toNat_min]
      omega
    · rw [toNat_min]
      omega
  | cons next rest =>
    rw [total_cons] at htotal
    have hsize := get_size_toNat (i := item) (by omega)
    have hnext := get_size_toNat (i := next) (by omega)
    rw [merge_limit, if_pos rfl]
    split
    next hsame =>
      rw [Bool.and_eq_true, Bool.not_eq_true', beq_iff_eq] at hsame
      refine take_end_two ?_ (by omega) ?_ ⟨hsacked.trans hsame.1.symm, hsame.2⟩
      · rw [toNat_min]
        omega
      · rw [toNat_min, UInt32.toNat_add]
        omega
    next =>
      refine take_end_fit _ _ _ _ ?_ (by omega) ?_
      · rw [toNat_min]
        omega
      · rw [toNat_min]
        omega

theorem Shape.copy_transmitted_isSome (h : Shape s) (hlist : s.sent_list = A ++ item :: B) (hsacked : item.sacked = false)
    (hle : total A + n.toNat ≤ total s.sent_list) :
    ∃ out s', s.copy_transmitted now n item.start_seq = some (some out, s') := by
  have hlt := h.lt
  have hnlt : n.toNat < 2 ^ 31 := by omega
  have hplaced := h.placed
  have hstarts : ∀ i ∈ s.sent_list, i.start_seq.greater_equal s.first_byte_seq = true := by
    intro i hi
    obtain ⟨k, hk, hbound⟩ := h.placed.mem hi
    have hplus := SequenceNumber32.greater_equal_plus (b := s.first_byte_seq) (m := k) (n := 0) (by omega) (by omega)
    rw [hk, Nat.zero_add]
    rwa [SequenceNumber32.plus_zero, decide_eq_true (Nat.zero_le _)] at hplus
  have hitem : item.start_seq = s.first_byte_seq.plus (0 + total A) := by
    rw [hlist] at hplaced
    exact (placed_append.mp hplaced).2.1
  rw [hlist] at hplaced hlt hstarts
  have htail : total (item :: B) < 2 ^ 31 := by
    rw [total_append] at hlt
    omega
  have hlimit := merge_limit_at (n := n) hplaced (by omega)
  have htake := take_end_limit (n := n) (s.first_byte_seq.plus (0 + total A)) s.next_node s.retrans
    (fun i hi => hplaced.pos i (List.mem_append_right _ hi)) htail hnlt hsacked
  rw [← hlimit] at htake
  obtain ⟨f, hf, hfsacked, hfstart⟩ := get_packet_at (some s.first_byte_seq) hplaced (by omega) htake
    (by simpa using hstarts)
  have hsize : n ≤ s.sent_size := by
    rw [UInt32.le_iff_toNat_le, h.sent_size, UInt32.toNat_ofNat_of_lt' (lt_of_le_of_lt (Nat.le_add_right _ _) (h.lt.trans (by decide)))]
    omega
  have hguard : item.start_seq.greater_equal s.first_byte_seq = true ∧ n ≤ s.sent_size ∧ s.sent_list ≠ [] :=
    ⟨hstarts item (by simp), hsize, by rw [hlist]; simp⟩
  rw [SequenceNumber32.plus_zero, ← hlist, ← hitem] at hf
  have hnotSacked : f.item.sacked = false := hfsacked.trans hsacked
  have hnotBefore : f.item.start_seq.greater_equal s.first_byte_seq = true := by rw [hfstart]; exact hguard.1
  rw [copy_transmitted, get_transmitted_segment, if_pos hguard, hf]
  dsimp only [Option.bind_eq_bind, Option.bind_some]
  split
  · rw [Option.bind_some, if_neg (by rw [hnotSacked]; exact Bool.false_ne_true), put, if_pos hnotBefore]
    exact ⟨_, _, rfl⟩
  · rw [Option.bind_some, if_neg (by simp [hnotSacked]), put, if_pos hnotBefore]
    exact ⟨_, _, rfl⟩

theorem Sound.get_new_segment_isSome (h : Sound s) (now : Time) (hn : 0 < n.toNat) (hle : n.toNat ≤ total s.app_list) :
    ∃ f s₁, s.get_new_segment n = some (f, s₁) ∧ f.item.retrans = false ∧ ∃ out s', s₁.put now f = some (some out, s') := by
  have hlt := h.lt
  cases happ : s.app_list with
  | nil =>
    rw [happ, total_nil] at hle
    omega
  | cons item rest =>
    have hclean := h.clean
    rw [happ] at hclean hle hlt
    have hpos := h.app item (by rw [happ]; simp)
    have hbound := hlt
    rw [total_cons] at hbound
    obtain ⟨f, hf⟩ := take_end_unmarked (s.first_byte_seq.plus (total s.sent_list)) s.next_node s.retrans (n := n) (by omega) (by omega) hle hclean
    obtain ⟨hretrans, _⟩ := take_end_clean (fun i hi => (hclean i hi).2.2) hf
    have hget : get_packet_from_list none n (s.first_byte_seq.plus (total s.sent_list)) s.retrans s.next_node
        (s.first_byte_seq.plus (total s.sent_list)) (item :: rest) = some f := by
      rw [get_packet_from_list, Option.all_none, if_pos rfl, plus_get_size, SequenceNumber32.less_plus (by omega) (by omega),
        if_pos (by simpa using hpos), if_pos rfl]
      exact hf
    have hstart : (s.first_byte_seq.plus (total s.sent_list)).greater_equal s.first_byte_seq = true := by
      have hplus := SequenceNumber32.greater_equal_plus (b := s.first_byte_seq) (m := total s.sent_list) (n := 0) (by omega) (by omega)
      rwa [SequenceNumber32.plus_zero, decide_eq_true (Nat.zero_le _)] at hplus
    rw [get_new_segment, h.sent_end, happ]
    dsimp only
    rw [hget, Option.bind_eq_bind, Option.bind_some]
    refine ⟨_, _, rfl, hretrans, ?_⟩
    rw [put, if_pos hstart]
    exact ⟨_, _, rfl⟩

theorem Shape.size_from (h : Shape s) (hq : q ≤ total s.sent_list + total s.app_list) :
    s.size_from_sequence (s.first_byte_seq.plus q) = UInt32.ofNat (total s.sent_list + total s.app_list - q) := by
  have hlt := h.lt
  rw [size_from_sequence, h.tail, SequenceNumber32.greater_equal_plus (by omega) (by omega), if_pos (decide_eq_true hq),
    SequenceNumber32.plus_sub hq (by omega)]

/-- A piece that begins in sent data and ends in data that is not sent does not wrap around. -/
def Unwrapped (s : TcpTxBuffer) (n : UInt32) (seq : SequenceNumber32) : Prop :=
  seq = s.first_byte_seq.add s.sent_size ∨
    min n (s.size_from_sequence seq) ≤ ((s.first_byte_seq.add s.sent_size).sub seq).toUInt32 ∨
    seq.value.toNat + (min n (s.size_from_sequence seq)).toNat < 2 ^ 32

instance (s : TcpTxBuffer) (n : UInt32) (seq : SequenceNumber32) : Decidable (Unwrapped s n seq) :=
  inferInstanceAs (Decidable (_ ∨ _ ∨ _))

theorem Sound.copy_sent_isSome (h : Sound s) (hlist : s.sent_list = A ++ item :: B) (hsacked : item.sacked = false)
    (hn : 0 < n.toNat) (hunwrapped : Unwrapped s n item.start_seq) :
    ∃ out s', s.copy_from_sequence now n item.start_seq = some (some out, s') := by
  have hlt := h.lt
  have hplaced := h.placed
  rw [hlist] at hplaced
  obtain ⟨_, hitem, hpos, _⟩ := placed_append.mp hplaced
  have htotal : total A + item.packet.length ≤ total s.sent_list := by
    rw [hlist, total_append, total_cons]
    omega
  rw [Nat.zero_add] at hitem
  have hfrom := h.toShape.size_from (q := total A) (by omega)
  rw [← hitem] at hfrom
  have hfromNat : (s.size_from_sequence item.start_seq).toNat = total s.sent_list + total s.app_list - total A := by
    rw [hfrom]
    exact UInt32.toNat_ofNat_of_lt' (lt_of_le_of_lt (Nat.sub_le _ _) (hlt.trans (by decide)))
  obtain ⟨k, hk⟩ : ∃ k, k = min n (s.size_from_sequence item.start_seq) := ⟨_, rfl⟩
  have hkNat : k.toNat = min n.toNat (total s.sent_list + total s.app_list - total A) := by rw [hk, toNat_min, hfromNat]
  have hgreater : s.first_byte_seq.greater item.start_seq = false := by
    have hplus := SequenceNumber32.greater_plus (b := s.first_byte_seq) (m := 0) (n := total A) (by omega) (by omega)
    rw [hitem]
    rwa [SequenceNumber32.plus_zero, decide_eq_false (Nat.not_lt_zero _)] at hplus
  have hzero : k ≠ 0 := by
    intro heq
    rw [heq] at hkNat
    have hnat : (0 : UInt32).toNat = 0 := rfl
    omega
  have hsub : ((s.first_byte_seq.plus (total s.sent_list)).sub item.start_seq).toUInt32 =
      UInt32.ofNat (total s.sent_list - total A) := by
    rw [hitem, SequenceNumber32.plus_sub (by omega) (by omega)]
  have hleft : (UInt32.ofNat (total s.sent_list - total A)).toNat = total s.sent_list - total A :=
    UInt32.toNat_ofNat_of_lt' (lt_of_le_of_lt (Nat.sub_le _ _) (lt_of_le_of_lt (Nat.le_add_right _ _) (hlt.trans (by decide))))
  have hend : (s.first_byte_seq.plus (total s.sent_list)).greater_equal (item.start_seq.add k) =
      decide (total A + k.toNat ≤ total s.sent_list) := by
    rw [hitem, SequenceNumber32.plus_add, SequenceNumber32.greater_equal_plus (by omega) (by omega)]
  rw [TcpTxBuffer.copy_from_sequence, if_neg (by rw [hgreater]; exact Bool.false_ne_true), ← hk, h.sent_end]
  dsimp only
  rw [if_neg hzero, hend]
  by_cases hsent : total A + k.toNat ≤ total s.sent_list
  · rw [if_pos (decide_eq_true hsent)]
    exact h.toShape.copy_transmitted_isSome hlist hsacked hsent
  · have hbegin : (s.first_byte_seq.plus (total s.sent_list)).less_equal item.start_seq = false := by
      rw [hitem, SequenceNumber32.less_equal_plus (by omega) (by omega)]
      exact decide_eq_false (by omega)
    -- what is left of the sent data, in numbers that do not wrap around
    have hvalues : item.start_seq.value.toNat + k.toNat < 2 ^ 32 := by
      rw [Unwrapped, ← hk, h.sent_end, hsub] at hunwrapped
      rcases hunwrapped with heq | hle | hvalues
      · rw [hitem, SequenceNumber32.plus_inj (by omega) (by omega)] at heq
        omega
      · rw [UInt32.le_iff_toNat_le, hleft] at hle
        omega
      · exact hvalues
    have hamount : (s.first_byte_seq.plus (total s.sent_list)).value - item.start_seq.value =
        UInt32.ofNat (total s.sent_list - total A) := by
      rw [← SequenceNumber32.sub_toUInt32]
      exact hsub
    have hendNat : (s.first_byte_seq.plus (total s.sent_list)).value.toNat =
        item.start_seq.value.toNat + (total s.sent_list - total A) := by
      have hsum : (s.first_byte_seq.plus (total s.sent_list)).value =
          item.start_seq.value + UInt32.ofNat (total s.sent_list - total A) := by
        rw [← hamount]
        grind
      rw [hsum, UInt32.toNat_add, hleft]
      omega
    have hbounds : (s.first_byte_seq.plus (total s.sent_list)).value > item.start_seq.value ∧
        (s.first_byte_seq.plus (total s.sent_list)).value < item.start_seq.value + k := by
      rw [gt_iff_lt, UInt32.lt_iff_toNat_lt, UInt32.lt_iff_toNat_lt, UInt32.toNat_add, hendNat]
      omega
    rw [if_neg (by simpa using hsent), if_neg (by rw [hbegin]; exact Bool.false_ne_true), if_pos hbounds, hamount]
    exact h.toShape.copy_transmitted_isSome hlist hsacked (by rw [hleft]; omega)

theorem Sound.copy_new_isSome (h : Sound s) (happ : 0 < total s.app_list) (hn : 0 < n.toNat) :
    ∃ out s', s.copy_from_sequence now n (s.first_byte_seq.plus (total s.sent_list)) = some (some out, s') := by
  have hlt := h.lt
  have hfrom := h.toShape.size_from (q := total s.sent_list) (Nat.le_add_right _ _)
  rw [Nat.add_sub_cancel_left] at hfrom
  have hfromNat : (s.size_from_sequence (s.first_byte_seq.plus (total s.sent_list))).toNat = total s.app_list := by
    rw [hfrom]
    exact UInt32.toNat_ofNat_of_lt' (lt_of_le_of_lt (Nat.le_add_left _ _) (hlt.trans (by decide)))
  obtain ⟨k, hk⟩ : ∃ k, k = min n (s.size_from_sequence (s.first_byte_seq.plus (total s.sent_list))) := ⟨_, rfl⟩
  have hkNat : k.toNat = min n.toNat (total s.app_list) := by rw [hk, toNat_min, hfromNat]
  have hgreater : s.first_byte_seq.greater (s.first_byte_seq.plus (total s.sent_list)) = false := by
    have hplus := SequenceNumber32.greater_plus (b := s.first_byte_seq) (m := 0) (n := total s.sent_list) (by omega) (by omega)
    rwa [SequenceNumber32.plus_zero, decide_eq_false (Nat.not_lt_zero _)] at hplus
  have hzero : k ≠ 0 := by
    intro heq
    rw [heq] at hkNat
    have hnat : (0 : UInt32).toNat = 0 := rfl
    omega
  obtain ⟨f, s₁, hget, hretrans, out, s', hput⟩ := h.get_new_segment_isSome now (n := k) (by omega) (by omega)
  refine ⟨out, s', ?_⟩
  rw [TcpTxBuffer.copy_from_sequence, if_neg (by rw [hgreater]; exact Bool.false_ne_true), ← hk, h.sent_end]
  dsimp only
  rw [if_neg hzero, SequenceNumber32.plus_add, SequenceNumber32.greater_equal_plus (by omega) (by omega),
    if_neg (by simp; omega), SequenceNumber32.less_equal_plus (by omega) (by omega), if_pos (decide_eq_true le_rfl), if_pos rfl, hget,
    Option.bind_eq_bind, Option.bind_some, if_neg (by rw [hretrans]; exact Bool.false_ne_true)]
  exact hput

end Ns3.TcpTxBuffer
