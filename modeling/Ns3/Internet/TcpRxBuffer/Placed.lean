import Ns3.Internet.TcpRxBuffer.Reassembly

/-! The receive buffer at positions of the sequence numbers, whatever the packets contain. -/

namespace Ns3.TcpRxBuffer

open Segments (Ordered Covered total place)

/-- The buffer at positions counted from `isn`: the packets of `l`, less than half the range apart, and the byte
expected next at `n`. -/
structure Placed (isn : SequenceNumber32) (b : TcpRxBuffer) (l : List (ℕ × PacketBytes)) (n lo : ℕ) : Prop where
  data : b.data = packets isn l
  next : b.next_rx_seq = isn.plus n
  ordered : Ordered l
  size : b.size = UInt32.ofNat (total l)
  near : ∀ s ∈ l, Near lo s
  low : lo ≤ n
  high : n ≤ lo + 2 ^ 31
  far : 2 ^ 31 ≤ n

/-- The ranges of numbers that a buffer compares: its packets, the byte expected next and the window behind the first
packet. -/
def ranges (b : TcpRxBuffer) : List (SequenceNumber32 × ℕ) :=
  (b.next_rx_seq, 1) :: (b.data.head?.toList.map fun e => (e.1, b.max_buffer.toNat)) ++
    b.data.map fun e => (e.1, e.2.length)

/-- Ranges of numbers that start at or after one of them and end less than half the range behind it. -/
def Spans31 (marks : List (SequenceNumber32 × ℕ)) : Prop :=
  ∃ lo ∈ marks.map Prod.fst, ∀ x ∈ marks, (x.1.value - lo.value).toNat + x.2 < 2 ^ 31

instance (marks : List (SequenceNumber32 × ℕ)) : Decidable (Spans31 marks) :=
  inferInstanceAs (Decidable (∃ _ ∈ _, _))

variable {isn : SequenceNumber32} {b b' : TcpRxBuffer} {l kept : List (ℕ × PacketBytes)} {n lo a m : ℕ}
  {p : PacketBytes} {f : ℕ × PacketBytes} {stored : Bool} {marks : List (SequenceNumber32 × ℕ)}

theorem position_of_distance {x d : ℕ} (hlow : lo ≤ x + 2 ^ 31) (hhigh : x < lo + 2 ^ 32)
    (hd : ((isn.plus x).value - (isn.plus lo).value).toNat + d < 2 ^ 31) : lo ≤ x ∧ x + d < lo + 2 ^ 31 := by
  simp only [SequenceNumber32.plus, UInt32.toNat_sub, UInt32.toNat_add, UInt32.toNat_ofNat'] at hd
  have hisn := isn.value.toNat_lt
  omega

theorem exists_position (isn x : SequenceNumber32) (lo : ℕ) :
    x = isn.plus (lo + (x.value - (isn.plus lo).value).toNat) := by
  cases x with
  | mk value =>
    simp only [SequenceNumber32.plus, UInt32.ofNat_add, UInt32.ofNat_toNat, SequenceNumber32.mk.injEq]
    grind

theorem Placed.base_of_spans (h : Placed isn b l n lo) (hspans : Spans31 marks) (hranges : ∀ x ∈ b.ranges, x ∈ marks) :
    ∃ lo', (∀ s ∈ l, Near lo' s) ∧ (lo' ≤ n ∧ n + 1 < lo' + 2 ^ 31) ∧
      (∀ s ∈ l.head?, s.1 + b.max_buffer.toNat < lo' + 2 ^ 31) ∧
      ∀ x ∈ marks, ∃ a, x.1 = isn.plus a ∧ lo' ≤ a ∧ a + x.2 < lo' + 2 ^ 31 := by
  obtain ⟨base, -, hspans⟩ := hspans
  have hn := hspans (b.next_rx_seq, 1) (hranges _ (by simp [ranges]))
  rw [h.next] at hn
  simp only at hn
  obtain ⟨lo', hlo'⟩ : ∃ lo', lo' = n - ((isn.plus n).value - base.value).toNat := ⟨_, rfl⟩
  have hfar := h.far
  have hbase : base = isn.plus lo' := by
    have hback : isn.plus n = isn.plus (lo' + ((isn.plus n).value - base.value).toNat) := by
      rw [hlo', Nat.sub_add_cancel (by omega)]
    cases base with
    | mk value =>
      simp only [SequenceNumber32.plus, UInt32.ofNat_add, UInt32.ofNat_toNat, SequenceNumber32.mk.injEq] at hback ⊢
      grind
  subst hbase
  have hat : ∀ s ∈ l, ∀ d, (isn.plus s.1, d) ∈ b.ranges → lo' ≤ s.1 ∧ s.1 + d < lo' + 2 ^ 31 := by
    intro s hs d hmem
    obtain ⟨hpos, hslo, hshi⟩ := h.near s hs
    have hlow := h.low
    have hhigh := h.high
    have hd : ((isn.plus s.1).value - (isn.plus lo').value).toNat + d < 2 ^ 31 := hspans (isn.plus s.1, d) (hranges _ hmem)
    exact position_of_distance (by omega) (by omega) hd
  refine ⟨lo', fun s hs => ?_, by omega, fun s hs => ?_, fun x hx => ?_⟩
  · have hs' := hat s hs s.2.length (by
      rw [ranges, h.data]
      exact List.mem_append_right _ (List.mem_map.mpr ⟨(isn.plus s.1, s.2), List.mem_map_of_mem hs, rfl⟩))
    exact ⟨(h.near s hs).1, hs'⟩
  · refine (hat s (List.mem_of_mem_head? hs) b.max_buffer.toNat ?_).2
    rw [ranges, h.data, packets, List.head?_map, Option.mem_def.mp hs]
    simp
  · have hdistance := hspans x hx
    exact ⟨lo' + (x.1.value - (isn.plus lo').value).toNat, exists_position isn x.1 lo', Nat.le_add_right _ _, by omega⟩

/-- What is left of a segment beside the stored packets. -/
def overlap_of (b : TcpRxBuffer) (p : PacketBytes) (seq : SequenceNumber32) : Overlap :=
  let trimmed := b.trim_to_window seq (seq.add p.get_size)
  overlap trimmed.1 trimmed.2 b.size b.data

/-- A packet that `Add` stores: the range that is left of the segment, in the window and after what is expected. -/
structure Fits (b : TcpRxBuffer) (p : PacketBytes) (a : ℕ) (l : List (ℕ × PacketBytes)) (n : ℕ) (f : ℕ × PacketBytes) :
    Prop where
  pos : 0 < f.2.length
  start : a ≤ f.1
  next : n ≤ f.1
  stop : f.1 + f.2.length ≤ a + p.length
  window : ∀ s ∈ l.head?, f.1 + f.2.length ≤ s.1 + b.max_buffer.toNat
  bytes : f.2 = (p.drop (f.1 - a)).take f.2.length

/-- The rest of `Add` once a packet is stored. -/
def Settles (isn : SequenceNumber32) (b : TcpRxBuffer) (kept : List (ℕ × PacketBytes)) (f : ℕ × PacketBytes)
    (b' : TcpRxBuffer) : Prop :=
  ∃ sacks₁ next avail sacks₂,
    (if (isn.plus f.1).greater b.next_rx_seq then
      b.update_sack_list (isn.plus f.1) (isn.plus (f.1 + f.2.length)) else some b.sack_list) = some sacks₁ ∧
    advance b.next_rx_seq b.avail_bytes sacks₁ (packets isn (place f kept)) = some (next, avail, sacks₂) ∧
    b' = { b with
      sack_list := sacks₂
      next_rx_seq := if b.got_fin && next == b.fin_seq then next.increment else next
      size := UInt32.ofNat (total (place f kept))
      avail_bytes := avail
      data := packets isn (place f kept) }

theorem Placed.add_cases (h : Placed isn b l n m) (hnear : ∀ s ∈ l, Near lo s) (hn : lo ≤ n ∧ n < lo + 2 ^ 31)
    (hedge : ∀ s ∈ l.head?, s.1 + b.max_buffer.toNat < lo + 2 ^ 31) (ha : lo ≤ a ∧ a + p.length < lo + 2 ^ 31)
    (hadd : b.add p (isn.plus a) = some (stored, b')) :
    stored = false ∧ b' = b ∨
      stored = true ∧ ∃ f kept, Fits b p a l n f ∧ Stored l kept f ∧ Settles isn b kept f b' ∧
        b.overlap_of p (isn.plus a) =
          ⟨isn.plus f.1, isn.plus (f.1 + f.2.length), UInt32.ofNat (total kept), packets isn kept⟩ := by
  obtain ⟨h₀, t₀, htrim, hh₀, ht₀, htle, htrimmed, hwindow⟩ := trim_to_window_spec (a := a) (t := a + p.length) h.data h.next
    hn (by omega) (by omega) (fun s hs => ⟨(hnear s (List.mem_of_mem_head? hs)).2.1, hedge s hs⟩)
  obtain ⟨h', t', kept, hover, hlo', hhi', htrims⟩ := overlap_spec isn hnear h.ordered hh₀ ht₀ 0
  rw [Nat.zero_add, Nat.zero_add, ← h.size, ← h.data] at hover
  rw [← plus_get_size (by omega)] at htrim
  have hhead := htrims.head
  have htail := htrims.tail
  rcases Nat.lt_or_ge h' t' with hsome | hnone
  swap
  · left
    obtain rfl := htrims.unchanged hnone
    rw [← h.size, ← h.data] at hover
    rw [add_nothing htrim hover rfl rfl (by
      rw [SequenceNumber32.greater_equal_plus (by omega) (by omega)]
      exact decide_eq_true hnone)] at hadd
    cases hadd
    exact ⟨rfl, rfl⟩
  obtain ⟨hoffset, hfrom⟩ := htrimmed (by omega)
  obtain ⟨f, hf⟩ : ∃ f : ℕ × PacketBytes, f = (h', (p.drop (h' - a)).take (t' - h')) := ⟨_, rfl⟩
  have hfirst : f.1 = h' := by rw [hf]
  have hlength : f.2.length = t' - h' := by
    rw [hf, List.length_take, List.length_drop]
    omega
  have hstored : Stored l kept f :=
    ⟨htrims.sublist, by simpa only [hfirst, hlength, Nat.add_sub_cancel' hsome.le] using htrims.clear hsome,
      by simpa only [hfirst, hlength, Nat.add_sub_cancel' hsome.le] using htrims.erased⟩
  have hapart : ∀ s ∈ kept, s.1 ≠ h' := fun s hs => by
    have hpos := (hnear s (htrims.sublist.mem hs)).1
    have hclear := hstored.clear s hs
    omega
  have hassign : assign (isn.plus h') f.2 (packets isn kept) = packets isn (place f kept) := by
    rw [assign_packets (fun s hs => hnear s (htrims.sublist.mem hs)) (by omega) hapart, ← hfirst]
  have hsub : ((isn.plus t').sub (isn.plus h')).toUInt32 = UInt32.ofNat (t' - h') :=
    SequenceNumber32.plus_sub hsome.le (by omega)
  have hstart : ((isn.plus h').sub (isn.plus a)).toUInt32 = UInt32.ofNat (h' - a) :=
    SequenceNumber32.plus_sub (by omega) (by omega)
  have hcreate : p.create_fragment (UInt32.ofNat (h' - a)) (UInt32.ofNat (t' - h')) = some f.2 := by
    rw [PacketBytes.create_fragment_spec (by omega) (by omega), hf]
  have hguard : UInt32.ofNat (t' - h') = PacketBytes.get_size f.2 ∧ find (isn.plus h') (packets isn kept) = false :=
    ⟨by rw [PacketBytes.get_size, hlength],
      find_packets (fun s hs => hnear s (htrims.sublist.mem hs)) (by omega) hapart⟩
  have hoverlap : b.overlap_of p (isn.plus a) =
      ⟨isn.plus f.1, isn.plus (f.1 + f.2.length), UInt32.ofNat (total kept), packets isn kept⟩ := by
    simp only [overlap_of, htrim, hover, hfirst, hlength, Nat.add_sub_cancel' hsome.le]
  rw [add] at hadd
  simp only [htrim, hover, SequenceNumber32.greater_equal_plus (b := isn) (m := h') (n := t') (by omega) (by omega)] at hadd
  rw [if_neg (by simpa using hsome), hsub, hstart, hcreate] at hadd
  simp only [Option.bind_eq_bind, Option.bind_some, hguard, and_self, if_true, hassign] at hadd
  obtain ⟨sacks₁, hupdate, hrest⟩ := Option.bind_eq_some_iff.mp hadd
  obtain ⟨⟨next, avail, sacks₂⟩, hadvance, hresult⟩ := Option.bind_eq_some_iff.mp hrest
  cases hresult
  refine .inr ⟨rfl, f, kept, ⟨by omega, by omega, by omega, by omega, fun s hs => ?_, ?_⟩, hstored,
    ⟨sacks₁, next, avail, sacks₂, ?_, hadvance, ?_⟩, hoverlap⟩
  · have hle := hwindow s hs
    omega
  · rw [hfirst, hlength, hf]
  · rw [hfirst, hlength, Nat.add_sub_cancel' hsome.le]
    exact hupdate
  · rw [Segments.total_place, hlength, PacketBytes.get_size, hlength, ← UInt32.ofNat_add, Nat.add_comm]

theorem advance_next {avail avail' : UInt32} {sacks₁ sacks₂ : List SackBlock} {next : SequenceNumber32}
    (hl : ∀ s ∈ l, Near lo s) (hn : lo ≤ n ∧ n < lo + 2 ^ 31)
    (h : advance (isn.plus n) avail sacks₁ (packets isn l) = some (next, avail', sacks₂)) :
    ∃ n', next = isn.plus n' ∧ n ≤ n' ∧ n' < lo + 2 ^ 31 := by
  induction l generalizing n avail sacks₁ with
  | nil =>
    cases h
    exact ⟨n, rfl, le_rfl, hn.2⟩
  | cons s l ih =>
    obtain ⟨k, q⟩ := s
    obtain ⟨hpos, hklo, hkhi⟩ := hl (k, q) (by simp)
    have hl' : ∀ s ∈ l, Near lo s := fun s hs => hl s (by simp [hs])
    simp only at hpos hklo hkhi
    have hcons : packets isn ((k, q) :: l) = (isn.plus k, q) :: packets isn l := rfl
    rw [hcons, advance, SequenceNumber32.less_plus (by omega) (by omega),
      SequenceNumber32.greater_plus (by omega) (by omega)] at h
    simp only [decide_eq_true_eq, plus_get_size (show q.length < 2 ^ 32 by omega)] at h
    split_ifs at h with hbefore hafter
    · exact ih hl' hn h
    · cases h
      exact ⟨n, rfl, le_rfl, hn.2⟩
    · obtain ⟨sacks', -, hrest⟩ := Option.bind_eq_some_iff.mp h
      obtain ⟨n', hnext, hle, hlt⟩ := ih hl' ⟨by omega, hkhi⟩ hrest
      exact ⟨n', hnext, by omega, hlt⟩

theorem Placed.of_settles (h : Placed isn b l n m) (hnear : ∀ s ∈ l, Near lo s) (hn : lo ≤ n ∧ n < lo + 2 ^ 31)
    (hfits : Fits b p a l n f) (hspan : a + p.length < lo + 2 ^ 31) (hstored : Stored l kept f)
    (hsettles : Settles isn b kept f b') : ∃ n', Placed isn b' (place f kept) n' lo ∧ n ≤ n' := by
  obtain ⟨sacks₁, next, avail, sacks₂, -, hadvance, rfl⟩ := hsettles
  have hnear' : ∀ s ∈ place f kept, Near lo s := by
    intro s hs
    rcases Segments.mem_place.mp hs with rfl | hs
    · exact ⟨hfits.pos, hn.1.trans hfits.next, hfits.stop.trans_lt hspan⟩
    · exact hnear s (hstored.sublist.mem hs)
  have horder : Ordered (place f kept) :=
    Segments.Ordered.place (List.Pairwise.sublist hstored.sublist h.ordered)
      (fun s hs => (hnear s (hstored.sublist.mem hs)).1) hstored.clear
  rw [h.next] at hadvance
  obtain ⟨n', rfl, hle, hlt⟩ := advance_next hnear' hn hadvance
  have hfar := h.far
  by_cases hfin : (b.got_fin && isn.plus n' == b.fin_seq) = true
  · refine ⟨n' + 1, ⟨rfl, ?_, horder, rfl, hnear', by omega, by omega, by omega⟩, by omega⟩
    simp only [if_pos hfin, SequenceNumber32.plus_increment]
  · refine ⟨n', ⟨rfl, ?_, horder, rfl, hnear', by omega, by omega, by omega⟩, hle⟩
    simp only [if_neg hfin]

theorem Placed.set_fin_sequence (h : Placed isn b l n m) (hnear : ∀ s ∈ l, Near lo s) (hn : lo ≤ n ∧ n < lo + 2 ^ 31)
    (s : SequenceNumber32) : ∃ n', Placed isn (b.set_fin_sequence s) l n' lo ∧ n ≤ n' ∧ n' ≤ n + 1 := by
  have hfar := h.far
  by_cases heq : isn.plus n = s
  · refine ⟨n + 1, ⟨h.data, ?_, h.ordered, h.size, hnear, by omega, by omega, by omega⟩, by omega, le_rfl⟩
    rw [TcpRxBuffer.set_fin_sequence]
    simp only [if_pos heq, h.next, SequenceNumber32.plus_increment]
  · refine ⟨n, ⟨h.data, ?_, h.ordered, h.size, hnear, by omega, by omega, by omega⟩, le_rfl, by omega⟩
    rw [TcpRxBuffer.set_fin_sequence]
    simp only [if_neg heq, h.next]

/-- Packets that are left of others, up to the same ends. -/
def Cut (l l' : List (ℕ × PacketBytes)) : Prop :=
  ∀ s' ∈ l', ∃ s ∈ l, s.1 ≤ s'.1 ∧ s'.1 + s'.2.length = s.1 + s.2.length

/-- The packets without their first `e` bytes. -/
def remove_front : ℕ → List (ℕ × PacketBytes) → List (ℕ × PacketBytes)
  | _, [] => []
  | e, s :: l =>
    if e = 0 then s :: l
    else if s.2.length ≤ e then remove_front (e - s.2.length) l
    else (s.1 + e, s.2.drop e) :: l

theorem remove_front_zero : remove_front 0 l = l := by
  cases l <;> rfl

theorem remove_front_cut {e : ℕ} : Cut l (remove_front e l) := by
  induction l generalizing e with
  | nil => simp [Cut, remove_front]
  | cons s l ih =>
    rw [remove_front]
    split_ifs with hzero hwhole
    · exact fun t ht => ⟨t, ht, le_rfl, rfl⟩
    · intro t ht
      obtain ⟨u, hu, hends⟩ := ih t ht
      exact ⟨u, by simp [hu], hends⟩
    · intro t ht
      rcases List.mem_cons.mp ht with rfl | ht
      · exact ⟨s, by simp, Nat.le_add_right _ _, by rw [List.length_drop]; simp only; omega⟩
      · exact ⟨t, by simp [ht], le_rfl, rfl⟩

theorem remove_front_pos {e : ℕ} (h : ∀ s ∈ l, 0 < s.2.length) : ∀ s ∈ remove_front e l, 0 < s.2.length := by
  induction l generalizing e with
  | nil => simp [remove_front]
  | cons s l ih =>
    have hl : ∀ t ∈ l, 0 < t.2.length := fun t ht => h t (by simp [ht])
    rw [remove_front]
    split_ifs with hzero hwhole
    · exact h
    · exact ih hl
    · exact List.forall_mem_cons.mpr ⟨by rw [List.length_drop]; omega, hl⟩

theorem remove_front_ordered {e : ℕ} (h : Ordered l) : Ordered (remove_front e l) := by
  induction l generalizing e with
  | nil => exact .nil
  | cons s l ih =>
    obtain ⟨hfirst, hrest⟩ := List.pairwise_cons.mp h
    rw [remove_front]
    split_ifs with hzero hwhole
    · exact h
    · exact ih hrest
    · refine List.pairwise_cons.mpr ⟨fun t ht => ?_, hrest⟩
      have hle := hfirst t ht
      rw [List.length_drop]
      simp only
      omega

theorem total_remove_front {e : ℕ} (h : e ≤ total l) : total (remove_front e l) + e = total l := by
  induction l generalizing e with
  | nil =>
    rw [Nat.le_zero.mp h]
    rfl
  | cons s l ih =>
    rw [Segments.total_cons] at h
    rw [remove_front]
    split_ifs with hzero hwhole
    · rw [hzero, Nat.add_zero]
    · have hsum := ih (e := e - s.2.length) (by omega)
      rw [Segments.total_cons]
      omega
    · rw [Segments.total_cons, Segments.total_cons, List.length_drop]
      omega

theorem remove_front_append {e : ℕ} {held later : List (ℕ × PacketBytes)} (h : e ≤ total held) :
    remove_front e (held ++ later) = remove_front e held ++ later := by
  induction held generalizing e with
  | nil => rw [Nat.le_zero.mp h, List.nil_append, remove_front_zero, remove_front_zero, List.nil_append]
  | cons s held ih =>
    rw [Segments.total_cons] at h
    rw [List.cons_append, remove_front, remove_front]
    split_ifs
    · rfl
    · exact ih (by omega)
    · rfl

theorem extract_loop_front {e size size' avail avail' : UInt32} {next : SequenceNumber32} {out out' : PacketBytes}
    {data : List (SequenceNumber32 × PacketBytes)} (hl : ∀ s ∈ l, Near lo s) (horder : Ordered l)
    (h : extract_loop next e size avail out (packets isn l) = some (out', size', avail', data)) :
    data = packets isn (remove_front e.toNat l) ∧ e.toNat ≤ total l ∧ size' = size - e ∧ avail' = avail - e := by
  induction l generalizing e size avail out with
  | nil =>
    rw [packets, List.map_nil, extract_loop] at h
    obtain ⟨hzero, heq⟩ := Option.ite_none_right_eq_some.mp h
    cases heq
    subst hzero
    exact ⟨rfl, Nat.zero_le _, by simp, by simp⟩
  | cons s l ih =>
    obtain ⟨k, q⟩ := s
    obtain ⟨hpos, hklo, hkhi⟩ := hl (k, q) (by simp)
    obtain ⟨hfirst, horder'⟩ := List.pairwise_cons.mp horder
    have hcons : packets isn ((k, q) :: l) = (isn.plus k, q) :: packets isn l := rfl
    rw [hcons, extract_loop] at h
    simp only at hpos hklo hkhi hfirst h
    have hlength : (UInt32.ofNat q.length).toNat = q.length := UInt32.toNat_ofNat_of_lt' (by rw [UInt32.size]; omega)
    rw [remove_front, Segments.total_cons]
    simp only
    split_ifs at h with hzero hle hwhole
    · cases h
      subst hzero
      exact ⟨rfl, Nat.zero_le _, by simp, by simp⟩
    · have hsome : e.toNat ≠ 0 := fun heq => hzero (by rw [← UInt32.toNat_inj, heq]; rfl)
      rw [UInt32.le_iff_toNat_le, PacketBytes.get_size, hlength] at hwhole
      have hrest : (e - q.get_size).toNat = e.toNat - q.length := by
        rw [PacketBytes.get_size, UInt32.toNat_sub_of_le _ _ (by rw [UInt32.le_iff_toNat_le, hlength]; exact hwhole), hlength]
      obtain ⟨hdata, htotal, hsize, havail⟩ := ih (fun s hs => hl s (by simp [hs])) horder' h
      rw [hrest] at hdata htotal
      rw [if_neg hsome, if_pos hwhole]
      exact ⟨hdata, by omega, by rw [hsize]; grind, by rw [havail]; grind⟩
    · obtain ⟨taken, -, hrest⟩ := Option.bind_eq_some_iff.mp h
      obtain ⟨left, hleft, hresult⟩ := Option.bind_eq_some_iff.mp hrest
      cases hresult
      have hsome : e.toNat ≠ 0 := fun heq => hzero (by rw [← UInt32.toNat_inj, heq]; rfl)
      have hinside : e.toNat < q.length := by
        rw [UInt32.le_iff_toNat_le, PacketBytes.get_size, hlength] at hwhole
        omega
      have hdiff : q.get_size - e = UInt32.ofNat (q.length - e.toNat) := by
        rw [PacketBytes.get_size, show q.length = (q.length - e.toNat) + e.toNat by omega, UInt32.ofNat_add,
          UInt32.ofNat_toNat, Nat.sub_add_cancel hinside.le]
        exact UInt32.add_sub_cancel _ _
      have hspec := PacketBytes.create_fragment_spec (p := q) (by omega)
        (show e.toNat + (q.length - e.toNat) ≤ q.length by omega)
      rw [UInt32.ofNat_toNat, ← hdiff, hleft, Option.some.injEq,
        List.take_of_length_le (by rw [List.length_drop])] at hspec
      have hplace : place (k + e.toNat, left) ((k, q) :: l) = (k, q) :: (k + e.toNat, left) :: l := by
        rw [place, if_pos (by simp only; omega)]
        cases l with
        | nil => rfl
        | cons t l =>
          have ht := hfirst t (by simp)
          rw [place, if_neg (by simp only; omega)]
      have hassign : assign ((isn.plus k).add e) left ((isn.plus k, q) :: packets isn l) =
          (isn.plus k, q) :: packets isn ((k + e.toNat, left) :: l) := by
        rw [← hcons, SequenceNumber32.plus_add, assign_packets hl (by omega) (fun s hs => ?_), hplace]
        · rfl
        · rcases List.mem_cons.mp hs with rfl | hs
          · simp only
            omega
          · have hle := hfirst s hs
            omega
      rw [if_neg hsome, if_neg (by omega), ← hspec]
      exact ⟨by rw [hassign, List.erase_cons_head], by omega, rfl, rfl⟩

theorem Placed.extract (h : Placed isn b l n lo) {max_size : UInt32} {out : Option PacketBytes}
    (hextract : b.extract max_size = some (out, b')) :
    ∃ e : UInt32, e ≤ b.avail_bytes ∧ e.toNat ≤ total l ∧ Placed isn b' (remove_front e.toNat l) n lo ∧
      b' = { b with size := b.size - e, avail_bytes := b.avail_bytes - e, data := packets isn (remove_front e.toNat l) } := by
  rw [TcpRxBuffer.extract] at hextract
  obtain ⟨e, he⟩ : ∃ e, e = if b.avail_bytes < max_size then b.avail_bytes else max_size := ⟨_, rfl⟩
  have hle : e ≤ b.avail_bytes := by
    rw [he]
    split_ifs with hlt
    · exact UInt32.le_refl _
    · exact UInt32.not_lt.mp hlt
  have hsize : b.size - e = UInt32.ofNat (total l) - e := by rw [h.size]
  simp only [← he] at hextract
  split_ifs at hextract with hzero hempty
  · cases hextract
    refine ⟨0, UInt32.zero_le, Nat.zero_le _, ?_, ?_⟩
    · rw [UInt32.toNat_zero, remove_front_zero]
      exact h
    · rw [UInt32.toNat_zero, remove_front_zero, ← h.data]
      simp
  · obtain ⟨⟨bytes, size, avail, data⟩, hloop, hresult⟩ := Option.bind_eq_some_iff.mp hextract
    cases hresult
    rw [h.data] at hloop
    obtain ⟨rfl, htotal, rfl, rfl⟩ := extract_loop_front h.near h.ordered hloop
    have hcut : Cut l (remove_front e.toNat l) := remove_front_cut
    refine ⟨e, hle, htotal, ⟨rfl, h.next, remove_front_ordered h.ordered, ?_, fun s hs => ?_, h.low, h.high, h.far⟩, rfl⟩
    · rw [hsize, ← total_remove_front htotal, UInt32.ofNat_add, UInt32.ofNat_toNat]
      exact UInt32.add_sub_cancel _ _
    · obtain ⟨t, ht, hle, hend⟩ := hcut s hs
      obtain ⟨-, htlo, hthi⟩ := h.near t ht
      exact ⟨remove_front_pos (fun u hu => (h.near u hu).1) s hs, by omega, by omega⟩

end Ns3.TcpRxBuffer
