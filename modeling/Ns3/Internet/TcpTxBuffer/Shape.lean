import Ns3.Internet.TcpTxBuffer.Items

/-! The sizes and the sequence numbers of a buffer, which every operation keeps. -/

namespace Ns3.TcpTxBuffer

open TcpTxItem (split_items merge_items)

/-- The items of both lists fill the buffer, and those of the sent list stand for the sequence numbers from the first
byte on. -/
structure Shape (s : TcpTxBuffer) : Prop where
  placed : Placed s.first_byte_seq 0 s.sent_list
  app : ∀ item ∈ s.app_list, 0 < item.packet.length
  sent_size : s.sent_size = UInt32.ofNat (total s.sent_list)
  size : s.size = UInt32.ofNat (total s.sent_list + total s.app_list)
  room : total s.sent_list + total s.app_list ≤ s.max_buffer.toNat
  limit : s.max_buffer.toNat < 2 ^ 31
  distinct : (s.sent_list.map TcpTxItem.node).Nodup
  nodes : ∀ item ∈ s.sent_list, item.node < s.next_node

/-- What the flags of an item do not touch. -/
def key (item : TcpTxItem) : ℕ × PacketBytes × SequenceNumber32 := (item.node, item.packet, item.start_seq)

variable {s s' : TcpTxBuffer} {l l' : List TcpTxItem} {base : SequenceNumber32} {p q : ℕ} {seq : SequenceNumber32} {item : TcpTxItem}

theorem total_of_key (h : l'.map key = l.map key) : total l' = total l := by
  have hlengths := congrArg (List.map fun k : ℕ × PacketBytes × SequenceNumber32 => k.2.1.length) h
  simp only [List.map_map] at hlengths
  exact congrArg List.sum hlengths

theorem nodes_of_key (h : l'.map key = l.map key) : l'.map TcpTxItem.node = l.map TcpTxItem.node := by
  have hnodes := congrArg (List.map Prod.fst) h
  simp only [List.map_map] at hnodes
  exact hnodes

theorem Placed.of_key (hplaced : Placed base p l) (h : l'.map key = l.map key) : Placed base p l' := by
  induction l generalizing l' p with
  | nil =>
    rw [List.map_nil, List.map_eq_nil_iff] at h
    exact h ▸ trivial
  | cons item l ih =>
    obtain ⟨item', l', rfl, hitem, hl⟩ := List.map_eq_cons_iff.mp h
    have hkey : item'.node = item.node ∧ item'.packet = item.packet ∧ item'.start_seq = item.start_seq := by
      simpa [key] using hitem
    obtain ⟨hstart, hpos, hrest⟩ := hplaced
    refine ⟨hkey.2.2.trans hstart, hkey.2.1 ▸ hpos, ?_⟩
    rw [hkey.2.1]
    exact ih hrest hl

/-- Only flags of sent items and counts change. -/
structure Reflag (s s' : TcpTxBuffer) : Prop where
  sent : s'.sent_list.map key = s.sent_list.map key
  rest : s' = { s with
    sent_list := s'.sent_list
    highest_sack := s'.highest_sack
    lost_out := s'.lost_out
    sacked_out := s'.sacked_out
    retrans := s'.retrans
    reno_sack := s'.reno_sack }

theorem Reflag.refl (s : TcpTxBuffer) : Reflag s s := ⟨rfl, rfl⟩

theorem Reflag.trans {s'' : TcpTxBuffer} (h : Reflag s s') (h' : Reflag s' s'') : Reflag s s'' :=
  ⟨h'.sent.trans h.sent, by rw [h'.rest, h.rest]⟩

theorem Reflag.shape (h : Reflag s s') (hs : Shape s) : Shape s' := by
  have htotal := total_of_key h.sent
  have hnodes := nodes_of_key h.sent
  have happ : s'.app_list = s.app_list := by rw [h.rest]
  have hfirst : s'.first_byte_seq = s.first_byte_seq := by rw [h.rest]
  have hmax : s'.max_buffer = s.max_buffer := by rw [h.rest]
  have hnode : s'.next_node = s.next_node := by rw [h.rest]
  refine ⟨?_, happ ▸ hs.app, ?_, ?_, ?_, hmax ▸ hs.limit, hnodes ▸ hs.distinct, fun i hi => ?_⟩
  · rw [hfirst]
    exact hs.placed.of_key h.sent
  · rw [htotal, h.rest]
    exact hs.sent_size
  · rw [htotal, happ, h.rest]
    exact hs.size
  · rw [htotal, happ, hmax]
    exact hs.room
  · have hmem : i.node ∈ s.sent_list.map TcpTxItem.node := hnodes ▸ List.mem_map_of_mem hi
    obtain ⟨j, hj, hij⟩ := List.mem_map.mp hmem
    rw [hnode, ← hij]
    exact hs.nodes j hj

theorem Shape.init (n : SequenceNumber32) : Shape (init n) := by
  have hlimit : (32768 : UInt32).toNat < 2 ^ 31 := by decide
  refine ⟨trivial, ?_, rfl, rfl, ?_, hlimit, List.nodup_nil, ?_⟩
  all_goals simp [TcpTxBuffer.init]

theorem Shape.lt (h : Shape s) : total s.sent_list + total s.app_list < 2 ^ 31 := h.room.trans_lt h.limit

theorem Shape.sent_end (h : Shape s) : s.first_byte_seq.add s.sent_size = s.first_byte_seq.plus (total s.sent_list) := by
  have hadd := s.first_byte_seq.plus_add 0 s.sent_size
  have hlt := h.lt
  have hsize : (UInt32.ofNat (total s.sent_list)).toNat = total s.sent_list :=
    UInt32.toNat_ofNat_of_lt' (lt_of_le_of_lt (Nat.le_add_right _ _) (hlt.trans (by decide)))
  rwa [SequenceNumber32.plus_zero, Nat.zero_add, h.sent_size, hsize, ← h.sent_size] at hadd

theorem Shape.tail (h : Shape s) :
    s.tail_sequence = s.first_byte_seq.plus (total s.sent_list + total s.app_list) := by
  have hadd := s.first_byte_seq.plus_add 0 s.size
  have hsize : (UInt32.ofNat (total s.sent_list + total s.app_list)).toNat = total s.sent_list + total s.app_list :=
    UInt32.toNat_ofNat_of_lt' (h.lt.trans (by decide))
  rwa [SequenceNumber32.plus_zero, Nat.zero_add, h.size, hsize, ← h.size] at hadd

theorem Shape.add (h : Shape s) {p : PacketBytes} (hp : p.length < 2 ^ 32) : Shape (s.add p).2 := by
  have hlt := h.lt
  have hroom := h.room
  have hsize : s.size.toNat = total s.sent_list + total s.app_list := by
    rw [h.size]
    exact UInt32.toNat_ofNat_of_lt' (h.lt.trans (by decide))
  have hget : p.get_size.toNat = p.length := PacketBytes.get_size_toNat hp
  rw [TcpTxBuffer.add]
  split
  next hfits =>
    split
    next hpos =>
      rw [UInt32.le_iff_toNat_le, available, UInt32.toNat_sub_of_le _ _ (UInt32.le_iff_toNat_le.mpr (by omega)), hget, hsize] at hfits
      have hpos' : 0 < p.length := by
        rw [← hget]
        exact UInt32.lt_iff_toNat_lt.mp hpos
      refine ⟨h.placed, fun i hi => ?_, h.sent_size, ?_, ?_, h.limit, h.distinct, fun i hi => ?_⟩
      · rcases List.mem_append.mp hi with hi | hi
        · exact h.app i hi
        · rw [List.mem_singleton.mp hi]
          exact hpos'
      · show s.size + p.get_size = _
        rw [h.size, total_append, total_cons, total_nil, Nat.add_zero, ← Nat.add_assoc, UInt32.ofNat_add (_ + _)]
        rfl
      · simp only [total_append, total_cons, total_nil, Nat.add_zero]
        omega
      · exact (h.nodes i hi).trans (Nat.lt_succ_self _)
    next => exact h
  next => exact h

theorem Shape.set_head_sequence (h : Shape s) (hs : s.set_head_sequence seq = some s') : Shape s' := by
  rw [TcpTxBuffer.set_head_sequence] at hs
  split at hs
  next hnil =>
    cases hs
    refine ⟨?_, h.app, h.sent_size, h.size, h.room, h.limit, h.distinct, h.nodes⟩
    show Placed seq 0 s.sent_list
    rw [hnil]
    trivial
  next => cases hs

theorem Shape.set_max_buffer_size (h : Shape s) {n : UInt32} (hroom : s.size ≤ n) (hlimit : n.toNat < 2 ^ 31) :
    Shape (s.set_max_buffer_size n) := by
  refine ⟨h.placed, h.app, h.sent_size, h.size, ?_, hlimit, h.distinct, h.nodes⟩
  rw [UInt32.le_iff_toNat_le, h.size, UInt32.toNat_ofNat_of_lt' (h.lt.trans (by decide))] at hroom
  exact hroom

end Ns3.TcpTxBuffer

/-! What `CopyFromSequence` does to the lists: it cuts sent items anew, or it moves an item to the sent list. -/

namespace Ns3.TcpTxBuffer

open TcpTxItem (split_items merge_items)

variable {s s' : TcpTxBuffer} {l l' : List TcpTxItem} {base : SequenceNumber32} {p q : ℕ} {seq : SequenceNumber32}
  {item : TcpTxItem} {now : Time} {n numBytes : UInt32} {out : Option TcpTxItem}

theorem Shape.position (h : Shape s) (hseq : s.first_byte_seq.greater seq = false) (hsize : s.size_from_sequence seq ≠ 0) :
    ∃ q, seq = s.first_byte_seq.plus q ∧ q < total s.sent_list + total s.app_list ∧
      s.size_from_sequence seq = UInt32.ofNat (total s.sent_list + total s.app_list - q) := by
  obtain ⟨q, hq, hlt⟩ : ∃ q, seq = s.first_byte_seq.plus q ∧ q < 2 ^ 32 := by
    refine ⟨(seq.value - s.first_byte_seq.value).toNat, ?_, UInt32.toNat_lt _⟩
    cases seq with
    | mk value =>
      simp only [SequenceNumber32.plus, UInt32.ofNat_toNat, SequenceNumber32.mk.injEq]
      grind
  obtain ⟨m, hm⟩ : ∃ m, m = total s.sent_list + total s.app_list := ⟨_, rfl⟩
  have hmlt : m < 2 ^ 31 := hm ▸ h.lt
  have htail : s.tail_sequence = s.first_byte_seq.plus m := hm ▸ h.tail
  have hhalf : SequenceNumber32.half_max_value.toNat = 2147483647 := rfl
  have hbase := s.first_byte_seq.value.toNat_lt
  -- the number is at most half the sequence space ahead
  have hle : q ≤ 2 ^ 31 := by
    rw [hq, SequenceNumber32.greater, Bool.or_eq_false_iff, Bool.and_eq_false_iff, Bool.and_eq_false_iff] at hseq
    simp only [SequenceNumber32.plus, decide_eq_false_iff_not, gt_iff_lt, UInt32.lt_iff_toNat_lt, UInt32.le_iff_toNat_le,
      UInt32.toNat_sub, UInt32.toNat_add, UInt32.toNat_ofNat', hhalf] at hseq
    omega
  rw [size_from_sequence, htail, hq] at hsize ⊢
  by_cases hin : (s.first_byte_seq.plus m).greater_equal (s.first_byte_seq.plus q) = true
  · rw [if_pos hin] at hsize ⊢
    have hqm : q ≤ m := by
      by_cases hnear : q < m + 2 ^ 31
      · rwa [SequenceNumber32.greater_equal_plus (by omega) (by omega), decide_eq_true_eq] at hin
      · -- an empty buffer: the number is not after the first byte either
        obtain rfl : m = 0 := by omega
        rw [SequenceNumber32.plus_zero, SequenceNumber32.greater_equal, ← hq, hseq, Bool.false_or, beq_iff_eq] at hin
        rw [← hin] at hq
        have hzero := (SequenceNumber32.plus_inj (b := s.first_byte_seq) (m := 0) (n := q) (by omega) (by omega)).mp
          ((SequenceNumber32.plus_zero _).trans hq)
        omega
    rw [SequenceNumber32.plus_sub hqm (by omega)] at hsize ⊢
    refine ⟨q, rfl, hm ▸ lt_of_le_of_ne hqm fun heq => hsize ?_, by rw [hm]⟩
    rw [heq, Nat.sub_self]
    rfl
  · rw [if_neg hin] at hsize
    exact absurd rfl hsize

theorem Shape.copy_cases (h : Shape s) (hcopy : s.copy_from_sequence now numBytes seq = some (out, s')) :
    (out = none ∧ s' = s) ∨
    (∃ q n, seq = s.first_byte_seq.plus q ∧ 0 < n.toNat ∧ q + n.toNat ≤ total s.sent_list ∧ n ≤ numBytes ∧
      s.copy_transmitted now n seq = some (out, s')) ∨
    ∃ n f s₁, seq = s.first_byte_seq.plus (total s.sent_list) ∧ 0 < n.toNat ∧ n.toNat ≤ total s.app_list ∧ n ≤ numBytes ∧
      s.get_new_segment n = some (f, s₁) ∧ f.item.retrans = false ∧ s₁.put now f = some (out, s') := by
  rw [copy_from_sequence] at hcopy
  split at hcopy
  · cases hcopy
  next hseq =>
    rw [Bool.not_eq_true] at hseq
    dsimp only at hcopy
    split at hcopy
    · cases hcopy
      exact .inl ⟨rfl, rfl⟩
    next hzero =>
      have hsize : s.size_from_sequence seq ≠ 0 := by
        intro heq
        apply hzero
        rw [heq, ← UInt32.toNat_inj, toNat_min]
        exact Nat.min_zero _
      obtain ⟨q, rfl, hq, hfrom⟩ := h.position hseq hsize
      have hlt := h.lt
      obtain ⟨n, hn⟩ : ∃ n, n = min numBytes (s.size_from_sequence (s.first_byte_seq.plus q)) := ⟨_, rfl⟩
      have hpos : 0 < n.toNat := by
        rw [← hn] at hzero
        exact Nat.pos_of_ne_zero fun heq => hzero (UInt32.toNat_inj.mp heq)
      have hle : n.toNat ≤ total s.sent_list + total s.app_list - q := by
        rw [hn, toNat_min, hfrom, UInt32.toNat_ofNat_of_lt' (lt_of_le_of_lt (Nat.sub_le _ _) (hlt.trans (by decide)))]
        exact min_le_right _ _
      have hmin : n ≤ numBytes := by
        rw [UInt32.le_iff_toNat_le, hn, toNat_min]
        exact min_le_left _ _
      rw [← hn, h.sent_end, SequenceNumber32.plus_add, SequenceNumber32.greater_equal_plus (by omega) (by omega),
        SequenceNumber32.less_equal_plus (by omega) (by omega)] at hcopy
      by_cases hsent : q + n.toNat ≤ total s.sent_list
      · rw [if_pos (decide_eq_true hsent)] at hcopy
        exact .inr (.inl ⟨q, n, rfl, hpos, hsent, hmin, hcopy⟩)
      · rw [if_neg (by simpa using hsent)] at hcopy
        by_cases hnew : total s.sent_list ≤ q
        · rw [if_pos (decide_eq_true hnew)] at hcopy
          split at hcopy
          swap
          · cases hcopy
          next hend =>
            have heq := (SequenceNumber32.plus_inj (by omega) (by omega)).mp hend
            obtain ⟨⟨f, s₁⟩, hf, hcopy⟩ := Option.bind_eq_some_iff.mp hcopy
            dsimp only at hcopy
            split at hcopy
            · cases hcopy
            next hretrans =>
              exact .inr (.inr ⟨n, f, s₁, by rw [heq], hpos, by omega, hmin, hf, by simpa using hretrans, hcopy⟩)
        · rw [if_neg (by simpa using hnew)] at hcopy
          split at hcopy
          swap
          · cases hcopy
          -- what is left of the sent data
          have hamount : (s.first_byte_seq.plus (total s.sent_list)).value - (s.first_byte_seq.plus q).value =
              UInt32.ofNat (total s.sent_list - q) := by
            have hsub := SequenceNumber32.plus_sub (b := s.first_byte_seq) (m := q) (n := total s.sent_list) (by omega) (by omega)
            rwa [SequenceNumber32.sub_toUInt32] at hsub
          have hnat : (UInt32.ofNat (total s.sent_list - q)).toNat = total s.sent_list - q :=
            UInt32.toNat_ofNat_of_lt' (lt_of_le_of_lt (Nat.sub_le _ _) (lt_of_le_of_lt (Nat.le_add_right _ _) (hlt.trans (by decide))))
          rw [hamount] at hcopy
          refine .inr (.inl ⟨q, _, rfl, by rw [hnat]; omega, by rw [hnat]; omega, ?_, hcopy⟩)
          rw [UInt32.le_iff_toNat_le, hnat]
          rw [UInt32.le_iff_toNat_le] at hmin
          omega

theorem get_size_toNat {i : TcpTxItem} (h : i.packet.length < 2 ^ 32) : i.get_size.toNat = i.packet.length :=
  UInt32.toNat_ofNat_of_lt' h

theorem merge_limit_pos (seq : SequenceNumber32) (hpos : ∀ i ∈ l, 0 < i.packet.length) (htotal : total l < 2 ^ 31) (hn : 0 < n.toNat) :
    0 < (merge_limit n seq l).toNat ∧ (merge_limit n seq l).toNat ≤ n.toNat := by
  induction l with
  | nil => exact ⟨hn, le_rfl⟩
  | cons item rest ih =>
    have hitem := hpos item (by simp)
    rw [total_cons] at htotal
    have hsize := get_size_toNat (i := item) (by omega)
    have hrest := ih (fun i hi => hpos i (by simp [hi])) (by omega)
    cases rest with
    | nil =>
      rw [merge_limit]
      split
      · rw [toNat_min]
        omega
      · exact ⟨hn, le_rfl⟩
    | cons next rest =>
      rw [total_cons] at htotal
      have hnext := get_size_toNat (i := next) (by omega)
      rw [merge_limit]
      split
      · split
        · rw [toNat_min, UInt32.toNat_add]
          omega
        · rw [toNat_min]
          omega
      · exact hrest

/-- Sent items that are cut anew for a retransmission, the new one marked. -/
structure Resent (s s' : TcpTxBuffer) (item : TcpTxItem) (kept m front behind after : List TcpTxItem) : Prop where
  list : s.sent_list = kept ++ m ++ after
  some : m ≠ []
  list' : s'.sent_list = kept ++ (front ++ item :: behind) ++ after
  recut : Recut s.next_node s'.next_node false item.lost m (front ++ item :: behind)
  retrans : s'.retrans + bytes_of TcpTxItem.retrans m = s.retrans + bytes_of TcpTxItem.retrans (front ++ item :: behind)
  marked : item.retrans = true
  rest : s' = { s with sent_list := s'.sent_list, retrans := s'.retrans, next_node := s'.next_node }

theorem Recut.touch {node node' : ℕ} {sacked lost b : Bool} {m front behind : List TcpTxItem}
    (h : Recut node node' sacked lost m (front ++ item :: behind)) :
    Recut node node' sacked lost m (front ++ { item with retrans := b, last_sent := now } :: behind) := by
  have hmem : ∀ P : TcpTxItem → Prop, P { item with retrans := b, last_sent := now } → (∀ i ∈ front ++ item :: behind, P i) →
      ∀ i ∈ front ++ { item with retrans := b, last_sent := now } :: behind, P i := by
    intro P hP hall i hi
    simp only [List.mem_append, List.mem_cons] at hi hall
    rcases hi with hi | rfl | hi
    · exact hall i (.inl hi)
    · exact hP
    · exact hall i (.inr (.inr hi))
  have hkey : (front ++ { item with retrans := b, last_sent := now } :: behind).map key =
      (front ++ item :: behind).map key := by simp [key]
  refine ⟨fun i hi => ?_, ?_, hmem _ (h.pos item (by simp)) h.pos, fun base p hp => (h.placed base p hp).of_key hkey,
    hmem _ (h.nodes item (by simp)) h.nodes, fun hnodup hlt => ?_, h.grows⟩
  · rcases List.mem_append.mp hi with hi | hi
    · exact h.flags i (List.mem_append_left _ hi)
    · exact hmem (fun i => i.sacked = sacked ∧ i.lost = lost) (h.flags item (by simp))
        (fun i hi => h.flags i (List.mem_append_right _ hi)) i hi
  · rw [← h.bytes]
    simp
  · rw [nodes_of_key hkey]
    exact h.distinct hnodup hlt

theorem Shape.copy_transmitted_spec (h : Shape s) (hn : 0 < n.toNat) (hq : q + n.toNat ≤ total s.sent_list)
    (hcopy : s.copy_transmitted now n (s.first_byte_seq.plus q) = some (out, s')) :
    ∃ kept m front item behind after, Resent s s' item kept m front behind after ∧ out = some item ∧
      item.start_seq = s.first_byte_seq.plus q ∧ 0 < item.packet.length ∧ item.packet.length ≤ n.toNat := by
  have hlt := h.lt
  obtain ⟨f, hf, hcopy⟩ := Option.bind_eq_some_iff.mp hcopy
  split at hcopy
  · cases hcopy
  next hsacked =>
    rw [Bool.not_eq_true] at hsacked
    rw [get_transmitted_segment] at hf
    split at hf
    swap
    · cases hf
    obtain ⟨found, hfound, hf⟩ := Option.bind_eq_some_iff.mp hf
    obtain ⟨hlimit, hle⟩ := merge_limit_pos (s.first_byte_seq.plus q) h.placed.pos (by omega) hn
    obtain ⟨kept, m, front, behind, after, hpicked, hseq, _, _, hlength⟩ :=
      get_packet_spec (p := 0) (q := q) hlimit (by omega) (by omega) h.placed (by omega)
        (by rw [SequenceNumber32.plus_zero]; exact hfound)
    -- the mark of a retransmission counts once
    have hmark : ∃ b, f = { found with item := { found.item with retrans := true }, retrans := b } ∧
        b + bytes_of TcpTxItem.retrans m =
          s.retrans + bytes_of TcpTxItem.retrans (front ++ { found.item with retrans := true } :: behind) := by
      have hretrans := hpicked.retrans
      split at hf
      next hset =>
        cases hf
        refine ⟨f.retrans, ?_, ?_⟩
        · obtain ⟨_, ⟨_, _, _, _, _, _, _⟩, _, _, _⟩ := f
          simp only at hset
          rw [hset]
        · simp only [bytes_of_append, bytes_of_cons, hset] at hretrans ⊢
          exact hretrans
      next hset =>
        cases hf
        refine ⟨_, rfl, ?_⟩
        simp only [bytes_of_append, bytes_of_cons, if_neg hset] at hretrans ⊢
        simp only [if_true, get_size_eq] at hretrans ⊢
        grind
    obtain ⟨b, rfl, hretrans⟩ := hmark
    rw [put] at hcopy
    split at hcopy
    swap
    · cases hcopy
    cases hcopy
    have hrecut : ∀ c, found.item.sacked = c → Recut s.next_node found.next_node c found.item.lost m
        (front ++ { found.item with retrans := true, last_sent := now } :: behind) := by
      rintro _ rfl
      exact hpicked.recut.touch
    refine ⟨kept, m, front, { found.item with retrans := true, last_sent := now }, behind, after,
      ⟨hpicked.list, hpicked.some, ?_, hrecut false hsacked, ?_, rfl, rfl⟩, rfl, hseq, ?_, ?_⟩
    · simp [hpicked.before, hpicked.after]
    · simpa [get_size_eq] using hretrans
    · exact hpicked.recut.pos found.item (by simp)
    · show found.item.packet.length ≤ _
      omega

/-- A new item at the end of the sent list. -/
structure Sent (s s' : TcpTxBuffer) (item : TcpTxItem) : Prop where
  bytes : item.packet ++ s'.app_list.flatMap TcpTxItem.packet = s.app_list.flatMap TcpTxItem.packet
  pos : 0 < item.packet.length ∧ ∀ i ∈ s'.app_list, 0 < i.packet.length
  flags : ∀ c d, (∀ i ∈ s.app_list, i.sacked = c ∧ i.lost = d) →
    (item.sacked = c ∧ item.lost = d) ∧ ∀ i ∈ s'.app_list, i.sacked = c ∧ i.lost = d
  clean : item.retrans = false ∧ ((∀ i ∈ s.app_list, i.retrans = false) →
    s'.retrans = s.retrans ∧ ∀ i ∈ s'.app_list, i.retrans = false)
  list : s'.sent_list = s.sent_list ++ [item]
  start : item.start_seq = s.first_byte_seq.plus (total s.sent_list)
  node : s.next_node ≤ item.node ∧ item.node < s'.next_node
  sent_size : s'.sent_size = s.sent_size + item.get_size
  rest : s' = { s with
    app_list := s'.app_list
    sent_list := s'.sent_list
    sent_size := s'.sent_size
    retrans := s'.retrans
    next_node := s'.next_node }

theorem Shape.get_new_segment_spec {f : Found} {s₁ : TcpTxBuffer} (h : Shape s) (hn : 0 < n.toNat) (hle : n.toNat ≤ total s.app_list)
    (hf : s.get_new_segment n = some (f, s₁)) (hretrans : f.item.retrans = false) (hput : s₁.put now f = some (out, s')) :
    ∃ item, Sent s s' item ∧ out = some item ∧ item.packet.length = n.toNat := by
  have hlt := h.lt
  obtain ⟨found, hfound, hf⟩ := Option.bind_eq_some_iff.mp hf
  rw [h.sent_end] at hfound hf
  cases happ : s.app_list with
  | nil =>
    rw [happ, total_nil] at hle
    omega
  | cons first rest =>
    have hpos := h.app
    rw [happ] at hpos hfound hle
    rw [happ] at hlt
    have hfirst := hpos first (by simp)
    have htotal := hlt
    rw [total_cons] at hlt
    rw [get_packet_from_list, Option.all_none, if_pos rfl, plus_get_size, SequenceNumber32.less_plus (by omega) (by omega),
      if_pos (by simpa using hfirst), if_pos rfl] at hfound
    obtain ⟨m, behind, after, rfl, hafter, ⟨hrecut, hcount, _, hbefore⟩, hlength⟩ :=
      take_end_spec hn (by omega) hpos (by omega) hfound
    cases hf
    rw [put] at hput
    split at hput
    swap
    · cases hput
    cases hput
    have hgrows := hrecut.grows
    refine ⟨{ found.item with
      node := found.next_node
      start_seq := s.first_byte_seq.plus (total s.sent_list)
      last_sent := now }, ⟨?_, ⟨hrecut.pos found.item (by simp), fun i hi => ?_⟩, fun c d hflags => ?_, ⟨hretrans, fun hclean => ?_⟩, rfl, rfl,
      ⟨hgrows, Nat.lt_succ_self _⟩, rfl, rfl⟩, rfl, ?_⟩
    · have hbytes := hrecut.bytes
      simp only [List.flatMap_cons] at hbytes
      simp only [happ, hbefore, hafter, List.nil_append, List.flatMap_append, List.flatMap_cons]
      rw [← List.append_assoc, hbytes, List.append_assoc]
    · simp only [hbefore, hafter, List.nil_append, List.mem_append] at hi
      rcases hi with hi | hi
      · exact hrecut.pos i (by simp [hi])
      · exact hpos i (by simp [hi])
    · rw [happ] at hflags
      have hfirstFlags := hrecut.flags first (by simp)
      have hsame := hflags first (by simp)
      rw [hfirstFlags.1, hfirstFlags.2] at hsame
      refine ⟨hsame, fun i hi => ?_⟩
      simp only [hbefore, hafter, List.nil_append, List.mem_append] at hi
      rcases hi with hi | hi
      · have hi' := hrecut.flags i (by simp [hi])
        exact ⟨hi'.1.trans hsame.1, hi'.2.trans hsame.2⟩
      · exact hflags i (by simp [hi])
    · rw [happ] at hclean
      obtain ⟨hitem, hrest⟩ := take_end_clean hclean hfound
      have hold : bytes_of TcpTxItem.retrans (first :: m) = 0 := bytes_of_eq_zero fun i hi => hclean i (by
        rcases List.mem_cons.mp hi with rfl | hi
        · simp
        · simp [hi])
      have hnew : bytes_of TcpTxItem.retrans (found.item :: behind) = 0 := bytes_of_eq_zero fun i hi => by
        rcases List.mem_cons.mp hi with rfl | hi
        · exact hitem
        · exact hrest i (by simp [hafter, hi])
      rw [hold, hnew, add_zero, add_zero] at hcount
      refine ⟨hcount, fun i hi => hrest i ?_⟩
      simpa only [hbefore, List.nil_append] using hi
    · show found.item.packet.length = _
      rw [hlength]
      omega

theorem Resent.shape {kept m front behind after : List TcpTxItem} (h : Resent s s' item kept m front behind after) (hs : Shape s) :
    Shape s' := by
  obtain ⟨hlist, _, hlist', hrecut, _, _, hrest⟩ := h
  have htotal : total s'.sent_list = total s.sent_list := by
    have hcut := hrecut.total
    rw [hlist, hlist']
    simp only [total_append] at hcut ⊢
    omega
  have hplaced := hs.placed
  have hdistinct := hs.distinct
  have hnodes := hs.nodes
  rw [hlist] at hplaced hdistinct hnodes
  obtain ⟨⟨hkept, hm⟩, hafter⟩ := placed_append.mp hplaced |>.imp_left placed_append.mp
  have hfirst : s'.first_byte_seq = s.first_byte_seq := by rw [hrest]
  have happ : s'.app_list = s.app_list := by rw [hrest]
  have hmax : s'.max_buffer = s.max_buffer := by rw [hrest]
  refine ⟨?_, happ ▸ hs.app, ?_, ?_, ?_, hmax ▸ hs.limit, ?_, fun i hi => ?_⟩
  · rw [hfirst, hlist', placed_append, placed_append, total_append, hrecut.total, ← total_append]
    exact ⟨⟨hkept, hrecut.placed _ _ hm⟩, hafter⟩
  · rw [htotal, hrest]
    exact hs.sent_size
  · rw [htotal, happ, hrest]
    exact hs.size
  · rw [htotal, happ, hmax]
    exact hs.room
  · rw [hlist']
    exact hrecut.distinct_frame hdistinct hnodes
  · rw [hlist'] at hi
    rcases hrecut.nodes_frame i hi with hmem | ⟨_, hlt⟩
    · obtain ⟨j, hj, hij⟩ := List.mem_map.mp hmem
      exact hij ▸ (hnodes j hj).trans_le hrecut.grows
    · exact hlt

theorem Sent.total (h : Sent s s' item) : total s.app_list = item.packet.length + total s'.app_list := by
  rw [total_eq_length, total_eq_length, ← h.bytes, List.length_append]

theorem Sent.shape (h : Sent s s' item) (hs : Shape s) : Shape s' := by
  have hfirst : s'.first_byte_seq = s.first_byte_seq := by rw [h.rest]
  have hmax : s'.max_buffer = s.max_buffer := by rw [h.rest]
  have hsize : s'.size = s.size := by rw [h.rest]
  have htotal := h.total
  have hsum : TcpTxBuffer.total s'.sent_list + TcpTxBuffer.total s'.app_list =
      TcpTxBuffer.total s.sent_list + TcpTxBuffer.total s.app_list := by
    rw [h.list, total_append, total_cons, total_nil]
    omega
  refine ⟨?_, h.pos.2, ?_, ?_, ?_, hmax ▸ hs.limit, ?_, fun i hi => ?_⟩
  · rw [hfirst, h.list, placed_append]
    exact ⟨hs.placed, (Nat.zero_add _).symm ▸ h.start, h.pos.1, trivial⟩
  · rw [h.sent_size, hs.sent_size, h.list, total_append, total_cons, total_nil, UInt32.ofNat_add]
    rfl
  · rw [hsize, hsum]
    exact hs.size
  · rw [hsum, hmax]
    exact hs.room
  · rw [h.list, List.map_append, List.nodup_append]
    refine ⟨hs.distinct, List.nodup_singleton _, fun x hx y hy => ?_⟩
    obtain ⟨j, hj, rfl⟩ := List.mem_map.mp hx
    rw [List.map_singleton, List.mem_singleton] at hy
    subst hy
    exact ((hs.nodes j hj).trans_le h.node.1).ne
  · rw [h.list] at hi
    rcases List.mem_append.mp hi with hi | hi
    · exact (hs.nodes i hi).trans (h.node.1.trans_lt h.node.2)
    · exact List.mem_singleton.mp hi ▸ h.node.2

theorem Shape.copy_spec (h : Shape s) (hcopy : s.copy_from_sequence now numBytes seq = some (out, s')) :
    (out = none ∧ s' = s) ∨
    (∃ kept m front item behind after, Resent s s' item kept m front behind after ∧ out = some item ∧
      item.start_seq = seq ∧ item.packet.length ≤ numBytes.toNat) ∨
    ∃ item, Sent s s' item ∧ out = some item ∧ item.start_seq = seq ∧ item.packet.length ≤ numBytes.toNat := by
  rcases h.copy_cases hcopy with hnone | ⟨q, n, rfl, hn, hq, hle, hcopy⟩ | ⟨n, f, s₁, rfl, hn, hlen, hle, hf, hretrans, hput⟩
  · exact .inl hnone
  · obtain ⟨kept, m, front, item, behind, after, hresent, hout, hseq, _, hlength⟩ := h.copy_transmitted_spec hn hq hcopy
    exact .inr (.inl ⟨kept, m, front, item, behind, after, hresent, hout, hseq,
      hlength.trans (UInt32.le_iff_toNat_le.mp hle)⟩)
  · obtain ⟨item, hsent, hout, hlength⟩ := h.get_new_segment_spec hn hlen hf hretrans hput
    exact .inr (.inr ⟨item, hsent, hout, hsent.start, hlength.trans_le (UInt32.le_iff_toNat_le.mp hle)⟩)

theorem Shape.copy_from_sequence (h : Shape s) (hcopy : s.copy_from_sequence now numBytes seq = some (out, s')) : Shape s' := by
  rcases h.copy_spec hcopy with ⟨_, rfl⟩ | ⟨_, _, _, _, _, _, hresent, _⟩ | ⟨_, hsent, _⟩
  · exact h
  · exact hresent.shape h
  · exact hsent.shape h

end Ns3.TcpTxBuffer
