import Ns3.Internet.TcpTxBuffer

/-! Lists of items, the sequence numbers they stand for, and how `GetPacketFromList` cuts them anew. -/

namespace Ns3.TcpTxBuffer

open TcpTxItem (split_items merge_items)

/-- The number of bytes of the items of a list. -/
def total (l : List TcpTxItem) : ℕ := (l.map fun item => item.packet.length).sum

/-- What the items with a property count for. -/
def bytes_of (f : TcpTxItem → Bool) (l : List TcpTxItem) : UInt32 :=
  (l.map fun item => if f item then item.get_size else 0).sum

/-- Items that are not empty and follow each other in the sequence space from a position on. -/
def Placed (base : SequenceNumber32) : ℕ → List TcpTxItem → Prop
  | _, [] => True
  | p, item :: rest =>
    item.start_seq = base.plus p ∧ 0 < item.packet.length ∧ Placed base (p + item.packet.length) rest

variable {base seq : SequenceNumber32} {p q : ℕ} {l m l' m' : List TcpTxItem} {item : TcpTxItem} {f : TcpTxItem → Bool}

@[simp] theorem total_nil : total [] = 0 := rfl

@[simp] theorem total_cons (item : TcpTxItem) (l : List TcpTxItem) :
    total (item :: l) = item.packet.length + total l := by simp [total]

@[simp] theorem total_append (l m : List TcpTxItem) : total (l ++ m) = total l + total m := by simp [total]

@[simp] theorem bytes_of_nil : bytes_of f [] = 0 := rfl

@[simp] theorem bytes_of_cons (item : TcpTxItem) (l : List TcpTxItem) :
    bytes_of f (item :: l) = (if f item then item.get_size else 0) + bytes_of f l := by simp [bytes_of]

@[simp] theorem bytes_of_append (l m : List TcpTxItem) : bytes_of f (l ++ m) = bytes_of f l + bytes_of f m := by
  simp [bytes_of]

theorem toNat_min (a b : UInt32) : (min a b).toNat = min a.toNat b.toNat := by
  show (if a ≤ b then a else b).toNat = _
  split
  next hle => rw [min_eq_left (UInt32.le_iff_toNat_le.mp hle)]
  next hle => rw [min_eq_right (le_of_not_ge fun h => hle (UInt32.le_iff_toNat_le.mpr h))]

theorem get_size_eq (item : TcpTxItem) : item.get_size = UInt32.ofNat item.packet.length := rfl

theorem plus_get_size (base : SequenceNumber32) (p : ℕ) (item : TcpTxItem) :
    (base.plus p).add item.get_size = base.plus (p + item.packet.length) := by
  simp only [SequenceNumber32.plus, SequenceNumber32.add, get_size_eq, UInt32.ofNat_add, add_assoc]

theorem placed_append : Placed base p (l ++ m) ↔ Placed base p l ∧ Placed base (p + total l) m := by
  induction l generalizing p with
  | nil => simp [Placed]
  | cons item l ih => simp [Placed, ih, Nat.add_assoc, and_assoc]

theorem Placed.pos (h : Placed base p l) : ∀ item ∈ l, 0 < item.packet.length := by
  induction l generalizing p with
  | nil => simp
  | cons item l ih =>
    obtain ⟨_, hpos, hrest⟩ := h
    intro i hi
    rcases List.mem_cons.mp hi with rfl | hi
    · exact hpos
    · exact ih hrest i hi

theorem bytes_of_eq_zero (h : ∀ item ∈ l, f item = false) : bytes_of f l = 0 := by
  induction l with
  | nil => rfl
  | cons item l ih =>
    rw [bytes_of_cons, h item (by simp), ih fun i hi => h i (by simp [hi])]
    rfl

/-- The bytes of items that are cut anew, with the places they get. -/
structure Recut (node node' : ℕ) (sacked lost : Bool) (m m' : List TcpTxItem) : Prop where
  flags : ∀ item ∈ m ++ m', item.sacked = sacked ∧ item.lost = lost
  bytes : m'.flatMap TcpTxItem.packet = m.flatMap TcpTxItem.packet
  pos : ∀ item ∈ m', 0 < item.packet.length
  placed : ∀ base p, Placed base p m → Placed base p m'
  nodes : ∀ item ∈ m', item.node ∈ m.map TcpTxItem.node ∨ node ≤ item.node ∧ item.node < node'
  distinct : (m.map TcpTxItem.node).Nodup → (∀ item ∈ m, item.node < node) → (m'.map TcpTxItem.node).Nodup
  grows : node ≤ node'

theorem total_eq_length (l : List TcpTxItem) : total l = (l.flatMap TcpTxItem.packet).length := by
  induction l with
  | nil => rfl
  | cons item l ih => rw [total_cons, ih, List.flatMap_cons, List.length_append]

theorem Recut.total {node node' : ℕ} {sacked lost : Bool} (h : Recut node node' sacked lost m m') : total m' = total m := by
  rw [total_eq_length, total_eq_length, h.bytes]

theorem Recut.refl (node : ℕ) (hpos : 0 < item.packet.length) : Recut node node item.sacked item.lost [item] [item] := by
  refine ⟨?_, rfl, ?_, fun _ _ h => h, ?_, fun h _ => h, le_rfl⟩
  all_goals simp [hpos]

theorem Recut.split (node : ℕ) (item : TcpTxItem) {n : UInt32} (hn : 0 < n.toNat) (hlt : n.toNat < item.packet.length) :
    Recut node (node + 1) item.sacked item.lost [item] [(split_items node item n).1, (split_items node item n).2] := by
  have htake : (item.packet.take n.toNat).length = n.toNat := List.length_take_of_le hlt.le
  refine ⟨?_, ?_, ?_, fun base p h => ?_, ?_, fun _ hnode => ?_, Nat.le_succ node⟩
  · simp [split_items]
  · simp [split_items]
  · simp only [split_items, List.mem_cons, List.not_mem_nil, or_false, forall_eq_or_imp, forall_eq, htake,
      List.length_drop]
    omega
  · obtain ⟨hstart, hpos, _⟩ := h
    refine ⟨hstart, htake ▸ hn, ?_, ?_, trivial⟩
    · show item.start_seq.add n = _
      rw [hstart, SequenceNumber32.plus_add]
      exact congrArg base.plus (congrArg (p + ·) htake.symm)
    · simp only [split_items, List.length_drop]
      omega
  · simp [split_items]
  · have hlt := hnode item (by simp)
    simp only [split_items, List.map_cons, List.map_nil, List.nodup_cons, List.mem_singleton, List.not_mem_nil,
      not_false_eq_true, List.nodup_nil, and_true]
    omega

variable {node node' node'' : ℕ} {sacked lost : Bool} {retrans retrans' numBytes : UInt32} {found : Found}
  {rest before after : List TcpTxItem} {first : Option SequenceNumber32}

theorem Recut.merge (node : ℕ) {t1 t2 : TcpTxItem} (hpos : 0 < t1.packet.length)
    (h : merge_items retrans t1 t2 = some (item, retrans')) :
    Recut node node item.sacked item.lost [t1, t2] [item] ∧ item.start_seq = t1.start_seq ∧
      item.packet = t1.packet ++ t2.packet ∧
      retrans' + bytes_of TcpTxItem.retrans [t1, t2] = retrans + bytes_of TcpTxItem.retrans [item] := by
  rw [merge_items] at h
  split at h
  next hflags =>
    cases h
    refine ⟨⟨?_, ?_, ?_, fun base p h => ?_, ?_, ?_, le_rfl⟩, rfl, rfl, ?_⟩
    · simp [hflags]
    · simp
    · simp only [List.mem_singleton, forall_eq, List.length_append]
      omega
    · obtain ⟨hstart, _, _⟩ := h
      refine ⟨hstart, ?_, trivial⟩
      simp only [List.length_append]
      omega
    · simp
    · simp
    · simp only [bytes_of_cons, bytes_of_nil, get_size_eq, List.length_append, UInt32.ofNat_add]
      cases t1.retrans <;> cases t2.retrans <;> simp
  next => cases h

theorem Recut.distinct_frame (h : Recut node node' sacked lost m m')
    (hnodup : ((before ++ m ++ after).map TcpTxItem.node).Nodup) (hlt : ∀ item ∈ before ++ m ++ after, item.node < node) :
    ((before ++ m' ++ after).map TcpTxItem.node).Nodup := by
  simp only [List.map_append, List.nodup_append, List.mem_append] at hnodup hlt ⊢
  obtain ⟨⟨hb, hm, hbm⟩, ha, hma⟩ := hnodup
  have hapart : ∀ i ∈ m', ∀ j, j ∈ before ∨ j ∈ after → i.node ≠ j.node := by
    intro i hi j hj
    rcases h.nodes i hi with hmem | ⟨hge, _⟩
    · rcases hj with hj | hj
      · exact (hbm _ (List.mem_map_of_mem hj) _ hmem).symm
      · exact hma _ (.inr hmem) _ (List.mem_map_of_mem hj)
    · have hltj := hlt j (by tauto)
      omega
  refine ⟨⟨hb, h.distinct hm fun i hi => hlt i (.inl (.inr hi)), fun x hx y hy => ?_⟩, ha, fun x hx y hy => ?_⟩
  · obtain ⟨i, hi, rfl⟩ := List.mem_map.mp hx
    obtain ⟨j, hj, rfl⟩ := List.mem_map.mp hy
    exact (hapart j hj i (.inl hi)).symm
  · obtain ⟨j, hj, rfl⟩ := List.mem_map.mp hy
    rcases hx with hx | hx
    · exact hma x (.inl hx) _ (List.mem_map_of_mem hj)
    · obtain ⟨i, hi, rfl⟩ := List.mem_map.mp hx
      exact hapart i hi j (.inr hj)

theorem Recut.nodes_frame (h : Recut node node' sacked lost m m') (item : TcpTxItem) (hi : item ∈ before ++ m' ++ after) :
    item.node ∈ (before ++ m ++ after).map TcpTxItem.node ∨ node ≤ item.node ∧ item.node < node' := by
  have hself := h.nodes item
  simp only [List.mem_append, List.map_append] at hi hself ⊢
  rcases hi with (hi | hi) | hi
  · exact .inl (.inl (.inl (List.mem_map_of_mem hi)))
  · exact (hself hi).imp_left fun hmem => .inl (.inr hmem)
  · exact .inl (.inr (List.mem_map_of_mem hi))

theorem Recut.frame (h : Recut node node' sacked lost m m') (before after : List TcpTxItem)
    (hbefore : ∀ item ∈ before ++ after, item.sacked = sacked ∧ item.lost = lost)
    (hpos : ∀ item ∈ before ++ after, 0 < item.packet.length) :
    Recut node node' sacked lost (before ++ m ++ after) (before ++ m' ++ after) := by
  refine ⟨fun i hi => ?_, ?_, fun i hi => ?_, fun base p hplaced => ?_, h.nodes_frame, h.distinct_frame, h.grows⟩
  · have hflags := h.flags i
    have hboth := hbefore i
    simp only [List.mem_append] at hi hflags hboth
    tauto
  · simp [h.bytes]
  · have hself := h.pos i
    have hboth := hpos i
    simp only [List.mem_append] at hi hboth
    tauto
  · rw [placed_append, placed_append, total_append] at hplaced ⊢
    rw [h.total]
    exact ⟨⟨hplaced.1.1, h.placed base _ hplaced.1.2⟩, hplaced.2⟩

theorem Recut.trans {m'' : List TcpTxItem} (h : Recut node node' sacked lost m m') (h' : Recut node' node'' sacked lost m' m'') :
    Recut node node'' sacked lost m m'' := by
  have hgrows := h.grows
  have hgrows' := h'.grows
  refine ⟨fun i hi => ?_, h'.bytes.trans h.bytes, h'.pos, fun base p hp => h'.placed base p (h.placed base p hp), fun i hi => ?_,
    fun hnodup hlt => h'.distinct (h.distinct hnodup hlt) fun i hi => ?_, hgrows.trans hgrows'⟩
  · rcases List.mem_append.mp hi with hi | hi
    · exact h.flags i (List.mem_append_left _ hi)
    · exact h'.flags i (List.mem_append_right _ hi)
  · rcases h'.nodes i hi with hmem | hnew
    · obtain ⟨j, hj, hij⟩ := List.mem_map.mp hmem
      rw [← hij]
      rcases h.nodes j hj with hmem | hnew
      · exact .inl hmem
      · exact .inr ⟨hnew.1, hnew.2.trans_le hgrows'⟩
    · exact .inr ⟨hgrows.trans hnew.1, hnew.2⟩
  · rcases h.nodes i hi with hmem | hnew
    · obtain ⟨j, hj, hij⟩ := List.mem_map.mp hmem
      exact hij ▸ (hlt j hj).trans_le hgrows
    · exact hnew.2

/-- The item that is found instead of the first items of a list, with the rest of them behind it. -/
structure Taken (node : ℕ) (retrans : UInt32) (m : List TcpTxItem) (item : TcpTxItem) (behind : List TcpTxItem)
    (found : Found) : Prop where
  recut : Recut node found.next_node found.item.sacked found.item.lost m (found.item :: behind)
  retrans : found.retrans + bytes_of TcpTxItem.retrans m = retrans + bytes_of TcpTxItem.retrans (found.item :: behind)
  start : found.item.start_seq = item.start_seq
  before : found.before = []

theorem fit_spec (hn : 0 < numBytes.toNat) (hpos : 0 < item.packet.length) (hlt : item.packet.length < 2 ^ 32)
    (h : fit numBytes retrans node item rest = some found) :
    ∃ behind, Taken node retrans [item] item behind found ∧ found.after = behind ++ rest ∧
      found.item.packet.length = numBytes.toNat ∧ numBytes.toNat ≤ item.packet.length := by
  have hsize : item.get_size.toNat = item.packet.length := UInt32.toNat_ofNat_of_lt' hlt
  rw [fit] at h
  split at h
  next heq =>
    cases h
    exact ⟨[], ⟨Recut.refl node hpos, rfl, rfl, rfl⟩, rfl, by rw [heq, hsize], by rw [heq, hsize]⟩
  next =>
    split at h
    next hless =>
      have hcut : numBytes.toNat < item.packet.length := by
        rw [← hsize]
        exact UInt32.lt_iff_toNat_lt.mp hless
      have hrecut := Recut.split node item hn hcut
      have hfirst : (split_items node item numBytes).1.packet.length = numBytes.toNat := List.length_take_of_le hcut.le
      have hsum : (split_items node item numBytes).1.get_size + (split_items node item numBytes).2.get_size =
          item.get_size := by
        rw [get_size_eq, get_size_eq, get_size_eq, ← UInt32.ofNat_add]
        congr 1
        simp only [split_items, List.length_take, List.length_drop]
        omega
      cases h
      refine ⟨[(split_items node item numBytes).2], ⟨hrecut, ?_, rfl, rfl⟩, rfl, hfirst, hcut.le⟩
      have hflag : (split_items node item numBytes).1.retrans = item.retrans ∧
          (split_items node item numBytes).2.retrans = item.retrans := ⟨rfl, rfl⟩
      simp only [bytes_of_cons, bytes_of_nil, hflag.1, hflag.2, ← hsum]
      cases item.retrans <;> simp
    next => cases h

theorem take_end_spec {n : UInt32} (hn : 0 < n.toNat) (hlt : n.toNat < 2 ^ 31)
    (hpos : ∀ i ∈ item :: rest, 0 < i.packet.length) (htotal : total (item :: rest) < 2 ^ 31)
    (h : take_end n seq node retrans item rest = some found) :
    ∃ m behind after, rest = m ++ after ∧ found.after = behind ++ after ∧
      Taken node retrans (item :: m) item behind found ∧ found.item.packet.length = min n.toNat (total (item :: rest)) := by
  have hends : ∀ i : TcpTxItem, i.packet.length < 2 ^ 31 →
      ((seq.add n).less_equal (seq.add i.get_size) = true ↔ n.toNat ≤ i.packet.length) := by
    intro i hi
    have hadd : seq.add n = seq.plus n.toNat := by
      have h := seq.plus_add 0 n
      rwa [SequenceNumber32.plus_zero, Nat.zero_add] at h
    have hadd' : seq.add i.get_size = seq.plus i.packet.length := by
      have h := plus_get_size seq 0 i
      rwa [SequenceNumber32.plus_zero, Nat.zero_add] at h
    rw [hadd, hadd', SequenceNumber32.less_equal_plus (by omega) (by omega), decide_eq_true_eq]
  induction rest generalizing item retrans with
  | nil =>
    rw [total_cons, total_nil] at htotal
    have hfirst := hpos item (by simp)
    rw [take_end] at h
    split at h
    next hend =>
      obtain ⟨behind, htaken, hafter, hlength, hle⟩ := fit_spec hn hfirst (by omega) h
      refine ⟨[], behind, [], rfl, hafter, htaken, ?_⟩
      rw [hlength, total_cons, total_nil]
      omega
    next hend =>
      rw [hends item (by omega)] at hend
      cases h
      refine ⟨[], [], [], rfl, rfl, ⟨Recut.refl node hfirst, rfl, rfl, rfl⟩, ?_⟩
      show item.packet.length = _
      rw [total_cons, total_nil]
      omega
  | cons next rest ih =>
    have hfirst := hpos item (by simp)
    rw [total_cons] at htotal
    rw [take_end] at h
    split at h
    next hend =>
      obtain ⟨behind, htaken, hafter, hlength, hle⟩ := fit_spec hn hfirst (by omega) h
      refine ⟨[], behind, next :: rest, rfl, hafter, htaken, ?_⟩
      rw [hlength, total_cons]
      omega
    next hend =>
      obtain ⟨⟨merged, retrans'⟩, hmerge, h⟩ := Option.bind_eq_some_iff.mp h
      obtain ⟨hrecut, hstart, hpacket, hretrans⟩ := Recut.merge node hfirst hmerge
      have hsum : total (merged :: rest) = total (item :: next :: rest) := by
        rw [total_cons, total_cons, total_cons, hpacket, List.length_append, Nat.add_assoc]
      obtain ⟨m, behind, after, rfl, hafter, ⟨hrecut', hretrans', hstart', hbefore⟩, hlength⟩ :=
        ih (fun i hi => by
          rcases List.mem_cons.mp hi with rfl | hi
          · exact hrecut.pos i (by simp)
          · exact hpos i (by simp [hi])) (by rwa [hsum, total_cons]) h
      have hmerged := hrecut'.flags merged (by simp)
      rw [hmerged.1, hmerged.2] at hrecut
      have hframe := hrecut.frame [] m (fun i hi => hrecut'.flags i (by simp_all))
        fun i hi => hpos i (by simp_all)
      refine ⟨next :: m, behind, after, rfl, hafter, ⟨?_, ?_, hstart'.trans hstart, hbefore⟩, hsum ▸ hlength⟩
      · exact hframe.trans hrecut'
      · simp only [bytes_of_cons, bytes_of_nil] at hretrans hretrans' ⊢
        grind

/-- The item that is found in a list: some neighbouring items are cut anew. -/
structure Picked (node : ℕ) (retrans : UInt32) (l : List TcpTxItem) (found : Found) (kept m front behind after : List TcpTxItem) :
    Prop where
  list : l = kept ++ m ++ after
  some : m ≠ []
  before : found.before = kept ++ front
  after : found.after = behind ++ after
  recut : Recut node found.next_node found.item.sacked found.item.lost m (front ++ found.item :: behind)
  retrans : found.retrans + bytes_of TcpTxItem.retrans m = retrans + bytes_of TcpTxItem.retrans (front ++ found.item :: behind)

theorem get_packet_spec {n : UInt32} (hn : 0 < n.toNat) (hlt : n.toNat < 2 ^ 31) (hq : q < 2 ^ 31) (hplaced : Placed base p l)
    (hfar : p + total l < 2 ^ 31)
    (h : get_packet_from_list first n (base.plus q) retrans node (base.plus p) l = some found) :
    ∃ kept m front behind after, Picked node retrans l found kept m front behind after ∧
      found.item.start_seq = base.plus q ∧ p ≤ q ∧ q < p + total l ∧
      found.item.packet.length = min n.toNat (p + total l - q) := by
  induction l generalizing p found with
  | nil => cases h
  | cons item rest ih =>
    obtain ⟨hstart, hitem, hrest⟩ := hplaced
    rw [total_cons] at hfar
    have hpos : ∀ i ∈ item :: rest, 0 < i.packet.length := by
      intro i hi
      rcases List.mem_cons.mp hi with rfl | hi
      · exact hitem
      · exact hrest.pos i hi
    rw [get_packet_from_list] at h
    split at h
    swap
    · cases h
    rw [plus_get_size, SequenceNumber32.less_plus (by omega) (by omega)] at h
    by_cases hin : q < p + item.packet.length
    · rw [if_pos (decide_eq_true hin), SequenceNumber32.greater_plus (by omega) (by omega)] at h
      by_cases heq : q = p
      · subst heq
        rw [if_pos rfl] at h
        obtain ⟨m, behind, after, rfl, hafter, ⟨hrecut, hretrans, hfirst, hbefore⟩, hlength⟩ :=
          take_end_spec hn hlt hpos (by rw [total_cons]; omega) h
        refine ⟨[], item :: m, [], behind, after, ⟨rfl, by simp, hbefore, hafter, hrecut, hretrans⟩, hfirst.trans hstart, le_rfl,
          by rw [total_cons]; omega, ?_⟩
        rw [hlength, Nat.add_sub_cancel_left]
      · have hne : base.plus q ≠ base.plus p := by
          rw [ne_eq, SequenceNumber32.plus_inj (by omega) (by omega)]
          exact heq
        rw [if_neg hne] at h
        by_cases hgt : p < q
        · rw [if_pos (decide_eq_true hgt), SequenceNumber32.plus_sub hgt.le (by omega)] at h
          dsimp only at h
          split at h
          swap
          · cases h
          have hbound : q - p < 2 ^ 32 := by omega
          have hnat : (UInt32.ofNat (q - p)).toNat = q - p := UInt32.toNat_ofNat_of_lt' hbound
          obtain ⟨front, hfront⟩ : ∃ x, x = (split_items node item (UInt32.ofNat (q - p))).1 := ⟨_, rfl⟩
          obtain ⟨back, hback⟩ : ∃ x, x = (split_items node item (UInt32.ofNat (q - p))).2 := ⟨_, rfl⟩
          have hsplit := Recut.split node item (n := UInt32.ofNat (q - p)) (by omega) (by omega)
          rw [← hfront, ← hback] at hsplit h
          obtain ⟨found, hfound, rfl⟩ := Option.map_eq_some_iff.mp h
          have hbackLength : back.packet.length = item.packet.length - (q - p) := by
            rw [hback]
            simp only [split_items, List.length_drop, hnat]
          have hbackStart : back.start_seq = base.plus q := by
            rw [hback]
            show item.start_seq.add _ = _
            rw [hstart, SequenceNumber32.plus_add, hnat, Nat.add_sub_cancel' hgt.le]
          obtain ⟨m, behind, after, rfl, hafter, ⟨hrecut, hretrans, hfirst, hbefore⟩, hlength⟩ :=
            take_end_spec hn hlt (fun i hi => by
              rcases List.mem_cons.mp hi with rfl | hi
              · exact hsplit.pos i (by simp)
              · exact hpos i (by simp [hi])) (by rw [total_cons]; omega) hfound
          -- the item is cut first, then its second part is merged or cut
          have hflags := hrecut.flags back (by simp)
          have hitemflags := hsplit.flags back (by simp)
          rw [← hitemflags.1, ← hitemflags.2, hflags.1, hflags.2] at hsplit
          have hcut := hsplit.frame [] m (fun i hi => hrecut.flags i (by simp_all))
            fun i hi => hpos i (by simp_all)
          have hmore := hrecut.frame [front] [] (fun i hi => hsplit.flags i (by simp_all))
            fun i hi => hsplit.pos i (by simp_all)
          refine ⟨[], item :: m, [front], behind, after, ⟨rfl, by simp, ?_, hafter, ?_, ?_⟩, hfirst.trans hbackStart, hgt.le,
            by rw [total_cons]; omega, ?_⟩
          · show front :: found.before = _
            rw [hbefore]
            rfl
          · refine hcut.trans ?_
            simpa using hmore
          · have hsizes : front.get_size + back.get_size = item.get_size := by
              rw [get_size_eq, get_size_eq, get_size_eq, ← UInt32.ofNat_add]
              congr 1
              rw [hbackLength, hfront]
              simp only [split_items, List.length_take, hnat]
              omega
            have hflag : front.retrans = item.retrans ∧ back.retrans = item.retrans := by
              rw [hfront, hback]
              exact ⟨rfl, rfl⟩
            simp only [bytes_of_cons, bytes_of_append, bytes_of_nil, hflag.1, hflag.2] at hretrans ⊢
            split at hretrans <;> split <;> grind
          · show found.item.packet.length = _
            rw [hlength, total_cons, total_cons, hbackLength]
            congr 1
            omega
        · rw [if_neg (by simpa using hgt)] at h
          cases h
    · rw [if_neg (by simpa using hin)] at h
      obtain ⟨found, hfound, rfl⟩ := Option.map_eq_some_iff.mp h
      obtain ⟨kept, m, front, behind, after, hpicked, hseq, hle, hless, hlength⟩ := ih hrest (by omega) hfound
      refine ⟨item :: kept, m, front, behind, after, ⟨?_, hpicked.some, ?_, hpicked.after, hpicked.recut, hpicked.retrans⟩, hseq,
        by omega, by rw [total_cons]; omega, ?_⟩
      · rw [hpicked.list]
        rfl
      · show item :: found.before = _
        rw [hpicked.before]
        rfl
      · show found.item.packet.length = _
        rw [hlength, total_cons, Nat.add_assoc]

theorem take_end_clean {n : UInt32} (hclean : ∀ i ∈ item :: rest, i.retrans = false)
    (h : take_end n seq node retrans item rest = some found) :
    found.item.retrans = false ∧ ∀ i ∈ found.after, i.retrans = false := by
  have hfit : ∀ item rest retrans, (∀ i ∈ item :: rest, TcpTxItem.retrans i = false) →
      fit n retrans node item rest = some found → found.item.retrans = false ∧ ∀ i ∈ found.after, i.retrans = false := by
    intro item rest retrans hclean h
    have hfirst := hclean item (by simp)
    rw [fit] at h
    split at h
    · cases h
      exact ⟨hfirst, fun i hi => hclean i (by simp [hi])⟩
    · split at h
      · cases h
        refine ⟨hfirst, fun i hi => ?_⟩
        rcases List.mem_cons.mp hi with rfl | hi
        · exact hfirst
        · exact hclean i (by simp [hi])
      · cases h
  induction rest generalizing item retrans with
  | nil =>
    rw [take_end] at h
    split at h
    · exact hfit _ _ _ hclean h
    · cases h
      exact ⟨hclean item (by simp), by simp⟩
  | cons next rest ih =>
    rw [take_end] at h
    split at h
    · exact hfit _ _ _ hclean h
    · obtain ⟨⟨merged, retrans'⟩, hmerge, h⟩ := Option.bind_eq_some_iff.mp h
      refine ih (fun i hi => ?_) h
      rcases List.mem_cons.mp hi with rfl | hi
      · rw [merge_items] at hmerge
        split at hmerge
        · cases hmerge
          show (item.retrans && next.retrans) = false
          rw [hclean item (by simp), Bool.false_and]
        · cases hmerge
      · exact hclean i (by simp [hi])

end Ns3.TcpTxBuffer
