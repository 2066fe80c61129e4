import Ns3.Internet.TcpRxBuffer
import Ns3.Foundation.Segments

/-! What the loops of the receive buffer do to packets at positions of a stream. -/

namespace Ns3.TcpRxBuffer

open Segments (Ordered Tiles Part Covered total content place)

/-- The packets of the map at positions counted from `isn`. -/
def packets (isn : SequenceNumber32) (l : List (ℕ × PacketBytes)) : List (SequenceNumber32 × PacketBytes) :=
  l.map fun s => (isn.plus s.1, s.2)

/-- The blocks at positions counted from `isn`. -/
def sacks (isn : SequenceNumber32) (blocks : List (ℕ × ℕ)) : List SackBlock :=
  blocks.map fun x => (isn.plus x.1, isn.plus x.2)

/-- A packet inside the half range of positions that starts at `lo`. -/
def Near (lo : ℕ) (s : ℕ × PacketBytes) : Prop :=
  0 < s.2.length ∧ lo ≤ s.1 ∧ s.1 + s.2.length < lo + 2 ^ 31

variable {isn : SequenceNumber32} {lo h t n m : ℕ} {l held later : List (ℕ × PacketBytes)} {s : ℕ × PacketBytes}
  {p : PacketBytes} {size avail : UInt32} {blocks : List (ℕ × ℕ)}

theorem packets_append : packets isn (held ++ later) = packets isn held ++ packets isn later := List.map_append

theorem plus_get_size (hlength : p.length < 2 ^ 32) : (isn.plus n).add p.get_size = isn.plus (n + p.length) := by
  rw [SequenceNumber32.plus_add, PacketBytes.get_size_toNat hlength]

/-- The result of trimming the range from `h` to `t` against the packets of `l`: the range
from `h'` to `t'` and the packets that stay. -/
structure Trims (h t : ℕ) (l : List (ℕ × PacketBytes)) (h' t' : ℕ) (kept : List (ℕ × PacketBytes)) : Prop where
  sublist : kept.Sublist l
  head : h ≤ h'
  tail : t' ≤ t
  /-- The end comes before no packet that both it and the packets come after. -/
  floor : ∀ m ≤ t, (∀ s ∈ l, m ≤ s.1) → m ≤ t'
  /-- The start moves only over packets that do not come after it. -/
  fixed : (∀ s ∈ l, h < s.1) → h' = h
  clear : h' < t' → ∀ s ∈ kept, s.1 + s.2.length ≤ h' ∨ t' ≤ s.1
  erased : ∀ s ∈ l, s ∈ kept ∨ h' < s.1 ∧ s.1 + s.2.length ≤ t'
  unchanged : t' ≤ h' → kept = l

variable (isn) in
theorem overlap_spec (hl : ∀ s ∈ l, Near lo s) (horder : Ordered l) (hh : lo ≤ h ∧ h < lo + 2 ^ 31)
    (ht : lo ≤ t ∧ t < lo + 2 ^ 31) (c : ℕ) :
    ∃ h' t' kept, overlap (isn.plus h) (isn.plus t) (UInt32.ofNat (c + total l)) (packets isn l) =
        ⟨isn.plus h', isn.plus t', UInt32.ofNat (c + total kept), packets isn kept⟩ ∧
      lo ≤ t' ∧ h' < lo + 2 ^ 31 ∧ Trims h t l h' t' kept := by
  induction l generalizing h t c with
  | nil =>
    refine ⟨h, t, [], rfl, ht.1, hh.2, .refl _, le_rfl, le_rfl, fun m hm _ => hm, fun _ => rfl, ?_, ?_, fun _ => rfl⟩
    · intro _ s hs
      cases hs
    · intro s hs
      cases hs
  | cons s l ih =>
    obtain ⟨k, q⟩ := s
    obtain ⟨hpos, hklo, hkhi⟩ := hl (k, q) (by simp)
    obtain ⟨hfirst, horder⟩ := List.pairwise_cons.mp horder
    have hl' : ∀ s ∈ l, Near lo s := fun s hs => hl s (by simp [hs])
    simp only at hpos hklo hkhi hfirst
    have hlength : q.length < 2 ^ 32 := by omega
    have hcons : packets isn ((k, q) :: l) = (isn.plus k, q) :: packets isn l := rfl
    rw [hcons, overlap, SequenceNumber32.less_equal_plus (by omega) (by omega)]
    by_cases hkt : k ≤ t
    swap
    · rw [if_neg (by simpa using hkt)]
      refine ⟨h, t, (k, q) :: l, rfl, ht.1, hh.2, .refl _, le_rfl, le_rfl, fun m hm _ => hm, fun _ => rfl, ?_,
        fun s hs => .inl hs, fun _ => rfl⟩
      intro _ s hs
      rcases List.mem_cons.mp hs with rfl | hs
      · exact .inr (by simp only; omega)
      · exact .inr ((Nat.le_of_lt (by omega : t < k)).trans ((Nat.le_add_right _ _).trans (hfirst s hs)))
    rw [if_pos (by simpa using hkt)]
    simp only [plus_get_size hlength]
    rw [SequenceNumber32.greater_plus (by omega) (by omega), SequenceNumber32.greater_plus (by omega) (by omega),
      SequenceNumber32.less_plus (by omega) (by omega), SequenceNumber32.less_equal_plus (by omega) (by omega),
      SequenceNumber32.greater_equal_plus (by omega) (by omega)]
    by_cases hlast : h < k + q.length
    swap
    · rw [if_neg (by simpa using hlast)]
      obtain ⟨h', t', kept, heq, hlo, hhi, htrims⟩ := ih hl' horder hh ht (c + q.length)
      refine ⟨h', t', (k, q) :: kept, ?_, hlo, hhi, htrims.sublist.cons_cons _, htrims.head, htrims.tail, ?_, ?_, ?_,
        ?_, ?_⟩
      · rw [Segments.total_cons, Segments.total_cons, ← add_assoc, ← add_assoc, heq]
        rfl
      · exact fun m hm hmin => htrims.floor m hm fun s hs => hmin s (by simp [hs])
      · intro hafter
        have hk := hafter (k, q) (by simp)
        simp only at hk
        omega
      · intro hlt s hs
        rcases List.mem_cons.mp hs with rfl | hs
        · have hle := htrims.head
          exact .inl (by simp only; omega)
        · exact htrims.clear hlt s hs
      · intro s hs
        rcases List.mem_cons.mp hs with rfl | hs
        · exact .inl (by simp)
        · exact (htrims.erased s hs).imp_left fun hin => by simp [hin]
      · exact fun hle => by rw [htrims.unchanged hle]
    rw [if_pos (by simpa using hlast)]
    by_cases hinside : h < k ∧ k + q.length < t
    · -- the stored packet is embedded in the new one, which starts before all that follow
      rw [if_pos (by simpa using hinside)]
      obtain ⟨h', t', kept, heq, hlo, hhi, htrims⟩ := ih hl' horder hh ht c
      have hfixed : h' = h := htrims.fixed fun s hs => by
        have hle := hfirst s hs
        omega
      have hfloor : k + q.length ≤ t' := htrims.floor _ hinside.2.le hfirst
      refine ⟨h', t', kept, ?_, hlo, hhi, htrims.sublist.cons _, htrims.head, htrims.tail, ?_, fun _ => hfixed,
        htrims.clear, ?_, ?_⟩
      · rw [← heq, Segments.total_cons, PacketBytes.get_size]
        congr 1
        rw [show c + (q.length + total l) = c + total l + q.length by omega, UInt32.ofNat_add]
        exact UInt32.add_sub_cancel _ _
      · exact fun m hm hmin => htrims.floor m hm fun s hs => hmin s (by simp [hs])
      · intro s hs
        rcases List.mem_cons.mp hs with rfl | hs
        · exact .inr ⟨by simp only; omega, hfloor⟩
        · exact htrims.erased s hs
      · omega
    · rw [if_neg (by simpa using hinside)]
      obtain ⟨h₁, hh₁⟩ : ∃ h₁, h₁ = if k ≤ h then k + q.length else h := ⟨_, rfl⟩
      obtain ⟨t₁, ht₁⟩ : ∃ t₁, t₁ = if t ≤ k + q.length then k else t := ⟨_, rfl⟩
      have hhead : (if decide (k ≤ h) = true then isn.plus (k + q.length) else isn.plus h) = isn.plus h₁ := by
        simp only [decide_eq_true_eq, hh₁]
        split <;> rfl
      have htail : (if decide (t ≤ k + q.length) = true then isn.plus k else isn.plus t) = isn.plus t₁ := by
        simp only [decide_eq_true_eq, ht₁]
        split <;> rfl
      have hbounds : h ≤ h₁ ∧ t₁ ≤ t ∧ h₁ < lo + 2 ^ 31 ∧ lo ≤ t₁ ∧ (h < k → h₁ = h ∧ t₁ = k) ∧
          (k ≤ h → h₁ = k + q.length) ∧ min t k ≤ t₁ := by
        split at hh₁ <;> split at ht₁ <;> omega
      obtain ⟨hle, htle, hhi₁, hlo₁, hbefore, hafter, hmin₁⟩ := hbounds
      obtain ⟨h', t', kept, heq, hlo, hhi, htrims⟩ :=
        ih hl' horder ⟨by omega, hhi₁⟩ ⟨hlo₁, by omega⟩ (c + q.length)
      simp only [hhead, htail]
      refine ⟨h', t', (k, q) :: kept, ?_, hlo, hhi, htrims.sublist.cons_cons _, hle.trans htrims.head,
        htrims.tail.trans htle, ?_, ?_, ?_, ?_, ?_⟩
      · rw [Segments.total_cons, Segments.total_cons, ← add_assoc, ← add_assoc, heq]
        rfl
      · intro m hm hmin
        exact htrims.floor m ((le_min hm (hmin (k, q) (by simp))).trans hmin₁) fun s hs => hmin s (by simp [hs])
      · intro hall
        have hk := hall (k, q) (by simp)
        have heq₁ := (hbefore hk).1
        rw [← heq₁]
        exact htrims.fixed fun s hs => by
          rw [heq₁]
          exact hall s (by simp [hs])
      · intro hlt s hs
        rcases List.mem_cons.mp hs with rfl | hs
        · have hhead' := htrims.head
          have htail' := htrims.tail
          rcases Nat.lt_or_ge h k with hcase | hcase
          · exact .inr (by have := (hbefore hcase).2; simp only; omega)
          · exact .inl (by have := hafter hcase; simp only; omega)
        · exact htrims.clear hlt s hs
      · intro s hs
        rcases List.mem_cons.mp hs with rfl | hs
        · exact .inl (by simp)
        · exact (htrims.erased s hs).imp_left fun hin => by simp [hin]
      · exact fun hle => by rw [htrims.unchanged hle]

theorem overlap_append (hheld : ∀ s ∈ held, Near lo s ∧ s.1 + s.2.length ≤ h)
    (ht : lo ≤ t ∧ t < lo + 2 ^ 31) (hht : h ≤ t) (rest : List (SequenceNumber32 × PacketBytes)) :
    overlap (isn.plus h) (isn.plus t) size (packets isn held ++ rest) =
      { overlap (isn.plus h) (isn.plus t) size rest with
        data := packets isn held ++ (overlap (isn.plus h) (isn.plus t) size rest).data } := by
  induction held with
  | nil => rfl
  | cons s held ih =>
    obtain ⟨k, q⟩ := s
    obtain ⟨⟨hpos, hklo, hkhi⟩, hend⟩ := hheld (k, q) (by simp)
    simp only at hpos hklo hkhi hend
    have hcons : packets isn ((k, q) :: held) ++ rest = (isn.plus k, q) :: (packets isn held ++ rest) := rfl
    rw [hcons, overlap, SequenceNumber32.less_equal_plus (by omega) (by omega), if_pos (by simp; omega)]
    simp only [show (isn.plus k).add q.get_size = isn.plus (k + q.length) from plus_get_size (by omega)]
    rw [SequenceNumber32.greater_plus (by omega) (by omega), if_neg (by simp; omega),
      ih fun s hs => hheld s (by simp [hs])]
    rfl

theorem assign_packets (hl : ∀ s ∈ l, Near lo s) (hn : lo ≤ n ∧ n < lo + 2 ^ 31) (hne : ∀ s ∈ l, s.1 ≠ n) :
    assign (isn.plus n) p (packets isn l) = packets isn (place (n, p) l) := by
  induction l with
  | nil => rfl
  | cons s l ih =>
    obtain ⟨k, q⟩ := s
    obtain ⟨hpos, hklo, hkhi⟩ := hl (k, q) (by simp)
    have hk := hne (k, q) (by simp)
    simp only at hpos hklo hkhi hk
    have hcons : packets isn ((k, q) :: l) = (isn.plus k, q) :: packets isn l := rfl
    rw [hcons, assign, SequenceNumber32.less_plus (by omega) (by omega),
      SequenceNumber32.less_plus (by omega) (by omega), place]
    by_cases hlt : k < n
    · rw [if_pos (by simpa using hlt), if_pos hlt, ih (fun s hs => hl s (by simp [hs])) fun s hs => hne s (by simp [hs])]
      rfl
    · rw [if_neg (by simpa using hlt), if_pos (by simp; omega), if_neg hlt]
      rfl

theorem find_packets (hl : ∀ s ∈ l, Near lo s) (hn : lo ≤ n ∧ n < lo + 2 ^ 31) (hne : ∀ s ∈ l, s.1 ≠ n) :
    find (isn.plus n) (packets isn l) = false := by
  rw [find, packets, List.any_map, List.any_eq_false]
  intro s hs
  obtain ⟨hpos, hklo, hkhi⟩ := hl s hs
  have hk := hne s hs
  simp only [Function.comp_apply]
  rw [SequenceNumber32.less_plus (by omega) (by omega), SequenceNumber32.less_plus (by omega) (by omega)]
  simp only [Bool.and_eq_true, Bool.not_eq_true', decide_eq_false_iff_not]
  omega

theorem clear_sack_list_spec (hblocks : ∀ x ∈ blocks, lo ≤ x.1 ∧ x.1 < x.2 ∧ x.2 < lo + 2 ^ 31)
    (hn : lo ≤ n ∧ n < lo + 2 ^ 31) :
    clear_sack_list (isn.plus n) (sacks isn blocks) = some (sacks isn (blocks.filter fun x => n < x.2)) := by
  induction blocks with
  | nil => rfl
  | cons x blocks ih =>
    obtain ⟨hlo, hlt, hhi⟩ := hblocks x (by simp)
    have hcons : sacks isn (x :: blocks) = (isn.plus x.1, isn.plus x.2) :: sacks isn blocks := rfl
    rw [hcons, clear_sack_list, SequenceNumber32.less_plus (by omega) (by omega), if_pos (by simpa using hlt),
      ih fun y hy => hblocks y (by simp [hy]), SequenceNumber32.less_equal_plus (by omega) (by omega),
      Option.map_some]
    by_cases hin : n < x.2
    · rw [if_neg (by simpa using hin), List.filter_cons_of_pos (by simpa using hin)]
      rfl
    · rw [if_pos (by simpa using hin), List.filter_cons_of_neg (by simpa using hin)]

variable (isn) in
theorem advance_spec (avail : UInt32) {blocks : List (ℕ × ℕ)} (hl : ∀ s ∈ l, Near lo s) (horder : Ordered l) (hafter : ∀ s ∈ l, n ≤ s.1)
    (hn : lo ≤ n ∧ n < lo + 2 ^ 31)
    (hblocks : ∀ x ∈ blocks, lo ≤ x.1 ∧ x.1 < x.2 ∧ x.2 < lo + 2 ^ 31) :
    ∃ run rest n', l = run ++ rest ∧ Tiles n run n' ∧ (∀ s ∈ rest, n' < s.1) ∧
      advance (isn.plus n) avail (sacks isn blocks) (packets isn l) =
        some (isn.plus n', avail + UInt32.ofNat (total run),
          sacks isn (if run = [] then blocks else blocks.filter fun x => n' < x.2)) := by
  induction l generalizing n avail blocks with
  | nil =>
    refine ⟨[], [], n, rfl, rfl, fun s hs => absurd hs List.not_mem_nil, ?_⟩
    simp [packets, advance, total]
  | cons s l ih =>
    obtain ⟨k, q⟩ := s
    obtain ⟨hpos, hklo, hkhi⟩ := hl (k, q) (by simp)
    have hk := hafter (k, q) (by simp)
    obtain ⟨hfirst, hordered⟩ := List.pairwise_cons.mp horder
    simp only at hpos hklo hkhi hk hfirst
    have hcons : packets isn ((k, q) :: l) = (isn.plus k, q) :: packets isn l := rfl
    rw [hcons, advance, SequenceNumber32.less_plus (by omega) (by omega), if_neg (by simpa using hk),
      SequenceNumber32.greater_plus (by omega) (by omega)]
    by_cases hgap : n < k
    · rw [if_pos (by simpa using hgap)]
      refine ⟨[], (k, q) :: l, n, rfl, rfl, ?_, by simp [total]⟩
      intro s hs
      rcases List.mem_cons.mp hs with rfl | hs
      · exact hgap
      · exact hgap.trans_le ((Nat.le_add_right _ _).trans (hfirst s hs))
    · obtain rfl : n = k := by omega
      have hend : lo ≤ n + q.length ∧ n + q.length < lo + 2 ^ 31 := ⟨by omega, hkhi⟩
      rw [if_neg (by simp)]
      simp only [show (isn.plus n).add q.get_size = isn.plus (n + q.length) from plus_get_size (by omega), clear_sack_list_spec hblocks hend]
      obtain ⟨run, rest, n', rfl, htiles, hrest, hadvance⟩ :=
        @ih (n + q.length) (avail + q.get_size) (blocks.filter fun x => n + q.length < x.2)
          (fun s hs => hl s (by simp [hs])) hordered hfirst hend
          fun x hx => hblocks x (List.mem_of_mem_filter hx)
      have hle : n + q.length ≤ n' := by
        rw [htiles.end_eq]
        exact Nat.le_add_right _ _
      have hclear : (if run = [] then blocks.filter fun x => n + q.length < x.2
          else (blocks.filter fun x => n + q.length < x.2).filter fun x => n' < x.2) = blocks.filter fun x => n' < x.2 := by
        split_ifs with hrun
        · subst hrun
          obtain rfl : n + q.length = n' := htiles
          rfl
        · rw [List.filter_filter]
          refine List.filter_congr fun x _ => ?_
          rw [Bool.eq_iff_iff, Bool.and_eq_true, decide_eq_true_eq, decide_eq_true_eq]
          omega
      refine ⟨(n, q) :: run, rest, n', rfl, ⟨rfl, htiles⟩, hrest, ?_⟩
      rw [if_neg (List.cons_ne_nil _ _), ← hclear]
      simp only [Option.bind_eq_bind, Option.bind_some, hadvance, Segments.total_cons, UInt32.ofNat_add]
      rw [← add_assoc]
      rfl

theorem advance_append (hheld : ∀ s ∈ held, Near lo s ∧ s.1 + s.2.length ≤ n) (hn : lo ≤ n ∧ n < lo + 2 ^ 31)
    (blocks : List SackBlock) (rest : List (SequenceNumber32 × PacketBytes)) :
    advance (isn.plus n) avail blocks (packets isn held ++ rest) = advance (isn.plus n) avail blocks rest := by
  induction held with
  | nil => rfl
  | cons s held ih =>
    obtain ⟨⟨hpos, hklo, hkhi⟩, hend⟩ := hheld s (by simp)
    have hcons : packets isn (s :: held) ++ rest = (isn.plus s.1, s.2) :: (packets isn held ++ rest) := rfl
    rw [hcons, advance, SequenceNumber32.less_plus (by omega) (by omega), if_pos (by simp; omega),
      ih fun s hs => hheld s (by simp [hs])]

/-- The first block that another one can be merged with, merged, and the others. -/
def join (begin : ℕ × ℕ) : List (ℕ × ℕ) → Option ((ℕ × ℕ) × List (ℕ × ℕ))
  | [] => none
  | x :: blocks =>
    if begin.1 = x.2 then some ((x.1, begin.2), blocks)
    else if begin.2 = x.1 then some ((begin.1, x.2), blocks)
    else (join begin blocks).map fun r => (r.1, x :: r.2)

/-- A block merged with others, for a number of turns. -/
def joins : ℕ → ℕ × ℕ → List (ℕ × ℕ) → List (ℕ × ℕ)
  | 0, begin, blocks => begin :: blocks
  | turns + 1, begin, blocks =>
    match join begin blocks with
    | none => begin :: blocks
    | some (merged, rest) => joins turns merged rest

section Blocks

variable {P : ℕ × ℕ → Prop} {begin : ℕ × ℕ}

theorem join_spec {r : (ℕ × ℕ) × List (ℕ × ℕ)} (h : join begin blocks = some r) :
    ∃ front x back, blocks = front ++ x :: back ∧ r.2 = front ++ back ∧
      (x.2 = begin.1 ∧ r.1 = (x.1, begin.2) ∨ begin.2 = x.1 ∧ r.1 = (begin.1, x.2)) := by
  induction blocks generalizing r with
  | nil => cases h
  | cons x blocks ih =>
    rw [join] at h
    split_ifs at h with hleft hright
    · cases h
      exact ⟨[], x, blocks, rfl, rfl, .inl ⟨hleft.symm, rfl⟩⟩
    · cases h
      exact ⟨[], x, blocks, rfl, rfl, .inr ⟨hright, rfl⟩⟩
    · obtain ⟨r', hr', rfl⟩ := Option.map_eq_some_iff.mp h
      obtain ⟨front, y, back, rfl, hrest, hmerged⟩ := ih hr'
      exact ⟨x :: front, y, back, rfl, by rw [hrest]; rfl, hmerged⟩

theorem join_none (h : join begin blocks = none) : ∀ x ∈ blocks, begin.1 ≠ x.2 ∧ begin.2 ≠ x.1 := by
  induction blocks with
  | nil => simp
  | cons x blocks ih =>
    rw [join] at h
    split_ifs at h with hleft hright
    exact List.forall_mem_cons.mpr ⟨⟨hleft, hright⟩, ih (Option.map_eq_none_iff.mp h)⟩

theorem joins_forall (hjoin : ∀ x y, P x → P y → x.2 = y.1 → P (x.1, y.2)) (turns : ℕ) (hbegin : P begin)
    (hblocks : ∀ x ∈ blocks, P x) : ∀ x ∈ joins turns begin blocks, P x := by
  induction turns generalizing begin blocks with
  | zero => exact List.forall_mem_cons.mpr ⟨hbegin, hblocks⟩
  | succ turns ih =>
    rw [joins]
    cases heq : join begin blocks with
    | none => exact List.forall_mem_cons.mpr ⟨hbegin, hblocks⟩
    | some r =>
      obtain ⟨front, y, back, rfl, hrest, hmerged⟩ := join_spec heq
      have hy : P y := hblocks y (by simp)
      refine ih ?_ fun z hz => hblocks z ?_
      · rcases hmerged with ⟨hleft, heq⟩ | ⟨hright, heq⟩
        · rw [heq]
          exact hjoin y begin hy hbegin hleft
        · rw [heq]
          exact hjoin begin y hbegin hy hright
      · rw [hrest] at hz
        rcases List.mem_append.mp hz with hz | hz <;> simp [hz]

/-- A block inside the half range of positions that starts at `lo`. -/
def NearBlock (lo : ℕ) (x : ℕ × ℕ) : Prop := lo ≤ x.1 ∧ x.1 < x.2 ∧ x.2 < lo + 2 ^ 31

variable (isn) in
theorem merge_block_eq (hbegin : NearBlock lo begin) (hblocks : ∀ x ∈ blocks, NearBlock lo x) :
    merge_block (isn.plus begin.1, isn.plus begin.2) (sacks isn blocks) =
      some ((join begin blocks).map fun r => ((isn.plus r.1.1, isn.plus r.1.2), sacks isn r.2)) := by
  obtain ⟨hlo, hlt, hhi⟩ := hbegin
  induction blocks with
  | nil => rfl
  | cons x blocks ih =>
    obtain ⟨hxlo, hxlt, hxhi⟩ := hblocks x (by simp)
    have hcons : sacks isn (x :: blocks) = (isn.plus x.1, isn.plus x.2) :: sacks isn blocks := rfl
    rw [hcons, merge_block, join]
    simp only [SequenceNumber32.plus_inj (b := isn) (m := begin.1) (n := x.2) (by omega) (by omega),
      SequenceNumber32.plus_inj (b := isn) (m := begin.2) (n := x.1) (by omega) (by omega)]
    by_cases hleft : begin.1 = x.2
    · rw [if_pos hleft, if_pos hleft, SequenceNumber32.less_plus (by omega) (by omega), if_pos (by simp; omega)]
      rfl
    rw [if_neg hleft, if_neg hleft]
    by_cases hright : begin.2 = x.1
    · rw [if_pos hright, if_pos hright, SequenceNumber32.less_plus (by omega) (by omega), if_pos (by simp; omega)]
      rfl
    · rw [if_neg hright, if_neg hright, ih fun y hy => hblocks y (by simp [hy])]
      cases join begin blocks <;> rfl

variable (isn) in
theorem merge_blocks_eq (turns : ℕ) (hbegin : NearBlock lo begin) (hblocks : ∀ x ∈ blocks, NearBlock lo x) :
    merge_blocks turns (isn.plus begin.1, isn.plus begin.2) (sacks isn blocks) =
      some (sacks isn (joins turns begin blocks)) := by
  induction turns generalizing begin blocks with
  | zero => rfl
  | succ turns ih =>
    have hnext : ∀ r, join begin blocks = some r → NearBlock lo r.1 ∧ ∀ x ∈ r.2, NearBlock lo x := by
      intro r hr
      obtain ⟨front, y, back, rfl, hrest, hmerged⟩ := join_spec hr
      obtain ⟨hlo, hlt, hhi⟩ := hbegin
      obtain ⟨hylo, hylt, hyhi⟩ := hblocks y (by simp)
      refine ⟨?_, fun z hz => hblocks z ?_⟩
      · rcases hmerged with ⟨hleft, heq⟩ | ⟨hright, heq⟩ <;> rw [heq] <;> exact ⟨by omega, by simp only; omega, by omega⟩
      · rw [hrest] at hz
        rcases List.mem_append.mp hz with hz | hz <;> simp [hz]
    rw [merge_blocks, merge_block_eq isn hbegin hblocks, joins]
    cases heq : join begin blocks with
    | none => rfl
    | some r =>
      obtain ⟨hfirst, hothers⟩ := hnext r heq
      exact ih hfirst hothers

end Blocks

theorem extract_loop_zero (next : SequenceNumber32) (out : PacketBytes)
    (data : List (SequenceNumber32 × PacketBytes)) :
    extract_loop next 0 size avail out data = some (out, size, avail, data) := by
  cases data <;> rw [extract_loop, if_pos rfl]

variable (isn) in
theorem extract_loop_spec {stream : PacketBytes} (size avail : UInt32) (out : PacketBytes) {a e : ℕ} (htiles : Tiles a held n)
    (hparts : ∀ s ∈ held, Part stream s) (hl : ∀ s ∈ held ++ later, Near lo s) (hlater : ∀ s ∈ later, n ≤ s.1)
    (hm : n ≤ m ∧ m < lo + 2 ^ 31) (he : a + e ≤ n) (hlo : lo ≤ a) :
    ∃ rest, extract_loop (isn.plus m) (UInt32.ofNat e) size avail out (packets isn (held ++ later)) =
        some (out ++ (content held).take e, size - UInt32.ofNat e, avail - UInt32.ofNat e,
          packets isn (rest ++ later)) ∧
      Tiles (a + e) rest n ∧ ∀ s ∈ rest, Part stream s := by
  induction held generalizing a e size avail out with
  | nil =>
    obtain rfl : a = n := htiles
    obtain rfl : e = 0 := by omega
    refine ⟨[], ?_, rfl, fun s hs => absurd hs List.not_mem_nil⟩
    exact (extract_loop_zero _ out _).trans (by simp)
  | cons s held ih =>
    obtain ⟨k, q⟩ := s
    obtain ⟨hk, hrest⟩ := htiles
    obtain rfl : k = a := hk
    obtain ⟨hpos, hklo, hkhi⟩ := hl (k, q) (by simp)
    simp only at hpos hklo hkhi hrest
    have hend := hrest.end_eq
    rcases Nat.eq_zero_or_pos e with rfl | hsome
    · exact ⟨(k, q) :: held, (extract_loop_zero _ out _).trans (by simp), ⟨rfl, hrest⟩, hparts⟩
    have helt : e < 2 ^ 32 := by omega
    have hne : UInt32.ofNat e ≠ 0 := fun heq => by
      have hzero := congrArg UInt32.toNat heq
      rw [UInt32.toNat_ofNat_of_lt' helt] at hzero
      exact absurd hzero hsome.ne'
    have hcons : packets isn ((k, q) :: held ++ later) = (isn.plus k, q) :: packets isn (held ++ later) := rfl
    have hcontent : content ((k, q) :: held) = q ++ content held := List.flatMap_cons
    have hfirst : ∀ s ∈ held ++ later, k + q.length ≤ s.1 := fun s hs =>
      (List.mem_append.mp hs).elim (fun hs => (hrest.mem hs).1) fun hs => (by omega : k + q.length ≤ n).trans (hlater s hs)
    rw [hcons, extract_loop, if_neg hne, SequenceNumber32.less_equal_plus (by omega) (by omega), if_pos (by simp; omega)]
    simp only [PacketBytes.get_size, UInt32.le_iff_toNat_le, UInt32.toNat_ofNat_of_lt' helt,
      UInt32.toNat_ofNat_of_lt' (show q.length < UInt32.size by rw [UInt32.size]; omega)]
    by_cases hwhole : q.length ≤ e
    · rw [if_pos hwhole]
      have hsplit : UInt32.ofNat e = UInt32.ofNat q.length + UInt32.ofNat (e - q.length) := by
        rw [← UInt32.ofNat_add, Nat.add_sub_cancel' hwhole]
      have hsub : UInt32.ofNat e - UInt32.ofNat q.length = UInt32.ofNat (e - q.length) := by
        rw [hsplit]
        grind
      have hsubs : ∀ x : UInt32, x - UInt32.ofNat q.length - UInt32.ofNat (e - q.length) = x - UInt32.ofNat e := by
        intro x
        rw [hsplit]
        grind
      obtain ⟨rest, heq, htiles', hparts'⟩ := @ih (size - UInt32.ofNat q.length)
        (avail - UInt32.ofNat q.length) (out ++ q) _ (e - q.length) hrest (fun s hs => hparts s (by simp [hs]))
        (fun s hs => hl s (List.mem_cons_of_mem _ hs)) (by omega) (by omega)
      refine ⟨rest, ?_, by rwa [show k + q.length + (e - q.length) = k + e by omega] at htiles', hparts'⟩
      rw [hsub, heq, hsubs, hsubs, hcontent, List.take_append, List.append_assoc,
        List.take_of_length_le (l := q) hwhole]
    · rw [if_neg hwhole]
      have hinside : e < q.length := by omega
      have htaken : q.create_fragment 0 (UInt32.ofNat e) = some (q.take e) := by
        have hspec : q.create_fragment (UInt32.ofNat 0) (UInt32.ofNat e) = _ :=
          PacketBytes.create_fragment_spec (by omega) (by omega)
        simpa using hspec
      have hdiff : UInt32.ofNat q.length - UInt32.ofNat e = UInt32.ofNat (q.length - e) := by
        rw [show UInt32.ofNat q.length = UInt32.ofNat e + UInt32.ofNat (q.length - e) by
          rw [← UInt32.ofNat_add, Nat.add_sub_cancel' hinside.le]]
        grind
      have hleft : q.create_fragment (UInt32.ofNat e) (UInt32.ofNat q.length - UInt32.ofNat e) = some (q.drop e) := by
        rw [hdiff, PacketBytes.create_fragment_spec (by omega) (by omega),
          List.take_of_length_le (by rw [List.length_drop])]
      have hassign : assign ((isn.plus k).add (UInt32.ofNat e)) (q.drop e) (packets isn ((k, q) :: held ++ later)) =
          (isn.plus k, q) :: packets isn ((k + e, q.drop e) :: held ++ later) := by
        rw [SequenceNumber32.plus_add, UInt32.toNat_ofNat_of_lt' helt,
          assign_packets hl (by omega) fun s hs => ?_]
        · rw [List.cons_append, List.cons_append, place, if_pos (by simp only; omega)]
          cases hrests : held ++ later with
          | nil => rfl
          | cons t l =>
            have hle := hfirst t (by simp [hrests])
            rw [place, if_neg (by simp only; omega)]
            rfl
        · rcases List.mem_cons.mp hs with rfl | hs
          · simp only
            omega
          · have hle := hfirst s hs
            omega
      refine ⟨(k + e, q.drop e) :: held, ?_, ⟨rfl, ?_⟩, ?_⟩
      · rw [htaken, hleft, hcontent, List.take_append_of_le_length hinside.le, ← hcons]
        simp only [Option.bind_eq_bind, Option.bind_some, hassign, List.erase_cons_head]
      · rw [List.length_drop, show k + e + (q.length - e) = k + q.length by omega]
        exact hrest
      · exact List.forall_mem_cons.mpr ⟨(hparts (k, q) (by simp)).drop hinside, fun s hs => hparts s (by simp [hs])⟩

end Ns3.TcpRxBuffer
