import Ns3.Internet.TcpRxBuffer.Placed
import Ns3.Foundation.Reachable

namespace Ns3.TcpRxBuffer

open Transition
open Segments (Ordered Tiles Covered total place)

/-- A receive buffer with what its SACK list leaves out: the blocks that were cut off the list and are not yet passed,
whether a segment has replaced packets that it embeds, and the range that the last `Add` has stored. -/
structure SackRun where
  buffer : TcpRxBuffer
  dropped : List SackBlock := []
  embedded : Bool := false
  stored : Option SackBlock := none
deriving DecidableEq

/-- A call to the buffer. -/
inductive SackEvent
  | add (p : PacketBytes) (seq : SequenceNumber32)
  | extract (max_size : UInt32)
  | set_fin_sequence (s : SequenceNumber32)
  | set_max_buffer_size (s : UInt32)

/-- The blocks that `UpdateSackList` cuts off. -/
def cut_off (b : TcpRxBuffer) (r : SackBlock) : List SackBlock :=
  if r.1.greater b.next_rx_seq then ((merge_blocks b.sack_list.length r b.sack_list).getD []).drop 4 else []

namespace SackRun

def step (j : SackRun) : SackEvent → Option SackRun
  | .add p seq => do
    let (stored, b) ← j.buffer.add p seq
    let o := overlap_of j.buffer p seq
    if stored then
      return {
        buffer := b
        dropped := (j.dropped ++ cut_off j.buffer (o.head, o.tail)).filter fun y => !y.2.less_equal b.next_rx_seq
        embedded := j.embedded || decide (o.data.length < j.buffer.data.length)
        stored := some (o.head, o.tail) }
    else return { j with buffer := b, stored := none }
  | .extract max_size => (j.buffer.extract max_size).map fun r => { j with buffer := r.2, stored := none }
  | .set_fin_sequence s => some { j with buffer := j.buffer.set_fin_sequence s, stored := none }
  | .set_max_buffer_size s => some { j with buffer := j.buffer.set_max_buffer_size s, stored := none }

/-- No data comes after the FIN, and no number that is compared with another one is half the range away. -/
def Admitted (j : SackRun) : SackEvent → Prop
  | .add p seq =>
    Spans31 ((seq, p.length) :: ((if j.buffer.got_fin then [(j.buffer.fin_seq, 1)] else []) ++ j.buffer.ranges)) ∧
      (j.buffer.got_fin = true → (seq.add p.get_size).less_equal j.buffer.fin_seq = true ∧
        ∀ e ∈ j.buffer.data, (e.1.add e.2.get_size).less_equal j.buffer.fin_seq = true)
  | .set_fin_sequence s =>
    Spans31 ((s, 1) :: j.buffer.ranges) ∧ ∀ e ∈ j.buffer.data, (e.1.add e.2.get_size).less_equal s = true
  | _ => True

instance (j : SackRun) (e : SackEvent) : Decidable (j.Admitted e) :=
  match e with
  | .add .. => inferInstanceAs (Decidable (_ ∧ _))
  | .extract _ => inferInstanceAs (Decidable True)
  | .set_fin_sequence _ => inferInstanceAs (Decidable (_ ∧ _))
  | .set_max_buffer_size _ => inferInstanceAs (Decidable True)

def Initial (j : SackRun) : Prop := ∃ n max, j = { buffer := { next_rx_seq := n, max_buffer := max } }

end SackRun

def InBlock (y : SackBlock) (x : SequenceNumber32) : Prop := x.value - y.1.value < y.2.value - y.1.value

def HoldsByte (b : TcpRxBuffer) (x : SequenceNumber32) : Prop :=
  ∃ e ∈ b.data, (x.value - e.1.value).toNat < e.2.length

instance (y : SackBlock) (x : SequenceNumber32) : Decidable (InBlock y x) := inferInstanceAs (Decidable (_ < _))

instance (b : TcpRxBuffer) (x : SequenceNumber32) : Decidable (HoldsByte b x) :=
  inferInstanceAs (Decidable (∃ e ∈ b.data, _))

/-- The blocks report what the buffer holds. They are apart, and the first one is the run of bytes around those that
were stored last, up to blocks that were cut off the list, unless a segment has replaced packets that it embeds. -/
structure SackRun.Correct (j : SackRun) : Prop where
  count : j.buffer.sack_list.length ≤ 4
  blocks : ∀ y ∈ j.buffer.sack_list, y.1.less y.2 = true ∧ j.buffer.next_rx_seq.less y.1 = true ∧
    ∀ x, InBlock y x → HoldsByte j.buffer x
  apart : j.embedded = false → j.buffer.sack_list.Pairwise fun y z =>
    y.2 ≠ z.1 ∧ z.2 ≠ y.1 ∧ ∀ x, ¬ (InBlock y x ∧ InBlock z x)
  first : j.embedded = false → ∀ r ∈ j.stored, j.buffer.next_rx_seq.less r.1 = true →
    ∃ c rest, j.buffer.sack_list = c :: rest ∧ (∀ x, InBlock r x → InBlock c x) ∧
      ∀ x, x.increment = c.1 ∨ x = c.2 → HoldsByte j.buffer x → ∃ y ∈ j.dropped, InBlock y x

/-! ### Blocks at positions -/

def Within (y : ℕ × ℕ) (i : ℕ) : Prop := y.1 ≤ i ∧ i < y.2

/-- Blocks that have a position between them. -/
def Apart (y z : ℕ × ℕ) : Prop := y.2 < z.1 ∨ z.2 < y.1

variable {isn : SequenceNumber32} {b b' : TcpRxBuffer} {l kept held later : List (ℕ × PacketBytes)} {n lo m : ℕ}
  {f : ℕ × PacketBytes} {begin y z : ℕ × ℕ} {blocks : List (ℕ × ℕ)} {turns : ℕ}

/-- Merging leaves blocks apart that were so, when the new one overlaps none, and they cover the same positions. -/
theorem joins_spec (hturns : blocks.length ≤ turns) (hbegin : begin.1 < begin.2) (hblocks : ∀ y ∈ blocks, y.1 < y.2)
    (hapart : blocks.Pairwise Apart) (hclear : ∀ y ∈ blocks, y.2 ≤ begin.1 ∨ begin.2 ≤ y.1) :
    ∃ c rest, joins turns begin blocks = c :: rest ∧ rest.length ≤ blocks.length ∧ (c :: rest).Pairwise Apart ∧
      c.1 ≤ begin.1 ∧ begin.2 ≤ c.2 ∧
      ∀ i, Within begin i ∨ (∃ y ∈ blocks, Within y i) → ∃ y ∈ c :: rest, Within y i := by
  induction turns generalizing begin blocks with
  | zero =>
    obtain rfl := List.length_eq_zero_iff.mp (Nat.le_zero.mp hturns)
    exact ⟨begin, [], rfl, le_rfl, List.pairwise_singleton .., le_rfl, le_rfl, by simp⟩
  | succ turns ih =>
    rw [joins]
    cases heq : join begin blocks with
    | none =>
      refine ⟨begin, blocks, rfl, le_rfl, List.pairwise_cons.mpr ⟨fun y hy => ?_, hapart⟩, le_rfl, le_rfl, ?_⟩
      · have hne := join_none heq y hy
        have hdisjoint := hclear y hy
        unfold Apart
        omega
      · rintro i (hi | ⟨y, hy, hi⟩)
        · exact ⟨begin, by simp, hi⟩
        · exact ⟨y, by simp [hy], hi⟩
    | some r =>
      obtain ⟨merged, others⟩ := r
      obtain ⟨front, y, back, rfl, rfl, hmerged⟩ := join_spec heq
      have hy := hblocks y (by simp)
      have hmem : ∀ z ∈ front ++ back, z ∈ front ++ y :: back ∧ Apart y z := by
        intro z hz
        rw [List.pairwise_append, List.pairwise_cons] at hapart
        rcases List.mem_append.mp hz with hz | hz
        · exact ⟨by simp [hz], Or.symm (hapart.2.2 z hz y (by simp))⟩
        · exact ⟨by simp [hz], hapart.2.1.1 z hz⟩
      have hunion : merged.1 < merged.2 ∧ merged.1 ≤ begin.1 ∧ begin.2 ≤ merged.2 ∧
          (∀ z, Apart y z → z.1 < z.2 → z.2 ≤ begin.1 ∨ begin.2 ≤ z.1 → z.2 ≤ merged.1 ∨ merged.2 ≤ z.1) ∧
          ∀ i, Within begin i ∨ Within y i → Within merged i := by
        unfold Apart Within
        rcases hmerged with ⟨hleft, rfl⟩ | ⟨hright, rfl⟩ <;> refine ⟨by simp only; omega, by simp only; omega, by simp only; omega, ?_, ?_⟩ <;> simp only <;> omega
      obtain ⟨hlt, hstart, hstop, hseparate, hcover⟩ := hunion
      obtain ⟨c, rest, hjoins, hlength, hpairwise, hle, hge, hall⟩ :=
        @ih merged (front ++ back) (by simp at hturns ⊢; omega) hlt
          (fun z hz => hblocks z (hmem z hz).1) (hapart.sublist (by simp))
          fun z hz => hseparate z (hmem z hz).2 (hblocks z (hmem z hz).1) (hclear z (hmem z hz).1)
      refine ⟨c, rest, hjoins, by simp at hlength ⊢; omega, hpairwise, hle.trans hstart, hstop.trans hge, ?_⟩
      rintro i (hi | ⟨z, hz, hi⟩)
      · exact hall i (.inl (hcover i (.inl hi)))
      · rcases List.mem_append.mp hz with hz | hz
        · exact hall i (.inr ⟨z, by simp [hz], hi⟩)
        · rcases List.mem_cons.mp hz with rfl | hz
          · exact hall i (.inl (hcover i (.inr hi)))
          · exact hall i (.inr ⟨z, by simp [hz], hi⟩)

theorem length_joins : (joins turns begin blocks).length ≤ blocks.length + 1 := by
  induction turns generalizing begin blocks with
  | zero => exact le_rfl
  | succ turns ih =>
    rw [joins]
    cases heq : join begin blocks with
    | none => exact le_rfl
    | some r =>
      obtain ⟨front, y, back, rfl, hrest, -⟩ := join_spec heq
      have hle := @ih r.1 r.2
      rw [hrest] at hle
      simp only [List.length_append, List.length_cons] at hle ⊢
      simp only [hrest]
      omega

theorem Reports.near (h : Reports later n y) (hlo : lo ≤ n) (hnear : ∀ s ∈ later, Near lo s) : NearBlock lo y := by
  obtain ⟨hy, hlt, hcovered⟩ := h
  obtain ⟨s, hs, hin⟩ := hcovered (y.2 - 1) (by omega) (by omega)
  have hend := (hnear s hs).2.2
  exact ⟨by omega, hlt, by omega⟩

/-- The packets in sequence stay when a packet after them is stored. -/
theorem Stored.keeps_held (h : Stored (held ++ later) kept f) (hf : n ≤ f.1) (hpos : ∀ s ∈ held, 0 < s.2.length)
    (hbefore : ∀ s ∈ held, s.1 + s.2.length ≤ n) (hgap : ∀ s ∈ later, n < s.1) (horder : Ordered held) :
    ∃ kept', kept = held ++ kept' ∧ Stored later kept' f := by
  obtain ⟨front, kept', rfl, hfront, hkept'⟩ := List.sublist_append_iff.mp h.sublist
  have hsubset : held ⊆ front := by
    intro s hs
    have hend := hbefore s hs
    have hlength := hpos s hs
    rcases h.erased s (by simp [hs]) with hmem | hmem
    · refine (List.mem_append.mp hmem).resolve_right fun hlater => ?_
      have hstart := hgap s (hkept'.mem hlater)
      omega
    · omega
  have hnodup : held.Nodup := horder.imp_of_mem fun {s t} hs _ hst heq => by
    have hlength := hpos s hs
    subst heq
    omega
  obtain rfl : front = held := hfront.eq_of_length_le (hnodup.subperm hsubset).length_le
  refine ⟨kept', rfl, hkept', fun s hs => h.clear s (by simp [hs]), fun s hs => ?_⟩
  refine (h.erased s (by simp [hs])).imp_left fun hmem => (List.mem_append.mp hmem).resolve_left fun hin => ?_
  have hend := hbefore s hin
  have hstart := hgap s hs
  omega

/-- The state of the buffer and its blocks at positions: `held` are the packets in sequence, `later` those after a gap,
and `cut` the blocks that have been cut off the list. -/
structure Reported (isn : SequenceNumber32) (j : SackRun) (held later : List (ℕ × PacketBytes)) (n lo : ℕ)
    (blocks cut : List (ℕ × ℕ)) : Prop where
  placed : Placed isn j.buffer (held ++ later) n lo
  before : ∀ s ∈ held, s.1 + s.2.length ≤ n
  gap : ∀ s ∈ later, n < s.1
  avail : j.buffer.avail_bytes = UInt32.ofNat (total held)
  list : j.buffer.sack_list = sacks isn blocks
  dropped : j.dropped = sacks isn cut
  reports : ∀ y ∈ blocks ++ cut, Reports later n y
  count : blocks.length ≤ 4
  apart : j.embedded = false → blocks.Pairwise Apart
  covers : j.embedded = false → ∀ i, Covered later i → ∃ y ∈ blocks ++ cut, Within y i

/-- The first block is around the range stored last. -/
def Leads (isn : SequenceNumber32) (j : SackRun) (n lo : ℕ) (blocks : List (ℕ × ℕ)) : Prop :=
  j.embedded = false → ∀ r ∈ j.stored, n < lo + 2 ^ 31 ∧ ∃ x, NearBlock lo x ∧ r = (isn.plus x.1, isn.plus x.2) ∧
    (n < x.1 → ∃ c rest, blocks = c :: rest ∧ c.1 ≤ x.1 ∧ x.2 ≤ c.2)

/-- The list after the block of a new packet is put in. -/
def updated (f : ℕ × PacketBytes) (n : ℕ) (blocks : List (ℕ × ℕ)) : List (ℕ × ℕ) :=
  if n < f.1 then joins blocks.length (f.1, f.1 + f.2.length) blocks else blocks

theorem update_eq (hnext : b.next_rx_seq = isn.plus n) (hlist : b.sack_list = sacks isn blocks) (hlo : lo ≤ n)
    (hf : Near lo f) (hn : n < lo + 2 ^ 31) (hcount : blocks.length ≤ 4) (hblocks : ∀ y ∈ blocks, NearBlock lo y) :
    (if (isn.plus f.1).greater b.next_rx_seq = true then
        b.update_sack_list (isn.plus f.1) (isn.plus (f.1 + f.2.length)) else some b.sack_list) =
      some (sacks isn ((updated f n blocks).take 4)) ∧
    b.cut_off (isn.plus f.1, isn.plus (f.1 + f.2.length)) = sacks isn ((updated f n blocks).drop 4) := by
  obtain ⟨hpos, hflo, hfhi⟩ := hf
  have hmerge := @merge_blocks_eq isn lo blocks (f.1, f.1 + f.2.length) blocks.length ⟨hflo, by simp only; omega, hfhi⟩ hblocks
  have hlength := @length_joins (f.1, f.1 + f.2.length) blocks blocks.length
  rw [updated, cut_off, update_sack_list]
  simp only [hnext, hlist, SequenceNumber32.greater_plus (b := isn) (m := f.1) (n := n) (by omega) (by omega),
    decide_eq_true_eq]
  by_cases hgap : n < f.1
  · have hsize : (sacks isn blocks).length = blocks.length := by rw [sacks, List.length_map]
    simp only [if_pos hgap, hsize]
    simp only at hmerge
    rw [hmerge]
    refine ⟨?_, by rw [Option.getD_some, sacks, ← List.map_drop]; rfl⟩
    rw [Option.map_some, sacks, List.length_map, Option.some.injEq]
    split_ifs with hfull
    · rw [← List.map_dropLast, List.dropLast_eq_take, show _ - 1 = 4 by omega]
      rfl
    · rw [List.take_of_length_le (by omega)]
      rfl
  · simp only [if_neg hgap]
    rw [List.take_of_length_le hcount, List.drop_eq_nil_of_le hcount]
    exact ⟨rfl, rfl⟩

theorem Reports.clear (h : Reports later n y) (hpos : 0 < f.2.length)
    (hclear : ∀ s ∈ later, s.1 + s.2.length ≤ f.1 ∨ f.1 + f.2.length ≤ s.1) :
    y.2 ≤ f.1 ∨ f.1 + f.2.length ≤ y.1 := by
  by_contra hoverlap
  obtain ⟨s, hs, hin⟩ := h.2.2 (max y.1 f.1) (le_max_left _ _) (by have := h.2.1; omega)
  have hs := hclear s hs
  omega

theorem updated_reports (hf : 0 < f.2.length)
    (hblocks : ∀ y ∈ blocks, Reports (place f kept) n y) : ∀ y ∈ updated f n blocks, Reports (place f kept) n y := by
  rw [updated]
  split_ifs with hgap
  · refine joins_forall ?_ _ ⟨hgap, by simp only; omega, fun i hle hlt =>
      ⟨f, Segments.mem_place.mpr (.inl rfl), hle, hlt⟩⟩ hblocks
    rintro y z ⟨hy, hylt, hycovered⟩ ⟨_, hzlt, hzcovered⟩ heq
    refine ⟨hy, by simp only; omega, fun i hle hlt => ?_⟩
    rcases Nat.lt_or_ge i y.2 with hin | hin
    · exact hycovered i hle hin
    · exact hzcovered i (by omega) hlt
  · exact hblocks

theorem updated_spec (hpos : 0 < f.2.length) (hblocks : ∀ y ∈ blocks, y.1 < y.2) (hapart : blocks.Pairwise Apart)
    (hclear : ∀ y ∈ blocks, y.2 ≤ f.1 ∨ f.1 + f.2.length ≤ y.1) :
    (updated f n blocks).Pairwise Apart ∧
      (∀ i, (n < f.1 ∧ Within (f.1, f.1 + f.2.length) i) ∨ (∃ y ∈ blocks, Within y i) →
        ∃ y ∈ updated f n blocks, Within y i) ∧
      (n < f.1 → ∃ c rest, updated f n blocks = c :: rest ∧ c.1 ≤ f.1 ∧ f.1 + f.2.length ≤ c.2) := by
  rw [updated]
  split_ifs with hgap
  · obtain ⟨c, rest, hjoins, -, hpairwise, hle, hge, hcovers⟩ :=
      @joins_spec (f.1, f.1 + f.2.length) blocks blocks.length le_rfl (by simp only; omega) hblocks hapart hclear
    rw [hjoins]
    exact ⟨hpairwise, fun i hi => hcovers i (hi.imp_left fun h => h.2), fun _ => ⟨c, rest, rfl, hle, hge⟩⟩
  · exact ⟨hapart, fun i hi => hi.resolve_left fun h => hgap h.1, fun h => absurd h hgap⟩

section Add

variable {j : SackRun} {cut : List (ℕ × ℕ)} {p : PacketBytes} {a : ℕ} {x : SequenceNumber32}

theorem fin_reached {rest : List (ℕ × PacketBytes)} {x : ℕ} (hrest : ∀ s ∈ rest, n < s.1)
    (hend : ∀ s ∈ rest, s.1 + s.2.length ≤ x) (heq : isn.plus n = isn.plus x) (hx : x < n + 2 ^ 32)
    (hn : n < x + 2 ^ 32) : rest = [] := by
  rw [SequenceNumber32.plus_inj (by omega) (by omega)] at heq
  refine List.eq_nil_iff_forall_not_mem.mpr fun s hs => ?_
  have hstart := hrest s hs
  have hstop := hend s hs
  omega

theorem covers_rest {run rest : List (ℕ × PacketBytes)} {n' k : ℕ} (hgap : ∀ s ∈ rest, k < s.1) (hle : n' ≤ k)
    (hsplit : place f kept = run ++ rest) (hn : n ≤ f.1) (htiles : Tiles n run n') (hsub : kept.Sublist later)
    (hold : ∀ i, Covered later i → ∃ y ∈ blocks ++ cut, Within y i)
    (hnew : ∀ i, (n < f.1 ∧ Within (f.1, f.1 + f.2.length) i) ∨ (∃ y ∈ blocks, Within y i) →
      ∃ y ∈ updated f n blocks, Within y i) :
    ∀ i, Covered rest i →
      ∃ y ∈ (if run = [] then (updated f n blocks).take 4 else ((updated f n blocks).take 4).filter fun y => n' < y.2) ++
        (cut ++ (updated f n blocks).drop 4).filter (fun y => k < y.2), Within y i := by
  rintro i ⟨s, hs, hin⟩
  have hi : k < i := (hgap s hs).trans_le hin.1
  have hmem : ∃ y ∈ updated f n blocks ++ cut, Within y i := by
    have hplaced : s ∈ place f kept := by
      rw [hsplit]
      exact List.mem_append_right _ hs
    rcases Segments.mem_place.mp hplaced with rfl | hkept
    · obtain ⟨y, hy, hiny⟩ := hnew i (.inl ⟨by
        have hend := htiles.end_eq
        have hgaps := hgap s hs
        omega, hin⟩)
      exact ⟨y, List.mem_append_left _ hy, hiny⟩
    · obtain ⟨y, hy, hiny⟩ := hold i ⟨s, hsub.mem hkept, hin⟩
      rcases List.mem_append.mp hy with hy | hy
      · obtain ⟨z, hz, hinz⟩ := hnew i (.inr ⟨y, hy, hiny⟩)
        exact ⟨z, List.mem_append_left _ hz, hinz⟩
      · exact ⟨y, List.mem_append_right _ hy, hiny⟩
  obtain ⟨y, hy, hiny⟩ := hmem
  have hlate : k < y.2 := hi.trans hiny.2
  refine ⟨y, ?_, hiny⟩
  rcases List.mem_append.mp hy with hy | hy
  · rw [← List.take_append_drop 4 (updated f n blocks), List.mem_append] at hy
    rcases hy with hy | hy
    · refine List.mem_append_left _ ?_
      split_ifs
      · exact hy
      · exact List.mem_filter.mpr ⟨hy, by simpa using hle.trans_lt hlate⟩
    · exact List.mem_append_right _ (List.mem_filter.mpr ⟨List.mem_append_right _ hy, by simpa using hlate⟩)
  · exact List.mem_append_right _ (List.mem_filter.mpr ⟨List.mem_append_left _ hy, by simpa using hlate⟩)

theorem filter_sacks {k : ℕ} (hblocks : ∀ y ∈ blocks, NearBlock lo y) (hlo : lo ≤ k) (hhi : k ≤ lo + 2 ^ 31) :
    ((sacks isn blocks).filter fun y => !y.2.less_equal (isn.plus k)) = sacks isn (blocks.filter fun y => k < y.2) := by
  rw [sacks, List.filter_map]
  refine congrArg _ (List.filter_congr fun y hy => ?_)
  obtain ⟨hylo, hylt, hyhi⟩ := hblocks y hy
  simp only [Function.comp_apply]
  rw [SequenceNumber32.less_equal_plus (by omega) (by omega), ← decide_not]
  exact decide_eq_decide.mpr not_le

theorem Reported.add_stored (h : Reported isn j held later n m blocks cut) (hnear : ∀ s ∈ held ++ later, Near lo s)
    (hn : lo ≤ n ∧ n < lo + 2 ^ 31) (hfits : Fits j.buffer p a (held ++ later) n f) (hspan : a + p.length < lo + 2 ^ 31)
    (hstored : Stored later kept f) (hsettles : Settles isn j.buffer (held ++ kept) f b')
    (hfin : j.buffer.got_fin = true → ∃ x, j.buffer.fin_seq = isn.plus x ∧ (lo ≤ x ∧ x + 1 < lo + 2 ^ 31) ∧
      ∀ s ∈ held ++ place f kept, s.1 + s.2.length ≤ x) :
    ∃ held' later' n' blocks' cut',
      Reported isn
        { buffer := b'
          dropped := (j.dropped ++ j.buffer.cut_off (isn.plus f.1, isn.plus (f.1 + f.2.length))).filter
            fun y => !y.2.less_equal b'.next_rx_seq
          embedded := j.embedded || decide (kept.length < later.length)
          stored := some (isn.plus f.1, isn.plus (f.1 + f.2.length)) } held' later' n' lo blocks' cut' ∧
      Leads isn
        { buffer := b'
          dropped := (j.dropped ++ j.buffer.cut_off (isn.plus f.1, isn.plus (f.1 + f.2.length))).filter
            fun y => !y.2.less_equal b'.next_rx_seq
          embedded := j.embedded || decide (kept.length < later.length)
          stored := some (isn.plus f.1, isn.plus (f.1 + f.2.length)) } n' lo blocks' := by
  have hf : Near lo f := ⟨hfits.pos, hn.1.trans hfits.next, hfits.stop.trans_lt hspan⟩
  have hfn := hfits.next
  have hpos : ∀ s ∈ held ++ later, 0 < s.2.length := fun s hs => (hnear s hs).1
  have hplace : place f (held ++ kept) = held ++ place f kept := Segments.place_append fun s hs => by
    have hend := h.before s hs
    have hlength := hpos s (by simp [hs])
    omega
  have hmem : ∀ s ∈ place f kept, s = f ∨ s ∈ later := fun s hs =>
    (Segments.mem_place.mp hs).imp_right fun hs => hstored.sublist.mem hs
  have hnear' : ∀ s ∈ place f kept, Near lo s := fun s hs => by
    rcases hmem s hs with rfl | hs
    · exact hf
    · exact hnear s (by simp [hs])
  have horder : Ordered (place f kept) :=
    Segments.Ordered.place
      (List.Pairwise.sublist hstored.sublist (List.Pairwise.sublist (List.sublist_append_right _ _) h.placed.ordered))
      (fun s hs => hpos s (List.mem_append_right _ (hstored.sublist.mem hs))) hstored.clear
  have hreports : ∀ y ∈ blocks ++ cut, Reports (place f kept) n y := fun y hy =>
    ⟨(h.reports y hy).1, (h.reports y hy).2.1, fun i hi hi' => hstored.covered ((h.reports y hy).2.2 i hi hi')⟩
  have hblocks : ∀ y ∈ blocks, NearBlock lo y := fun y hy =>
    (h.reports y (by simp [hy])).near hn.1 fun s hs => hnear s (by simp [hs])
  have hupdated := updated_reports hfits.pos fun y hy => hreports y (List.mem_append_left cut hy)
  obtain ⟨hupdate, hcut⟩ := update_eq h.placed.next h.list hn.1 hf hn.2 h.count hblocks
  obtain ⟨sacks₁, next, avail, sacks₂, hupdate', hadvance, rfl⟩ := hsettles
  obtain rfl := Option.some.inj (hupdate.symm.trans hupdate')
  have hwindow : ∀ y ∈ (updated f n blocks).take 4, lo ≤ y.1 ∧ y.1 < y.2 ∧ y.2 < lo + 2 ^ 31 := fun y hy =>
    (hupdated y (List.mem_of_mem_take hy)).near hn.1 hnear'
  obtain ⟨run, rest, n', hsplit, htiles, hgap, hadvanced⟩ :=
    advance_spec isn j.buffer.avail_bytes hnear' horder (fun s hs => by
      rcases hmem s hs with rfl | hs
      · exact hfn
      · exact (h.gap s hs).le) hn hwindow
  have hle : n ≤ n' := by
    rw [htiles.end_eq]
    exact Nat.le_add_right _ _
  rw [h.placed.next, hplace, packets_append, advance_append (fun s hs => ⟨hnear s (by simp [hs]), h.before s hs⟩) hn,
    hadvanced] at hadvance
  cases hadvance
  have hend : n' < lo + 2 ^ 31 := by
    have hle := htiles.end_le (c := lo + 2 ^ 31 - 1) (by omega) fun s hs => by
      have hs := (hnear' s (by simp [hsplit, hs])).2.2
      omega
    omega
  -- the expected number passes that of the FIN, behind which nothing is stored
  obtain ⟨k, hk, hkle, hkgap, hkhi⟩ : ∃ k,
      (if j.buffer.got_fin && isn.plus n' == j.buffer.fin_seq then (isn.plus n').increment else isn.plus n') = isn.plus k ∧
        n' ≤ k ∧ (∀ s ∈ rest, k < s.1) ∧ k < lo + 2 ^ 31 := by
    by_cases hreached : (j.buffer.got_fin && isn.plus n' == j.buffer.fin_seq) = true
    · rw [Bool.and_eq_true, beq_iff_eq] at hreached
      obtain ⟨x, hx, hxnear, hxend⟩ := hfin hreached.1
      have hnone : rest = [] := fin_reached hgap (fun s hs => hxend s (by simp [hsplit, hs])) (hreached.2.trans hx)
        (by omega) (by omega)
      refine ⟨n' + 1, by rw [if_pos (by simpa using hreached), SequenceNumber32.plus_increment], by omega, ?_, ?_⟩
      · simp [hnone]
      · have heq := hreached.2.trans hx
        rw [SequenceNumber32.plus_inj (by omega) (by omega)] at heq
        omega
    · exact ⟨n', if_neg hreached, le_rfl, hgap, hend⟩
  have hall : held ++ place f kept = (held ++ run) ++ rest := by rw [hsplit, List.append_assoc]
  have hnearall : ∀ s ∈ (held ++ run) ++ rest, Near lo s := fun s hs => by
    rw [← hall] at hs
    rcases List.mem_append.mp hs with hs | hs
    · exact hnear s (by simp [hs])
    · exact hnear' s hs
  have horderall : Ordered ((held ++ run) ++ rest) := by
    rw [← hall]
    refine Segments.Ordered.append (List.Pairwise.sublist (List.sublist_append_left _ _) h.placed.ordered) horder
      fun s hs t ht => ?_
    have hbefore := h.before s hs
    rcases hmem t ht with rfl | ht
    · omega
    · exact hbefore.trans (h.gap t ht).le
  have hfar := h.placed.far
  have hrun : ∀ y, Reports (place f kept) n y → (run ≠ [] → n' < y.2) → Reports rest k y := by
    intro y hy hlate
    have hrest := reports_rest htiles hgap hlate (hsplit ▸ hy)
    obtain ⟨s, hs, hin⟩ := hrest.2.2 y.1 le_rfl hrest.2.1
    exact ⟨(hkgap s hs).trans_le hin.1, hrest.2⟩
  have hdropped : ∀ y ∈ cut ++ (updated f n blocks).drop 4, Reports (place f kept) n y := by
    intro y hy
    rcases List.mem_append.mp hy with hy | hy
    · exact hreports y (List.mem_append_right _ hy)
    · exact hupdated y (List.mem_of_mem_drop hy)
  have hlisted : ∀ y ∈ (if run = [] then (updated f n blocks).take 4 else ((updated f n blocks).take 4).filter
      fun y => n' < y.2), Reports rest k y := by
    intro y hy
    split_ifs at hy with hempty
    · exact hrun y (hupdated y (List.mem_of_mem_take hy)) fun hne => absurd hempty hne
    · exact hrun y (hupdated y (List.mem_of_mem_take (List.mem_of_mem_filter hy))) fun _ => by
        simpa using List.of_mem_filter hy
  have hsame : (j.embedded || decide (kept.length < later.length)) = false → j.embedded = false ∧ kept = later := by
    rw [Bool.or_eq_false_iff, decide_eq_false_iff_not, not_lt]
    exact fun hno => ⟨hno.1, hstored.sublist.eq_of_length_le hno.2⟩
  have hspec : j.embedded = false → kept = later → _ := fun hno heq =>
    updated_spec (n := n) hfits.pos (fun y hy => (hblocks y hy).2.1) (h.apart hno) fun y hy =>
      (h.reports y (List.mem_append_left _ hy)).clear hfits.pos (heq ▸ hstored.clear)
  refine ⟨held ++ run, rest, k, _, (cut ++ (updated f n blocks).drop 4).filter fun y => k < y.2,
    ⟨⟨?_, hk, horderall, ?_, hnearall, by omega, hkhi.le, by omega⟩, ?_, hkgap, ?_, rfl, ?_, ?_, ?_, ?_, ?_⟩, ?_⟩
  · simp only [hplace, hall]
  · simp only [hplace, hall]
  · intro s hs
    rcases List.mem_append.mp hs with hs | hs
    · exact (h.before s hs).trans (by omega)
    · exact (htiles.mem hs).2.trans hkle
  · rw [h.avail, Segments.total_append, UInt32.ofNat_add]
  · simp only [hk]
    rw [h.dropped, hcut, ← filter_sacks (fun y hy => (hdropped y hy).near hn.1 hnear') (by omega) hkhi.le, sacks, sacks, sacks,
      List.map_append]
  · intro y hy
    rcases List.mem_append.mp hy with hy | hy
    · exact hlisted y hy
    · obtain ⟨hy, hlate⟩ := List.mem_filter.mp hy
      exact hrun y (hdropped y hy) fun _ => hkle.trans_lt (by simpa using hlate)
  · split_ifs
    · exact List.length_take_le _ _
    · exact (List.length_filter_le _ _).trans (List.length_take_le _ _)
  · intro hno
    obtain ⟨hno, heq⟩ := hsame hno
    have htake := (hspec hno heq).1.sublist (List.take_sublist 4 _)
    split_ifs
    · exact htake
    · exact htake.sublist List.filter_sublist
  · intro hno
    obtain ⟨hno, heq⟩ := hsame hno
    exact covers_rest hkgap hkle hsplit hfn htiles hstored.sublist (h.covers hno) (hspec hno heq).2.1
  · intro hno r hr
    obtain ⟨hno, heq⟩ := hsame hno
    obtain rfl := Option.some.inj hr
    refine ⟨hkhi, (f.1, f.1 + f.2.length), ⟨hf.2.1, by have := hf.1; simp only; omega, hf.2.2⟩, rfl, fun hafter => ?_⟩
    have hnone : run = [] := by
      cases run with
      | nil => rfl
      | cons s run =>
        obtain ⟨rfl, -⟩ := htiles
        rcases hmem s (by rw [hsplit]; simp) with rfl | hs
        · simp only at hafter
          omega
        · exact absurd (h.gap s hs) (lt_irrefl _)
    obtain ⟨c, rest', hupdated', hcle, hcge⟩ := (hspec hno heq).2.2 (by simp only at hafter; omega)
    rw [if_pos hnone, hupdated', List.take_succ_cons]
    exact ⟨c, _, rfl, hcle, hcge⟩

end Add

section Step

variable {j j' : SackRun} {cut : List (ℕ × ℕ)} {e : SackEvent}

theorem leads_of_none (hnone : j.stored = none) : Leads isn j n lo blocks := by
  intro _ r hr
  rw [hnone] at hr
  cases hr

theorem packet_end {s : ℕ × PacketBytes} (hs : Near lo s) :
    (isn.plus s.1).add (PacketBytes.get_size s.2) = isn.plus (s.1 + s.2.length) :=
  plus_get_size (by have := hs.2.1; have := hs.2.2; omega)

theorem Reported.add {p : PacketBytes} {seq : SequenceNumber32} (h : Reported isn j held later n lo blocks cut)
    (hadmitted : j.Admitted (.add p seq)) (hstep : j.step (.add p seq) = some j') :
    ∃ held' later' n' lo' blocks' cut',
      Reported isn j' held' later' n' lo' blocks' cut' ∧ Leads isn j' n' lo' blocks' := by
  obtain ⟨hspans, hfin⟩ := hadmitted
  obtain ⟨lo', hnear, hn, hfirst, hmarks⟩ := h.placed.base_of_spans hspans fun x hx => by simp [hx]
  obtain ⟨a, ha, halo, hahi⟩ := hmarks (seq, p.length) (by simp)
  simp only at ha hahi
  subst ha
  obtain ⟨⟨stored, b'⟩, hadd, hresult⟩ := Option.bind_eq_some_iff.mp hstep
  rcases h.placed.add_cases hnear (by omega) hfirst ⟨halo, hahi⟩ hadd with
    ⟨rfl, rfl⟩ | ⟨rfl, f, kept, hfits, hstored, hsettles, hoverlap⟩
  · cases hresult
    exact ⟨held, later, n, lo, blocks, cut, { h with }, leads_of_none rfl⟩
  obtain ⟨kept', rfl, hstored'⟩ := hstored.keeps_held hfits.next (fun s hs => (hnear s (by simp [hs])).1) h.before h.gap
    (List.Pairwise.sublist (List.sublist_append_left _ _) h.placed.ordered)
  have hreached : j.buffer.got_fin = true → ∃ x, j.buffer.fin_seq = isn.plus x ∧ (lo' ≤ x ∧ x + 1 < lo' + 2 ^ 31) ∧
      ∀ s ∈ held ++ place f kept', s.1 + s.2.length ≤ x := by
    intro hgot
    obtain ⟨x, hx, hxlo, hxhi⟩ := hmarks (j.buffer.fin_seq, 1) (by simp [hgot])
    simp only at hx hxhi
    obtain ⟨htail, hends⟩ := hfin hgot
    rw [hx, plus_get_size (by omega), SequenceNumber32.less_equal_plus (by omega) (by omega), decide_eq_true_eq] at htail
    refine ⟨x, hx, by omega, fun s hs => ?_⟩
    have hold : ∀ t ∈ held ++ later, t.1 + t.2.length ≤ x := by
      intro t ht
      have htnear := hnear t ht
      obtain ⟨hpos, htlo, hthi⟩ := id htnear
      have hend := hends (isn.plus t.1, t.2) (by rw [h.placed.data]; exact List.mem_map_of_mem ht)
      rw [packet_end htnear, hx, SequenceNumber32.less_equal_plus (by omega) (by omega)] at hend
      exact of_decide_eq_true hend
    rcases List.mem_append.mp hs with hs | hs
    · exact hold s (by simp [hs])
    · rcases Segments.mem_place.mp hs with rfl | hs
      · exact hfits.stop.trans htail
      · exact hold s (List.mem_append_right _ (hstored'.sublist.mem hs))
  have hlength : (kept'.length < later.length) = ((packets isn (held ++ kept')).length < j.buffer.data.length) := by
    rw [h.placed.data, packets, packets, List.length_map, List.length_map, List.length_append, List.length_append,
      Nat.add_lt_add_iff_left]
  simp only [hoverlap, if_true] at hresult
  cases hresult
  obtain ⟨held', later', n', blocks', cut', hreported, hleads⟩ :=
    h.add_stored hnear (by omega) hfits hahi hstored' hsettles hreached
  simp only [hlength] at hreported hleads
  exact ⟨held', later', n', lo', blocks', cut', hreported, hleads⟩

theorem Reported.extract {max_size : UInt32} {out : Option PacketBytes} (h : Reported isn j held later n lo blocks cut)
    (hextract : j.buffer.extract max_size = some (out, b')) :
    ∃ held', Reported isn { j with buffer := b', stored := none } held' later n lo blocks cut := by
  obtain ⟨e, hle, -, hplaced, rfl⟩ := h.placed.extract hextract
  have htotal : total held < 2 ^ 32 := by
    have hfits := Segments.Ordered.total_le (a := lo) (c := lo + 2 ^ 31)
      (List.Pairwise.sublist (List.sublist_append_left held later) h.placed.ordered)
      (fun s hs => (h.placed.near s (by simp [hs])).2.1) fun s hs => (h.placed.near s (by simp [hs])).2.2.le
    omega
  rw [h.avail, UInt32.le_iff_toNat_le, UInt32.toNat_ofNat_of_lt' (by rw [UInt32.size]; omega)] at hle
  have hcut : Cut held (remove_front e.toNat held) := remove_front_cut
  rw [remove_front_append hle] at hplaced ⊢
  refine ⟨remove_front e.toNat held, hplaced, fun s hs => ?_, h.gap, ?_, h.list, h.dropped, h.reports, h.count, h.apart,
    h.covers⟩
  · obtain ⟨t, ht, -, hend⟩ := hcut s hs
    rw [hend]
    exact h.before t ht
  · simp only [h.avail, ← total_remove_front hle, UInt32.ofNat_add, UInt32.ofNat_toNat]
    exact UInt32.add_sub_cancel _ _

/-- The FIN behind all data takes its number if that is the next one, and then nothing is stored after a gap. -/
theorem Reported.set_fin_sequence {x : SequenceNumber32} (h : Reported isn j held later n lo blocks cut)
    (hadmitted : j.Admitted (.set_fin_sequence x)) :
    ∃ n' lo', Reported isn { j with buffer := j.buffer.set_fin_sequence x, stored := none } held later n' lo' blocks cut := by
  obtain ⟨hspans, hends⟩ := hadmitted
  obtain ⟨lo', hnear, hn, -, hmarks⟩ := h.placed.base_of_spans hspans fun x hx => by simp [hx]
  obtain ⟨a, ha, halo, hahi⟩ := hmarks (x, 1) (by simp)
  simp only at ha hahi
  subst ha
  obtain ⟨n', hplaced, hle, hle'⟩ := h.placed.set_fin_sequence hnear (by omega) (isn.plus a)
  have hgap : ∀ s ∈ later, n' < s.1 := by
    intro s hs
    have hstart := h.gap s hs
    have hsnear := hnear s (List.mem_append_right _ hs)
    obtain ⟨hpos, hslo, hshi⟩ := id hsnear
    have hend := hends (isn.plus s.1, s.2) (by
      rw [h.placed.data]
      exact List.mem_map_of_mem (List.mem_append_right _ hs))
    rw [packet_end hsnear, SequenceNumber32.less_equal_plus (by omega) (by omega), decide_eq_true_eq] at hend
    -- the FIN is behind this packet, so that it does not take the number that is expected
    have hother : isn.plus n ≠ isn.plus a := fun heq => by
      rw [SequenceNumber32.plus_inj (by omega) (by omega)] at heq
      omega
    have hnext := hplaced.next
    rw [TcpRxBuffer.set_fin_sequence] at hnext
    simp only [h.placed.next, if_neg hother] at hnext
    rw [SequenceNumber32.plus_inj (by omega) (by omega)] at hnext
    omega
  refine ⟨n', lo', hplaced, fun s hs => (h.before s hs).trans hle, hgap, h.avail, h.list, h.dropped, fun y hy => ?_,
    h.count, h.apart, h.covers⟩
  obtain ⟨hy, hrest⟩ := h.reports y hy
  obtain ⟨s, hs, hin⟩ := hrest.2 y.1 le_rfl hrest.1
  exact ⟨(hgap s hs).trans_le hin.1, hrest⟩

theorem Reported.step (h : Reported isn j held later n lo blocks cut) (hadmitted : j.Admitted e)
    (hstep : j.step e = some j') :
    ∃ held' later' n' lo' blocks' cut',
      Reported isn j' held' later' n' lo' blocks' cut' ∧ Leads isn j' n' lo' blocks' := by
  cases e with
  | add p seq => exact h.add hadmitted hstep
  | extract max_size =>
    obtain ⟨⟨out, b'⟩, hextract, rfl⟩ := Option.map_eq_some_iff.mp hstep
    obtain ⟨held', h'⟩ := h.extract hextract
    exact ⟨held', later, n, lo, blocks, cut, h', leads_of_none rfl⟩
  | set_fin_sequence x =>
    obtain ⟨n', lo', h'⟩ := h.set_fin_sequence hadmitted
    cases hstep
    exact ⟨held, later, n', lo', blocks, cut, h', leads_of_none rfl⟩
  | set_max_buffer_size s =>
    cases hstep
    have hplaced := h.placed
    exact ⟨held, later, n, lo, blocks, cut, ⟨{ hplaced with }, h.before, h.gap, h.avail, h.list, h.dropped, h.reports, h.count, h.apart,
      h.covers⟩, leads_of_none rfl⟩

end Step

/-! ### What the blocks say of sequence numbers -/

section Numbers

variable {j : SackRun} {cut : List (ℕ × ℕ)} {x : SequenceNumber32}

theorem inBlock_iff (hy : y.1 < y.2) (hnear : y.2 < y.1 + 2 ^ 32) :
    InBlock (isn.plus y.1, isn.plus y.2) x ↔ ∃ i, Within y i ∧ x = isn.plus i := by
  have hsize : ((isn.plus y.2).value - (isn.plus y.1).value).toNat = y.2 - y.1 := by
    rw [← SequenceNumber32.sub_toUInt32, SequenceNumber32.plus_sub hy.le hnear,
      UInt32.toNat_ofNat_of_lt' (by rw [UInt32.size]; omega)]
  rw [InBlock, UInt32.lt_iff_toNat_lt, hsize]
  constructor
  · intro hlt
    exact ⟨_, ⟨Nat.le_add_right _ _, by simp only at hlt; omega⟩, exists_position isn x y.1⟩
  · rintro ⟨i, ⟨hle, hlt⟩, rfl⟩
    rw [← SequenceNumber32.sub_toUInt32, SequenceNumber32.plus_sub hle (by omega),
      UInt32.toNat_ofNat_of_lt' (by rw [UInt32.size]; omega)]
    omega

theorem holdsByte_iff {l : List (ℕ × PacketBytes)} (hdata : b.data = packets isn l)
    (hnear : ∀ s ∈ l, s.2.length < 2 ^ 32) : HoldsByte b x ↔ ∃ i, Covered l i ∧ x = isn.plus i := by
  rw [HoldsByte, hdata]
  constructor
  · rintro ⟨e, he, hlt⟩
    obtain ⟨s, hs, rfl⟩ := List.mem_map.mp he
    exact ⟨_, ⟨s, hs, Nat.le_add_right _ _, by simp only at hlt; omega⟩, exists_position isn x s.1⟩
  · rintro ⟨i, ⟨s, hs, hle, hlt⟩, rfl⟩
    refine ⟨_, List.mem_map_of_mem hs, ?_⟩
    have hlength := hnear s hs
    rw [← SequenceNumber32.sub_toUInt32, SequenceNumber32.plus_sub hle (by omega),
      UInt32.toNat_ofNat_of_lt' (by rw [UInt32.size]; omega)]
    simp only
    omega

theorem Reported.correct (h : Reported isn j held later n lo blocks cut) (hleads : Leads isn j n lo blocks) :
    j.Correct := by
  have hlow := h.placed.low
  have hhigh := h.placed.high
  have hnear : ∀ y ∈ blocks ++ cut, NearBlock lo y := fun y hy =>
    (h.reports y hy).near hlow fun s hs => h.placed.near s (by simp [hs])
  have hholds : ∀ x, HoldsByte j.buffer x ↔ ∃ i, Covered (held ++ later) i ∧ x = isn.plus i := fun x =>
    holdsByte_iff h.placed.data fun s hs => by
      obtain ⟨-, hslo, hshi⟩ := h.placed.near s hs
      omega
  have hinside : ∀ y ∈ blocks ++ cut, ∀ x, InBlock (isn.plus y.1, isn.plus y.2) x ↔ ∃ i, Within y i ∧ x = isn.plus i :=
    fun y hy x => by
      obtain ⟨hylo, hylt, hyhi⟩ := hnear y hy
      exact inBlock_iff hylt (by omega)
  refine ⟨?_, ?_, ?_, ?_⟩
  · rw [h.list, sacks, List.length_map]
    exact h.count
  · intro y hy
    rw [h.list] at hy
    obtain ⟨z, hz, rfl⟩ := List.mem_map.mp hy
    have hz' := List.mem_append_left cut hz
    obtain ⟨hzlo, hzlt, hzhi⟩ := hnear z hz'
    obtain ⟨hafter, -, hcovered⟩ := h.reports z hz'
    refine ⟨?_, ?_, fun x hx => ?_⟩
    · rw [SequenceNumber32.less_plus (by omega) (by omega)]
      exact decide_eq_true hzlt
    · rw [h.placed.next, SequenceNumber32.less_plus (by omega) (by omega)]
      exact decide_eq_true hafter
    · obtain ⟨i, hi, rfl⟩ := (hinside z hz' x).mp hx
      exact (hholds _).mpr ⟨i, (hcovered i hi.1 hi.2).mono fun s hs => by simp [hs], rfl⟩
  · intro hno
    rw [h.list, sacks, List.pairwise_map]
    refine (h.apart hno).imp_of_mem fun {y z} hy hz hyz => ?_
    have hy' := List.mem_append_left cut hy
    have hz' := List.mem_append_left cut hz
    obtain ⟨hylo, hylt, hyhi⟩ := hnear y hy'
    obtain ⟨hzlo, hzlt, hzhi⟩ := hnear z hz'
    unfold Apart at hyz
    refine ⟨?_, ?_, ?_⟩
    · simp only [ne_eq, SequenceNumber32.plus_inj (b := isn) (m := y.2) (n := z.1) (by omega) (by omega)]
      omega
    · simp only [ne_eq, SequenceNumber32.plus_inj (b := isn) (m := z.2) (n := y.1) (by omega) (by omega)]
      omega
    · rintro x ⟨hxy, hxz⟩
      obtain ⟨i, ⟨hi, hi'⟩, rfl⟩ := (hinside y hy' x).mp hxy
      obtain ⟨k, ⟨hk, hk'⟩, heq⟩ := (hinside z hz' _).mp hxz
      rw [SequenceNumber32.plus_inj (by omega) (by omega)] at heq
      omega
  · intro hno r hr hafter
    obtain ⟨hnhi, x, ⟨hxlo, hxlt, hxhi⟩, rfl, hfirst⟩ := hleads hno r hr
    rw [h.placed.next, SequenceNumber32.less_plus (by omega) (by omega), decide_eq_true_eq] at hafter
    obtain ⟨c, rest, rfl, hle, hge⟩ := hfirst hafter
    have hc : c ∈ (c :: rest) ++ cut := by simp
    obtain ⟨hclo, hclt, hchi⟩ := hnear c hc
    have hcafter := (h.reports c hc).1
    refine ⟨_, _, h.list, fun z hz => ?_, fun z hz hheld => ?_⟩
    · obtain ⟨i, hi, rfl⟩ := (inBlock_iff hxlt (by omega)).mp hz
      exact (hinside c hc _).mpr ⟨i, ⟨hle.trans hi.1, hi.2.trans_le hge⟩, rfl⟩
    · -- a byte beside the first block is after the gap, and no other block of the list reaches it
      obtain ⟨i, hcovered, rfl⟩ := (hholds z).mp hheld
      obtain ⟨s, hs, hin⟩ := id hcovered
      have hsnear := h.placed.near s hs
      obtain ⟨hspos, hslo, hshi⟩ := hsnear
      have hbeside : i + 1 = c.1 ∨ i = c.2 := by
        rcases hz with hz | hz
        · left
          rw [SequenceNumber32.plus_increment, SequenceNumber32.plus_inj (by omega) (by omega)] at hz
          exact hz
        · right
          rw [SequenceNumber32.plus_inj (by omega) (by omega)] at hz
          exact hz
      have hlater : Covered later i := by
        refine ⟨s, (List.mem_append.mp hs).resolve_left fun hheld => ?_, hin⟩
        have hend := h.before s hheld
        omega
      obtain ⟨y, hy, hiny⟩ := h.covers hno i hlater
      refine ⟨(isn.plus y.1, isn.plus y.2), ?_, (hinside y hy _).mpr ⟨i, hiny, rfl⟩⟩
      rw [h.dropped]
      refine List.mem_map_of_mem ((List.mem_append.mp hy).resolve_left fun hlisted => ?_)
      obtain ⟨hiny, hiny'⟩ := hiny
      have hpairwise := h.apart hno
      rcases List.mem_cons.mp hlisted with rfl | hlisted
      · omega
      · have hapart := List.rel_of_pairwise_cons hpairwise hlisted
        have hylt := (hnear y hy).2.1
        unfold Apart at hapart
        omega

end Numbers

variable {j : SackRun}

/-- In every run within half the range of numbers, with no data behind a FIN, the list has at most four blocks, which
report bytes that the buffer holds after a gap. As long as no segment has replaced packets that it embeds, they are
apart, and the first one is the run of bytes around those stored last, up to blocks that were cut off the list. -/
theorem sack_list_correct (hreach : Reachable SackRun.Initial SackRun.step SackRun.Admitted j) : j.Correct := by
  obtain ⟨isn, held, later, n, lo, blocks, cut, h, hleads⟩ :
      ∃ isn held later n lo blocks cut, Reported isn j held later n lo blocks cut ∧ Leads isn j n lo blocks := by
    refine hreach.invariant (I := fun j => ∃ isn held later n lo blocks cut,
      Reported isn j held later n lo blocks cut ∧ Leads isn j n lo blocks) ?_ ?_
    · rintro _ ⟨n, max, rfl⟩
      refine ⟨⟨n.value - UInt32.ofNat (2 ^ 31)⟩, [], [], 2 ^ 31, 2 ^ 31, [], [],
        ⟨⟨rfl, ?_, .nil, rfl, by simp, le_rfl, by norm_num, le_rfl⟩, by simp, by simp, rfl, rfl, rfl, by simp, by simp,
          fun _ => .nil, ?_⟩, leads_of_none rfl⟩
      · cases n with
        | mk value => simp [SequenceNumber32.plus]
      · rintro - i ⟨s, hs, -⟩
        cases hs
    · rintro j e j' ⟨isn, held, later, n, lo, blocks, cut, h, -⟩ hadmitted hstep
      exact ⟨isn, h.step hadmitted hstep⟩
  exact h.correct hleads

namespace Sample

/-- A byte at each of five places, of which the first one falls off the list, and then the byte after that. -/
def scattered : List SackEvent :=
  [.add [0] ⟨10⟩, .add [0] ⟨20⟩, .add [0] ⟨30⟩, .add [0] ⟨40⟩, .add [0] ⟨50⟩, .add [0] ⟨11⟩]

def embedding : List SackEvent := [.add (List.replicate 10 0) ⟨10⟩, .add (List.replicate 20 0) ⟨5⟩]

def behind_fin : List SackEvent := [.add (List.replicate 4 0) ⟨6⟩, .set_fin_sequence ⟨5⟩, .add (List.replicate 5 0) ⟨0⟩]

def start : SackRun := { buffer := { next_rx_seq := ⟨0⟩, max_buffer := 100 } }

theorem start_initial : start.Initial := ⟨⟨0⟩, 100, rfl⟩

end Sample

theorem sack_list_correct_sample : ∃ j, Reachable SackRun.Initial SackRun.step SackRun.Admitted j ∧
    j.buffer.sack_list = [(⟨11⟩, ⟨12⟩), (⟨50⟩, ⟨51⟩), (⟨40⟩, ⟨41⟩), (⟨30⟩, ⟨31⟩)] ∧ j.Correct := by
  have hrun : (execute SackRun.step SackRun.Admitted Sample.start Sample.scattered).map (fun j => j.buffer.sack_list) =
      some [(⟨11⟩, ⟨12⟩), (⟨50⟩, ⟨51⟩), (⟨40⟩, ⟨41⟩), (⟨30⟩, ⟨31⟩)] := by decide +kernel
  obtain ⟨j, hj, hlist⟩ := Option.map_eq_some_iff.mp hrun
  have hreach := (Reachable.init Sample.start_initial).execute hj
  exact ⟨j, hreach, hlist, sack_list_correct hreach⟩

/-- A segment that embeds a packet leaves the block of that packet on the list, overlapped by its own. After a block has
fallen off the list, the first block is not the whole run of bytes around the last one. With data behind the FIN a block
starts at the next number. -/
theorem sack_list_fails :
    (∃ j x, Reachable SackRun.Initial SackRun.step Always j ∧ j.buffer.sack_list = [(⟨5⟩, ⟨25⟩), (⟨10⟩, ⟨20⟩)] ∧
      InBlock (⟨5⟩, ⟨25⟩) x ∧ InBlock (⟨10⟩, ⟨20⟩) x) ∧
    (∃ j, Reachable SackRun.Initial SackRun.step Always j ∧ j.stored = some (⟨11⟩, ⟨12⟩) ∧
      j.buffer.next_rx_seq.less ⟨11⟩ = true ∧ j.buffer.sack_list.head? = some (⟨11⟩, ⟨12⟩) ∧ HoldsByte j.buffer ⟨10⟩) ∧
    ∃ j, Reachable SackRun.Initial SackRun.step Always j ∧ j.buffer.sack_list = [(⟨6⟩, ⟨10⟩)] ∧
      j.buffer.next_rx_seq = ⟨6⟩ := by
  have hreach : ∀ es j, execute SackRun.step Always Sample.start es = some j →
      Reachable SackRun.Initial SackRun.step Always j := fun es j hj =>
    (Reachable.init Sample.start_initial).execute hj
  refine ⟨?_, ?_, ?_⟩
  · have hrun : (execute SackRun.step Always Sample.start Sample.embedding).map (fun j => j.buffer.sack_list) =
        some [(⟨5⟩, ⟨25⟩), (⟨10⟩, ⟨20⟩)] := by decide +kernel
    obtain ⟨j, hj, hlist⟩ := Option.map_eq_some_iff.mp hrun
    exact ⟨j, ⟨15⟩, hreach _ j hj, hlist, by decide, by decide⟩
  · have hrun : (execute SackRun.step Always Sample.start Sample.scattered).map (fun j =>
        (j.stored, j.buffer.next_rx_seq.less ⟨11⟩, j.buffer.sack_list.head?, decide (HoldsByte j.buffer ⟨10⟩))) =
        some (some (⟨11⟩, ⟨12⟩), true, some (⟨11⟩, ⟨12⟩), true) := by decide +kernel
    obtain ⟨j, hj, hfacts⟩ := Option.map_eq_some_iff.mp hrun
    simp only [Prod.mk.injEq, decide_eq_true_eq] at hfacts
    exact ⟨j, hreach _ j hj, hfacts⟩
  · have hrun : (execute SackRun.step Always Sample.start Sample.behind_fin).map (fun j =>
        (j.buffer.sack_list, j.buffer.next_rx_seq)) = some ([(⟨6⟩, ⟨10⟩)], ⟨6⟩) := by decide +kernel
    obtain ⟨j, hj, hfacts⟩ := Option.map_eq_some_iff.mp hrun
    simp only [Prod.mk.injEq] at hfacts
    exact ⟨j, hreach _ j hj, hfacts⟩

end Ns3.TcpRxBuffer
