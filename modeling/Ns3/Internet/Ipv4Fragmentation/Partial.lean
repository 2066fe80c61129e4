import Ns3.Internet.Ipv4Fragmentation.Reassembly
import Ns3.Network.PacketBytes

namespace Ns3.Ipv4L3Protocol

open Pieces

/-- A call of `CreateFragment`. -/
structure Cut where
  packet : PacketBytes
  start : UInt32
  length : UInt32
deriving DecidableEq, Repr

/-- The call asks for bytes of the packet only. -/
def Cut.InRange (c : Cut) : Prop := c.start.toNat + c.length.toNat ≤ c.packet.length

instance (c : Cut) : Decidable c.InRange := inferInstanceAs (Decidable (_ ≤ _))

namespace Fragments

/-- The loop of `GetPartialPacket`, with its calls of `CreateFragment`. -/
def merge_partial (p : PacketBytes) : List (PacketBytes × ℕ) → Option (PacketBytes × List Cut)
  | [] => some (p, [])
  | x :: xs =>
    let last_end_offset := p.length % 2 ^ 16
    if last_end_offset > x.2 then do
      let new_start := UInt32.ofNat (last_end_offset - x.2)
      let new_size := x.1.get_size - new_start
      let temp_fragment ← x.1.create_fragment new_start new_size
      let r ← merge_partial (p ++ temp_fragment) xs
      return (r.1, ⟨x.1, new_start, new_size⟩ :: r.2)
    else if last_end_offset = x.2 then merge_partial (p ++ x.1) xs
    else merge_partial p xs

/-- `GetPartialPacket`, with its calls of `CreateFragment`; `none` is the use of an empty list. -/
def get_partial_packet (f : Fragments) : Option (PacketBytes × List Cut) :=
  match f.fragments with
  | [] => none
  | x :: _ => if x.2 > 0 then some ([], []) else merge_partial [] f.fragments

end Fragments

/-- The fragments that are held after some arrivals. -/
def gathered (arrivals : List PayloadHeaderPair) : Fragments :=
  arrivals.foldl (fun f x => f.add_fragment x.1 x.2.fragment_offset (!x.2.is_last_fragment)) {}

/-- The longest first part of a payload that the fragments cover. -/
def IsReceivedPrefix (payload : PacketBytes) (l : List (PacketBytes × ℕ)) (p : PacketBytes) : Prop :=
  ∃ n ≤ payload.length, p = payload.take n ∧ (∀ i < n, Covered l i) ∧ ¬ Covered l n

/-- What is expected of `GetPartialPacket`. -/
def PartialCorrect (payload : PacketBytes) (f : Fragments) : Prop :=
  ∃ p cuts, f.get_partial_packet = some (p, cuts) ∧ (∀ c ∈ cuts, c.InRange) ∧
    IsReceivedPrefix payload f.fragments p

/-- No fragment ends before one that precedes it in the list, unless a byte before it is missing. -/
def NoneNested (l : List (PacketBytes × ℕ)) : Prop :=
  l.Pairwise fun y x => (∀ i < x.2, Covered l i) → y.2 + y.1.length ≤ x.2 + x.1.length

instance (l : List (PacketBytes × ℕ)) (i : ℕ) : Decidable (Covered l i) :=
  inferInstanceAs (Decidable (∃ x ∈ l, x.2 ≤ i ∧ i < x.2 + x.1.length))

instance (l : List (PacketBytes × ℕ)) : Decidable (NoneNested l) :=
  inferInstanceAs (Decidable (List.Pairwise _ l))

instance (payload : PacketBytes) (x : PacketBytes × ℕ) : Decidable (IsPiece payload x) :=
  inferInstanceAs (Decidable (_ ∧ _))

variable {payload : PacketBytes} {header : FragmentHeader} {arrivals : List PayloadHeaderPair}
  {held l : List (PacketBytes × ℕ)} {x : PacketBytes × ℕ} {e : ℕ}

theorem gathered_holds (arrivals : List PayloadHeaderPair) : Holds (gathered arrivals) arrivals := by
  induction arrivals using List.reverseRecOn with
  | nil => exact .empty
  | append_singleton l x ih =>
    rw [gathered, List.foldl_append]
    exact ih.add x

/-- Where the part that is put together ends after more fragments. -/
def reach (e : ℕ) : List (PacketBytes × ℕ) → ℕ
  | [] => e
  | x :: xs => if x.2 ≤ e then reach (max e (x.2 + x.1.length)) xs else reach e xs

/-- Each fragment that overlaps what is put together ends no earlier. -/
def NotInside (e : ℕ) : List (PacketBytes × ℕ) → Prop
  | [] => True
  | x :: xs =>
    (x.2 < e → e ≤ x.2 + x.1.length) ∧ NotInside (if x.2 ≤ e then max e (x.2 + x.1.length) else e) xs

theorem reach_of_far (h : ∀ x ∈ l, e < x.2) : reach e l = e := by
  induction l with
  | nil => rfl
  | cons x l ih =>
    have hx := h x (by simp)
    rw [reach, if_neg (by omega)]
    exact ih fun y hy => h y (by simp [hy])

theorem notInside_of_far (h : ∀ x ∈ l, e < x.2) : NotInside e l := by
  induction l with
  | nil => trivial
  | cons x l ih =>
    have hx := h x (by simp)
    rw [NotInside, if_neg (by omega)]
    exact ⟨by omega, ih fun y hy => h y (by simp [hy])⟩

theorem cut_inRange_iff {p : PacketBytes} {n : ℕ} (hp : p.length < 2 ^ 32) (hn : n < 2 ^ 32) :
    Cut.InRange ⟨p, UInt32.ofNat n, p.get_size - UInt32.ofNat n⟩ ↔ n ≤ p.length := by
  have hstart : (UInt32.ofNat n).toNat = n := UInt32.toNat_ofNat_of_lt' hn
  have hsize := PacketBytes.get_size_toNat hp
  simp only [Cut.InRange, UInt32.toNat_sub, hstart, hsize]
  omega

theorem create_fragment_rest {p : PacketBytes} {n : ℕ} (hp : p.length < 2 ^ 32) (hn : n < 2 ^ 32) :
    p.create_fragment (UInt32.ofNat n) (p.get_size - UInt32.ofNat n) = some (p.drop n) := by
  have hstart : (UInt32.ofNat n).toNat = n := UInt32.toNat_ofNat_of_lt' hn
  have hsum : UInt32.ofNat n + (p.get_size - UInt32.ofNat n) = p.get_size := by grind
  have hrange := cut_inRange_iff hp hn
  simp only [Cut.InRange, hstart] at hrange
  rw [PacketBytes.create_fragment, hsum, if_pos (UInt32.le_refl _), hstart, Option.some.injEq]
  by_cases hle : n ≤ p.length
  · have hsize := PacketBytes.get_size_toNat hp
    have hlength : (p.get_size - UInt32.ofNat n).toNat = p.length - n := by
      rw [UInt32.toNat_sub, hstart, hsize]
      omega
    rw [if_pos (hrange.mpr hle), hlength, List.take_of_length_le (by rw [List.length_drop])]
  · rw [if_neg (fun h => hle (hrange.mp h)), List.drop_eq_nil_of_le (by omega)]

theorem merge_partial_spec (hpayload : payload.length < 2 ^ 16) (he : e ≤ payload.length)
    (hpieces : ∀ x ∈ l, IsPiece payload x) :
    ∃ cuts, Fragments.merge_partial (payload.take e) l = some (payload.take (reach e l), cuts) ∧
      reach e l ≤ payload.length ∧ ((∀ c ∈ cuts, c.InRange) ↔ NotInside e l) := by
  induction l generalizing e with
  | nil => exact ⟨[], rfl, he, by simp [NotInside]⟩
  | cons x l ih =>
    have hx := hpieces x (by simp)
    have hrest := fun y hy => hpieces y (List.mem_cons_of_mem x hy)
    have hfits := hx.1
    have hlast : (payload.take e).length % 2 ^ 16 = e := by
      rw [List.length_take_of_le he]
      exact Nat.mod_eq_of_lt (by omega)
    rw [Fragments.merge_partial]
    simp only [hlast, reach, NotInside]
    by_cases hstart : x.2 ≤ e
    · have hjoin := take_append_drop_piece hx hstart
      obtain ⟨cuts, heq, hle, hcuts⟩ := ih (max_le he hfits) hrest
      rw [if_pos hstart, if_pos hstart]
      rcases hstart.eq_or_lt with hexact | hover
      · subst hexact
        rw [Nat.sub_self, List.drop_zero] at hjoin
        rw [if_neg (lt_irrefl _), if_pos rfl, hjoin]
        exact ⟨cuts, heq, hle, by simp [hcuts]⟩
      · rw [if_pos hover, create_fragment_rest (by omega) (by omega), Option.bind_eq_bind, Option.bind_some, hjoin, heq]
        refine ⟨_, rfl, hle, ?_⟩
        rw [List.forall_mem_cons, cut_inRange_iff (by omega) (by omega), hcuts]
        have hiff : e - x.2 ≤ x.1.length ↔ (x.2 < e → e ≤ x.2 + x.1.length) := by omega
        rw [hiff]
    · obtain ⟨cuts, heq, hle, hcuts⟩ := ih he hrest
      rw [if_neg hstart, if_neg hstart, if_neg (by omega), if_neg (by omega)]
      exact ⟨cuts, heq, hle, by rw [hcuts]; exact ⟨fun h => ⟨by omega, h⟩, fun h => h.2⟩⟩

/-- What the fragments before a point of the list have put together: all up to an end, where the
furthest of them ends. -/
structure Joined (held : List (PacketBytes × ℕ)) (e : ℕ) : Prop where
  covered : ∀ i < e, Covered held i
  within : ∀ y ∈ held, y.2 + y.1.length ≤ e
  attained : e = 0 ∨ ∃ y ∈ held, y.2 + y.1.length = e

theorem Joined.add (h : Joined held e) (hx : x.2 ≤ e) : Joined (held ++ [x]) (max e (x.2 + x.1.length)) := by
  constructor
  · intro i hi
    by_cases hlt : i < e
    · obtain ⟨y, hy, hin⟩ := h.covered i hlt
      exact ⟨y, by simp [hy], hin⟩
    · exact ⟨x, by simp, by omega⟩
  · intro y hy
    rcases List.mem_append.mp hy with hy | hy
    · exact (h.within y hy).trans (le_max_left _ _)
    · rw [List.mem_singleton.mp hy]
      exact le_max_right _ _
  · rcases max_cases e (x.2 + x.1.length) with ⟨heq, _⟩ | ⟨heq, _⟩
    · rw [heq]
      exact h.attained.imp_right fun ⟨y, hy, hend⟩ => ⟨y, by simp [hy], hend⟩
    · rw [heq]
      exact .inr ⟨x, by simp, rfl⟩

theorem Joined.not_covered (h : Joined held e) (hfar : ∀ x ∈ l, e < x.2) : ¬ Covered (held ++ l) e := by
  rintro ⟨y, hy, hin⟩
  rcases List.mem_append.mp hy with hy | hy
  · have := h.within y hy
    omega
  · have := hfar y hy
    omega

theorem ordered_far (hl : Ordered (x :: l)) (hx : e < x.2) : ∀ y ∈ x :: l, e < y.2 := by
  intro y hy
  rcases List.mem_cons.mp hy with rfl | hy
  · exact hx
  · exact hx.trans_le ((List.pairwise_cons.mp hl).1 y hy)

theorem reach_spec (h : Joined held e) (hl : Ordered l) :
    (∀ i < reach e l, Covered (held ++ l) i) ∧ ¬ Covered (held ++ l) (reach e l) := by
  induction l generalizing held e with
  | nil =>
    rw [reach, List.append_nil]
    refine ⟨h.covered, ?_⟩
    simpa using h.not_covered (l := []) (by simp)
  | cons x l ih =>
    by_cases hx : x.2 ≤ e
    · rw [reach, if_pos hx, List.append_cons]
      exact ih (h.add hx) (List.pairwise_cons.mp hl).2
    · have hfar := ordered_far hl (not_le.mp hx)
      rw [reach_of_far hfar]
      refine ⟨fun i hi => ?_, h.not_covered hfar⟩
      obtain ⟨y, hy, hin⟩ := h.covered i hi
      exact ⟨y, List.mem_append_left _ hy, hin⟩

/-- The calls of `CreateFragment` are in range exactly if no fragment of the part is nested. -/
theorem notInside_iff (h : Joined held e) (hl : Ordered l) :
    NotInside e l ↔
      (∀ x ∈ l, ∀ y ∈ held, (∀ i < x.2, Covered (held ++ l) i) → y.2 + y.1.length ≤ x.2 + x.1.length) ∧
        l.Pairwise fun y x => (∀ i < x.2, Covered (held ++ l) i) → y.2 + y.1.length ≤ x.2 + x.1.length := by
  induction l generalizing held e with
  | nil => simp [NotInside]
  | cons x l ih =>
    by_cases hx : x.2 ≤ e
    · have hbefore : ∀ i < x.2, Covered (held ++ x :: l) i := fun i hi => by
        obtain ⟨y, hy, hin⟩ := h.covered i (by omega)
        exact ⟨y, List.mem_append_left _ hy, hin⟩
      have hends : (x.2 < e → e ≤ x.2 + x.1.length) ↔ ∀ y ∈ held, y.2 + y.1.length ≤ x.2 + x.1.length := by
        constructor
        · intro hover y hy
          have := h.within y hy
          omega
        · intro hall hover
          rcases h.attained with rfl | ⟨y, hy, hend⟩
          · omega
          · exact hend ▸ hall y hy
      rw [NotInside, if_pos hx, ih (h.add hx) (List.pairwise_cons.mp hl).2, hends, List.pairwise_cons, ← List.append_cons]
      constructor
      · rintro ⟨hfirst, hheld, hpairs⟩
        refine ⟨fun z hz y hy hcov => ?_, fun z hz hcov => ?_, hpairs⟩
        · rcases List.mem_cons.mp hz with rfl | hz
          · exact hfirst y hy
          · exact hheld z hz y (by simp [hy]) hcov
        · exact hheld z hz x (by simp) hcov
      · rintro ⟨hheld, hfirst, hpairs⟩
        refine ⟨fun y hy => hheld x (by simp) y hy hbefore, fun z hz y hy hcov => ?_, hpairs⟩
        rcases List.mem_append.mp hy with hy | hy
        · exact hheld z (by simp [hz]) y hy hcov
        · rw [List.mem_singleton.mp hy]
          exact hfirst z hz hcov
    · have hfar := ordered_far hl (not_le.mp hx)
      have hgap : ∀ z ∈ x :: l, ¬ ∀ i < z.2, Covered (held ++ x :: l) i := fun z hz hcov =>
        h.not_covered hfar (hcov e (hfar z hz))
      refine iff_of_true (notInside_of_far hfar) ⟨fun z hz y _ hcov => absurd hcov (hgap z hz), ?_⟩
      exact List.Pairwise.imp_of_mem (fun _ hz _ hcov => absurd hcov (hgap _ hz)) (List.pairwise_of_forall fun _ _ => trivial)

/-- When the timer expires `GetPartialPacket` returns the longest first part of the payload that was
received, without a call of `CreateFragment` beyond a fragment, exactly if no fragment that it comes
to ends before one that precedes it. -/
theorem get_partial_packet_iff (hpayload : payload.length ≤ 65515) (hne : arrivals ≠ [])
    (hpieces : ∀ x ∈ arrivals, IsPiece payload (x.1, x.2.fragment_offset)) :
    PartialCorrect payload (gathered arrivals) ↔ NoneNested (gathered arrivals).fragments := by
  have hholds := gathered_holds arrivals
  have hall : ∀ x ∈ (gathered arrivals).fragments, IsPiece payload x := by
    intro z hz
    obtain ⟨x, hx, rfl⟩ := List.mem_map.mp (hholds.perm.mem_iff.mp hz)
    exact hpieces x hx
  have hordered := hholds.ordered
  obtain ⟨f, hf⟩ : ∃ f, f = gathered arrivals := ⟨_, rfl⟩
  rw [← hf] at hall hordered hholds ⊢
  have hempty : Joined [] 0 := ⟨by simp, by simp, .inl rfl⟩
  have hreach := reach_spec hempty hordered
  have hnested := notInside_iff hempty hordered
  rw [List.nil_append] at hreach hnested
  have hnested' : NotInside 0 f.fragments ↔ NoneNested f.fragments := by
    rw [hnested, NoneNested]
    exact ⟨fun h => h.2, fun h => ⟨by simp, h⟩⟩
  rw [← hnested']
  cases hlist : f.fragments with
  | nil =>
    have hperm := hholds.perm
    rw [hlist] at hperm
    simp [hne] at hperm
  | cons x l =>
    obtain ⟨cuts, hmerge, hle, hcuts⟩ := merge_partial_spec (l := f.fragments) (by omega) (Nat.zero_le _) hall
    rw [List.take_zero] at hmerge
    have hreceived : IsReceivedPrefix payload f.fragments (payload.take (reach 0 f.fragments)) :=
      ⟨_, hle, rfl, hreach⟩
    by_cases hfirst : x.2 > 0
    · have hfar : ∀ y ∈ f.fragments, 0 < y.2 := by
        rw [hlist] at hordered ⊢
        exact ordered_far hordered hfirst
      have hget : f.get_partial_packet = some ([], []) := by
        rw [Fragments.get_partial_packet, hlist]
        exact if_pos hfirst
      rw [reach_of_far hfar, List.take_zero] at hreceived
      refine iff_of_true ⟨[], [], hget, by simp, hreceived⟩ ?_
      rw [← hlist]
      exact notInside_of_far hfar
    · have hget : f.get_partial_packet = some (payload.take (reach 0 f.fragments), cuts) := by
        rw [← hmerge, Fragments.get_partial_packet, hlist]
        exact if_neg hfirst
      rw [← hlist, ← hcuts]
      constructor
      · rintro ⟨p, cuts', hget', hrange, -⟩
        rw [hget, Option.some.injEq, Prod.mk.injEq] at hget'
        rwa [hget'.2]
      · exact fun hrange => ⟨_, cuts, hget, hrange, hreceived⟩

section Samples

def sampleData : PacketBytes := (List.range 200).map Nat.toUInt8

/-- A fragment of the sample that is not the last one. -/
def samplePart (offset length : ℕ) : PayloadHeaderPair :=
  ((sampleData.drop offset).take length,
    { source := 0x0a000001, destination := 0x0a000002, ttl := 64, protocol := 17, identification := 9,
      more_fragments := true, fragment_offset := offset })

/-- Fragments with a gap, two of which overlap. -/
theorem get_partial_packet_sample :
    PartialCorrect sampleData (gathered [samplePart 96 48, samplePart 0 48, samplePart 24 48]) :=
  (get_partial_packet_iff (by decide +kernel) (by decide) (by decide +kernel)).mpr (by decide +kernel)

/-- A fragment inside one that arrived before it: as many bytes as the unsigned difference gives are asked of it. -/
theorem nested_fragment_out_of_range :
    (∀ x ∈ [samplePart 0 168, samplePart 48 48], IsPiece sampleData (x.1, x.2.fragment_offset)) ∧
      (gathered [samplePart 0 168, samplePart 48 48]).is_entire = false ∧
      ¬ PartialCorrect sampleData (gathered [samplePart 0 168, samplePart 48 48]) := by
  refine ⟨by decide +kernel, by decide +kernel, ?_⟩
  rintro ⟨p, cuts, hget, hrange, -⟩
  have hcuts : ((gathered [samplePart 0 168, samplePart 48 48]).get_partial_packet.map
      fun r => r.2.all fun c => decide c.InRange) = some false := by decide +kernel
  rw [hget, Option.map_some, Option.some.injEq, List.all_eq_false] at hcuts
  obtain ⟨c, hc, hout⟩ := hcuts
  exact hout (by simpa using hrange c hc)

end Samples

end Ns3.Ipv4L3Protocol
