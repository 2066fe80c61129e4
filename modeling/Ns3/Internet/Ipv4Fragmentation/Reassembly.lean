import Ns3.Foundation.Lists
import Ns3.Internet.Ipv4Fragmentation

namespace Ns3.Ipv4L3Protocol

open Pieces

/-- The fragment with the largest offset, the later one of two. -/
def later (best : Option PayloadHeaderPair) (x : PayloadHeaderPair) : Option PayloadHeaderPair :=
  match best with
  | none => some x
  | some y => if y.2.fragment_offset ≤ x.2.fragment_offset then some x else some y

/-- The arrival with the largest offset, the latest among those. -/
def furthest (arrivals : List PayloadHeaderPair) : Option PayloadHeaderPair := arrivals.foldl later none

/-- Whether the furthest arrival is a last fragment. -/
def ends_with_last (arrivals : List PayloadHeaderPair) : Bool :=
  (furthest arrivals).any fun x => x.2.is_last_fragment

/-- Every byte of a payload has arrived, and some last fragment. -/
def Complete (payload : List UInt8) (arrivals : List PayloadHeaderPair) : Prop :=
  (∃ x ∈ arrivals, x.2.is_last_fragment = true) ∧
    ∀ i < payload.length, ∃ x ∈ arrivals, x.2.fragment_offset ≤ i ∧ i < x.2.fragment_offset + x.1.length

instance (payload : List UInt8) (arrivals : List PayloadHeaderPair) : Decidable (Complete payload arrivals) :=
  inferInstanceAs (Decidable (_ ∧ _))

/-- The fragments of a datagram among the calls. -/
def own (header : FragmentHeader) (calls : List PayloadHeaderPair) : List PayloadHeaderPair :=
  calls.filter fun x => x.2.same_datagram header

/-- The map after some calls of `ProcessFragment`. -/
def run (m : MapFragments) (calls : List PayloadHeaderPair) : MapFragments :=
  calls.foldl (fun m x => (process_fragment m x.1 x.2).1) m

/-- Fragments that hold the arrivals in the order of their offsets, with the flag of the furthest one. -/
structure Holds (f : Fragments) (arrivals : List PayloadHeaderPair) : Prop where
  perm : f.fragments.Perm (arrivals.map fun x => (x.1, x.2.fragment_offset))
  ordered : Ordered f.fragments
  flag : ∀ x, furthest arrivals = some x → f.more_fragment = !x.2.is_last_fragment

variable {payload : List UInt8} {header h h' : FragmentHeader} {x y : PayloadHeaderPair}
  {arrivals calls : List PayloadHeaderPair} {f : Fragments} {m : MapFragments}

theorem furthest_append : furthest (arrivals ++ [x]) = later (furthest arrivals) x := by
  rw [furthest, List.foldl_append, List.foldl_cons, List.foldl_nil, furthest]

theorem furthest_spec (hne : arrivals ≠ []) :
    ∃ x ∈ arrivals, furthest arrivals = some x ∧ ∀ y ∈ arrivals, y.2.fragment_offset ≤ x.2.fragment_offset := by
  induction arrivals using List.reverseRecOn with
  | nil => exact absurd rfl hne
  | append_singleton l z ih =>
    rw [furthest_append]
    by_cases hl : l = []
    · subst hl
      exact ⟨z, by simp, rfl, by simp⟩
    obtain ⟨x, hx, hfurthest, hmax⟩ := ih hl
    rw [hfurthest, later]
    by_cases hle : x.2.fragment_offset ≤ z.2.fragment_offset
    · rw [if_pos hle]
      refine ⟨z, by simp, rfl, fun y hy => ?_⟩
      obtain hy | hy := List.mem_append.mp hy
      · exact (hmax y hy).trans hle
      · exact le_of_eq (by rw [List.mem_singleton.mp hy])
    · rw [if_neg hle]
      refine ⟨x, by simp [hx], rfl, fun y hy => ?_⟩
      obtain hy | hy := List.mem_append.mp hy
      · exact hmax y hy
      · rw [List.mem_singleton.mp hy]
        exact (not_le.mp hle).le

theorem Complete.mono (h : Complete payload arrivals) {more : List PayloadHeaderPair}
    (hsub : ∀ x ∈ arrivals, x ∈ more) : Complete payload more := by
  obtain ⟨⟨x, hx, hlast⟩, hbytes⟩ := h
  refine ⟨⟨x, hsub x hx, hlast⟩, fun i hi => ?_⟩
  obtain ⟨y, hy, hin⟩ := hbytes i hi
  exact ⟨y, hsub y hy, hin⟩

namespace Fragments

theorem insert_eq_place (b : List UInt8) (o : ℕ) (l : List (List UInt8 × ℕ)) :
    insert b o l = SortedList.place (fun x y => decide (x.2 < y.2)) (b, o) l := by
  induction l with
  | nil => rfl
  | cons x l ih =>
    rw [insert, SortedList.place, ih]
    simp only [gt_iff_lt, decide_eq_true_eq]

theorem connected_eq_gapless {l : List (List UInt8 × ℕ)} {e : ℕ} (hfits : ∀ x ∈ l, x.2 + x.1.length < 2 ^ 16) :
    connected e l = gapless e l := by
  induction l generalizing e with
  | nil => rfl
  | cons x l ih =>
    have hword : (x.1.length + x.2) % 2 ^ 16 = x.2 + x.1.length := by
      rw [Nat.add_comm]
      exact Nat.mod_eq_of_lt (hfits x (by simp))
    rw [connected, gapless, hword, ih fun y hy => hfits y (by simp [hy])]
    by_cases hgap : e < x.2
    · rw [if_pos hgap, decide_eq_false (not_le.mpr hgap), Bool.false_and]
    · rw [if_neg hgap, decide_eq_true (not_lt.mp hgap), Bool.true_and]

theorem merge_eq_join {l : List (List UInt8 × ℕ)} {e : ℕ} (hpayload : payload.length < 2 ^ 16)
    (he : e ≤ payload.length) (hgap : gapless e l = true) (hpieces : ∀ x ∈ l, IsPiece payload x) :
    merge (payload.take e) l = join (payload.take e) l := by
  induction l generalizing e with
  | nil => rfl
  | cons x l ih =>
    rw [gapless, Bool.and_eq_true, decide_eq_true_eq] at hgap
    obtain ⟨hstart, hrest⟩ := hgap
    have hx := hpieces x (by simp)
    have hlength : e % 2 ^ 16 = e := Nat.mod_eq_of_lt (by omega)
    have hnext := ih (max_le he hx.1) hrest fun y hy => hpieces y (by simp [hy])
    rw [← take_append_drop_piece hx hstart] at hnext
    rw [merge, join, List.length_take_of_le he, hlength, ← hnext]
    simp only [gt_iff_lt]
    split
    · split
      next => rfl
      next hshort => rw [List.drop_eq_nil_of_le (by omega), List.append_nil]
    · rw [show e - x.2 = 0 by omega, List.drop_zero]

end Fragments

theorem Holds.empty : Holds {} [] where
  perm := .refl _
  ordered := .nil
  flag := by simp [furthest]

theorem Holds.all_le (hf : Holds f arrivals) {o : ℕ} :
    (f.fragments.all fun y => decide (y.2 ≤ o)) = true ↔ ∀ y ∈ arrivals, y.2.fragment_offset ≤ o := by
  rw [List.all_eq_true]
  constructor
  · intro h y hy
    have hmem : (y.1, y.2.fragment_offset) ∈ f.fragments := hf.perm.mem_iff.mpr (List.mem_map_of_mem hy)
    simpa using h _ hmem
  · intro h z hz
    obtain ⟨y, hy, rfl⟩ := List.mem_map.mp (hf.perm.mem_iff.mp hz)
    simpa using h y hy

theorem Holds.add (hf : Holds f arrivals) (x : PayloadHeaderPair) :
    Holds (f.add_fragment x.1 x.2.fragment_offset (!x.2.is_last_fragment)) (arrivals ++ [x]) := by
  rw [Fragments.add_fragment]
  constructor
  · rw [Fragments.insert_eq_place, List.map_append, List.map_singleton]
    calc _ = _ := rfl
      List.Perm _ _ := SortedList.place_perm _ _ _
      List.Perm _ _ := hf.perm.cons _
      List.Perm _ _ := (List.perm_append_singleton _ _).symm
  · rw [Fragments.insert_eq_place]
    exact SortedList.place_pairwise Prod.snd (fun a b => decide_eq_true_iff) hf.ordered
  · intro y hy
    rw [furthest_append] at hy
    by_cases hempty : arrivals = []
    · subst hempty
      obtain rfl := Option.some.inj hy
      simp [hf.perm.eq_nil]
    obtain ⟨z, hz, hfurthest, hmax⟩ := furthest_spec hempty
    rw [hfurthest, later] at hy
    by_cases hle : z.2.fragment_offset ≤ x.2.fragment_offset
    · rw [if_pos hle] at hy
      obtain rfl := Option.some.inj hy
      simp only [hf.all_le.mpr fun w hw => (hmax w hw).trans hle, if_true]
    · rw [if_neg hle] at hy
      obtain rfl := Option.some.inj hy
      have hnot : ¬ (f.fragments.all fun w => decide (w.2 ≤ x.2.fragment_offset)) = true := by
        intro hall
        exact hle (hf.all_le.mp hall z hz)
      simp only [hnot]
      exact hf.flag z hfurthest

theorem Holds.pieces (hf : Holds f arrivals) (hfragments : ∀ x ∈ arrivals, IsFragment payload header x) :
    ∀ x ∈ f.fragments, IsPiece payload x := by
  intro z hz
  obtain ⟨x, hx, rfl⟩ := List.mem_map.mp (hf.perm.mem_iff.mp hz)
  exact (hfragments x hx).piece

theorem Holds.covered (hf : Holds f arrivals) {i : ℕ} : Covered f.fragments i ↔
    ∃ x ∈ arrivals, x.2.fragment_offset ≤ i ∧ i < x.2.fragment_offset + x.1.length := by
  constructor
  · intro h
    obtain ⟨z, hz, hin⟩ := h.of_perm hf.perm
    obtain ⟨x, hx, rfl⟩ := List.mem_map.mp hz
    exact ⟨x, hx, hin⟩
  · rintro ⟨x, hx, hin⟩
    exact ⟨_, hf.perm.mem_iff.mpr (List.mem_map_of_mem hx), hin⟩

/-- `IsEntire` holds when everything has arrived and the furthest fragment is a last one. -/
theorem Holds.is_entire_iff (hf : Holds f arrivals) (hpayload : payload.length ≤ 65515)
    (hfragments : ∀ x ∈ arrivals, IsFragment payload header x) :
    f.is_entire = true ↔ Complete payload arrivals ∧ ends_with_last arrivals = true := by
  have hpieces := hf.pieces hfragments
  have hword : ∀ x ∈ f.fragments, x.2 + x.1.length < 2 ^ 16 := fun x hx => by
    have hend := (hpieces x hx).1
    omega
  rw [Fragments.is_entire, Fragments.connected_eq_gapless hword]
  by_cases hempty : arrivals = []
  · subst hempty
    simp [hf.perm.eq_nil, ends_with_last, furthest]
  obtain ⟨x, hx, hfurthest, _⟩ := furthest_spec hempty
  have hmem : (x.1, x.2.fragment_offset) ∈ f.fragments := hf.perm.mem_iff.mpr (List.mem_map_of_mem hx)
  have hnonempty : f.fragments.isEmpty = false := by
    rw [List.isEmpty_eq_false_iff]
    exact List.ne_nil_of_mem hmem
  rw [hf.flag x hfurthest, hnonempty, ends_with_last, hfurthest]
  simp only [Bool.not_not, Bool.not_false, Bool.and_true, Bool.and_eq_true, Option.any_some]
  constructor
  · rintro ⟨hlast, hgapless⟩
    have hend := (hfragments x hx).last.mp hlast
    refine ⟨⟨⟨x, hx, hlast⟩, fun i hi => ?_⟩, hlast⟩
    apply hf.covered.mp
    exact covered_of_gapless hgapless hmem (Nat.zero_le i) (by simp only; omega)
  · rintro ⟨⟨_, hbytes⟩, hlast⟩
    refine ⟨hlast, gapless_of_covered hf.ordered fun z hz i _ hi => ?_⟩
    apply hf.covered.mpr
    have hend := (hpieces z hz).1
    exact hbytes i (by omega)

theorem Holds.get_packet_eq (hf : Holds f arrivals) (hpayload : payload.length ≤ 65515)
    (hfragments : ∀ x ∈ arrivals, IsFragment payload header x) (hentire : f.is_entire = true) : f.get_packet = payload := by
  obtain ⟨⟨⟨x, hx, hlast⟩, _⟩, _⟩ := (hf.is_entire_iff hpayload hfragments).mp hentire
  have hend := (hfragments x hx).last.mp hlast
  have hmem : (x.1, x.2.fragment_offset) ∈ f.fragments := hf.perm.mem_iff.mpr (List.mem_map_of_mem hx)
  have hpieces := hf.pieces hfragments
  have hword : ∀ x ∈ f.fragments, x.2 + x.1.length < 2 ^ 16 := fun x hx => by
    have hend := (hpieces x hx).1
    omega
  have hgapless : gapless 0 f.fragments = true := by
    rw [Fragments.is_entire, Fragments.connected_eq_gapless hword, Bool.and_eq_true] at hentire
    exact hentire.2
  rw [Fragments.get_packet]
  cases hlist : f.fragments with
  | nil =>
    rw [hlist] at hmem
    cases hmem
  | cons y l =>
    rw [hlist] at hgapless hmem hpieces
    have hy := hpieces y (by simp)
    have hrest := fun z hz => hpieces z (List.mem_cons_of_mem y hz)
    rw [gapless, Bool.and_eq_true, decide_eq_true_eq] at hgapless
    obtain ⟨hstart, hgapless⟩ := hgapless
    rw [Nat.zero_max] at hgapless
    have hfirst : payload.take (y.2 + y.1.length) = y.1 := by
      have h := take_append_drop_piece hy hstart
      rw [Nat.zero_max, List.take_zero, List.nil_append, Nat.zero_sub, List.drop_zero] at h
      exact h.symm
    obtain ⟨e', hle, hbound, hends, hjoin⟩ := join_eq_take hgapless hrest hy.1
    have hfull : e' = payload.length := by
      obtain rfl | hmem := List.mem_cons.mp hmem
      · simp only at hle
        omega
      · have h := hends _ hmem
        simp only at h
        omega
    have hmerge := Fragments.merge_eq_join (by omega) hy.1 hgapless hrest
    calc Fragments.merge y.1 l = join y.1 l := by simpa only [hfirst] using hmerge
      _ = payload.take e' := by rw [← hjoin, hfirst]
      _ = payload := by rw [hfull, List.take_length]

end Ns3.Ipv4L3Protocol
