import Ns3.Olsr.RoutingProtocol

namespace Ns3.Olsr

theorem mem_reported {a x : Ipv4Address} {N2 : List TwoHopNeighborTuple} :
    x ∈ reported a N2 ↔ ∃ t ∈ N2, t.neighborMainAddr = a ∧ t.twoHopNeighborAddr = x := by
  simp [reported, and_assoc]

theorem mem_erase_covered {covered : List Ipv4Address} {N2 : List TwoHopNeighborTuple}
    {t : TwoHopNeighborTuple} :
    t ∈ erase_covered covered N2 ↔ t ∈ N2 ∧ t.twoHopNeighborAddr ∉ covered := by
  simp [erase_covered]

namespace MprComputation

/-- A selection that is on its way over the records `P`: what remains of `P` is `N2`, and the
selected neighbours report what does not. -/
structure Progress (P : List TwoHopNeighborTuple) (mprSet : MprSet) (N2 : List TwoHopNeighborTuple) :
    Prop where
  sub : ∀ t ∈ N2, t ∈ P
  covered : ∀ t ∈ P, t ∉ N2 → ∃ u ∈ P, u.neighborMainAddr ∈ mprSet ∧
    u.twoHopNeighborAddr = t.twoHopNeighborAddr

theorem Progress.refl (P : List TwoHopNeighborTuple) : Progress P ∅ P :=
  ⟨fun _ ht => ht, fun _ ht hnot => absurd ht hnot⟩

theorem Progress.mono {P : List TwoHopNeighborTuple} {mprSet mprSet' : MprSet}
    {N2 : List TwoHopNeighborTuple} (h : Progress P mprSet N2) (hsub : mprSet ⊆ mprSet') :
    Progress P mprSet' N2 := by
  refine ⟨h.sub, ?_⟩
  intro t ht hnot
  obtain ⟨u, hu, hmem, haddr⟩ := h.covered t ht hnot
  exact ⟨u, hu, hsub hmem, haddr⟩

theorem Progress.erase {P : List TwoHopNeighborTuple} {mprSet : MprSet}
    {N2 : List TwoHopNeighborTuple} (h : Progress P mprSet N2) {covered : List Ipv4Address}
    (hcovered : ∀ x ∈ covered, ∃ u ∈ N2, u.neighborMainAddr ∈ mprSet ∧ u.twoHopNeighborAddr = x) :
    Progress P mprSet (erase_covered covered N2) := by
  constructor
  · intro t ht
    exact h.sub t (mem_erase_covered.mp ht).1
  · intro t ht hnot
    by_cases hmem : t ∈ N2
    · have hin : t.twoHopNeighborAddr ∈ covered := by
        by_contra hout
        exact hnot (mem_erase_covered.mpr ⟨hmem, hout⟩)
      obtain ⟨u, hu, hsel, haddr⟩ := hcovered _ hin
      exact ⟨u, h.sub u hu, hsel, haddr⟩
    · exact h.covered t ht hmem

theorem Progress.cover {P : List TwoHopNeighborTuple} {mprSet : MprSet}
    {N2 : List TwoHopNeighborTuple} (h : Progress P mprSet N2) (a : Ipv4Address) :
    Progress P (insert a mprSet) (cover_two_hop_neighbors a N2) := by
  refine (h.mono (Finset.subset_insert a mprSet)).erase ?_
  intro x hx
  obtain ⟨t, ht, hmain, haddr⟩ := mem_reported.mp hx
  exact ⟨t, ht, by simp [hmain], haddr⟩

/-- Where the selected neighbours come from. -/
def Chosen (N : List NeighborTuple) (P : List TwoHopNeighborTuple) (a : Ipv4Address) : Prop :=
  (∃ n ∈ N, n.neighborMainAddr = a ∧ n.willingness = Willingness.ALWAYS) ∨
    ∃ t ∈ P, t.neighborMainAddr = a

/-- The state between two steps of the selection. -/
structure Selection (N : List NeighborTuple) (P : List TwoHopNeighborTuple) (mprSet : MprSet)
    (N2 : List TwoHopNeighborTuple) : Prop extends Progress P mprSet N2 where
  chosen : ∀ a ∈ mprSet, Chosen N P a

theorem Selection.cover {N : List NeighborTuple} {P : List TwoHopNeighborTuple} {mprSet : MprSet}
    {N2 : List TwoHopNeighborTuple} (h : Selection N P mprSet N2) {a : Ipv4Address}
    (ha : Chosen N P a) : Selection N P (insert a mprSet) (cover_two_hop_neighbors a N2) := by
  refine ⟨h.toProgress.cover a, ?_⟩
  intro b hb
  rcases Finset.mem_insert.mp hb with rfl | hb
  · exact ha
  · exact h.chosen b hb

theorem select_always_spec {N P : _} (L : List NeighborTuple) (hL : ∀ n ∈ L, n ∈ N)
    {mprSet : MprSet} {N2 : List TwoHopNeighborTuple} (h : Selection N P mprSet N2) :
    Selection N P (select_always L (mprSet, N2)).1 (select_always L (mprSet, N2)).2 ∧
      mprSet ⊆ (select_always L (mprSet, N2)).1 ∧
      ∀ n ∈ L, n.willingness = Willingness.ALWAYS →
        n.neighborMainAddr ∈ (select_always L (mprSet, N2)).1 := by
  induction L generalizing mprSet N2 with
  | nil => exact ⟨h, fun _ ha => ha, by simp⟩
  | cons n L ih =>
    have htail : ∀ m ∈ L, m ∈ N := fun m hm => hL m (by simp [hm])
    rw [select_always]
    split
    next hwilling =>
      have hchosen : Chosen N P n.neighborMainAddr := .inl ⟨n, hL n (by simp), rfl, hwilling⟩
      obtain ⟨hsel, hsub, halways⟩ := ih htail (h.cover hchosen)
      have hinsert := (Finset.insert_subset_iff.mp hsub).1
      refine ⟨hsel, (Finset.insert_subset_iff.mp hsub).2, ?_⟩
      intro m hm hmw
      rcases List.mem_cons.mp hm with rfl | hm
      · exact hinsert
      · exact halways m hm hmw
    next hwilling =>
      obtain ⟨hsel, hsub, halways⟩ := ih htail h
      refine ⟨hsel, hsub, ?_⟩
      intro m hm hmw
      rcases List.mem_cons.mp hm with rfl | hm
      · exact absurd hmw hwilling
      · exact halways m hm hmw

/-- Step 3, before its records are erased: what is noted as covered, a selected neighbour reports. -/
theorem select_only_spec {N : List NeighborTuple} {P N2 : List TwoHopNeighborTuple}
    (L : List TwoHopNeighborTuple) (hL : ∀ t ∈ L, t ∈ N2) {mprSet : MprSet}
    {C : List Ipv4Address} (h : Selection N P mprSet N2)
    (hcovered : ∀ x ∈ C, ∃ u ∈ N2, u.neighborMainAddr ∈ mprSet ∧ u.twoHopNeighborAddr = x) :
    let out := select_only N2 L (mprSet, C)
    Selection N P out.1 N2 ∧ mprSet ⊆ out.1 ∧
      ∀ x ∈ out.2, ∃ u ∈ N2, u.neighborMainAddr ∈ out.1 ∧ u.twoHopNeighborAddr = x := by
  induction L generalizing mprSet C with
  | nil => exact ⟨h, fun _ ha => ha, hcovered⟩
  | cons t L ih =>
    have htail : ∀ u ∈ L, u ∈ N2 := fun u hu => hL u (by simp [hu])
    rw [select_only]
    split
    next honly =>
      have ht := hL t (by simp)
      have hsel : Selection N P (insert t.neighborMainAddr mprSet) N2 := by
        refine ⟨h.toProgress.mono (Finset.subset_insert _ _), ?_⟩
        intro a ha
        rcases Finset.mem_insert.mp ha with rfl | ha
        · exact .inr ⟨t, h.sub t ht, rfl⟩
        · exact h.chosen a ha
      have hnoted : ∀ x ∈ C ++ reported t.neighborMainAddr N2, ∃ u ∈ N2,
          u.neighborMainAddr ∈ insert t.neighborMainAddr mprSet ∧ u.twoHopNeighborAddr = x := by
        intro x hx
        rcases List.mem_append.mp hx with hx | hx
        · obtain ⟨u, hu, hmem, haddr⟩ := hcovered x hx
          exact ⟨u, hu, Finset.mem_insert_of_mem hmem, haddr⟩
        · obtain ⟨u, hu, hmain, haddr⟩ := mem_reported.mp hx
          exact ⟨u, hu, by simp [hmain], haddr⟩
      obtain ⟨hout, hsub, hrep⟩ := ih htail hsel hnoted
      exact ⟨hout, (Finset.insert_subset_iff.mp hsub).2, hrep⟩
    next => exact ih htail h hcovered

theorem select_always_sublist (L : List NeighborTuple) (mprSet : MprSet)
    (N2 : List TwoHopNeighborTuple) : (select_always L (mprSet, N2)).2.Sublist N2 := by
  induction L generalizing mprSet N2 with
  | nil => exact List.Sublist.refl N2
  | cons n L ih =>
    rw [select_always]
    split
    · exact (ih _ _).trans List.filter_sublist
    · exact ih _ _

theorem mem_candidates {N : List NeighborTuple} {N2 : List TwoHopNeighborTuple}
    {c : NeighborTuple × ℕ} :
    c ∈ candidates N N2 ↔ c.1 ∈ N ∧ reachability N2 c.1 = c.2 ∧ c.2 ≠ 0 := by
  obtain ⟨n, r⟩ := c
  simp only [candidates, List.mem_flatMap, List.mem_filter, List.mem_insertionSort, List.mem_dedup,
    List.mem_map, decide_eq_true_eq, Prod.mk.injEq, beq_iff_eq]
  constructor
  · rintro ⟨r', ⟨-, hne⟩, m, ⟨hm, hreach⟩, rfl, rfl⟩
    exact ⟨hm, hreach, hne⟩
  · rintro ⟨hn, hreach, hne⟩
    exact ⟨r, ⟨⟨n, hn, hreach⟩, hne⟩, n, ⟨hn, hreach⟩, rfl, rfl⟩

theorem better_mem (s : OlsrState) (max : Option (NeighborTuple × ℕ)) (c : NeighborTuple × ℕ) :
    better s max c = some c ∨ ∃ m, max = some m ∧ better s max c = some m := by
  cases max with
  | none => exact .inl rfl
  | some m =>
    simp only [better]
    grind

theorem foldl_better (s : OlsrState) (L : List (NeighborTuple × ℕ)) (max : Option (NeighborTuple × ℕ)) :
    (∃ c ∈ L, L.foldl (better s) max = some c) ∨ L.foldl (better s) max = max := by
  induction L generalizing max with
  | nil => exact .inr rfl
  | cons c L ih =>
    rw [List.foldl_cons]
    rcases ih (better s max c) with ⟨d, hd, hfold⟩ | hfold
    · exact .inl ⟨d, by simp [hd], hfold⟩
    · rcases better_mem s max c with hb | ⟨m, rfl, hb⟩
      · exact .inl ⟨c, by simp, by rw [hfold, hb]⟩
      · exact .inr (by rw [hfold, hb])

theorem better_isSome (s : OlsrState) (max : Option (NeighborTuple × ℕ)) (c : NeighborTuple × ℕ) :
    (better s max c).isSome := by
  rcases better_mem s max c with hb | ⟨m, -, hb⟩ <;> simp [hb]

theorem foldl_candidates (s : OlsrState) {N : List NeighborTuple} {N2 : List TwoHopNeighborTuple}
    {t : TwoHopNeighborTuple} (ht : t ∈ N2) (hN : ∃ n ∈ N, n.neighborMainAddr = t.neighborMainAddr) :
    ∃ c, (candidates N N2).foldl (better s) none = some c ∧
      ∃ u ∈ N2, u.neighborMainAddr = c.1.neighborMainAddr := by
  obtain ⟨n, hn, hmain⟩ := hN
  have hpos : reachability N2 n ≠ 0 := by
    rw [reachability, ← Nat.pos_iff_ne_zero, List.countP_pos_iff]
    exact ⟨t, ht, by simp [hmain]⟩
  have hmem : (n, reachability N2 n) ∈ candidates N N2 := mem_candidates.mpr ⟨hn, rfl, hpos⟩
  rcases foldl_better s (candidates N N2) none with ⟨c, hc, hfold⟩ | hfold
  · obtain ⟨-, hreach, hne⟩ := mem_candidates.mp hc
    rw [← hreach, reachability, ← Nat.pos_iff_ne_zero, List.countP_pos_iff] at hne
    obtain ⟨u, hu, heq⟩ := hne
    exact ⟨c, hfold, u, hu, (beq_iff_eq.mp heq).symm⟩
  · cases hlist : candidates N N2 with
    | nil => simp [hlist] at hmem
    | cons c L =>
      rw [hlist, List.foldl_cons] at hfold
      have hsome := better_isSome s none c
      rcases foldl_better s L (better s none c) with ⟨d, -, hd⟩ | hd
      · rw [hd] at hfold
        cases hfold
      · rw [← hd, hfold] at hsome
        cases hsome

theorem length_cover_lt {N2 : List TwoHopNeighborTuple} {u : TwoHopNeighborTuple} (hu : u ∈ N2) :
    (cover_two_hop_neighbors u.neighborMainAddr N2).length < N2.length := by
  apply List.length_filter_lt_length_iff_exists.mpr
  exact ⟨u, hu, by simpa using mem_reported.mpr ⟨u, hu, rfl, rfl⟩⟩

theorem cover_loop_spec (s : OlsrState) {N : List NeighborTuple} {P : List TwoHopNeighborTuple}
    (hN : ∀ t ∈ P, ∃ n ∈ N, n.neighborMainAddr = t.neighborMainAddr) {fuel : ℕ}
    {N2 : List TwoHopNeighborTuple} {mprSet : MprSet} (hfuel : N2.length ≤ fuel)
    (h : Selection N P mprSet N2) :
    ∃ out, cover_loop s N fuel N2 mprSet = some out ∧ mprSet ⊆ out ∧ Selection N P out [] := by
  induction fuel generalizing N2 mprSet with
  | zero =>
    obtain rfl := List.length_eq_zero_iff.mp (Nat.le_zero.mp hfuel)
    exact ⟨mprSet, by simp [cover_loop], fun _ ha => ha, h⟩
  | succ fuel ih =>
    cases N2 with
    | nil => exact ⟨mprSet, by simp [cover_loop], fun _ ha => ha, h⟩
    | cons t N2 =>
      obtain ⟨c, hfold, u, hu, hmain⟩ :=
        foldl_candidates s (List.mem_cons_self (a := t)) (hN t (h.sub t (by simp)))
      have hchosen : Chosen N P c.1.neighborMainAddr := .inr ⟨u, h.sub u hu, hmain⟩
      have hshort := length_cover_lt hu
      rw [hmain] at hshort
      obtain ⟨out, hout, hsub, hsel⟩ := ih (by omega) (h.cover hchosen)
      refine ⟨out, ?_, (Finset.insert_subset_iff.mp hsub).2, hsel⟩
      rw [cover_loop, hfold]
      exact hout

theorem mem_symmetric {s : OlsrState} {n : NeighborTuple} :
    n ∈ symmetric s ↔ n ∈ s.m_neighborSet ∧ n.status = .STATUS_SYM := by
  simp [symmetric]

/-- The first symmetric tuple of a neighbour shows it willing. -/
def FirstWilling (s : OlsrState) (a : Ipv4Address) : Prop :=
  ∃ m, s.find_sym_neighbor_tuple a = some m ∧ m.willingness ≠ Willingness.NEVER

theorem reporter_ok_iff {s : OlsrState} {t : TwoHopNeighborTuple} :
    reporter_ok (symmetric s) t = true ↔ FirstWilling s t.neighborMainAddr := by
  have hfind : (symmetric s).find? (fun n => n.neighborMainAddr == t.neighborMainAddr) =
      s.find_sym_neighbor_tuple t.neighborMainAddr := by
    rw [symmetric, List.find?_filter, OlsrState.find_sym_neighbor_tuple]
    congr 1
    funext n
    rw [Bool.eq_iff_iff]
    simp [and_comm]
  rw [reporter_ok, hfind, FirstWilling]
  cases s.find_sym_neighbor_tuple t.neighborMainAddr <;> simp

theorem mem_two_hop {p : RoutingProtocol} {t : TwoHopNeighborTuple} :
    t ∈ two_hop p.m_mainAddress (symmetric p.m_state) p.m_state ↔
      t ∈ p.m_state.m_twoHopNeighborSet ∧ t.twoHopNeighborAddr ≠ p.m_mainAddress ∧
        FirstWilling p.m_state t.neighborMainAddr ∧ ¬ p.Symmetric t.twoHopNeighborAddr := by
  simp only [two_hop, List.mem_filter, Bool.and_eq_true, reporter_ok_iff, RoutingProtocol.Symmetric]
  simp [mem_symmetric, and_assoc]
  grind

end MprComputation

open MprComputation

namespace RoutingProtocol

/-- What an MPR set is for: willing symmetric neighbours that together report every strict
2-hop neighbour which some willing symmetric neighbour reports. -/
structure Covering (p : RoutingProtocol) (mprSet : MprSet) : Prop where
  willing : ∀ a ∈ mprSet, ∃ n ∈ p.m_state.m_neighborSet, n.neighborMainAddr = a ∧
    n.status = .STATUS_SYM ∧ n.willingness ≠ Willingness.NEVER
  always : ∀ n ∈ p.m_state.m_neighborSet, n.status = .STATUS_SYM →
    n.willingness = Willingness.ALWAYS → n.neighborMainAddr ∈ mprSet
  covers : ∀ n ∈ p.m_state.m_neighborSet, n.status = .STATUS_SYM → n.willingness ≠ Willingness.NEVER →
    ∀ x, p.Reports n.neighborMainAddr x → ¬ p.Local x → ¬ p.Symmetric x → ∃ a ∈ mprSet, p.Reports a x

/-- Some neighbour that reports the address has a tuple that the selection goes by. -/
def Selectable (p : RoutingProtocol) (x : Ipv4Address) : Prop :=
  ∃ a, p.Reports a x ∧ (FirstWilling p.m_state a ∨
    ∃ n ∈ p.m_state.m_neighborSet, n.neighborMainAddr = a ∧ n.status = .STATUS_SYM ∧
      n.willingness = Willingness.ALWAYS)

/-- No strict 2-hop neighbour is reported only by willing neighbours whose tuple stands behind
an unwilling one of the same main address. -/
def Unshadowed (p : RoutingProtocol) : Prop :=
  ∀ n ∈ p.m_state.m_neighborSet, n.status = .STATUS_SYM → n.willingness ≠ Willingness.NEVER →
    ∀ x, p.Reports n.neighborMainAddr x → ¬ p.Local x → ¬ p.Symmetric x → p.Selectable x

theorem mpr_computation_spec (p : RoutingProtocol) {fuel : ℕ}
    (hfuel : p.m_state.m_twoHopNeighborSet.length ≤ fuel) :
    ∃ p', p.mpr_computation fuel = some p' ∧
      Selection (symmetric p.m_state) (two_hop p.m_mainAddress (symmetric p.m_state) p.m_state)
        p'.m_state.m_mprSet [] ∧
      ∀ n ∈ symmetric p.m_state, n.willingness = Willingness.ALWAYS →
        n.neighborMainAddr ∈ p'.m_state.m_mprSet := by
  let N := symmetric p.m_state
  let P := two_hop p.m_mainAddress N p.m_state
  have hstart : Selection N P ∅ P := ⟨.refl P, by simp⟩
  obtain ⟨hfirst, -, halways⟩ := select_always_spec N (fun n hn => hn) hstart
  set first := select_always N (∅, P) with hfirstDef
  obtain ⟨hsecond, hsub, hnoted⟩ :=
    select_only_spec (C := []) first.2 (fun t ht => ht) hfirst (by simp)
  set second := select_only first.2 first.2 (first.1, []) with hsecondDef
  have herased : Selection N P second.1 (erase_covered second.2 first.2) :=
    ⟨hsecond.toProgress.erase hnoted, hsecond.chosen⟩
  have hlength : (erase_covered second.2 first.2).length ≤ fuel := by
    calc (erase_covered second.2 first.2).length
        ≤ first.2.length := List.length_filter_le _ _
      _ ≤ P.length := (select_always_sublist N ∅ P).length_le
      _ ≤ p.m_state.m_twoHopNeighborSet.length := List.length_filter_le _ _
      _ ≤ fuel := hfuel
  have hN : ∀ t ∈ P, ∃ n ∈ N, n.neighborMainAddr = t.neighborMainAddr := by
    intro t ht
    obtain ⟨m, hfind, -⟩ := (mem_two_hop.mp ht).2.2.1
    have hm := List.find?_some hfind
    simp only [Bool.and_eq_true, beq_iff_eq] at hm
    exact ⟨m, mem_symmetric.mpr ⟨List.mem_of_find?_eq_some hfind, hm.2⟩, hm.1⟩
  obtain ⟨out, hloop, hgrow, hout⟩ := cover_loop_spec p.m_state hN hlength herased
  refine ⟨{ p with m_state := p.m_state.set_mpr_set out }, ?_, hout, ?_⟩
  · rw [mpr_computation]
    exact congrArg (Option.bind · _) hloop
  · intro n hn hw
    exact hgrow (hsub (halways n hn hw))

theorem symmetric_of_chosen {p : RoutingProtocol} {a : Ipv4Address}
    (h : Chosen (symmetric p.m_state)
      (two_hop p.m_mainAddress (symmetric p.m_state) p.m_state) a) :
    ∃ n ∈ p.m_state.m_neighborSet, n.neighborMainAddr = a ∧ n.status = .STATUS_SYM ∧
      n.willingness ≠ Willingness.NEVER ∧
      (FirstWilling p.m_state a ∨ n.willingness = Willingness.ALWAYS) := by
  rcases h with ⟨n, hn, hmain, hw⟩ | ⟨t, ht, rfl⟩
  · obtain ⟨hmem, hsym⟩ := mem_symmetric.mp hn
    refine ⟨n, hmem, hmain, hsym, ?_, .inr hw⟩
    rw [hw]
    decide
  · have hfirst := (mem_two_hop.mp ht).2.2.1
    obtain ⟨m, hfind, hw⟩ := hfirst
    have hm := List.find?_some hfind
    simp only [Bool.and_eq_true, beq_iff_eq] at hm
    exact ⟨m, List.mem_of_find?_eq_some hfind, hm.1, hm.2, hw, .inl ⟨m, hfind, hw⟩⟩

/-- `MprComputation` ends with a covering set exactly when no strict 2-hop neighbour is
reported by shadowed tuples only. -/
theorem mpr_computation_covers_iff (p : RoutingProtocol) :
    (∃ turns, ∀ fuel ≥ turns, ∃ p', p.mpr_computation fuel = some p' ∧
      p.Covering p'.m_state.m_mprSet) ↔ p.Unshadowed := by
  constructor
  · rintro ⟨turns, hturns⟩ n hn hsym hw x hrep hlocal hneighbor
    obtain ⟨p', hp', hcover⟩ :=
      hturns (max turns p.m_state.m_twoHopNeighborSet.length) (le_max_left _ _)
    obtain ⟨a, ha, hax⟩ := hcover.covers n hn hsym hw x hrep hlocal hneighbor
    obtain ⟨p'', hp'', hsel, -⟩ := p.mpr_computation_spec (le_max_right turns _)
    obtain rfl : p' = p'' := Option.some.inj (hp'.symm.trans hp'')
    obtain ⟨m, hm, hmain, hmsym, -, hor⟩ := symmetric_of_chosen (hsel.chosen a ha)
    exact ⟨a, hax, hor.imp_right fun hwm => ⟨m, hm, hmain, hmsym, hwm⟩⟩
  · intro hun
    refine ⟨p.m_state.m_twoHopNeighborSet.length, ?_⟩
    intro fuel hfuel
    obtain ⟨p', hp', hsel, halways⟩ := p.mpr_computation_spec hfuel
    refine ⟨p', hp', ?_, ?_, ?_⟩
    · intro a ha
      obtain ⟨n, hn, hmain, hsym, hw, -⟩ := symmetric_of_chosen (hsel.chosen a ha)
      exact ⟨n, hn, hmain, hsym, hw⟩
    · intro n hn hsym hw
      exact halways n (mem_symmetric.mpr ⟨hn, hsym⟩) hw
    · intro n hn hsym hw x hrep hlocal hneighbor
      obtain ⟨a, ⟨t, ht, rfl, rfl⟩, hfirst | ⟨m, hm, hmain, hmsym, hmw⟩⟩ :=
        hun n hn hsym hw x hrep hlocal hneighbor
      · have hmem : t ∈ two_hop p.m_mainAddress (symmetric p.m_state) p.m_state :=
          mem_two_hop.mpr ⟨ht, fun h => hlocal (.inl h), hfirst, hneighbor⟩
        obtain ⟨u, hu, hin, haddr⟩ := hsel.covered t hmem (by simp)
        exact ⟨_, hin, u, (mem_two_hop.mp hu).1, rfl, haddr⟩
      · exact ⟨_, hmain ▸ halways m (mem_symmetric.mpr ⟨hm, hmsym⟩) hmw, t, ht, rfl, rfl⟩

/-- Two tuples of one neighbour, as `ProcessMid` leaves them when it renames a second interface
of a neighbour whose willingness has changed. -/
def shadowed : RoutingProtocol where
  m_mainAddress := 1
  m_ipv4 := [[1]]
  m_state := {
    m_neighborSet := [⟨2, .STATUS_SYM, .NEVER⟩, ⟨2, .STATUS_SYM, .DEFAULT⟩]
    m_twoHopNeighborSet := [⟨2, 3, 0⟩] }

/-- No set is computed that covers a 2-hop neighbour of a shadowed tuple. -/
theorem mpr_computation_leaves_out :
    ¬ ∃ turns, ∀ fuel ≥ turns, ∃ p', shadowed.mpr_computation fuel = some p' ∧
      shadowed.Covering p'.m_state.m_mprSet := by
  rintro ⟨turns, hturns⟩
  obtain ⟨p', hp', hcover⟩ := hturns turns (le_refl _)
  have hset : shadowed.mpr_computation turns =
      some { shadowed with m_state := shadowed.m_state.set_mpr_set ∅ } := by
    cases turns <;> rfl
  obtain rfl := Option.some.inj (hset.symm.trans hp')
  obtain ⟨a, ha, -⟩ := hcover.covers ⟨2, .STATUS_SYM, .DEFAULT⟩ (by simp [shadowed]) rfl (by decide) 3
    ⟨⟨2, 3, 0⟩, by simp [shadowed], rfl, rfl⟩
    (by simp [Local, shadowed]) (by simp [Symmetric, shadowed])
  simp [OlsrState.set_mpr_set] at ha

end RoutingProtocol

end Ns3.Olsr
