import Ns3.Foundation.ShortestRoute

/-! A search in breadth, with a queue of the nodes that have been found but not explored, and the parents
of all nodes that have been found. -/

namespace BreadthFirst

open ShortestRoute (Route Shortest)

variable {V : Type*}

structure State (V : Type*) where
  queue : List V
  parent : V → Option V

variable [DecidableEq V]

/-- The source is its own parent. -/
def start (source : V) : State V := ⟨[source], Function.update (fun _ => none) source (some source)⟩

/-- A node that is found for the first time. -/
def discover (u : V) (q : State V) (v : V) : State V :=
  if (q.parent v).isNone then ⟨q.queue ++ [v], Function.update q.parent v (some u)⟩ else q

/-- Whether the destination has been found, and the parents. There is no result when the exploration of a
node has none, or when the bound is too small. -/
def search (neighbors : V → Option (List V)) (dest : V) : ℕ → State V → Option (Bool × (V → Option V))
  | 0, _ => none
  | bound + 1, q =>
    match q.queue with
    | [] => some (false, q.parent)
    | u :: rest =>
      if u = dest then some (true, q.parent)
      else (neighbors u).bind fun l => search neighbors dest bound (l.foldl (discover u) { q with queue := rest })

/-- The links of a graph are those to the neighbors of the nodes, as far as these can be explored. -/
def Explores (neighbors : V → Option (List V)) (adj : V → V → Prop) : Prop :=
  ∀ u l, neighbors u = some l → ∀ v, v ∈ l ↔ adj u v

/-- A path from a node to another along the parents. -/
structure ParentPath (parent : V → Option V) (source v : V) (path : List V) : Prop where
  starts : path.head? = some source
  ends : path.getLast? = some v
  parents : path.IsChain fun a b => b ≠ source ∧ parent b = some a

/-- The levels of the nodes that have been found. Those in the queue are on two levels at most, and all
others but the one that is being explored have found their neighbors. -/
structure Good (adj : V → V → Prop) (source : V) (m : V → ℕ) (level : ℕ) (current : Option V) (q : State V) : Prop where
  zero : m source = 0
  root : (q.parent source).isSome
  found : ∀ u v, v ≠ source → q.parent v = some u → adj u v ∧ m v = m u + 1 ∧ (q.parent u).isSome
  queued : ∀ v ∈ q.queue, (q.parent v).isSome ∧ level ≤ m v ∧ m v ≤ level + 1
  sorted : q.queue.Pairwise fun a b => m a ≤ m b
  nodup : q.queue.Nodup
  explored : ∀ v, (q.parent v).isSome → v ∉ q.queue → m v ≤ level
  done : ∀ u, (q.parent u).isSome → u ∉ q.queue → some u ≠ current → ∀ v, adj u v → (q.parent v).isSome ∧ m v ≤ m u + 1

variable {adj : V → V → Prop} {source dest u v : V} {m : V → ℕ} {level : ℕ} {current : Option V} {q : State V}

theorem start_good (adj : V → V → Prop) (source : V) : Good adj source (fun _ => 0) 0 none (start source) := by
  have hparent : ∀ v, ((start source).parent v).isSome → v = source := by
    intro v hv
    by_contra hne
    simp [start, hne] at hv
  refine ⟨rfl, by simp [start], fun u v hv hu => ?_, fun v hv => ?_, List.pairwise_singleton _ _, List.nodup_singleton _,
    fun _ _ _ => le_refl _, fun u hu hnot => ?_⟩
  · exact absurd (hparent v (Option.isSome_of_eq_some hu)) hv
  · rw [List.mem_singleton.mp hv]
    exact ⟨by simp [start], le_refl _, Nat.zero_le _⟩
  · rw [hparent u hu] at hnot
    exact absurd (List.mem_singleton_self source) hnot

theorem Good.extend {p : State V} (h : Good adj source m level (some u) q) (hu : (q.parent u).isSome) (hlevel : m u = level)
    (hadj : adj u v) (hnew : q.parent v = none) (hqueue : p.queue = q.queue ++ [v]) (hself : p.parent v = some u)
    (hother : ∀ w, w ≠ v → p.parent w = q.parent w) :
    Good adj source (Function.update m v (level + 1)) level (some u) p ∧
      ∀ w, (q.parent w).isSome → Function.update m v (level + 1) w = m w ∧ (p.parent w).isSome := by
  have hold : ∀ w, (q.parent w).isSome → w ≠ v := by
    rintro w hw rfl
    rw [hnew] at hw
    cases hw
  have hfresh : v ∉ q.queue := fun hv => hold v (h.queued v hv).1 rfl
  have hm : ∀ w, (q.parent w).isSome → Function.update m v (level + 1) w = m w :=
    fun w hw => Function.update_of_ne (hold w hw) _ _
  have hparent : ∀ w, (q.parent w).isSome → (p.parent w).isSome := by
    intro w hw
    rwa [hother w (hold w hw)]
  have hcases : ∀ w, (p.parent w).isSome → w = v ∨ (q.parent w).isSome := by
    intro w hw
    by_cases hwv : w = v
    · exact .inl hwv
    · rw [hother w hwv] at hw
      exact .inr hw
  have hout : ∀ w, w ∉ p.queue → w ≠ v ∧ w ∉ q.queue := by
    intro w hw
    rw [hqueue, List.mem_append, List.mem_singleton, not_or] at hw
    exact ⟨hw.2, hw.1⟩
  refine ⟨⟨?_, hparent source h.root, ?_, ?_, ?_, ?_, ?_, ?_⟩, fun w hw => ⟨hm w hw, hparent w hw⟩⟩
  · rw [hm source h.root]
    exact h.zero
  · intro a b hb hab
    by_cases hbv : b = v
    · subst hbv
      rw [hself] at hab
      obtain rfl := Option.some.inj hab
      refine ⟨hadj, ?_, hparent u hu⟩
      rw [Function.update_self, hm u hu, hlevel]
    · rw [hother b hbv] at hab
      obtain ⟨hlink, hsum, hfound⟩ := h.found a b hb hab
      refine ⟨hlink, ?_, hparent a hfound⟩
      rw [Function.update_of_ne hbv, hm a hfound, hsum]
  · intro w hw
    rw [hqueue] at hw
    rcases List.mem_append.mp hw with hw | hw
    · obtain ⟨hfound, hle, hge⟩ := h.queued w hw
      rw [hm w hfound]
      exact ⟨hparent w hfound, hle, hge⟩
    · rw [List.mem_singleton.mp hw, Function.update_self, hself]
      exact ⟨rfl, Nat.le_succ _, le_refl _⟩
  · rw [hqueue]
    refine List.pairwise_append.mpr ⟨?_, List.pairwise_singleton _ _, fun a ha b hb => ?_⟩
    · refine h.sorted.imp_of_mem fun {a b} ha hb hle => ?_
      rwa [hm a (h.queued a ha).1, hm b (h.queued b hb).1]
    · rw [List.mem_singleton.mp hb, Function.update_self, hm a (h.queued a ha).1]
      exact (h.queued a ha).2.2
  · rw [hqueue]
    exact List.nodup_append'.mpr ⟨h.nodup, List.nodup_singleton v, List.disjoint_singleton.mpr hfresh⟩
  · intro w hw hnot
    have hfound := (hcases w hw).resolve_left (hout w hnot).1
    rw [hm w hfound]
    exact h.explored w hfound (hout w hnot).2
  · intro a ha hnot hcurrent b hab
    have hfound := (hcases a ha).resolve_left (hout a hnot).1
    obtain ⟨hb, hle⟩ := h.done a hfound (hout a hnot).2 hcurrent b hab
    rw [hm b hb, hm a hfound]
    exact ⟨hparent b hb, hle⟩

/-- A neighbor of the node that is being explored has been found afterwards; the levels of the nodes that
had been found stay. -/
theorem Good.discover (h : Good adj source m level (some u) q) (hu : (q.parent u).isSome) (hlevel : m u = level)
    (hadj : adj u v) :
    ∃ m', Good adj source m' level (some u) (discover u q v) ∧ ((discover u q v).parent v).isSome ∧
      ∀ w, (q.parent w).isSome → m' w = m w ∧ ((discover u q v).parent w).isSome := by
  unfold BreadthFirst.discover
  split
  next hnew =>
    obtain ⟨hgood, hkeep⟩ := h.extend (p := ⟨q.queue ++ [v], Function.update q.parent v (some u)⟩) hu hlevel hadj
      (Option.isNone_iff_eq_none.mp hnew) rfl (Function.update_self ..) fun w hw => Function.update_of_ne hw _ _
    exact ⟨_, hgood, by simp, hkeep⟩
  next hknown =>
    refine ⟨m, h, ?_, fun w hw => ⟨rfl, hw⟩⟩
    rwa [Option.isNone_iff_eq_none, ← ne_eq, Option.ne_none_iff_isSome] at hknown

theorem Good.discover_all (h : Good adj source m level (some u) q) (hu : (q.parent u).isSome) (hlevel : m u = level)
    (l : List V) (hl : ∀ v ∈ l, adj u v) :
    ∃ m', Good adj source m' level (some u) (l.foldl (BreadthFirst.discover u) q) ∧
      (∀ v ∈ l, ((l.foldl (BreadthFirst.discover u) q).parent v).isSome) ∧
      ∀ w, (q.parent w).isSome → m' w = m w ∧ ((l.foldl (BreadthFirst.discover u) q).parent w).isSome := by
  induction l generalizing q m with
  | nil => exact ⟨m, h, fun v hv => absurd hv List.not_mem_nil, fun w hw => ⟨rfl, hw⟩⟩
  | cons v l ih =>
    obtain ⟨hfirst, hrest⟩ := List.forall_mem_cons.mp hl
    obtain ⟨m₁, hgood, hv, hkeep⟩ := h.discover hu hlevel hfirst
    obtain ⟨m₂, hgood', hall, hkeep'⟩ := ih hgood (hkeep u hu).2 ((hkeep u hu).1.trans hlevel) hrest
    refine ⟨m₂, hgood', fun w hw => ?_, fun w hw => ?_⟩
    · rcases List.mem_cons.mp hw with rfl | hw
      · exact (hkeep' w hv).2
      · exact hall w hw
    · obtain ⟨heq, hfound⟩ := hkeep w hw
      obtain ⟨heq', hfound'⟩ := hkeep' w hfound
      exact ⟨heq'.trans heq, hfound'⟩

omit [DecidableEq V] in
theorem Good.pop {rest : List V} (h : Good adj source m level none q) (hqueue : q.queue = u :: rest) :
    Good adj source m (m u) (some u) { q with queue := rest } := by
  have hsorted := h.sorted
  have hnodup := h.nodup
  rw [hqueue] at hsorted hnodup
  obtain ⟨hfirst, hrest⟩ := List.pairwise_cons.mp hsorted
  obtain ⟨hnot, hnodup⟩ := List.nodup_cons.mp hnodup
  have hu := h.queued u (by rw [hqueue]; exact List.mem_cons_self ..)
  have hcases : ∀ v, v ∉ rest → v = u ∨ v ∉ q.queue := by
    intro v hv
    rw [hqueue, List.mem_cons, or_iff_left hv]
    exact em _
  refine ⟨h.zero, h.root, h.found, fun v hv => ?_, hrest, hnodup, fun v hv hv' => ?_, fun v hv hv' hother w hadj => ?_⟩
  · obtain ⟨hfound, -, hle⟩ := h.queued v (by rw [hqueue]; exact List.mem_cons_of_mem _ hv)
    exact ⟨hfound, hfirst v hv, by omega⟩
  · rcases hcases v hv' with rfl | hout
    · exact le_refl _
    · exact (h.explored v hv hout).trans hu.2.1
  · rcases hcases v hv' with rfl | hout
    · exact absurd rfl hother
    · exact h.done v hv hout (Option.some_ne_none v) w hadj

theorem Good.path (h : Good adj source m level current q) (hv : (q.parent v).isSome) :
    ∃ path, ParentPath q.parent source v path ∧ Route adj source v path ∧ path.length = m v + 1 ∧
      path.IsChain fun a b => m b = m a + 1 := by
  induction hn : m v using Nat.strong_induction_on generalizing v with
  | _ n ih =>
    by_cases hsource : v = source
    · subst hsource
      refine ⟨[v], ⟨rfl, rfl, List.isChain_singleton v⟩, .single, ?_, List.isChain_singleton v⟩
      rw [← hn, h.zero]
      rfl
    · obtain ⟨u, hu⟩ := Option.isSome_iff_exists.mp hv
      obtain ⟨hadj, hsum, hfound⟩ := h.found u v hsource hu
      obtain ⟨path, hpath, hroute, hlength, hlabels⟩ := ih (m u) (by omega) hfound rfl
      have hlast : ∀ x ∈ path.getLast?, ∀ y ∈ [v].head?, x = u ∧ y = v := by
        intro x hx y hy
        exact ⟨Option.some.inj (hx.symm.trans hroute.ends), (Option.some.inj hy).symm⟩
      refine ⟨path ++ [v], ⟨?_, by simp, ?_⟩, hroute.snoc hadj, ?_, ?_⟩
      · exact (hroute.snoc hadj).starts
      · refine hpath.parents.append (List.isChain_singleton v) fun x hx y hy => ?_
        obtain ⟨rfl, rfl⟩ := hlast x hx y hy
        exact ⟨hsource, hu⟩
      · rw [List.length_append, hlength, List.length_singleton]
        omega
      · refine hlabels.append (List.isChain_singleton v) fun x hx y hy => ?_
        obtain ⟨rfl, rfl⟩ := hlast x hx y hy
        exact hsum

theorem Good.shortest {rest : List V} (h : Good adj source m level none q) (hqueue : q.queue = dest :: rest) :
    ∃ path, ParentPath q.parent source dest path ∧ Shortest adj source dest path ∧ path.Nodup := by
  obtain ⟨hfound, hle, hge⟩ := h.queued dest (by rw [hqueue]; exact List.mem_cons_self ..)
  obtain ⟨path, hpath, hroute, hlength, hlabels⟩ := h.path hfound
  have hlow : ∀ v ∈ q.queue, m dest ≤ m v := by
    intro v hv
    have hsorted := h.sorted
    rw [hqueue] at hv hsorted
    rcases List.mem_cons.mp hv with rfl | hv
    · exact le_refl _
    · exact (List.pairwise_cons.mp hsorted).1 v hv
  -- The nodes that have not been found are behind the level of the queue.
  have hrelaxed : ShortestRoute.Relaxed adj fun v => if (q.parent v).isSome then m v else m dest + 1 := by
    intro a b hadj
    by_cases ha : (q.parent a).isSome
    · by_cases hqueued : a ∈ q.queue
      · have hlow' := hlow a hqueued
        by_cases hb : (q.parent b).isSome
        · simp only [ha, hb, if_true]
          by_cases hqueued' : b ∈ q.queue
          · have hhigh := (h.queued b hqueued').2.2
            omega
          · have hexplored := h.explored b hb hqueued'
            omega
        · simp only [ha, hb, if_true]
          exact Nat.succ_le_succ hlow'
      · obtain ⟨hb, hstep⟩ := h.done a ha hqueued (Option.some_ne_none a) b hadj
        simp only [ha, hb, if_true]
        exact hstep
    · by_cases hb : (q.parent b).isSome
      · simp only [ha, hb, if_true]
        by_cases hqueued' : b ∈ q.queue
        · have hhigh := (h.queued b hqueued').2.2
          simp only [Bool.false_eq_true, if_false]
          omega
        · have hexplored := h.explored b hb hqueued'
          simp only [Bool.false_eq_true, if_false]
          omega
      · simp [ha, hb]
  refine ⟨path, hpath, hrelaxed.shortest hroute ?_ ?_, ShortestRoute.nodup_of_labels hlabels⟩
  · simp only [hfound, if_true]
    exact hlength
  · simp only [h.root, if_true]
    exact h.zero

variable {neighbors : V → Option (List V)} {parent : V → Option V}

theorem Good.search {bound : ℕ} (h : Good adj source m level none q) (hadj : Explores neighbors adj)
    (hsearch : search neighbors dest bound q = some (true, parent)) :
    ∃ path, ParentPath parent source dest path ∧ Shortest adj source dest path ∧ path.Nodup := by
  induction bound generalizing q m level with
  | zero => cases hsearch
  | succ bound ih =>
    rw [BreadthFirst.search] at hsearch
    split at hsearch
    · cases hsearch
    next u rest hqueue =>
      split at hsearch
      next hdest =>
        subst hdest
        cases hsearch
        exact h.shortest hqueue
      · obtain ⟨l, hl, hrest⟩ := Option.bind_eq_some_iff.mp hsearch
        have hu := (h.queued u (by rw [hqueue]; exact List.mem_cons_self ..)).1
        obtain ⟨m', hgood, hall, hkeep⟩ := (h.pop hqueue).discover_all hu rfl l fun v hv => (hadj u l hl v).mp hv
        refine ih (m := m') ⟨hgood.zero, hgood.root, hgood.found, hgood.queued, hgood.sorted, hgood.nodup,
          hgood.explored, fun a ha hnot _ b hlink => ?_⟩ hrest
        by_cases hcurrent : a = u
        · subst hcurrent
          have hfound := hall b ((hadj a l hl b).mpr hlink)
          refine ⟨hfound, ?_⟩
          rw [(hkeep a hu).1]
          by_cases hqueued : b ∈ (l.foldl (BreadthFirst.discover a) { q with queue := rest }).queue
          · exact (hgood.queued b hqueued).2.2
          · exact (hgood.explored b hfound hqueued).trans (Nat.le_succ _)
        · exact hgood.done a ha hnot (fun heq => hcurrent (Option.some.inj heq)) b hlink

theorem search_shortest {bound : ℕ} (hadj : Explores neighbors adj)
    (hsearch : search neighbors dest bound (start source) = some (true, parent)) :
    ∃ path, ParentPath parent source dest path ∧ Shortest adj source dest path ∧ path.Nodup :=
  (start_good adj source).search hadj hsearch

end BreadthFirst
