import Mathlib

/-! Least costs to reach a set of targets along weighted hops, and tables of metrics that are
certificates for them. -/

namespace WeightedPath

variable {V : Type*}

/-- A path of hops to a target, with its cost. -/
inductive Path (hop : V → ℕ → V → Prop) (target : V → Prop) : V → ℕ → Prop
  | nil {r : V} (h : target r) : Path hop target r 0
  | cons {r s : V} {w c : ℕ} (hhop : hop r w s) (hrest : Path hop target s c) : Path hop target r (w + c)

/-- The least cost of a path to a target; infinite when there is none. -/
noncomputable def distance (hop : V → ℕ → V → Prop) (target : V → Prop) (r : V) : ℕ∞ :=
  ⨅ c : { c : ℕ // Path hop target r c }, (c : ℕ∞)

variable {hop : V → ℕ → V → Prop} {target : V → Prop} {m : V → ℕ} {base limit : ℕ} {r : V}

theorem distance_le {c : ℕ} (h : Path hop target r c) : distance hop target r ≤ c :=
  iInf_le (fun c : { c : ℕ // Path hop target r c } => (c : ℕ∞)) ⟨c, h⟩

theorem le_distance {d : ℕ∞} (h : ∀ c, Path hop target r c → d ≤ c) : d ≤ distance hop target r :=
  le_iInf fun c => h c c.2

def Relaxed (hop : V → ℕ → V → Prop) (m : V → ℕ) : Prop := ∀ r w s, hop r w s → m r ≤ w + m s

/-- Below the limit, a metric is that of a target or is attained by the next hop. -/
def Attained (hop : V → ℕ → V → Prop) (target : V → Prop) (next : V → V → Prop) (m : V → ℕ)
    (base limit : ℕ) : Prop :=
  ∀ r, m r < limit →
    (target r ∧ m r = base) ∨ ∃ s w, next r s ∧ hop r w s ∧ 0 < w ∧ m r = w + m s

theorem Relaxed.le_path (h : Relaxed hop m) (htarget : ∀ r, target r → m r ≤ base) {c : ℕ}
    (hpath : Path hop target r c) : m r ≤ base + c := by
  induction hpath with
  | nil hr => exact htarget _ hr
  | cons hhop _ ih =>
    have hstep := h _ _ _ hhop
    omega

theorem Attained.follow {next : V → V → Prop} (h : Attained hop target next m base limit)
    (hr : m r < limit) :
    ∃ (l : List V) (c : ℕ), List.IsChain next (r :: l) ∧ (∀ x ∈ l, m x < m r) ∧ (r :: l).Nodup ∧
      target ((r :: l).getLast (List.cons_ne_nil r l)) ∧ Path hop target r c ∧ m r = base + c := by
  induction hm : m r using Nat.strong_induction_on generalizing r with
  | _ n ih =>
    subst hm
    rcases h r hr with ⟨htarget, hbase⟩ | ⟨s, w, hnext, hhop, hpos, hsum⟩
    · exact ⟨[], 0, by simp, by simp, by simp, htarget, .nil htarget, hbase⟩
    · have hlt : m s < m r := by omega
      obtain ⟨l, c, hchain, hsmall, hnodup, hlast, hpath, hs⟩ := ih (m s) hlt (hlt.trans hr) rfl
      have hless : ∀ x ∈ s :: l, m x < m r := by
        intro x hx
        rcases List.mem_cons.mp hx with rfl | hx
        · exact hlt
        · exact (hsmall x hx).trans hlt
      refine ⟨s :: l, w + c, ?_, hless, ?_, ?_, .cons hhop hpath, by omega⟩
      · exact List.isChain_cons_cons.mpr ⟨hnext, hchain⟩
      · exact List.nodup_cons.mpr ⟨fun hmem => lt_irrefl _ (hless r hmem), hnodup⟩
      · rwa [List.getLast_cons (List.cons_ne_nil s l)]

theorem eq_min_distance {next : V → V → Prop} (hrelaxed : Relaxed hop m)
    (htarget : ∀ r, target r → m r ≤ base) (hlimit : ∀ r, m r ≤ limit)
    (hattained : Attained hop target next m base limit) (r : V) :
    (m r : ℕ∞) = min (limit : ℕ∞) (base + distance hop target r) := by
  refine le_antisymm (le_min (by exact_mod_cast hlimit r) ?_) ?_
  · have hle : (m r : ℕ∞) - base ≤ distance hop target r := by
      refine le_distance fun c hc => ?_
      have hpath := hrelaxed.le_path htarget hc
      exact tsub_le_iff_left.mpr (by exact_mod_cast hpath)
    exact tsub_le_iff_left.mp hle
  · by_cases hr : m r < limit
    · obtain ⟨l, c, -, -, -, -, hpath, hm⟩ := hattained.follow hr
      calc min (limit : ℕ∞) (base + distance hop target r)
          ≤ base + distance hop target r := min_le_right _ _
        _ ≤ base + c := by gcongr; exact distance_le hpath
        _ = m r := by rw [hm]; push_cast; rfl
    · have heq : m r = limit := le_antisymm (hlimit r) (not_lt.mp hr)
      exact (min_le_left _ _).trans (by rw [heq])

end WeightedPath

/-! Routes of a graph, as lists of nodes, and distances as certificates for the shortest ones. -/

namespace ShortestRoute

variable {V : Type*}

/-- A route from one node to another. -/
structure Route (adj : V → V → Prop) (a b : V) (path : List V) : Prop where
  starts : path.head? = some a
  ends : path.getLast? = some b
  linked : path.IsChain adj

/-- A route that no other one is shorter than. -/
structure Shortest (adj : V → V → Prop) (a b : V) (path : List V) : Prop extends Route adj a b path where
  least : ∀ path', Route adj a b path' → path.length ≤ path'.length

variable {adj adj' : V → V → Prop} {a b c : V} {path path' : List V} {m : V → ℕ}

theorem Route.mono (h : Route adj a b path) (hsub : ∀ u v, adj u v → adj' u v) : Route adj' a b path :=
  ⟨h.starts, h.ends, h.linked.imp hsub⟩

theorem Route.ne_nil (h : Route adj a b path) : path ≠ [] := by
  rintro rfl
  cases h.starts

theorem Shortest.of_sub (h : Shortest adj a b path) (hsub : ∀ u v, adj' u v → adj u v)
    (hlinked : path.IsChain adj') : Shortest adj' a b path :=
  ⟨⟨h.starts, h.ends, hlinked⟩, fun path' hpath' => h.least path' (hpath'.mono hsub)⟩

theorem Route.single : Route adj a a [a] := ⟨rfl, rfl, List.isChain_singleton a⟩

theorem Route.cons (hadj : adj a b) (h : Route adj b c path) : Route adj a c (a :: path) := by
  obtain ⟨hstarts, hends, hlinked⟩ := h
  cases path with
  | nil => cases hstarts
  | cons x path =>
    obtain rfl := Option.some.inj hstarts
    exact ⟨rfl, by rwa [List.getLast?_cons_cons], List.isChain_cons_cons.mpr ⟨hadj, hlinked⟩⟩

theorem Route.snoc (h : Route adj a b path) (hadj : adj b c) : Route adj a c (path ++ [c]) := by
  refine ⟨?_, by simp, ?_⟩
  · rw [List.head?_append_of_ne_nil _ h.ne_nil]
    exact h.starts
  · refine h.linked.append (List.isChain_singleton c) fun x hx y hy => ?_
    obtain rfl := Option.some.inj (hx.symm.trans h.ends)
    obtain rfl := Option.some.inj hy
    exact hadj

theorem Route.exists_adj (h : Route adj a b path) (hne : a ≠ b) : ∃ u v, adj u v := by
  obtain ⟨hstarts, hends, hlinked⟩ := h
  match path with
  | [] => cases hstarts
  | [x] => exact absurd ((Option.some.inj hstarts).symm.trans (Option.some.inj hends)) hne
  | x :: y :: _ => exact ⟨x, y, (List.isChain_cons_cons.mp hlinked).1⟩

theorem Route.one_lt_length (h : Route adj a b path) (hne : a ≠ b) : 1 < path.length := by
  obtain ⟨hstarts, hends, -⟩ := h
  match path with
  | [] => cases hstarts
  | [x] => exact absurd ((Option.some.inj hstarts).symm.trans (Option.some.inj hends)) hne
  | x :: y :: _ => exact Nat.succ_lt_succ (Nat.succ_pos _)

theorem Route.ne_of_nodup (h : Route adj a b path) (hnodup : path.Nodup) (hlong : 1 < path.length) : a ≠ b := by
  obtain ⟨hstarts, hends, -⟩ := h
  match path with
  | [] => cases hstarts
  | [x] => exact absurd hlong (lt_irrefl _)
  | x :: y :: rest =>
    obtain rfl := Option.some.inj hstarts
    rintro rfl
    rw [List.getLast?_cons_cons] at hends
    exact (List.nodup_cons.mp hnodup).1 (List.mem_of_getLast? hends)

theorem Route.reverse (h : Route (fun u v => adj v u) b a path) : Route adj a b path.reverse :=
  ⟨by rw [List.head?_reverse, h.ends], by rw [List.getLast?_reverse, h.starts], List.isChain_reverse.mpr h.linked⟩

/-- Along a link the label grows by at most one. -/
def Relaxed (adj : V → V → Prop) (m : V → ℕ) : Prop := ∀ u v, adj u v → m v ≤ m u + 1

theorem Relaxed.le_length (h : Relaxed adj m) (hroute : Route adj a b path) : m b + 1 ≤ m a + path.length := by
  obtain ⟨hstarts, hends, hlinked⟩ := hroute
  induction path generalizing a with
  | nil => cases hstarts
  | cons x path ih =>
    obtain rfl := Option.some.inj hstarts
    cases path with
    | nil =>
      obtain rfl := Option.some.inj hends
      exact le_refl _
    | cons y path =>
      obtain ⟨hadj, hlinked⟩ := List.isChain_cons_cons.mp hlinked
      have hrest := ih rfl (by rwa [List.getLast?_cons_cons] at hends) hlinked
      have hstep := h _ _ hadj
      rw [List.length_cons]
      omega

theorem nodup_of_labels (h : path.IsChain fun u v => m v = m u + 1) : path.Nodup := by
  have hlt : path.IsChain fun u v => m u < m v := h.imp fun u v heq => by omega
  have htrans : IsTrans V fun u v => m u < m v := ⟨fun _ _ _ => Nat.lt_trans⟩
  exact (List.isChain_iff_pairwise.mp hlt).imp fun hless heq => absurd (congrArg m heq) hless.ne

theorem Relaxed.shortest (h : Relaxed adj m) (hroute : Route adj a b path) (hlength : path.length = m b + 1)
    (hzero : m a = 0) : Shortest adj a b path := by
  refine ⟨hroute, fun path' hpath' => ?_⟩
  have hle := h.le_length hpath'
  omega

end ShortestRoute
