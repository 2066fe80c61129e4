import Ns3.Dsr.LinkCache.Dijkstra
import Ns3.Dsr.PathCache
import Ns3.Foundation.Reachable

namespace Ns3.Dsr

open ShortestRoute (Route Shortest)
open Transition (Reachable)

variable {source a b u v d node : Ipv4Address} {path : List Ipv4Address} {link : Link} {s s' : LinkCache}

theorem Link.eq_of_iff : link = Link.of a b ↔ (a = link.low ∧ b = link.high) ∨ (a = link.high ∧ b = link.low) := by
  obtain ⟨low, high, hordered⟩ := link
  unfold Link.of
  split
  next hlt =>
    rw [Link.mk.injEq]
    constructor
    · rintro ⟨rfl, rfl⟩
      exact .inl ⟨rfl, rfl⟩
    · rintro (⟨rfl, rfl⟩ | ⟨rfl, rfl⟩)
      · exact ⟨rfl, rfl⟩
      · exact absurd hlt (UInt32.not_lt.mpr hordered)
  next hlt =>
    rw [Link.mk.injEq]
    constructor
    · rintro ⟨rfl, rfl⟩
      exact .inr ⟨rfl, rfl⟩
    · rintro (⟨rfl, rfl⟩ | ⟨rfl, rfl⟩)
      · have heq := UInt32.le_antisymm hordered (UInt32.not_lt.mp hlt)
        exact ⟨heq, heq.symm⟩
      · exact ⟨rfl, rfl⟩

theorem Link.of_comm (a b : Ipv4Address) : Link.of a b = Link.of b a :=
  Link.eq_of_iff.mpr ((Link.eq_of_iff.mp rfl).symm.imp And.symm And.symm)

theorem Link.mem_of_eq (h : Link.of a b = Link.of u v) : b = u ∨ b = v := by
  rcases Link.eq_of_iff.mp (Link.of_comm u v ▸ h.symm) with ⟨-, hb⟩ | ⟨-, hb⟩
  all_goals
    unfold Link.of at hb
    split at hb <;> tauto

namespace LinkCache

def weight (G : NetGraph) (u v : Ipv4Address) : Option Nat := ((G.find u).getD ∅).find v

theorem weight_add_weight (G : NetGraph) (a b u v : Ipv4Address) :
    weight (add_weight G a b) u v = if u = a ∧ v = b then some 1 else weight G u v := by
  rw [weight, add_weight, OrderedMap.find_set]
  by_cases hu : u = a
  · subst hu
    rw [if_pos rfl, Option.getD_some, OrderedMap.find_set]
    simp [weight]
  · rw [if_neg hu, if_neg fun h => hu h.1]
    rfl

theorem weight_add_edge (G : NetGraph) (i : Link × Time) (u v : Ipv4Address) :
    weight (add_edge G i) u v = if i.1 = Link.of u v then some 1 else weight G u v := by
  rw [add_edge, weight_add_weight, weight_add_weight]
  by_cases h : i.1 = Link.of u v
  · rw [if_pos h]
    rcases Link.eq_of_iff.mp h with hends | hends
    · rw [if_pos hends]
      split <;> rfl
    · rw [if_pos hends]
  · have hends := mt Link.eq_of_iff.mpr h
    rw [if_neg h, if_neg fun hc => hends (.inr hc), if_neg fun hc => hends (.inl hc)]

theorem weight_graph (l : List (Link × Time)) (u v : Ipv4Address) :
    weight (l.foldl add_edge ∅) u v = if Link.of u v ∈ l.map Prod.fst then some 1 else none := by
  induction l using List.reverseRecOn with
  | nil => rfl
  | append_singleton l i ih =>
    rw [List.foldl_append, List.foldl_cons, List.foldl_nil, weight_add_edge, ih, List.map_append, List.map_cons, List.map_nil]
    by_cases hlast : i.1 = Link.of u v
    · simp [hlast]
    · have hmem : Link.of u v ∈ l.map Prod.fst ↔ Link.of u v ∈ l.map Prod.fst ++ [i.1] := by
        rw [List.mem_append, List.mem_singleton, or_iff_left (Ne.symm hlast)]
      rw [if_neg hlast]
      exact if_congr hmem rfl rfl

theorem graph_nodes (l : List (Link × Time)) (h : ((l.foldl add_edge ∅).find v).isSome) :
    ∃ i ∈ l, v = i.1.low ∨ v = i.1.high := by
  induction l using List.reverseRecOn with
  | nil => cases h
  | append_singleton l i ih =>
    rw [List.foldl_append, List.foldl_cons, List.foldl_nil, add_edge, add_weight, OrderedMap.find_set] at h
    by_cases hhigh : v = i.1.high
    · exact ⟨i, by simp, .inr hhigh⟩
    · rw [if_neg hhigh, add_weight, OrderedMap.find_set] at h
      by_cases hlow : v = i.1.low
      · exact ⟨i, by simp, .inl hlow⟩
      · rw [if_neg hlow] at h
        obtain ⟨j, hj, hends⟩ := ih h
        exact ⟨j, by simp [hj], hends⟩

theorem weight_update_net_graph (s : LinkCache) (u v : Ipv4Address) : weight s.update_net_graph.net_graph u v =
    if Link.of u v ∈ s.link_cache.keys then some 1 else none := weight_graph s.link_cache.entries u v

theorem edge_update_net_graph : Edge s.update_net_graph.net_graph u v ↔ (s.link_cache.find (Link.of u v)).isSome := by
  rw [← OrderedMap.mem_keys]
  change weight _ u v = some 1 ↔ _
  rw [weight_update_net_graph]
  split
  next hmem => exact iff_of_true rfl hmem
  next hmem => exact iff_of_false (fun hnone => by cases hnone) hmem

theorem plain_update_net_graph (h : ProperLinks s.link_cache) : Plain s.update_net_graph.net_graph := by
  refine ⟨fun u v w hw => ?_, fun u v hedge => ?_, ?_⟩
  · have hweight := weight_update_net_graph s u v
    rw [weight, hw] at hweight
    split at hweight
    · exact Option.some.inj hweight
    · cases hweight
  · rw [edge_update_net_graph, Link.of_comm, ← edge_update_net_graph]
    exact hedge
  · rw [← Option.not_isSome_iff_eq_none]
    intro hnode
    obtain ⟨⟨link, stability⟩, hmem, hends⟩ := graph_nodes _ hnode
    have hfind := OrderedMap.find_eq_some_iff.mpr hmem
    rcases hends with hlow | hhigh
    · rw [show link = Link.of link.high link.low from Link.eq_of_iff.mpr (.inr ⟨rfl, rfl⟩)] at hfind
      exact h _ _ _ hfind hlow.symm
    · rw [show link = Link.of link.low link.high from Link.eq_of_iff.mpr (.inl ⟨rfl, rfl⟩)] at hfind
      exact h _ _ _ hfind hhigh.symm

/-- The best route table is that of a graph with all links of the cache. -/
structure Good (source : Ipv4Address) (s : LinkCache) : Prop where
  proper : ProperLinks s.link_cache
  within : ∀ a b, (s.link_cache.find (Link.of a b)).isSome → Edge s.net_graph a b
  best : Best s.net_graph source s.best_routes_table

theorem Good.of_sub (h : s.Good source) (hgraph : s'.net_graph = s.net_graph)
    (htable : s'.best_routes_table = s.best_routes_table)
    (hsub : ∀ link, (s'.link_cache.find link).isSome → (s.link_cache.find link).isSome) : s'.Good source := by
  refine ⟨fun a b stability hfind => ?_, fun a b hfind => ?_, ?_⟩
  · obtain ⟨old, hold⟩ := Option.isSome_iff_exists.mp (hsub _ (Option.isSome_of_eq_some hfind))
    exact h.proper a b old hold
  · rw [hgraph]
    exact h.within a b (hsub _ hfind)
  · rw [hgraph, htable]
    exact h.best

theorem rebuild_good (hproper : ProperLinks s.link_cache) (hsource : source ≠ Ipv4Address.get_broadcast) :
    ∃ s', s.update_net_graph.rebuild_best_route_table source = some s' ∧ s'.Good source := by
  obtain ⟨G, table, hrebuild, hedges, hbest⟩ := rebuild_spec (C := s.link_cache) (t := s.now)
    (plain_update_net_graph hproper) hproper hsource
  refine ⟨{ s.update_net_graph with net_graph := G, best_routes_table := table }, ?_, hproper, fun a b hfind => ?_, ?_⟩
  · exact congrArg (Option.map _) hrebuild
  · exact (hedges a b).mpr (edge_update_net_graph.mpr hfind)
  · have heq : Edge G = Edge s.update_net_graph.net_graph := funext₂ fun a b => propext (hedges a b)
    refine ⟨?_, ?_⟩
    · change ∀ v path, table.find v = some path → v ≠ source ∧ Shortest (Edge G) source v path ∧ path.Nodup
      rw [heq]
      exact hbest.shortest
    · change ∀ v path, v ≠ source → Route (Edge G) source v path → path.length ≤ maxweight → (table.find v).isSome
      rw [heq]
      exact hbest.complete

/-- Nothing but the lifetimes of nodes is changed. -/
structure SameLinks (s s' : LinkCache) : Prop where
  link_cache : s'.link_cache = s.link_cache
  net_graph : s'.net_graph = s.net_graph
  best_routes_table : s'.best_routes_table = s.best_routes_table
  now : s'.now = s.now

theorem SameLinks.refl (s : LinkCache) : SameLinks s s := ⟨rfl, rfl, rfl, rfl⟩

theorem SameLinks.trans {s'' : LinkCache} (h : SameLinks s s') (h' : SameLinks s' s'') : SameLinks s s'' :=
  ⟨h'.link_cache.trans h.link_cache, h'.net_graph.trans h.net_graph, h'.best_routes_table.trans h.best_routes_table,
    h'.now.trans h.now⟩

theorem sameLinks_inc_stability (s : LinkCache) (node : Ipv4Address) : SameLinks s (s.inc_stability node) := by
  unfold inc_stability
  split <;> exact ⟨rfl, rfl, rfl, rfl⟩

theorem sameLinks_decrease_node (s : LinkCache) (node : Ipv4Address) : SameLinks s (s.decrease_node node) := by
  unfold decrease_node dec_stability
  split
  · exact .refl s
  · split <;> exact ⟨rfl, rfl, rfl, rfl⟩

theorem sameLinks_know_node (s : LinkCache) (node : Ipv4Address) : SameLinks s (s.know_node node) := by
  unfold know_node
  split <;> exact ⟨rfl, rfl, rfl, rfl⟩

theorem sameLinks_extend_nodes (s : LinkCache) (rt : List Ipv4Address) : SameLinks s (rt.foldl extend_node s) := by
  induction rt generalizing s with
  | nil => exact .refl s
  | cons node rt ih =>
    refine SameLinks.trans ?_ (ih (s.extend_node node))
    unfold extend_node
    split
    · exact .refl s
    · split
      · exact sameLinks_inc_stability s node
      · exact .refl s

theorem Good.of_sameLinks (h : s.Good source) (hsame : SameLinks s s') : s'.Good source :=
  h.of_sub hsame.net_graph hsame.best_routes_table fun link hlink => by rwa [hsame.link_cache] at hlink

theorem Good.purge_link_node (h : s.Good source) : s.purge_link_node.Good source := by
  refine h.of_sub rfl rfl fun link hlink => ?_
  obtain ⟨stability, hfind⟩ := Option.isSome_iff_exists.mp hlink
  exact Option.isSome_of_eq_some (OrderedMap.find_filter_eq_some_iff.mp hfind).1

theorem Good.extend_links (h : s.Good source) (l : List (Ipv4Address × Ipv4Address)) : (l.foldl extend_link s).Good source := by
  induction l generalizing s with
  | nil => exact h
  | cons hop l ih =>
    refine ih ?_
    unfold extend_link
    split
    · exact h
    next stability hfind =>
      split
      · refine h.of_sub rfl rfl fun link hlink => ?_
        change ((s.link_cache.set _ _).find link).isSome at hlink
        rw [OrderedMap.find_set] at hlink
        split at hlink
        next heq =>
          rw [heq, hfind]
          rfl
        · exact hlink
      · exact h

theorem Good.extend_route (h : s.Good source) (rt : List Ipv4Address) : (s.extend_route rt).Good source := by
  unfold LinkCache.extend_route
  split
  · exact h.purge_link_node
  · exact (h.purge_link_node.extend_links _).of_sameLinks (sameLinks_extend_nodes _ rt)

theorem properLinks_add_links (h : ProperLinks s.link_cache) (l : List (Ipv4Address × Ipv4Address))
    (hl : ∀ hop ∈ l, hop.1 ≠ Ipv4Address.get_broadcast ∧ hop.2 ≠ Ipv4Address.get_broadcast) :
    ProperLinks (l.foldl add_link s).link_cache := by
  induction l generalizing s with
  | nil => exact h
  | cons hop l ih =>
    obtain ⟨⟨hfirst, hsecond⟩, hrest⟩ := List.forall_mem_cons.mp hl
    refine ih (fun a b stability hfind => ?_) hrest
    have hsame := (sameLinks_know_node s hop.1).trans (sameLinks_know_node _ hop.2)
    change (OrderedMap.set _ _ _).find _ = _ at hfind
    rw [OrderedMap.find_set, hsame.link_cache] at hfind
    split at hfind
    next heq =>
      rcases Link.mem_of_eq heq with rfl | rfl
      · exact hfirst
      · exact hsecond
    · exact h a b stability hfind

/-- What the runs are assumed to do: a route that is added is not empty, and time does not go back. -/
def Proper (s : LinkCache) : Event → Prop
  | .add_route_link nodelist => nodelist ≠ [] ∧ Ipv4Address.get_broadcast ∉ nodelist
  | .advance t => s.now ≤ t
  | _ => True

instance (s : LinkCache) (e : Event) : Decidable (s.Proper e) := by
  cases e <;> unfold Proper <;> infer_instance

theorem add_route_link_good (h : s.Good source) (hsource : source ≠ Ipv4Address.get_broadcast)
    {nodelist : List Ipv4Address} (hne : nodelist ≠ []) (hnodes : Ipv4Address.get_broadcast ∉ nodelist) :
    ∃ s', s.add_route_link nodelist source = some s' ∧ s'.Good source := by
  rw [add_route_link, if_neg hne]
  refine rebuild_good (properLinks_add_links h.purge_link_node.proper _ fun hop hhop => ?_) hsource
  obtain ⟨hfirst, hsecond⟩ := List.of_mem_zip hhop
  exact ⟨fun heq => hnodes (heq ▸ hfirst), fun heq => hnodes (heq ▸ List.mem_of_mem_tail hsecond)⟩

theorem delete_all_routes_include_link_good (h : s.Good source) (hsource : source ≠ Ipv4Address.get_broadcast)
    (error_src unreach_node : Ipv4Address) :
    ∃ s', s.delete_all_routes_include_link error_src unreach_node source = some s' ∧ s'.Good source := by
  refine rebuild_good (fun a b stability hfind => ?_) hsource
  rw [((sameLinks_decrease_node _ error_src).trans (sameLinks_decrease_node _ unreach_node)).link_cache] at hfind
  exact h.purge_link_node.proper a b stability (OrderedMap.find_erase_eq_some_iff.mp (OrderedMap.find_erase_eq_some_iff.mp hfind).1).1

theorem Good.step (h : s.Good source) (hsource : source ≠ Ipv4Address.get_broadcast) {e : Event} (he : s.Proper e) :
    ∃ s', s.step source e = some s' ∧ s'.Good source := by
  cases e with
  | add_route_link nodelist => exact add_route_link_good h hsource he.1 he.2
  | use_extends rt => exact ⟨_, rfl, h.extend_route rt⟩
  | delete_all_routes_include_link error_src unreach_node =>
    exact delete_all_routes_include_link_good h hsource error_src unreach_node
  | lookup_route_link id => exact ⟨_, rfl, h.purge_link_node⟩
  | advance t => exact ⟨{ s with now := t }, if_pos he, h.of_sub rfl rfl fun _ => id⟩

/-- The link is in the cache and has not expired. -/
def Live (s : LinkCache) (a b : Ipv4Address) : Prop := ∃ stability, s.link_cache.find (Link.of a b) = some stability ∧ s.now < stability

/-- A route of one link or more along live links, without loops. -/
structure LiveRoute (s : LinkCache) (source d : Ipv4Address) (path : List Ipv4Address) : Prop extends Route s.Live source d path where
  nodup : path.Nodup
  long : 1 < path.length

/-- A lookup finds a route if there is one, and a shortest one. -/
def FindsShortest (source : Ipv4Address) (s : LinkCache) (d : Ipv4Address) : Prop :=
  ((s.lookup_route_link d).1.isSome ↔ ∃ path, s.LiveRoute source d path) ∧
    ∀ e, (s.lookup_route_link d).1 = some e →
      s.LiveRoute source d e.path ∧ ∀ path, s.LiveRoute source d path → e.path.length ≤ path.length

/-- No link of the route that has been computed for the node has expired. -/
def Fresh (s : LinkCache) (d : Ipv4Address) : Prop := ∀ path, s.best_routes_table.find d = some path → path.IsChain s.Live

/-- If the graph has a route to the node, then it has one below the greatest weight. -/
def Near (source : Ipv4Address) (s : LinkCache) (d : Ipv4Address) : Prop :=
  ∀ path, Route (Edge s.net_graph) source d path → ∃ path', Route (Edge s.net_graph) source d path' ∧ path'.length ≤ maxweight

def Initial (s : LinkCache) : Prop :=
  s.link_cache = ∅ ∧ s.node_cache = ∅ ∧ s.net_graph = ∅ ∧ s.best_routes_table = ∅

theorem Initial.good (h : Initial s) : s.Good source := by
  obtain ⟨hlinks, -, hgraph, htable⟩ := h
  refine ⟨fun a b stability hfind => ?_, fun a b hfind => ?_, ⟨fun v path hfind => ?_, fun v path hv hroute => ?_⟩⟩
  · rw [hlinks] at hfind
    cases hfind
  · rw [hlinks] at hfind
    cases hfind
  · rw [htable] at hfind
    cases hfind
  · obtain ⟨a, b, hedge⟩ := hroute.exists_adj (Ne.symm hv)
    rw [hgraph] at hedge
    cases hedge

theorem lookup_route_link_fst (s : LinkCache) (d : Ipv4Address) : (s.lookup_route_link d).1 =
    (s.best_routes_table.find d).bind fun path =>
      if path.length < 2 then none else some { dst := d, path := path, expire := s.route_cache_timeout + s.now } := by
  have hpurge : s.purge_link_node.best_routes_table = s.best_routes_table := rfl
  unfold lookup_route_link
  dsimp only
  rw [hpurge]
  cases s.best_routes_table.find d <;> rfl

/-- In the runs of a link cache every call ends, and a lookup is right exactly when no link of the route
that has been computed for the node has expired. -/
theorem lookup_route_link_shortest (hsource : source ≠ Ipv4Address.get_broadcast)
    (h : Reachable Initial (fun s => s.step source) Proper s) :
    (∀ e, s.Proper e → (s.step source e).isSome) ∧
      ∀ d, s.Near source d → (s.FindsShortest source d ↔ s.Fresh d) := by
  have hgood : s.Good source := by
    refine h.invariant (I := Good source) (fun _ => Initial.good) fun s e s' hs he hstep => ?_
    obtain ⟨s'', hstep', hs''⟩ := hs.step hsource he
    obtain rfl := Option.some.inj (hstep.symm.trans hstep')
    exact hs''
  refine ⟨fun e he => ?_, fun d hnear => ?_⟩
  · obtain ⟨s', hstep, -⟩ := hgood.step hsource he
    exact Option.isSome_of_eq_some hstep
  have hlive : ∀ a b, s.Live a b → Edge s.net_graph a b :=
    fun a b ⟨stability, hfind, _⟩ => hgood.within a b (Option.isSome_of_eq_some hfind)
  rw [FindsShortest, lookup_route_link_fst]
  cases htable : s.best_routes_table.find d with
  | none =>
    refine iff_of_true ⟨iff_of_false (fun hsome => by cases hsome) ?_, fun e he => by cases he⟩
      fun path hpath => by rw [htable] at hpath; cases hpath
    rintro ⟨path, hpath⟩
    have hd : d ≠ source := fun heq => hpath.toRoute.ne_of_nodup hpath.nodup hpath.long heq.symm
    obtain ⟨path', hpath', hlength⟩ := hnear path (hpath.toRoute.mono hlive)
    have hsome := hgood.best.complete d path' hd hpath' hlength
    rw [htable] at hsome
    cases hsome
  | some path =>
    obtain ⟨hd, hshortest, hnodup⟩ := hgood.best.shortest d path htable
    have hlong : 1 < path.length := hshortest.toRoute.one_lt_length (Ne.symm hd)
    rw [Option.bind_some, if_neg (by omega)]
    constructor
    · rintro ⟨-, hfound⟩ path' hpath'
      obtain rfl := Option.some.inj (htable.symm.trans hpath')
      exact (hfound _ rfl).1.linked
    · intro hfresh
      have hbest : Shortest s.Live source d path := hshortest.of_sub hlive (hfresh path htable)
      have hroute : s.LiveRoute source d path := ⟨hbest.toRoute, hnodup, hlong⟩
      refine ⟨iff_of_true rfl ⟨path, hroute⟩, fun e he => ?_⟩
      obtain rfl := Option.some.inj he
      exact ⟨hroute, fun path' hpath' => hbest.least path' hpath'.toRoute⟩

def neighbor : List Event := [.add_route_link [1, 2]]

theorem neighbor_found : ∃ s, Reachable Initial (fun s => s.step 1) Proper s ∧ (s.lookup_route_link 2).1.isSome ∧
    (∀ e, s.Proper e → (s.step 1 e).isSome) ∧ s.FindsShortest 1 2 := by
  have hreach : ∀ s, Transition.execute (fun s => s.step 1) Proper {} neighbor = some s →
      Reachable Initial (fun s => s.step 1) Proper s :=
    fun s hs => Reachable.execute (.init ⟨rfl, rfl, rfl, rfl⟩) hs
  obtain ⟨s, hs⟩ := Option.isSome_iff_exists.mp
    (show (Transition.execute (fun s => step s 1) Proper {} neighbor).isSome by decide +kernel)
  have hstate : (Transition.execute (fun s => step s 1) Proper {} neighbor).any fun s =>
      s.best_routes_table.find 2 = some [1, 2] ∧ s.link_cache.find (Link.of 1 2) = some 25000000000 ∧ s.now = 0 ∧
        (s.lookup_route_link 2).1.isSome ∧ ((s.net_graph.find 1).getD ∅).find 2 = some 1 := by decide +kernel
  rw [hs, Option.any_some, decide_eq_true_iff] at hstate
  obtain ⟨htable, hfind, hnow, hsome, hedge⟩ := hstate
  have hlinked : ∀ adj : Ipv4Address → Ipv4Address → Prop, adj 1 2 → [1, 2].IsChain adj :=
    fun adj h => List.isChain_cons_cons.mpr ⟨h, List.isChain_singleton _⟩
  obtain ⟨hends, hiff⟩ := lookup_route_link_shortest (by decide) (hreach s hs)
  refine ⟨s, hreach s hs, hsome, hends, (hiff 2 fun _ _ => ?_).mpr fun path hpath => ?_⟩
  · exact ⟨[1, 2], ⟨rfl, rfl, hlinked _ hedge⟩, by decide⟩
  · obtain rfl := Option.some.inj (htable.symm.trans hpath)
    exact hlinked _ ⟨25000000000, hfind, by rw [hnow]; decide⟩

/-- The link of the route expires, and the lookup still finds the route. -/
theorem expired_link_found : ∃ s, Reachable Initial (fun s => s.step 1) Proper s ∧ s.Near 1 2 ∧ ¬ s.FindsShortest 1 2 := by
  obtain ⟨s, hs⟩ := Option.isSome_iff_exists.mp
    (show (Transition.execute (fun s => step s 1) Proper {} (neighbor ++ [.advance 30000000000])).isSome by decide +kernel)
  have hstate : (Transition.execute (fun s => step s 1) Proper {} (neighbor ++ [.advance 30000000000])).any fun s =>
      s.link_cache.find (Link.of 1 2) = some 25000000000 ∧ s.now = 30000000000 ∧
        (s.lookup_route_link 2).1.map (·.path) = some [1, 2] ∧ ((s.net_graph.find 1).getD ∅).find 2 = some 1 := by decide +kernel
  rw [hs, Option.any_some, decide_eq_true_iff] at hstate
  obtain ⟨hfind, hnow, hlookup, hedge⟩ := hstate
  refine ⟨s, Reachable.execute (.init ⟨rfl, rfl, rfl, rfl⟩) hs, fun _ _ => ?_, fun hfinds => ?_⟩
  · exact ⟨[1, 2], ⟨rfl, rfl, List.isChain_cons_cons.mpr ⟨hedge, List.isChain_singleton _⟩⟩, by decide⟩
  · obtain ⟨e, he, hpath⟩ := Option.map_eq_some_iff.mp hlookup
    have hlinked := (hfinds.2 e he).1.linked
    rw [hpath] at hlinked
    obtain ⟨stability, hstability, hlive⟩ := (List.isChain_cons_cons.mp hlinked).1
    rw [hfind] at hstability
    cases hstability
    rw [hnow] at hlive
    exact absurd hlive (by decide)

end LinkCache

end Ns3.Dsr
