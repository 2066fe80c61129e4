import Ns3.Dsr.PathCache
import Ns3.Foundation.Reachable

namespace Ns3.Dsr.PathCache

open Transition (Reachable)

variable {s s' : PathCache} {a b id node dst : Ipv4Address} {path : List Ipv4Address} {e rt : RouteCacheEntry}
  {routes routes' : List RouteCacheEntry} {x : Ipv4Address × List RouteCacheEntry}

/-- A route from the node to a destination, without loops, that begins a route that was added and has
no link that has been deleted since. -/
structure GoodRoute (node : Ipv4Address) (s : PathCache) (dst : Ipv4Address) (e : RouteCacheEntry) : Prop where
  destination : e.dst = dst
  ends : e.path.getLast? = some dst
  starts : e.path.head? = some node
  nodup : e.path.Nodup
  long : 1 < e.path.length
  known : ∃ path ∈ s.added, e.path <+: path
  live : ∀ h ∈ hops e.path, h ∉ s.broken

/-- A list of good routes to a destination: not too many, no two equal ones, the one that expires last first. -/
structure GoodRoutes (node : Ipv4Address) (s : PathCache) (dst : Ipv4Address) (routes : List RouteCacheEntry) : Prop where
  good : ∀ e ∈ routes, GoodRoute node s dst e
  sorted : routes.Pairwise fun a b => b.expire ≤ a.expire
  distinct : (routes.map (·.path)).Nodup
  room : routes.length ≤ s.max_entries_each_dst.toNat

/-- The cache is in order. -/
structure Good (node : Ipv4Address) (s : PathCache) : Prop where
  routes : ∀ x ∈ s.sorted_routes, x.2 ≠ [] ∧ GoodRoutes node s x.1 x.2
  in_bounds : s.past_end = false

/-- What the caller of `AddRoute` promises. -/
def Proper (node : Ipv4Address) (s : PathCache) : Event → Prop
  | .add_route rt => rt.path.head? = some node ∧ rt.path.getLast? = some rt.dst ∧ rt.path.Nodup ∧ 1 < rt.path.length ∧
      s.now < rt.expire
  | _ => True

/-- No route that has not expired ends where the link begins, and none has the link after its first node. -/
def Uncut (node : Ipv4Address) (s : PathCache) : Event → Prop
  | .delete_all_routes_include_link error_src unreach_node => error_src = node ∨
      ∀ x ∈ s.sorted_routes, ∀ e ∈ x.2, s.now < e.expire →
        e.path.getLast? ≠ some error_src ∧ (error_src, unreach_node) ∉ hops e.path
  | _ => True

theorem mem_rewrite {f : List RouteCacheEntry → List RouteCacheEntry} (h : x ∈ (s.rewrite f).sorted_routes) :
    x.2 ≠ [] ∧ ∃ routes, (x.1, routes) ∈ s.sorted_routes ∧ x.2 = f routes := by
  obtain ⟨y, hy, hx⟩ := List.mem_filterMap.mp h
  split at hx
  · cases hx
  next hne =>
    cases hx
    exact ⟨mt List.isEmpty_iff.mpr hne, y.2, hy, rfl⟩

theorem mem_put (h : x ∈ (s.put dst routes).sorted_routes) : x = (dst, routes) ∨ x ∈ s.sorted_routes := by
  rcases (List.mem_orderedInsert _).mp h with hnew | hold
  · exact .inl hnew
  · exact .inr (List.mem_of_mem_filter hold)

theorem mem_find (h : s.find dst = some routes) : (dst, routes) ∈ s.sorted_routes := by
  obtain ⟨y, hy, rfl⟩ := Option.map_eq_some_iff.mp h
  have hdst : y.1 = dst := by simpa using List.find?_some hy
  subst hdst
  exact List.mem_of_find?_eq_some hy

theorem GoodRoutes.sublist (h : GoodRoutes node s dst routes) (hsub : routes'.Sublist routes) : GoodRoutes node s dst routes' :=
  ⟨fun e he => h.good e (hsub.subset he), h.sorted.sublist hsub, h.distinct.sublist (hsub.map _),
    hsub.length_le.trans h.room⟩

theorem GoodRoute.mono (h : GoodRoute node s dst e) (hadded : s.added ⊆ s'.added)
    (hbroken : ∀ hop ∈ hops e.path, hop ∈ s'.broken → hop ∈ s.broken) : GoodRoute node s' dst e := by
  obtain ⟨path, hpath, hpre⟩ := h.known
  exact ⟨h.destination, h.ends, h.starts, h.nodup, h.long, ⟨path, hadded hpath, hpre⟩,
    fun hop hmem hbad => h.live hop hmem (hbroken hop hmem hbad)⟩

theorem GoodRoutes.mono (h : GoodRoutes node s dst routes) (hadded : s.added ⊆ s'.added)
    (hbroken : ∀ e ∈ routes, ∀ hop ∈ hops e.path, hop ∈ s'.broken → hop ∈ s.broken)
    (hroom : s'.max_entries_each_dst = s.max_entries_each_dst) : GoodRoutes node s' dst routes :=
  ⟨fun e he => (h.good e he).mono hadded (hbroken e he), h.sorted, h.distinct, hroom ▸ h.room⟩

theorem Good.of_routes (h : s.Good node) (hadded : s'.added = s.added) (hbroken : s'.broken = s.broken)
    (hroom : s'.max_entries_each_dst = s.max_entries_each_dst) (hpast : s'.past_end = s.past_end)
    (hroutes : ∀ x ∈ s'.sorted_routes, x.2 ≠ [] ∧ GoodRoutes node s x.1 x.2) : s'.Good node := by
  refine ⟨fun x hx => ⟨(hroutes x hx).1, (hroutes x hx).2.mono ?_ ?_ hroom⟩, hpast.trans h.in_bounds⟩
  · rw [hadded]
    exact List.Subset.refl _
  · intro _ _ _ _ hbad
    rwa [hbroken] at hbad

theorem Good.purge (h : s.Good node) : s.purge.Good node := by
  refine h.of_routes rfl rfl rfl rfl fun x hx => ?_
  obtain ⟨hne, routes, hmem, heq⟩ := mem_rewrite hx
  rw [heq] at hne ⊢
  exact ⟨hne, (h.routes _ hmem).2.sublist List.filter_sublist⟩

theorem mem_purge (h : x ∈ s.purge.sorted_routes) : ∀ e ∈ x.2, s.now < e.expire := by
  obtain ⟨-, routes, -, heq⟩ := mem_rewrite h
  rw [heq]
  exact fun e he => of_decide_eq_true (List.mem_filter.mp he).2

theorem Good.put (h : s.Good node) (hne : routes ≠ []) (hroutes : GoodRoutes node s dst routes) :
    (s.put dst routes).Good node := by
  refine h.of_routes rfl rfl rfl rfl fun x hx => ?_
  rcases mem_put hx with rfl | hold
  · exact ⟨hne, hroutes⟩
  · exact h.routes x hold

theorem sort_ne_nil (h : routes ≠ []) : sort routes ≠ [] := by
  intro hc
  have hlength := List.length_insertionSort (fun a b : RouteCacheEntry => b.expire ≤ a.expire) routes
  rw [show routes.insertionSort _ = [] from hc] at hlength
  exact h (List.length_eq_zero_iff.mp hlength.symm)

theorem goodRoutes_sort (hgood : ∀ e ∈ routes, GoodRoute node s dst e) (hdistinct : (routes.map (·.path)).Nodup)
    (hroom : routes.length ≤ s.max_entries_each_dst.toNat) : GoodRoutes node s dst (sort routes) := by
  have hperm : (sort routes).Perm routes := List.perm_insertionSort _ _
  refine ⟨fun e he => hgood e (hperm.mem_iff.mp he), ?_, (hperm.map _).nodup_iff.mpr hdistinct, ?_⟩
  · have htotal : Std.Total fun a b : RouteCacheEntry => b.expire ≤ a.expire := ⟨fun a b => le_total b.expire a.expire⟩
    have htrans : IsTrans RouteCacheEntry fun a b => b.expire ≤ a.expire := ⟨fun _ _ _ h h' => h'.trans h⟩
    exact List.pairwise_insertionSort _ _
  · rw [hperm.length_eq]
    exact hroom

theorem GoodRoute.with_expire (h : GoodRoute node s dst e) (expire : Time) : GoodRoute node s dst { e with expire } :=
  { h with }

theorem Good.update_route_entry (h : s.Good node) (dst : Ipv4Address) : (s.update_route_entry dst).Good node := by
  unfold PathCache.update_route_entry
  split
  · exact h
  · exact h
  next success rest hfind =>
    have hroutes := (h.routes _ (mem_find hfind)).2
    have hperm : ((rest ++ [{ success with expire := s.route_cache_timeout + s.now }]).map RouteCacheEntry.path).Perm
        ((success :: rest).map RouteCacheEntry.path) := by
      rw [List.map_append, List.map_cons]
      exact List.perm_append_comm
    refine h.put (sort_ne_nil (by simp)) (goodRoutes_sort ?_ (hperm.nodup_iff.mpr hroutes.distinct) ?_)
    · intro e he
      rcases List.mem_append.mp he with hold | hnew
      · exact hroutes.good e (List.mem_cons_of_mem _ hold)
      · rw [List.mem_singleton.mp hnew]
        exact (hroutes.good success List.mem_cons_self).with_expire _
    · have hlength := hroutes.room
      rw [List.length_append]
      exact hlength

theorem find_same_route_some (h : find_same_route rt routes = some routes') :
    routes'.map (·.path) = routes.map (·.path) ∧ ∀ e' ∈ routes', ∃ e ∈ routes, ∃ expire, e' = { e with expire } := by
  induction routes generalizing routes' with
  | nil => cases h
  | cons e routes ih =>
    unfold find_same_route at h
    split at h
    · cases h
      refine ⟨?_, fun e' he' => ?_⟩
      · rw [List.map_cons, List.map_cons]
        split <;> rfl
      · rcases List.mem_cons.mp he' with rfl | hold
        · refine ⟨e, List.mem_cons_self, ?_⟩
          split
          · exact ⟨rt.expire, rfl⟩
          · exact ⟨e.expire, rfl⟩
        · exact ⟨e', List.mem_cons_of_mem _ hold, e'.expire, rfl⟩
    · obtain ⟨routes'', hrec, rfl⟩ := Option.map_eq_some_iff.mp h
      obtain ⟨hpaths, hmem⟩ := ih hrec
      refine ⟨by rw [List.map_cons, List.map_cons, hpaths], fun e' he' => ?_⟩
      rcases List.mem_cons.mp he' with rfl | hold
      · exact ⟨e', List.mem_cons_self, e'.expire, rfl⟩
      · obtain ⟨e₀, he₀, hsame⟩ := hmem e' hold
        exact ⟨e₀, List.mem_cons_of_mem _ he₀, hsame⟩

theorem find_same_route_none (h : find_same_route rt routes = none) : rt.path ∉ routes.map (·.path) := by
  induction routes with
  | nil => exact List.not_mem_nil
  | cons e routes ih =>
    unfold find_same_route at h
    split at h
    · cases h
    next hne =>
      rw [List.map_cons, List.mem_cons, not_or]
      exact ⟨Ne.symm hne, ih (Option.map_eq_none_iff.mp h)⟩

theorem GoodRoutes.add_to (h : GoodRoutes node s dst routes) (hmax : 1 ≤ s.max_entries_each_dst.toNat)
    (hrt : GoodRoute node s dst rt) (hadd : s.add_to rt routes = some routes') :
    GoodRoutes node s dst routes' ∧ routes' ≠ [] := by
  unfold PathCache.add_to at hadd
  dsimp only at hadd
  set room := if s.max_entries_each_dst.toNat ≤ routes.length then routes.dropLast else routes with hroom
  have hsub : room.Sublist routes := by
    rw [hroom]
    split
    · exact List.dropLast_sublist _
    · exact List.Sublist.refl _
  have hlength : room.length + 1 ≤ s.max_entries_each_dst.toNat := by
    have hle := h.room
    rw [hroom]
    split
    · rw [List.length_dropLast]
      omega
    · omega
  have hgood := h.sublist hsub
  split at hadd
  next refreshed hfind =>
    obtain rfl := Option.some.inj hadd
    obtain ⟨hpaths, hmem⟩ := find_same_route_some hfind
    have hlen : refreshed.length = room.length := by
      have hpaths := congrArg List.length hpaths
      rwa [List.length_map, List.length_map] at hpaths
    have hne : refreshed ≠ [] := by
      intro hc
      rw [hc, List.length_nil] at hlen
      rw [List.length_eq_zero_iff.mp hlen.symm] at hfind
      cases hfind
    refine ⟨goodRoutes_sort (fun e he => ?_) ?_ ?_, sort_ne_nil hne⟩
    · obtain ⟨e₀, he₀, expire, rfl⟩ := hmem e he
      exact (hgood.good e₀ he₀).with_expire expire
    · rw [hpaths]
      exact hgood.distinct
    · omega
  next hfind =>
    split at hadd
    · obtain rfl := Option.some.inj hadd
      refine ⟨goodRoutes_sort (fun e he => ?_) ?_ ?_, sort_ne_nil (by simp)⟩
      · rcases List.mem_append.mp he with hold | hnew
        · exact hgood.good e hold
        · rw [List.mem_singleton.mp hnew]
          exact hrt
      · rw [List.map_append, List.map_singleton]
        have hnew := find_same_route_none hfind
        refine List.nodup_append.mpr ⟨hgood.distinct, List.nodup_singleton _, fun p hp p' hp' => ?_⟩
        rw [List.mem_singleton.mp hp']
        rintro rfl
        exact hnew hp
      · rw [List.length_append]
        exact hlength
    · cases hadd

theorem Good.add_route (h : s.Good node) (hmax : 1 ≤ s.max_entries_each_dst.toNat)
    (hproper : Proper node s (.add_route rt)) : (s.add_route rt).Good node := by
  obtain ⟨hstart, hend, hnodup, hlong, -⟩ := hproper
  unfold PathCache.add_route
  dsimp only
  set s₁ : PathCache := { s.purge with added := rt.path :: s.added, broken := s.broken.filter (· ∉ hops rt.path) } with hs₁
  have hgood : s₁.Good node := by
    refine ⟨fun x hx => ?_, h.in_bounds⟩
    obtain ⟨hne, hroutes⟩ := h.purge.routes x hx
    exact ⟨hne, hroutes.mono (List.subset_cons_self _ _) (fun _ _ _ _ hbad => List.mem_of_mem_filter hbad) rfl⟩
  have hrt : GoodRoute node s₁ rt.dst rt :=
    ⟨rfl, hend, hstart, hnodup, hlong, ⟨rt.path, List.mem_cons_self, List.prefix_rfl⟩,
      fun hop hmem hbad => of_decide_eq_true (List.mem_filter.mp hbad).2 hmem⟩
  split
  · refine hgood.put (List.cons_ne_nil _ _) ⟨fun e he => ?_, List.pairwise_singleton _ _, List.nodup_singleton _, hmax⟩
    rw [List.mem_singleton.mp he]
    exact hrt
  next routes hfind =>
    split
    next routes' hadd =>
      obtain ⟨hroutes, hne⟩ := (hgood.routes _ (mem_find hfind)).2.add_to hmax hrt hadd
      exact hgood.put hne hroutes
    next => exact hgood

theorem GoodRoute.sub_route_to {e' : RouteCacheEntry} (h : GoodRoute node s dst e) (hsub : PathCache.sub_route_to id e = some e') :
    GoodRoute node s id e' := by
  unfold PathCache.sub_route_to at hsub
  dsimp only at hsub
  split at hsub
  next hlength =>
    cases hsub
    have hpre : upto id e.path <+: e.path := upto_prefix
    obtain ⟨path, hpath, hknown⟩ := h.known
    refine ⟨rfl, getLast_upto hlength.1, ?_, h.nodup.sublist hpre.sublist, hlength.2,
      ⟨path, hpath, hpre.trans hknown⟩, fun hop hmem => h.live hop (hops_subset hpre hmem)⟩
    obtain ⟨rest, hrest⟩ := hpre
    have hne : upto id e.path ≠ [] := by
      intro hc
      rw [hc] at hlength
      exact absurd hlength.2 (by decide)
    have hstart := h.starts
    rw [← hrest, List.head?_append_of_ne_nil _ hne] at hstart
    exact hstart
  next => cases hsub

theorem Good.lookup_route (h : s.Good node) (hmax : 1 ≤ s.max_entries_each_dst.toNat) (id : Ipv4Address) :
    (s.lookup_route id).2.Good node ∧ ∀ rt, (s.lookup_route id).1 = some rt → s.now < rt.expire := by
  have hpurge := h.purge
  have hfirst : ∀ {s' : PathCache} {rt}, (∀ x ∈ s'.sorted_routes, ∀ e ∈ x.2, s.now < e.expire) →
      (s'.find id).bind List.head? = some rt → s.now < rt.expire := by
    intro s' rt hlive hrt
    obtain ⟨routes, hfind, hhead⟩ := Option.bind_eq_some_iff.mp hrt
    exact hlive _ (mem_find hfind) rt (List.mem_of_mem_head? hhead)
  have hlive : ∀ x ∈ s.purge.sorted_routes, ∀ e ∈ x.2, s.now < e.expire := fun x hx => mem_purge hx
  unfold PathCache.lookup_route
  dsimp only
  split
  next => exact ⟨hpurge, fun rt hrt => hfirst hlive hrt⟩
  next =>
    split
    next e hlast =>
      obtain ⟨e₀, he₀, hsub⟩ := List.mem_filterMap.mp (List.mem_of_getLast? hlast)
      obtain ⟨x, hx, hmem⟩ := List.mem_flatMap.mp he₀
      have hgood := ((hpurge.routes x hx).2.good e₀ hmem).sub_route_to hsub
      have hexpire : e.expire = e₀.expire := by
        unfold PathCache.sub_route_to at hsub
        dsimp only at hsub
        split at hsub
        · cases hsub
          rfl
        · cases hsub
      refine ⟨hpurge.put (List.cons_ne_nil _ _) ⟨fun e' he' => ?_, List.pairwise_singleton _ _, List.nodup_singleton _, hmax⟩,
        fun rt hrt => hfirst (fun y hy e' he' => ?_) hrt⟩
      · rw [List.mem_singleton.mp he']
        exact hgood
      · rcases mem_put hy with rfl | hold
        · rw [List.mem_singleton.mp he', hexpire]
          exact hlive x hx e₀ hmem
        · exact hlive y hold e' he'
    next => exact ⟨hpurge, fun rt hrt => hfirst hlive hrt⟩

theorem Good.delete_route (h : s.Good node) (dst : Ipv4Address) : (s.delete_route dst).Good node :=
  h.purge.of_routes rfl rfl rfl rfl fun x hx => h.purge.routes x (List.mem_of_mem_filter hx)

theorem GoodRoute.cut_uncut (h : GoodRoute node s dst e)
    (huncut : a = node ∨ e.path.getLast? ≠ some a ∧ (a, b) ∉ hops e.path) :
    (cut a b e.path).2 = false ∧ ((cut a b e.path).1 = e.path ∨ (cut a b e.path).1.length = 1) := by
  rcases huncut with rfl | ⟨hend, hnot⟩
  · -- the node is the first one, so that nothing is left of a route with the link
    have hstart := h.starts
    have hlong := h.long
    have hnodup := h.nodup
    cases hpath : e.path with
    | nil =>
      rw [hpath] at hstart
      cases hstart
    | cons x rest =>
      rw [hpath] at hstart hnodup hlong
      obtain rfl := Option.some.inj hstart
      have hnot := (List.nodup_cons.mp hnodup).1
      cases rest with
      | nil => exact absurd hlong (lt_irrefl _)
      | cons y rest =>
        unfold cut
        rw [if_pos rfl]
        dsimp only
        split
        · exact ⟨rfl, .inr rfl⟩
        · rw [cut_of_notMem hnot]
          exact ⟨rfl, .inl rfl⟩
  · rw [cut_of_notMem_hops hnot hend]
    exact ⟨rfl, .inl rfl⟩

theorem visit_uncut (hgood : ∀ e ∈ routes, GoodRoute node s dst e)
    (huncut : a = node ∨ ∀ e ∈ routes, e.path.getLast? ≠ some a ∧ (a, b) ∉ hops e.path) (s' : PathCache) :
    (s'.visit a b routes).kept.Sublist routes ∧ (s'.visit a b routes).changed = [] ∧
      (s'.visit a b routes).past_end = false ∧ ∀ e ∈ (s'.visit a b routes).kept, (a, b) ∉ hops e.path := by
  induction routes with
  | nil => exact ⟨List.Sublist.refl _, rfl, rfl, fun e he => absurd he List.not_mem_nil⟩
  | cons e routes ih =>
    obtain ⟨hkept, hchanged, hpast, hlive⟩ := ih (fun e' he' => hgood e' (List.mem_cons_of_mem _ he'))
      (huncut.imp_right fun h e' he' => h e' (List.mem_cons_of_mem _ he'))
    have hroute := hgood e List.mem_cons_self
    obtain ⟨hcut, hlength⟩ := hroute.cut_uncut (b := b) (huncut.imp_right fun h => h e List.mem_cons_self)
    unfold visit
    dsimp only
    rw [hcut, Bool.false_or]
    split
    next hsame =>
      refine ⟨hkept.cons_cons e, hchanged, hpast, fun e' he' => ?_⟩
      rcases List.mem_cons.mp he' with rfl | hold
      · exact notMem_hops_of_cut hsame
      · exact hlive e' hold
    next hne =>
      have hone : (cut a b e.path).1.length = 1 := hlength.resolve_left fun hc => hne (congrArg List.length hc)
      rw [if_neg fun hc => absurd hc.2 (by omega)]
      exact ⟨hkept.cons e, hchanged, hpast, hlive⟩

theorem visit_all_uncut (hgood : ∀ e ∈ routes, GoodRoute node s dst e)
    (huncut : a = node ∨ ∀ e ∈ routes, e.path.getLast? ≠ some a ∧ (a, b) ∉ hops e.path) (s' : PathCache) :
    (s'.visit_all a b routes).kept.Sublist routes ∧ (s'.visit_all a b routes).changed = [] ∧
      (s'.visit_all a b routes).past_end = false ∧ ∀ e ∈ (s'.visit_all a b routes).kept, (a, b) ∉ hops e.path := by
  obtain ⟨hkept, hchanged, hpast, hlive⟩ := visit_uncut hgood huncut s'
  have hall : s'.visit_all a b routes = { kept := (s'.visit a b routes).kept, changed := [], past_end := false } := by
    unfold visit_all
    dsimp only
    rw [hchanged, hpast, visit, List.append_nil]
    rfl
  rw [hall]
  exact ⟨hkept, rfl, rfl, hlive⟩

theorem Good.delete_all (h : s.Good node) (huncut : Uncut node s (.delete_all_routes_include_link a b)) :
    (s.delete_all_routes_include_link a b).Good node := by
  have hpurge := h.purge
  have hcond : ∀ x ∈ s.purge.sorted_routes, a = node ∨
      ∀ e ∈ x.2, e.path.getLast? ≠ some a ∧ (a, b) ∉ hops e.path := by
    intro x hx
    refine huncut.imp_right fun hall e he => ?_
    obtain ⟨-, routes, hmem, heq⟩ := mem_rewrite hx
    rw [heq] at he
    exact hall _ hmem e (List.mem_of_mem_filter he) (of_decide_eq_true (List.mem_filter.mp he).2)
  have hvisit : ∀ x ∈ s.purge.sorted_routes, _ :=
    fun x hx => visit_all_uncut (hpurge.routes x hx).2.good (hcond x hx) s.purge
  refine ⟨fun x hx => ?_, ?_⟩
  · obtain ⟨hne, routes, hmem, heq⟩ := mem_rewrite (s := s.purge) (f := fun routes =>
      sort ((s.purge.visit_all a b routes).kept ++ (s.purge.visit_all a b routes).changed)) hx
    obtain ⟨hkept, hchanged, -, hlive⟩ := hvisit _ hmem
    have hroutes := (hpurge.routes _ hmem).2.sublist hkept
    refine ⟨hne, ?_⟩
    rw [heq, hchanged, List.append_nil]
    refine goodRoutes_sort (fun e he => ?_) hroutes.distinct hroutes.room
    have hroute := hroutes.good e he
    refine ⟨hroute.destination, hroute.ends, hroute.starts, hroute.nodup, hroute.long, hroute.known, fun hop hhop hbad => ?_⟩
    rcases List.mem_cons.mp hbad with rfl | hbad
    · exact hlive e he hhop
    · exact hroute.live hop hhop hbad
  · change (s.purge.past_end || s.purge.sorted_routes.any _) = false
    rw [hpurge.in_bounds, Bool.false_or, List.any_eq_false]
    intro x hx
    rw [(hvisit x hx).2.2.1]
    exact Bool.false_ne_true

theorem past_end_of_mem (he : e ∈ routes) (hcut : (cut a b e.path).2 = true) : (s.visit a b routes).past_end = true := by
  induction routes with
  | nil => exact absurd he List.not_mem_nil
  | cons e' routes ih =>
    have hpast : (s.visit a b (e' :: routes)).past_end = ((cut a b e'.path).2 || (s.visit a b routes).past_end) := by
      rw [visit]
      dsimp only
      split
      · rfl
      · split
        · split <;> rfl
        · rfl
    rw [hpast]
    rcases List.mem_cons.mp he with rfl | he
    · rw [hcut, Bool.true_or]
    · rw [ih he, Bool.or_true]

theorem changed_of_mem (hsub : s.sub_route = true) (he : e ∈ routes) (hless : (cut a b e.path).1.length < e.path.length)
    (hlong : 1 < (cut a b e.path).1.length) : ∃ e' ∈ (s.visit a b routes).changed, e'.path = (cut a b e.path).1 := by
  induction routes with
  | nil => exact absurd he List.not_mem_nil
  | cons e₀ routes ih =>
    rcases List.mem_cons.mp he with rfl | he
    · refine ⟨⟨(cut a b e.path).1.getLast?.getD Ipv4Address.uninitialized, (cut a b e.path).1, e.expire⟩, ?_, rfl⟩
      rw [visit]
      dsimp only
      rw [if_neg hless.ne, if_pos ⟨hless, hlong⟩, if_pos hsub]
      exact List.mem_cons_self
    · obtain ⟨e', he', hpath⟩ := ih he
      refine ⟨e', ?_, hpath⟩
      rw [visit]
      dsimp only
      split
      · exact he'
      · split
        · exact List.mem_cons_of_mem _ he'
        · exact he'

/-- Exactly the calls that cut a route behind its first node, or meet a route that ends where the link
begins, read behind the end of a route. -/
theorem Good.in_bounds_iff (h : s.Good node) (hsub : s.sub_route = true) :
    (s.delete_all_routes_include_link a b).past_end = false ↔ Uncut node s (.delete_all_routes_include_link a b) := by
  refine ⟨fun hpast => ?_, fun huncut => (h.delete_all huncut).in_bounds⟩
  have hpast : (s.purge.past_end || s.purge.sorted_routes.any fun x => (s.purge.visit_all a b x.2).past_end) = false := hpast
  rw [Bool.or_eq_false_iff, List.any_eq_false] at hpast
  by_cases ha : a = node
  · exact .inl ha
  refine .inr fun x hx e he hlive => ?_
  have hmem : e ∈ x.2.filter (s.now < ·.expire) := List.mem_filter.mpr ⟨he, decide_eq_true hlive⟩
  have hne : (x.2.filter (s.now < ·.expire)).isEmpty = false := by
    rw [List.isEmpty_eq_false_iff]
    exact List.ne_nil_of_mem hmem
  have hx' : (x.1, x.2.filter (s.now < ·.expire)) ∈ s.purge.sorted_routes := by
    refine List.mem_filterMap.mpr ⟨x, hx, ?_⟩
    rw [hne]
    rfl
  have hroute := (h.routes x hx).2.good e he
  have hvisit := hpast.2 _ hx'
  have hboth : (s.purge.visit_all a b (x.2.filter (s.now < ·.expire))).past_end =
      ((s.purge.visit a b (x.2.filter (s.now < ·.expire))).past_end ||
        (s.purge.visit a b (s.purge.visit a b (x.2.filter (s.now < ·.expire))).changed).past_end) := rfl
  rw [hboth, Bool.or_eq_true, not_or] at hvisit
  refine ⟨fun hend => hvisit.1 (past_end_of_mem hmem (cut_of_end hend hroute.nodup)), fun hhop => ?_⟩
  obtain ⟨hless, hlast⟩ := cut_of_mem_hops hhop hroute.nodup
  have hpre : (cut a b e.path).1 <+: e.path := cut_prefix
  have hlong : 1 < (cut a b e.path).1.length := by
    -- the part begins at the node and ends at another one
    cases hcut : (cut a b e.path).1 with
    | nil =>
      rw [hcut] at hlast
      cases hlast
    | cons y rest =>
      cases rest with
      | nil =>
        rw [hcut] at hlast hpre
        obtain ⟨rest, hrest⟩ := hpre
        have hstart := hroute.starts
        rw [← hrest] at hstart
        exact absurd ((Option.some.inj hlast).symm.trans (Option.some.inj hstart)) ha
      | cons z rest => exact Nat.succ_lt_succ (Nat.succ_pos _)
  obtain ⟨e', he', hpath⟩ := changed_of_mem (s := s.purge) hsub hmem hless hlong
  refine hvisit.2 (past_end_of_mem he' ?_)
  rw [hpath]
  exact cut_of_end hlast (hroute.nodup.sublist hpre.sublist)

theorem step_config {ev : Event} (hstep : s.step ev = some s') :
    s'.max_entries_each_dst = s.max_entries_each_dst ∧ s'.sub_route = s.sub_route := by
  cases ev with
  | add_route rt =>
    obtain rfl := Option.some.inj hstep
    unfold add_route
    dsimp only
    split
    · exact ⟨rfl, rfl⟩
    · split <;> exact ⟨rfl, rfl⟩
  | lookup_route id =>
    obtain rfl := Option.some.inj hstep
    unfold lookup_route
    dsimp only
    split
    · exact ⟨rfl, rfl⟩
    · split <;> exact ⟨rfl, rfl⟩
  | update_route_entry dst =>
    obtain rfl := Option.some.inj hstep
    unfold update_route_entry
    split <;> exact ⟨rfl, rfl⟩
  | delete_route dst => exact Option.some.inj hstep ▸ ⟨rfl, rfl⟩
  | delete_all_routes_include_link a b => exact Option.some.inj hstep ▸ ⟨rfl, rfl⟩
  | advance t =>
    dsimp only [step] at hstep
    split at hstep
    · exact Option.some.inj hstep ▸ ⟨rfl, rfl⟩
    · cases hstep

theorem Good.step {ev : Event} (h : s.Good node) (hmax : 1 ≤ s.max_entries_each_dst.toNat) (hproper : Proper node s ev)
    (huncut : Uncut node s ev) (hstep : s.step ev = some s') : s'.Good node := by
  cases ev with
  | add_route rt => exact Option.some.inj hstep ▸ h.add_route hmax hproper
  | lookup_route id => exact Option.some.inj hstep ▸ (h.lookup_route hmax id).1
  | update_route_entry dst => exact Option.some.inj hstep ▸ h.update_route_entry dst
  | delete_route dst => exact Option.some.inj hstep ▸ h.delete_route dst
  | delete_all_routes_include_link a b => exact Option.some.inj hstep ▸ h.delete_all huncut
  | advance t =>
    dsimp only [PathCache.step] at hstep
    split at hstep
    · exact Option.some.inj hstep ▸ h.of_routes rfl rfl rfl rfl h.routes
    · cases hstep

/-- A cache without routes, with the sub-route option on and room for a route. -/
def Initial (s : PathCache) : Prop :=
  s.sorted_routes = [] ∧ s.added = [] ∧ s.broken = [] ∧ s.past_end = false ∧ s.sub_route = true ∧
    1 ≤ s.max_entries_each_dst.toNat

/-- The theorem on the routes of the cache: while no route is cut behind its first node, or ends where
a link that is deleted begins, they are good, and those that are looked up have not expired. -/
theorem good_routes (hrun : Reachable Initial step (fun s ev => Proper node s ev ∧ Uncut node s ev) s) :
    s.Good node ∧ (∀ id rt, (s.lookup_route id).1 = some rt → s.now < rt.expire) ∧
      ∀ a b, (s.delete_all_routes_include_link a b).past_end = false ↔
        Uncut node s (.delete_all_routes_include_link a b) := by
  have hinvariant : s.Good node ∧ 1 ≤ s.max_entries_each_dst.toNat ∧ s.sub_route = true := by
    refine Reachable.invariant (I := fun s => Good node s ∧ 1 ≤ s.max_entries_each_dst.toNat ∧ s.sub_route = true)
      (fun s hs => ?_) (fun s ev s' hs hcond hstep => ?_) hrun
    · obtain ⟨hroutes, -, -, hpast, hsub, hmax⟩ := hs
      refine ⟨⟨fun x hx => ?_, hpast⟩, hmax, hsub⟩
      rw [hroutes] at hx
      exact absurd hx List.not_mem_nil
    · obtain ⟨hgood, hmax, hsub⟩ := hs
      obtain ⟨hmax', hsub'⟩ := step_config hstep
      exact ⟨hgood.step hmax hcond.1 hcond.2 hstep, hmax' ▸ hmax, hsub'.trans hsub⟩
  obtain ⟨hgood, hmax, hsub⟩ := hinvariant
  exact ⟨hgood, fun id => (hgood.lookup_route hmax id).2, fun a b => hgood.in_bounds_iff hsub⟩

def short : RouteCacheEntry := { dst := 4, path := [1, 2, 3, 4], expire := 100 }

def long : RouteCacheEntry := { dst := 4, path := [1, 2, 3, 5, 4], expire := 100 }

theorem short_added : ∃ s : PathCache, s.sorted_routes = [(4, [short])] ∧ s.Good 1 ∧
    (∀ id rt, (s.lookup_route id).1 = some rt → s.now < rt.expire) ∧
      ∀ a b, (s.delete_all_routes_include_link a b).past_end = false ↔
        Uncut 1 s (.delete_all_routes_include_link a b) := by
  refine ⟨add_route {} short, by decide +kernel, good_routes (.step (s := {}) (e := .add_route short) (.init ?_) ?_ rfl)⟩
  · exact ⟨rfl, rfl, rfl, rfl, rfl, by decide⟩
  · exact ⟨⟨rfl, rfl, by decide, by decide, by decide⟩, trivial⟩

/-- Both routes are cut, end at another node than they are stored for, are the same then, and have been
read behind their end. -/
theorem cut_under_old_key : ∃ s : PathCache, Reachable Initial step (Proper 1) s ∧ s.past_end = true ∧
    ∃ x ∈ s.sorted_routes, (∀ e ∈ x.2, e.dst ≠ x.1 ∧ e.path.getLast? ≠ some x.1) ∧ ¬ (x.2.map (·.path)).Nodup := by
  have hstart : Reachable Initial step (Proper 1) {} := .init ⟨rfl, rfl, rfl, rfl, rfl, by decide⟩
  have hshort : Reachable Initial step (Proper 1) (add_route {} short) :=
    hstart.step (e := .add_route short) ⟨rfl, rfl, by decide, by decide, by decide⟩ rfl
  have hlong : Reachable Initial step (Proper 1) ((add_route {} short).add_route long) :=
    hshort.step (e := .add_route long) ⟨rfl, rfl, by decide, by decide, by decide +kernel⟩ rfl
  refine ⟨_, hlong.step (e := .delete_all_routes_include_link 2 3) trivial rfl, ?_⟩
  decide +kernel

end Ns3.Dsr.PathCache
