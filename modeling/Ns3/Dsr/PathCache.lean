import Ns3.Network.Address

namespace Ns3.Dsr

structure RouteCacheEntry where
  dst : Ipv4Address
  path : List Ipv4Address
  expire : Time
deriving DecidableEq, Repr

def hops (path : List Ipv4Address) : List (Ipv4Address × Ipv4Address) := path.zip path.tail

/-- `CompareRoutesExpire`: the route that expires last comes first. -/
def sort (routes : List RouteCacheEntry) : List RouteCacheEntry := routes.insertionSort fun a b => b.expire ≤ a.expire

/-- `DsrRouteCache` as a path cache. The routes are a map in the order of the destinations. Three
history variables follow: the routes that have been added, the links that have been deleted since they
were last in a route that was added, and whether an iterator has been read behind the end of a route. -/
structure PathCache where
  max_entries_each_dst : UInt32 := 3
  route_cache_timeout : Time := 300000000000
  sub_route : Bool := true
  now : Time := 0
  sorted_routes : List (Ipv4Address × List RouteCacheEntry) := []
  added : List (List Ipv4Address) := []
  broken : List (Ipv4Address × Ipv4Address) := []
  past_end : Bool := false
deriving DecidableEq, Repr

namespace PathCache

variable (s : PathCache)

def find (dst : Ipv4Address) : Option (List RouteCacheEntry) := (s.sorted_routes.find? (·.1 = dst)).map (·.2)

def erase (dst : Ipv4Address) : PathCache := { s with sorted_routes := s.sorted_routes.filter (·.1 ≠ dst) }

/-- The routes to a destination are replaced. -/
def put (dst : Ipv4Address) (routes : List RouteCacheEntry) : PathCache :=
  { s with sorted_routes := (s.erase dst).sorted_routes.orderedInsert (fun a b => a.1 ≤ b.1) (dst, routes) }

/-- Every list of routes is replaced, and dropped if nothing is left of it. -/
def rewrite (f : List RouteCacheEntry → List RouteCacheEntry) : PathCache :=
  { s with
    sorted_routes := s.sorted_routes.filterMap fun x => if (f x.2).isEmpty then none else some (x.1, f x.2) }

def purge : PathCache := s.rewrite fun routes => routes.filter (s.now < ·.expire)

def update_route_entry (dst : Ipv4Address) : PathCache :=
  match s.find dst with
  | none => s
  | some [] => s
  | some (success :: rest) => s.put dst (sort (rest ++ [{ success with expire := s.route_cache_timeout + s.now }]))

/-- `FindSameRoute`: the list with the first equal route refreshed. -/
def find_same_route (rt : RouteCacheEntry) : List RouteCacheEntry → Option (List RouteCacheEntry)
  | [] => none
  | e :: routes =>
    if e.path = rt.path then some ((if e.expire < rt.expire then { e with expire := rt.expire } else e) :: routes)
    else (find_same_route rt routes).map (e :: ·)

/-- The list of a destination as a route is added to it. -/
def add_to (rt : RouteCacheEntry) (routes : List RouteCacheEntry) : Option (List RouteCacheEntry) :=
  let routes := if s.max_entries_each_dst.toNat ≤ routes.length then routes.dropLast else routes
  match find_same_route rt routes with
  | some routes => some (sort routes)
  | none => if s.now < rt.expire then some (sort (routes ++ [rt])) else none

def add_route (rt : RouteCacheEntry) : PathCache :=
  let s := { s.purge with added := rt.path :: s.added, broken := s.broken.filter (· ∉ hops rt.path) }
  match s.find rt.dst with
  | none => s.put rt.dst [rt]
  | some routes =>
    match s.add_to rt routes with
    | some routes => s.put rt.dst routes
    | none => s

def upto (id : Ipv4Address) : List Ipv4Address → List Ipv4Address
  | [] => []
  | a :: path => if a = id then [a] else a :: upto id path

/-- The part of a route that leads to a node on the way. -/
def sub_route_to (id : Ipv4Address) (e : RouteCacheEntry) : Option RouteCacheEntry :=
  let changed := upto id e.path
  if changed.length < e.path.length ∧ 1 < changed.length then some { dst := id, path := changed, expire := e.expire }
  else none

/-- `LookupRoute`. Of the parts of routes that are found, the last one is kept. -/
def lookup_route (id : Ipv4Address) : Option RouteCacheEntry × PathCache :=
  let s := s.purge
  let s :=
    match s.find id with
    | some _ => s
    | none =>
      match ((s.sorted_routes.flatMap (·.2)).filterMap (sub_route_to id)).getLast? with
      | some e => s.put id [e]
      | none => s
  ((s.find id).bind List.head?, s)

def delete_route (dst : Ipv4Address) : PathCache := s.purge.erase dst

/-- A route up to a broken link, and whether the node behind the last one has been read. -/
def cut (error_src unreach_node : Ipv4Address) : List Ipv4Address → List Ipv4Address × Bool
  | [] => ([], false)
  | a :: path =>
    if a = error_src then
      match path with
      | [] => ([a], true)
      | b :: _ =>
        if b = unreach_node then ([a], false)
        else
          let r := cut error_src unreach_node path
          (a :: r.1, r.2)
    else
      let r := cut error_src unreach_node path
      (a :: r.1, r.2)

/-- What becomes of a list of routes: those that stay, those that are put at its end, and whether a
node behind the end of a route has been read. -/
structure Visited where
  kept : List RouteCacheEntry := []
  changed : List RouteCacheEntry := []
  past_end : Bool := false
deriving DecidableEq, Repr

/-- The loop over a list of routes, as far as the list goes when it begins. -/
def visit (error_src unreach_node : Ipv4Address) : List RouteCacheEntry → Visited
  | [] => {}
  | e :: routes =>
    let r := cut error_src unreach_node e.path
    let v := visit error_src unreach_node routes
    let v := { v with past_end := r.2 || v.past_end }
    if r.1.length = e.path.length then { v with kept := e :: v.kept }
    else if r.1.length < e.path.length ∧ 1 < r.1.length then
      if s.sub_route then
        { v with changed := { dst := r.1.getLast?.getD Ipv4Address.uninitialized, path := r.1, expire := e.expire } :: v.changed }
      else v
    else v

/-- The whole loop over a list. It visits the routes that it has put at the end as well. -/
def visit_all (error_src unreach_node : Ipv4Address) (routes : List RouteCacheEntry) : Visited :=
  let v := s.visit error_src unreach_node routes
  let v' := s.visit error_src unreach_node v.changed
  { kept := v.kept ++ v'.kept, changed := v'.changed, past_end := v.past_end || v'.past_end }

def delete_all_routes_include_link (error_src unreach_node : Ipv4Address) : PathCache :=
  let s := s.purge
  { s.rewrite fun routes =>
      let v := s.visit_all error_src unreach_node routes
      sort (v.kept ++ v.changed) with
    broken := (error_src, unreach_node) :: s.broken
    past_end := s.past_end || s.sorted_routes.any fun x => (s.visit_all error_src unreach_node x.2).past_end }

inductive Event
  | add_route (rt : RouteCacheEntry)
  | lookup_route (id : Ipv4Address)
  | update_route_entry (dst : Ipv4Address)
  | delete_route (dst : Ipv4Address)
  | delete_all_routes_include_link (error_src unreach_node : Ipv4Address)
  | advance (t : Time)
deriving DecidableEq, Repr

def step : Event → Option PathCache
  | .add_route rt => some (s.add_route rt)
  | .lookup_route id => some (s.lookup_route id).2
  | .update_route_entry dst => some (s.update_route_entry dst)
  | .delete_route dst => some (s.delete_route dst)
  | .delete_all_routes_include_link error_src unreach_node =>
    some (s.delete_all_routes_include_link error_src unreach_node)
  | .advance t => if s.now ≤ t then some { s with now := t } else none

end PathCache

end Ns3.Dsr

namespace Ns3.Dsr

variable {a b id node dst : Ipv4Address} {path path' : List Ipv4Address} {e rt : RouteCacheEntry}
  {routes routes' : List RouteCacheEntry}

@[simp] theorem hops_cons_cons : hops (a :: b :: path) = (a, b) :: hops (b :: path) := rfl

theorem hops_subset (h : path <+: path') : hops path ⊆ hops path' := by
  induction path generalizing path' with
  | nil => exact fun _ hx => absurd hx List.not_mem_nil
  | cons x path ih =>
    obtain ⟨rest, rfl⟩ := h
    cases path with
    | nil => exact fun _ hx => absurd hx List.not_mem_nil
    | cons y path =>
      rw [List.cons_append, List.cons_append, hops_cons_cons, hops_cons_cons, ← List.cons_append]
      exact List.cons_subset_cons _ (ih (List.prefix_append _ _))

theorem mem_of_mem_hops (h : (a, b) ∈ hops path) : a ∈ path := (List.of_mem_zip h).1

namespace PathCache

theorem upto_prefix : upto id path <+: path := by
  induction path with
  | nil => exact List.prefix_rfl
  | cons x path ih =>
    unfold upto
    split
    · exact ⟨path, rfl⟩
    · exact List.prefix_cons_inj x |>.mpr ih

theorem getLast_upto (h : (upto id path).length < path.length) : (upto id path).getLast? = some id := by
  induction path with
  | nil => exact absurd h (lt_irrefl _)
  | cons x path ih =>
    unfold upto at h ⊢
    split
    next hx => exact congrArg some hx
    next hx =>
      rw [if_neg hx] at h
      have hrec := ih (Nat.lt_of_succ_lt_succ h)
      rw [List.getLast?_cons, hrec]
      rfl

theorem cut_prefix : (cut a b path).1 <+: path := by
  induction path with
  | nil => exact List.prefix_rfl
  | cons x path ih =>
    unfold cut
    split
    · split
      · exact List.prefix_rfl
      · split
        · exact ⟨_, rfl⟩
        · exact List.prefix_cons_inj x |>.mpr ih
    · exact List.prefix_cons_inj x |>.mpr ih

theorem cut_of_notMem (h : a ∉ path) : cut a b path = (path, false) := by
  induction path with
  | nil => rfl
  | cons x path ih =>
    obtain ⟨hne, hnot⟩ := not_or.mp (mt List.mem_cons.mpr h)
    unfold cut
    rw [if_neg (Ne.symm hne), ih hnot]

theorem cut_of_notMem_hops (h : (a, b) ∉ hops path) (hend : path.getLast? ≠ some a) : cut a b path = (path, false) := by
  induction path with
  | nil => rfl
  | cons x path ih =>
    unfold cut
    cases path with
    | nil =>
      have hne : x ≠ a := fun hc => hend (congrArg some hc)
      rw [if_neg hne, cut]
    | cons y path =>
      rw [hops_cons_cons, List.mem_cons, not_or] at h
      have hrec := ih h.2 (by rwa [List.getLast?_cons_cons] at hend)
      split
      next hx =>
        have hne : y ≠ b := fun hc => h.1 (by rw [hx, hc])
        dsimp only
        rw [if_neg hne, hrec]
      next => rw [hrec]

theorem notMem_hops_of_cut (h : (cut a b path).1.length = path.length) : (a, b) ∉ hops path := by
  induction path with
  | nil => exact List.not_mem_nil
  | cons x path ih =>
    cases path with
    | nil => exact List.not_mem_nil
    | cons y path =>
      unfold cut at h
      rw [hops_cons_cons, List.mem_cons, not_or]
      split at h
      next hx =>
        dsimp only at h
        split at h
        · simp at h
        next hy =>
          refine ⟨fun hc => hy (Prod.mk.inj hc).2.symm, ih ?_⟩
          exact Nat.succ.inj h
      next hx => exact ⟨fun hc => hx (Prod.mk.inj hc).1.symm, ih (Nat.succ.inj h)⟩

theorem cut_of_end (hend : path.getLast? = some a) (hnodup : path.Nodup) : (cut a b path).2 = true := by
  induction path with
  | nil => cases hend
  | cons x path ih =>
    obtain ⟨hnot, hnodup⟩ := List.nodup_cons.mp hnodup
    unfold cut
    cases path with
    | nil =>
      have hx : x = a := Option.some.inj hend
      rw [if_pos hx]
    | cons y path =>
      rw [List.getLast?_cons_cons] at hend
      have hne : x ≠ a := fun hc => hnot (hc ▸ List.mem_of_getLast? hend)
      rw [if_neg hne]
      exact ih hend hnodup

theorem cut_of_mem_hops (h : (a, b) ∈ hops path) (hnodup : path.Nodup) :
    (cut a b path).1.length < path.length ∧ (cut a b path).1.getLast? = some a := by
  induction path with
  | nil => exact absurd h List.not_mem_nil
  | cons x path ih =>
    obtain ⟨hnot, hnodup⟩ := List.nodup_cons.mp hnodup
    cases path with
    | nil => exact absurd h List.not_mem_nil
    | cons y path =>
      unfold cut
      rw [hops_cons_cons, List.mem_cons] at h
      by_cases hx : x = a
      · rw [if_pos hx]
        dsimp only
        have hfirst : (a, b) = (x, y) := by
          refine h.resolve_right fun hc => ?_
          exact hnot (hx ▸ mem_of_mem_hops hc)
        rw [if_pos (Prod.mk.inj hfirst).2.symm]
        exact ⟨by simp, congrArg some hx⟩
      · rw [if_neg hx]
        have hmem := h.resolve_left fun hc => hx (Prod.mk.inj hc).1.symm
        obtain ⟨hlength, hlast⟩ := ih hmem hnodup
        refine ⟨Nat.succ_lt_succ hlength, ?_⟩
        dsimp only
        rw [List.getLast?_cons, hlast]
        rfl

end PathCache

end Ns3.Dsr
