import Ns3.Internet.Ipv4StaticRouting
import Ns3.Olsr.RoutingTable

namespace Ns3.Olsr.RoutingProtocol

/-- The networks that other gateways announce and those that the node itself announces. -/
structure Announcements where
  m_associationSet : List AssociationTuple := []
  m_associations : List Association := []
deriving DecidableEq, Repr

namespace HnaRoutingTable

/-- The loop that removes the first route while the index is below the number of routes. -/
def clear_routes :
    ℕ → List (Ipv4RoutingTableEntry × ℕ) → List (Ipv4RoutingTableEntry × ℕ)
  | _, [] => []
  | i, route :: rest =>
    if i < (route :: rest).length then clear_routes (i + 1) rest else route :: rest

/-- The index of the first route to the network, and the number of routes where there is none. -/
def find_route (table : Ipv4StaticRouting) (network : Ipv4Address) (netmask : Ipv4Mask) : ℕ :=
  table.m_networkRoutes.findIdx fun route =>
    route.1.m_dest == network && route.1.m_destNetworkMask == netmask

def announced_locally (associations : List Association) (tuple : AssociationTuple) : Bool :=
  associations.any fun localHnaAssoc =>
    localHnaAssoc.networkAddr == tuple.networkAddr && localHnaAssoc.netmask == tuple.netmask

def add_association (p : RoutingProtocol) (associations : List Association)
    (table : Ipv4StaticRouting) (tuple : AssociationTuple) : Ipv4StaticRouting :=
  if announced_locally associations tuple then table
  else
    let routeIndex := find_route table tuple.networkAddr tuple.netmask
    match p.lookup tuple.gatewayAddr with
    -- without a route to the gateway no route is removed and none is added
    | none => table
    | some gatewayEntry =>
      let add (table : Ipv4StaticRouting) := table.add_network_route_to tuple.networkAddr
        tuple.netmask gatewayEntry.nextAddr gatewayEntry.interface gatewayEntry.distance
      if routeIndex = table.get_n_routes then add table
      else if table.get_metric routeIndex > gatewayEntry.distance then
        add (table.remove_route routeIndex)
      else table

end HnaRoutingTable

open HnaRoutingTable

/-- Step 5 of the computation, which makes the new `m_hnaRoutingTable` from the old one. -/
def hna_routes (p : RoutingProtocol) (s : Announcements) (table : Ipv4StaticRouting) :
    Ipv4StaticRouting :=
  s.m_associationSet.foldl (add_association p s.m_associations)
    ⟨clear_routes 0 table.m_networkRoutes⟩

/-- `RoutingTableComputation` with both tables. -/
def routing_table_computation_hna (p : RoutingProtocol) (now : Time) (s : Announcements)
    (m_hnaRoutingTable : Ipv4StaticRouting) : Option (RoutingProtocol × Ipv4StaticRouting) := do
  let p ← p.routing_table_computation now
  return (p, p.hna_routes s m_hnaRoutingTable)

open Ipv4RoutingTableEntry

abbrev Route := Ipv4RoutingTableEntry × ℕ

/-- The route to the network of the tuple through its gateway, where the node has a route to the
gateway and does not announce the network itself. -/
def offer (p : RoutingProtocol) (associations : List Association) (tuple : AssociationTuple) :
    Option Route :=
  if announced_locally associations tuple then none
  else (p.lookup tuple.gatewayAddr).map fun gatewayEntry =>
    (create_network_route_to tuple.networkAddr tuple.netmask gatewayEntry.nextAddr
      gatewayEntry.interface, gatewayEntry.distance)

/-- A route through one of a number of gateways. -/
def OfferedBy (p : RoutingProtocol) (associations : List Association)
    (tuples : List AssociationTuple) (route : Route) : Prop :=
  ∃ tuple ∈ tuples, p.offer associations tuple = some route

abbrev Offered (p : RoutingProtocol) (s : Announcements) (route : Route) : Prop :=
  p.OfferedBy s.m_associations s.m_associationSet route

/-- The table holds one route to each network that is offered, through a gateway of minimal
distance, and no other route. -/
structure HoldsBest (p : RoutingProtocol) (s : Announcements) (table : Ipv4StaticRouting) : Prop where
  best : ∀ route ∈ table.m_networkRoutes, p.Offered s route ∧
    ∀ other, p.Offered s other → other.1.network = route.1.network → route.2 ≤ other.2
  one : ∀ route, p.Offered s route →
    (table.m_networkRoutes.countP fun r => r.1.network = route.1.network) = 1

/-- The old route is one that the computation makes itself or has to replace by a shorter one. -/
def Superseded (p : RoutingProtocol) (s : Announcements) (route : Route) : Prop :=
  p.Offered s route ∨
    ∃ other, p.Offered s other ∧ other.1.network = route.1.network ∧ other.2 < route.2

/-- The routes that the loop over the old ones leaves. -/
def left_over (table : Ipv4StaticRouting) : List Route :=
  table.m_networkRoutes.drop ((table.get_n_routes + 1) / 2)

def OneEach (routes : List Route) : Prop := (routes.map fun r => r.1.network).Nodup

theorem clear_routes_eq_drop (i : ℕ) (routes : List Route) :
    clear_routes i routes = routes.drop ((routes.length - i + 1) / 2) := by
  induction routes generalizing i with
  | nil => simp [clear_routes]
  | cons route rest ih =>
    rw [clear_routes]
    split
    next hi =>
      -- one route is removed and the index grows by one
      have hturns : ((route :: rest).length - i + 1) / 2 = (rest.length - (i + 1) + 1) / 2 + 1 := by
        rw [List.length_cons] at hi ⊢
        omega
      rw [ih, hturns, List.drop_succ_cons]
    next hi =>
      have hturns : ((route :: rest).length - i + 1) / 2 = 0 := by omega
      rw [hturns, List.drop_zero]

section Turn

/-! What one association tuple does to the table. -/

/-- The table after a route is offered to it. -/
inductive Entered (routes : List Route) (c : Route) : List Route → Prop
  | kept (r : Route) (hr : r ∈ routes) (hnet : r.1.network = c.1.network) (hle : r.2 ≤ c.2) :
      Entered routes c routes
  | added (hnone : ∀ r ∈ routes, r.1.network ≠ c.1.network) : Entered routes c (routes ++ [c])
  | replaced (l₁ l₂ : List Route) (r : Route) (heq : routes = l₁ ++ r :: l₂)
      (hnet : r.1.network = c.1.network) (hlt : c.2 < r.2) (hnew : c ∉ l₁ ++ l₂) :
      Entered routes c (l₁ ++ l₂ ++ [c])
  | merged (l₁ l₂ : List Route) (r : Route) (heq : routes = l₁ ++ r :: l₂)
      (hnet : r.1.network = c.1.network) (hlt : c.2 < r.2) (hold : c ∈ l₁ ++ l₂) :
      Entered routes c (l₁ ++ l₂)

theorem find_route_eq (table : Ipv4StaticRouting) (network : Ipv4Address) (netmask : Ipv4Mask) :
    find_route table network netmask =
      table.m_networkRoutes.findIdx fun r => r.1.network = (network, netmask) := by
  unfold find_route
  congr 1
  funext r
  rw [Ipv4RoutingTableEntry.network, Bool.eq_iff_iff, decide_eq_true_iff, Prod.mk.injEq,
    Bool.and_eq_true, beq_iff_eq, beq_iff_eq]

theorem add_association_of_offer_eq_none {p : RoutingProtocol} {associations : List Association}
    {tuple : AssociationTuple} (table : Ipv4StaticRouting)
    (h : p.offer associations tuple = none) : add_association p associations table tuple = table := by
  unfold offer at h
  unfold add_association
  split at h
  next hlocal => rw [if_pos hlocal]
  next hlocal =>
    rw [if_neg hlocal, Option.map_eq_none_iff.mp h]

theorem entered_of_offer {p : RoutingProtocol} {associations : List Association}
    {tuple : AssociationTuple} (table : Ipv4StaticRouting) {c : Route}
    (h : p.offer associations tuple = some c) :
    Entered table.m_networkRoutes c (add_association p associations table tuple).m_networkRoutes := by
  unfold offer at h
  unfold add_association
  split at h
  next => cases h
  next hlocal =>
    obtain ⟨e, he, rfl⟩ := Option.map_eq_some_iff.mp h
    set c : Route := (create_network_route_to tuple.networkAddr tuple.netmask e.nextAddr e.interface,
      e.distance) with hc
    have hnet : c.1.network = (tuple.networkAddr, tuple.netmask) := rfl
    rw [if_neg hlocal, he]
    dsimp only
    rw [find_route_eq, ← hnet]
    split
    next hend =>
      have hnone : ∀ r ∈ table.m_networkRoutes, r.1.network ≠ c.1.network := by
        simpa using List.findIdx_eq_length.mp hend
      have hnew : table.lookup_route c.1 c.2 = false := by
        rw [Bool.eq_false_iff, ne_eq, Ipv4StaticRouting.lookup_route_iff]
        exact fun hmem => hnone c hmem rfl
      unfold Ipv4StaticRouting.add_network_route_to
      rw [if_neg (by simpa using hnew)]
      exact .added hnone
    next hend =>
      have hlt := lt_of_le_of_ne List.findIdx_le_length hend
      set i := table.m_networkRoutes.findIdx fun r => r.1.network = c.1.network with hi
      have hfound : table.m_networkRoutes[i].1.network = c.1.network := by
        simpa using List.findIdx_getElem (w := hlt)
      have hmetric : table.get_metric i = table.m_networkRoutes[i].2 := by
        rw [Ipv4StaticRouting.get_metric, List.getElem?_eq_getElem hlt]
        rfl
      rw [hmetric]
      split
      next hgreater =>
        have hsplit : table.m_networkRoutes = table.m_networkRoutes.take i ++
            table.m_networkRoutes[i] :: table.m_networkRoutes.drop (i + 1) := by
          rw [List.cons_getElem_drop_succ, List.take_append_drop]
        unfold Ipv4StaticRouting.remove_route Ipv4StaticRouting.add_network_route_to
        rw [List.eraseIdx_eq_take_drop_succ]
        dsimp only
        split
        next hold =>
          exact .merged _ _ _ hsplit hfound hgreater (Ipv4StaticRouting.lookup_route_iff.mp hold)
        next hnew =>
          exact .replaced _ _ _ hsplit hfound hgreater
            fun hmem => hnew (Ipv4StaticRouting.lookup_route_iff.mpr hmem)
      next hle => exact .kept _ (List.getElem_mem hlt) hfound (not_lt.mp hle)

namespace Entered

variable {routes routes' : List Route} {c r : Route}

theorem mem_or_lt (h : Entered routes c routes') (hr : r ∈ routes) :
    r ∈ routes' ∨ c.1.network = r.1.network ∧ c.2 < r.2 := by
  cases h with
  | kept => exact .inl hr
  | added => exact .inl (List.mem_append_left _ hr)
  | replaced l₁ l₂ r₀ heq hnet hlt =>
    rw [heq, List.mem_append, List.mem_cons] at hr
    obtain hr | rfl | hr := hr
    · exact .inl (by simp [hr])
    · exact .inr ⟨hnet.symm, hlt⟩
    · exact .inl (by simp [hr])
  | merged l₁ l₂ r₀ heq hnet hlt =>
    rw [heq, List.mem_append, List.mem_cons] at hr
    obtain hr | rfl | hr := hr
    · exact .inl (List.mem_append_left _ hr)
    · exact .inr ⟨hnet.symm, hlt⟩
    · exact .inl (List.mem_append_right _ hr)

theorem mem_of_mem (h : Entered routes c routes') (hr : r ∈ routes') : r ∈ routes ∨ r = c := by
  cases h with
  | kept => exact .inl hr
  | added => simpa using hr
  | replaced l₁ l₂ r₀ heq =>
    rw [heq]
    rcases List.mem_append.mp hr with hr | hr
    · exact .inl (List.mem_append.mpr ((List.mem_append.mp hr).imp_right (List.mem_cons_of_mem _)))
    · exact .inr (List.mem_singleton.mp hr)
  | merged l₁ l₂ r₀ heq =>
    rw [heq]
    exact .inl (List.mem_append.mpr ((List.mem_append.mp hr).imp_right (List.mem_cons_of_mem _)))

theorem exists_le (h : Entered routes c routes') :
    ∃ r ∈ routes', r.1.network = c.1.network ∧ r.2 ≤ c.2 := by
  cases h with
  | kept r hr hnet hle => exact ⟨r, hr, hnet, hle⟩
  | added => exact ⟨c, by simp, rfl, le_rfl⟩
  | replaced => exact ⟨c, by simp, rfl, le_rfl⟩
  | merged l₁ l₂ r heq hnet hlt hold => exact ⟨c, hold, rfl, le_rfl⟩

theorem oneEach (h : Entered routes c routes') (hone : OneEach routes) : OneEach routes' := by
  have happend {l : List Route} (hl : OneEach l) (hnone : ∀ r ∈ l, r.1.network ≠ c.1.network) :
      OneEach (l ++ [c]) := by
    unfold OneEach at hl ⊢
    rw [List.map_append]
    refine List.nodup_append.mpr ⟨hl, List.nodup_singleton _, ?_⟩
    intro network hnetwork other hother
    obtain ⟨r, hr, rfl⟩ := List.mem_map.mp hnetwork
    rw [List.map_singleton, List.mem_singleton] at hother
    exact hother ▸ hnone r hr
  cases h with
  | kept => exact hone
  | added hnone => exact happend hone hnone
  | replaced l₁ l₂ r heq hnet =>
    subst heq
    obtain ⟨hrest, hother⟩ := List.nodup_map_middle (fun r : Route => r.1.network) hone
    exact happend hrest (hnet ▸ hother)
  | merged l₁ l₂ r heq =>
    subst heq
    exact (List.nodup_map_middle (fun r : Route => r.1.network) hone).1

end Entered

end Turn

section Run

/-! What all association tuples do, in the order of the set. -/

variable {p : RoutingProtocol} {associations : List Association} {tuples : List AssociationTuple}
  {tuple : AssociationTuple} {table : Ipv4StaticRouting} {c r : Route}

theorem offeredBy_append (h : p.OfferedBy associations tuples c) :
    p.OfferedBy associations (tuples ++ [tuple]) c := by
  obtain ⟨t, ht, hc⟩ := h
  exact ⟨t, List.mem_append_left _ ht, hc⟩

theorem offeredBy_append_singleton :
    p.OfferedBy associations (tuples ++ [tuple]) c ↔
      p.OfferedBy associations tuples c ∨ p.offer associations tuple = some c := by
  constructor
  · rintro ⟨t, ht, hc⟩
    rcases List.mem_append.mp ht with ht | ht
    · exact .inl ⟨t, ht, hc⟩
    · exact .inr (List.mem_singleton.mp ht ▸ hc)
  · rintro (h | h)
    · exact offeredBy_append h
    · exact ⟨tuple, by simp, h⟩

theorem oneEach_foldl (h : OneEach table.m_networkRoutes) :
    OneEach (tuples.foldl (add_association p associations) table).m_networkRoutes := by
  induction tuples generalizing table with
  | nil => exact h
  | cons tuple tuples ih =>
    rw [List.foldl_cons]
    apply ih
    cases hoffer : p.offer associations tuple with
    | none => rwa [add_association_of_offer_eq_none table hoffer]
    | some c => exact (entered_of_offer table hoffer).oneEach h

theorem mem_of_mem_foldl
    (h : r ∈ (tuples.foldl (add_association p associations) table).m_networkRoutes) :
    r ∈ table.m_networkRoutes ∨ p.OfferedBy associations tuples r := by
  induction tuples using List.reverseRecOn with
  | nil => exact .inl h
  | append_singleton tuples tuple ih =>
    rw [List.foldl_append, List.foldl_cons, List.foldl_nil] at h
    rw [offeredBy_append_singleton]
    cases hoffer : p.offer associations tuple with
    | none =>
      rw [add_association_of_offer_eq_none _ hoffer] at h
      exact (ih h).imp_right .inl
    | some c =>
      rcases (entered_of_offer _ hoffer).mem_of_mem h with h | rfl
      · exact (ih h).imp_right .inl
      · exact .inr (.inr rfl)

theorem mem_foldl_or_lt (table : Ipv4StaticRouting) (h : r ∈ table.m_networkRoutes) :
    r ∈ (tuples.foldl (add_association p associations) table).m_networkRoutes ∨
      ∃ c, p.OfferedBy associations tuples c ∧ c.1.network = r.1.network ∧ c.2 < r.2 := by
  induction tuples using List.reverseRecOn with
  | nil => exact .inl h
  | append_singleton tuples tuple ih =>
    rw [List.foldl_append, List.foldl_cons, List.foldl_nil]
    rcases ih with h | ⟨c, hc, hnet, hlt⟩
    · cases hoffer : p.offer associations tuple with
      | none =>
        rw [add_association_of_offer_eq_none _ hoffer]
        exact .inl h
      | some c =>
        rcases (entered_of_offer _ hoffer).mem_or_lt h with h | ⟨hnet, hlt⟩
        · exact .inl h
        · exact .inr ⟨c, offeredBy_append_singleton.mpr (.inr hoffer), hnet, hlt⟩
    · exact .inr ⟨c, offeredBy_append hc, hnet, hlt⟩

theorem exists_le_of_offeredBy (table : Ipv4StaticRouting) (h : p.OfferedBy associations tuples c) :
    ∃ r ∈ (tuples.foldl (add_association p associations) table).m_networkRoutes,
      r.1.network = c.1.network ∧ r.2 ≤ c.2 := by
  induction tuples using List.reverseRecOn with
  | nil =>
    obtain ⟨t, ht, -⟩ := h
    cases ht
  | append_singleton tuples tuple ih =>
    rw [List.foldl_append, List.foldl_cons, List.foldl_nil]
    rcases offeredBy_append_singleton.mp h with h | h
    · obtain ⟨r, hr, hnet, hle⟩ := ih h
      cases hoffer : p.offer associations tuple with
      | none =>
        rw [add_association_of_offer_eq_none _ hoffer]
        exact ⟨r, hr, hnet, hle⟩
      | some c₁ =>
        have hentered := entered_of_offer
          (tuples.foldl (add_association p associations) table) hoffer
        rcases hentered.mem_or_lt hr with hr | ⟨hnet₁, hlt₁⟩
        · exact ⟨r, hr, hnet, hle⟩
        · -- the route is replaced by a shorter one
          obtain ⟨r₁, hr₁, hnet₂, hle₂⟩ := hentered.exists_le
          exact ⟨r₁, hr₁, by rw [hnet₂, hnet₁, hnet], by omega⟩
    · exact (entered_of_offer _ h).exists_le

end Run

section Result

variable {p : RoutingProtocol} {s : Announcements} {old : Ipv4StaticRouting}

theorem hna_routes_eq (p : RoutingProtocol) (s : Announcements) (old : Ipv4StaticRouting) :
    p.hna_routes s old =
      s.m_associationSet.foldl (add_association p s.m_associations) ⟨left_over old⟩ := by
  rw [hna_routes, clear_routes_eq_drop, Nat.sub_zero]
  rfl

theorem superseded_of_holdsBest (h : p.HoldsBest s (p.hna_routes s old)) :
    ∀ route ∈ left_over old, p.Superseded s route := by
  intro route hroute
  rw [hna_routes_eq] at h
  rcases mem_foldl_or_lt ⟨left_over old⟩ hroute with hmem | ⟨c, hc, hnet, hlt⟩
  · exact .inl (h.best route hmem).1
  · exact .inr ⟨c, hc, hnet, hlt⟩

theorem holdsBest_of_superseded (hone : OneEach (left_over old))
    (h : ∀ route ∈ left_over old, p.Superseded s route) : p.HoldsBest s (p.hna_routes s old) := by
  rw [hna_routes_eq]
  set table := s.m_associationSet.foldl (add_association p s.m_associations) ⟨left_over old⟩ with htable
  have hresult : OneEach table.m_networkRoutes := oneEach_foldl hone
  have hunique {a b : Route} (ha : a ∈ table.m_networkRoutes) (hb : b ∈ table.m_networkRoutes)
      (hnet : a.1.network = b.1.network) : a = b :=
    List.inj_on_of_nodup_map hresult ha hb hnet
  have hbest {route other : Route} (hroute : route ∈ table.m_networkRoutes)
      (hother : p.Offered s other) (hnet : other.1.network = route.1.network) :
      route.2 ≤ other.2 := by
    obtain ⟨r, hr, hrnet, hle⟩ := exists_le_of_offeredBy ⟨left_over old⟩ hother
    rwa [hunique hr hroute (hrnet.trans hnet)] at hle
  refine ⟨fun route hroute => ⟨?_, fun other hother hnet => hbest hroute hother hnet⟩, ?_⟩
  · rcases mem_of_mem_foldl hroute with hold | hoffered
    · rcases h route hold with hoffered | ⟨other, hother, hnet, hlt⟩
      · exact hoffered
      · exact absurd (hbest hroute hother hnet) (not_le.mpr hlt)
    · exact hoffered
  · intro route hroute
    obtain ⟨r, hr, hnet, -⟩ := exists_le_of_offeredBy ⟨left_over old⟩ hroute
    have hcount : (table.m_networkRoutes.countP fun r => r.1.network = route.1.network) =
        (table.m_networkRoutes.map fun r => r.1.network).count route.1.network := by
      rw [List.count, List.countP_map]
      congr 1
      funext r
      exact Bool.eq_iff_iff.mpr (by simp)
    rw [hcount]
    exact List.count_eq_one_of_mem hresult (hnet ▸ List.mem_map_of_mem hr)

theorem left_over_eq_nil_iff : left_over old = [] ↔ old.get_n_routes ≤ 1 := by
  rw [left_over, List.drop_eq_nil_iff, ← Ipv4StaticRouting.get_n_routes]
  omega

theorem routing_table_computation_hna_eq_some {p' : RoutingProtocol} {now : Time}
    {table : Ipv4StaticRouting} (h : p.routing_table_computation_hna now s old = some (p', table)) :
    table = p'.hna_routes s old := by
  obtain ⟨p₁, -, h⟩ := Option.bind_eq_some_iff.mp h
  cases h
  rfl

theorem routing_table_computation_hna_nil (now : Time) (mainAddr : Ipv4Address)
    (old : Ipv4StaticRouting) :
    (⟨mainAddr, [], {}, fun _ => none⟩ : RoutingProtocol).routing_table_computation_hna now {} old =
      some (⟨mainAddr, [], {}, fun _ => none⟩, ⟨left_over old⟩) := by
  rw [routing_table_computation_hna, show
    (⟨mainAddr, [], {}, fun _ => none⟩ : RoutingProtocol).routing_table_computation now =
      some ⟨mainAddr, [], {}, fun _ => none⟩ from rfl]
  rw [Option.bind_eq_bind, Option.bind_some, hna_routes_eq]
  rfl

/-- Where the routes that the loop over the old ones leaves lead to different networks, the table
is the right one exactly when each of them is superseded. An old table from which the right one
follows whatever the state of the node is holds at most one route. -/
theorem hna_routes_iff (now : Time) :
    (∀ (p : RoutingProtocol) (s : Announcements) (old : Ipv4StaticRouting) (p' : RoutingProtocol)
      (table : Ipv4StaticRouting), p.routing_table_computation_hna now s old = some (p', table) →
        (p'.HoldsBest s table → ∀ route ∈ left_over old, p'.Superseded s route) ∧
        (OneEach (left_over old) → (∀ route ∈ left_over old, p'.Superseded s route) →
          p'.HoldsBest s table)) ∧
    ∀ old : Ipv4StaticRouting,
      (∀ (p : RoutingProtocol) (s : Announcements) (p' : RoutingProtocol) (table : Ipv4StaticRouting),
        p.routing_table_computation_hna now s old = some (p', table) → p'.HoldsBest s table) ↔
      old.get_n_routes ≤ 1 := by
  refine ⟨?_, fun old => ⟨fun hall => ?_, fun hfew => ?_⟩⟩
  · intro p s old p' table h
    rw [routing_table_computation_hna_eq_some h]
    exact ⟨superseded_of_holdsBest, holdsBest_of_superseded⟩
  · -- a node without tuples keeps all that the loop leaves
    by_contra hmany
    obtain ⟨route, hroute⟩ := List.exists_mem_of_ne_nil _ (mt left_over_eq_nil_iff.mp hmany)
    have hbest := hall _ _ _ _ (routing_table_computation_hna_nil now 0 old)
    obtain ⟨tuple, htuple, -⟩ := (hbest.best route hroute).1
    cases htuple
  · intro p s p' table h
    have hnil := left_over_eq_nil_iff.mpr hfew
    rw [routing_table_computation_hna_eq_some h]
    apply holdsBest_of_superseded
    · rw [hnil]
      exact List.nodup_nil
    · rw [hnil]
      intro route hroute
      cases hroute

/-- A longer route left over from an earlier topology is replaced. -/
theorem hna_routes_iff_replaced :
    let p : RoutingProtocol :=
      { m_mainAddress := 0x0a000001
        m_ipv4 := [[0x0a000001]]
        m_state :=
          { m_linkSet := [⟨0x0a000001, 0x0a000002, 9, 9, 9⟩]
            m_neighborSet := [⟨0x0a000002, .STATUS_SYM, Willingness.DEFAULT⟩] } }
    let s : Announcements := ⟨[⟨0x0a000002, 0x0a020000, 0xffff0000, 9⟩], []⟩
    let old : Ipv4StaticRouting := ⟨[(⟨0x0a010000, 0xffff0000, 0x0a000003, 0⟩, 2),
      (⟨0x0a020000, 0xffff0000, 0x0a000003, 0⟩, 2)]⟩
    ∃ (p' : RoutingProtocol) (table : Ipv4StaticRouting),
      p.routing_table_computation_hna 0 s old = some (p', table) ∧ p'.HoldsBest s table := by
  intro p s old
  have hone : OneEach (left_over old) := by
    unfold OneEach
    decide
  refine ⟨_, _, rfl, ((hna_routes_iff 0).1 p s old _ _ rfl).2 hone ?_⟩
  intro route hroute
  have hroute : route = (⟨0x0a020000, 0xffff0000, 0x0a000003, 0⟩, 2) := by
    simpa [old, left_over, Ipv4StaticRouting.get_n_routes] using hroute
  rw [hroute]
  exact .inr ⟨(⟨0x0a020000, 0xffff0000, 0x0a000002, 0⟩, 1), ⟨_, List.mem_singleton_self _, rfl⟩, rfl,
    by decide⟩

/-- Of two old routes one stays, though no gateway announces its network any more. -/
theorem hna_route_left_behind :
    ¬ ∀ (p : RoutingProtocol) (now : Time) (s : Announcements) (old : Ipv4StaticRouting)
      (p' : RoutingProtocol) (table : Ipv4StaticRouting),
      p.routing_table_computation_hna now s old = some (p', table) → p'.HoldsBest s table := by
  intro hall
  let old : Ipv4StaticRouting := ⟨[(⟨0x0a010000, 0xffff0000, 0x0a000002, 1⟩, 1),
    (⟨0x0a020000, 0xffff0000, 0x0a000002, 1⟩, 1)]⟩
  have hbest := hall _ 0 _ _ _ _ (routing_table_computation_hna_nil 0 0x0a000001 old)
  have hmem : ((⟨0x0a020000, 0xffff0000, 0x0a000002, 1⟩, 1) : Route) ∈ left_over old := by decide
  obtain ⟨tuple, htuple, -⟩ := (hbest.best _ hmem).1
  cases htuple

end Result

end Ns3.Olsr.RoutingProtocol
