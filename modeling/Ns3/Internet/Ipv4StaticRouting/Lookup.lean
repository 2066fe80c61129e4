import Ns3.Internet.Ipv4StaticRouting

namespace Ns3

/-- What the lookup asks of the node's `Ipv4`. -/
structure Ipv4Interfaces where
  get_net_device : ℕ → Option NetDevice
  source_address_selection : ℕ → Ipv4Address → Ipv4Address
  get_interface_for_device : NetDevice → ℕ
  get_address : ℕ → ℕ → Ipv4InterfaceAddress

namespace Ipv4StaticRouting

open Ipv4RoutingTableEntry

/-- `AddNetworkRouteTo` without a next hop. -/
def add_network_route_on (table : Ipv4StaticRouting) (network : Ipv4Address) (networkMask : Ipv4Mask)
    (interface metric : ℕ) : Ipv4StaticRouting :=
  table.add_network_route_to network networkMask Ipv4Address.get_zero interface metric

def add_host_route_to (table : Ipv4StaticRouting) (dest nextHop : Ipv4Address) (interface metric : ℕ) :
    Ipv4StaticRouting :=
  table.add_network_route_to dest Ipv4Mask.get_ones nextHop interface metric

/-- `AddHostRouteTo` without a next hop. -/
def add_host_route_on (table : Ipv4StaticRouting) (dest : Ipv4Address) (interface metric : ℕ) : Ipv4StaticRouting :=
  table.add_network_route_on dest Ipv4Mask.get_ones interface metric

def set_default_route (table : Ipv4StaticRouting) (nextHop : Ipv4Address) (interface metric : ℕ) :
    Ipv4StaticRouting :=
  table.add_network_route_to 0 Ipv4Mask.get_zero nextHop interface metric

/-- `SetDefaultMulticastRoute`, for 224.0.0.0/4. It does not look whether the table has the route. -/
def set_default_multicast_route (table : Ipv4StaticRouting) (outputInterface : ℕ) : Ipv4StaticRouting :=
  let route := create_network_route_to 0xe0000000 0xf0000000 Ipv4Address.get_zero outputInterface
  ⟨table.m_networkRoutes ++ [(route, 0)]⟩

/-- The calls that change the list of network routes. Metrics have 32 bits. -/
inductive Operation
  | addNetworkRouteTo (network : Ipv4Address) (networkMask : Ipv4Mask) (nextHop : Ipv4Address) (interface : ℕ)
      (metric : UInt32)
  | addNetworkRouteOn (network : Ipv4Address) (networkMask : Ipv4Mask) (interface : ℕ) (metric : UInt32)
  | addHostRouteTo (dest nextHop : Ipv4Address) (interface : ℕ) (metric : UInt32)
  | addHostRouteOn (dest : Ipv4Address) (interface : ℕ) (metric : UInt32)
  | setDefaultRoute (nextHop : Ipv4Address) (interface : ℕ) (metric : UInt32)
  | setDefaultMulticastRoute (outputInterface : ℕ)
  | removeRoute (index : ℕ)
deriving DecidableEq, Repr

def perform (table : Ipv4StaticRouting) : Operation → Ipv4StaticRouting
  | .addNetworkRouteTo network networkMask nextHop interface metric =>
    table.add_network_route_to network networkMask nextHop interface metric.toNat
  | .addNetworkRouteOn network networkMask interface metric =>
    table.add_network_route_on network networkMask interface metric.toNat
  | .addHostRouteTo dest nextHop interface metric => table.add_host_route_to dest nextHop interface metric.toNat
  | .addHostRouteOn dest interface metric => table.add_host_route_on dest interface metric.toNat
  | .setDefaultRoute nextHop interface metric => table.set_default_route nextHop interface metric.toNat
  | .setDefaultMulticastRoute outputInterface => table.set_default_multicast_route outputInterface
  | .removeRoute index => table.remove_route index

def build (operations : List Operation) : Ipv4StaticRouting := operations.foldl perform {}

/-- The variables of the lookup's loop. -/
structure Search where
  rtentry : Option Ipv4Route := none
  longest_mask : ℕ := 0
  shortest_metric : ℕ := 0xffffffff
deriving DecidableEq, Repr

variable (ipv4 : Ipv4Interfaces)

def create_route (j : Ipv4RoutingTableEntry) : Ipv4Route where
  destination := j.m_dest
  source := ipv4.source_address_selection j.m_interface j.m_dest
  gateway := j.m_gateway
  output_device := ipv4.get_net_device j.m_interface

def lookup_static_loop (dest : Ipv4Address) (oif : Option NetDevice) :
    List (Ipv4RoutingTableEntry × ℕ) → Search → Option Ipv4Route
  | [], s => s.rtentry
  | (j, metric) :: i, s =>
    let mask := j.m_destNetworkMask
    let masklen := mask.get_prefix_length
    if mask.is_match dest j.m_dest then
      if oif.isSome && oif != ipv4.get_net_device j.m_interface then
        -- not on the requested interface
        lookup_static_loop dest oif i s
      else if masklen < s.longest_mask then
        lookup_static_loop dest oif i s
      else
        let shortest_metric := if masklen > s.longest_mask then 0xffffffff else s.shortest_metric
        if metric > shortest_metric then
          lookup_static_loop dest oif i { s with longest_mask := masklen, shortest_metric }
        else if masklen = 32 then
          -- the loop is left with this route, whatever comes behind it
          some (create_route ipv4 j)
        else
          lookup_static_loop dest oif i ⟨some (create_route ipv4 j), masklen, metric⟩
    else
      lookup_static_loop dest oif i s

/-- `LookupStatic`; there is no result where the assertion on the output device fails. -/
def lookup_static (table : Ipv4StaticRouting) (dest : Ipv4Address) (oif : Option NetDevice) :
    Option (Option Ipv4Route) :=
  if dest.is_local_multicast then
    oif.map fun device => some {
      destination := dest
      source := (ipv4.get_address (ipv4.get_interface_for_device device) 0).local_addr
      gateway := Ipv4Address.get_zero
      output_device := some device }
  else
    some (lookup_static_loop ipv4 dest oif table.m_networkRoutes {})

/-- A route to the destination, through the output device if there is one to use. -/
def is_usable (dest : Ipv4Address) (oif : Option NetDevice) (k : Ipv4RoutingTableEntry × ℕ) : Bool :=
  k.1.m_destNetworkMask.is_match dest k.1.m_dest && (oif.isNone || oif == ipv4.get_net_device k.1.m_interface)

/-- The routes of a table that a lookup may choose from, in their order. -/
def usable (table : Ipv4StaticRouting) (dest : Ipv4Address) (oif : Option NetDevice) :
    List (Ipv4RoutingTableEntry × ℕ) :=
  table.m_networkRoutes.filter (is_usable ipv4 dest oif)

def prefixLength (k : Ipv4RoutingTableEntry × ℕ) : ℕ := k.1.m_destNetworkMask.get_prefix_length

/-- A route with the longest prefix, and with the smallest metric among those. -/
structure Best (routes : List (Ipv4RoutingTableEntry × ℕ)) (k : Ipv4RoutingTableEntry × ℕ) : Prop where
  mem : k ∈ routes
  longest : ∀ l ∈ routes, prefixLength l ≤ prefixLength k
  least : ∀ l ∈ routes, prefixLength l = prefixLength k → k.2 ≤ l.2

/-- The answer that a lookup among some routes should give. -/
structure Finds (routes : List (Ipv4RoutingTableEntry × ℕ)) (result : Option Ipv4Route) : Prop where
  null : result = none ↔ routes = []
  best : ∀ r, result = some r → ∃ k, Best routes k ∧ r = create_route ipv4 k.1

/-- Two entries that differ in nothing a route is made of. -/
structure LeadsAs (j k : Ipv4RoutingTableEntry) : Prop where
  dest : j.m_dest = k.m_dest
  gateway : j.m_gateway = k.m_gateway
  device : ipv4.get_net_device j.m_interface = ipv4.get_net_device k.m_interface
  source : ipv4.source_address_selection j.m_interface j.m_dest =
    ipv4.source_address_selection k.m_interface j.m_dest

/-- The first of the host routes leads as one with the smallest metric among them does. -/
def FirstHostBest (routes : List (Ipv4RoutingTableEntry × ℕ)) : Prop :=
  ∀ j, routes.find? (prefixLength · == 32) = some j →
    ∃ k ∈ routes, prefixLength k = 32 ∧ (∀ l ∈ routes, prefixLength l = 32 → k.2 ≤ l.2) ∧ LeadsAs ipv4 j.1 k.1

variable {ipv4} {dest : Ipv4Address} {oif : Option NetDevice} {routes seen : List (Ipv4RoutingTableEntry × ℕ)}
  {j k : Ipv4RoutingTableEntry × ℕ} {s : Search}

theorem get_prefix_length_loop_le (turns : ℕ) (mask : Ipv4Mask) :
    Ipv4Mask.get_prefix_length_loop turns mask ≤ turns := by
  induction turns generalizing mask with
  | zero => exact le_rfl
  | succ turns ih =>
    rw [Ipv4Mask.get_prefix_length_loop]
    split
    · exact Nat.zero_le _
    · exact Nat.succ_le_succ (ih _)

theorem get_prefix_length_contiguous :
    ∀ n ≤ 32, Ipv4Mask.get_prefix_length (UInt32.ofNat (2 ^ 32 - 2 ^ (32 - n))) = n := by
  decide

theorem prefixLength_le (k : Ipv4RoutingTableEntry × ℕ) : prefixLength k ≤ 32 :=
  get_prefix_length_loop_le 32 _

theorem create_route_eq_iff (j k : Ipv4RoutingTableEntry) :
    create_route ipv4 j = create_route ipv4 k ↔ LeadsAs ipv4 j k := by
  constructor
  · intro h
    injection h with hdest hsource hgateway hdevice
    exact ⟨hdest, hgateway, hdevice, by rw [hsource, hdest]⟩
  · rintro ⟨hdest, hgateway, hdevice, hsource⟩
    rw [create_route, create_route, hsource, hdest, hgateway, hdevice]

theorem lookup_static_loop_filter (routes : List (Ipv4RoutingTableEntry × ℕ)) (s : Search) :
    lookup_static_loop ipv4 dest oif routes s =
      lookup_static_loop ipv4 dest oif (routes.filter (is_usable ipv4 dest oif)) s := by
  induction routes generalizing s with
  | nil => rfl
  | cons j routes ih =>
    by_cases hmatch : j.1.m_destNetworkMask.is_match dest j.1.m_dest
    · by_cases hskip : oif.isSome && oif != ipv4.get_net_device j.1.m_interface
      · have hnot : is_usable ipv4 dest oif j = false := by
          cases oif <;> simp_all [is_usable]
        simp only [lookup_static_loop, hmatch, hskip, if_true, List.filter_cons, hnot, ih, Bool.false_eq_true,
          if_false]
      · have husable : is_usable ipv4 dest oif j = true := by
          cases oif <;> simp_all [is_usable]
        simp only [lookup_static_loop, hmatch, hskip, if_true, List.filter_cons, husable, ih, Bool.false_eq_true,
          if_false]
    · have hnot : is_usable ipv4 dest oif j = false := by
        simp [is_usable, hmatch]
      simp only [lookup_static_loop, hmatch, List.filter_cons, hnot, ih, Bool.false_eq_true, if_false]

theorem lookup_static_loop_usable (h : is_usable ipv4 dest oif j) (routes : List (Ipv4RoutingTableEntry × ℕ))
    (s : Search) : lookup_static_loop ipv4 dest oif (j :: routes) s =
      if prefixLength j < s.longest_mask then lookup_static_loop ipv4 dest oif routes s
      else if j.2 > (if prefixLength j > s.longest_mask then 0xffffffff else s.shortest_metric) then
        lookup_static_loop ipv4 dest oif routes
          ⟨s.rtentry, prefixLength j, if prefixLength j > s.longest_mask then 0xffffffff else s.shortest_metric⟩
      else if prefixLength j = 32 then some (create_route ipv4 j.1)
      else lookup_static_loop ipv4 dest oif routes ⟨some (create_route ipv4 j.1), prefixLength j, j.2⟩ := by
  have hmatch : j.1.m_destNetworkMask.is_match dest j.1.m_dest := by
    simp_all [is_usable]
  have hskip : (oif.isSome && oif != ipv4.get_net_device j.1.m_interface) = false := by
    cases oif <;> simp_all [is_usable]
  simp only [lookup_static_loop, hmatch, hskip, if_true, Bool.false_eq_true, if_false]
  rfl

/-- The search after some usable routes, none of them to a host, holds the best of them. -/
inductive Scanned (ipv4 : Ipv4Interfaces) : List (Ipv4RoutingTableEntry × ℕ) → Search → Prop
  | empty : Scanned ipv4 [] {}
  | best {seen : List (Ipv4RoutingTableEntry × ℕ)} {k : Ipv4RoutingTableEntry × ℕ} : Best seen k → k.2 < 2 ^ 32 →
    Scanned ipv4 seen ⟨some (create_route ipv4 k.1), prefixLength k, k.2⟩

theorem Best.keep (h : Best seen k) (hlonger : prefixLength j ≤ prefixLength k)
    (hless : prefixLength j = prefixLength k → k.2 ≤ j.2) : Best (seen ++ [j]) k where
  mem := List.mem_append_left _ h.mem
  longest l hl := by
    obtain hl | hl := List.mem_append.mp hl
    · exact h.longest l hl
    · rwa [List.mem_singleton.mp hl]
  least l hl := by
    obtain hl | hl := List.mem_append.mp hl
    · exact h.least l hl
    · rwa [List.mem_singleton.mp hl]

theorem Best.replace (h : Best seen k) (hlonger : prefixLength k ≤ prefixLength j)
    (hless : prefixLength j = prefixLength k → j.2 ≤ k.2) : Best (seen ++ [j]) j where
  mem := List.mem_append_right _ (List.mem_singleton_self j)
  longest l hl := by
    obtain hl | hl := List.mem_append.mp hl
    · exact (h.longest l hl).trans hlonger
    · rw [List.mem_singleton.mp hl]
  least l hl heq := by
    obtain hl | hl := List.mem_append.mp hl
    · have hlk := h.longest l hl
      exact (hless (by omega)).trans (h.least l hl (by omega))
    · rw [List.mem_singleton.mp hl]

theorem best_singleton (j : Ipv4RoutingTableEntry × ℕ) : Best [j] j where
  mem := List.mem_singleton_self j
  longest l hl := by rw [List.mem_singleton.mp hl]
  least l hl _ := by rw [List.mem_singleton.mp hl]

/-- One turn of the loop: a host route ends it, and any other one joins those that are scanned. -/
theorem lookup_static_loop_step (hs : Scanned ipv4 seen s) (hseen : ∀ l ∈ seen, prefixLength l ≠ 32)
    (hj : is_usable ipv4 dest oif j) (hmetric : j.2 < 2 ^ 32) (routes : List (Ipv4RoutingTableEntry × ℕ)) :
    (prefixLength j = 32 ∧ lookup_static_loop ipv4 dest oif (j :: routes) s = some (create_route ipv4 j.1)) ∨
      (prefixLength j ≠ 32 ∧ ∃ s', Scanned ipv4 (seen ++ [j]) s' ∧
        lookup_static_loop ipv4 dest oif (j :: routes) s = lookup_static_loop ipv4 dest oif routes s') := by
  have hle := prefixLength_le j
  rw [lookup_static_loop_usable hj]
  cases hs with
  | empty =>
    have hfit : ¬ j.2 > (if prefixLength j > 0 then 0xffffffff else 0xffffffff) := by
      rw [ite_self]
      omega
    rw [if_neg (Nat.not_lt_zero _), if_neg hfit]
    by_cases hhost : prefixLength j = 32
    · exact Or.inl ⟨hhost, if_pos hhost⟩
    · exact Or.inr ⟨hhost, _, .best (best_singleton j) hmetric, if_neg hhost⟩
  | @best _ k hbest hk =>
    have hk32 : prefixLength k ≠ 32 := hseen k hbest.mem
    have hkle := prefixLength_le k
    by_cases hshorter : prefixLength j < prefixLength k
    · refine Or.inr ⟨by omega, _, .best (hbest.keep (by omega) (by omega)) hk, ?_⟩
      rw [if_pos hshorter]
    rw [if_neg hshorter]
    obtain heq | hlonger := Nat.eq_or_lt_of_not_lt hshorter
    · -- of two routes with one prefix the later one is taken, unless its metric is larger
      have hnot : ¬ prefixLength j > prefixLength k := by omega
      simp only [if_neg hnot]
      by_cases hworse : j.2 > k.2
      · refine Or.inr ⟨by omega, _, .best (hbest.keep (by omega) (by omega)) hk, ?_⟩
        rw [if_pos hworse, heq]
      · refine Or.inr ⟨by omega, _, .best (hbest.replace (by omega) (by omega)) hmetric, ?_⟩
        rw [if_neg hworse, if_neg (by omega)]
    · simp only [if_pos (show prefixLength j > prefixLength k from hlonger)]
      rw [if_neg (by omega)]
      by_cases hhost : prefixLength j = 32
      · exact Or.inl ⟨hhost, if_pos hhost⟩
      · exact Or.inr ⟨hhost, _, .best (hbest.replace (by omega) (by omega)) hmetric, if_neg hhost⟩

theorem lookup_static_loop_spec (hroutes : ∀ l ∈ routes, is_usable ipv4 dest oif l ∧ l.2 < 2 ^ 32)
    (hs : Scanned ipv4 seen s) (hseen : ∀ l ∈ seen, prefixLength l ≠ 32) :
    (∃ j, routes.find? (prefixLength · == 32) = some j ∧
        lookup_static_loop ipv4 dest oif routes s = some (create_route ipv4 j.1)) ∨
      (routes.find? (prefixLength · == 32) = none ∧
        ∃ s', Scanned ipv4 (seen ++ routes) s' ∧ lookup_static_loop ipv4 dest oif routes s = s'.rtentry) := by
  induction routes generalizing seen s with
  | nil => exact Or.inr ⟨rfl, s, by rwa [List.append_nil], rfl⟩
  | cons j routes ih =>
    obtain ⟨hj, hmetric⟩ := hroutes j List.mem_cons_self
    obtain ⟨hhost, hloop⟩ | ⟨hhost, s', hs', hloop⟩ := lookup_static_loop_step hs hseen hj hmetric routes
    · exact Or.inl ⟨j, by simp [hhost], hloop⟩
    · have hseen' : ∀ l ∈ seen ++ [j], prefixLength l ≠ 32 := by
        intro l hl
        obtain hl | hl := List.mem_append.mp hl
        · exact hseen l hl
        · rwa [List.mem_singleton.mp hl]
      have hfind : (j :: routes).find? (prefixLength · == 32) = routes.find? (prefixLength · == 32) := by
        rw [List.find?_cons_of_neg (by simpa using hhost)]
      have hrest := ih (fun l hl => hroutes l (List.mem_cons_of_mem j hl)) hs' hseen'
      rwa [hloop, hfind, ← List.append_cons] at *

theorem Scanned.finds (h : Scanned ipv4 routes s) : Finds ipv4 routes s.rtentry := by
  cases h with
  | empty => exact ⟨by simp, fun r hr => by cases hr⟩
  | best hbest _ =>
    refine ⟨?_, fun r hr => ⟨_, hbest, ?_⟩⟩
    · have hne : routes ≠ [] := List.ne_nil_of_mem hbest.mem
      simp [hne]
    · injection hr with hr
      exact hr.symm

/-- A first host route answers as it should exactly when a best one leads the same way. -/
theorem finds_iff_of_find? (hfirst : routes.find? (prefixLength · == 32) = some j) :
    Finds ipv4 routes (some (create_route ipv4 j.1)) ↔ FirstHostBest ipv4 routes := by
  have hmem : j ∈ routes := List.mem_of_find?_eq_some hfirst
  have hhost : prefixLength j = 32 := by simpa using List.find?_some hfirst
  constructor
  · intro h l hl
    obtain rfl : j = l := Option.some.inj (hfirst.symm.trans hl)
    obtain ⟨k, hk, hroute⟩ := h.best _ rfl
    have hlong : prefixLength k = 32 := by
      apply Nat.le_antisymm (prefixLength_le k)
      rw [← hhost]
      exact hk.longest j hmem
    refine ⟨k, hk.mem, hlong, ?_, (create_route_eq_iff _ _).mp hroute⟩
    rw [← hlong]
    exact hk.least
  · intro h
    obtain ⟨k, hk, hlong, hleast, hleads⟩ := h j hfirst
    have hne : routes ≠ [] := List.ne_nil_of_mem hmem
    refine ⟨by simp [hne], fun r hr => ⟨k, ⟨hk, fun l _ => ?_, ?_⟩, ?_⟩⟩
    · rw [hlong]
      exact prefixLength_le l
    · rwa [hlong]
    · rw [← (create_route_eq_iff _ _).mpr hleads]
      exact (Option.some.inj hr).symm

theorem mem_add_network_route_to {table : Ipv4StaticRouting} {network nextHop : Ipv4Address}
    {networkMask : Ipv4Mask} {interface metric : ℕ}
    (h : k ∈ (table.add_network_route_to network networkMask nextHop interface metric).m_networkRoutes) :
    k ∈ table.m_networkRoutes ∨ k.2 = metric := by
  unfold add_network_route_to at h
  dsimp only at h
  split at h
  · exact Or.inl h
  · obtain h | h := List.mem_append.mp h
    · exact Or.inl h
    · rw [List.mem_singleton.mp h]
      exact Or.inr rfl

theorem perform_metric {table : Ipv4StaticRouting} (htable : ∀ l ∈ table.m_networkRoutes, l.2 < 2 ^ 32)
    (operation : Operation) : ∀ l ∈ (table.perform operation).m_networkRoutes, l.2 < 2 ^ 32 := by
  intro l hl
  have hadd : ∀ {network nextHop : Ipv4Address} {networkMask : Ipv4Mask} {interface : ℕ} {metric : UInt32},
      l ∈ (table.add_network_route_to network networkMask nextHop interface metric.toNat).m_networkRoutes →
      l.2 < 2 ^ 32 := by
    intro _ _ _ _ metric hmem
    obtain hmem | hmem := mem_add_network_route_to hmem
    · exact htable l hmem
    · rw [hmem]
      exact metric.toNat_lt
  cases operation with
  | addNetworkRouteTo => exact hadd hl
  | addNetworkRouteOn => exact hadd hl
  | addHostRouteTo => exact hadd hl
  | addHostRouteOn => exact hadd hl
  | setDefaultRoute => exact hadd hl
  | setDefaultMulticastRoute =>
    obtain hl | hl := List.mem_append.mp hl
    · exact htable l hl
    · rw [List.mem_singleton.mp hl]
      exact Nat.two_pow_pos 32
  | removeRoute => exact htable l (List.mem_of_mem_eraseIdx hl)

theorem build_metric (operations : List Operation) : ∀ l ∈ (build operations).m_networkRoutes, l.2 < 2 ^ 32 := by
  apply List.foldlRecOn (motive := fun table : Ipv4StaticRouting => ∀ l ∈ table.m_networkRoutes, l.2 < 2 ^ 32)
  · intro l hl
    cases hl
  · intro table htable operation _
    exact perform_metric htable operation

/-- A lookup answers as it should exactly when the first host route that it may use is as good as any. -/
theorem lookup_static_finds_iff (operations : List Operation) (hdest : dest.is_local_multicast = false) :
    (∃ result, (build operations).lookup_static ipv4 dest oif = some result ∧
        Finds ipv4 ((build operations).usable ipv4 dest oif) result) ↔
      FirstHostBest ipv4 ((build operations).usable ipv4 dest oif) := by
  have hroutes : ∀ l ∈ (build operations).usable ipv4 dest oif, is_usable ipv4 dest oif l ∧ l.2 < 2 ^ 32 := by
    intro l hl
    obtain ⟨hmem, husable⟩ := List.mem_filter.mp hl
    exact ⟨husable, build_metric operations l hmem⟩
  have hlookup : (build operations).lookup_static ipv4 dest oif =
      some (lookup_static_loop ipv4 dest oif ((build operations).usable ipv4 dest oif) {}) := by
    rw [lookup_static, hdest, lookup_static_loop_filter]
    rfl
  have hresult : (∃ result, (build operations).lookup_static ipv4 dest oif = some result ∧
        Finds ipv4 ((build operations).usable ipv4 dest oif) result) ↔
      Finds ipv4 ((build operations).usable ipv4 dest oif)
        (lookup_static_loop ipv4 dest oif ((build operations).usable ipv4 dest oif) {}) := by
    simp [hlookup]
  rw [hresult]
  obtain ⟨j, hfirst, hloop⟩ | ⟨hfirst, s', hs', hloop⟩ := lookup_static_loop_spec hroutes .empty (by simp)
  · rw [hloop]
    exact finds_iff_of_find? hfirst
  · rw [hloop]
    refine iff_of_true hs'.finds fun j hj => ?_
    rw [hfirst] at hj
    cases hj

def oneInterface : Ipv4Interfaces where
  get_net_device _ := some 0
  source_address_selection _ _ := 0x0a000003
  get_interface_for_device _ := 0
  get_address _ _ := .of 0x0a000003 0xffffff00

/-- Two routes to the host 10.1.1.9, by way of 10.0.0.1 and of 10.0.0.2. -/
def twoHostRoutes (first second : UInt32) : List Operation :=
  [.addHostRouteTo 0x0a010109 0x0a000001 0 first, .addHostRouteTo 0x0a010109 0x0a000002 0 second]

theorem lookup_static_finds_iff_two_host_routes :
    ∃ result, (build (twoHostRoutes 1 5)).lookup_static oneInterface 0x0a010109 none = some result ∧
      Finds oneInterface ((build (twoHostRoutes 1 5)).usable oneInterface 0x0a010109 none) result := by
  apply (lookup_static_finds_iff (twoHostRoutes 1 5) (by decide)).mpr
  intro j hj
  have hfirst : j = (⟨0x0a010109, Ipv4Mask.get_ones, 0x0a000001, 0⟩, 1) := by
    apply Option.some.inj
    rw [← hj]
    decide
  subst hfirst
  exact ⟨_, by decide, by decide, by decide, rfl, rfl, rfl, rfl⟩

/-- Of two routes to a host the first one is taken, although its metric is the larger one. -/
theorem larger_metric_taken :
    ¬ ∃ result, (build (twoHostRoutes 5 1)).lookup_static oneInterface 0x0a010109 none = some result ∧
      Finds oneInterface ((build (twoHostRoutes 5 1)).usable oneInterface 0x0a010109 none) result := by
  rintro ⟨result, hlookup, hfinds⟩
  have hroutes : (build (twoHostRoutes 5 1)).usable oneInterface 0x0a010109 none =
      [(⟨0x0a010109, Ipv4Mask.get_ones, 0x0a000001, 0⟩, 5), (⟨0x0a010109, Ipv4Mask.get_ones, 0x0a000002, 0⟩, 1)] := by
    decide
  have hfirst : result = some ⟨0x0a010109, 0x0a000003, 0x0a000001, some 0⟩ := by
    apply Option.some.inj
    rw [← hlookup]
    decide
  obtain ⟨k, hbest, hroute⟩ := hfinds.best _ hfirst
  have hsecond := hbest.least (⟨0x0a010109, Ipv4Mask.get_ones, 0x0a000002, 0⟩, 1) (by rw [hroutes]; simp)
  have hmem := hbest.mem
  rw [hroutes, List.mem_pair] at hmem
  obtain rfl | rfl := hmem
  · exact absurd (hsecond rfl) (by decide)
  · exact absurd hroute (by decide)

end Ipv4StaticRouting

end Ns3
