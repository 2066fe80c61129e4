import Ns3.Internet.Rip.Requests
import Ns3.Internet.RipHeader

namespace Ns3.Rip

open RipHeader

/-- The strategy lets the route go out on the interface. -/
def strategy_allows (p : RipAttributes) (interface : ℕ) (route : RipRoutingTableEntry) : Bool :=
  p.m_splitHorizonStrategy != .SPLIT_HORIZON || route.interface != interface

/-- The RTE of a route on an interface: a poisoned one has metric 16. -/
def rte_of (p : RipAttributes) (interface : ℕ) (route : RipRoutingTableEntry) : RipRte where
  prefixAddr := route.dest_network
  subnet_mask := route.dest_network_mask
  route_tag := route.tag
  route_metric :=
    if p.m_splitHorizonStrategy = .POISON_REVERSE ∧ route.interface = interface then link_down
    else route.metric

/-- A route that is not for the host itself, or the default route through another interface. -/
def carried (interface : ℕ) (route : RipRoutingTableEntry) : Bool :=
  route.dest_network != Ipv4Address.get_loopback ||
    route.dest_network == Ipv4Address.get_zero && route.dest_network_mask == Ipv4Mask.get_zero &&
      route.interface != interface

/-- The route is not for a network of the interface itself. -/
def remote (s : Rip) (interface : ℕ) (route : RipRoutingTableEntry) : Bool :=
  !(s.addresses interface).any fun addr => (network addr).1 == route.dest_network

/-- What the strategy allows in an update on the interface. -/
def allowed_in_update (p : RipAttributes) (s : Rip) (interface : ℕ) : List RipRte :=
  ((s.m_routes.map (·.entry)).filter fun route => carried interface route &&
    s.remote interface route && strategy_allows p interface route).map (rte_of p interface)

/-- What the strategy allows in the answer to a whole-table request. -/
def allowed_in_answer (p : RipAttributes) (s : Rip) (interface : ℕ) : List RipRte :=
  ((s.m_routes.map (·.entry)).filter fun route => carried interface route &&
    route.status == .RIP_VALID && strategy_allows p interface route).map (rte_of p interface)

def read_message (bytes : List UInt8) : Option (List RipRte) :=
  match RipHeader.deserialize.run bytes with
  | some (some (_, rtes), _) => some rtes
  | _ => none

/-- Each message fits the MTU with its IPv4 and UDP headers, and what is read from them is each
allowed RTE once and nothing else. -/
structure Complete (mtu : ℕ) (messages : List (List RipRte)) (allowed : List RipRte) : Prop where
  fits : ∀ hdr ∈ messages, 20 + 8 + (serialize RESPONSE hdr).length ≤ mtu
  read : ∃ rtes, messages.mapM (fun hdr => read_message (serialize RESPONSE hdr)) = some rtes ∧
    rtes.flatten.Perm allowed

section Packets

/-! What goes into the messages, and how full they are. -/

variable {maxRte : UInt16}

theorem toUInt16_eq_iff {n : ℕ} (h : n ≤ maxRte.toNat) : n.toUInt16 = maxRte ↔ n = maxRte.toNat := by
  have hlt := maxRte.toNat_lt
  rw [← UInt16.toNat_inj, UInt16.toNat_ofNat', Nat.mod_eq_of_lt (by omega)]

theorem toUInt16_pos_iff {n : ℕ} (h : n < 2 ^ 16) : 0 < n.toUInt16 ↔ 0 < n := by
  rw [UInt16.lt_iff_toNat_lt, UInt16.toNat_ofNat', Nat.mod_eq_of_lt h]
  rfl

theorem length_append_toList (hdr : List RipRte) (o : Option RipRte) :
    (hdr ++ o.toList).length ≤ hdr.length + 1 := by
  cases o <;> simp

theorem append_filterMap_cons (advertised : RipRoute → Option RipRte) (hdr : List RipRte) (it : RipRoute) (rest : List RipRoute) :
    (hdr ++ (advertised it).toList) ++ rest.filterMap advertised =
      hdr ++ (it :: rest).filterMap advertised := by
  rw [List.append_assoc]
  cases hit : advertised it <;> simp [hit]

theorem packets_spec (advertised : RipRoute → Option RipRte) (routes : List RipRoute) (hdr : List RipRte) (hlt : hdr.length < maxRte.toNat) :
    (packets maxRte advertised routes hdr).flatten = hdr ++ routes.filterMap advertised ∧
      ∀ m ∈ packets maxRte advertised routes hdr, m.length ≤ maxRte.toNat := by
  induction routes generalizing hdr with
  | nil =>
    have hmax := maxRte.toNat_lt
    rw [packets]
    split
    next => exact ⟨by simp, fun m hm => by rw [List.mem_singleton.mp hm]; exact hlt.le⟩
    next hzero =>
      have hnil : hdr = [] := by
        rw [← List.length_eq_zero_iff]
        by_contra hne
        exact hzero ((toUInt16_pos_iff (by omega)).mpr (Nat.pos_of_ne_zero hne))
      subst hnil
      exact ⟨rfl, by simp⟩
  | cons it rest ih =>
    have hnext := length_append_toList hdr (advertised it)
    have hall := append_filterMap_cons advertised hdr it rest
    rw [packets]
    split
    next hfull =>
      have hlength := (toUInt16_eq_iff (by omega)).mp hfull
      obtain ⟨hflatten, hle⟩ := ih [] (by rw [List.length_nil]; omega)
      refine ⟨by rw [List.flatten_cons, hflatten, List.nil_append, hall], fun m hm => ?_⟩
      rcases List.mem_cons.mp hm with rfl | hm
      · exact hlength.le
      · exact hle m hm
    next hroom =>
      have hlength := mt (toUInt16_eq_iff (by omega)).mpr hroom
      obtain ⟨hflatten, hle⟩ := ih (hdr ++ (advertised it).toList) (by omega)
      exact ⟨by rw [hflatten, hall], hle⟩

theorem exists_full_packet (advertised : RipRoute → Option RipRte) (routes : List RipRoute)
    (hdr : List RipRte) (hlt : hdr.length < maxRte.toNat) (n : ℕ) (hn : n ≤ maxRte.toNat) (hpos : 0 < n)
    (hmany : n ≤ (hdr ++ routes.filterMap advertised).length) :
    ∃ m ∈ packets maxRte advertised routes hdr, n ≤ m.length := by
  induction routes generalizing hdr with
  | nil =>
    have hmax := maxRte.toNat_lt
    rw [List.filterMap_nil, List.append_nil] at hmany
    rw [packets, if_pos ((toUInt16_pos_iff (by omega)).mpr (by omega))]
    exact ⟨hdr, List.mem_singleton_self _, hmany⟩
  | cons it rest ih =>
    have hnext := length_append_toList hdr (advertised it)
    have hall := append_filterMap_cons advertised hdr it rest
    rw [packets]
    split
    next hfull =>
      have hlength := (toUInt16_eq_iff (by omega)).mp hfull
      exact ⟨_, List.mem_cons_self, by omega⟩
    next hroom =>
      have hlength := mt (toUInt16_eq_iff (by omega)).mpr hroom
      exact ih _ (by omega) (by rwa [hall])

end Packets

section Capacity

theorem toNat_max_rte {mtu : UInt16} (h : 68 ≤ mtu) : (max_rte mtu).toNat = (mtu.toNat - 32) / 20 := by
  have hlt := mtu.toNat_lt
  have hle : 68 ≤ mtu.toNat := h
  have hsub : (mtu.toUInt32 - 20 - 8 - 4).toNat = mtu.toNat - 32 := by
    have h20 : (20 : UInt32) ≤ mtu.toUInt32 := by
      rw [UInt32.le_iff_toNat_le, UInt16.toNat_toUInt32]
      exact le_trans (by decide) hle
    have h₁ := UInt32.toNat_sub_of_le _ _ h20
    rw [UInt16.toNat_toUInt32, show (20 : UInt32).toNat = 20 from rfl] at h₁
    have h8 : (8 : UInt32) ≤ mtu.toUInt32 - 20 := by
      rw [UInt32.le_iff_toNat_le, h₁, show (8 : UInt32).toNat = 8 from rfl]
      omega
    have h₂ := UInt32.toNat_sub_of_le _ _ h8
    rw [h₁, show (8 : UInt32).toNat = 8 from rfl] at h₂
    have h4 : (4 : UInt32) ≤ mtu.toUInt32 - 20 - 8 := by
      rw [UInt32.le_iff_toNat_le, h₂, show (4 : UInt32).toNat = 4 from rfl]
      omega
    have h₃ := UInt32.toNat_sub_of_le _ _ h4
    rw [h₂, show (4 : UInt32).toNat = 4 from rfl] at h₃
    omega
  rw [max_rte, UInt32.toNat_toUInt16, UInt32.toNat_div, hsub, show (20 : UInt32).toNat = 20 from rfl,
    Nat.mod_eq_of_lt (by omega)]

end Capacity

section Messages

variable {messages : List (List RipRte)}

theorem read_message_serialize {hdr : List RipRte} (h : ∀ rte ∈ hdr, rte.route_metric < 2 ^ 32) :
    read_message (serialize RESPONSE hdr) = some (hdr.take (hdr.length % 256)) := by
  obtain ⟨rest, hrest⟩ := run_deserialize h
  rw [read_message, hrest]

theorem mapM_read_message (h : ∀ hdr ∈ messages, ∀ rte ∈ hdr, rte.route_metric < 2 ^ 32) :
    messages.mapM (fun hdr => read_message (serialize RESPONSE hdr)) =
      some (messages.map fun hdr => hdr.take (hdr.length % 256)) := by
  induction messages with
  | nil => rfl
  | cons hdr messages ih =>
    rw [List.mapM_cons, read_message_serialize (h hdr List.mem_cons_self),
      ih fun hdr' hhdr' => h hdr' (List.mem_cons_of_mem _ hhdr')]
    rfl

theorem flatten_read_perm_iff :
    (messages.map fun hdr => hdr.take (hdr.length % 256)).flatten.Perm messages.flatten ↔
      ∀ hdr ∈ messages, hdr.length < 256 := by
  constructor
  · intro hperm hdr hhdr
    by_contra hlong
    have hle : ∀ l : List (List RipRte),
        (l.map fun hdr => hdr.take (hdr.length % 256)).flatten.length ≤ l.flatten.length := by
      intro l
      rw [List.length_flatten, List.length_flatten, List.map_map]
      refine List.sum_le_sum fun hdr _ => ?_
      rw [Function.comp_apply, List.length_take]
      exact min_le_right _ _
    obtain ⟨l₁, l₂, rfl⟩ := List.append_of_mem hhdr
    have hlength := hperm.length_eq
    rw [List.map_append, List.map_cons, List.flatten_append, List.flatten_cons, List.flatten_append,
      List.flatten_cons, List.length_append, List.length_append, List.length_append,
      List.length_append, List.length_take] at hlength
    have h₁ := hle l₁
    have h₂ := hle l₂
    have hmod := Nat.mod_lt hdr.length (show 0 < 256 by decide)
    omega
  · intro hshort
    have hmap : (messages.map fun hdr => hdr.take (hdr.length % 256)) = messages := by
      refine (List.map_congr_left fun hdr hhdr => ?_).trans (List.map_id messages)
      rw [Nat.mod_eq_of_lt (hshort hdr hhdr), List.take_length]
      rfl
    rw [hmap]

theorem complete_packets_iff {mtu : UInt16} (hmtu : 68 ≤ mtu) (routes : List RipRoute)
    (advertised : RipRoute → Option RipRte)
    (hmetric : ∀ rte ∈ routes.filterMap advertised, rte.route_metric < 2 ^ 32) :
    Complete mtu.toNat (packets (max_rte mtu) advertised routes []) (routes.filterMap advertised) ↔
      mtu < 5152 ∨ (routes.filterMap advertised).length < 256 := by
  have hle : 68 ≤ mtu.toNat := hmtu
  have hcapacity := toNat_max_rte hmtu
  have hroom : ([] : List RipRte).length < (max_rte mtu).toNat := by
    rw [List.length_nil, hcapacity]
    omega
  obtain ⟨hflatten, hfull⟩ := packets_spec advertised routes [] hroom
  rw [List.nil_append] at hflatten
  set messages := packets (max_rte mtu) advertised routes [] with hmessages
  have hbound : ∀ hdr ∈ messages, ∀ rte ∈ hdr, rte.route_metric < 2 ^ 32 := fun hdr hhdr rte hrte =>
    hmetric rte (hflatten ▸ List.mem_flatten.mpr ⟨hdr, hhdr, hrte⟩)
  have hread := mapM_read_message hbound
  have hfits : ∀ hdr ∈ messages, 20 + 8 + (serialize RESPONSE hdr).length ≤ mtu.toNat := by
    intro hdr hhdr
    have hlength := hfull hdr hhdr
    rw [length_serialize, get_serialized_size]
    omega
  have hcomplete : Complete mtu.toNat messages (routes.filterMap advertised) ↔
      ∀ hdr ∈ messages, hdr.length < 256 := by
    rw [← flatten_read_perm_iff, hflatten]
    constructor
    · rintro ⟨-, rtes, hrtes, hperm⟩
      rwa [← Option.some.inj (hread.symm.trans hrtes)] at hperm
    · exact fun hperm => ⟨hfits, _, hread, hperm⟩
  have hsmall : mtu < 5152 ↔ mtu.toNat < 5152 := UInt16.lt_iff_toNat_lt
  rw [hcomplete, hsmall]
  constructor
  · intro hshort
    by_contra hboth
    obtain ⟨hmtu', hmany⟩ := not_or.mp hboth
    obtain ⟨m, hm, hlong⟩ := exists_full_packet advertised routes [] hroom
      256 (by omega) (by decide) (by rw [List.nil_append]; omega)
    have hlt := hshort m hm
    omega
  · rintro (hmtu' | hfew) hdr hhdr
    · have hlength := hfull hdr hhdr
      omega
    · have hlength := (List.sublist_flatten_of_mem hhdr).length_le
      rw [hflatten] at hlength
      omega

end Messages

section Updates

variable {p : RipAttributes} {s : Rip} {interface : ℕ}

theorem filterMap_eq_of {f : RipRoutingTableEntry → Option RipRte} {test : RipRoutingTableEntry → Bool}
    {g : RipRoutingTableEntry → RipRte} (hf : ∀ route, f route = if test route then some (g route) else none)
    (routes : List RipRoute) :
    routes.filterMap (fun it => f it.entry) = ((routes.map (·.entry)).filter test).map g := by
  induction routes with
  | nil => rfl
  | cons it rest ih =>
    rw [List.map_cons]
    by_cases htest : test it.entry = true
    · have hsome : f it.entry = some (g it.entry) := by rw [hf, if_pos htest]
      rw [List.filterMap_cons_some (f := fun it : RipRoute => f it.entry) hsome, List.filter_cons_of_pos htest, List.map_cons, ih]
    · have hnone : f it.entry = none := by rw [hf, if_neg htest]
      rw [List.filterMap_cons_none (f := fun it : RipRoute => f it.entry) hnone, List.filter_cons_of_neg htest, ih]

theorem metric_lt_of_mem (hmetric : ∀ it ∈ s.m_routes, it.entry.metric < 256)
    {test : RipRoutingTableEntry → Bool} {rte : RipRte}
    (hrte : rte ∈ ((s.m_routes.map (·.entry)).filter test).map (rte_of p interface)) :
    rte.route_metric < 2 ^ 32 := by
  obtain ⟨route, hroute, rfl⟩ := List.mem_map.mp hrte
  obtain ⟨it, hit, rfl⟩ := List.mem_map.mp (List.mem_of_mem_filter hroute)
  have hlt := hmetric it hit
  have hcap : link_down < 2 ^ 32 := by decide
  unfold rte_of
  dsimp only
  split
  · exact hcap
  · omega

theorem scope_eq_global_iff (route : RipRoutingTableEntry) :
    (Ipv4InterfaceAddress.of route.dest_network route.dest_network_mask).scope = .global ↔
      route.dest_network ≠ Ipv4Address.get_loopback := by
  unfold Ipv4InterfaceAddress.of
  dsimp only
  split
  next h => simp [h]
  next h => simp [h]

theorem carried_iff (interface : ℕ) (route : RipRoutingTableEntry) :
    carried interface route = true ↔
      (Ipv4InterfaceAddress.of route.dest_network route.dest_network_mask).scope = .global ∨
        route.dest_network = Ipv4Address.get_zero ∧ route.dest_network_mask = Ipv4Mask.get_zero ∧
          route.interface ≠ interface := by
  rw [scope_eq_global_iff]
  simp [carried, and_assoc]

theorem strategy_allows_iff (p : RipAttributes) (interface : ℕ) (route : RipRoutingTableEntry) :
    strategy_allows p interface route = true ↔
      ¬ (p.m_splitHorizonStrategy = .SPLIT_HORIZON ∧ route.interface = interface) := by
  simp [strategy_allows, imp_iff_not_or]

theorem advertise_entry_eq (p : RipAttributes) (s : Rip) (interface : ℕ) (route : RipRoutingTableEntry) :
    s.advertise p true interface route =
      if carried interface route && s.remote interface route && strategy_allows p interface route then
        some (rte_of p interface route) else none := by
  unfold advertise
  simp only [← carried_iff, Bool.and_eq_true, strategy_allows_iff]
  by_cases hcarried : carried interface route = true
  · by_cases hremote : s.remote interface route = true
    · rw [if_pos ⟨hcarried, .inl trivial, by simpa [remote] using hremote⟩]
      by_cases hallowed : p.m_splitHorizonStrategy = .SPLIT_HORIZON ∧ route.interface = interface
      · rw [if_pos hallowed, if_neg fun h => h.2 hallowed]
      · rw [if_neg hallowed]
        exact (if_pos ⟨⟨hcarried, hremote⟩, hallowed⟩).symm
    · rw [if_neg fun h => hremote (by simpa [remote] using h.2.2), if_neg fun h => hremote h.1.2]
  · rw [if_neg fun h => hcarried h.1, if_neg fun h => hcarried h.1.1]

theorem answer_route_eq (p : RipAttributes) (interface : ℕ) (route : RipRoutingTableEntry) :
    answer_route p interface route =
      if carried interface route && route.status == .RIP_VALID && strategy_allows p interface route then
        some (rte_of p interface route) else none := by
  unfold answer_route
  simp only [← carried_iff, Bool.and_eq_true, beq_iff_eq, strategy_allows_iff, not_and_or]
  by_cases hcarried : carried interface route = true ∧ route.status = .RIP_VALID
  · rw [if_pos hcarried]
    by_cases hallowed : p.m_splitHorizonStrategy ≠ .SPLIT_HORIZON ∨ ¬ route.interface = interface
    · rw [if_pos hallowed]
      exact (if_pos ⟨hcarried, hallowed⟩).symm
    · rw [if_neg hallowed, if_neg fun h => hallowed h.2]
  · rw [if_neg hcarried, if_neg fun h => hcarried h.1]

theorem route_update_complete_iff {mtu : UInt16} (hmtu : 68 ≤ mtu)
    (hmetric : ∀ it ∈ s.m_routes, it.entry.metric < 256)
    (hinterface : s.m_ipv4[interface]?.map (·.mtu) = some mtu) :
    Complete mtu.toNat (s.route_update p true interface) (s.allowed_in_update p interface) ↔
      mtu < 5152 ∨ (s.allowed_in_update p interface).length < 256 := by
  have hallowed : s.m_routes.filterMap (fun it => s.advertise p true interface it.entry) =
      s.allowed_in_update p interface := filterMap_eq_of (advertise_entry_eq p s interface) s.m_routes
  rw [route_update, hinterface, Option.getD_some, ← hallowed]
  refine complete_packets_iff hmtu _ _ fun rte hrte => ?_
  rw [hallowed] at hrte
  exact metric_lt_of_mem hmetric hrte

theorem whole_table_complete_iff {mtu : UInt16} (hmtu : 68 ≤ mtu)
    (hmetric : ∀ it ∈ s.m_routes, it.entry.metric < 256)
    (hinterface : s.m_ipv4[interface]?.map (·.mtu) = some mtu) :
    Complete mtu.toNat (s.whole_table p interface) (s.allowed_in_answer p interface) ↔
      mtu < 5152 ∨ (s.allowed_in_answer p interface).length < 256 := by
  have hallowed : s.m_routes.filterMap (fun it => answer_route p interface it.entry) =
      s.allowed_in_answer p interface := filterMap_eq_of (answer_route_eq p interface) s.m_routes
  rw [whole_table, hinterface, Option.getD_some, ← hallowed]
  refine complete_packets_iff hmtu _ _ fun rte hrte => ?_
  rw [hallowed] at hrte
  exact metric_lt_of_mem hmetric hrte

/-- A router with `n` networks behind a gateway on interface 1, and interface 0 to send on. -/
def routerOf (mtu : UInt16) (n : ℕ) : Rip :=
  { m_routes := (List.range n).map fun i =>
      ⟨i, ⟨0x0b000000 + 256 * UInt32.ofNat i, 0xffffff00, 0x0a010002, 1, 0, 2, .RIP_VALID, false⟩, none, 0, 0⟩
    m_ipv4 := [{ addresses := [.of 0x0a000001 0xffffff00], mtu := mtu },
      { addresses := [.of 0x0a010001 0xffffff00] }] }

end Updates

end Ns3.Rip
