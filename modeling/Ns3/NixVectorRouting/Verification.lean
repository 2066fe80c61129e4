import Ns3.NixVectorRouting.Neighbors

namespace Ns3.NixVectorRouting.Topology

open BreadthFirst (ParentPath)
open ShortestRoute (Shortest)

variable {nodes devices : Nat} {α : Type} [IpInterfaceAddress α] {net : Topology nodes devices α}
  {source dest u v w : Fin nodes} {d g r : Fin devices} {path : List (Fin nodes)}
  {parentVector : Fin nodes → Option (Fin nodes)} {nixVector : NixVector}

/-- The fields that `BuildNixVector` adds for the hops of a path, that of the first hop on top. -/
def hop_fields (net : Topology nodes devices α) : List (Fin nodes) → Option (List (UInt32 × UInt32))
  | u :: w :: path => (net.hop_field u w).bind fun field => (hop_fields net (w :: path)).map (field :: ·)
  | _ => some []

/-- The number of bits of some fields. -/
def total_bits (fields : List (UInt32 × UInt32)) : ℕ := (fields.map fun x => x.2.toNat).sum

/-- A packet goes along a path: every node sends it out of a device whose interface and link are up to a
neighbor on the next node, and the last node finds no bit left. -/
def Travels (net : Topology nodes devices α) : List (Fin nodes) → NixVector → Prop
  | [], _ => False
  | [_], nixVector => nixVector.get_remaining_bits = 0
  | u :: w :: path, nixVector => ∃ d g nixVector', net.route u nixVector = some (d, some g, nixVector') ∧
      d ∈ net.node_devices u ∧ (net.get_up_interface d).isSome ∧ (net.device d).is_link_up ∧ (net.device g).node = w ∧
      Travels net (w :: path) nixVector'

/-- The vector that is built for a path leads a packet along it. -/
def Delivers (net : Topology nodes devices α) (parentVector : Fin nodes → Option (Fin nodes)) (source dest : Fin nodes)
    (path : List (Fin nodes)) (epoch : UInt32) : Prop :=
  ∃ nixVector, net.build_nix_vector parentVector source (nodes + 1) dest { m_epoch := epoch } = some (true, nixVector) ∧
    net.Travels path nixVector

/-- The neighbors behind bridges do not change the number of bits, and the neighbor that is found at the
index of the next node is on that node, behind a device whose link is up. -/
def Agrees (net : Topology nodes devices α) (u w : Fin nodes) : Prop :=
  ∃ all others d g, net.neighbors u = some all ∧ net.neighbors_without_bridges u = some others ∧
    NixVector.bit_count (UInt32.ofNat others.length) = NixVector.bit_count (UInt32.ofNat all.length) ∧
    all[(last_position (net.on w) others).getD 0]? = some (d, g) ∧ (net.device g).node = w ∧ (net.device d).is_link_up

/-- The neighbors and the bits of a path can be counted in 32 bits. -/
def Fits (net : Topology nodes devices α) (path : List (Fin nodes)) : Prop :=
  (∀ u ∈ path, ∀ l, net.neighbors u = some l ∨ net.neighbors_without_bridges u = some l → l.length < 2 ^ 32) ∧
    ∀ fields, net.hop_fields path = some fields → total_bits fields < 2 ^ 32

theorem hop_fields_concat (h : path.getLast? = some u) (w : Fin nodes) : net.hop_fields (path ++ [w]) =
    (net.hop_fields path).bind fun fields => (net.hop_field u w).map fun field => fields ++ [field] := by
  induction path with
  | nil => cases h
  | cons x path ih =>
    cases path with
    | nil =>
      obtain rfl : x = u := Option.some.inj h
      simp only [List.cons_append, List.nil_append, hop_fields]
      cases net.hop_field x w <;> rfl
    | cons y path =>
      rw [List.getLast?_cons_cons] at h
      simp only [List.cons_append, hop_fields] at ih ⊢
      rw [ih h]
      cases net.hop_field x y with
      | none => rfl
      | some field =>
        cases net.hop_fields (y :: path) with
        | none => rfl
        | some fields => cases net.hop_field u w <;> rfl

theorem hop_field_fits {x n : UInt32} (h : net.hop_field u w = some (x, n)) :
    1 ≤ n.toNat ∧ n.toNat ≤ 32 ∧ (∀ l, net.neighbors_without_bridges u = some l → l.length < 2 ^ 32 → x.toNat < 2 ^ n.toNat) := by
  obtain ⟨l, hl, heq⟩ := Option.map_eq_some_iff.mp h
  cases heq
  refine ⟨(NixVector.bit_count_bounds _).1, (NixVector.bit_count_bounds _).2, fun l' hl' hbound => ?_⟩
  obtain rfl := Option.some.inj (hl.symm.trans hl')
  refine NixVector.lt_two_pow_bit_count ?_
  cases hlast : last_position (net.on w) l with
  | none => exact .inr rfl
  | some k =>
    have hk := last_position_lt hlast
    refine .inl ?_
    rw [Option.getD_some, UInt32.toNat_ofNat', UInt32.toNat_ofNat', Nat.mod_eq_of_lt (by omega), Nat.mod_eq_of_lt hbound]
    exact hk

theorem ParentPath_concat {parent : Fin nodes → Option (Fin nodes)} (h : ParentPath parent source w (path ++ [w]))
    (hne : path ≠ []) : ∃ u, path.getLast? = some u ∧ parent w = some u ∧ w ≠ source ∧ ParentPath parent source u path := by
  obtain ⟨u, hu⟩ : ∃ u, path.getLast? = some u := Option.ne_none_iff_exists'.mp (mt List.getLast?_eq_none_iff.mp hne)
  obtain ⟨hinit, -, hlast⟩ := List.isChain_append.mp h.parents
  obtain ⟨hw, hparent⟩ := hlast u hu w rfl
  refine ⟨u, hu, hparent, hw, ?_, hu, hinit⟩
  rw [← h.starts, List.head?_append_of_ne_nil _ hne]

theorem build_spec (hpath : ParentPath parentVector source dest path) (bound : ℕ) (hbound : path.length < bound + 1)
    (hcount : ∀ u ∈ path, ∀ l, net.neighbors_without_bridges u = some l → l.length < 2 ^ 32)
    {fields : List (UInt32 × UInt32)} (hfields : net.hop_fields path = some fields)
    {held : List (UInt32 × UInt32)} (hfresh : nixVector.Fresh) (hloaded : nixVector.Loaded held)
    (hbits : nixVector.m_totalBitSize.toNat + total_bits fields < 2 ^ 32) :
    ∃ v, net.build_nix_vector parentVector source bound dest nixVector = some (true, v) ∧ v.Fresh ∧ v.Loaded (fields ++ held) := by
  induction path using List.reverseRecOn generalizing dest bound nixVector fields held with
  | nil => cases hpath.starts
  | append_singleton path x ih =>
    obtain rfl : x = dest := by simpa using hpath.ends
    obtain ⟨bound, rfl⟩ : ∃ b, bound = b + 1 := Nat.exists_eq_succ_of_ne_zero (by
      rw [List.length_append, List.length_singleton] at hbound
      omega)
    rw [build_nix_vector]
    by_cases hempty : path = []
    · subst hempty
      obtain rfl : x = source := by simpa using hpath.starts
      cases hfields
      exact ⟨nixVector, if_pos rfl, hfresh, hloaded⟩
    · obtain ⟨u, hu, hparent, hne, hinit⟩ := ParentPath_concat hpath hempty
      rw [hop_fields_concat hu x] at hfields
      obtain ⟨first, hfirst, hmap⟩ := Option.bind_eq_some_iff.mp hfields
      obtain ⟨⟨index, n⟩, hfield, rfl⟩ := Option.map_eq_some_iff.mp hmap
      obtain ⟨hpos, hle, hindex⟩ := hop_field_fits hfield
      obtain ⟨l, hl, heq⟩ := Option.map_eq_some_iff.mp hfield
      have hmem : u ∈ path := List.mem_of_getLast? hu
      have hsum : total_bits (first ++ [(index, n)]) = total_bits first + n.toNat := by
        simp [total_bits]
      rw [hsum] at hbits
      obtain ⟨v, hadd, hfresh', hloaded', htotal⟩ := hfresh.add hloaded hpos hle
        (hindex l hl (hcount u (List.mem_append_left _ hmem) l hl)) (by omega)
      obtain ⟨v', hbuild, hfresh'', hloaded''⟩ := ih hinit bound (by
        rw [List.length_append, List.length_singleton] at hbound
        omega) (fun a ha => hcount a (List.mem_append_left _ ha)) hfirst hfresh' hloaded' (by omega)
      refine ⟨v', ?_, hfresh'', ?_⟩
      · rw [if_neg (Ne.symm hne), hparent]
        simp only [scan_eq, hl]
        cases heq
        simp [hadd, hbuild]
      · rwa [List.append_assoc]

theorem route_eq_some {v : NixVector} {y : Option (Fin devices)} (h : net.route u nixVector = some (d, y, v)) :
    ∃ l index, net.neighbors u = some l ∧
      nixVector.extract_neighbor_index (NixVector.bit_count (UInt32.ofNat l.length)) = some (index, v) ∧
      net.find_net_device_for_nix_index u index = some (d, y) := by
  rw [route, find_total_neighbors_eq] at h
  obtain ⟨total, htotal, h⟩ := Option.bind_eq_some_iff.mp h
  obtain ⟨l, hl, rfl⟩ := Option.map_eq_some_iff.mp htotal
  obtain ⟨⟨index, v'⟩, hextract, h⟩ := Option.bind_eq_some_iff.mp h
  obtain ⟨⟨d', y'⟩, hselect, heq⟩ := Option.bind_eq_some_iff.mp h
  cases heq
  exact ⟨l, index, hl, hextract, hselect⟩

theorem total_bits_cons (x n : UInt32) (fields : List (UInt32 × UInt32)) :
    total_bits ((x, n) :: fields) = n.toNat + total_bits fields := by
  rw [total_bits, List.map_cons, List.sum_cons, total_bits]

theorem total_bits_of_holds {r : ℕ} {fields : List (UInt32 × UInt32)} (h : nixVector.Holds r fields) : r = total_bits fields := by
  induction fields generalizing r with
  | nil => exact h
  | cons field fields ih =>
    obtain ⟨r', rfl, -, -, -, -, hrest⟩ := h
    rw [total_bits_cons, ih hrest, Nat.add_comm]

theorem hop_fields_cons {fields : List (UInt32 × UInt32)} (h : net.hop_fields (u :: w :: path) = some fields) :
    ∃ others rest, net.neighbors_without_bridges u = some others ∧ net.hop_fields (w :: path) = some rest ∧
      fields = (UInt32.ofNat ((last_position (net.on w) others).getD 0), NixVector.bit_count (UInt32.ofNat others.length)) :: rest := by
  obtain ⟨field, hfield, hmap⟩ := Option.bind_eq_some_iff.mp h
  obtain ⟨rest, hrest, rfl⟩ := Option.map_eq_some_iff.mp hmap
  obtain ⟨others, hothers, rfl⟩ := Option.map_eq_some_iff.mp hfield
  exact ⟨others, rest, hothers, hrest, rfl⟩

theorem bit_count_le {all others : List (Fin devices × Fin devices)} (hall : net.neighbors u = some all)
    (hothers : net.neighbors_without_bridges u = some others) (hbound : all.length < 2 ^ 32) :
    (NixVector.bit_count (UInt32.ofNat others.length)).toNat ≤ (NixVector.bit_count (UInt32.ofNat all.length)).toNat := by
  obtain ⟨others', hothers', hsub⟩ := neighbors_without_bridges_sublist hall
  obtain rfl := Option.some.inj (hothers.symm.trans hothers')
  have hle := hsub.length_le
  refine NixVector.bit_count_mono ?_
  rw [UInt32.toNat_ofNat', UInt32.toNat_ofNat', Nat.mod_eq_of_lt (by omega), Nat.mod_eq_of_lt hbound]
  exact hle

theorem total_bits_le (htravels : net.Travels path nixVector) (hcount : ∀ u ∈ path, ∀ l, net.neighbors u = some l → l.length < 2 ^ 32)
    {fields : List (UInt32 × UInt32)} (hfields : net.hop_fields path = some fields) :
    total_bits fields ≤ nixVector.get_remaining_bits.toNat := by
  induction path generalizing nixVector fields with
  | nil => cases htravels
  | cons u path ih =>
    cases path with
    | nil =>
      cases hfields
      exact Nat.zero_le _
    | cons w path =>
      obtain ⟨d, g, v, hroute, -, -, -, -, hrest⟩ := htravels
      obtain ⟨all, index, hall, hextract, -⟩ := route_eq_some hroute
      obtain ⟨others, rest, hothers, hrest', rfl⟩ := hop_fields_cons hfields
      have hbits := NixVector.remaining_of_extract hextract
      have hle := bit_count_le hall hothers (hcount u (List.mem_cons_self ..) all hall)
      have hlater := ih hrest (fun a ha => hcount a (List.mem_cons_of_mem _ ha)) hrest'
      rw [total_bits_cons]
      omega

theorem agrees_of_travels (htravels : net.Travels path nixVector)
    (hcount : ∀ u ∈ path, ∀ l, net.neighbors u = some l → l.length < 2 ^ 32)
    {fields : List (UInt32 × UInt32)} (hfields : net.hop_fields path = some fields) (hloaded : nixVector.Loaded fields) :
    path.IsChain net.Agrees := by
  induction path generalizing nixVector fields with
  | nil => exact List.isChain_nil
  | cons u path ih =>
    cases path with
    | nil => exact List.isChain_singleton u
    | cons w path =>
      obtain ⟨d, g, v, hroute, -, -, hlink, hnode, hrest⟩ := htravels
      obtain ⟨all, index, hall, hextract, hselect⟩ := route_eq_some hroute
      obtain ⟨others, rest, hothers, hrest', rfl⟩ := hop_fields_cons hfields
      have hbound := hcount u (List.mem_cons_self ..) all hall
      have hcount' := fun a (ha : a ∈ w :: path) => hcount a (List.mem_cons_of_mem _ ha)
      -- Not a bit can be lost, so the numbers of bits are the same.
      have hsame : NixVector.bit_count (UInt32.ofNat others.length) = NixVector.bit_count (UInt32.ofNat all.length) := by
        have htotal := total_bits_of_holds hloaded.holds
        rw [total_bits_cons] at htotal
        have hbits := NixVector.remaining_of_extract hextract
        have hle := bit_count_le hall hothers hbound
        have hlater := total_bits_le hrest hcount' hrest'
        refine UInt32.toNat_inj.mp ?_
        omega
      obtain ⟨v', hextract', hloaded'⟩ := hloaded.extract
      rw [hsame, hextract] at hextract'
      cases hextract'
      refine List.isChain_cons_cons.mpr ⟨⟨all, others, d, g, hall, hothers, hsame, ?_, hnode, hlink⟩,
        ih hrest hcount' hrest' hloaded'⟩
      have hentry := getElem?_of_find_net_device hall hbound hselect
      obtain ⟨others', hothers', hsub⟩ := neighbors_without_bridges_sublist hall
      obtain rfl := Option.some.inj (hothers.symm.trans hothers')
      have hle := hsub.length_le
      have hsmall : (last_position (net.on w) others).getD 0 < 2 ^ 32 := by
        cases hlast : last_position (net.on w) others with
        | none => exact Nat.two_pow_pos 32
        | some k =>
          have hk := last_position_lt hlast
          rw [Option.getD_some]
          omega
      rwa [UInt32.toNat_ofNat', Nat.mod_eq_of_lt hsmall] at hentry

/-- A packet travels along the path of its vector if the nodes agree with the vector. -/
theorem travels_of_agrees (hagrees : path.IsChain net.Agrees) (hne : path ≠ [])
    (hcount : ∀ u ∈ path, ∀ l, net.neighbors u = some l → l.length < 2 ^ 32)
    {fields : List (UInt32 × UInt32)} (hfields : net.hop_fields path = some fields) (hloaded : nixVector.Loaded fields) :
    net.Travels path nixVector := by
  induction path generalizing nixVector fields with
  | nil => exact absurd rfl hne
  | cons u path ih =>
    cases path with
    | nil =>
      cases hfields
      exact UInt32.toNat_inj.mp hloaded.holds
    | cons w path =>
      obtain ⟨⟨all, others, d, g, hall, hothers, hsame, hentry, hnode, hlink⟩, hrest⟩ := List.isChain_cons_cons.mp hagrees
      obtain ⟨others', rest, hothers', hrest', rfl⟩ := hop_fields_cons hfields
      obtain rfl := Option.some.inj (hothers.symm.trans hothers')
      have hbound := hcount u (List.mem_cons_self ..) all hall
      obtain ⟨v, hextract, hloaded'⟩ := hloaded.extract
      have hlt : (last_position (net.on w) others).getD 0 < all.length := (List.getElem?_eq_some_iff.mp hentry).1
      have hindex : (UInt32.ofNat ((last_position (net.on w) others).getD 0)).toNat = (last_position (net.on w) others).getD 0 := by
        rw [UInt32.toNat_ofNat', Nat.mod_eq_of_lt (by omega)]
      have hselect := find_net_device_eq hall hbound (b := UInt32.ofNat ((last_position (net.on w) others).getD 0))
        (by rw [hindex]; exact hentry)
      obtain ⟨hmem, hup⟩ := mem_pairs hall (List.mem_of_getElem? hentry)
      refine ⟨d, g, v, ?_, hmem, hup, hlink, hnode,
        ih hrest (List.cons_ne_nil _ _) (fun a ha => hcount a (List.mem_cons_of_mem _ ha)) hrest' hloaded'⟩
      rw [route, find_total_neighbors_eq, hall]
      simp only [Option.map_some, Option.bind_eq_bind, Option.bind_some, ← hsame, hextract, hselect]
      rfl

theorem fresh_empty (epoch : UInt32) : ({ m_epoch := epoch } : NixVector).Fresh := by
  refine ⟨rfl, (by decide : ([] : List UInt32).length = NixVector.words_of_bits 0), fun k _ => ?_⟩
  rw [NixVector.bit, List.getElem?_nil, Option.getD_none]
  exact Nat.zero_testBit _

theorem loaded_empty (epoch : UInt32) : ({ m_epoch := epoch } : NixVector).Loaded [] :=
  ⟨(by decide : (0 - 0 : UInt32).toNat = 0), (by decide : (0 - 0 : UInt32).toNat ≤ 32 * 0)⟩

theorem hop_fields_of_agrees (h : path.IsChain net.Agrees) : (net.hop_fields path).isSome := by
  induction path with
  | nil => rfl
  | cons u path ih =>
    cases path with
    | nil => rfl
    | cons w path =>
      obtain ⟨⟨_, others, _, _, -, hothers, -⟩, hrest⟩ := List.isChain_cons_cons.mp h
      obtain ⟨rest, hrest⟩ := Option.isSome_iff_exists.mp (ih hrest)
      rw [hop_fields, hop_field, hothers, hrest]
      rfl

theorem hop_fields_of_travels (h : net.Travels path nixVector) : (net.hop_fields path).isSome := by
  induction path generalizing nixVector with
  | nil => rfl
  | cons u path ih =>
    cases path with
    | nil => rfl
    | cons w path =>
      obtain ⟨_, _, _, hroute, -, -, -, -, hrest⟩ := h
      obtain ⟨all, _, hall, -, -⟩ := route_eq_some hroute
      obtain ⟨others, hothers, -⟩ := neighbors_without_bridges_sublist hall
      obtain ⟨rest, hrest⟩ := Option.isSome_iff_exists.mp (ih hrest)
      rw [hop_fields, hop_field, hothers, hrest]
      rfl

theorem getElem?_last_position {β : Type} {p : β → Bool} {l : List β} {k : ℕ} (h : last_position p l = some k) :
    ∃ x, l[k]? = some x ∧ p x = true := by
  induction l generalizing k with
  | nil => cases h
  | cons x l ih =>
    rw [last_position] at h
    split at h
    next k' hk' =>
      cases h
      exact ih hk'
    · split at h
      next hp =>
        cases h
        exact ⟨x, rfl, hp⟩
      · cases h

theorem isSome_last_position {β : Type} {p : β → Bool} {l : List β} {x : β} (hx : x ∈ l) (hp : p x = true) :
    (last_position p l).isSome := by
  induction l with
  | nil => exact absurd hx List.not_mem_nil
  | cons y l ih =>
    rw [last_position]
    split
    · rfl
    next hnone =>
      rcases List.mem_cons.mp hx with rfl | hx
      · rw [if_pos hp]
        rfl
      · have hsome := ih hx
        rw [hnone] at hsome
        cases hsome

theorem exists_mem_pairs {ds : List (Fin devices)} {l : List (Fin devices × Fin devices)} (hl : net.pairs ds = some l)
    (hd : d ∈ ds) {c : List (Fin devices)} (hc : net.adjacent d = some c) (hg : g ∈ c) : (d, g) ∈ l := by
  induction ds generalizing l with
  | nil => exact absurd hd List.not_mem_nil
  | cons d' ds ih =>
    obtain ⟨c', rest, hc', hrest, rfl⟩ := pairs_cons hl
    rcases List.mem_cons.mp hd with rfl | hd
    · obtain rfl := Option.some.inj (hc.symm.trans hc')
      exact List.mem_append_left _ (List.mem_map_of_mem hg)
    · exact List.mem_append_right _ (ih hrest hd)

/-- A node without bridges agrees if the links of its interfaces that are up are up as well. -/
theorem agrees_of_usable {all : List (Fin devices × Fin devices)} (hall : net.neighbors u = some all)
    (hbridges : ∀ d ∈ net.node_devices u, (net.device d).bridge_ports = none)
    (hlinks : ∀ d ∈ net.node_devices u, (net.get_up_interface d).isSome → (net.device d).is_link_up) (husable : net.Usable u w) :
    net.Agrees u w := by
  have hothers : net.neighbors_without_bridges u = some all := by
    have hfilter : (net.node_devices u).filter (fun d => !(net.device d).bridge_ports.isSome) = net.node_devices u :=
      List.filter_eq_self.mpr fun d hd => by rw [hbridges d hd]; rfl
    rw [neighbors_without_bridges, hfilter]
    exact hall
  obtain ⟨d, hd, -, -, c, hc, g, hg, hnode⟩ := husable
  have hmem := exists_mem_pairs hall hd hc hg
  obtain ⟨k, hk⟩ := Option.isSome_iff_exists.mp (isSome_last_position (p := net.on w) hmem (decide_eq_true hnode))
  obtain ⟨⟨d', g'⟩, hentry, hon⟩ := getElem?_last_position hk
  obtain ⟨hd', hup'⟩ := mem_pairs hall (List.mem_of_getElem? hentry)
  exact ⟨all, all, d', g', hall, hothers, rfl, by rw [hk]; exact hentry, of_decide_eq_true hon, hlinks d' hd' hup'⟩

theorem total_bits_le_length {fields : List (UInt32 × UInt32)} (h : net.hop_fields path = some fields) :
    total_bits fields ≤ 32 * path.length := by
  induction path generalizing fields with
  | nil =>
    cases h
    exact Nat.zero_le _
  | cons u path ih =>
    cases path with
    | nil =>
      cases h
      exact Nat.zero_le _
    | cons w path =>
      obtain ⟨others, rest, -, hrest, rfl⟩ := hop_fields_cons h
      have hle := ih hrest
      have hfield := (NixVector.bit_count_bounds (UInt32.ofNat others.length)).2
      rw [total_bits_cons, List.length_cons]
      omega

/-- An interface of a subnet with a mask of 24 bits. -/
def subnet24 (address : Ipv4Address) : Option (IpInterface Ipv4InterfaceAddress) :=
  some { addresses := [Ipv4InterfaceAddress.of address 0xffffff00] }

def parallel (second_link_up : Bool) : Topology 2 4 Ipv4InterfaceAddress where
  device
    | 0 => { node := 0, channel := some [0, 1], interface := subnet24 0x0a010101 }
    | 1 => { node := 1, channel := some [0, 1], interface := subnet24 0x0a010102 }
    | 2 => { node := 0, channel := some [2, 3], interface := subnet24 0x0a010201, is_link_up := second_link_up }
    | 3 => { node := 1, channel := some [2, 3], interface := subnet24 0x0a010202 }
  node_devices
    | 0 => [0, 2]
    | 1 => [1, 3]

end Ns3.NixVectorRouting.Topology
