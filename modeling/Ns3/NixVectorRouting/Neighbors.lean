import Ns3.NixVectorRouting

namespace Ns3.NixVectorRouting.Topology

variable {nodes devices : Nat} {α : Type} [IpInterfaceAddress α] {net : Topology nodes devices α}
  {u v w : Fin nodes} {d g r : Fin devices} {l : List (Fin devices)}

theorem mem_mapM_flatten {β γ : Type} {f : β → Option (List γ)} {xs : List β} {l : List γ}
    (h : (xs.mapM f).map List.flatten = some l) (y : γ) : y ∈ l ↔ ∃ x ∈ xs, ∃ ys, f x = some ys ∧ y ∈ ys := by
  induction xs generalizing l with
  | nil =>
    cases h
    simp
  | cons x xs ih =>
    rw [List.mapM_cons] at h
    obtain ⟨yss, hyss, rfl⟩ := Option.map_eq_some_iff.mp h
    obtain ⟨ys, hys, hcons⟩ := Option.bind_eq_some_iff.mp hyss
    obtain ⟨rest, hrest, heq⟩ := Option.bind_eq_some_iff.mp hcons
    cases heq
    have hmem := ih (congrArg (Option.map List.flatten) hrest)
    rw [List.flatten_cons, List.mem_append, hmem]
    constructor
    · rintro (hy | ⟨x', hx', hy⟩)
      · exact ⟨x, List.mem_cons_self .., ys, hys, hy⟩
      · exact ⟨x', List.mem_cons_of_mem _ hx', hy⟩
    · rintro ⟨x', hx', ys', hys', hy⟩
      rcases List.mem_cons.mp hx' with rfl | hx'
      · obtain rfl := Option.some.inj (hys.symm.trans hys')
        exact .inl hy
      · exact .inr ⟨x', hx', ys', hys', hy⟩

theorem isSome_of_mapM {β γ : Type} {f : β → Option γ} {xs : List β} (h : (xs.mapM f).isSome) {x : β} (hx : x ∈ xs) :
    (f x).isSome := by
  induction xs with
  | nil => exact absurd hx List.not_mem_nil
  | cons y xs ih =>
    rw [List.mapM_cons] at h
    obtain ⟨ys, hys⟩ := Option.isSome_iff_exists.mp h
    obtain ⟨z, hz, hcons⟩ := Option.bind_eq_some_iff.mp hys
    obtain ⟨rest, hrest, -⟩ := Option.bind_eq_some_iff.mp hcons
    rcases List.mem_cons.mp hx with rfl | hx
    · exact Option.isSome_of_eq_some hz
    · exact ih (Option.isSome_of_eq_some hrest) hx

/-- Adjacent devices have interfaces that are up, and so has the device they are adjacent to. -/
theorem get_adjacent_net_devices_up (bound : Nat) (d : Fin devices) (channel : List (Fin devices))
    (h : net.get_adjacent_net_devices bound d channel = some l) (hg : g ∈ l) :
    (net.get_up_interface d).isSome ∧ (net.get_up_interface g).isSome := by
  induction bound generalizing d channel l with
  | zero => cases h
  | succ bound ih =>
    rw [get_adjacent_net_devices] at h
    split at h
    · cases h
      exact absurd hg List.not_mem_nil
    next i hi =>
      refine ⟨Option.isSome_of_eq_some hi, ?_⟩
      obtain ⟨r, -, ys, hys, hmem⟩ := (mem_mapM_flatten h g).mp hg
      split at hys
      · cases hys
        exact absurd hmem List.not_mem_nil
      split at hys
      · cases hys
        exact absurd hmem List.not_mem_nil
      next j hj =>
        split at hys
        · split at hys
          · cases hys
            rw [List.mem_singleton.mp hmem]
            exact Option.isSome_of_eq_some hj
          · obtain ⟨p, -, zs, hzs, hmem'⟩ := (mem_mapM_flatten hys g).mp hmem
            split at hzs
            · cases hzs
              exact absurd hmem' List.not_mem_nil
            split at hzs
            · cases hzs
              exact absurd hmem' List.not_mem_nil
            · exact (ih _ _ hzs hmem').2
        · cases hys
          exact absurd hmem List.not_mem_nil

theorem adjacent_up (h : net.adjacent d = some l) (hg : g ∈ l) :
    (net.get_up_interface d).isSome ∧ (net.get_up_interface g).isSome := by
  rw [adjacent] at h
  split at h
  · cases h
    exact absurd hg List.not_mem_nil
  · exact get_adjacent_net_devices_up _ d _ h hg

/-- A link that can be used: the device has its interface and its link up, and a neighbor on the other node. -/
def Usable (net : Topology nodes devices α) (u v : Fin nodes) : Prop :=
  ∃ d ∈ net.node_devices u, (net.get_up_interface d).isSome ∧ (net.device d).is_link_up ∧
    ∃ l, net.adjacent d = some l ∧ ∃ g ∈ l, (net.device g).node = v

theorem mem_explore_device {ys : List (Fin nodes)} (h : net.explore_device u d = some ys) :
    v ∈ ys ↔ (net.get_up_interface d).isSome ∧ (net.device d).is_link_up ∧
      ∃ l, net.adjacent d = some l ∧ ∃ g ∈ l, (net.device g).node = v := by
  have hfound : ∀ {ys : List (Fin nodes)}, ((net.adjacent d).map fun c =>
      (c.filter fun r => (net.get_up_interface r).isSome).map fun r => (net.device r).node) = some ys →
      (v ∈ ys ↔ (net.get_up_interface d).isSome ∧ ∃ l, net.adjacent d = some l ∧ ∃ g ∈ l, (net.device g).node = v) := by
    intro ys hys
    obtain ⟨l, hl, rfl⟩ := Option.map_eq_some_iff.mp hys
    rw [List.mem_map]
    constructor
    · rintro ⟨g, hg, hnode⟩
      have hmem := List.mem_of_mem_filter hg
      exact ⟨(adjacent_up hl hmem).1, l, hl, g, hmem, hnode⟩
    · rintro ⟨-, l', hl', g, hg, hnode⟩
      obtain rfl := Option.some.inj (hl.symm.trans hl')
      exact ⟨g, List.mem_filter.mpr ⟨hg, (adjacent_up hl hg).2⟩, hnode⟩
  rw [explore_device] at h
  split at h
  · split at h
    · cases h
    next i hi =>
      have hup : (net.get_up_interface d).isSome = i.is_up := by
        rw [get_up_interface, hi]
        cases hcase : i.is_up <;> simp [hcase]
      split at h
      next hboth =>
        rw [Bool.and_eq_true] at hboth
        rw [hfound h]
        simp [hboth.2]
      next hboth =>
        cases h
        rw [Bool.and_eq_true] at hboth
        refine iff_of_false List.not_mem_nil fun hc => hboth ⟨?_, hc.2.1⟩
        rw [← hup]
        exact hc.1
  · split at h
    next hlink =>
      rw [hfound h]
      simp [hlink]
    next hlink =>
      cases h
      exact iff_of_false List.not_mem_nil fun hc => hlink hc.2.1

theorem explores_usable : BreadthFirst.Explores net.explore net.Usable := by
  intro u l hl v
  rw [mem_mapM_flatten hl v]
  constructor
  · rintro ⟨d, hd, ys, hys, hv⟩
    exact ⟨d, hd, (mem_explore_device hys).mp hv⟩
  · rintro ⟨d, hd, husable⟩
    obtain ⟨yss, hyss, -⟩ := Option.map_eq_some_iff.mp hl
    obtain ⟨ys, hys⟩ := Option.isSome_iff_exists.mp (isSome_of_mapM (Option.isSome_of_eq_some hyss) hd)
    exact ⟨d, hd, ys, hys, (mem_explore_device hys).mpr husable⟩

/-- The neighbors behind some devices of a node, with the devices they are behind. -/
def pairs (net : Topology nodes devices α) : List (Fin devices) → Option (List (Fin devices × Fin devices))
  | [] => some []
  | d :: ds => (net.adjacent d).bind fun l => (pairs net ds).map fun rest => l.map (fun g => (d, g)) ++ rest

/-- All neighbors of a node, in the order of the devices. -/
def neighbors (net : Topology nodes devices α) (u : Fin nodes) : Option (List (Fin devices × Fin devices)) :=
  net.pairs (net.node_devices u)

/-- The neighbors of a node apart from those behind its bridges. -/
def neighbors_without_bridges (net : Topology nodes devices α) (u : Fin nodes) : Option (List (Fin devices × Fin devices)) :=
  net.pairs ((net.node_devices u).filter fun d => !(net.device d).bridge_ports.isSome)

/-- The position of the last item with a property. -/
def last_position {β : Type} (p : β → Bool) : List β → Option ℕ
  | [] => none
  | x :: l =>
    match last_position p l with
    | some k => some (k + 1)
    | none => if p x then some 0 else none

theorem last_position_append {β : Type} (p : β → Bool) (l l' : List β) : last_position p (l ++ l') =
    ((last_position p l').map (l.length + ·)).or (last_position p l) := by
  induction l with
  | nil =>
    rw [List.nil_append, last_position, Option.or_none]
    simp
  | cons x l ih =>
    rw [List.cons_append, last_position, ih, last_position]
    cases hl' : last_position p l' with
    | none => simp
    | some k =>
      simp only [Option.map_some, Option.some_or, List.length_cons]
      congr 1
      omega

theorem last_position_lt {β : Type} {p : β → Bool} {l : List β} {k : ℕ} (h : last_position p l = some k) : k < l.length := by
  induction l generalizing k with
  | nil => cases h
  | cons x l ih =>
    rw [last_position] at h
    rw [List.length_cons]
    split at h
    next k' hk' =>
      cases h
      exact Nat.succ_lt_succ (ih hk')
    · split at h
      · cases h
        exact Nat.succ_pos _
      · cases h

theorem pairs_cons {ds : List (Fin devices)} {l : List (Fin devices × Fin devices)} (h : net.pairs (d :: ds) = some l) :
    ∃ c rest, net.adjacent d = some c ∧ net.pairs ds = some rest ∧ l = c.map (fun g => (d, g)) ++ rest := by
  obtain ⟨c, hc, happend⟩ := Option.bind_eq_some_iff.mp h
  obtain ⟨rest, hrest, rfl⟩ := Option.map_eq_some_iff.mp happend
  exact ⟨c, rest, hc, hrest, rfl⟩

theorem foldlM_total (ds : List (Fin devices)) (total : UInt32) :
    ds.foldlM (fun total d => (net.adjacent d).map fun c => total + UInt32.ofNat c.length) total =
      (net.pairs ds).map fun l => total + UInt32.ofNat l.length := by
  induction ds generalizing total with
  | nil => simp [pairs]
  | cons d ds ih =>
    rw [List.foldlM_cons, pairs]
    cases hc : net.adjacent d with
    | none => rfl
    | some c =>
      change List.foldlM _ (total + UInt32.ofNat c.length) ds = _
      rw [ih, Option.bind_some, Option.map_map]
      refine congrFun (congrArg Option.map (funext fun rest => ?_)) _
      rw [Function.comp_apply, List.length_append, List.length_map, UInt32.ofNat_add, UInt32.add_assoc]

theorem find_total_neighbors_eq (u : Fin nodes) :
    net.find_total_neighbors u = (net.neighbors u).map fun l => UInt32.ofNat l.length := by
  rw [find_total_neighbors, foldlM_total]
  exact congrFun (congrArg Option.map (funext fun l => UInt32.zero_add _)) _

def on (net : Topology nodes devices α) (w : Fin nodes) (x : Fin devices × Fin devices) : Bool := (net.device x.2).node = w

theorem last_position_map {β γ : Type} (p : γ → Bool) (f : β → γ) (l : List β) :
    last_position p (l.map f) = last_position (fun x => p (f x)) l := by
  induction l with
  | nil => rfl
  | cons x l ih => rw [List.map_cons, last_position, last_position, ih]

omit [IpInterfaceAddress α] in
theorem scan_container_eq (c : List (Fin devices)) (destId totalNeighbors : UInt32) :
    net.scan_container w c destId totalNeighbors =
      (last_position (fun g => (net.device g).node = w) c).elim destId fun k => totalNeighbors + UInt32.ofNat k := by
  have hloop : ∀ (destId offset : UInt32),
      (c.foldl (fun s r => (if (net.device r).node = w then totalNeighbors + s.2 else s.1, s.2 + 1)) (destId, offset)).1 =
        (last_position (fun g => (net.device g).node = w) c).elim destId fun k => totalNeighbors + (offset + UInt32.ofNat k) := by
    induction c with
    | nil => exact fun _ _ => rfl
    | cons g c ih =>
      intro destId offset
      rw [List.foldl_cons, ih, last_position]
      cases last_position (fun g => decide ((net.device g).node = w)) c with
      | none =>
        by_cases hg : (net.device g).node = w <;> simp [hg]
      | some k =>
        simp only [Option.elim_some]
        rw [Nat.add_comm k 1, UInt32.ofNat_add, UInt32.add_assoc]
        rfl
  rw [scan_container, hloop]
  congr 1
  funext k
  rw [UInt32.zero_add]

theorem foldlM_scan (ds : List (Fin devices)) (destId totalNeighbors : UInt32) :
    ds.foldlM (net.scan_devices w) (destId, totalNeighbors) =
      (net.pairs (ds.filter fun d => !(net.device d).bridge_ports.isSome)).map fun l =>
        ((last_position (net.on w) l).elim destId fun k => totalNeighbors + UInt32.ofNat k,
          totalNeighbors + UInt32.ofNat l.length) := by
  induction ds generalizing destId totalNeighbors with
  | nil => simp [pairs, last_position]
  | cons d ds ih =>
    rw [List.foldlM_cons, scan_devices]
    by_cases hbridge : (net.device d).bridge_ports.isSome
    · rw [if_pos hbridge, List.filter_cons_of_neg (by simp [hbridge])]
      exact ih destId totalNeighbors
    · rw [if_neg hbridge, List.filter_cons_of_pos (by simp [hbridge]), pairs]
      cases hc : net.adjacent d with
      | none => rfl
      | some c =>
        change List.foldlM _ (net.scan_container w c destId totalNeighbors, totalNeighbors + UInt32.ofNat c.length) ds = _
        rw [ih, Option.bind_some, Option.map_map]
        refine congrFun (congrArg Option.map (funext fun rest => ?_)) _
        have hmap : last_position (net.on w) (c.map fun g => (d, g)) =
            last_position (fun g => decide ((net.device g).node = w)) c := last_position_map _ _ c
        rw [Function.comp_apply, List.length_append, List.length_map, UInt32.ofNat_add, UInt32.add_assoc, scan_container_eq,
          last_position_append, hmap, List.length_map]
        cases last_position (net.on w) rest with
        | none => simp
        | some k => simp [UInt32.add_assoc]

/-- The index and the number of bits that `BuildNixVector` adds for a hop. -/
def hop_field (net : Topology nodes devices α) (u w : Fin nodes) : Option (UInt32 × UInt32) :=
  (net.neighbors_without_bridges u).map fun l =>
    (UInt32.ofNat ((last_position (net.on w) l).getD 0), NixVector.bit_count (UInt32.ofNat l.length))

theorem scan_eq (u w : Fin nodes) : (net.node_devices u).foldlM (net.scan_devices w) (0, 0) =
    (net.neighbors_without_bridges u).map fun l =>
      (UInt32.ofNat ((last_position (net.on w) l).getD 0), UInt32.ofNat l.length) := by
  rw [foldlM_scan]
  refine congrFun (congrArg Option.map (funext fun l => ?_)) _
  cases last_position (net.on w) l <;> simp

theorem find_device_eq (ds : List (Fin devices)) (l : List (Fin devices × Fin devices)) (hl : net.pairs ds = some l)
    (nodeIndex totalNeighbors : UInt32) (hle : totalNeighbors ≤ nodeIndex)
    (hbound : totalNeighbors.toNat + l.length < 2 ^ 32) {x : Fin devices × Fin devices}
    (hx : l[nodeIndex.toNat - totalNeighbors.toNat]? = some x) :
    net.find_device u nodeIndex totalNeighbors ds = some (x.1, some x.2) := by
  induction ds generalizing l totalNeighbors with
  | nil =>
    cases hl
    cases hx
  | cons d ds ih =>
    obtain ⟨c, rest, hc, hrest, rfl⟩ := pairs_cons hl
    rw [List.length_append, List.length_map] at hbound
    have hle' : totalNeighbors.toNat ≤ nodeIndex.toNat := UInt32.le_iff_toNat_le.mp hle
    have hsum : (totalNeighbors + UInt32.ofNat c.length).toNat = totalNeighbors.toNat + c.length := by
      rw [UInt32.toNat_add, UInt32.toNat_ofNat', Nat.mod_eq_of_lt (a := c.length) (by omega), Nat.mod_eq_of_lt (by omega)]
    have hindex : (nodeIndex - totalNeighbors).toNat = nodeIndex.toNat - totalNeighbors.toNat :=
      UInt32.toNat_sub_of_le _ _ hle
    rw [find_device, hc, Option.bind_some]
    by_cases hin : nodeIndex.toNat - totalNeighbors.toNat < c.length
    · rw [if_pos (UInt32.lt_iff_toNat_lt.mpr (by omega)), hindex]
      rw [List.getElem?_append_left (by rwa [List.length_map]), List.getElem?_map] at hx
      obtain ⟨g, hg, rfl⟩ := Option.map_eq_some_iff.mp hx
      rw [hg]
    · rw [if_neg (by rw [UInt32.lt_iff_toNat_lt]; omega)]
      rw [List.getElem?_append_right (by rw [List.length_map]; omega), List.length_map] at hx
      refine ih rest hrest _ (UInt32.le_iff_toNat_le.mpr (by omega)) (by omega) ?_
      rw [hsum, ← Nat.sub_sub]
      exact hx

theorem find_device_none (ds : List (Fin devices)) (l : List (Fin devices × Fin devices)) (hl : net.pairs ds = some l)
    (nodeIndex totalNeighbors : UInt32) (hbound : totalNeighbors.toNat + l.length < 2 ^ 32)
    (hbehind : totalNeighbors.toNat + l.length ≤ nodeIndex.toNat) :
    net.find_device u nodeIndex totalNeighbors ds = (net.node_devices u).head?.map fun d => (d, none) := by
  induction ds generalizing l totalNeighbors with
  | nil => rfl
  | cons d ds ih =>
    obtain ⟨c, rest, hc, hrest, rfl⟩ := pairs_cons hl
    rw [List.length_append, List.length_map] at hbound hbehind
    have hsum : (totalNeighbors + UInt32.ofNat c.length).toNat = totalNeighbors.toNat + c.length := by
      rw [UInt32.toNat_add, UInt32.toNat_ofNat', Nat.mod_eq_of_lt (a := c.length) (by omega), Nat.mod_eq_of_lt (by omega)]
    rw [find_device, hc, Option.bind_some, if_neg (by rw [UInt32.lt_iff_toNat_lt]; omega)]
    exact ih rest hrest _ (by omega) (by omega)

theorem find_net_device_eq {l : List (Fin devices × Fin devices)} (hl : net.neighbors u = some l) (hbound : l.length < 2 ^ 32)
    {b : UInt32} {x : Fin devices × Fin devices} (hx : l[b.toNat]? = some x) :
    net.find_net_device_for_nix_index u b = some (x.1, some x.2) :=
  find_device_eq (net.node_devices u) l hl b 0 (UInt32.zero_le) (by simpa using hbound) hx

/-- The neighbor at the index is the only gateway that can be selected. -/
theorem getElem?_of_find_net_device {l : List (Fin devices × Fin devices)} (hl : net.neighbors u = some l)
    (hbound : l.length < 2 ^ 32) {nodeIndex : UInt32} (h : net.find_net_device_for_nix_index u nodeIndex = some (d, some g)) :
    l[nodeIndex.toNat]? = some (d, g) := by
  cases hx : l[nodeIndex.toNat]? with
  | none =>
    rw [find_net_device_for_nix_index, find_device_none (net.node_devices u) l hl nodeIndex 0 (by simpa using hbound)
      (by simpa using hx)] at h
    obtain ⟨_, -, heq⟩ := Option.map_eq_some_iff.mp h
    cases heq
  | some x =>
    rw [find_net_device_eq hl hbound hx] at h
    cases h
    rfl

theorem pairs_filter (p : Fin devices → Bool) (ds : List (Fin devices)) {l : List (Fin devices × Fin devices)}
    (hl : net.pairs ds = some l) : ∃ l', net.pairs (ds.filter p) = some l' ∧ l'.Sublist l := by
  induction ds generalizing l with
  | nil =>
    cases hl
    exact ⟨[], rfl, List.Sublist.refl _⟩
  | cons d ds ih =>
    obtain ⟨c, rest, hc, hrest, rfl⟩ := pairs_cons hl
    obtain ⟨l', hl', hsub⟩ := ih hrest
    by_cases hd : p d
    · refine ⟨c.map (fun g => (d, g)) ++ l', ?_, hsub.append_left _⟩
      rw [List.filter_cons_of_pos hd, pairs, hc, hl']
      rfl
    · rw [List.filter_cons_of_neg hd]
      exact ⟨l', hl', hsub.trans (List.sublist_append_right _ _)⟩

theorem neighbors_without_bridges_sublist {l : List (Fin devices × Fin devices)} (hl : net.neighbors u = some l) :
    ∃ l', net.neighbors_without_bridges u = some l' ∧ l'.Sublist l :=
  pairs_filter _ _ hl

theorem mem_pairs {ds : List (Fin devices)} {l : List (Fin devices × Fin devices)} (hl : net.pairs ds = some l) (h : (d, g) ∈ l) :
    d ∈ ds ∧ (net.get_up_interface d).isSome := by
  induction ds generalizing l with
  | nil =>
    cases hl
    exact absurd h List.not_mem_nil
  | cons d' ds ih =>
    obtain ⟨c, rest, hc, hrest, rfl⟩ := pairs_cons hl
    rcases List.mem_append.mp h with hfirst | hlater
    · obtain ⟨g', hg', heq⟩ := List.mem_map.mp hfirst
      cases heq
      exact ⟨List.mem_cons_self .., (adjacent_up hc hg').1⟩
    · obtain ⟨hmem, hup⟩ := ih hrest hlater
      exact ⟨List.mem_cons_of_mem _ hmem, hup⟩

end Ns3.NixVectorRouting.Topology
