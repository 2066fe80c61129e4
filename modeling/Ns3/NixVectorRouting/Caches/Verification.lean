import Ns3.NixVectorRouting.Caches

namespace Ns3.NixVectorRouting

open Transition BreadthFirst

variable {nodes devices : Nat} {α β : Type}

namespace Protocol

theorem check_clean (s : Protocol nodes devices α β) : s.check_cache_state_and_flush.is_cache_dirty = false := by
  unfold check_cache_state_and_flush
  split
  next => rfl
  next h => exact Bool.not_eq_true _ ▸ h

theorem check_check (s : Protocol nodes devices α β) :
    s.check_cache_state_and_flush.check_cache_state_and_flush = s.check_cache_state_and_flush := by
  rw [check_cache_state_and_flush.eq_def s.check_cache_state_and_flush, check_clean]
  rfl

theorem check_flush (s : Protocol nodes devices α β) :
    s.flush.check_cache_state_and_flush = s.check_cache_state_and_flush.flush := by
  unfold check_cache_state_and_flush
  change (if s.is_cache_dirty = true then _ else _) = _
  split <;> rfl

theorem check_of_clean {s : Protocol nodes devices α β} (hclean : s.is_cache_dirty = false) : s.check_cache_state_and_flush = s := by
  rw [check_cache_state_and_flush, hclean]
  rfl

theorem received_ne_null [IpAddress β] (s : Protocol nodes devices α β) (dest : β) (idev : Fin devices) :
    s.received dest idev ≠ some .null_nix_vector := by
  unfold received
  split
  · split <;> nofun
  · split
    · nofun
    · split <;> nofun

end Protocol

variable [IpInterfaceAddress α] [HasAddress α β]

namespace Network

theorem build_route_eq_some [IpAddress β] {w : Network nodes devices α β} {u : Fin nodes} {dest : β}
    {source : Fin devices → IpInterface α → Option β} {requested : Option (Fin devices)} {i : UInt32}
    {e : IpRoute devices β} (h : w.build_route u dest source requested i = some e) :
    ∃ index gatewayDevice interface, w.net.find_net_device_for_nix_index u i = some (index, gatewayDevice) ∧
      w.gateway_ip gatewayDevice = some e.gateway ∧ (w.net.device (requested.getD index)).interface = some interface ∧
      source (requested.getD index) interface = some e.source ∧ e.destination = dest ∧
      e.output_device = some (requested.getD index) ∧ e.index = i ∧ e.requested = requested := by
  obtain ⟨⟨index, gatewayDevice⟩, hfind, h⟩ := Option.bind_eq_some_iff.mp h
  obtain ⟨gateway, hgateway, h⟩ := Option.bind_eq_some_iff.mp h
  obtain ⟨interface, hinterface, h⟩ := Option.bind_eq_some_iff.mp h
  obtain ⟨src, hsource, h⟩ := Option.bind_eq_some_iff.mp h
  cases h
  exact ⟨index, gatewayDevice, interface, hfind, hgateway, hinterface, hsource, rfl, rfl, rfl, rfl⟩

variable [DecidableEq β]

variable {w : Network nodes devices α β} {u : Fin nodes} {dest : β}

/-- The index of a vector at a node, and the rest of the vector. -/
def read (w : Network nodes devices α β) (u : Fin nodes) (v : NixVector) : Option (UInt32 × NixVector) :=
  (w.net.find_total_neighbors u).bind fun total => v.extract_neighbor_index (NixVector.bit_count total)

/-- The address belongs to another node, which a search without an output device finds. -/
def Reaches (w : Network nodes devices α β) (u : Fin nodes) (dest : β) : Prop :=
  ∃ destNode parentVector, w.get_node_by_ip dest = some (some destNode) ∧ u ≠ destNode ∧
    w.bfs u destNode none = some (true, parentVector)

theorem build_nix_vector_found {net : Topology nodes devices α} {parentVector : Fin nodes → Option (Fin nodes)}
    {source dest parent : Fin nodes} {bound : ℕ} {v : NixVector} {r : Bool × NixVector} (hne : source ≠ dest)
    (hparent : parentVector dest = some parent) (h : net.build_nix_vector parentVector source bound dest v = some r) :
    r.1 = true := by
  cases bound with
  | zero => cases h
  | succ bound =>
    rw [Topology.build_nix_vector, if_neg hne, hparent] at h
    dsimp only at h
    obtain ⟨s, -, h⟩ := Option.bind_eq_some_iff.mp h
    obtain ⟨v', -, h⟩ := Option.bind_eq_some_iff.mp h
    obtain ⟨r', -, h⟩ := Option.bind_eq_some_iff.mp h
    cases h
    rfl

theorem parent_of_path {parent : Fin nodes → Option (Fin nodes)} {source dest : Fin nodes} {path : List (Fin nodes)}
    (hpath : ParentPath parent source dest path) (hne : source ≠ dest) : ∃ a, parent dest = some a := by
  obtain ⟨init, rfl⟩ := List.getLast?_eq_some_iff.mp hpath.ends
  rcases List.eq_nil_or_concat init with rfl | ⟨front, a, rfl⟩
  · have hhead := hpath.starts
    cases hhead
    exact absurd rfl hne
  · rw [List.concat_eq_append, List.append_assoc] at hpath
    have hchain := (List.isChain_append.mp hpath.parents).2.1
    exact ⟨a, (List.isChain_cons_cons.mp hchain).1.2⟩

/-- A node has no vector to a destination that it reaches only if the vector cannot be built. -/
theorem get_nix_vector_ne_none (h : w.Reaches u dest) (epoch : UInt32) : w.get_nix_vector epoch u dest none ≠ some none := by
  obtain ⟨destNode, parentVector, hnode, hne, hbfs⟩ := h
  obtain ⟨path, hpath, -⟩ := search_shortest Topology.explores_usable hbfs
  obtain ⟨parent, hparent⟩ := parent_of_path hpath hne
  intro hnone
  rw [get_nix_vector, hnode, Option.bind_some] at hnone
  dsimp only at hnone
  rw [if_neg hne, hbfs, Option.bind_some] at hnone
  dsimp only at hnone
  rw [if_pos rfl] at hnone
  obtain ⟨r, hbuild, heq⟩ := Option.map_eq_some_iff.mp hnone
  rw [if_pos (build_nix_vector_found hne hparent hbuild)] at heq
  cases heq

end Network

namespace Protocol

variable [IpAddress β] [DecidableEq β] {u : Fin nodes} {s s' : Protocol nodes devices α β} {dest : β}

/-- What is cached is what the node would build, for the device that was asked for and the index that
was read. -/
structure Good (u : Fin nodes) (s : Protocol nodes devices α β) : Prop where
  nix : ∀ dest v oif, s.nix_cache dest = some (v, oif) → s.network.get_nix_vector s.epoch u dest oif = some (some v)
  total : s.total_neighbors ≠ 0 → s.network.net.find_total_neighbors u = some s.total_neighbors
  route : ∀ dest e, s.ip_route_cache dest = some e →
    ∃ source, s.network.build_route u dest source e.requested e.index = some e

theorem good_flush (u : Fin nodes) (s : Protocol nodes devices α β) : Good u s.flush := ⟨nofun, fun h => absurd rfl h, nofun⟩

theorem Good.total_eq (h : Good u s) : (if s.total_neighbors = 0 then s.network.net.find_total_neighbors u
    else some s.total_neighbors) = s.network.net.find_total_neighbors u := by
  split
  next => rfl
  next hne => exact (h.total hne).symm

theorem extract_eq (h : Good u s) (v : NixVector) : s.extract u v =
    (s.network.net.find_total_neighbors u).bind fun total =>
      (v.extract_neighbor_index (NixVector.bit_count total)).map fun r =>
        (r.1, r.2, { s with total_neighbors := total }) := by
  rw [extract, h.total_eq]

theorem good_extract (h : Good u s) {v rest : NixVector} {i : UInt32} (hextract : s.extract u v = some (i, rest, s')) :
    Good u s' ∧ (∃ total, s' = { s with total_neighbors := total }) ∧ s.network.read u v = some (i, rest) := by
  rw [extract_eq h] at hextract
  obtain ⟨total, htotal, hextract⟩ := Option.bind_eq_some_iff.mp hextract
  obtain ⟨r, hr, heq⟩ := Option.map_eq_some_iff.mp hextract
  cases heq
  refine ⟨⟨h.nix, fun _ => htotal, h.route⟩, ⟨total, rfl⟩, ?_⟩
  rw [Network.read, htotal, Option.bind_some, hr]

theorem extract_of_read (h : Good u s) {v rest : NixVector} {i : UInt32} (hread : s.network.read u v = some (i, rest)) :
    ∃ s', s.extract u v = some (i, rest, s') := by
  obtain ⟨total, htotal, hr⟩ := Option.bind_eq_some_iff.mp hread
  rw [extract_eq h, htotal, Option.bind_some, hr]
  exact ⟨_, rfl⟩

theorem good_cached_nix_vector (h : Good u s) {oif : Option (Fin devices)} {v : Option NixVector}
    (hcached : s.cached_nix_vector u dest oif = some (v, s')) :
    Good u s' ∧ ∃ cache, s' = { s with nix_cache := cache } := by
  unfold cached_nix_vector at hcached
  split at hcached
  next => cases hcached; exact ⟨h, _, rfl⟩
  next =>
    obtain ⟨r, hr, heq⟩ := Option.map_eq_some_iff.mp hcached
    cases r with
    | none => cases heq; exact ⟨h, _, rfl⟩
    | some v =>
      cases heq
      refine ⟨⟨fun dest' v' oif' hentry => ?_, h.total, h.route⟩, _, rfl⟩
      dsimp only at hentry
      by_cases hdest : dest' = dest
      · subst hdest
        rw [Function.update_self] at hentry
        cases hentry
        exact hr
      · rw [Function.update_of_ne hdest] at hentry
        exact h.nix dest' v' oif' hentry

theorem cached_nix_vector_of_flush (h : Good u s) {oif : Option (Fin devices)} {v : Option NixVector}
    {t : Protocol nodes devices α β} (hsame : ∀ v requested, s.nix_cache dest = some (v, requested) → requested = oif)
    (hcached : s.flush.cached_nix_vector u dest oif = some (v, t)) :
    s.network.get_nix_vector s.epoch u dest oif = some v ∧ ∃ s', s.cached_nix_vector u dest oif = some (v, s') := by
  have hbuilt : s.network.get_nix_vector s.epoch u dest oif = some v := by
    obtain ⟨r, hr, heq⟩ := Option.map_eq_some_iff.mp hcached
    cases r with
    | none => cases heq; exact hr
    | some v => cases heq; exact hr
  refine ⟨hbuilt, ?_⟩
  unfold cached_nix_vector
  split
  next v' requested hentry =>
    cases hsame v' requested hentry
    have hgood := h.nix _ _ _ hentry
    rw [hbuilt] at hgood
    cases hgood
    exact ⟨_, rfl⟩
  next =>
    rw [hbuilt, Option.map_some]
    cases v with
    | none => exact ⟨_, rfl⟩
    | some v => exact ⟨_, rfl⟩

theorem good_cached_route (h : Good u s) {usable : IpRoute devices β → Bool} {source : Fin devices → IpInterface α → Option β}
    {requested : Option (Fin devices)} {i : UInt32} {e : IpRoute devices β}
    (hcached : s.cached_route u dest usable source requested i = some (e, s')) : Good u s' ∧
      s'.network = s.network ∧ s'.is_cache_dirty = s.is_cache_dirty := by
  unfold cached_route at hcached
  split at hcached
  next => cases hcached; exact ⟨h, rfl, rfl⟩
  next =>
    obtain ⟨r, hr, heq⟩ := Option.map_eq_some_iff.mp hcached
    cases heq
    refine ⟨⟨h.nix, h.total, fun dest' e' hentry => ?_⟩, rfl, rfl⟩
    dsimp only at hentry
    by_cases hdest : dest' = dest
    · subst hdest
      rw [Function.update_self] at hentry
      cases hentry
      obtain ⟨-, -, -, -, -, -, -, -, -, hindex, hrequested⟩ := Network.build_route_eq_some hr
      rw [hindex, hrequested]
      exact ⟨source, hr⟩
    · rw [Function.update_of_ne hdest] at hentry
      exact h.route dest' e' hentry

theorem build_of_cached_route (hempty : s.ip_route_cache dest = none) {usable : IpRoute devices β → Bool}
    {source : Fin devices → IpInterface α → Option β} {requested : Option (Fin devices)} {i : UInt32} {e : IpRoute devices β}
    (h : s.cached_route u dest usable source requested i = some (e, s')) :
    s.network.build_route u dest source requested i = some e := by
  rw [cached_route, hempty] at h
  obtain ⟨r, hr, heq⟩ := Option.map_eq_some_iff.mp h
  cases heq
  exact hr

theorem cached_route_of_build (h : Good u s) (usable : IpRoute devices β → Bool)
    {source : Fin devices → IpInterface α → Option β} {requested : Option (Fin devices)} {i : UInt32} {e : IpRoute devices β}
    (hsame : ∀ e, s.ip_route_cache dest = some e → usable e = true →
      e.index = i ∧ (e.output_device = requested ∨ e.requested = none ∧ requested = none))
    (hbuilt : s.network.build_route u dest source requested i = some e) (nixVector : Option NixVector) :
    ∃ e' s', s.cached_route u dest usable source requested i = some (e', s') ∧
      (Answer.route e' nixVector).visible = (Answer.route e nixVector).visible := by
  unfold cached_route
  split
  next e' hentry =>
    obtain ⟨hcache, husable⟩ := Option.filter_eq_some_iff.mp hentry
    obtain ⟨hindex, hdevice⟩ := hsame e' hcache husable
    refine ⟨e', s, rfl, ?_⟩
    obtain ⟨source', hbuilt'⟩ := h.route dest e' hcache
    obtain ⟨index, g, interface, hfind, hgateway, -, -, hdest, hout, -, -⟩ := Network.build_route_eq_some hbuilt
    obtain ⟨index', g', interface', hfind', hgateway', -, -, hdest', hout', -, -⟩ := Network.build_route_eq_some hbuilt'
    rw [hindex, hfind, Option.some_inj, Prod.mk.injEq] at hfind'
    obtain ⟨rfl, rfl⟩ := hfind'
    rw [hgateway, Option.some_inj] at hgateway'
    have houts : e'.output_device = e.output_device := by
      rcases hdevice with hdevice | ⟨hnone, hnone'⟩
      · rw [hdevice, hout]
        rw [hdevice] at hout'
        rw [hout', Option.getD_some]
      · rw [hout, hout', hnone, hnone']
    simp only [Answer.visible, houts, hgateway', hdest, hdest']
  next =>
    rw [hbuilt]
    exact ⟨e, _, rfl, rfl⟩

theorem good_route_output (h : Good u s) (hclean : s.is_cache_dirty = false) {oif : Option (Fin devices)} {has_packet : Bool}
    {a : Answer devices β} (houtput : s.route_output u dest oif has_packet = some (a, s')) :
    Good u s' ∧ s'.is_cache_dirty = false := by
  unfold route_output at houtput
  rw [check_of_clean hclean] at houtput
  dsimp only at houtput
  split at houtput
  · cases houtput
    exact ⟨h, hclean⟩
  · split at houtput
    · obtain ⟨d, -, heq⟩ := Option.map_eq_some_iff.mp houtput
      cases heq
      exact ⟨h, hclean⟩
    · obtain ⟨⟨v, s₁⟩, hvector, hrest⟩ := Option.bind_eq_some_iff.mp houtput
      obtain ⟨h₁, cache, rfl⟩ := good_cached_nix_vector h hvector
      cases v with
      | none =>
        cases hrest
        exact ⟨h₁, hclean⟩
      | some v =>
        obtain ⟨⟨i, rest, s₂⟩, hextract, hrest⟩ := Option.bind_eq_some_iff.mp hrest
        obtain ⟨h₂, ⟨total, rfl⟩, -⟩ := good_extract h₁ hextract
        obtain ⟨⟨e, s₃⟩, hroute, heq⟩ := Option.map_eq_some_iff.mp hrest
        cases heq
        obtain ⟨h₃, -, hdirty⟩ := good_cached_route h₂ hroute
        exact ⟨h₃, hdirty.trans hclean⟩

theorem good_forward (h : Good u s) {v : NixVector} {a : Answer devices β} (hforward : s.forward u dest v = some (a, s')) :
    Good u s' ∧ s'.is_cache_dirty = s.is_cache_dirty := by
  obtain ⟨v', -, hrest⟩ := Option.bind_eq_some_iff.mp hforward
  cases v' with
  | none =>
    cases hrest
    exact ⟨h, rfl⟩
  | some v' =>
    obtain ⟨⟨i, rest, s₂⟩, hextract, hrest⟩ := Option.bind_eq_some_iff.mp hrest
    obtain ⟨h₂, ⟨total, rfl⟩, -⟩ := good_extract h hextract
    obtain ⟨⟨e, s₃⟩, hroute, heq⟩ := Option.map_eq_some_iff.mp hrest
    cases heq
    obtain ⟨h₃, -, hdirty⟩ := good_cached_route h₂ hroute
    exact ⟨h₃, hdirty⟩

theorem route_output_check (u : Fin nodes) (s : Protocol nodes devices α β) (dest : β) (oif : Option (Fin devices))
    (has_packet : Bool) :
    s.check_cache_state_and_flush.route_output u dest oif has_packet = s.route_output u dest oif has_packet := by
  rw [route_output, check_check, ← route_output]

theorem good_check (h : s.is_cache_dirty = false → Good u s) : Good u s.check_cache_state_and_flush := by
  unfold check_cache_state_and_flush
  split
  next => exact good_flush u { s with epoch := s.epoch + 1, is_cache_dirty := false }
  next hclean => exact h (Bool.not_eq_true _ ▸ hclean)

theorem good_of_reachable {cond : Protocol nodes devices α β → Event nodes devices α β → Prop}
    (hs : Reachable Fresh (step u) cond s) : s.is_cache_dirty = false → Good u s := by
  refine hs.invariant (I := fun s => s.is_cache_dirty = false → Good u s) ?_ ?_
  · rintro s ⟨hnix, hroute, htotal⟩ -
    exact ⟨fun dest v oif h => absurd h (by rw [hnix]; nofun), fun h => absurd htotal h,
      fun dest e h => absurd h (by rw [hroute]; nofun)⟩
  · intro s e s' h _ hstep hclean
    have hgood := good_check h
    obtain ⟨⟨a, s₁⟩, hanswer, rfl⟩ := Option.map_eq_some_iff.mp hstep
    cases e with
    | route_output dest oif has_packet =>
      obtain ⟨⟨a', s₂⟩, houtput, heq⟩ := Option.map_eq_some_iff.mp hanswer
      cases heq
      rw [← route_output_check] at houtput
      exact (good_route_output hgood (check_clean s) houtput).1
    | route_input dest idev nixVector =>
      obtain ⟨⟨a', s₂⟩, hinput, heq⟩ := Option.map_eq_some_iff.mp hanswer
      cases heq
      unfold route_input at hinput
      dsimp only at hinput
      split at hinput
      · split at hinput
        · cases hinput
          exact hgood
        · obtain ⟨v, -, hforward⟩ := Option.bind_eq_some_iff.mp hinput
          exact (good_forward hgood hforward).1
      · cases hinput
    | change network =>
      cases hanswer
      cases hclean
    | refresh =>
      cases hanswer
      exact hgood

/-- The index in the vector that the node builds. -/
def own_index (u : Fin nodes) (s : Protocol nodes devices α β) (dest : β) (oif : Option (Fin devices)) : Option UInt32 :=
  (s.network.get_nix_vector s.epoch u dest oif).join.bind fun v => (s.network.read u v).map (·.1)

/-- The index in the vector of a packet, which is built again in another epoch. -/
def packet_index (u : Fin nodes) (s : Protocol nodes devices α β) (dest : β) (v : NixVector) : Option UInt32 :=
  if v.m_epoch ≠ s.epoch then own_index u s dest none else (s.network.read u v).map (·.1)

/-- The calls for a destination since the last flush ask for the same: `RouteOutput` for the device for
which the vector was cached, and, if it finds a route out of that device, with the index from which that
route was built; and `RouteInput` with the index from which a route was built for no device of choice. A
packet of an earlier epoch arrives where there is a path. -/
def Agrees (u : Fin nodes) (s : Protocol nodes devices α β) : Event nodes devices α β → Prop
  | .route_output dest oif _ =>
    (∀ v requested, s.nix_cache dest = some (v, requested) → requested = oif) ∧
      ∀ e, s.ip_route_cache dest = some e → e.output_device = oif → ∀ i ∈ own_index u s dest oif, e.index = i
  | .route_input dest idev (some v) => s.received dest idev = none →
    (v.m_epoch = s.epoch ∨ s.network.Reaches u dest) ∧
      ∀ e, s.ip_route_cache dest = some e → e.requested = none ∧ ∀ i ∈ packet_index u s dest v, e.index = i
  | _ => True

theorem forward_of_flush (h : Good u s) {v : NixVector} {r : Answer devices β × Protocol nodes devices α β}
    (hsame : ∀ e, s.ip_route_cache dest = some e → e.requested = none ∧ ∀ i ∈ packet_index u s dest v, e.index = i)
    (hforward : s.flush.forward u dest v = some r) :
    ∃ r', s.forward u dest v = some r' ∧ r'.1.visible = r.1.visible := by
  obtain ⟨v', hv', hrest⟩ := Option.bind_eq_some_iff.mp hforward
  change (if v.m_epoch ≠ s.epoch then s.network.get_nix_vector s.epoch u dest none else some (some v)) = some v' at hv'
  rw [forward, hv', Option.bind_some]
  cases v' with
  | none =>
    cases hrest
    exact ⟨_, rfl, rfl⟩
  | some v' =>
    obtain ⟨⟨i, rest, t⟩, hextract, hrest⟩ := Option.bind_eq_some_iff.mp hrest
    obtain ⟨-, ⟨total', rfl⟩, hread⟩ := good_extract (good_flush u s) hextract
    change s.network.read u v' = _ at hread
    obtain ⟨s₁, hextract₁⟩ := extract_of_read h hread
    obtain ⟨h₁, ⟨total, rfl⟩, -⟩ := good_extract h hextract₁
    have hpacket : packet_index u s dest v = some i := by
      unfold packet_index
      split at hv'
      next hstale =>
        rw [if_pos hstale, own_index, hv', Option.join_some, Option.bind_some, hread, Option.map_some]
      next hcurrent =>
        cases hv'
        rw [if_neg hcurrent, hread, Option.map_some]
    obtain ⟨⟨e, t₂⟩, hroute, heq⟩ := Option.map_eq_some_iff.mp hrest
    cases heq
    have hnew := build_of_cached_route rfl hroute
    dsimp only
    rw [hextract₁, Option.bind_some]
    dsimp only
    obtain ⟨e', s₂, hroute', hvisible⟩ := cached_route_of_build h₁ (fun _ => true)
      (fun e he _ => ⟨(hsame e he).2 i hpacket, .inr ⟨(hsame e he).1, rfl⟩⟩) hnew (some rest)
    exact ⟨_, Option.map_eq_some_iff.mpr ⟨_, hroute', rfl⟩, hvisible⟩

theorem route_output_of_flush (h : Good u s) (hclean : s.is_cache_dirty = false) {oif : Option (Fin devices)}
    {has_packet : Bool} {r : Answer devices β × Protocol nodes devices α β}
    (hsame : ∀ v requested, s.nix_cache dest = some (v, requested) → requested = oif)
    (hindex : ∀ e, s.ip_route_cache dest = some e → e.output_device = oif → ∀ i ∈ own_index u s dest oif, e.index = i)
    (houtput : s.flush.route_output u dest oif has_packet = some r) :
    ∃ r', s.route_output u dest oif has_packet = some r' ∧ r'.1.visible = r.1.visible := by
  unfold route_output at houtput ⊢
  rw [check_of_clean (s := s.flush) hclean] at houtput
  rw [check_of_clean hclean]
  dsimp only at houtput ⊢
  split at houtput
  next hlocal =>
    cases houtput
    rw [if_pos hlocal]
    exact ⟨_, rfl, rfl⟩
  next hlocal =>
    rw [if_neg hlocal]
    split at houtput
    next hmulticast =>
      obtain ⟨d, rfl, rfl⟩ := Option.map_eq_some_iff.mp houtput
      rw [if_pos hmulticast]
      exact ⟨_, rfl, rfl⟩
    next hmulticast =>
      rw [if_neg hmulticast]
      obtain ⟨⟨v, t⟩, hvector, hrest⟩ := Option.bind_eq_some_iff.mp houtput
      obtain ⟨hbuilt, s₁, hvector₁⟩ := cached_nix_vector_of_flush h hsame hvector
      obtain ⟨h₁, cache, rfl⟩ := good_cached_nix_vector h hvector₁
      obtain ⟨ht, cache', rfl⟩ := good_cached_nix_vector (good_flush u s) hvector
      rw [hvector₁, Option.bind_some]
      cases v with
      | none =>
        cases hrest
        exact ⟨_, rfl, rfl⟩
      | some v =>
        obtain ⟨⟨i, rest, t₂⟩, hextract, hrest⟩ := Option.bind_eq_some_iff.mp hrest
        obtain ⟨-, ⟨total', rfl⟩, hread⟩ := good_extract ht hextract
        change s.network.read u v = _ at hread
        obtain ⟨s₂, hextract₂⟩ := extract_of_read h₁ hread
        obtain ⟨h₂, ⟨total, rfl⟩, -⟩ := good_extract h₁ hextract₂
        have hown : own_index u s dest oif = some i := by
          rw [own_index, hbuilt, Option.join_some, Option.bind_some, hread, Option.map_some]
        obtain ⟨⟨e, t₃⟩, hroute, heq⟩ := Option.map_eq_some_iff.mp hrest
        cases heq
        have hnew := build_of_cached_route rfl hroute
        dsimp only
        rw [hextract₂, Option.bind_some]
        dsimp only
        obtain ⟨e', s₃, hroute', hvisible⟩ := cached_route_of_build h₂ (fun rtentry => rtentry.output_device = oif)
          (fun e he husable => ⟨hindex e he (of_decide_eq_true husable) i hown, .inl (of_decide_eq_true husable)⟩) hnew
          (if has_packet then some rest else none)
        exact ⟨_, Option.map_eq_some_iff.mpr ⟨_, hroute', rfl⟩, hvisible⟩

/-- `RouteInput` reads through a null pointer exactly when it builds the vector again and finds no path. -/
theorem null_nix_vector_iff (s : Protocol nodes devices α β) (dest : β) (idev : Fin devices) (v : NixVector) :
    (∃ s', s.route_input u dest idev (some v) = some (.null_nix_vector, s')) ↔
      (s.check_cache_state_and_flush.network.net.device idev).interface.isSome ∧
      s.check_cache_state_and_flush.received dest idev = none ∧ v.m_epoch ≠ s.check_cache_state_and_flush.epoch ∧
      s.check_cache_state_and_flush.network.get_nix_vector s.check_cache_state_and_flush.epoch u dest none = some none := by
  unfold route_input
  generalize s.check_cache_state_and_flush = t
  dsimp only
  constructor
  · rintro ⟨s', h⟩
    split at h
    next hinterface =>
      split at h
      next answer hreceived =>
        cases h
        exact absurd hreceived (received_ne_null t dest idev)
      next hreceived =>
        rw [Option.bind_some] at h
        obtain ⟨v', hv', hrest⟩ := Option.bind_eq_some_iff.mp h
        cases v' with
        | none =>
          split at hv'
          next hstale => exact ⟨hinterface, hreceived, hstale, hv'⟩
          next => cases hv'
        | some v' =>
          obtain ⟨⟨i, rest, s₁⟩, -, hrest⟩ := Option.bind_eq_some_iff.mp hrest
          obtain ⟨⟨e, s₂⟩, -, heq⟩ := Option.map_eq_some_iff.mp hrest
          cases heq
    next => cases h
  · rintro ⟨hinterface, hreceived, hstale, hnone⟩
    rw [if_pos hinterface, hreceived]
    dsimp only
    rw [Option.bind_some, forward, if_pos hstale, hnone]
    exact ⟨t, rfl⟩

theorem answer_of_flush (h : Good u s.check_cache_state_and_flush) {e : Event nodes devices α β}
    (hagrees : Agrees u s.check_cache_state_and_flush e) {r : Option (Answer devices β) × Protocol nodes devices α β}
    (hr : s.flush.answer u e = some r) :
    ∃ r', s.answer u e = some r' ∧ r'.1.map Answer.visible = r.1.map Answer.visible := by
  have hclean := check_clean s
  cases e with
  | route_output dest oif has_packet =>
    obtain ⟨⟨a, t⟩, houtput, rfl⟩ := Option.map_eq_some_iff.mp hr
    rw [← route_output_check, check_flush] at houtput
    obtain ⟨⟨a', t'⟩, houtput', hvisible⟩ := route_output_of_flush h hclean hagrees.1 hagrees.2 houtput
    rw [route_output_check] at houtput'
    exact ⟨_, Option.map_eq_some_iff.mpr ⟨_, houtput', rfl⟩, congrArg some hvisible⟩
  | route_input dest idev nixVector =>
    obtain ⟨⟨a, t⟩, hinput, rfl⟩ := Option.map_eq_some_iff.mp hr
    rw [answer, route_input]
    rw [route_input, check_flush] at hinput
    dsimp only at hinput ⊢
    change (if (s.check_cache_state_and_flush.network.net.device idev).interface.isSome then _ else _) = _ at hinput
    split at hinput
    next hinterface =>
      have hflush : s.check_cache_state_and_flush.flush.received dest idev =
          s.check_cache_state_and_flush.received dest idev := rfl
      rw [if_pos hinterface]
      rw [hflush] at hinput
      cases hreceived : s.check_cache_state_and_flush.received dest idev with
      | some answer =>
        simp only [hreceived] at hinput ⊢
        cases hinput
        exact ⟨_, rfl, rfl⟩
      | none =>
        simp only [hreceived] at hinput ⊢
        obtain ⟨v, rfl, hforward⟩ := Option.bind_eq_some_iff.mp hinput
        obtain ⟨⟨a', t'⟩, hforward', hvisible⟩ := forward_of_flush h (hagrees hreceived).2 hforward
        rw [Option.bind_some]
        exact ⟨_, Option.map_eq_some_iff.mpr ⟨_, hforward', rfl⟩, congrArg some hvisible⟩
    next => cases hinput
  | change network =>
    cases hr
    exact ⟨_, rfl, rfl⟩
  | refresh =>
    cases hr
    exact ⟨_, rfl, rfl⟩

theorem ne_null_of_agrees {e : Event nodes devices α β} (hagrees : Agrees u s.check_cache_state_and_flush e)
    {r : Option (Answer devices β) × Protocol nodes devices α β} (hr : s.answer u e = some r) :
    r.1 ≠ some .null_nix_vector := by
  cases e with
  | route_output dest oif has_packet =>
    obtain ⟨⟨a, t⟩, houtput, rfl⟩ := Option.map_eq_some_iff.mp hr
    unfold route_output at houtput
    dsimp only at houtput
    split at houtput
    · cases houtput
      nofun
    · split at houtput
      · obtain ⟨d, -, heq⟩ := Option.map_eq_some_iff.mp houtput
        cases heq
        nofun
      · obtain ⟨⟨v, s₁⟩, -, hrest⟩ := Option.bind_eq_some_iff.mp houtput
        cases v with
        | none =>
          cases hrest
          nofun
        | some v =>
          obtain ⟨⟨i, rest, s₂⟩, -, hrest⟩ := Option.bind_eq_some_iff.mp hrest
          obtain ⟨⟨e, s₃⟩, -, heq⟩ := Option.map_eq_some_iff.mp hrest
          cases heq
          nofun
  | route_input dest idev nixVector =>
    obtain ⟨⟨a, t⟩, hinput, rfl⟩ := Option.map_eq_some_iff.mp hr
    rintro ⟨rfl⟩
    cases nixVector with
    | none =>
      unfold route_input at hinput
      dsimp only at hinput
      split at hinput
      · split at hinput
        next answer hreceived =>
          cases hinput
          exact received_ne_null _ _ _ hreceived
        next => cases hinput
      · cases hinput
    | some v =>
      obtain ⟨-, hreceived, hstale, hnone⟩ := (null_nix_vector_iff s dest idev v).mp ⟨t, hinput⟩
      rcases (hagrees hreceived).1 with hcurrent | hreaches
      · exact hstale hcurrent
      · exact Network.get_nix_vector_ne_none hreaches _ hnone
  | change network =>
    cases hr
    nofun
  | refresh =>
    cases hr
    nofun

/-- In every reachable state a call that asks for what the calls before it asked for gets the answer that
it gets with empty caches, and no null pointer is read. The pointer is null exactly for a packet of
an earlier epoch at a node that finds no path. -/
theorem caches_transparent (u : Fin nodes) :
    (∀ s : Protocol nodes devices α β, Reachable Fresh (step u) Always s →
      ∀ e, Agrees u s.check_cache_state_and_flush e →
        (∀ r, s.flush.answer u e = some r → ∃ r', s.answer u e = some r' ∧ r'.1.map Answer.visible = r.1.map Answer.visible) ∧
        ∀ r, s.answer u e = some r → r.1 ≠ some .null_nix_vector) ∧
    ∀ (s : Protocol nodes devices α β) dest idev v,
      (∃ s', s.route_input u dest idev (some v) = some (.null_nix_vector, s')) ↔
        (s.check_cache_state_and_flush.network.net.device idev).interface.isSome ∧
        s.check_cache_state_and_flush.received dest idev = none ∧ v.m_epoch ≠ s.check_cache_state_and_flush.epoch ∧
        s.check_cache_state_and_flush.network.get_nix_vector s.check_cache_state_and_flush.epoch u dest none = some none := by
  refine ⟨fun s hs e hagrees => ⟨fun r hr => ?_, fun r hr => ?_⟩, null_nix_vector_iff⟩
  · exact answer_of_flush (good_check (good_of_reachable hs)) hagrees hr
  · exact ne_null_of_agrees hagrees hr

local instance nodes_ne_zero : NeZero 3 := ⟨by decide⟩

/-- Three nodes with a link between any two of them. The interfaces of node 1 may be down. -/
def triangle (up : Bool) : Network 3 6 Ipv4InterfaceAddress Ipv4Address where
  net :=
    { device := fun
        | 0 => { node := 0, channel := some [0, 1], interface := Topology.subnet24 0x0a010101 }
        | 1 => { node := 1, channel := some [0, 1], interface := (Topology.subnet24 0x0a010102).map ({ · with is_up := up }) }
        | 2 => { node := 0, channel := some [2, 3], interface := Topology.subnet24 0x0a010201 }
        | 3 => { node := 2, channel := some [2, 3], interface := Topology.subnet24 0x0a010202 }
        | 4 => { node := 2, channel := some [4, 5], interface := Topology.subnet24 0x0a010301 }
        | 5 => { node := 1, channel := some [4, 5], interface := (Topology.subnet24 0x0a010302).map ({ · with is_up := up }) }
      node_devices := fun
        | 0 => [0, 2]
        | 1 => [1, 5]
        | 2 => [3, 4] }
  is_destination_address _ _ := false
  source_address_selection _ _ := 0x0a010101

/-- A call that asks for no device after a call that asked for none. -/
theorem caches_transparent_triangle :
    ∃ s : Protocol 3 6 Ipv4InterfaceAddress Ipv4Address, (s.nix_cache 0x0a010102).isSome ∧
      ∀ r, s.flush.answer 0 (.route_output 0x0a010102 none true) = some r →
        ∃ r', s.answer 0 (.route_output 0x0a010102 none true) = some r' ∧ r'.1.map Answer.visible = r.1.map Answer.visible := by
  have hrun : ∃ s ∈ execute (step 0) Always { network := triangle true } [.route_output 0x0a010102 none true],
      s.is_cache_dirty = false ∧ (s.nix_cache 0x0a010102).map (·.2) = some none ∧
        (s.ip_route_cache 0x0a010102).map (·.output_device) = some (some 0) := by
    decide +kernel
  obtain ⟨s, hs, hclean, hcached, hroute⟩ := hrun
  obtain ⟨⟨v, requested⟩, hv, rfl⟩ := Option.map_eq_some_iff.mp hcached
  refine ⟨s, by rw [hv]; rfl, ((caches_transparent 0).1 s ((Reachable.init ⟨rfl, rfl, rfl⟩).execute hs) _ ?_).1⟩
  rw [check_of_clean hclean]
  refine ⟨fun v' requested' h => ?_, fun e he hnone => ?_⟩
  · rw [hv] at h
    cases h
    rfl
  · rw [he, Option.map_some, hnone] at hroute
    cases hroute

/-- The vector over node 2, which was cached for the device to node 2, is used for a call without a device;
and a packet that comes to node 2 with it finds no path after node 1 has gone down. -/
theorem cached_for_another_device :
    (∃ s : Protocol 3 6 Ipv4InterfaceAddress Ipv4Address, Reachable Fresh (step 0) Always s ∧
      (s.answer 0 (.route_output 0x0a010102 none true)).map (fun r => r.1.map Answer.visible) ≠
        (s.flush.answer 0 (.route_output 0x0a010102 none true)).map (fun r => r.1.map Answer.visible)) ∧
    ∃ s s' : Protocol 3 6 Ipv4InterfaceAddress Ipv4Address, ∃ e v s₁ s₂, Reachable Fresh (step 0) Always s ∧
      s.route_output 0 0x0a010102 (some 2) true = some (.route e (some v), s₁) ∧
      Reachable Fresh (step 2) Always s' ∧ s'.route_input 2 0x0a010102 3 (some v) = some (.null_nix_vector, s₂) := by
  constructor
  · have hrun : ∃ s ∈ execute (step 0) Always { network := triangle true } [.route_output 0x0a010102 (some 2) true],
        (s.answer 0 (.route_output 0x0a010102 none true)).map (fun r => r.1.map Answer.visible) ≠
          (s.flush.answer 0 (.route_output 0x0a010102 none true)).map (fun r => r.1.map Answer.visible) := by
      decide +kernel
    obtain ⟨s, hs, hdiffers⟩ := hrun
    exact ⟨s, (Reachable.init ⟨rfl, rfl, rfl⟩).execute hs, hdiffers⟩
  · have hvector : (route_output 0 { network := triangle true } 0x0a010102 (some 2) true).map (·.1) =
        some (.route ⟨0x0a010102, 0x0a010101, 0x0a010202, some 2, 1, some 2⟩
          (some { m_nixVector := [3], m_used := 1, m_totalBitSize := 2 })) := by
      decide +kernel
    have hchanged : ∃ s ∈ execute (step 2) Always { network := triangle true } [.change (triangle false)],
        (s.route_input 2 0x0a010102 3 (some { m_nixVector := [3], m_used := 1, m_totalBitSize := 2 })).map (·.1) =
          some .null_nix_vector := by
      decide +kernel
    obtain ⟨⟨a, s₁⟩, hroute, rfl⟩ := Option.map_eq_some_iff.mp hvector
    obtain ⟨s', hs', hinput⟩ := hchanged
    obtain ⟨⟨a', s₂⟩, hinput, rfl⟩ := Option.map_eq_some_iff.mp hinput
    exact ⟨_, s', _, _, s₁, s₂, .init ⟨rfl, rfl, rfl⟩, hroute, (Reachable.init ⟨rfl, rfl, rfl⟩).execute hs', hinput⟩

end Protocol

end Ns3.NixVectorRouting
