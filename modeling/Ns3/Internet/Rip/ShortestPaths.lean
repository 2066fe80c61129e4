import Ns3.Internet.Rip.Network
import Ns3.Internet.Rip.Responses

namespace Ns3.Rip

variable {p : RipAttributes} {s : Rip}

theorem rte_metric_lt {rte : RipRte} {i : ℕ} (h : p.rte_metric rte i < link_down) :
    p.rte_metric rte i = rte.route_metric + p.interface_metric i := by
  simp only [RipAttributes.rte_metric] at *
  omega

theorem advertise_spec {j : ℕ} {route : RipRoutingTableEntry} {rte : RipRte}
    (h : s.advertise p true j route = some rte) :
    rte.prefixAddr = route.dest_network ∧ rte.subnet_mask = route.dest_network_mask ∧
      (rte.route_metric = link_down ∨ rte.route_metric = route.metric) := by
  unfold advertise at h
  dsimp only at h
  split at h
  next =>
    split at h
    next => cases h
    next =>
      cases h
      refine ⟨rfl, rfl, ?_⟩
      dsimp only
      split
      next => exact .inl rfl
      next => exact .inr rfl
  next => cases h

theorem advertise_destination {j : ℕ} {route : RipRoutingTableEntry} {rte : RipRte}
    (h : s.advertise p true j route = some rte)
    (hpre : route.dest_network.combine_mask route.dest_network_mask = route.dest_network) :
    rte.destination = route.destination := by
  obtain ⟨hp, hm, -⟩ := advertise_spec h
  rw [RipRte.destination, hp, hm, hpre]
  rfl

theorem advertise_eq {j : ℕ} {route : RipRoutingTableEntry}
    (hglobal : route.dest_network ≠ Ipv4Address.get_loopback)
    (hother : ∀ x ∈ s.addresses j, (network x).1 ≠ route.dest_network)
    (hhorizon : p.m_splitHorizonStrategy = .NO_SPLIT_HORIZON ∨ route.interface ≠ j) :
    ∃ rte, s.advertise p true j route = some rte ∧ rte.route_metric = route.metric := by
  have hsame : ((s.addresses j).any fun addr => decide ((network addr).1 = route.dest_network)) = false := by
    simpa using hother
  have hscope : (Ipv4InterfaceAddress.of route.dest_network route.dest_network_mask).scope = .global := by
    simp [Ipv4InterfaceAddress.of, hglobal]
  have hsplit : ¬ (p.m_splitHorizonStrategy = .SPLIT_HORIZON ∧ route.interface = j) := by
    rintro ⟨hs, hj⟩
    rcases hhorizon with hno | hne
    · rw [hs] at hno
      cases hno
    · exact hne hj
  have hpoison : ¬ (p.m_splitHorizonStrategy = .POISON_REVERSE ∧ route.interface = j) := by
    rintro ⟨hs, hj⟩
    rcases hhorizon with hno | hne
    · rw [hs] at hno
      cases hno
    · exact hne hj
  have hrte : s.advertise p true j route =
      some ⟨route.dest_network, route.dest_network_mask, route.tag, route.metric⟩ := by
    unfold advertise
    dsimp only
    rw [hsame, if_pos ⟨.inl hscope, .inl rfl, rfl⟩, if_neg hsplit, if_neg hpoison]
  exact ⟨_, hrte, rfl⟩

theorem filterMap_map_sublist {α β γ : Type} (f : α → Option β) (g : β → γ) (k : α → γ) (l : List α)
    (h : ∀ x ∈ l, ∀ y, f x = some y → g y = k x) : ((l.filterMap f).map g).Sublist (l.map k) := by
  induction l with
  | nil => exact List.Sublist.refl _
  | cons x rest ih =>
    have hrest := ih fun y hy => h y (List.mem_cons_of_mem _ hy)
    cases hx : f x with
    | none =>
      rw [List.filterMap_cons_none hx]
      exact hrest.cons _
    | some y =>
      rw [List.filterMap_cons_some hx, List.map_cons, List.map_cons, h x List.mem_cons_self y hx]
      exact hrest.cons_cons _

theorem mem_route_update {j : ℕ} (hsmall : s.m_routes.length < 255) {rte : RipRte} :
    (∃ hdr ∈ s.route_update p true j, rte ∈ hdr) ↔
      ∃ it ∈ s.m_routes, s.advertise p true j it.entry = some rte := by
  rw [← List.mem_flatten, route_update, packets_flatten _ _ _ _ (by simp; omega), List.nil_append,
    List.mem_filterMap]

theorem nodup_packet {j : ℕ} (hsmall : s.m_routes.length < 255)
    (hunique : (s.m_routes.map fun it => it.entry.destination).Nodup)
    (hpre : ∀ it ∈ s.m_routes, it.entry.dest_network.combine_mask it.entry.dest_network_mask =
      it.entry.dest_network) {hdr : List RipRte} (hhdr : hdr ∈ s.route_update p true j) :
    (hdr.map RipRte.destination).Nodup ∧ hdr.length < 256 := by
  have hsub := List.sublist_flatten_of_mem hhdr
  rw [route_update, packets_flatten _ _ _ _ (by simp; omega), List.nil_append] at hsub
  constructor
  · refine hunique.sublist ((hsub.map _).trans (filterMap_map_sublist _ _ _ _ ?_))
    intro it hit rte hrte
    exact advertise_destination hrte (hpre it hit)
  · have hlen := hsub.length_le
    have hle := List.length_filterMap_le (fun it : RipRoute => s.advertise p true j it.entry) s.m_routes
    omega

theorem part_summary {s s' : Rip} (h : s'.m_routes.map RipRoute.summary = s.m_routes.map RipRoute.summary)
    (destination : Ipv4Address × Ipv4Mask) :
    (s'.part destination).map RipRoute.summary = (s.part destination).map RipRoute.summary := by
  have hfilter : ∀ x : Rip, (x.part destination).map RipRoute.summary =
      (x.m_routes.map RipRoute.summary).filter fun y => y.1 = destination := by
    intro x
    rw [List.filter_map]
    rfl
  rw [hfilter, hfilter, h]

end Ns3.Rip

namespace Ns3.RipNetwork

open Rip WeightedPath

variable {R Link : Type} {net : RipNetwork R Link} {subnet : Link → Ipv4Address × Ipv4Mask}

theorem Delivery.packet {r s : R} {i j : ℕ} {a : Ipv4Address} {hdr : List RipRte}
    (h : net.Delivery r i a hdr s j) :
    (a, j) ∈ (net.node s).m_unicastSocketList ∧
      hdr ∈ (net.node s).route_update (net.attributes s) true j := by
  obtain ⟨socket, hsocket, hmem⟩ := List.mem_flatMap.mp h.sent
  split at hmem
  next => cases hmem
  next =>
    obtain ⟨hdr', hhdr, heq⟩ := List.mem_map.mp hmem
    cases heq
    exact ⟨hsocket, hhdr⟩

theorem Delivery.of_packet {r s : R} {i j : ℕ} {a : Ipv4Address} {hdr : List RipRte}
    (hlinked : net.Linked r i s j) (hsocket : (a, j) ∈ (net.node s).m_unicastSocketList)
    (hhdr : hdr ∈ (net.node s).route_update (net.attributes s) true j) : net.Delivery r i a hdr s j := by
  refine ⟨hlinked, List.mem_flatMap.mpr ⟨(a, j), hsocket, ?_⟩⟩
  rw [hlinked.2.2.1]
  exact List.mem_map.mpr ⟨hdr, hhdr, rfl⟩

theorem Delivery.entry (hs : net.Static subnet) {r s : R} {i j : ℕ} {a : Ipv4Address} {hdr : List RipRte}
    (h : net.Delivery r i a hdr s j) {rte : RipRte} (hrte : rte ∈ hdr) :
    ∃ it ∈ (net.node s).m_routes, (net.node s).advertise (net.attributes s) true j it.entry = some rte :=
  (mem_route_update (hs.small s)).mp ⟨hdr, h.packet.2, hrte⟩

theorem Delivery.nodup (hs : net.Static subnet) (hr : net.Regular subnet) {r s : R} {i j : ℕ}
    {a : Ipv4Address} {hdr : List RipRte} (h : net.Delivery r i a hdr s j) :
    (hdr.map RipRte.destination).Nodup ∧ deserialize hdr = hdr := by
  obtain ⟨hnodup, hlen⟩ := nodup_packet (hs.small s) (hs.addressed s).unique
    (fun it hit => (hr.is_prefix s it hit).1) h.packet.2
  refine ⟨hnodup, ?_⟩
  rw [deserialize, Nat.mod_eq_of_lt hlen, List.take_length]

/-- The gateway of a learnt entry has an entry for the network, closer by the metric of the link. -/
structure Gateway (net : RipNetwork R Link) (r : R) (it : RipRoute) (i : ℕ) (a : Ipv4Address)
    (hdr : List RipRte) (s : R) (j : ℕ) (rte : RipRte) : Prop where
  delivery : net.Delivery r i a hdr s j
  mem : rte ∈ hdr
  destination : rte.destination = it.entry.destination
  metric : it.entry.metric = rte.route_metric + (net.attributes r).interface_metric i
  gateway : a = it.entry.gateway

theorem gateway_of_refreshed (hs : net.Static subnet) (hr : net.Regular subnet) (hstable : net.Stable)
    (hrefreshed : net.Refreshed) {r : R} {it : RipRoute} (hit : it ∈ (net.node r).m_routes)
    (hvalid : it.entry.status = .RIP_VALID) (hgateway : it.entry.is_gateway = true) :
    ∃ i a hdr s j rte, Gateway net r it i a hdr s j rte := by
  obtain ⟨i, a, hdr, s, j, s', hdelivery, hreceive, it', hit', hdest, hevent⟩ :=
    hrefreshed r it hit hvalid hgateway
  obtain ⟨hnodup, hall⟩ := hdelivery.nodup hs hr
  have hpart := (hs.addressed r).part_eq hit
  -- the packet has changed the event of the entry
  have hchanged : s'.part it.entry.destination ≠ (net.node r).part it.entry.destination := by
    intro heq
    have hmem : it' ∈ s'.part it.entry.destination := mem_part.mpr ⟨hit', hdest⟩
    rw [heq, hpart, List.mem_singleton] at hmem
    exact hevent (by rw [hmem])
  obtain ⟨s₁, hs₁, hsummary⟩ := hstable r i a hdr s j hdelivery
  cases hreceive.symm.trans hs₁
  rw [receive_eq] at hreceive
  split at hreceive
  next =>
    rw [hall] at hreceive
    obtain ⟨hframe, hagrees⟩ := handle_rtes_outcome hdr (hs.addressed r) hnodup hreceive
    have hmem : it.entry.destination ∈ hdr.map RipRte.destination := by
      by_contra hnot
      exact hchanged (hframe _ hnot)
    obtain ⟨rte, hrte, hrdest⟩ := List.mem_map.mp hmem
    have hag := hagrees rte hrte (part_summary hsummary _)
    rw [hrdest] at hag
    obtain ⟨x, hx, hmetric, hsender⟩ := hag.refreshed hchanged
    rw [hpart, List.mem_singleton] at hx
    subst hx
    refine ⟨i, a, hdr, s, j, rte, hdelivery, hrte, hrdest, ?_, hsender⟩
    rcases hr.status r x hit with ⟨-, hlt⟩ | ⟨hinvalid, -⟩
    · rw [← hmetric] at hlt ⊢
      exact rte_metric_lt hlt
    · rw [hvalid] at hinvalid
      cases hinvalid
  next =>
    cases hreceive
    exact absurd rfl hchanged

section Settled

variable (hs : net.Static subnet) (hr : net.Regular subnet) (hstable : net.Stable)
  (hrefreshed : net.Refreshed)
include hs hr

theorem metric_eq {r : R} {it : RipRoute} (hit : it ∈ (net.node r).m_routes) :
    net.metric r it.entry.destination = it.entry.metric := by
  unfold metric
  split
  next x hfind =>
    have hx := List.find?_some hfind
    rw [decide_eq_true_eq] at hx
    rw [(hs.addressed r).ext_destination (List.mem_of_find?_eq_some hfind) hit hx.1]
  next hnone =>
    have hnot := List.find?_eq_none.mp hnone it hit
    rcases hr.status r it hit with ⟨hvalid, -⟩ | ⟨-, hmetric⟩
    · simp [hvalid] at hnot
    · exact hmetric.symm

omit hs in
theorem metric_le (r : R) (destination : Ipv4Address × Ipv4Mask) :
    net.metric r destination ≤ link_down := by
  unfold metric
  split
  next x hfind =>
    rcases hr.status r x (List.mem_of_find?_eq_some hfind) with ⟨-, hlt⟩ | ⟨-, heq⟩
    · exact hlt.le
    · exact heq.le
  next => exact le_rfl

omit hs hr in
theorem entry_of_metric_lt {r : R} {destination : Ipv4Address × Ipv4Mask}
    (h : net.metric r destination < link_down) :
    ∃ it ∈ (net.node r).m_routes, it.entry.destination = destination ∧ it.entry.status = .RIP_VALID ∧
      it.entry.metric = net.metric r destination := by
  unfold metric at h ⊢
  split at h
  next x hfind =>
    have hx := List.find?_some hfind
    rw [decide_eq_true_eq] at hx
    exact ⟨x, List.mem_of_find?_eq_some hfind, hx.1, hx.2, rfl⟩
  next => exact absurd h (lt_irrefl _)

theorem direct_metric {r : R} {it : RipRoute} (hit : it ∈ (net.node r).m_routes)
    (hvalid : it.entry.status = .RIP_VALID) (hgateway : it.entry.is_gateway = false) :
    it.entry.metric = 1 := by
  obtain ⟨hconn, -⟩ := hr.direct r it hit hvalid hgateway
  obtain ⟨x, hx, hdest, -, hmetric⟩ := hs.connected_entry r _ hconn
  rw [← (hs.addressed r).ext_destination hx hit hdest]
  exact hmetric

include hstable hrefreshed

theorem one_le_metric {r : R} {it : RipRoute} (hit : it ∈ (net.node r).m_routes) :
    1 ≤ it.entry.metric := by
  rcases hr.status r it hit with ⟨hvalid, -⟩ | ⟨-, hmetric⟩
  · cases hgateway : it.entry.is_gateway with
    | false => exact (direct_metric hs hr hit hvalid hgateway).ge
    | true =>
      obtain ⟨i, a, hdr, s, j, rte, hg⟩ := gateway_of_refreshed hs hr hstable hrefreshed hit hvalid hgateway
      have hone := hs.one_le_metric r i
      rw [hg.metric]
      omega
  · rw [hmetric]
    decide

theorem handles_delivery {r s : R} {i j : ℕ} {a : Ipv4Address} {hdr : List RipRte}
    (h : net.Delivery r i a hdr s j) :
    handles (net.attributes r) (net.node r) hdr a i = true := by
  obtain ⟨hne, hactive, -, l, -, hj⟩ := h.linked
  have hown : (net.node r).is_own_address a = false := by
    obtain ⟨x, hx, rfl⟩ := hs.bound s a j h.packet.1
    by_contra htrue
    simp only [is_own_address, Bool.not_eq_false, List.any_eq_true, beq_iff_eq] at htrue
    obtain ⟨y, hy, z, hz, heq⟩ := htrue
    obtain ⟨k, hk⟩ := List.mem_iff_getElem?.mp hy
    have hzk : z ∈ (net.node r).addresses k := by simpa [addresses, hk] using hz
    exact hne (hs.address_unique s j l hj x hx r k z hzk heq.symm).1.symm
  have hwell : hdr.all well_formed = true := by
    refine List.all_eq_true.mpr ?_
    intro rte hrte
    obtain ⟨it, hit, had⟩ := h.entry hs hrte
    obtain ⟨hp, -, hm⟩ := advertise_spec had
    have hone := one_le_metric hs hr hstable hrefreshed hit
    have hle : it.entry.metric ≤ link_down := by
      rcases hr.status s it hit with ⟨-, hlt⟩ | ⟨-, heq⟩
      · exact hlt.le
      · exact heq.le
    obtain ⟨-, hlocal, hbroadcast, hmulticast⟩ := hr.is_prefix s it hit
    have hbounds : rte.route_metric ≠ 0 ∧ ¬ rte.route_metric > link_down := by
      rcases hm with hm | hm <;> rw [hm] <;> simp only [link_down] at * <;> omega
    rw [RipRoutingTableEntry.destination, ← hp] at hlocal hbroadcast hmulticast
    simp [well_formed, hbounds, hlocal, hbroadcast, hmulticast]
  simp [handles, hown, hactive, (h.nodup hs hr).2, hwell]

theorem metric_le_of_heard {r s : R} {i j : ℕ} {a : Ipv4Address} {hdr : List RipRte}
    (h : net.Delivery r i a hdr s j) {rte : RipRte} (hrte : rte ∈ hdr) :
    net.metric r rte.destination ≤ rte.route_metric + (net.attributes r).interface_metric i := by
  obtain ⟨s', hs', hsummary⟩ := hstable r i a hdr s j h
  obtain ⟨hnodup, hall⟩ := h.nodup hs hr
  rw [receive_eq, if_pos (handles_delivery hs hr hstable hrefreshed h), hall] at hs'
  obtain ⟨-, hagrees⟩ := handle_rtes_outcome hdr (hs.addressed r) hnodup hs'
  have hag := hagrees rte hrte (part_summary hsummary _)
  have hmin : (net.attributes r).rte_metric rte i ≤
      rte.route_metric + (net.attributes r).interface_metric i := min_le_left _ _
  cases hpart : (net.node r).part rte.destination with
  | nil =>
    rw [hag.unknown hpart] at hmin
    exact (metric_le hr r _).trans hmin
  | cons it rest =>
    have hmem : it ∈ (net.node r).part rte.destination := by rw [hpart]; exact List.mem_cons_self
    obtain ⟨hit, hdest⟩ := mem_part.mp hmem
    rw [← hdest, metric_eq hs hr hit]
    exact (hag.le it hmem).trans hmin

omit hstable hrefreshed in
theorem Gateway.next {r : R} {it : RipRoute} {i j : ℕ} {a : Ipv4Address} {hdr : List RipRte} {s : R}
    {rte : RipRte} (hg : Gateway net r it i a hdr s j rte) (hit : it ∈ (net.node r).m_routes)
    (hvalid : it.entry.status = .RIP_VALID) :
    rte.route_metric = net.metric s it.entry.destination ∧
      ∃ x ∈ (net.node s).addresses j, x.local_addr = it.entry.gateway := by
  obtain ⟨x, hx, had⟩ := hg.delivery.entry hs hg.mem
  obtain ⟨-, -, hmetric⟩ := advertise_spec had
  have hdest : x.entry.destination = it.entry.destination := by
    rw [← hg.destination, advertise_destination had (hr.is_prefix s x hx).1]
  constructor
  · rw [← hdest, metric_eq hs hr hx]
    rcases hmetric with hdown | hmetric
    · -- the network is not poisoned, since the entry is valid
      have hsum := hg.metric
      rcases hr.status r it hit with ⟨-, hlt⟩ | ⟨hinvalid, -⟩
      · omega
      · rw [hvalid] at hinvalid
        cases hinvalid
    · exact hmetric
  · rw [← hg.gateway]
    exact hs.bound s a j hg.delivery.packet.1

theorem metric_le_of_advertised {r s : R} {i j : ℕ} (hlinked : net.Linked r i s j) {it : RipRoute}
    (hit : it ∈ (net.node s).m_routes)
    (hother : ∀ x ∈ (net.node s).addresses j, (network x).1 ≠ it.entry.dest_network)
    (hhorizon : (net.attributes s).m_splitHorizonStrategy = .NO_SPLIT_HORIZON ∨
      it.entry.interface ≠ j) :
    net.metric r it.entry.destination ≤ it.entry.metric + (net.attributes r).interface_metric i := by
  have hglobal : it.entry.dest_network ≠ Ipv4Address.get_loopback := by
    intro heq
    have hlocal : it.entry.dest_network.is_localhost = false := (hr.is_prefix s it hit).2.1
    rw [heq] at hlocal
    cases hlocal
  obtain ⟨rte, had, hmetric⟩ := advertise_eq hglobal hother hhorizon
  have hlink := hlinked
  obtain ⟨-, -, hactive, l, -, hj⟩ := hlink
  obtain ⟨a, hsocket⟩ := hs.socket s j l hj hactive
  obtain ⟨hdr, hhdr, hrte⟩ := (mem_route_update (hs.small s)).mpr ⟨it, hit, had⟩
  have hle := metric_le_of_heard hs hr hstable hrefreshed (.of_packet hlinked hsocket hhdr) hrte
  rwa [advertise_destination had (hr.is_prefix s it hit).1, hmetric] at hle

theorem relaxed (destination : Ipv4Address × Ipv4Mask) :
    Relaxed net.Hop fun r => net.metric r destination := by
  rintro r w s ⟨i, j, hlinked, rfl⟩
  beta_reduce
  by_cases hlt : net.metric s destination < link_down
  · obtain ⟨it, hit, rfl, hvalid, hmetric⟩ := entry_of_metric_lt hlt
    have hlink := hlinked
    obtain ⟨-, hri, -, l, hi, hj⟩ := hlink
    have hpos := one_le_metric hs hr hstable hrefreshed hit
    rw [← hmetric]
    by_cases hsame : it.entry.dest_network = (subnet l).1
    · -- the network of the link itself is not told, but the receiver is connected to it
      have hdest : it.entry.destination = subnet l :=
        Prod.ext hsame (hr.one_mask s j l hj it hit hsame)
      obtain ⟨x, hx, hxdest, -, hone⟩ := hs.connected_entry r _ (hs.connected r i l hi)
      rw [hdest, ← hxdest, metric_eq hs hr hx, hone]
      omega
    have hother : ∀ x ∈ (net.node s).addresses j, (network x).1 ≠ it.entry.dest_network := by
      intro x hx
      rw [hs.subnet_eq s j l hj x hx]
      exact Ne.symm hsame
    by_cases hinterface : it.entry.interface = j
    · -- the route uses the link: the gateway tells the network to both routers
      cases hgateway : it.entry.is_gateway with
      | false =>
        obtain ⟨-, x, hx, hxdest⟩ := hr.direct s it hit hvalid hgateway
        rw [hinterface] at hx
        exact absurd (congrArg Prod.fst hxdest) (hother x hx)
      | true =>
        obtain ⟨k, a, hdr, t, m, rte, hg⟩ :=
          gateway_of_refreshed hs hr hstable hrefreshed hit hvalid hgateway
        obtain ⟨hrte, x, hx, hxaddr⟩ := hg.next hs hr hit hvalid
        have hsum := hg.metric
        -- the gateway is on the link of the entry
        obtain ⟨t', m', hlinked', y, hy, hyaddr⟩ := hr.learnt s it hit hvalid hgateway
        rw [hinterface] at hlinked'
        obtain ⟨-, -, hactive, l', hj', hm'⟩ := hlinked'
        rw [hj] at hj'
        cases hj'
        obtain ⟨rfl, rfl⟩ := hs.address_unique t' m' l hm' y hy t m x hx (hyaddr.trans hxaddr.symm)
        by_cases hrt : r = t'
        · subst hrt
          omega
        · have hle := metric_le_of_heard hs hr hstable hrefreshed
            (.of_packet ⟨hrt, hri, hactive, l, hi, hm'⟩ hg.delivery.packet.1 hg.delivery.packet.2) hg.mem
          rw [hg.destination] at hle
          omega
    · have hle := metric_le_of_advertised hs hr hstable hrefreshed hlinked hit hother (.inr hinterface)
      omega
  · have hle := metric_le hr r destination
    omega

theorem attained (destination : Ipv4Address × Ipv4Mask) :
    Attained net.Hop (net.Connected destination) (net.NextHop destination)
      (fun r => net.metric r destination) 1 link_down := by
  intro r hlt
  beta_reduce at hlt ⊢
  obtain ⟨it, hit, rfl, hvalid, hmetric⟩ := entry_of_metric_lt hlt
  cases hgateway : it.entry.is_gateway with
  | false =>
    refine .inl ⟨(hr.direct r it hit hvalid hgateway).1, ?_⟩
    rw [← hmetric]
    exact direct_metric hs hr hit hvalid hgateway
  | true =>
    obtain ⟨i, a, hdr, s, j, rte, hg⟩ := gateway_of_refreshed hs hr hstable hrefreshed hit hvalid hgateway
    obtain ⟨hrte, haddr⟩ := hg.next hs hr hit hvalid
    refine .inr ⟨s, (net.attributes r).interface_metric i, ?_, ⟨i, j, hg.delivery.linked, rfl⟩,
      hs.one_le_metric r i, ?_⟩
    · exact ⟨it, hit, rfl, hvalid, hgateway, i, j, hg.delivery.linked, haddr⟩
    · rw [← hmetric, hg.metric, hrte, Nat.add_comm]

omit hr hstable hrefreshed in
theorem next_hop_unique {destination : Ipv4Address × Ipv4Mask} {r s s' : R}
    (h : net.NextHop destination r s) (h' : net.NextHop destination r s') : s = s' := by
  obtain ⟨it, hit, hdest, -, -, i, j, ⟨-, -, -, l, -, hj⟩, x, hx, haddr⟩ := h
  obtain ⟨it', hit', hdest', -, -, i', j', -, y, hy, haddr'⟩ := h'
  have heq := (hs.addressed r).ext_destination hit hit' (hdest.trans hdest'.symm)
  rw [← heq] at haddr'
  exact (hs.address_unique s j l hj x hx s' j' y hy (haddr.trans haddr'.symm)).1

end Settled

/-- Tables that full updates leave alone hold the distances, and following the gateways reaches a
connected router. -/
theorem shortest_paths (hs : net.Static subnet) (hr : net.Regular subnet) (hstable : net.Stable)
    (hrefreshed : net.Refreshed) : net.ShortestPaths := by
  intro r destination
  have hattained := attained hs hr hstable hrefreshed destination
  have htarget : ∀ r, net.Connected destination r → net.metric r destination ≤ 1 := by
    intro r hconn
    obtain ⟨it, hit, rfl, -, hone⟩ := hs.connected_entry r destination hconn
    rw [metric_eq hs hr hit, hone]
  refine ⟨?_, ?_, fun s s' => next_hop_unique hs⟩
  · have heq := eq_min_distance (relaxed hs hr hstable hrefreshed destination) htarget
      (fun r => metric_le hr r destination) hattained r
    exact_mod_cast heq
  · rintro ⟨it, hit, rfl, hvalid⟩
    have hlt : net.metric r it.entry.destination < link_down := by
      rw [metric_eq hs hr hit]
      rcases hr.status r it hit with ⟨-, hlt⟩ | ⟨hinvalid, -⟩
      · exact hlt
      · rw [hvalid] at hinvalid
        cases hinvalid
    obtain ⟨l, -, hchain, -, hnodup, hlast, -⟩ := hattained.follow hlt
    exact ⟨l, hchain, hnodup, hlast⟩

/-- A network is at odds with the distances, although full updates leave its tables alone. -/
def Contradicts (net : RipNetwork R Link) : Prop :=
  (∃ subnet, net.Static subnet) ∧ net.Stable ∧ net.Refreshed ∧ ¬ net.ShortestPaths

namespace Line

def direct (ptr : ℕ) (network : Ipv4Address) (mask : Ipv4Mask) (interface : ℕ) : RipRoute :=
  { ptr := ptr, entry := ⟨network, mask, 0, interface, 0, 1, .RIP_VALID, false⟩ }

def learnt (ptr : ℕ) (network : Ipv4Address) (mask : Ipv4Mask) (gateway : Ipv4Address) (interface metric : ℕ)
    (status : RipStatus) : RipRoute :=
  { ptr := ptr, entry := ⟨network, mask, gateway, interface, 0, metric, status, false⟩, event := some ptr }

def interfaces (stub : Ipv4InterfaceAddress) : Fin 3 → List RipInterface
  | 0 => [{ addresses := [.of 0x0a000001 0xffffff00] }, { addresses := [.of 0x0a000101 0xffffff00] }]
  | 1 => [{ addresses := [.of 0x0a000002 0xffffff00] }, { addresses := [stub] }]
  | 2 => [{ addresses := [.of 0x0a000102 0xffffff00] }]

def sockets : Fin 3 → List (Ipv4Address × ℕ)
  | 0 => [(0x0a000001, 0), (0x0a000101, 1)]
  | 1 => [(0x0a000002, 0)]
  | 2 => [(0x0a000102, 0)]

/-- The ends of the two links, 10.0.0.0/24 and 10.0.1.0/24. -/
def link : Fin 3 → ℕ → Option Bool
  | 0, 0 | 1, 0 => some false
  | 0, 1 | 2, 0 => some true
  | _, _ => none

def subnetOf : Bool → Ipv4Address × Ipv4Mask
  | false => (0x0a000000, 0xffffff00)
  | true => (0x0a000100, 0xffffff00)

/-- Router 0 between the routers 1 and 2; router 1 has a network of its own. -/
def line (stub : Ipv4InterfaceAddress) (routes : Fin 3 → List RipRoute) : RipNetwork (Fin 3) Bool where
  node r :=
    { m_routes := routes r
      m_ipv4 := interfaces stub r
      m_unicastSocketList := sockets r
      m_initialized := true
      simulator := ⟨0, (routes r).filterMap fun it =>
        it.event.map fun uid => ⟨uid, 100000000000, .InvalidateRoute it.ptr⟩, 100⟩
      next_ptr := 100 }
  attributes _ := {}
  link := link

/-- The pairs of interfaces that hear each other. -/
def ends : List (Fin 3 × ℕ × Fin 3 × ℕ) := [(0, 0, 1, 0), (1, 0, 0, 0), (0, 1, 2, 0), (2, 0, 0, 1)]

variable {stub : Ipv4InterfaceAddress} {routes : Fin 3 → List RipRoute}

theorem link_eq_some {r : Fin 3} {i : ℕ} {l : Bool} (h : link r i = some l) :
    (r, i, l) ∈ [((0 : Fin 3), 0, false), (1, 0, false), (0, 1, true), (2, 0, true)] := by
  fin_cases r <;> match i, h with
    | 0, h => simp_all [link]
    | 1, h => simp_all [link]

theorem linked_iff {r s : Fin 3} {i j : ℕ} :
    (line stub routes).Linked r i s j ↔ (r, i, s, j) ∈ ends := by
  constructor
  · rintro ⟨hne, -, -, l, hi, hj⟩
    have hi' := link_eq_some hi
    have hj' := link_eq_some hj
    simp only [List.mem_cons, Prod.mk.injEq, List.not_mem_nil, or_false] at hi' hj'
    rcases hi' with ⟨rfl, rfl, rfl⟩ | ⟨rfl, rfl, rfl⟩ | ⟨rfl, rfl, rfl⟩ | ⟨rfl, rfl, rfl⟩ <;>
      simp [ends] at hj' ⊢ <;> grind
  · intro h
    simp only [ends, List.mem_cons, Prod.mk.injEq, List.not_mem_nil, or_false] at h
    rcases h with ⟨rfl, rfl, rfl, rfl⟩ | ⟨rfl, rfl, rfl, rfl⟩ | ⟨rfl, rfl, rfl, rfl⟩ |
        ⟨rfl, rfl, rfl, rfl⟩
    · exact ⟨by decide, rfl, rfl, false, rfl, rfl⟩
    · exact ⟨by decide, rfl, rfl, false, rfl, rfl⟩
    · exact ⟨by decide, rfl, rfl, true, rfl, rfl⟩
    · exact ⟨by decide, rfl, rfl, true, rfl, rfl⟩

def packets (net : RipNetwork (Fin 3) Bool) (e : Fin 3 × ℕ × Fin 3 × ℕ) :
    List ((Ipv4Address × ℕ) × List RipRte) :=
  (((net.node e.2.2.1).do_send_route_update {} true).1).filter fun x => x.1.2 = e.2.2.2

theorem mem_packets {r s : Fin 3} {i j : ℕ} {a : Ipv4Address} {hdr : List RipRte} :
    (line stub routes).Delivery r i a hdr s j ↔
      (r, i, s, j) ∈ ends ∧ ((a, j), hdr) ∈ packets (line stub routes) (r, i, s, j) := by
  constructor
  · rintro ⟨hlinked, hsent⟩
    exact ⟨linked_iff.mp hlinked, List.mem_filter.mpr ⟨hsent, decide_eq_true rfl⟩⟩
  · rintro ⟨hends, hpacket⟩
    exact ⟨linked_iff.mpr hends, (List.mem_filter.mp hpacket).1⟩

/-- The deliveries that change nothing, and those that give a route a new event. -/
def quiet (net : RipNetwork (Fin 3) Bool) : Bool :=
  ends.all fun e => (packets net e).all fun x =>
    ((net.node e.1).receive {} x.2 x.1.1 e.2.1).any fun s' =>
      s'.m_routes.map RipRoute.summary = (net.node e.1).m_routes.map RipRoute.summary

def confirmed (net : RipNetwork (Fin 3) Bool) (r : Fin 3) (it : RipRoute) : Bool :=
  ends.any fun e => e.1 = r && (packets net e).any fun x =>
    ((net.node r).receive {} x.2 x.1.1 e.2.1).any fun s' => s'.m_routes.any fun it' =>
      it'.entry.destination = it.entry.destination && it'.event ≠ it.event

theorem stable (h : quiet (line stub routes) = true) : (line stub routes).Stable := by
  intro r i a hdr s j hdelivery
  obtain ⟨hends, hpacket⟩ := mem_packets.mp hdelivery
  have hany := List.all_eq_true.mp (List.all_eq_true.mp h _ hends) _ hpacket
  obtain ⟨s', hs', hsummary⟩ := (Option.any_eq_true _ _).mp hany
  exact ⟨s', hs', of_decide_eq_true hsummary⟩

theorem refreshed (h : ∀ r, ∀ it ∈ routes r, it.entry.status = .RIP_VALID → it.entry.is_gateway = true →
    confirmed (line stub routes) r it = true) : (line stub routes).Refreshed := by
  intro r it hit hvalid hgateway
  obtain ⟨⟨r', i, s, j⟩, hends, hconfirmed⟩ := List.any_eq_true.mp (h r it hit hvalid hgateway)
  rw [Bool.and_eq_true, decide_eq_true_eq] at hconfirmed
  obtain ⟨rfl, hpackets⟩ := hconfirmed
  obtain ⟨⟨⟨a, k⟩, hdr⟩, hpacket, hany⟩ := List.any_eq_true.mp hpackets
  have hk : k = j := of_decide_eq_true (List.mem_filter.mp hpacket).2
  subst hk
  obtain ⟨s', hs', hroutes⟩ := (Option.any_eq_true _ _).mp hany
  obtain ⟨it', hit', hevent⟩ := List.any_eq_true.mp hroutes
  rw [Bool.and_eq_true, decide_eq_true_eq, decide_eq_true_eq] at hevent
  exact ⟨i, a, hdr, s, k, s', mem_packets.mpr ⟨hends, hpacket⟩, hs', it', hit', hevent⟩

def networks (stub : Ipv4InterfaceAddress) (r : Fin 3) : List (Ipv4Address × Ipv4Mask) :=
  (interfaces stub r).flatMap fun x => x.addresses.map network

theorem connected_iff {r : Fin 3} {destination : Ipv4Address × Ipv4Mask} (hglobal : stub.scope = .global) :
    (line stub routes).Connected destination r ↔ destination ∈ networks stub r := by
  have hall : ∀ x ∈ interfaces stub r, x.up = true ∧ x.loopback = false ∧
      ∀ a ∈ x.addresses, a.scope = .global := by
    fin_cases r <;> simp [interfaces, hglobal] <;> decide
  constructor
  · rintro ⟨x, hx, -, -, a, ha, -, hdest⟩
    exact List.mem_flatMap.mpr ⟨x, hx, List.mem_map.mpr ⟨a, ha, hdest⟩⟩
  · intro h
    obtain ⟨x, hx, hmem⟩ := List.mem_flatMap.mp h
    obtain ⟨a, ha, hdest⟩ := List.mem_map.mp hmem
    obtain ⟨hup, hloopback, hscope⟩ := hall x hx
    exact ⟨x, hx, hup, hloopback, a, ha, hscope a ha, hdest⟩

/-- The address plan does not use an address twice, and the tables hold the networks. -/
structure WellFormed (stub : Ipv4InterfaceAddress) (routes : Fin 3 → List RipRoute) : Prop where
  scope : stub.scope = .global
  fresh : stub.local_addr ∉ [(0x0a000001 : Ipv4Address), 0x0a000101, 0x0a000002, 0x0a000102]
  global : (network stub).1 ≠ Ipv4Address.get_loopback
  small : ∀ r, (routes r).length < 255
  allocated : ∀ r, ∀ it ∈ routes r, it.ptr < 100
  distinct : ∀ r, ((routes r).map (·.ptr)).Nodup
  unique : ∀ r, ((routes r).map fun it => it.entry.destination).Nodup
  entries : ∀ r, ∀ d ∈ networks stub r, ∃ it ∈ routes r, it.entry.destination = d ∧
    it.entry.status = .RIP_VALID ∧ it.entry.metric = 1

theorem mem_addresses {r : Fin 3} {i : ℕ} {x : Ipv4InterfaceAddress}
    (h : x ∈ ((line stub routes).node r).addresses i) :
    (r, i, x) ∈ [((0 : Fin 3), 0, Ipv4InterfaceAddress.of 0x0a000001 0xffffff00),
      (0, 1, .of 0x0a000101 0xffffff00), (1, 0, .of 0x0a000002 0xffffff00), (1, 1, stub),
      (2, 0, .of 0x0a000102 0xffffff00)] := by
  fin_cases r
  · match i, h with
    | 0, h => simpa [Rip.addresses, line, interfaces] using h
    | 1, h => simpa [Rip.addresses, line, interfaces] using h
    | i + 2, h => simp [Rip.addresses, line, interfaces] at h
  · match i, h with
    | 0, h => simpa [Rip.addresses, line, interfaces] using h
    | 1, h => simpa [Rip.addresses, line, interfaces] using h
    | i + 2, h => simp [Rip.addresses, line, interfaces] at h
  · match i, h with
    | 0, h => simpa [Rip.addresses, line, interfaces] using h
    | i + 1, h => simp [Rip.addresses, line, interfaces] at h

theorem static (h : WellFormed stub routes) : (line stub routes).Static subnetOf := by
  obtain ⟨hfresh₁, hfresh₂, hfresh₃, hfresh₄⟩ : stub.local_addr ≠ 0x0a000001 ∧
      stub.local_addr ≠ 0x0a000101 ∧ stub.local_addr ≠ 0x0a000002 ∧ stub.local_addr ≠ 0x0a000102 := by
    simpa using h.fresh
  constructor
  · intro r i l hl x hx
    have hmem := link_eq_some hl
    have hx' := mem_addresses hx
    simp only [List.mem_cons, Prod.mk.injEq, List.not_mem_nil, or_false] at hmem hx'
    rcases hmem with ⟨rfl, rfl, rfl⟩ | ⟨rfl, rfl, rfl⟩ | ⟨rfl, rfl, rfl⟩ | ⟨rfl, rfl, rfl⟩ <;>
      simp at hx' <;> subst hx' <;> decide
  · intro r i l hl
    rw [connected_iff h.scope]
    have hmem := link_eq_some hl
    simp only [List.mem_cons, Prod.mk.injEq, List.not_mem_nil, or_false] at hmem
    rcases hmem with ⟨rfl, rfl, rfl⟩ | ⟨rfl, rfl, rfl⟩ | ⟨rfl, rfl, rfl⟩ | ⟨rfl, rfl, rfl⟩
    · exact List.mem_flatMap.mpr ⟨{ addresses := [.of 0x0a000001 0xffffff00] }, by simp [interfaces], by decide⟩
    · exact List.mem_flatMap.mpr ⟨{ addresses := [.of 0x0a000002 0xffffff00] }, by simp [interfaces], by decide⟩
    · exact List.mem_flatMap.mpr ⟨{ addresses := [.of 0x0a000101 0xffffff00] }, by simp [interfaces], by decide⟩
    · exact List.mem_flatMap.mpr ⟨{ addresses := [.of 0x0a000102 0xffffff00] }, by simp [interfaces], by decide⟩
  · intro r i l hl _
    have hmem := link_eq_some hl
    simp only [List.mem_cons, Prod.mk.injEq, List.not_mem_nil, or_false] at hmem
    rcases hmem with ⟨rfl, rfl, rfl⟩ | ⟨rfl, rfl, rfl⟩ | ⟨rfl, rfl, rfl⟩ | ⟨rfl, rfl, rfl⟩ <;>
      simp [line, sockets]
  · intro r a i hsocket
    fin_cases r <;> simp [line, sockets] at hsocket
    · rcases hsocket with ⟨rfl, rfl⟩ | ⟨rfl, rfl⟩ <;>
        simp [Rip.addresses, line, interfaces, Ipv4InterfaceAddress.of]
    · obtain ⟨rfl, rfl⟩ := hsocket
      simp [Rip.addresses, line, interfaces, Ipv4InterfaceAddress.of]
    · obtain ⟨rfl, rfl⟩ := hsocket
      simp [Rip.addresses, line, interfaces, Ipv4InterfaceAddress.of]
  · intro r i l hl x hx s j y hy heq
    have hmem := link_eq_some hl
    have hx' := mem_addresses hx
    have hy' := mem_addresses hy
    simp only [List.mem_cons, Prod.mk.injEq, List.not_mem_nil, or_false] at hmem hx' hy'
    rcases hmem with ⟨rfl, rfl, rfl⟩ | ⟨rfl, rfl, rfl⟩ | ⟨rfl, rfl, rfl⟩ | ⟨rfl, rfl, rfl⟩ <;>
      simp at hx' <;> subst hx' <;>
      rcases hy' with ⟨rfl, rfl, rfl⟩ | ⟨rfl, rfl, rfl⟩ | ⟨rfl, rfl, rfl⟩ | ⟨rfl, rfl, rfl⟩ |
        ⟨rfl, rfl, rfl⟩ <;>
      simp_all [Ipv4InterfaceAddress.of]
  · intro r d hconn
    rw [connected_iff h.scope] at hconn
    have hglobal := h.global
    fin_cases r <;> simp [networks, interfaces] at hconn
    · rcases hconn with rfl | rfl <;> decide
    · rcases hconn with rfl | rfl
      · decide
      · exact hglobal
    · rw [hconn]
      decide
  · intro r i
    exact le_rfl
  · exact h.small
  · exact fun r => ⟨h.allocated r, h.distinct r, h.unique r⟩
  · intro r d hconn
    exact h.entries r d ((connected_iff h.scope).mp hconn)

def home : Ipv4InterfaceAddress := .of 0x0a000201 0xffffff00

/-- The tables that the routers settle to; `own` is the network of router 1. -/
def settled (own : Ipv4Address × Ipv4Mask) : Fin 3 → List RipRoute
  | 0 => [direct 1 0x0a000000 0xffffff00 0, direct 2 0x0a000100 0xffffff00 1,
      learnt 3 own.1 own.2 0x0a000002 0 2 .RIP_VALID]
  | 1 => [direct 1 0x0a000000 0xffffff00 0, direct 2 own.1 own.2 1,
      learnt 3 0x0a000100 0xffffff00 0x0a000001 0 2 .RIP_VALID]
  | 2 => [direct 1 0x0a000100 0xffffff00 0, learnt 2 0x0a000000 0xffffff00 0x0a000101 0 2 .RIP_VALID,
      learnt 3 own.1 own.2 0x0a000101 0 3 .RIP_VALID]

theorem regular {stub : Ipv4InterfaceAddress} {routes : Fin 3 → List RipRoute} (hscope : stub.scope = .global)
    (hstatus : ∀ r, ∀ it ∈ routes r, it.entry.status = .RIP_VALID ∧ it.entry.metric < link_down ∨
      it.entry.status = .RIP_INVALID ∧ it.entry.metric = link_down)
    (hdirect : ∀ r, ∀ it ∈ routes r, it.entry.status = .RIP_VALID → it.entry.is_gateway = false →
      it.entry.destination ∈ networks stub r ∧
        ∃ x ∈ ((line stub routes).node r).addresses it.entry.interface, network x = it.entry.destination)
    (hlearnt : ∀ r, ∀ it ∈ routes r, it.entry.status = .RIP_VALID → it.entry.is_gateway = true →
      ∃ e ∈ ends, e.1 = r ∧ e.2.1 = it.entry.interface ∧
        ∃ x ∈ ((line stub routes).node e.2.2.1).addresses e.2.2.2, x.local_addr = it.entry.gateway)
    (hpre : ∀ r, ∀ it ∈ routes r, IsPrefix it.entry.destination)
    (hmask : ∀ r, ∀ it ∈ routes r, it.entry.dest_network_mask = 0xffffff00) :
    (line stub routes).Regular subnetOf := by
  refine ⟨hstatus, ?_, ?_, hpre, ?_⟩
  · intro r it hit hvalid hgateway
    obtain ⟨hmem, hx⟩ := hdirect r it hit hvalid hgateway
    exact ⟨(connected_iff hscope).mpr hmem, hx⟩
  · intro r it hit hvalid hgateway
    obtain ⟨⟨r', i, s, j⟩, hends, rfl, rfl, hx⟩ := hlearnt r it hit hvalid hgateway
    exact ⟨s, j, linked_iff.mpr hends, hx⟩
  · intro r i l _ it hit _
    rw [hmask r it hit]
    cases l <;> rfl

/-- The tables of routers that do not hear of the network of router 1. -/
def unheard (own : Ipv4Address × Ipv4Mask) : Fin 3 → List RipRoute
  | 0 => [direct 1 0x0a000000 0xffffff00 0, direct 2 0x0a000100 0xffffff00 1]
  | 1 => settled own 1
  | 2 => [direct 1 0x0a000100 0xffffff00 0, learnt 2 0x0a000000 0xffffff00 0x0a000101 0 2 .RIP_VALID]

/-- The tables with an entry for 10.9.0.0/16, a network of no router, in router 0 and in router 1. -/
def phantom (entry entry' : RipRoute) : Fin 3 → List RipRoute
  | 0 => settled (network home) 0 ++ [entry]
  | 1 => settled (network home) 1 ++ [entry']
  | 2 => settled (network home) 2

/-- The tables where router 0 has the network of router 1 on the wrong interface. -/
def misplaced : Fin 3 → List RipRoute
  | 0 => unheard (network home) 0 ++
      [learnt 3 (network home).1 (network home).2 0x0a000002 1 2 .RIP_VALID]
  | 1 => settled (network home) 1
  | 2 => unheard (network home) 2

def tidy (stub : Ipv4InterfaceAddress) (routes : Fin 3 → List RipRoute) : Bool :=
  stub.scope = .global &&
    !(([0x0a000001, 0x0a000101, 0x0a000002, 0x0a000102] : List Ipv4Address).contains stub.local_addr) &&
    (network stub).1 ≠ Ipv4Address.get_loopback &&
    decide (∀ r, (routes r).length < 255 ∧ (∀ it ∈ routes r, it.ptr < 100) ∧
      ((routes r).map (·.ptr)).Nodup ∧ ((routes r).map fun it => it.entry.destination).Nodup ∧
      (networks stub r).all fun d => (routes r).any fun it =>
        it.entry.destination = d ∧ it.entry.status = .RIP_VALID ∧ it.entry.metric = 1) &&
    decide (∀ r, ∀ it ∈ routes r, it.entry.status = .RIP_VALID → it.entry.is_gateway = true →
      confirmed (line stub routes) r it = true) &&
    quiet (line stub routes)

theorem tidy_spec (h : tidy stub routes = true) :
    WellFormed stub routes ∧ (line stub routes).Stable ∧ (line stub routes).Refreshed := by
  simp only [tidy, Bool.and_eq_true, decide_eq_true_eq, Bool.not_eq_true', List.contains_eq_mem,
    decide_eq_false_iff_not, List.all_eq_true, List.any_eq_true] at h
  obtain ⟨⟨⟨⟨⟨hscope, hfresh⟩, hglobal⟩, htables⟩, hconfirmed⟩, hquiet⟩ := h
  exact ⟨⟨hscope, hfresh, hglobal, fun r => (htables r).1, fun r => (htables r).2.1,
    fun r => (htables r).2.2.1, fun r => (htables r).2.2.2.1, fun r => (htables r).2.2.2.2⟩,
    stable hquiet, refreshed hconfirmed⟩

theorem contradicts (h : tidy stub routes = true) (hnot : ¬ (line stub routes).ShortestPaths) :
    Contradicts (line stub routes) := by
  obtain ⟨hwell, hstable, hrefreshed⟩ := tidy_spec h
  exact ⟨⟨subnetOf, static hwell⟩, hstable, hrefreshed, hnot⟩

theorem contradicts_of_phantom (r : Fin 3) (destination : Ipv4Address × Ipv4Mask)
    (h : tidy stub routes = true)
    (hvalid : ∃ it ∈ routes r, it.entry.destination = destination ∧ it.entry.status = .RIP_VALID)
    (hnone : ∀ s, destination ∉ networks stub s) : Contradicts (line stub routes) := by
  refine contradicts h ?_
  intro hpaths
  obtain ⟨l, -, -, hlast⟩ := (hpaths r destination).2.1 hvalid
  exact hnone _ ((connected_iff (tidy_spec h).1.scope).mp hlast)

theorem contradicts_of_path (r : Fin 3) (destination : Ipv4Address × Ipv4Mask) {c : ℕ}
    (h : tidy stub routes = true) (hmetric : (line stub routes).metric r destination = link_down)
    (hpath : Path (line stub routes).Hop ((line stub routes).Connected destination) r c)
    (hc : 1 + c < link_down) : Contradicts (line stub routes) := by
  refine contradicts h ?_
  intro hpaths
  have heq := (hpaths r destination).1
  rw [hmetric] at heq
  have hle : ((link_down : ℕ) : ℕ∞) ≤ ((1 + c : ℕ) : ℕ∞) := by
    calc ((link_down : ℕ) : ℕ∞)
        = min (link_down : ℕ∞) (1 + distance _ _ r) := heq
      _ ≤ 1 + distance _ _ r := min_le_right _ _
      _ ≤ 1 + (c : ℕ∞) := by gcongr; exact distance_le hpath
      _ = ((1 + c : ℕ) : ℕ∞) := by push_cast; rfl
  exact absurd (by exact_mod_cast hle) (not_le.mpr hc)

theorem path_cons {r s : Fin 3} {i j c : ℕ} {destination : Ipv4Address × Ipv4Mask}
    (hends : (r, i, s, j) ∈ ends)
    (hrest : Path (line stub routes).Hop ((line stub routes).Connected destination) s c) :
    Path (line stub routes).Hop ((line stub routes).Connected destination) r (1 + c) :=
  .cons ⟨i, j, linked_iff.mpr hends, rfl⟩ hrest

end Line

/-- The tables that the line settles to. -/
theorem line_shortest_paths : (Line.line Line.home (Line.settled (network Line.home))).ShortestPaths := by
  obtain ⟨hwell, hstable, hrefreshed⟩ :=
    Line.tidy_spec (show Line.tidy Line.home (Line.settled (network Line.home)) = true by decide +kernel)
  refine shortest_paths (Line.static hwell) ?_ hstable hrefreshed
  refine Line.regular rfl ?_ ?_ ?_ ?_ ?_
  all_goals decide +kernel

/-- Six networks whose tables full updates leave alone, and do not hold the distances: a network
whose address is also that of the link, with another mask; a multicast network, for which all of an
update is ignored; two routers that confirm to each other a valid entry of metric 16; a directly
connected entry for a network that the router is not in; an invalid entry with a metric below 16; and
an entry on an interface that its gateway is not on. -/
theorem not_shortest_paths :
    Contradicts (Line.line (.of 0x0a090001 0xff000000) (Line.unheard (0x0a000000, 0xff000000))) ∧
      Contradicts (Line.line (.of 0xe0000001 0xffffff00) (Line.unheard (0xe0000000, 0xffffff00))) ∧
      Contradicts (Line.line Line.home (Line.phantom
        (Line.learnt 4 0x0a090000 0xffff0000 0x0a000002 0 16 .RIP_VALID)
        (Line.learnt 4 0x0a090000 0xffff0000 0x0a000001 0 16 .RIP_VALID))) ∧
      Contradicts (Line.line Line.home (Line.phantom (Line.direct 4 0x0a090000 0xffff0000 1)
        (Line.learnt 4 0x0a090000 0xffff0000 0x0a000001 0 2 .RIP_VALID))) ∧
      Contradicts (Line.line Line.home (Line.phantom
        (Line.learnt 4 0x0a090000 0xffff0000 0x0a000109 1 3 .RIP_INVALID)
        (Line.learnt 4 0x0a090000 0xffff0000 0x0a000001 0 4 .RIP_VALID))) ∧
      Contradicts (Line.line Line.home Line.misplaced) := by
  refine ⟨?_, ?_, ?_, ?_, ?_, ?_⟩
  · refine Line.contradicts_of_path 0 (0x0a000000, 0xff000000) (by decide +kernel) (by decide +kernel)
      (Line.path_cons (show (0, 0, 1, 0) ∈ Line.ends by decide) (.nil ?_)) (by decide)
    exact (Line.connected_iff rfl).mpr (by decide)
  · refine Line.contradicts_of_path 0 (0xe0000000, 0xffffff00) (by decide +kernel) (by decide +kernel)
      (Line.path_cons (show (0, 0, 1, 0) ∈ Line.ends by decide) (.nil ?_)) (by decide)
    exact (Line.connected_iff rfl).mpr (by decide)
  · exact Line.contradicts_of_phantom 0 (0x0a090000, 0xffff0000) (by decide +kernel) (by decide +kernel)
      (by decide +kernel)
  · exact Line.contradicts_of_phantom 0 (0x0a090000, 0xffff0000) (by decide +kernel) (by decide +kernel)
      (by decide +kernel)
  · exact Line.contradicts_of_phantom 1 (0x0a090000, 0xffff0000) (by decide +kernel) (by decide +kernel)
      (by decide +kernel)
  · refine Line.contradicts_of_path 2 (network Line.home) (by decide +kernel) (by decide +kernel)
      (Line.path_cons (show (2, 0, 0, 1) ∈ Line.ends by decide)
        (Line.path_cons (show (0, 0, 1, 0) ∈ Line.ends by decide) (.nil ?_))) (by decide)
    exact (Line.connected_iff rfl).mpr (by decide)

end Ns3.RipNetwork
