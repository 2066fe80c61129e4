import Ns3.Aodv.Route.Reverse

namespace Ns3.Aodv.RoutingProtocol

open RoutingTable RoutingTableEntry

variable {s s' : RoutingProtocol} {sender receiver : Ipv4Address} {i : NetDevice × Ipv4InterfaceAddress}
  {known e : RoutingTableEntry}

/-- An active route of one hop to `sender` through `dev`, for at least the time `remaining`. -/
structure DirectRoute (now remaining : Time) (sender : Ipv4Address) (dev : NetDevice)
    (e : RoutingTableEntry) : Prop where
  flag : e.flag = .valid
  hops : e.hops = 1
  next_hop : e.get_next_hop = sender
  output_device : e.get_output_device = some dev
  life_time : remaining ≤ e.get_life_time now

/-- What hearing from a neighbour is to make of the entry `known` that a lookup finds for it. -/
structure Refreshed (a : Attributes) (now : Time) (sender : Ipv4Address) (dev : NetDevice)
    (known : Option RoutingTableEntry) (e : RoutingTableEntry) : Prop where
  route : DirectRoute now a.active_route_timeout sender dev e
  not_shorter : ∀ k, known = some k → k.get_life_time now ≤ e.get_life_time now
  valid_seq_no : ∀ k, known = some k → k.valid_seq_no = true → e.valid_seq_no = true

/-- The entry that `UpdateRouteToNeighbor` constructs. -/
def neighbor_entry (s : RoutingProtocol) (sender : Ipv4Address) (i : NetDevice × Ipv4InterfaceAddress)
    (life_time : Time) : RoutingTableEntry :=
  RoutingTableEntry.of s.now i.1 sender false 0 i.2 1 sender life_time

/-- The lifetime of the entry is changed on a local copy that is not written back. -/
def leaves_neighbor (i : NetDevice × Ipv4InterfaceAddress) (toNeighbor : RoutingTableEntry) : Prop :=
  toNeighbor.valid_seq_no = true ∧ toNeighbor.hops = 1 ∧ toNeighbor.get_output_device = some i.1

instance (i : NetDevice × Ipv4InterfaceAddress) (e : RoutingTableEntry) : Decidable (leaves_neighbor i e) :=
  inferInstanceAs (Decidable (_ ∧ _ ∧ _))

theorem directRoute_neighbor_entry {life_time : Time} :
    DirectRoute s.now life_time sender i.1 (stored_entry (s.neighbor_entry sender i life_time)) := by
  refine ⟨by simp [neighbor_entry], by simp [neighbor_entry], by simp [neighbor_entry], by simp [neighbor_entry], ?_⟩
  rw [get_life_time_stored_entry]
  exact (add_sub_cancel_right life_time s.now).ge

theorem DirectRoute.mono {now remaining remaining' : Time} {dev : NetDevice}
    (h : DirectRoute now remaining sender dev e) (hle : remaining' ≤ remaining) :
    DirectRoute now remaining' sender dev e :=
  ⟨h.flag, h.hops, h.next_hop, h.output_device, hle.trans h.life_time⟩

theorem update_route_to_neighbor_entry (hi : s.ipv4.interface_of receiver = some i)
    (h : s.update_route_to_neighbor sender receiver = some s') :
    s'.routing_table.entries[sender]? = some
      (match (s.lookup_route sender).1 with
      | none => stored_entry (s.neighbor_entry sender i s.attrs.active_route_timeout)
      | some k =>
        if leaves_neighbor i k then k
        else stored_entry (s.neighbor_entry sender i (max s.attrs.active_route_timeout (k.get_life_time s.now)))) := by
  unfold update_route_to_neighbor at h
  have hfst := s.lookup_route_fst sender
  rw [hi, Option.map_some] at h
  cases hknown : (s.lookup_route sender).1 with
  | none =>
    rw [hknown] at h hfst
    obtain rfl := Option.some.inj h
    change ((s.lookup_route sender).2.routing_table.add_route s.now _).entries[sender]? = _
    rw [getElem?_add_route, if_pos ⟨rfl, purge_purge_none hfst.symm⟩]
    rfl
  | some k =>
    rw [hknown] at h hfst
    obtain rfl := Option.some.inj h
    by_cases hleave : leaves_neighbor i k
    · dsimp only
      rw [if_pos hleave]
      exact (congrArg (fun s : RoutingProtocol => s.routing_table.entries[sender]?) (if_pos hleave)).trans hfst.symm
    · dsimp only
      rw [if_neg hleave]
      refine (congrArg (fun s : RoutingProtocol => s.routing_table.entries[sender]?) (if_neg hleave)).trans ?_
      change ((s.lookup_route sender).2.routing_table.update _).entries[sender]? = _
      rw [getElem?_update, if_pos ⟨rfl, by simp [← hfst]⟩]
      rfl

theorem refreshed_neighbor_entry {life_time : Time} {known : Option RoutingTableEntry}
    (hactive : s.attrs.active_route_timeout ≤ life_time)
    (hlife : ∀ k, known = some k → k.get_life_time s.now ≤ life_time)
    (hseq : ∀ k, known = some k → k.valid_seq_no = false) :
    Refreshed s.attrs s.now sender i.1 known (stored_entry (s.neighbor_entry sender i life_time)) where
  route := directRoute_neighbor_entry.mono hactive
  not_shorter k hk := (hlife k hk).trans directRoute_neighbor_entry.life_time
  valid_seq_no k hk hvalid := by
    rw [hseq k hk] at hvalid
    cases hvalid

/-- Hearing from a neighbour refreshes its route exactly if there was no entry with a valid
sequence number to refresh, or nothing to do for it. -/
theorem update_route_to_neighbor_refreshes_iff (hi : s.ipv4.interface_of receiver = some i)
    (h : s.update_route_to_neighbor sender receiver = some s') :
    (∃ e, s'.routing_table.entries[sender]? = some e ∧
      Refreshed s.attrs s.now sender i.1 (s.lookup_route sender).1 e) ↔
      ∀ k, (s.lookup_route sender).1 = some k → k.valid_seq_no = true →
        DirectRoute s.now s.attrs.active_route_timeout sender i.1 k := by
  rw [update_route_to_neighbor_entry hi h]
  cases hknown : (s.lookup_route sender).1 with
  | none =>
    constructor
    · rintro - k ⟨⟩
    · intro _
      refine ⟨_, rfl, refreshed_neighbor_entry le_rfl ?_ ?_⟩
      · rintro k ⟨⟩
      · rintro k ⟨⟩
  | some k =>
    dsimp only
    constructor
    · rintro ⟨e, he, hrefreshed⟩ k' hk' hvalid
      obtain rfl := Option.some.inj hk'
      have hseq := hrefreshed.valid_seq_no k rfl hvalid
      have hroute := hrefreshed.route
      obtain rfl := Option.some.inj he
      by_cases hleave : leaves_neighbor i k
      · rwa [if_pos hleave] at hroute
      · rw [if_neg hleave] at hseq
        simp [neighbor_entry] at hseq
    · intro hcond
      refine ⟨_, rfl, ?_⟩
      cases hvalid : k.valid_seq_no with
      | true =>
        have hroute := hcond k rfl hvalid
        rw [if_pos ⟨hvalid, hroute.hops, hroute.output_device⟩]
        exact ⟨hroute, fun _ hk => (Option.some.inj hk) ▸ le_rfl, fun _ hk hv => (Option.some.inj hk) ▸ hv⟩
      | false =>
        have hleave : ¬ leaves_neighbor i k := by
          rintro ⟨htrue, -⟩
          rw [hvalid] at htrue
          cases htrue
        rw [if_neg hleave]
        refine refreshed_neighbor_entry (le_max_left _ _) ?_ ?_
        · rintro _ hk
          obtain rfl := Option.some.inj hk
          exact le_max_right _ _
        · rintro _ hk
          obtain rfl := Option.some.inj hk
          exact hvalid

/-- The messages a neighbour sends that is heard again after a second: a hello message first. -/
def hello : RrepHeader :=
  { dst := Relay.neighbor, dst_seqno := 1, origin := Relay.neighbor, life_time := 2000 }

/-- The relay after the hello message at time 0, one second later. -/
def greeted : Option RoutingProtocol :=
  (Relay.node.bind fun s => s.step 0 (.recv_aodv Relay.iface.local_addr Relay.neighbor 1 (.rrep hello))).map
    fun s => { s with now := milliseconds 1000 }

/-- A route to a neighbour that was not known is created. -/
theorem unknown_neighbor_refreshed : ∃ s s' : RoutingProtocol, Relay.node = some s ∧
    s.update_route_to_neighbor Relay.neighbor Relay.iface.local_addr = some s' ∧
    ∃ e, s'.routing_table.entries[Relay.neighbor]? = some e ∧
      Refreshed s.attrs s.now Relay.neighbor 1 (s.lookup_route Relay.neighbor).1 e := by
  have hrun : (Relay.node.bind fun s => (s.update_route_to_neighbor Relay.neighbor Relay.iface.local_addr).map
      fun s' => (s, s')).any (fun x => decide ((x.1.lookup_route Relay.neighbor).1.isNone ∧
        x.1.ipv4.interface_of Relay.iface.local_addr = some (1, Relay.iface))) = true := by
    decide +kernel
  obtain ⟨⟨s, s'⟩, hx, hfacts⟩ := (Option.any_eq_true _ _).mp hrun
  obtain ⟨s₁, hs, hx⟩ := Option.bind_eq_some_iff.mp hx
  obtain ⟨s₂, hupdate, hx⟩ := Option.map_eq_some_iff.mp hx
  obtain ⟨rfl, rfl⟩ := Prod.mk.inj hx
  obtain ⟨hnone, hi⟩ := of_decide_eq_true hfacts
  refine ⟨_, _, hs, hupdate, (update_route_to_neighbor_refreshes_iff hi hupdate).mpr ?_⟩
  rw [Option.isNone_iff_eq_none.mp hnone]
  rintro k ⟨⟩

/-- Hearing from the neighbour again leaves its route two seconds to live, less than
`ActiveRouteTimeout`. -/
theorem greeted_neighbor_not_refreshed : ∃ s s' : RoutingProtocol, greeted = some s ∧
    s.update_route_to_neighbor Relay.neighbor Relay.iface.local_addr = some s' ∧
    ¬ ∃ e, s'.routing_table.entries[Relay.neighbor]? = some e ∧
      Refreshed s.attrs s.now Relay.neighbor 1 (s.lookup_route Relay.neighbor).1 e := by
  have hrun : (greeted.bind fun s => (s.update_route_to_neighbor Relay.neighbor Relay.iface.local_addr).map
      fun s' => (s, s')).any (fun x => (x.2.routing_table.entries[Relay.neighbor]?).any fun e =>
        decide (e.get_life_time x.1.now < x.1.attrs.active_route_timeout)) = true := by
    decide +kernel
  obtain ⟨⟨s, s'⟩, hx, hfacts⟩ := (Option.any_eq_true _ _).mp hrun
  obtain ⟨s₁, hs, hx⟩ := Option.bind_eq_some_iff.mp hx
  obtain ⟨s₂, hupdate, hx⟩ := Option.map_eq_some_iff.mp hx
  obtain ⟨rfl, rfl⟩ := Prod.mk.inj hx
  obtain ⟨e, he, hshort⟩ := (Option.any_eq_true _ _).mp hfacts
  refine ⟨_, _, hs, hupdate, ?_⟩
  rintro ⟨e', he', hrefreshed⟩
  rw [he] at he'
  obtain rfl := Option.some.inj he'
  exact absurd (of_decide_eq_true hshort) (not_lt.mpr hrefreshed.route.life_time)

end Ns3.Aodv.RoutingProtocol
