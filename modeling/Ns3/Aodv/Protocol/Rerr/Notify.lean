import Ns3.Aodv.Packet.RerrCapacity
import Ns3.Aodv.Route.Search
import Ns3.Aodv.Route.Keep

namespace Ns3.Aodv

namespace RoutingTable

variable {t : RoutingTable} {now : Time} {e : RoutingTableEntry}

theorem stays_invalidate {lifetime : Time} (hlifetime : 0 ≤ lifetime) (hflag : e.flag = .valid) :
    Stays now (e.invalidate now lifetime) := by
  left
  rw [RoutingTableEntry.invalidate, if_neg (by rw [hflag]; decide)]
  exact le_of_le_of_eq hlifetime (add_sub_cancel_right lifetime now).symm

/-- A second purge at the same time changes nothing: a broken link is remembered for a while. -/
theorem settled_purge (hlifetime : 0 ≤ t.bad_link_lifetime) : (t.purge now).Settled now := by
  intro d e he
  rw [getElem?_purge, Option.bind_eq_some_iff] at he
  obtain ⟨e₀, -, hpurge⟩ := he
  unfold purge_entry at hpurge
  split at hpurge
  next hover =>
    split at hpurge
    next => cases hpurge
    next hvalid => exact Option.some.inj hpurge ▸ stays_invalidate hlifetime hvalid
    next hsearch => exact .inr (Option.some.inj hpurge ▸ hsearch)
  next hlive => exact .inl (Option.some.inj hpurge ▸ not_lt.mp hlive)

end RoutingTable

namespace RoutingProtocol

variable {s s' : RoutingProtocol} {h : RerrHeader} {precursors : List Ipv4Address} {p : Ipv4Address}

theorem hasRoute_of_settled (hsettled : s.routing_table.Settled s.now) :
    s.HasRoute p ↔ ∃ e, s.routing_table.entries[p]? = some e ∧ e.flag = .valid :=
  ⟨fun ⟨e, he, hvalid, _⟩ => ⟨e, he, hvalid⟩, fun ⟨e, he, hvalid⟩ => ⟨e, he, hvalid, hsettled.fresh p e he hvalid⟩⟩

theorem lookup_valid_route_of_settled (hsettled : s.routing_table.Settled s.now) (p : Ipv4Address) :
    s.lookup_valid_route p = (s.routing_table.entries[p]?.filter (·.flag = .valid), s) := by
  rw [lookup_valid_route, lookup_route_of_settled hsettled]

/-- The route error to `iface`, as its socket is given it. -/
def rerr_to (h : RerrHeader) (iface : Ipv4InterfaceAddress) : Effect :=
  .send { source := iface.local_addr, destination := broadcast_destination iface, ttl := 1, message := .rerr h }

theorem precursor_interfaces_of_settled (hsettled : s.routing_table.Settled s.now)
    (precursors : List Ipv4Address) (ifaces : List Ipv4InterfaceAddress) :
    ∃ l, s.precursor_interfaces precursors ifaces = (l, s) ∧ ∀ i, i ∈ l ↔ i ∈ ifaces ∨
      ∃ p ∈ precursors, ∃ e, s.routing_table.entries[p]? = some e ∧ e.flag = .valid ∧ e.iface = i := by
  induction precursors generalizing ifaces with
  | nil => exact ⟨ifaces, rfl, by simp⟩
  | cons precursor rest ih =>
    rw [precursor_interfaces, lookup_valid_route_of_settled hsettled]
    cases hfound : s.routing_table.entries[precursor]?.filter (·.flag = .valid) with
    | none =>
      obtain ⟨l, hl, hmem⟩ := ih ifaces
      refine ⟨l, hl, fun i => (hmem i).trans (or_congr_right ?_)⟩
      have hnone : ∀ e, s.routing_table.entries[precursor]? = some e → e.flag ≠ .valid := by
        simpa [Option.filter_eq_none_iff] using hfound
      simp only [List.mem_cons, exists_eq_or_imp]
      rw [or_iff_right]
      rintro ⟨e, he, hvalid, -⟩
      exact hnone e he hvalid
    | some toPrecursor =>
      obtain ⟨hentry, hvalid⟩ := Option.filter_eq_some_iff.mp hfound
      simp only [decide_eq_true_eq] at hvalid
      obtain ⟨l, hl, hmem⟩ := ih (if toPrecursor.iface ∈ ifaces then ifaces else ifaces ++ [toPrecursor.iface])
      refine ⟨l, hl, fun i => (hmem i).trans ?_⟩
      have hfirst : (∃ e, s.routing_table.entries[precursor]? = some e ∧ e.flag = .valid ∧ e.iface = i) ↔
          toPrecursor.iface = i := by simp [hentry, hvalid]
      simp only [List.mem_cons, exists_eq_or_imp]
      rw [hfirst, ← or_assoc]
      refine or_congr_left ?_
      split
      next hmem => exact ⟨.inl, fun hi => hi.elim id (· ▸ hmem)⟩
      next => simp [eq_comm]

/-- The loop over the interfaces gives each its copy, if all have sockets. -/
theorem foldlM_send_rerr (ifaces : List Ipv4InterfaceAddress) :
    (ifaces.foldlM (fun s iface => (s.find_socket_with_interface_address iface).map fun source =>
        s.send_to source (broadcast_destination iface) 1 (.rerr h)) s) =
      if ∀ iface ∈ ifaces, iface ∈ s.socket_addresses then
        some { s with log := s.log ++ ifaces.map (rerr_to h) }
      else none := by
  induction ifaces generalizing s with
  | nil => simp
  | cons iface rest ih =>
    rw [List.foldlM_cons, find_socket_with_interface_address]
    by_cases hsocket : iface ∈ s.socket_addresses
    · rw [if_pos hsocket]
      refine (ih (s := s.send_to iface.local_addr (broadcast_destination iface) 1 (.rerr h))).trans ?_
      simp [hsocket, send_to, emit, rerr_to]
    · rw [if_neg hsocket, if_neg (by simp [hsocket])]
      rfl

/-- What `SendRerrMessage` leaves behind, with the effects it has. Only a message for one
precursor is counted. -/
structure Notified (s : RoutingProtocol) (h : RerrHeader) (precursors : List Ipv4Address)
    (s' : RoutingProtocol) (l : List Effect) : Prop where
  state : s' = { s with
    log := s.log ++ l, rerr_count := if precursors.length = 1 ∧ l ≠ [] then s.rerr_count + 1 else s.rerr_count }
  effects : ∀ e ∈ l, ∃ source destination, e = .send ⟨source, destination, 1, .rerr h⟩
  one : precursors.length ≤ 1 → l.length ≤ 1
  sends : l ≠ [] ↔ s.rerr_count ≠ s.attrs.rerr_rate_limit ∧ ∃ p ∈ precursors, s.HasRoute p

/-- The valid routes to the precursors use the sockets of the node. -/
def HasSockets (s : RoutingProtocol) (precursors : List Ipv4Address) : Prop :=
  ∀ p ∈ precursors, ∀ e, s.routing_table.entries[p]? = some e → e.flag = .valid → e.iface ∈ s.socket_addresses

/-- The call returns unless it is to use a socket that is missing. -/
def Notifies (s : RoutingProtocol) (h : RerrHeader) (precursors : List Ipv4Address) : Prop :=
  (s.rerr_count = s.attrs.rerr_rate_limit ∨ s.HasSockets precursors) ∧
      (∃ s' l, s.send_rerr_message h precursors = some s' ∧ Notified s h precursors s' l) ∨
    ¬ (s.rerr_count = s.attrs.rerr_rate_limit ∨ s.HasSockets precursors) ∧
      s.send_rerr_message h precursors = none

theorem notified_of_silent
    (hsilent : ¬ (s.rerr_count ≠ s.attrs.rerr_rate_limit ∧ ∃ p ∈ precursors, s.HasRoute p)) :
    Notified s h precursors s [] :=
  ⟨by simp, by simp, by simp, iff_of_false (fun hne => hne rfl) hsilent⟩

theorem notifies_at_limit (hlimit : s.rerr_count = s.attrs.rerr_rate_limit) : Notifies s h precursors := by
  refine .inl ⟨.inl hlimit, s, [], ?_, notified_of_silent (by simp [hlimit])⟩
  unfold send_rerr_message
  split
  · rfl
  · rw [if_pos hlimit]

theorem notifies_one (hsettled : s.routing_table.Settled s.now)
    (hlimit : s.rerr_count ≠ s.attrs.rerr_rate_limit) : Notifies s h [p] := by
  unfold Notifies
  rw [send_rerr_message, if_neg hlimit, if_pos rfl, lookup_valid_route_of_settled hsettled]
  cases hfound : s.routing_table.entries[p]?.filter (·.flag = .valid) with
  | none =>
    have hnone : ∀ e, s.routing_table.entries[p]? = some e → e.flag ≠ .valid := by
      simpa [Option.filter_eq_none_iff] using hfound
    refine .inl ⟨.inr ?_, s, [], rfl, notified_of_silent ?_⟩
    · intro q hq e he hvalid
      obtain rfl := List.mem_singleton.mp hq
      exact absurd hvalid (hnone e he)
    · rintro ⟨-, q, hq, e, he, hvalid, -⟩
      obtain rfl := List.mem_singleton.mp hq
      exact hnone e he hvalid
  | some toPrecursor =>
    obtain ⟨hentry, hvalid⟩ := Option.filter_eq_some_iff.mp hfound
    simp only [decide_eq_true_eq] at hvalid
    have hroute : s.HasRoute p := (hasRoute_of_settled hsettled).mpr ⟨toPrecursor, hentry, hvalid⟩
    have hsockets : s.HasSockets [p] ↔ toPrecursor.iface ∈ s.socket_addresses := by
      simp [HasSockets, hentry, hvalid]
    simp only [find_socket_with_interface_address]
    rw [hsockets]
    by_cases hsocket : toPrecursor.iface ∈ s.socket_addresses
    · rw [if_pos hsocket]
      refine .inl ⟨.inr hsocket, _,
        [.send { source := toPrecursor.iface.local_addr, destination := p, ttl := 1, message := .rerr h }], rfl, ?_⟩
      exact ⟨by simp [send_to, emit], by simp, by simp, by simp [hlimit, hroute]⟩
    · rw [if_neg hsocket]
      exact .inr ⟨by simp [hlimit, hsocket], rfl⟩

theorem notifies_many (hsettled : s.routing_table.Settled s.now)
    (hlimit : s.rerr_count ≠ s.attrs.rerr_rate_limit) (hmany : 1 < precursors.length) :
    Notifies s h precursors := by
  obtain ⟨ifaces, hifaces, hmem⟩ := precursor_interfaces_of_settled hsettled precursors []
  have hsend : s.send_rerr_message h precursors =
      if ∀ iface ∈ ifaces, iface ∈ s.socket_addresses then
        some { s with log := s.log ++ ifaces.map (rerr_to h) }
      else none := by
    match precursors with
    | p :: q :: rest =>
      rw [send_rerr_message, if_neg hlimit, if_neg (by simp), hifaces]
      exact foldlM_send_rerr ifaces
  have hsockets : s.HasSockets precursors ↔ ∀ iface ∈ ifaces, iface ∈ s.socket_addresses := by
    constructor
    · intro hsockets iface hiface
      obtain ⟨r, hr, e, he, hvalid, rfl⟩ := ((hmem iface).mp hiface).resolve_left List.not_mem_nil
      exact hsockets r hr e he hvalid
    · intro hall r hr e he hvalid
      exact hall e.iface ((hmem e.iface).mpr (.inr ⟨r, hr, e, he, hvalid, rfl⟩))
  have hsends : ifaces ≠ [] ↔ ∃ p ∈ precursors, s.HasRoute p := by
    constructor
    · intro hne
      obtain ⟨iface, hiface⟩ := List.exists_mem_of_ne_nil ifaces hne
      obtain ⟨r, hr, e, he, hvalid, -⟩ := ((hmem iface).mp hiface).resolve_left List.not_mem_nil
      exact ⟨r, hr, (hasRoute_of_settled hsettled).mpr ⟨e, he, hvalid⟩⟩
    · rintro ⟨r, hr, hroute⟩
      obtain ⟨e, he, hvalid⟩ := (hasRoute_of_settled hsettled).mp hroute
      exact List.ne_nil_of_mem ((hmem e.iface).mpr (.inr ⟨r, hr, e, he, hvalid, rfl⟩))
  unfold Notifies
  rw [hsend, hsockets]
  by_cases hall : ∀ iface ∈ ifaces, iface ∈ s.socket_addresses
  · rw [if_pos hall]
    refine .inl ⟨.inr hall, _, ifaces.map (rerr_to h), rfl, ?_⟩
    refine ⟨by simp [hmany.ne'], ?_, fun hle => absurd hmany (not_lt.mpr hle), ?_⟩
    · intro e he
      obtain ⟨iface, -, rfl⟩ := List.mem_map.mp he
      exact ⟨_, _, rfl⟩
    · rw [ne_eq, List.map_eq_nil_iff, ← ne_eq, hsends]
      exact (and_iff_right hlimit).symm
  · rw [if_neg hall]
    exact .inr ⟨not_or.mpr ⟨hlimit, hall⟩, rfl⟩

theorem notifies_of_settled (hsettled : s.routing_table.Settled s.now) : Notifies s h precursors := by
  by_cases hlimit : s.rerr_count = s.attrs.rerr_rate_limit
  · exact notifies_at_limit hlimit
  · match precursors with
    | [] => exact .inl ⟨.inr nofun, s, [], rfl, notified_of_silent (by simp)⟩
    | [_] => exact notifies_one hsettled hlimit
    | _ :: _ :: _ => exact notifies_many hsettled hlimit (by simp)

theorem notified_of_send (hsettled : s.routing_table.Settled s.now)
    (hsend : s.send_rerr_message h precursors = some s') : ∃ l, Notified s h precursors s' l := by
  obtain ⟨-, s₁, l, heq, hnotified⟩ | ⟨-, hnone⟩ : Notifies s h precursors := notifies_of_settled hsettled
  · obtain rfl := Option.some.inj (heq.symm.trans hsend)
    exact ⟨l, hnotified⟩
  · rw [hnone] at hsend
    cases hsend

theorem isSome_send_rerr_message (hsettled : s.routing_table.Settled s.now) :
    (s.send_rerr_message h precursors).isSome ↔
      s.rerr_count = s.attrs.rerr_rate_limit ∨ s.HasSockets precursors := by
  obtain ⟨hok, s₁, l, heq, -⟩ | ⟨hnot, hnone⟩ : Notifies s h precursors := notifies_of_settled hsettled
  · simp [heq, hok]
  · simp [hnone, hnot]

end RoutingProtocol

end Ns3.Aodv
