import Ns3.Aodv.Protocol.Route
import Ns3.Aodv.RoutingTable.Decay

namespace Ns3.Aodv.RoutingProtocol

open RoutingTable (Decays)
open RoutingTableEntry (DecaysTo SameRoute)

def IsRerr (e : Effect) : Prop := ∃ source destination ttl h, e = .send ⟨source, destination, ttl, .rerr h⟩

/-- The state has lost routes or let them become inactive, sent route errors and
changed its neighbour list, and is otherwise as it was. -/
structure Fades (s s' : RoutingProtocol) : Prop where
  table : Decays s.routing_table s'.routing_table
  log : ∃ l, s'.log = s.log ++ l ∧ ∀ e ∈ l, IsRerr e
  frame : s' = { s with
    routing_table := s'.routing_table, log := s'.log, nb := s'.nb, rerr_count := s'.rerr_count }

namespace Fades

theorem refl (s : RoutingProtocol) : Fades s s := ⟨Decays.refl _, ⟨[], by simp⟩, rfl⟩

theorem trans {s s' s'' : RoutingProtocol} (h : Fades s s') (h' : Fades s' s'') : Fades s s'' := by
  obtain ⟨l, hl, hrerr⟩ := h.log
  obtain ⟨l', hl', hrerr'⟩ := h'.log
  refine ⟨h.table.trans h'.table, ⟨l ++ l', by rw [hl', hl, List.append_assoc], ?_⟩, ?_⟩
  · intro e he
    rcases List.mem_append.mp he with he | he
    · exact hrerr e he
    · exact hrerr' e he
  · rw [h'.frame, h.frame]

theorem of_table {s : RoutingProtocol} {t : RoutingTable} (h : Decays s.routing_table t) :
    Fades s { s with routing_table := t } := ⟨h, ⟨[], by simp⟩, rfl⟩

end Fades

theorem lookup_route_fades (s : RoutingProtocol) (dst : Ipv4Address) : Fades s (s.lookup_route dst).2 :=
  Fades.of_table (s.routing_table.purge_decays s.now)

theorem lookup_valid_route_fades (s : RoutingProtocol) (dst : Ipv4Address) :
    Fades s (s.lookup_valid_route dst).2 :=
  s.lookup_route_fades dst

theorem lookup_route_fst (s : RoutingProtocol) (dst : Ipv4Address) :
    (s.lookup_route dst).1 = (s.lookup_route dst).2.routing_table.entries[dst]? := rfl

theorem get_destination_of_lookup {s : RoutingProtocol} {dst : Ipv4Address} {e : RoutingTableEntry}
    (h : (s.lookup_route dst).1 = some e) : e.get_destination = dst :=
  (s.lookup_route dst).2.routing_table.keyed dst e h

theorem update_fades {s : RoutingProtocol} {dst : Ipv4Address} {e rt : RoutingTableEntry}
    (he : s.routing_table.entries[dst]? = some e) (hdecay : DecaysTo e rt) : Fades s (s.update rt) := by
  have hdst : rt.get_destination = dst := hdecay.1.get_destination.trans (s.routing_table.keyed dst e he)
  exact Fades.of_table (RoutingTable.update_decays (hdst ▸ he) hdecay)

theorem update_route_life_time_fades (s : RoutingProtocol) (addr : Ipv4Address) (lifetime : Time) :
    Fades s (s.update_route_life_time addr lifetime) := by
  unfold update_route_life_time
  have hlookup := s.lookup_route_fades addr
  have hfst := s.lookup_route_fst addr
  cases hrt : (s.lookup_route addr).1 with
  | none => simpa [hrt] using hlookup
  | some rt =>
    simp only [hrt]
    rw [hrt] at hfst
    split
    · exact hlookup.trans (update_fades hfst.symm ⟨⟨rfl, rfl, rfl, rfl⟩, .inl rfl⟩)
    · exact hlookup

theorem send_rerr_fades (s : RoutingProtocol) (source destination : Ipv4Address) (ttl : UInt8)
    (h : RerrHeader) : Fades s (s.send_to source destination ttl (.rerr h)) :=
  ⟨Decays.refl _, ⟨[_], rfl, by simp [IsRerr]⟩, rfl⟩

theorem rerr_count_fades (s : RoutingProtocol) (n : UInt16) : Fades s { s with rerr_count := n } :=
  ⟨Decays.refl _, ⟨[], by simp⟩, rfl⟩

theorem nb_fades (s : RoutingProtocol) (nb : Neighbors) : Fades s { s with nb := nb } :=
  ⟨Decays.refl _, ⟨[], by simp⟩, rfl⟩

theorem foldlM_fades {α : Type} {f : RoutingProtocol → α → Option RoutingProtocol}
    (hf : ∀ s a s', f s a = some s' → Fades s s') {as : List α} {s s' : RoutingProtocol}
    (h : as.foldlM f s = some s') : Fades s s' := by
  induction as generalizing s with
  | nil =>
    cases h
    exact Fades.refl _
  | cons a as ih =>
    rw [List.foldlM_cons] at h
    obtain ⟨s₁, hstep, hrest⟩ := Option.bind_eq_some_iff.mp h
    exact (hf s a s₁ hstep).trans (ih hrest)

theorem foldl_fades {α : Type} {f : RoutingProtocol → α → RoutingProtocol}
    (hf : ∀ s a, Fades s (f s a)) (as : List α) (s : RoutingProtocol) : Fades s (as.foldl f s) := by
  induction as generalizing s with
  | nil => exact Fades.refl s
  | cons a as ih => exact (hf s a).trans (ih (f s a))

theorem precursor_interfaces_fades (s : RoutingProtocol) (precursors : List Ipv4Address)
    (ifaces : List Ipv4InterfaceAddress) : Fades s (s.precursor_interfaces precursors ifaces).2 := by
  induction precursors generalizing s ifaces with
  | nil => exact Fades.refl s
  | cons precursor rest ih =>
    have hlookup := s.lookup_valid_route_fades precursor
    rw [precursor_interfaces]
    split
    next heq => exact (heq ▸ hlookup).trans (ih _ _)
    next heq => exact (heq ▸ hlookup).trans (ih _ _)

theorem send_rerr_message_fades {s s' : RoutingProtocol} {h : RerrHeader} {precursors : List Ipv4Address}
    (hsend : s.send_rerr_message h precursors = some s') : Fades s s' := by
  unfold send_rerr_message at hsend
  split at hsend
  next => cases hsend; exact Fades.refl s
  next precursor rest =>
    split at hsend
    next => cases hsend; exact Fades.refl s
    next =>
      split at hsend
      next =>
        have hlookup := s.lookup_valid_route_fades precursor
        split at hsend
        next heq =>
          obtain ⟨source, _, rfl⟩ := Option.map_eq_some_iff.mp hsend
          exact (heq ▸ hlookup).trans ((send_rerr_fades _ source precursor 1 h).trans (rerr_count_fades _ _))
        next heq =>
          cases hsend
          rw [heq] at hlookup
          exact hlookup
      next =>
        refine (s.precursor_interfaces_fades _ []).trans (foldlM_fades ?_ hsend)
        intro s iface s' hturn
        obtain ⟨source, _, rfl⟩ := Option.map_eq_some_iff.mp hturn
        exact send_rerr_fades s source _ 1 h

theorem add_unreachable_fades {s : RoutingProtocol} {h : RerrHeader} {precursors : List Ipv4Address}
    {dsts : List (Ipv4Address × UInt32)} {r : RerrHeader × List Ipv4Address × RoutingProtocol}
    (hadd : s.add_unreachable h precursors dsts = some r) : Fades s r.2.2 := by
  induction dsts generalizing s h precursors with
  | nil =>
    cases hadd
    exact Fades.refl s
  | cons dst rest ih =>
    rw [add_unreachable] at hadd
    obtain ⟨h', _, hrest⟩ := Option.bind_eq_some_iff.mp hadd
    exact (s.lookup_route_fades dst.1).trans (ih hrest)

theorem send_collected_fades {s s' : RoutingProtocol} {h : RerrHeader} {precursors : List Ipv4Address}
    (hsend : s.send_collected h precursors = some s') : Fades s s' := by
  unfold send_collected at hsend
  split at hsend
  · exact send_rerr_message_fades hsend
  · cases hsend
    exact Fades.refl s

theorem invalidate_routes_with_dst_fades (s : RoutingProtocol)
    (unreachable : Std.ExtTreeMap Ipv4Address UInt32) : Fades s (s.invalidate_routes_with_dst unreachable) :=
  Fades.of_table (s.routing_table.invalidate_routes_with_dst_decays s.now unreachable)

theorem get_list_of_destination_with_next_hop_fades (s : RoutingProtocol) (next_hop : Ipv4Address) :
    Fades s (s.get_list_of_destination_with_next_hop next_hop).2 :=
  Fades.of_table (s.routing_table.purge_decays s.now)

theorem send_rerr_when_breaks_link_to_next_hop_fades {s s' : RoutingProtocol} {next_hop : Ipv4Address}
    (hsend : s.send_rerr_when_breaks_link_to_next_hop next_hop = some s') : Fades s s' := by
  unfold send_rerr_when_breaks_link_to_next_hop at hsend
  have hlookup := s.lookup_route_fades next_hop
  split at hsend
  next heq =>
    cases hsend
    rw [heq] at hlookup
    exact hlookup
  next s₁ toNextHop heq =>
    obtain ⟨h, _, hsend⟩ := Option.bind_eq_some_iff.mp hsend
    obtain ⟨r, hadd, hsend⟩ := Option.bind_eq_some_iff.mp hsend
    obtain ⟨s₂, hcollected, rfl⟩ := Option.map_eq_some_iff.mp hsend
    exact (heq ▸ hlookup).trans <|
      (get_list_of_destination_with_next_hop_fades _ next_hop).trans <|
      (add_unreachable_fades hadd).trans <|
      (send_collected_fades hcollected).trans (invalidate_routes_with_dst_fades _ _)

theorem send_rerr_when_no_route_to_forward_fades {s s' : RoutingProtocol} {dst origin : Ipv4Address}
    {dst_seq_no : UInt32} (hsend : s.send_rerr_when_no_route_to_forward dst dst_seq_no origin = some s') :
    Fades s s' := by
  unfold send_rerr_when_no_route_to_forward at hsend
  split at hsend
  next => cases hsend; exact Fades.refl s
  next =>
    obtain ⟨h, _, hsend⟩ := Option.bind_eq_some_iff.mp hsend
    have hlookup := s.lookup_valid_route_fades origin
    split at hsend
    next heq =>
      obtain ⟨source, _, rfl⟩ := Option.map_eq_some_iff.mp hsend
      exact (heq ▸ hlookup).trans (send_rerr_fades _ source _ 1 h)
    next heq =>
      cases hsend
      exact (heq ▸ hlookup).trans (foldl_fades (fun s (iface : Ipv4InterfaceAddress) => send_rerr_fades s iface.local_addr _ 1 h) _ _)

theorem recv_error_fades {s s' : RoutingProtocol} {h : RerrHeader} {src : Ipv4Address}
    (hrecv : s.recv_error h src = some s') : Fades s s' := by
  unfold recv_error at hrecv
  obtain ⟨r, hadd, hrecv⟩ := Option.bind_eq_some_iff.mp hrecv
  obtain ⟨s₁, hcollected, rfl⟩ := Option.map_eq_some_iff.mp hrecv
  exact (s.get_list_of_destination_with_next_hop_fades src).trans <|
    (add_unreachable_fades hadd).trans <|
    (send_collected_fades hcollected).trans (invalidate_routes_with_dst_fades _ _)

theorem nb_purge_fades {s s' : RoutingProtocol} (hpurge : s.nb_purge = some s') : Fades s s' := by
  obtain ⟨s₁, hloop, rfl⟩ := Option.map_eq_some_iff.mp hpurge
  exact (foldlM_fades (fun _ _ _ => send_rerr_when_breaks_link_to_next_hop_fades) hloop).trans
    (nb_fades s₁ _)

theorem nb_update_fades {s s' : RoutingProtocol} {addr : Ipv4Address} {expire : Time}
    (hupdate : s.nb_update addr expire = some s') : Fades s s' := by
  unfold nb_update at hupdate
  split at hupdate
  next => cases hupdate; exact nb_fades s _
  next => exact (nb_fades s _).trans (nb_purge_fades hupdate)

end Ns3.Aodv.RoutingProtocol
