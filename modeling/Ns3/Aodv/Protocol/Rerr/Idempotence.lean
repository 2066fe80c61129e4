import Ns3.Aodv.Protocol.Rerr.Notify
import Ns3.Aodv.RoutingTable.Decay
import Ns3.Aodv.Route.Reverse

namespace Ns3.Aodv

open RoutingTable RoutingTableEntry

namespace RoutingTable

variable {t t' : RoutingTable} {now : Time} {d src : Ipv4Address} {e : RoutingTableEntry}
  {prec : List Ipv4Address} {dsts : List (Ipv4Address × UInt32)} {unreachable : Std.ExtTreeMap Ipv4Address UInt32}

/-- The precursors that the entries of the destinations have, each once. -/
def collect_precursors (t : RoutingTable) (prec : List Ipv4Address) (dsts : List (Ipv4Address × UInt32)) :
    List Ipv4Address :=
  dsts.foldl (fun prec i => ((t.entries[i.1]?.map (·.precursor_list)).getD []).foldl
    (fun prec id => if id ∈ prec then prec else prec ++ [id]) prec) prec

/-- The entries have the same next hops and precursors. -/
def SameHops (t t' : RoutingTable) : Prop :=
  ∀ d : Ipv4Address, t'.entries[d]?.map (fun e => (e.precursor_list, e.get_next_hop)) =
    t.entries[d]?.map fun e => (e.precursor_list, e.get_next_hop)

theorem SameHops.collect_precursors (h : SameHops t t') :
    t'.collect_precursors prec dsts = t.collect_precursors prec dsts := by
  have hentry : ∀ d : Ipv4Address, t'.entries[d]?.map (·.precursor_list) = t.entries[d]?.map (·.precursor_list) := by
    intro d
    simpa [Function.comp_def] using congrArg (Option.map Prod.fst) (h d)
  simp only [RoutingTable.collect_precursors, hentry]

theorem mem_get_list_of_destination_with_next_hop :
    d ∈ t.get_list_of_destination_with_next_hop src ↔ ∃ e, t.entries[d]? = some e ∧ e.get_next_hop = src := by
  rw [get_list_of_destination_with_next_hop, Std.ExtTreeMap.mem_iff_isSome_getElem?,
    Std.ExtTreeMap.getElem?_filterMap', Option.isSome_iff_exists]
  simp only [Option.bind_eq_some_iff, Option.ite_none_right_eq_some]
  exact ⟨fun ⟨_, e, he, hnext, _⟩ => ⟨e, he, hnext⟩, fun ⟨e, he, hnext⟩ => ⟨e.seq_no, e, he, hnext, rfl⟩⟩

theorem SameHops.mem_list (h : SameHops t t') :
    d ∈ t'.get_list_of_destination_with_next_hop src ↔ d ∈ t.get_list_of_destination_with_next_hop src := by
  have hnext : t'.entries[d]?.map (·.get_next_hop) = t.entries[d]?.map (·.get_next_hop) := by
    simpa [Function.comp_def] using congrArg (Option.map Prod.snd) (h d)
  rw [mem_get_list_of_destination_with_next_hop, mem_get_list_of_destination_with_next_hop]
  rw [← Option.map_eq_some_iff (f := RoutingTableEntry.get_next_hop), ← Option.map_eq_some_iff, hnext]

section Invalidated

theorem getElem?_invalidate_of_settled (hsettled : t.Settled now) :
    (t.invalidate_routes_with_dst now unreachable).entries[d]? = t.entries[d]?.map fun e =>
      if d ∈ unreachable ∧ e.flag = .valid then e.invalidate now t.bad_link_lifetime else e := by
  rw [getElem?_invalidate_routes_with_dst, hsettled.purge]

theorem sameHops_invalidate (hsettled : t.Settled now) :
    SameHops t (t.invalidate_routes_with_dst now unreachable) := by
  intro d
  rw [getElem?_invalidate_of_settled hsettled, Option.map_map]
  congr 1
  funext e
  simp only [Function.comp_apply, RoutingTableEntry.invalidate]
  split
  · split <;> rfl
  · rfl

theorem settled_invalidate (hlifetime : 0 ≤ t.bad_link_lifetime) (hsettled : t.Settled now) :
    (t.invalidate_routes_with_dst now unreachable).Settled now := by
  intro d e he
  rw [getElem?_invalidate_of_settled hsettled, Option.map_eq_some_iff] at he
  obtain ⟨e₀, he₀, rfl⟩ := he
  split
  next hbroken => exact stays_invalidate hlifetime hbroken.2
  next => exact hsettled d e₀ he₀

theorem valid_of_invalidate (hsettled : t.Settled now) :
    (t.invalidate_routes_with_dst now unreachable).entries[d]? = some e ∧ e.flag = .valid ↔
      (t.entries[d]? = some e ∧ e.flag = .valid) ∧ d ∉ unreachable := by
  rw [getElem?_invalidate_of_settled hsettled, Option.map_eq_some_iff]
  constructor
  · rintro ⟨⟨e₀, he₀, rfl⟩, hvalid⟩
    split at hvalid
    next hbroken =>
      rw [invalidate_eq hbroken.2] at hvalid
      cases hvalid
    next hother =>
      rw [if_neg hother]
      exact ⟨⟨he₀, hvalid⟩, fun hd => hother ⟨hd, hvalid⟩⟩
  · rintro ⟨⟨he, hvalid⟩, hd⟩
    exact ⟨⟨e, he, if_neg fun hbroken => hd hbroken.1⟩, hvalid⟩

theorem invalidate_again (hlifetime : 0 ≤ t.bad_link_lifetime) (hsettled : t.Settled now) :
    (t.invalidate_routes_with_dst now unreachable).invalidate_routes_with_dst now unreachable =
      t.invalidate_routes_with_dst now unreachable := by
  refine RoutingTable.ext rfl (Std.ExtTreeMap.ext_getElem? fun d => ?_)
  rw [getElem?_invalidate_of_settled (settled_invalidate hlifetime hsettled)]
  cases he : (t.invalidate_routes_with_dst now unreachable).entries[d]? with
  | none => rfl
  | some e =>
    rw [Option.map_some, if_neg]
    rintro ⟨hd, hvalid⟩
    exact ((valid_of_invalidate hsettled).mp ⟨he, hvalid⟩).2 hd

end Invalidated

end RoutingTable

namespace RoutingProtocol

variable {s s₁ : RoutingProtocol} {h : RerrHeader} {src p : Ipv4Address} {precursors : List Ipv4Address}
  {dsts : List (Ipv4Address × UInt32)}

/-- The destinations of the error that have an entry through `src`, active or not. -/
def affected (s : RoutingProtocol) (h : RerrHeader) (src : Ipv4Address) : Std.ExtTreeMap Ipv4Address UInt32 :=
  h.unreachable.filter fun dst _ =>
    dst ∈ (s.routing_table.purge s.now).get_list_of_destination_with_next_hop src

/-- The precursors of the affected entries. -/
def error_precursors (s : RoutingProtocol) (h : RerrHeader) (src : Ipv4Address) : List Ipv4Address :=
  (s.routing_table.purge s.now).collect_precursors [] (s.affected h src).toList

def purged (s : RoutingProtocol) : RoutingProtocol := { s with routing_table := s.routing_table.purge s.now }

theorem settled_purged (hlifetime : 0 ≤ s.routing_table.bad_link_lifetime) :
    s.purged.routing_table.Settled s.purged.now :=
  settled_purge hlifetime

theorem hasRoute_purged : s.purged.HasRoute p ↔ s.HasRoute p := hasRoute_lookup_route p

theorem entry_of_affected {d : Ipv4Address} (hd : d ∈ s.affected h src) :
    ∃ e, (s.routing_table.purge s.now).entries[d]? = some e ∧ e.get_next_hop = src := by
  obtain ⟨_, hlisted⟩ := Std.ExtTreeMap.mem_filter.mp hd
  rw [Std.ExtTreeMap.getKey_eq] at hlisted
  exact mem_get_list_of_destination_with_next_hop.mp (of_decide_eq_true hlisted)

theorem add_unreachable_of_settled {P : List Ipv4Address} {D : List (Ipv4Address × UInt32)} (hsettled : s.routing_table.Settled s.now) :
    s.add_unreachable h P D =
      (D.foldlM (fun (h : RerrHeader) p => h.add_un_destination p.1 p.2) h).map
        (·, s.routing_table.collect_precursors P D, s) := by
  induction D generalizing h P with
  | nil => rfl
  | cons i rest ih =>
    rw [add_unreachable, List.foldlM_cons]
    cases hadd : h.add_un_destination i.1 i.2 with
    | none => rfl
    | some h' =>
      simp only [Option.bind_some, lookup_route_of_settled hsettled]
      rw [ih]
      cases hentry : s.routing_table.entries[i.1]? <;>
        simp [collect_precursors, hentry, get_precursors, RoutingTableEntry.default, RoutingTableEntry.of]

theorem recv_error_eq (hlifetime : 0 ≤ s.routing_table.bad_link_lifetime) :
    s.recv_error h src =
      if (s.affected h src).size ≤ 255 then
        (s.purged.send_rerr_message { h with unreachable := s.affected h src } (s.error_precursors h src)).map
          (·.invalidate_routes_with_dst (s.affected h src))
      else none := by
  have hfold := RerrHeader.foldlM_add_un_destination (h := { h with unreachable := ∅ })
    (l := (s.affected h src).toList) (by simp)
  rw [Destinations.enter_toList] at hfold
  have hadd := add_unreachable_of_settled (h := { h with unreachable := ∅ }) (P := [])
    (D := (s.affected h src).toList) (settled_purged hlifetime)
  rw [hfold] at hadd
  have hrecv : s.recv_error h src =
      (s.purged.add_unreachable { h with unreachable := ∅ } [] (s.affected h src).toList).bind fun r =>
        (send_collected r.2.2 r.1 r.2.1).map (·.invalidate_routes_with_dst (s.affected h src)) := rfl
  rw [hrecv, hadd]
  by_cases hsize : (s.affected h src).size ≤ 255
  · rw [if_pos hsize, if_pos hsize, Option.map_some, Option.bind_some]
    congr 1
    rw [send_collected]
    by_cases hempty : (s.affected h src).size = 0
    · have hnone : s.purged.routing_table.collect_precursors [] (s.affected h src).toList = [] := by
        rw [Std.ExtTreeMap.eq_empty_iff_size_eq_zero.mpr hempty]
        rfl
      have herror : s.error_precursors h src = [] := hnone
      rw [if_neg fun hne => (RerrHeader.get_dest_count_ne_zero hsize).mp hne hempty, herror]
      rfl
    · rw [if_pos ((RerrHeader.get_dest_count_ne_zero hsize).mpr hempty)]
      rfl
  · rw [if_neg hsize, if_neg hsize]
    rfl

/-- What the handling of an error leaves: the errors it sends are about all the affected
destinations, and the routes to these are broken. -/
structure Handled (s : RoutingProtocol) (h : RerrHeader) (src : Ipv4Address) (s₁ : RoutingProtocol)
    (l : List Effect) : Prop where
  notified : ∃ s', Notified s.purged { h with unreachable := s.affected h src } (s.error_precursors h src) s' l ∧
    s₁ = s'.invalidate_routes_with_dst (s.affected h src)
  sockets : s.rerr_count = s.attrs.rerr_rate_limit ∨ s.purged.HasSockets (s.error_precursors h src)
  size : (s.affected h src).size ≤ 255

theorem handled_of_recv_error (hlifetime : 0 ≤ s.routing_table.bad_link_lifetime)
    (hrecv : s.recv_error h src = some s₁) : ∃ l, Handled s h src s₁ l := by
  rw [recv_error_eq hlifetime] at hrecv
  split at hrecv
  next hsize =>
    obtain ⟨s', hsend, rfl⟩ := Option.map_eq_some_iff.mp hrecv
    obtain ⟨l, hnotified⟩ := notified_of_send (settled_purged hlifetime) hsend
    have hsockets := (isSome_send_rerr_message (settled_purged hlifetime)).mp (Option.isSome_of_eq_some hsend)
    exact ⟨l, ⟨s', hnotified, rfl⟩, hsockets, hsize⟩
  next => cases hrecv

theorem recv_error_of_sockets {n : Ipv4Address} (hlifetime : 0 ≤ s.routing_table.bad_link_lifetime)
    (hsockets : s.rerr_count = s.attrs.rerr_rate_limit ∨ s.purged.HasSockets (s.error_precursors h n))
    (hsize : (s.affected h n).size ≤ 255) : ∃ s₁, s.recv_error h n = some s₁ := by
  rw [recv_error_eq hlifetime, if_pos hsize]
  obtain ⟨s', hsend⟩ := Option.isSome_iff_exists.mp ((isSome_send_rerr_message (settled_purged hlifetime)).mpr hsockets)
  exact ⟨_, by rw [hsend]; rfl⟩

namespace Handled

variable {l : List Effect}

theorem state (hhandled : Handled s h src s₁ l) : s₁ = { s with
    routing_table := (s.routing_table.purge s.now).invalidate_routes_with_dst s.now (s.affected h src)
    log := s.log ++ l
    rerr_count := if (s.error_precursors h src).length = 1 ∧ l ≠ [] then s.rerr_count + 1 else s.rerr_count } := by
  obtain ⟨s', hnotified, rfl⟩ := hhandled.notified
  rw [hnotified.state]
  rfl

theorem sends (hhandled : Handled s h src s₁ l) :
    l ≠ [] ↔ s.rerr_count ≠ s.attrs.rerr_rate_limit ∧ ∃ p ∈ s.error_precursors h src, s.HasRoute p := by
  obtain ⟨s', hnotified, -⟩ := hhandled.notified
  refine hnotified.sends.trans (and_congr_right fun _ => exists_congr fun p => and_congr_right fun _ => ?_)
  exact hasRoute_purged

section Again

variable (hlifetime : 0 ≤ s.routing_table.bad_link_lifetime) (hhandled : Handled s h src s₁ l)
include hlifetime hhandled

theorem settled : s₁.routing_table.Settled s₁.now := by
  rw [hhandled.state]
  exact settled_invalidate hlifetime (settled_purge hlifetime)

theorem purged_eq : s₁.routing_table.purge s₁.now = s₁.routing_table := (hhandled.settled hlifetime).purge

theorem sameHops : SameHops (s.routing_table.purge s.now) (s₁.routing_table.purge s₁.now) := by
  rw [hhandled.purged_eq hlifetime, hhandled.state]
  exact sameHops_invalidate (settled_purge hlifetime)

theorem affected_eq : s₁.affected h src = s.affected h src := by
  have hmem : ∀ d : Ipv4Address, d ∈ (s₁.routing_table.purge s₁.now).get_list_of_destination_with_next_hop src ↔
      d ∈ (s.routing_table.purge s.now).get_list_of_destination_with_next_hop src :=
    fun d => (hhandled.sameHops hlifetime).mem_list
  simp only [affected, hmem]

theorem error_precursors_eq : s₁.error_precursors h src = s.error_precursors h src := by
  rw [error_precursors, hhandled.affected_eq hlifetime, (hhandled.sameHops hlifetime).collect_precursors]
  rfl

theorem valid_iff {e : RoutingTableEntry} : s₁.routing_table.entries[p]? = some e ∧ e.flag = .valid ↔
    ((s.routing_table.purge s.now).entries[p]? = some e ∧ e.flag = .valid) ∧ p ∉ s.affected h src := by
  rw [hhandled.state]
  exact valid_of_invalidate (settled_purge hlifetime)

theorem hasRoute_iff : s₁.HasRoute p ↔ s.HasRoute p ∧ p ∉ s.affected h src := by
  rw [hasRoute_of_settled (hhandled.settled hlifetime), ← hasRoute_purged,
    hasRoute_of_settled (settled_purged hlifetime), ← exists_and_right]
  exact exists_congr fun e => hhandled.valid_iff hlifetime

/-- The error can be handled again: no other routes are used than the first time. -/
theorem again : ∃ s₂ l₂, s₁.recv_error h src = some s₂ ∧ Handled s₁ h src s₂ l₂ ∧
    s₂.routing_table = s₁.routing_table := by
  have hlifetime₁ : 0 ≤ s₁.routing_table.bad_link_lifetime := by
    rw [hhandled.state]
    exact hlifetime
  have hsame : s₁.purged = s₁ := by rw [purged, hhandled.purged_eq hlifetime]
  obtain ⟨s₂, hrecv⟩ := recv_error_of_sockets (h := h) (n := src) hlifetime₁
    (by
      rw [hsame, hhandled.error_precursors_eq hlifetime]
      rcases hhandled.sockets with hlimit | hsockets
      · left
        have hsilent : l = [] := by_contra fun hne => (hhandled.sends.mp hne).1 hlimit
        rw [hhandled.state, hsilent]
        simpa using hlimit
      · right
        intro p hp e he hvalid
        have hbefore := ((hhandled.valid_iff hlifetime).mp ⟨he, hvalid⟩).1
        have hiface := hsockets p hp e hbefore.1 hbefore.2
        rw [hhandled.state]
        exact hiface)
    (by rw [hhandled.affected_eq hlifetime]; exact hhandled.size)
  obtain ⟨l₂, hhandled₂⟩ := handled_of_recv_error hlifetime₁ hrecv
  refine ⟨s₂, l₂, hrecv, hhandled₂, ?_⟩
  rw [hhandled₂.state, hhandled.purged_eq hlifetime, hhandled.affected_eq hlifetime, hhandled.state]
  exact invalidate_again hlifetime (settled_purge hlifetime)

end Again

end Handled

/-- The node has handled the error, from the state `s` to the state `s₁`. Handling it once more at
the same time sends nothing and changes no route, and the errors that have been sent are about
destinations that had active routes through `src`. -/
structure HandledOnce (s : RoutingProtocol) (h : RerrHeader) (src : Ipv4Address) (s₁ : RoutingProtocol) : Prop where
  again : ∃ s₂, s₁.recv_error h src = some s₂ ∧ s₂.log = s₁.log ∧ s₂.routing_table = s₁.routing_table
  forwarded : ∀ (source destination : Ipv4Address) (ttl : UInt8) (r : RerrHeader),
    Effect.send ⟨source, destination, ttl, .rerr r⟩ ∈ s₁.log.drop s.log.length →
      ∀ d ∈ r.unreachable, ∃ rt, (s.lookup_valid_route d).1 = some rt ∧ rt.get_next_hop = src

namespace Handled

variable {l : List Effect} (hlifetime : 0 ≤ s.routing_table.bad_link_lifetime) (hhandled : Handled s h src s₁ l)

include hlifetime hhandled in
/-- The second handling is silent at the rate limit, or when the precursors with a route are
themselves affected. -/
theorem again_silent_iff :
    (∃ s₂, s₁.recv_error h src = some s₂ ∧ s₂.log = s₁.log ∧ s₂.routing_table = s₁.routing_table) ↔
      s₁.rerr_count = s.attrs.rerr_rate_limit ∨
        ∀ p ∈ s.error_precursors h src, s.HasRoute p → p ∈ s.affected h src := by
  obtain ⟨s₂, l₂, hrecv, hhandled₂, htable⟩ := hhandled.again hlifetime
  have hattrs : s₁.attrs = s.attrs := by rw [hhandled.state]
  have hlog : s₂.log = s₁.log ++ l₂ := by rw [hhandled₂.state]
  have hsends := hhandled₂.sends
  rw [hhandled.error_precursors_eq hlifetime, hattrs] at hsends
  simp only [hhandled.hasRoute_iff hlifetime] at hsends
  have hsilent : (∃ s₂, s₁.recv_error h src = some s₂ ∧ s₂.log = s₁.log ∧ s₂.routing_table = s₁.routing_table) ↔
      l₂ = [] := by
    constructor
    · rintro ⟨s₃, hrecv₃, hlog₃, -⟩
      obtain rfl := Option.some.inj (hrecv.symm.trans hrecv₃)
      simpa [hlog] using hlog₃
    · intro hnil
      exact ⟨s₂, hrecv, by rw [hlog, hnil, List.append_nil], htable⟩
  rw [hsilent, ← not_iff_not, ← ne_eq, hsends]
  push Not
  rfl

include hlifetime hhandled in
theorem forwarded_iff :
    (∀ (source destination : Ipv4Address) (ttl : UInt8) (r : RerrHeader),
      Effect.send ⟨source, destination, ttl, .rerr r⟩ ∈ s₁.log.drop s.log.length →
        ∀ d ∈ r.unreachable, ∃ rt, (s.lookup_valid_route d).1 = some rt ∧ rt.get_next_hop = src) ↔
      l = [] ∨ ∀ d ∈ s.affected h src, s.HasRoute d := by
  obtain ⟨s', hnotified, -⟩ := hhandled.notified
  have hlog : s₁.log.drop s.log.length = l := by
    rw [hhandled.state]
    exact List.drop_left
  have hroute : ∀ d ∈ s.affected h src,
      (s.HasRoute d ↔ ∃ rt, (s.lookup_valid_route d).1 = some rt ∧ rt.get_next_hop = src) := by
    intro d hd
    obtain ⟨e, he, hnext⟩ := entry_of_affected hd
    have hlookup : (s.lookup_valid_route d).1 =
        (s.routing_table.purge s.now).entries[d]?.filter (·.flag = .valid) := rfl
    rw [← hasRoute_purged, hasRoute_of_settled (settled_purged hlifetime), hlookup]
    simp only [Option.filter_eq_some_iff, decide_eq_true_eq]
    constructor
    · rintro ⟨rt, hrt, hvalid⟩
      obtain rfl := Option.some.inj (he.symm.trans hrt)
      exact ⟨e, ⟨hrt, hvalid⟩, hnext⟩
    · rintro ⟨rt, ⟨hrt, hvalid⟩, -⟩
      exact ⟨rt, hrt, hvalid⟩
  rw [hlog]
  constructor
  · intro hforwarded
    rw [or_iff_not_imp_left]
    intro hne d hd
    obtain ⟨e, he⟩ := List.exists_mem_of_ne_nil l hne
    obtain ⟨source, destination, rfl⟩ := hnotified.effects e he
    exact (hroute d hd).mpr (hforwarded _ _ _ _ he d hd)
  · rintro (rfl | hactive) source destination ttl r he d hd
    · cases he
    · obtain ⟨_, _, heq⟩ := hnotified.effects _ he
      cases heq
      exact (hroute d hd).mp (hactive d hd)

end Handled

theorem Run.bad_link_lifetime {cond : RoutingProtocol → Time × Event → Prop} (hrun : Run cond s) :
    s.routing_table.bad_link_lifetime = milliseconds 15000 := by
  refine Run.of_actions (I := fun s => s.routing_table.bad_link_lifetime = milliseconds 15000) ?_ ?_ ?_ hrun
  · rintro s ⟨attrs, _, _, _, _, lo, rfl⟩
    rfl
  · exact fun s t _ hs => hs
  · intro s e _ s₁ s₂ hs haction
    cases haction with
    | internal h =>
      rw [h]
      exact hs
    | table hsame h => exact hsame.trans hs
    | detect h =>
      rw [h.frame]
      exact hs
    | configure h =>
      rw [h]
      exact hs
    | _ => exact hs

/-- An error is handled once exactly if the rate limit is reached, or no precursor of an affected
entry has a route, or all affected entries are active and the second handling stays silent: the
precursors with a route are affected themselves, or the first message reached the limit. -/
theorem recv_error_idempotent_iff (hlifetime : 0 ≤ s.routing_table.bad_link_lifetime)
    (hrecv : s.recv_error h src = some s₁) :
    HandledOnce s h src s₁ ↔
      s.rerr_count = s.attrs.rerr_rate_limit ∨ (∀ p ∈ s.error_precursors h src, ¬ s.HasRoute p) ∨
        (∀ d ∈ s.affected h src, s.HasRoute d) ∧
          ((∀ p ∈ s.error_precursors h src, s.HasRoute p → p ∈ s.affected h src) ∨
            (s.error_precursors h src).length = 1 ∧ s.rerr_count + 1 = s.attrs.rerr_rate_limit) := by
  obtain ⟨l, hhandled⟩ := handled_of_recv_error hlifetime hrecv
  have hcount : s₁.rerr_count =
      if (s.error_precursors h src).length = 1 ∧ l ≠ [] then s.rerr_count + 1 else s.rerr_count := by
    rw [hhandled.state]
  have hsends := hhandled.sends
  have hboth : HandledOnce s h src s₁ ↔
      (s₁.rerr_count = s.attrs.rerr_rate_limit ∨
        ∀ p ∈ s.error_precursors h src, s.HasRoute p → p ∈ s.affected h src) ∧
      (l = [] ∨ ∀ d ∈ s.affected h src, s.HasRoute d) := by
    rw [← hhandled.again_silent_iff hlifetime, ← hhandled.forwarded_iff hlifetime]
    exact ⟨fun hh => ⟨hh.again, hh.forwarded⟩, fun hh => ⟨hh.1, hh.2⟩⟩
  rw [hboth, hcount]
  by_cases hnil : l = []
  · have hquiet : s.rerr_count = s.attrs.rerr_rate_limit ∨ ∀ p ∈ s.error_precursors h src, ¬ s.HasRoute p := by
      by_contra hnot
      push Not at hnot
      exact hsends.mpr hnot hnil
    rw [← or_assoc]
    refine iff_of_true ⟨?_, .inl hnil⟩ (.inl hquiet)
    rw [if_neg fun hh => hh.2 hnil]
    exact hquiet.imp_right fun hnone p hp hroute => absurd hroute (hnone p hp)
  · obtain ⟨hlimit, p, hp, hroute⟩ := hsends.mp hnil
    have hsome : ¬ ∀ p ∈ s.error_precursors h src, ¬ s.HasRoute p := fun hnone => hnone p hp hroute
    by_cases hone : (s.error_precursors h src).length = 1
    · simp only [hone, hnil, hlimit, hsome, ne_eq, not_false_eq_true, and_self, if_true, false_or, true_and]
      rw [and_comm, or_comm]
    · simp only [hone, hnil, hlimit, hsome, false_and, if_false, false_or, or_false]
      rw [and_comm]

namespace Station

/-- The neighbour a route to the destination goes through, and a node the route is used by. -/
def nextHop : Ipv4Address := 0x0a000004

def far : Ipv4Address := 0x0a000003

/-- A request that the neighbour forwards, answered by the next hop. -/
def relayed : List (Time × Event) :=
  [(0, .interface_up ipv4 1),
    (milliseconds 1, .recv_aodv own neighbor 64
      (.rreq { hop_count := 1, id := 1, dst := destination, unknown_seqno := true, origin := far, origin_seqno := 5 })),
    (milliseconds 2, .recv_aodv own nextHop 64
      (.rrep { dst := destination, dst_seqno := 1, origin := far, life_time := 11200 }))]

def broken : RerrHeader := { unreachable := Std.ExtTreeMap.insert ∅ destination 1 }

/-- An error about a node that no route goes through leaves nothing to send. -/
theorem unaffected_handled_once : ∃ s s₁, Run Transition.Always s ∧ s.recv_error broken neighbor = some s₁ ∧
    HandledOnce s broken neighbor s₁ := by
  have hrun : (Transition.execute timed_step Transition.Always usual relayed).bind (fun s =>
      (s.recv_error broken neighbor).map fun _ => s.error_precursors broken neighbor) = some [] := by
    decide +kernel
  obtain ⟨s, hs, hrun⟩ := Option.bind_eq_some_iff.mp hrun
  obtain ⟨s₁, hrecv, hnone⟩ := Option.map_eq_some_iff.mp hrun
  have hreach : Run Transition.Always s := (Transition.Reachable.init usual_initial).execute hs
  have hlifetime : 0 ≤ s.routing_table.bad_link_lifetime := by
    rw [hreach.bad_link_lifetime]
    decide
  refine ⟨s, s₁, hreach, hrecv, (recv_error_idempotent_iff hlifetime hrecv).mpr (.inr (.inl ?_))⟩
  rw [hnone]
  nofun

/-- The entry of a broken route is listed again, and the precursor told again. -/
theorem error_sent_again : ∃ s s₁, Run Transition.Always s ∧ s.recv_error broken nextHop = some s₁ ∧
    ¬ HandledOnce s broken nextHop s₁ := by
  have hrun : (Transition.execute timed_step Transition.Always usual relayed).bind (fun s =>
      (s.recv_error broken nextHop).bind fun s₁ => (s₁.recv_error broken nextHop).map fun s₂ =>
        (s₁.log.length, s₂.log.length)) = some (3, 4) := by
    decide +kernel
  obtain ⟨s, hs, hrun⟩ := Option.bind_eq_some_iff.mp hrun
  obtain ⟨s₁, hrecv, hrun⟩ := Option.bind_eq_some_iff.mp hrun
  obtain ⟨s₂, hagain, hlengths⟩ := Option.map_eq_some_iff.mp hrun
  refine ⟨s, s₁, (Transition.Reachable.init usual_initial).execute hs, hrecv, ?_⟩
  rintro ⟨⟨s₃, hrecv₃, hlog, -⟩, -⟩
  obtain rfl := Option.some.inj (hagain.symm.trans hrecv₃)
  rw [hlog] at hlengths
  simp at hlengths
  omega

end Station

end RoutingProtocol

end Ns3.Aodv

namespace Ns3.Aodv.RoutingProtocol

/-- A call of `SendRerrWhenNoRouteToForward`, or of `SendRerrMessage` for some precursors. -/
inductive RerrCall
  | no_route (origin : Ipv4Address)
  | message (precursors : List Ipv4Address)

/-- Whether a call made in the state counts what it sends: it sends nothing at the rate limit, or
has nowhere to send to, or sends to a single precursor. -/
def Counts (s : RoutingProtocol) : RerrCall → Prop
  | .no_route origin =>
    s.rerr_count = s.attrs.rerr_rate_limit ∨ ¬ s.HasRoute origin ∧ s.socket_addresses = []
  | .message precursors =>
    s.rerr_count = s.attrs.rerr_rate_limit ∨ precursors.length ≤ 1 ∨ ∀ p ∈ precursors, ¬ s.HasRoute p

/-- Calls with the states they are made in. -/
abbrev Calls : Type := List (RoutingProtocol × RerrCall)

section Calls

def recv_error_calls (s : RoutingProtocol) (h : RerrHeader) (src : Ipv4Address) : Calls :=
  [(s.purged, .message (s.error_precursors h src))]

/-- The precursors of the routes through a next hop that is lost, and of the route to it. -/
def broken_precursors (s : RoutingProtocol) (next_hop : Ipv4Address) (toNextHop : RoutingTableEntry) : List Ipv4Address :=
  s.purged.routing_table.collect_precursors (toNextHop.get_precursors [])
    (s.purged.routing_table.get_list_of_destination_with_next_hop next_hop).toList

/-- The call of `SendRerrWhenBreaksLinkToNextHop`. -/
def break_calls (s : RoutingProtocol) (next_hop : Ipv4Address) : Calls :=
  match (s.lookup_route next_hop).1 with
  | none => []
  | some toNextHop => [(s.purged, .message (s.broken_precursors next_hop toNextHop))]

/-- The calls for the neighbours that are lost, one after the other. -/
def breaks_calls : RoutingProtocol → List Ipv4Address → Calls
  | _, [] => []
  | s, n :: rest => s.break_calls n ++ (s.send_rerr_when_breaks_link_to_next_hop n).elim [] (breaks_calls · rest)

def nb_purge_calls (s : RoutingProtocol) : Calls := breaks_calls s (s.nb.failed s.now)

def nb_update_calls (s : RoutingProtocol) (addr : Ipv4Address) (expire : Time) : Calls :=
  match s.nb.refreshFirst s.now addr expire s.nb.nb with
  | some _ => []
  | none => nb_purge_calls { s with nb := s.nb.open_link s.now addr expire }

def recv_request_calls (s : RoutingProtocol) (h : RreqHeader) (receiver src : Ipv4Address) : Calls :=
  ((s.accepted_request h src).bind (·.build_reverse_route (counted h) receiver src)).elim []
    (·.nb_update_calls src (s.attrs.allowed_hello_loss.toNat * s.attrs.hello_interval))

/-- The part of `ProcessHello` that writes the route to the neighbour. -/
def hello_route (s : RoutingProtocol) (h : RrepHeader) (receiver : Ipv4Address) : Option RoutingProtocol :=
  let r := s.lookup_route h.dst
  match r.1 with
  | none =>
    (s.ipv4.interface_of receiver).map fun i =>
      r.2.add_route (RoutingTableEntry.of s.now i.1 h.dst true h.dst_seqno i.2 1 h.dst h.get_life_time)
  | some toNeighbor =>
    (s.ipv4.interface_of (hello_receiver s.attrs h.dst receiver)).map fun i =>
      r.2.update (((({ toNeighbor with
          seq_no := h.dst_seqno
          valid_seq_no := true
          flag := .valid
          iface := i.2
          hops := 1 } : RoutingTableEntry).set_next_hop h.dst).set_output_device i.1).set_life_time s.now
        (max (s.attrs.allowed_hello_loss.toNat * s.attrs.hello_interval) (toNeighbor.get_life_time s.now)))

/-- A reply makes a call only when it is a hello message. -/
def recv_reply_calls (s : RoutingProtocol) (h : RrepHeader) (receiver : Ipv4Address) : Calls :=
  if h.dst = h.origin ∧ s.attrs.enable_hello then
    (s.hello_route { h with hop_count := h.hop_count + 1 } receiver).elim []
      (·.nb_update_calls h.dst (s.attrs.allowed_hello_loss.toNat * s.attrs.hello_interval))
  else []

def recv_aodv_calls (s : RoutingProtocol) (receiver sender : Ipv4Address) (m : Message) : Calls :=
  let receiver := tunnel_receiver s.attrs sender receiver
  (s.update_route_to_neighbor sender receiver).elim [] fun s =>
    match m with
    | .rreq h => s.recv_request_calls h receiver sender
    | .rrep h => s.recv_reply_calls h receiver
    | .rerr h => s.recv_error_calls h sender
    | _ => []

def unicast_input_calls (s : RoutingProtocol) (header : Ipv4Header) : Calls :=
  let active := s.attrs.active_route_timeout
  let r := (s.update_route_life_time header.source active).lookup_valid_route header.source
  match r.1 with
  | some toOrigin =>
    (r.2.update_route_life_time toOrigin.get_next_hop active).nb_update_calls toOrigin.get_next_hop active
  | none => []

/-- The part of `Forwarding` that prolongs the routes in use, with the previous hop it finds. -/
def use_routes (s : RoutingProtocol) (header : Ipv4Header) (toDst : RoutingTableEntry) : Ipv4Address × RoutingProtocol :=
  let active := s.attrs.active_route_timeout
  let s := s.update_route_life_time header.source active
  let s := s.update_route_life_time header.destination active
  let s := s.update_route_life_time toDst.get_next_hop active
  let o := s.lookup_route header.source
  let previousHop := (o.1.getD (RoutingTableEntry.default s.now)).get_next_hop
  (previousHop, o.2.update_route_life_time previousHop active)

def forwarding_calls (s : RoutingProtocol) (header : Ipv4Header) : Calls :=
  if s.attrs.is_malicious then []
  else
    let active := s.attrs.active_route_timeout
    let r := s.purged.lookup_route header.destination
    match r.1.filter (·.flag = .valid) with
    | none => [(r.2, .no_route header.source)]
    | some toDst =>
      let u := r.2.use_routes header toDst
      u.2.nb_update_calls toDst.get_next_hop active ++
        (u.2.nb_update toDst.get_next_hop active).elim [] (·.nb_update_calls u.1 active)

def route_input_calls (s : RoutingProtocol) (p : Packet) (header : Ipv4Header) (iif : Nat) : Calls :=
  if s.socket_addresses = [] then []
  else if iif = 0 ∧ p.tag ≠ none then []
  else if s.is_my_own_address header.source then []
  else if Ipv4Address.is_multicast header.destination then []
  else if s.is_broadcast_on header.destination iif then []
  else if s.ipv4.is_destination_address header.destination iif then s.unicast_input_calls header
  else if s.ipv4.is_forwarding iif = false then []
  else s.forwarding_calls header

/-- The calls that the handling of an event makes. -/
def rerr_calls (s : RoutingProtocol) : Event → Calls
  | .recv_aodv receiver sender _ m => s.recv_aodv_calls receiver sender m
  | .route_input p header iif _ => s.route_input_calls p header iif
  | .neighbor_timer_expire => s.nb_purge_calls
  | .tx_error addr => nb_purge_calls { s with nb := s.nb.mark_closed addr }
  | _ => []

end Calls

end Ns3.Aodv.RoutingProtocol
