import Ns3.Aodv.Route.Reverse
import Ns3.Aodv.Protocol.Run

namespace Ns3.Aodv

open RoutingTable RoutingTableEntry RoutingProtocol

namespace RoutingTable

variable {t : RoutingTable} {now : Time} {d : Ipv4Address} {e e' : RoutingTableEntry}

def Stays (now : Time) (e : RoutingTableEntry) : Prop := 0 ≤ e.get_life_time now ∨ e.flag = .in_search

theorem purge_entry_of_stays {lifetime : Time} (h : Stays now e) : purge_entry now lifetime e = some e := by
  unfold purge_entry
  split
  next hover =>
    rw [h.resolve_left (not_le.mpr hover)]
  next => rfl

theorem stays_of_valid (hvalid : e.flag = .valid → 0 ≤ e.get_life_time now) {lifetime : Time}
    (h : purge_entry now lifetime e = some e') : e' = e ∧ Stays now e := by
  unfold purge_entry at h
  split at h
  next hover =>
    cases hflag : e.flag with
    | valid => exact absurd (hvalid hflag) (not_le.mpr hover)
    | invalid =>
      rw [hflag] at h
      cases h
    | in_search =>
      rw [hflag] at h
      exact ⟨(Option.some.inj h).symm, .inr hflag⟩
  next hlive => exact ⟨(Option.some.inj h).symm, .inl (not_lt.mp hlive)⟩

theorem purge_entry_valid {lifetime : Time} (h : purge_entry now lifetime e = some e')
    (hvalid : e'.flag = .valid) : 0 ≤ e'.get_life_time now := by
  by_contra hover
  have hflag := (purge_entry_decays h).valid hvalid
  by_cases hlive : 0 ≤ e.get_life_time now
  · rw [purge_entry_eq_self hlive] at h
    exact hover (Option.some.inj h ▸ hlive)
  · exact purge_entry_not_valid h (.inr (not_le.mp hlive)) hvalid

theorem stays_stored_entry (h : Stays now e) : Stays now (stored_entry e) := by
  rw [Stays, RoutingProtocol.get_life_time_stored_entry, stored_entry_flag]
  exact h

/-- No active entry has expired. -/
def Fresh (now : Time) (t : RoutingTable) : Prop :=
  ∀ (d : Ipv4Address) (e : RoutingTableEntry),
    t.entries[d]? = some e → e.flag = .valid → 0 ≤ e.get_life_time now

def Settled (now : Time) (t : RoutingTable) : Prop :=
  ∀ (d : Ipv4Address) (e : RoutingTableEntry), t.entries[d]? = some e → Stays now e

theorem fresh_purge (t : RoutingTable) (now : Time) : (t.purge now).Fresh now := by
  intro d e he hvalid
  rw [getElem?_purge] at he
  obtain ⟨e₀, -, hpurge⟩ := Option.bind_eq_some_iff.mp he
  exact purge_entry_valid hpurge hvalid

theorem Settled.fresh (h : t.Settled now) : t.Fresh now := by
  intro d e he hvalid
  rcases h d e he with hlive | hsearch
  · exact hlive
  · rw [hvalid] at hsearch
    cases hsearch

theorem Fresh.settled (h : t.Fresh now) : (t.purge now).Settled now := by
  intro d e he
  rw [getElem?_purge] at he
  obtain ⟨e₀, he₀, hpurge⟩ := Option.bind_eq_some_iff.mp he
  obtain ⟨rfl, hstays⟩ := stays_of_valid (h d e₀ he₀) hpurge
  exact hstays

theorem Settled.purge (h : t.Settled now) : t.purge now = t := by
  refine RoutingTable.ext rfl (Std.ExtTreeMap.ext_getElem? fun d => ?_)
  rw [getElem?_purge]
  cases he : t.entries[d]? with
  | none => rfl
  | some e => exact purge_entry_of_stays (h d e he)

theorem Settled.update (h : t.Settled now) (hstays : Stays now e) : (t.update e).Settled now := by
  intro d e' he'
  rw [getElem?_update] at he'
  split at he'
  · exact Option.some.inj he' ▸ stays_stored_entry hstays
  · exact h d e' he'

theorem Fresh.update (h : t.Fresh now) (hlive : e.flag = .valid → 0 ≤ e.get_life_time now) :
    (t.update e).Fresh now := by
  intro d e' he' hvalid
  rw [getElem?_update] at he'
  split at he'
  · obtain rfl := Option.some.inj he'
    rw [RoutingProtocol.get_life_time_stored_entry]
    exact hlive (by rwa [stored_entry_flag] at hvalid)
  · exact h d e' he' hvalid

theorem isSome_update (d : Ipv4Address) :
    (t.update e).entries[d]?.isSome = t.entries[d]?.isSome := by
  rw [getElem?_update]
  split
  next hkey => simp [Option.isSome_iff_ne_none.mpr hkey.2]
  next => rfl

end RoutingTable

namespace RoutingProtocol

variable {s : RoutingProtocol}

theorem lookup_route_of_settled (h : s.routing_table.Settled s.now) (d : Ipv4Address) :
    s.lookup_route d = (s.routing_table.entries[d]?, s) := by
  have hpurge := h.purge
  refine Prod.ext ?_ ?_
  · change (s.routing_table.purge s.now).entries[d]? = _
    rw [hpurge]
  · change ({ s with routing_table := s.routing_table.purge s.now } : RoutingProtocol) = s
    rw [hpurge]

end RoutingProtocol

end Ns3.Aodv
