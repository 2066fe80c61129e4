import Ns3.Aodv.RoutingTable

namespace Ns3.Aodv

namespace RoutingTableEntry

section Of

variable (now : Time) (dev : Option NetDevice) (dst : Ipv4Address) (valid_seq_no : Bool) (seq_no : UInt32)
  (iface : Ipv4InterfaceAddress) (hops : UInt16) (next_hop : Ipv4Address) (life_time : Time)

@[simp] theorem of_valid_seq_no :
    (of now dev dst valid_seq_no seq_no iface hops next_hop life_time).valid_seq_no = valid_seq_no := rfl
@[simp] theorem of_seq_no :
    (of now dev dst valid_seq_no seq_no iface hops next_hop life_time).seq_no = seq_no := rfl
@[simp] theorem of_hops : (of now dev dst valid_seq_no seq_no iface hops next_hop life_time).hops = hops := rfl
@[simp] theorem of_flag : (of now dev dst valid_seq_no seq_no iface hops next_hop life_time).flag = .valid := rfl
@[simp] theorem of_get_destination :
    (of now dev dst valid_seq_no seq_no iface hops next_hop life_time).get_destination = dst := rfl
@[simp] theorem of_get_next_hop :
    (of now dev dst valid_seq_no seq_no iface hops next_hop life_time).get_next_hop = next_hop := rfl
@[simp] theorem of_get_output_device :
    (of now dev dst valid_seq_no seq_no iface hops next_hop life_time).get_output_device = dev := rfl

end Of

section Setters

variable (e : RoutingTableEntry) (next_hop : Ipv4Address) (dev : Option NetDevice) (now lt : Time)

@[simp] theorem set_next_hop_valid_seq_no : (e.set_next_hop next_hop).valid_seq_no = e.valid_seq_no := rfl
@[simp] theorem set_next_hop_seq_no : (e.set_next_hop next_hop).seq_no = e.seq_no := rfl
@[simp] theorem set_next_hop_hops : (e.set_next_hop next_hop).hops = e.hops := rfl
@[simp] theorem set_next_hop_flag : (e.set_next_hop next_hop).flag = e.flag := rfl
@[simp] theorem set_next_hop_get_destination : (e.set_next_hop next_hop).get_destination = e.get_destination := rfl
@[simp] theorem set_next_hop_get_next_hop : (e.set_next_hop next_hop).get_next_hop = next_hop := rfl
@[simp] theorem set_next_hop_get_output_device : (e.set_next_hop next_hop).get_output_device = e.get_output_device := rfl

@[simp] theorem set_output_device_valid_seq_no : (e.set_output_device dev).valid_seq_no = e.valid_seq_no := rfl
@[simp] theorem set_output_device_seq_no : (e.set_output_device dev).seq_no = e.seq_no := rfl
@[simp] theorem set_output_device_hops : (e.set_output_device dev).hops = e.hops := rfl
@[simp] theorem set_output_device_flag : (e.set_output_device dev).flag = e.flag := rfl
@[simp] theorem set_output_device_get_destination : (e.set_output_device dev).get_destination = e.get_destination := rfl
@[simp] theorem set_output_device_get_next_hop : (e.set_output_device dev).get_next_hop = e.get_next_hop := rfl
@[simp] theorem set_output_device_get_output_device : (e.set_output_device dev).get_output_device = dev := rfl

@[simp] theorem set_life_time_valid_seq_no : (e.set_life_time now lt).valid_seq_no = e.valid_seq_no := rfl
@[simp] theorem set_life_time_seq_no : (e.set_life_time now lt).seq_no = e.seq_no := rfl
@[simp] theorem set_life_time_hops : (e.set_life_time now lt).hops = e.hops := rfl
@[simp] theorem set_life_time_flag : (e.set_life_time now lt).flag = e.flag := rfl
@[simp] theorem set_life_time_get_destination : (e.set_life_time now lt).get_destination = e.get_destination := rfl
@[simp] theorem set_life_time_get_next_hop : (e.set_life_time now lt).get_next_hop = e.get_next_hop := rfl
@[simp] theorem set_life_time_get_output_device : (e.set_life_time now lt).get_output_device = e.get_output_device := rfl

end Setters

/-- The entries agree on everything but flag, lifetime, precursors and counters: they
describe the same route, with the same sequence number. -/
structure SameRoute (e e' : RoutingTableEntry) : Prop where
  valid_seq_no : e'.valid_seq_no = e.valid_seq_no
  seq_no : e'.seq_no = e.seq_no
  hops : e'.hops = e.hops
  ipv4_route : e'.ipv4_route = e.ipv4_route

namespace SameRoute

theorem refl (e : RoutingTableEntry) : SameRoute e e := ⟨rfl, rfl, rfl, rfl⟩

theorem trans {e e' e'' : RoutingTableEntry} (h : SameRoute e e') (h' : SameRoute e' e'') : SameRoute e e'' :=
  ⟨h'.valid_seq_no.trans h.valid_seq_no, h'.seq_no.trans h.seq_no, h'.hops.trans h.hops,
    h'.ipv4_route.trans h.ipv4_route⟩

theorem get_next_hop {e e' : RoutingTableEntry} (h : SameRoute e e') : e'.get_next_hop = e.get_next_hop := by
  rw [RoutingTableEntry.get_next_hop, RoutingTableEntry.get_next_hop, h.ipv4_route]

theorem get_output_device {e e' : RoutingTableEntry} (h : SameRoute e e') :
    e'.get_output_device = e.get_output_device := by
  rw [RoutingTableEntry.get_output_device, RoutingTableEntry.get_output_device, h.ipv4_route]

theorem get_destination {e e' : RoutingTableEntry} (h : SameRoute e e') :
    e'.get_destination = e.get_destination := by
  rw [RoutingTableEntry.get_destination, RoutingTableEntry.get_destination, h.ipv4_route]

end SameRoute

/-- The entry keeps its route and at most loses its activity. -/
def DecaysTo (e e' : RoutingTableEntry) : Prop := SameRoute e e' ∧ (e'.flag = e.flag ∨ e'.flag = .invalid)

theorem DecaysTo.refl (e : RoutingTableEntry) : DecaysTo e e := ⟨SameRoute.refl e, .inl rfl⟩

theorem DecaysTo.trans {e e' e'' : RoutingTableEntry} (h : DecaysTo e e') (h' : DecaysTo e' e'') :
    DecaysTo e e'' := by
  refine ⟨h.1.trans h'.1, ?_⟩
  rcases h'.2 with hflag | hflag
  · rw [hflag]
    exact h.2
  · exact .inr hflag

theorem DecaysTo.valid {e e' : RoutingTableEntry} (h : DecaysTo e e') (hvalid : e'.flag = .valid) :
    e.flag = .valid := by
  rcases h.2 with hflag | hflag
  · rw [← hflag, hvalid]
  · rw [hvalid] at hflag
    cases hflag

theorem DecaysTo.in_search {e e' : RoutingTableEntry} (h : DecaysTo e e') (hsearch : e'.flag = .in_search) :
    e.flag = .in_search := by
  rcases h.2 with hflag | hflag
  · rw [← hflag, hsearch]
  · rw [hsearch] at hflag
    cases hflag

theorem invalidate_decays (e : RoutingTableEntry) (now lifetime : Time) : DecaysTo e (e.invalidate now lifetime) := by
  unfold invalidate
  split
  · exact DecaysTo.refl e
  · exact ⟨⟨rfl, rfl, rfl, rfl⟩, .inr rfl⟩

theorem insert_precursor_sameRoute (e : RoutingTableEntry) (id : Ipv4Address) :
    SameRoute e (e.insert_precursor id) := by
  unfold insert_precursor
  split
  · exact SameRoute.refl e
  · exact ⟨rfl, rfl, rfl, rfl⟩

@[simp]
theorem insert_precursor_flag (e : RoutingTableEntry) (id : Ipv4Address) :
    (e.insert_precursor id).flag = e.flag := by
  unfold insert_precursor
  split <;> rfl

theorem insert_precursor_decays (e : RoutingTableEntry) (id : Ipv4Address) : DecaysTo e (e.insert_precursor id) :=
  ⟨e.insert_precursor_sameRoute id, .inl (by simp)⟩

end RoutingTableEntry

namespace RoutingTable

open RoutingTableEntry

@[ext]
theorem ext {t t' : RoutingTable} (hlifetime : t.bad_link_lifetime = t'.bad_link_lifetime)
    (hentries : t.entries = t'.entries) : t = t' := by
  cases t
  cases t'
  simp_all

theorem purge_entry_decays {now lifetime : Time} {e e' : RoutingTableEntry}
    (hpurge : purge_entry now lifetime e = some e') : DecaysTo e e' := by
  unfold purge_entry at hpurge
  split at hpurge
  · split at hpurge
    · cases hpurge
    · cases hpurge
      exact e.invalidate_decays now lifetime
    · cases hpurge
      exact DecaysTo.refl e
  · cases hpurge
    exact DecaysTo.refl e

theorem stored_entry_sameRoute (rt : RoutingTableEntry) : SameRoute rt (stored_entry rt) := by
  unfold stored_entry
  split
  · exact ⟨rfl, rfl, rfl, rfl⟩
  · exact SameRoute.refl rt

section StoredEntry

variable (rt : RoutingTableEntry)

@[simp] theorem stored_entry_valid_seq_no : (stored_entry rt).valid_seq_no = rt.valid_seq_no :=
  (stored_entry_sameRoute rt).valid_seq_no
@[simp] theorem stored_entry_seq_no : (stored_entry rt).seq_no = rt.seq_no :=
  (stored_entry_sameRoute rt).seq_no
@[simp] theorem stored_entry_hops : (stored_entry rt).hops = rt.hops :=
  (stored_entry_sameRoute rt).hops
@[simp] theorem stored_entry_ipv4_route : (stored_entry rt).ipv4_route = rt.ipv4_route :=
  (stored_entry_sameRoute rt).ipv4_route
@[simp] theorem stored_entry_get_next_hop : (stored_entry rt).get_next_hop = rt.get_next_hop :=
  (stored_entry_sameRoute rt).get_next_hop
@[simp] theorem stored_entry_get_output_device :
    (stored_entry rt).get_output_device = rt.get_output_device :=
  (stored_entry_sameRoute rt).get_output_device

@[simp]
theorem stored_entry_flag : (stored_entry rt).flag = rt.flag := by
  unfold stored_entry
  split <;> rfl

end StoredEntry

theorem getElem?_purge (t : RoutingTable) (now : Time) (d : Ipv4Address) :
    (t.purge now).entries[d]? = t.entries[d]?.bind (purge_entry now t.bad_link_lifetime) := by
  rw [purge, Std.ExtTreeMap.getElem?_filterMap']

theorem getElem?_delete_route (t : RoutingTable) (now : Time) (dst d : Ipv4Address) :
    (t.delete_route now dst).entries[d]? = if dst = d then none else (t.purge now).entries[d]? := by
  simp [delete_route, Std.ExtTreeMap.getElem?_erase]

theorem getElem?_add_route (t : RoutingTable) (now : Time) (rt : RoutingTableEntry) (d : Ipv4Address) :
    (t.add_route now rt).entries[d]? =
      if rt.get_destination = d ∧ (t.purge now).entries[d]? = none then some (stored_entry rt)
      else (t.purge now).entries[d]? := by
  simp only [add_route, Std.ExtTreeMap.getElem?_insertIfNew]
  grind

theorem getElem?_update (t : RoutingTable) (rt : RoutingTableEntry) (d : Ipv4Address) :
    (t.update rt).entries[d]? =
      if rt.get_destination = d ∧ t.entries[d]? ≠ none then some (stored_entry rt) else t.entries[d]? := by
  simp only [update]
  grind

/-- The new table has no route that the old one lacks, and its routes are the old
ones, active at most where they were. -/
structure Decays (t t' : RoutingTable) : Prop where
  lifetime : t'.bad_link_lifetime = t.bad_link_lifetime
  entry : ∀ (d : Ipv4Address) (e' : RoutingTableEntry),
    t'.entries[d]? = some e' → ∃ e, t.entries[d]? = some e ∧ DecaysTo e e'

namespace Decays

theorem refl (t : RoutingTable) : Decays t t := ⟨rfl, fun _ e' h => ⟨e', h, DecaysTo.refl e'⟩⟩

theorem trans {t t' t'' : RoutingTable} (h : Decays t t') (h' : Decays t' t'') : Decays t t'' := by
  refine ⟨h'.lifetime.trans h.lifetime, ?_⟩
  intro d e'' he''
  obtain ⟨e', he', hdecay'⟩ := h'.entry d e'' he''
  obtain ⟨e, he, hdecay⟩ := h.entry d e' he'
  exact ⟨e, he, hdecay.trans hdecay'⟩

end Decays

theorem purge_decays (t : RoutingTable) (now : Time) : Decays t (t.purge now) := by
  refine ⟨rfl, ?_⟩
  intro d e' he'
  rw [getElem?_purge, Option.bind_eq_some_iff] at he'
  obtain ⟨e, he, hpurge⟩ := he'
  exact ⟨e, he, purge_entry_decays hpurge⟩

theorem delete_route_decays (t : RoutingTable) (now : Time) (dst : Ipv4Address) :
    Decays t (t.delete_route now dst) := by
  refine ⟨rfl, ?_⟩
  intro d e' he'
  rw [getElem?_delete_route] at he'
  split at he'
  · cases he'
  · exact (t.purge_decays now).entry d e' he'

theorem invalidate_routes_with_dst_decays (t : RoutingTable) (now : Time)
    (unreachable : Std.ExtTreeMap Ipv4Address UInt32) :
    Decays t (t.invalidate_routes_with_dst now unreachable) := by
  refine ⟨rfl, ?_⟩
  intro d e' he'
  simp only [invalidate_routes_with_dst, Std.ExtTreeMap.getElem?_map, Option.map_eq_some_iff] at he'
  obtain ⟨e₁, he₁, rfl⟩ := he'
  obtain ⟨e, he, hdecay⟩ := (t.purge_decays now).entry d e₁ he₁
  refine ⟨e, he, hdecay.trans ?_⟩
  split
  · exact e₁.invalidate_decays now t.bad_link_lifetime
  · exact DecaysTo.refl e₁

theorem delete_all_routes_from_interface_decays (t : RoutingTable) (iface : Ipv4InterfaceAddress) :
    Decays t (t.delete_all_routes_from_interface iface) := by
  refine ⟨rfl, ?_⟩
  intro d e' he'
  simp only [delete_all_routes_from_interface, Std.ExtTreeMap.getElem?_filter', Option.filter_eq_some_iff] at he'
  exact ⟨e', he'.1, DecaysTo.refl e'⟩

theorem clear_decays (t : RoutingTable) : Decays t t.clear := by
  refine ⟨rfl, ?_⟩
  intro d e' he'
  simp [clear] at he'

theorem update_decays {t : RoutingTable} {e rt : RoutingTableEntry}
    (he : t.entries[rt.get_destination]? = some e) (hdecay : DecaysTo e rt) : Decays t (t.update rt) := by
  refine ⟨rfl, ?_⟩
  intro d e' he'
  rw [getElem?_update] at he'
  split at he'
  next hd =>
    cases he'
    obtain ⟨rfl, _⟩ := hd
    exact ⟨e, he, hdecay.trans ⟨stored_entry_sameRoute rt, .inl (stored_entry_flag rt)⟩⟩
  next => exact ⟨e', he', DecaysTo.refl e'⟩

end RoutingTable

end Ns3.Aodv

namespace Ns3.Aodv.RoutingTable

open RoutingTableEntry

variable {t : RoutingTable} {now : Time} {unreachable : Std.ExtTreeMap Ipv4Address UInt32}
  {d : Ipv4Address} {e e' : RoutingTableEntry}

/-- The documentation of `InvalidateRoutesWithDst`, for an active entry `e` that becomes `e'`. -/
structure Broken (now delete_period : Time) (e e' : RoutingTableEntry) : Prop where
  seq_no : e.valid_seq_no = true → e'.seq_no = e.seq_no + 1
  flag : e'.flag = .invalid
  life_time : e'.get_life_time now = delete_period

/-- The table `t'` has the active routes of `t` to the unreachable destinations broken as
documented, and its other routes left alone. -/
structure BreaksRoutes (now : Time) (unreachable : Std.ExtTreeMap Ipv4Address UInt32)
    (t t' : RoutingTable) : Prop where
  broken : ∀ (d : Ipv4Address) (e : RoutingTableEntry), t.entries[d]? = some e → e.flag = .valid →
    d ∈ unreachable → ∃ e', t'.entries[d]? = some e' ∧ Broken now t.bad_link_lifetime e e'
  others : ∀ (d : Ipv4Address) (e : RoutingTableEntry), t.entries[d]? = some e → 0 ≤ e.get_life_time now →
    ¬ (e.flag = .valid ∧ d ∈ unreachable) → t'.entries[d]? = some e
  not_postponed : ∀ (d : Ipv4Address) (e e' : RoutingTableEntry), t.entries[d]? = some e →
    e.flag = .invalid → t'.entries[d]? = some e' → e'.life_time ≤ e.life_time

theorem getElem?_invalidate_routes_with_dst (t : RoutingTable) (now : Time)
    (unreachable : Std.ExtTreeMap Ipv4Address UInt32) (d : Ipv4Address) :
    (t.invalidate_routes_with_dst now unreachable).entries[d]? =
      (t.purge now).entries[d]?.map fun e =>
        if d ∈ unreachable ∧ e.flag = .valid then e.invalidate now t.bad_link_lifetime else e := by
  have hmap := Std.ExtTreeMap.getElem?_map (t := (t.purge now).entries) (k := d)
    (f := fun dst e => if dst ∈ unreachable ∧ e.flag = .valid then e.invalidate now t.bad_link_lifetime else e)
  exact hmap

theorem purge_entry_of_unexpired {lifetime : Time} (h : 0 ≤ e.get_life_time now) :
    purge_entry now lifetime e = some e := by
  rw [purge_entry, if_neg (not_lt.mpr h)]

theorem purge_entry_of_invalid {lifetime : Time} (hflag : e.flag = .invalid)
    (h : purge_entry now lifetime e = some e') : e' = e := by
  unfold purge_entry at h
  rw [hflag] at h
  split at h
  · cases h
  · exact (Option.some.inj h).symm

theorem invalidate_eq {lifetime : Time} (hflag : e.flag = .valid) :
    e.invalidate now lifetime = { e with flag := .invalid, req_count := 0, life_time := lifetime + now } := by
  rw [RoutingTableEntry.invalidate, if_neg (by rw [hflag]; decide)]

theorem getElem?_of_unreachable (he : t.entries[d]? = some e) (hflag : e.flag = .valid) (hd : d ∈ unreachable) :
    (t.invalidate_routes_with_dst now unreachable).entries[d]? =
      some (e.invalidate now t.bad_link_lifetime) := by
  rw [getElem?_invalidate_routes_with_dst, getElem?_purge, he, Option.bind_some]
  by_cases hlive : e.get_life_time now < 0
  · have hinvalid : (e.invalidate now t.bad_link_lifetime).flag = .invalid := by rw [invalidate_eq hflag]
    have hpurge : purge_entry now t.bad_link_lifetime e = some (e.invalidate now t.bad_link_lifetime) := by
      rw [purge_entry, if_pos hlive, hflag]
    rw [hpurge, Option.map_some, hinvalid]
    simp
  · rw [purge_entry_of_unexpired (not_lt.mp hlive), Option.map_some, if_pos ⟨hd, hflag⟩]

theorem getElem?_of_unexpired (he : t.entries[d]? = some e) (hlive : 0 ≤ e.get_life_time now)
    (hother : ¬ (e.flag = .valid ∧ d ∈ unreachable)) :
    (t.invalidate_routes_with_dst now unreachable).entries[d]? = some e := by
  rw [getElem?_invalidate_routes_with_dst, getElem?_purge, he, Option.bind_some,
    purge_entry_of_unexpired hlive, Option.map_some, if_neg fun h => hother h.symm]

theorem eq_of_invalid (he : t.entries[d]? = some e) (hflag : e.flag = .invalid)
    (he' : (t.invalidate_routes_with_dst now unreachable).entries[d]? = some e') : e' = e := by
  rw [getElem?_invalidate_routes_with_dst, getElem?_purge, he, Option.bind_some,
    Option.map_eq_some_iff] at he'
  obtain ⟨e₁, hpurge, rfl⟩ := he'
  obtain rfl := purge_entry_of_invalid hflag hpurge
  rw [if_neg]
  rintro ⟨-, hvalid⟩
  rw [hflag] at hvalid
  cases hvalid

/-- The routes are broken as documented where there is no sequence number to increment. -/
theorem breaksRoutes_of_no_seq_no
    (hnone : ∀ (d : Ipv4Address) (e : RoutingTableEntry), t.entries[d]? = some e → e.flag = .valid →
      d ∈ unreachable → e.valid_seq_no = false) :
    BreaksRoutes now unreachable t (t.invalidate_routes_with_dst now unreachable) where
  broken d e he hflag hd := by
    refine ⟨e.invalidate now t.bad_link_lifetime, getElem?_of_unreachable he hflag hd, ?_, ?_, ?_⟩
    · intro hvalid
      rw [hnone d e he hflag hd] at hvalid
      cases hvalid
    · rw [invalidate_eq hflag]
    · rw [invalidate_eq hflag]
      exact add_sub_cancel_right _ _
  others d e he hlive hother := getElem?_of_unexpired he hlive hother
  not_postponed d e e' he hflag he' := by rw [eq_of_invalid he hflag he']

theorem no_seq_no_of_breaksRoutes
    (hbreaks : BreaksRoutes now unreachable t (t.invalidate_routes_with_dst now unreachable))
    (he : t.entries[d]? = some e) (hflag : e.flag = .valid) (hd : d ∈ unreachable) : e.valid_seq_no = false := by
  obtain ⟨e', he', hbroken⟩ := hbreaks.broken d e he hflag hd
  rw [getElem?_of_unreachable he hflag hd] at he'
  obtain rfl := Option.some.inj he'
  by_contra hvalid
  have hsucc := hbroken.seq_no (by simpa using hvalid)
  rw [(e.invalidate_decays now t.bad_link_lifetime).1.seq_no] at hsucc
  have := congrArg UInt32.toNat hsucc
  simp at this
  omega

/-- `InvalidateRoutesWithDst` does what its documentation states exactly if no route it breaks
has a valid sequence number. -/
theorem invalidate_routes_with_dst_documented_iff (t : RoutingTable) (now : Time)
    (unreachable : Std.ExtTreeMap Ipv4Address UInt32) :
    BreaksRoutes now unreachable t (t.invalidate_routes_with_dst now unreachable) ↔
      ∀ (d : Ipv4Address) (e : RoutingTableEntry), t.entries[d]? = some e → e.flag = .valid →
        d ∈ unreachable → e.valid_seq_no = false :=
  ⟨fun hbreaks _ _ he hflag hd => no_seq_no_of_breaksRoutes hbreaks he hflag hd, breaksRoutes_of_no_seq_no⟩

/-- A table whose one route, to 10.0.0.9, has sequence number 5. -/
def oneRoute : RoutingTable :=
  add_route { bad_link_lifetime := milliseconds 15000 } 0
    (RoutingTableEntry.of 0 (some 1) 0x0a000009 true 5 (.of 0x0a000001 0xffffff00) 2 0x0a000002
      (milliseconds 3000))

theorem seq_no_not_incremented :
    ¬ BreaksRoutes (milliseconds 1000) (Std.ExtTreeMap.insert ∅ 0x0a000009 5) oneRoute
      (oneRoute.invalidate_routes_with_dst (milliseconds 1000) (Std.ExtTreeMap.insert ∅ 0x0a000009 5)) := by
  intro hbreaks
  have hempty : (purge { bad_link_lifetime := milliseconds 15000 } 0).entries[(0x0a000009 : Ipv4Address)]? = none := by
    rw [getElem?_purge]
    simp
  have he := (getElem?_add_route { bad_link_lifetime := milliseconds 15000 } 0
    (RoutingTableEntry.of 0 (some 1) 0x0a000009 true 5 (.of 0x0a000001 0xffffff00) 2 0x0a000002
      (milliseconds 3000)) 0x0a000009).trans (if_pos ⟨rfl, hempty⟩)
  have hnone := no_seq_no_of_breaksRoutes hbreaks he (by simp) (by simp)
  simp at hnone

end Ns3.Aodv.RoutingTable
