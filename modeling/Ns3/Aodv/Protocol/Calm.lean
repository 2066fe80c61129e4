import Ns3.Aodv.Protocol.Rerr.Notify

namespace Ns3.Aodv

/-- Whether an effect is a route error given to a socket. -/
def Effect.isRerr : Effect → Bool
  | .send t => match t.message with
    | .rerr _ => true
    | _ => false
  | _ => false

namespace RoutingTable

variable {t : RoutingTable} {now : Time} {d : Ipv4Address} {e rt : RoutingTableEntry}

/-- An entry that is not searched for has no requests counted. -/
def Uncounted (e : RoutingTableEntry) : Prop := e.flag ≠ .in_search → e.req_count = 0

/-- No entry is blacklisted, only a search counts requests, and a broken link is remembered
for a while. -/
structure Sound (t : RoutingTable) : Prop where
  lifetime : 0 ≤ t.bad_link_lifetime
  unlisted : ∀ (d : Ipv4Address) (e : RoutingTableEntry), t.entries[d]? = some e → e.black_list_state = false
  uncounted : ∀ (d : Ipv4Address) (e : RoutingTableEntry), t.entries[d]? = some e → Uncounted e

@[simp]
theorem black_list_state_invalidate (e : RoutingTableEntry) (now lifetime : Time) :
    (e.invalidate now lifetime).black_list_state = e.black_list_state := by
  unfold RoutingTableEntry.invalidate
  split <;> rfl

@[simp]
theorem black_list_state_insert_precursor (e : RoutingTableEntry) (id : Ipv4Address) :
    (e.insert_precursor id).black_list_state = e.black_list_state := by
  unfold RoutingTableEntry.insert_precursor
  split <;> rfl

@[simp]
theorem black_list_state_stored_entry (rt : RoutingTableEntry) :
    (stored_entry rt).black_list_state = rt.black_list_state := by
  unfold stored_entry
  split <;> rfl

theorem black_list_state_purge_entry {lifetime : Time} {e' : RoutingTableEntry}
    (h : purge_entry now lifetime e = some e') : e'.black_list_state = e.black_list_state := by
  unfold purge_entry at h
  split at h
  · split at h
    · cases h
    · exact Option.some.inj h ▸ black_list_state_invalidate ..
    · rw [← Option.some.inj h]
  · rw [← Option.some.inj h]

theorem Uncounted.invalidate (h : Uncounted e) (now lifetime : Time) : Uncounted (e.invalidate now lifetime) := by
  unfold RoutingTableEntry.invalidate
  split
  · exact h
  · exact fun _ => rfl

theorem uncounted_stored_entry (rt : RoutingTableEntry) : Uncounted (stored_entry rt) := by
  unfold stored_entry
  split
  next hflag => exact fun _ => rfl
  next hflag => exact fun hnot => absurd (not_not.mp hflag) hnot

theorem Uncounted.purge_entry {lifetime : Time} {e' : RoutingTableEntry} (h : Uncounted e)
    (hpurge : purge_entry now lifetime e = some e') : Uncounted e' := by
  unfold RoutingTable.purge_entry at hpurge
  split at hpurge
  · split at hpurge
    · cases hpurge
    · exact Option.some.inj hpurge ▸ h.invalidate now lifetime
    · exact Option.some.inj hpurge ▸ h
  · exact Option.some.inj hpurge ▸ h

namespace Sound

theorem purge (h : t.Sound) (now : Time) : (t.purge now).Sound := by
  have hentry : ∀ (d : Ipv4Address) (e : RoutingTableEntry), (t.purge now).entries[d]? = some e →
      ∃ e₀, t.entries[d]? = some e₀ ∧ purge_entry now t.bad_link_lifetime e₀ = some e := by
    intro d e he
    rw [getElem?_purge] at he
    exact Option.bind_eq_some_iff.mp he
  refine ⟨h.lifetime, fun d e he => ?_, fun d e he => ?_⟩
  · obtain ⟨e₀, he₀, hpurge⟩ := hentry d e he
    exact (black_list_state_purge_entry hpurge).trans (h.unlisted d e₀ he₀)
  · obtain ⟨e₀, he₀, hpurge⟩ := hentry d e he
    exact Uncounted.purge_entry (h.uncounted d e₀ he₀) hpurge

theorem update (h : t.Sound) (hrt : rt.black_list_state = false) : (t.update rt).Sound := by
  refine ⟨h.lifetime, fun d e he => ?_, fun d e he => ?_⟩
  · rw [getElem?_update] at he
    split at he
    · rw [← Option.some.inj he, black_list_state_stored_entry, hrt]
    · exact h.unlisted d e he
  · rw [getElem?_update] at he
    split at he
    · exact Option.some.inj he ▸ uncounted_stored_entry rt
    · exact h.uncounted d e he

theorem add_route (h : t.Sound) (now : Time) (hrt : rt.black_list_state = false) : (t.add_route now rt).Sound := by
  refine ⟨h.lifetime, fun d e he => ?_, fun d e he => ?_⟩
  · rw [getElem?_add_route] at he
    split at he
    · rw [← Option.some.inj he, black_list_state_stored_entry, hrt]
    · exact (h.purge now).unlisted d e he
  · rw [getElem?_add_route] at he
    split at he
    · exact Option.some.inj he ▸ uncounted_stored_entry rt
    · exact (h.purge now).uncounted d e he

theorem mono {t' : RoutingTable} (h : t.Sound) (hlifetime : t'.bad_link_lifetime = t.bad_link_lifetime)
    (hentries : ∀ (d : Ipv4Address) (e : RoutingTableEntry), t'.entries[d]? = some e → t.entries[d]? = some e) :
    t'.Sound :=
  ⟨hlifetime ▸ h.lifetime, fun d e he => h.unlisted d e (hentries d e he),
    fun d e he => h.uncounted d e (hentries d e he)⟩

theorem delete_route (h : t.Sound) (now : Time) (dst : Ipv4Address) : (t.delete_route now dst).Sound := by
  refine (h.purge now).mono rfl fun d e he => ?_
  rw [getElem?_delete_route] at he
  split at he
  · cases he
  · exact he

theorem invalidate_routes_with_dst (h : t.Sound) (now : Time) (unreachable : Std.ExtTreeMap Ipv4Address UInt32) :
    (t.invalidate_routes_with_dst now unreachable).Sound := by
  refine ⟨h.lifetime, fun d e he => ?_, fun d e he => ?_⟩
  · rw [RoutingTable.invalidate_routes_with_dst, Std.ExtTreeMap.getElem?_map, Option.map_eq_some_iff] at he
    obtain ⟨e₀, he₀, rfl⟩ := he
    have hbefore := (h.purge now).unlisted d e₀ he₀
    split
    · rw [black_list_state_invalidate, hbefore]
    · exact hbefore
  · rw [RoutingTable.invalidate_routes_with_dst, Std.ExtTreeMap.getElem?_map, Option.map_eq_some_iff] at he
    obtain ⟨e₀, he₀, rfl⟩ := he
    have hbefore : Uncounted e₀ := (h.purge now).uncounted d e₀ he₀
    split
    · exact hbefore.invalidate now t.bad_link_lifetime
    · exact hbefore

theorem delete_all_routes_from_interface (h : t.Sound) (iface : Ipv4InterfaceAddress) :
    (t.delete_all_routes_from_interface iface).Sound := by
  refine h.mono rfl fun d e he => ?_
  rw [RoutingTable.delete_all_routes_from_interface, Std.ExtTreeMap.getElem?_filter',
    Option.filter_eq_some_iff] at he
  exact he.1

theorem clear (h : t.Sound) : t.clear.Sound := h.mono rfl fun d e he => by simp [RoutingTable.clear] at he

end Sound

end RoutingTable

namespace RoutingProtocol

variable {s s₁ s' : RoutingProtocol} {d : Ipv4Address} {e : Effect} {rt : RoutingTableEntry}

/-- The state has got a sound table and other effects than route errors, with the error count
left as it is. -/
structure Calm (s s' : RoutingProtocol) : Prop where
  attrs : s'.attrs = s.attrs
  rerr_count : s'.rerr_count = s.rerr_count
  log : ∃ l, s'.log = s.log ++ l ∧ ∀ e ∈ l, e.isRerr = false
  table : s'.routing_table.Sound

namespace Calm

theorem refl (hs : s.routing_table.Sound) : Calm s s := ⟨rfl, rfl, ⟨[], by simp, by simp⟩, hs⟩

theorem trans (h : Calm s s₁) (h' : Calm s₁ s') : Calm s s' := by
  obtain ⟨l, hl, hcalm⟩ := h.log
  obtain ⟨l', hl', hcalm'⟩ := h'.log
  refine ⟨h'.attrs.trans h.attrs, h'.rerr_count.trans h.rerr_count,
    ⟨l ++ l', by rw [hl', hl, List.append_assoc], ?_⟩, h'.table⟩
  intro e he
  rcases List.mem_append.mp he with he | he
  · exact hcalm e he
  · exact hcalm' e he

theorem of_table (hattrs : s'.attrs = s.attrs) (hcount : s'.rerr_count = s.rerr_count) (hlog : s'.log = s.log)
    (htable : s'.routing_table.Sound) : Calm s s' :=
  ⟨hattrs, hcount, ⟨[], by simp [hlog], by simp⟩, htable⟩

theorem emit (h : Calm s s') (he : e.isRerr = false) : Calm s (s'.emit e) :=
  h.trans ⟨rfl, rfl, ⟨[e], rfl, by simpa using he⟩, h.table⟩

theorem append (h : Calm s s') {l : List Effect} (hl : ∀ e ∈ l, e.isRerr = false) :
    Calm s { s' with log := s'.log ++ l } :=
  h.trans ⟨rfl, rfl, ⟨l, rfl, hl⟩, h.table⟩

theorem lookup_route (h : Calm s s') (d : Ipv4Address) : Calm s (s'.lookup_route d).2 :=
  h.trans (.of_table rfl rfl rfl (h.table.purge s'.now))

theorem update {r : RoutingTableEntry} (h : Calm s s') (hrt : r.black_list_state = false) : Calm s (s'.update r) :=
  h.trans (.of_table rfl rfl rfl (h.table.update hrt))

theorem add_route (h : Calm s s') (hrt : rt.black_list_state = false) : Calm s (s'.add_route rt) :=
  h.trans (.of_table rfl rfl rfl (h.table.add_route s'.now hrt))

theorem queue (h : Calm s s') (q : RequestQueue) : Calm s { s' with queue := q } :=
  h.trans (.of_table rfl rfl rfl h.table)

theorem foldl {α : Type} {f : RoutingProtocol → α → RoutingProtocol}
    (hf : ∀ s₁ a, Calm s s₁ → Calm s (f s₁ a)) (h : Calm s s') (as : List α) : Calm s (as.foldl f s') := by
  induction as generalizing s' with
  | nil => exact h
  | cons a as ih => exact ih (hf s' a h)

end Calm

theorem black_list_state_lookup {r : RoutingTableEntry} (hs : s.routing_table.Sound)
    (h : (s.lookup_route d).1 = some r) : r.black_list_state = false :=
  (hs.purge s.now).unlisted d r h

theorem black_list_state_getD (hs : s.routing_table.Sound) (d : Ipv4Address) (now : Time) :
    ((s.lookup_route d).1.getD (RoutingTableEntry.default now)).black_list_state = false := by
  cases hrt : (s.lookup_route d).1 with
  | none => rfl
  | some rt => exact black_list_state_lookup hs hrt

end RoutingProtocol

end Ns3.Aodv
