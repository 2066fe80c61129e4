import Ns3.Aodv.Protocol.Action.Receive
import Ns3.Aodv.Route.Keep

namespace Ns3.Aodv

open RoutingTable RoutingTableEntry

/-- What a reply decides in an entry: the sequence number, the next hop and the hop count. -/
def RoutingTableEntry.route_data (e : RoutingTableEntry) : UInt32 × Ipv4Address × UInt16 :=
  (e.seq_no, e.get_next_hop, e.hops)

theorem RoutingTableEntry.SameRoute.route_data {e e' : RoutingTableEntry} (h : SameRoute e e') :
    e'.route_data = e.route_data := by
  simp only [RoutingTableEntry.route_data, h.seq_no, h.get_next_hop, h.hops]

namespace RoutingTable

variable {t : RoutingTable} {now : Time} {d k id : Ipv4Address} {e : RoutingTableEntry}

def view (t : RoutingTable) (k : Ipv4Address) : Option (UInt32 × Ipv4Address × UInt16) :=
  t.entries[k]?.map (·.route_data)

theorem view_isSome : (t.view k).isSome = t.entries[k]?.isSome := Option.isSome_map

/-- No entry is deleted by a purge. -/
def Lasting (now : Time) (t : RoutingTable) : Prop :=
  ∀ (d : Ipv4Address) (e : RoutingTableEntry),
    t.entries[d]? = some e → e.flag = .invalid → 0 ≤ e.get_life_time now

theorem Settled.lasting (h : t.Settled now) : t.Lasting now := by
  intro d e he hinvalid
  rcases h d e he with hlive | hsearch
  · exact hlive
  · rw [hinvalid] at hsearch
    cases hsearch

theorem Lasting.update (h : t.Lasting now) (hlive : e.flag = .invalid → 0 ≤ e.get_life_time now) :
    (t.update e).Lasting now := by
  intro d e' he' hinvalid
  rw [getElem?_update] at he'
  split at he'
  · obtain rfl := Option.some.inj he'
    rw [RoutingProtocol.get_life_time_stored_entry]
    exact hlive (by rwa [stored_entry_flag] at hinvalid)
  · exact h d e' he' hinvalid

theorem Lasting.purge_view (h : t.Lasting now) : (t.purge now).view k = t.view k := by
  unfold view
  rw [getElem?_purge]
  cases he : t.entries[k]? with
  | none => rfl
  | some e =>
    rw [Option.bind_some, Option.map_some]
    have hkept : (purge_entry now t.bad_link_lifetime e).isSome = true := by
      unfold purge_entry
      split
      next hover =>
        split
        next hflag => exact absurd (h k e he hflag) (not_le.mpr hover)
        · rfl
        · rfl
      · rfl
    obtain ⟨e', he'⟩ := Option.isSome_iff_exists.mp hkept
    rw [he', Option.map_some, (purge_entry_decays he').1.route_data]

theorem update_view : (t.update e).view k =
    if e.get_destination = k ∧ (t.view k).isSome then some e.route_data else t.view k := by
  unfold view
  rw [getElem?_update]
  cases t.entries[k]? <;> by_cases hkey : e.get_destination = k <;>
    simp [hkey, (stored_entry_sameRoute e).route_data]

theorem purge_view_eq (h : (t.purge now).entries[k]? = some e) : t.view k = some e.route_data := by
  obtain ⟨e₀, he₀, hdecays⟩ := (t.purge_decays now).entry k e h
  rw [view, he₀, Option.map_some, hdecays.1.route_data]

/-- The entry of a destination, or a default-constructed one, with a further precursor. -/
def noted (now : Time) (t : RoutingTable) (d id : Ipv4Address) : RoutingTableEntry :=
  (t.entries[d]?.getD (RoutingTableEntry.default now)).insert_precursor id

theorem get_life_time_insert_precursor : (e.insert_precursor id).get_life_time now = e.get_life_time now := by
  unfold insert_precursor
  split <;> rfl

theorem stays_insert_precursor (h : Stays now e) : Stays now (e.insert_precursor id) := by
  rw [Stays, get_life_time_insert_precursor, insert_precursor_flag]
  exact h

theorem noted_live (h : t.Lasting now) (hinvalid : (noted now t d id).flag = .invalid) :
    0 ≤ (noted now t d id).get_life_time now := by
  unfold noted at hinvalid ⊢
  rw [insert_precursor_flag] at hinvalid
  rw [get_life_time_insert_precursor]
  cases he : t.entries[d]? with
  | none =>
    rw [he] at hinvalid
    cases hinvalid
  | some e =>
    rw [he] at hinvalid
    exact h d e he hinvalid

/-- Noting a precursor at a known destination changes no route. At an unknown one it writes
the default-constructed entry over that of its own destination. -/
theorem update_noted_view : (t.update (noted now t d id)).view k =
    if k = Ipv4Address.uninitialized ∧ (t.view d).isSome = false ∧ (t.view k).isSome then
      some (RoutingTableEntry.default now).route_data
    else t.view k := by
  rw [update_view, noted, (insert_precursor_sameRoute _ id).route_data,
    (insert_precursor_sameRoute _ id).get_destination]
  cases hd : t.entries[d]? with
  | none =>
    have hnone : t.view d = none := by rw [view, hd, Option.map_none]
    rw [Option.getD_none, hnone]
    have hdest : (RoutingTableEntry.default now).get_destination = Ipv4Address.uninitialized := rfl
    by_cases hkey : Ipv4Address.uninitialized = k
    · simp [hdest, hkey]
    · simp [hdest, hkey, Ne.symm hkey]
  | some e =>
    have hsome : t.view d = some e.route_data := by rw [view, hd, Option.map_some]
    rw [Option.getD_some, hsome, t.keyed d e hd]
    by_cases hkey : d = k
    · subst hkey
      simp [hsome]
    · simp [hkey]

end RoutingTable

namespace RoutingProtocol

variable {s s' : RoutingProtocol} {h : RrepHeader} {sender receiver dst d : Ipv4Address}
  {e toOrigin : RoutingTableEntry}

theorem update_precursors_view (hsettled : s.routing_table.Settled s.now)
    (hkey : toOrigin.get_destination ≠ dst) (hlive : toOrigin.flag = .invalid → 0 ≤ toOrigin.get_life_time s.now)
    (he : s.routing_table.entries[dst]? = some e) :
    (s.update_precursors dst toOrigin).2.routing_table.view dst =
      if e.flag = .valid ∧ dst = Ipv4Address.uninitialized ∧
          ((s.routing_table.view e.get_next_hop).isSome = false ∨
            (s.routing_table.view toOrigin.get_next_hop).isSome = false) then
        some (RoutingTableEntry.default s.now).route_data
      else some e.route_data := by
  have hview : s.routing_table.view dst = some e.route_data := by rw [view, he, Option.map_some]
  unfold update_precursors
  rw [lookup_valid_route, lookup_route_of_settled hsettled, he]
  by_cases hvalid : e.flag = .valid
  swap
  · have hfilter : (some e).filter (·.flag = .valid) = none := by simp [Option.filter, hvalid]
    simp only [hfilter, if_neg (not_and.mpr fun hflag => absurd hflag hvalid)]
    exact hview
  have hfilter : (some e).filter (·.flag = .valid) = some e := by simp [Option.filter, hvalid]
  simp only [hfilter]
  have hdest : (e.insert_precursor toOrigin.get_next_hop).get_destination = dst :=
    (insert_precursor_sameRoute e _).get_destination.trans (s.routing_table.keyed dst e he)
  -- the table with the precursor noted at the destination
  set t₁ := s.routing_table.update (e.insert_precursor toOrigin.get_next_hop) with ht₁
  have hsettled₁ : t₁.Settled s.now := hsettled.update (stays_insert_precursor (hsettled dst e he))
  have hview₁ : ∀ k, t₁.view k = s.routing_table.view k := by
    intro k
    rw [ht₁, update_view, hdest, (insert_precursor_sameRoute e _).route_data]
    split
    next hk => rw [← hk.1, hview]
    next => rfl
  have hnext : (e.insert_precursor toOrigin.get_next_hop).get_next_hop = e.get_next_hop :=
    (insert_precursor_sameRoute e _).get_next_hop
  have hlookup : (s.update (e.insert_precursor toOrigin.get_next_hop)).lookup_route e.get_next_hop =
      (t₁.entries[e.get_next_hop]?, s.update (e.insert_precursor toOrigin.get_next_hop)) :=
    lookup_route_of_settled hsettled₁ _
  rw [hnext, hlookup]
  -- the table with the precursors noted at the next hop and at the originator
  set t₂ := t₁.update (noted s.now t₁ e.get_next_hop toOrigin.get_next_hop) with ht₂
  set t₃ := t₂.update (toOrigin.insert_precursor e.get_next_hop) with ht₃
  change ((t₃.purge s.now).update (noted s.now (t₃.purge s.now)
    (toOrigin.insert_precursor e.get_next_hop).get_next_hop e.get_next_hop)).view dst = _
  have hlasting₃ : t₃.Lasting s.now := by
    refine (hsettled₁.lasting.update fun hinvalid => noted_live hsettled₁.lasting hinvalid).update ?_
    rw [insert_precursor_flag, get_life_time_insert_precursor]
    exact hlive
  have hview₂ : ∀ k, t₂.view k = if k = Ipv4Address.uninitialized ∧
      (s.routing_table.view e.get_next_hop).isSome = false ∧ (s.routing_table.view k).isSome then
        some (RoutingTableEntry.default s.now).route_data
      else s.routing_table.view k := by
    intro k
    rw [ht₂, update_noted_view, hview₁, hview₁]
  have hview₃ : t₃.view dst = t₂.view dst := by
    rw [ht₃, update_view, (insert_precursor_sameRoute toOrigin _).get_destination, if_neg fun hk => hkey hk.1]
  have hsome₃ : ∀ k, (t₃.view k).isSome = (s.routing_table.view k).isSome := by
    intro k
    rw [view_isSome, view_isSome, ht₃, isSome_update, ht₂, isSome_update, ht₁, isSome_update]
  rw [update_noted_view, hlasting₃.purge_view, hlasting₃.purge_view, hsome₃, hsome₃,
    (insert_precursor_sameRoute toOrigin _).get_next_hop, hview₃, hview₂, hview]
  by_cases huninit : dst = Ipv4Address.uninitialized
  · cases (s.routing_table.view e.get_next_hop).isSome <;>
      cases (s.routing_table.view toOrigin.get_next_hop).isSome <;> simp [hvalid, huninit]
  · simp [huninit]

/-- What a default-constructed entry says about a route. -/
def default_data : UInt32 × Ipv4Address × UInt16 := (0, Ipv4Address.uninitialized, 0)

/-- Noting the precursors writes a default-constructed entry over that of the destination. -/
def Clobbers (t : RoutingTable) (h : RrepHeader) : Prop :=
  h.dst = Ipv4Address.uninitialized ∧ ∃ e o : RoutingTableEntry,
    t.entries[h.dst]? = some e ∧ e.flag = .valid ∧ t.entries[h.origin]? = some o ∧ o.flag ≠ .in_search ∧
      ((t.view e.get_next_hop).isSome = false ∨ (t.view o.get_next_hop).isSome = false)

theorem forward_reply_view {ttl : UInt8} (hfresh : s.routing_table.Fresh s.now) (hne : h.dst ≠ h.origin)
    (hforward : s.forward_reply h ttl = some s') :
    (Clobbers (s.routing_table.purge s.now) h → s'.routing_table.view h.dst = some default_data) ∧
      (¬ Clobbers (s.routing_table.purge s.now) h →
        s'.routing_table.view h.dst = (s.routing_table.purge s.now).view h.dst) := by
  have hsettled := hfresh.settled
  set t := s.routing_table.purge s.now with ht
  unfold forward_reply at hforward
  have hlookup : s.lookup_route h.origin = (t.entries[h.origin]?, { s with routing_table := t }) := rfl
  rw [hlookup] at hforward
  cases ho : t.entries[h.origin]? with
  | none =>
    simp only [ho] at hforward
    obtain rfl := Option.some.inj hforward
    refine ⟨?_, fun _ => rfl⟩
    rintro ⟨-, e, o, -, -, hsome, -⟩
    rw [ho] at hsome
    cases hsome
  | some o =>
    simp only [ho] at hforward
    split at hforward
    next hsearch =>
      obtain rfl := Option.some.inj hforward
      refine ⟨?_, fun _ => rfl⟩
      rintro ⟨-, e, o', -, -, hsome, hflag, -⟩
      obtain rfl := Option.some.inj (ho.symm.trans hsome)
      exact absurd hsearch hflag
    next hflag =>
      set o' := o.set_life_time s.now (max s.attrs.active_route_timeout (o.get_life_time s.now)) with ho'
      set s₁ : RoutingProtocol := ({ s with routing_table := t } : RoutingProtocol).update o' with hs₁
      have hdest : o'.get_destination = h.origin := t.keyed h.origin o ho
      have hlive : 0 ≤ o'.get_life_time s.now := by
        have hlo : 0 ≤ o.get_life_time s.now := (hsettled h.origin o ho).resolve_right hflag
        have heq : o'.get_life_time s.now = max s.attrs.active_route_timeout (o.get_life_time s.now) :=
          add_sub_cancel_right _ _
        exact heq ▸ hlo.trans (le_max_right _ _)
      have hsettled₁ : s₁.routing_table.Settled s₁.now := hsettled.update (.inl hlive)
      have hdst : s₁.routing_table.entries[h.dst]? = t.entries[h.dst]? := by
        change (t.update o').entries[h.dst]? = _
        rw [getElem?_update, if_neg fun hk => hne (hk.1.symm.trans hdest)]
      have hsome : ∀ k, (s₁.routing_table.view k).isSome = (t.view k).isSome := by
        intro k
        rw [view_isSome, view_isSome]
        exact isSome_update k
      have hview : s'.routing_table.view h.dst = (s₁.update_precursors h.dst o').2.routing_table.view h.dst := by
        split at hforward
        · obtain rfl := Option.some.inj hforward
          rfl
        · obtain ⟨source, -, rfl⟩ := Option.map_eq_some_iff.mp hforward
          rfl
      rw [hview]
      cases he : t.entries[h.dst]? with
      | none =>
        rw [he] at hdst
        refine ⟨?_, fun _ => ?_⟩
        · rintro ⟨-, e, o, hsome, -⟩
          rw [he] at hsome
          cases hsome
        · unfold update_precursors
          rw [lookup_valid_route, lookup_route_of_settled hsettled₁, hdst]
          change s₁.routing_table.view h.dst = _
          rw [view, view, hdst, he]
      | some e =>
        rw [update_precursors_view hsettled₁ (fun hk => hne (hk.symm.trans hdest)) (fun _ => hlive)
          (hdst.trans he), hsome, hsome]
        refine ⟨?_, fun hno => ?_⟩
        · rintro ⟨huninit, e', o'', he', hvalid, ho'', -, hunknown⟩
          obtain rfl := Option.some.inj (he.symm.trans he')
          obtain rfl := Option.some.inj (ho.symm.trans ho'')
          exact if_pos ⟨hvalid, huninit, hunknown⟩
        · rw [if_neg, view, he, Option.map_some]
          rintro ⟨hvalid, huninit, hunknown⟩
          exact hno ⟨huninit, e, o, he, hvalid, ho, hflag, hunknown⟩

def reply_data (h : RrepHeader) (sender : Ipv4Address) : UInt32 × Ipv4Address × UInt16 :=
  (h.dst_seqno, sender, h.hop_count.toUInt16)

/-- The four circumstances in which an existing entry is updated. -/
def Circumstance (h : RrepHeader) (toDst : RoutingTableEntry) : Prop :=
  toDst.valid_seq_no = false ∨ 0 < h.dst_seqno.toInt32 - toDst.seq_no.toInt32 ∨
    (h.dst_seqno = toDst.seq_no ∧ toDst.flag ≠ .valid) ∨
    (h.dst_seqno = toDst.seq_no ∧ h.hop_count.toNat < toDst.hops.toNat)

theorem reply_improves_iff {toDst : RoutingTableEntry} : reply_improves h toDst = true ↔ Circumstance h toDst := by
  unfold reply_improves Circumstance seqno_newer
  simp only [Bool.or_eq_true, Bool.and_eq_true, Bool.not_eq_true', decide_eq_true_eq, beq_iff_eq, bne_iff_ne,
    UInt16.lt_iff_toNat_lt, UInt8.toNat_toUInt16]
  grind

/-- The table of a reply's destination after the decision, as the next lookup leaves it. -/
structure Decided (s s₁ : RoutingProtocol) (h : RrepHeader) (sender : Ipv4Address)
    (toDst : RoutingTableEntry) : Prop where
  now : s₁.now = s.now
  own : s₁.is_my_own_address = s.is_my_own_address
  fresh : s₁.routing_table.Fresh s.now
  other : ∀ d, d ≠ h.dst → (s₁.routing_table.purge s.now).entries[d]? =
    ((s.routing_table.purge s.now).purge s.now).entries[d]?
  updated : Circumstance h toDst → ∃ e, (s₁.routing_table.purge s.now).entries[h.dst]? = some e ∧
    e.flag = .valid ∧ e.route_data = reply_data h sender
  kept : ¬ Circumstance h toDst → (s₁.routing_table.purge s.now).entries[h.dst]? =
    ((s.routing_table.purge s.now).purge s.now).entries[h.dst]?

theorem reply_entry_live {i : NetDevice × Ipv4InterfaceAddress} :
    0 ≤ (s.reply_entry h sender i).get_life_time s.now := by
  have heq : (s.reply_entry h sender i).get_life_time s.now = h.get_life_time := add_sub_cancel_right _ _
  rw [heq, RrepHeader.get_life_time, milliseconds]
  positivity

theorem install_reply_decided {n : Ipv4Address} {i : NetDevice × Ipv4InterfaceAddress} {toDst : RoutingTableEntry}
    (hfound : (s.lookup_route h.dst).1 = some toDst) :
    Decided s (s.install_reply h (s.reply_entry h n i)) h n toDst := by
  have hfresh := fresh_purge s.routing_table s.now
  have hentry : (s.routing_table.purge s.now).entries[h.dst]? = some toDst := hfound
  unfold install_reply
  simp only [hfound]
  split
  next himproves =>
    have hcirc := reply_improves_iff.mp himproves
    have hdest : (s.reply_entry h n i).get_destination = h.dst := rfl
    have hstays : Stays s.now (stored_entry (s.reply_entry h n i)) := stays_stored_entry (.inl reply_entry_live)
    refine ⟨rfl, rfl, hfresh.update fun _ => reply_entry_live, ?_, fun _ => ?_, fun hno => absurd hcirc hno⟩
    · intro d hd
      change (((s.routing_table.purge s.now).update _).purge s.now).entries[d]? = _
      rw [getElem?_purge, getElem?_update, if_neg fun hk => hd (hk.1.symm.trans hdest)]
      exact (getElem?_purge _ _ _).symm
    · refine ⟨stored_entry (s.reply_entry h n i), ?_, by simp [reply_entry], ?_⟩
      · change (((s.routing_table.purge s.now).update _).purge s.now).entries[h.dst]? = _
        rw [getElem?_purge, getElem?_update, if_pos ⟨hdest, by simp [hentry]⟩, Option.bind_some]
        exact purge_entry_of_stays hstays
      · rw [(stored_entry_sameRoute _).route_data]
        rfl
  next himproves =>
    have hno : ¬ Circumstance h toDst := fun hcirc => himproves (reply_improves_iff.mpr hcirc)
    exact ⟨rfl, rfl, hfresh, fun d _ => rfl, fun hcirc => absurd hcirc hno, fun _ => rfl⟩

theorem Decided.of_purged {s₁ s₂ : RoutingProtocol} {toDst : RoutingTableEntry} (h₁ : Decided s s₁ h sender toDst)
    (hnow : s₂.now = s₁.now) (hown : s₂.is_my_own_address = s₁.is_my_own_address)
    (htable : s₂.routing_table = s₁.routing_table.purge s.now) : Decided s s₂ h sender toDst := by
  have hsettled := h₁.fresh.settled
  have hpurge : s₂.routing_table.purge s.now = s₁.routing_table.purge s.now := by rw [htable, hsettled.purge]
  refine ⟨hnow.trans h₁.now, hown.trans h₁.own, htable ▸ hsettled.fresh, ?_, ?_, ?_⟩ <;> rw [hpurge]
  · exact h₁.other
  · exact h₁.updated
  · exact h₁.kept

theorem send_reply_ack_decided {s₁ s₂ : RoutingProtocol} {toDst : RoutingTableEntry}
    (h₁ : Decided s s₁ h sender toDst) (hack : s₁.send_reply_ack d = some s₂) :
    Decided s s₂ h sender toDst := by
  obtain ⟨source, -, rfl⟩ := Option.map_eq_some_iff.mp hack
  refine h₁.of_purged rfl rfl ?_
  rw [← h₁.now]
  rfl

theorem reply_at_origin_view {s₁ : RoutingProtocol} {i : NetDevice × Ipv4InterfaceAddress} {toDst : RoutingTableEntry}
    (hfound : (s.lookup_route h.dst).1 = some toDst) (h₁ : Decided s s₁ h sender toDst) :
    (s₁.reply_at_origin h.dst (s.reply_entry h sender i) toDst).routing_table.view h.dst =
      if toDst.flag = .in_search then some (reply_data h sender)
      else (s₁.routing_table.purge s.now).view h.dst := by
  have hentry : (s.routing_table.purge s.now).entries[h.dst]? = some toDst := hfound
  unfold reply_at_origin
  split
  next hsearch =>
    have hsome : ∃ e, (s₁.routing_table.purge s.now).entries[h.dst]? = some e := by
      by_cases hcirc : Circumstance h toDst
      · obtain ⟨e, he, -⟩ := h₁.updated hcirc
        exact ⟨e, he⟩
      · refine ⟨toDst, (h₁.kept hcirc).trans ?_⟩
        rw [getElem?_purge, hentry]
        exact purge_entry_of_stays (.inr hsearch)
    obtain ⟨e, he⟩ := hsome
    obtain ⟨e₁, he₁, -⟩ := (s₁.routing_table.purge_decays s.now).entry _ e he
    change ((s₁.routing_table.update (s.reply_entry h sender i)).purge s₁.now).view h.dst = _
    have hdest : (s.reply_entry h sender i).get_destination = h.dst := rfl
    rw [h₁.now, view, getElem?_purge, getElem?_update, if_pos ⟨hdest, by simp [he₁]⟩, Option.bind_some]
    have hstays : Stays s.now (stored_entry (s.reply_entry h sender i)) := stays_stored_entry (.inl reply_entry_live)
    rw [purge_entry_of_stays hstays, Option.map_some, (stored_entry_sameRoute _).route_data]
    rfl
  next =>
    change (s₁.routing_table.purge s₁.now).view h.dst = _
    rw [h₁.now]

/-- The reply as it is counted one hop up. -/
def counted_reply (h : RrepHeader) : RrepHeader := { h with hop_count := h.hop_count + 1 }

/-- The destination has the data of the reply in one of the four circumstances, and otherwise
what it had, as long as it is there. -/
def Replaced (v : Option (UInt32 × Ipv4Address × UInt16)) (h : RrepHeader) (sender : Ipv4Address)
    (toDst : RoutingTableEntry) : Prop :=
  (Circumstance h toDst → v = some (reply_data h sender)) ∧
    (¬ Circumstance h toDst → ∀ w, v = some w → w = toDst.route_data)

instance {toDst : RoutingTableEntry} : Decidable (Circumstance h toDst) :=
  decidable_of_iff _ reply_improves_iff

/-- The route data the four circumstances ask for. -/
def asked_data (h : RrepHeader) (sender : Ipv4Address) (toDst : RoutingTableEntry) :
    UInt32 × Ipv4Address × UInt16 :=
  if Circumstance h toDst then reply_data h sender else toDst.route_data

/-- The entry of a destination after two lookups. -/
def lasting_route (s : RoutingProtocol) (d : Ipv4Address) : Option RoutingTableEntry :=
  ((s.routing_table.purge s.now).purge s.now).entries[d]?

/-- The reply travels on, to the address of a default-constructed entry, and one of the two
next hops has no entry. -/
def Clobbered (s : RoutingProtocol) (h : RrepHeader) (sender : Ipv4Address) (toDst : RoutingTableEntry) : Prop :=
  h.dst = Ipv4Address.uninitialized ∧ (Circumstance h toDst ∨ toDst.flag = .valid) ∧
    ∃ o, s.lasting_route h.origin = some o ∧ o.flag ≠ .in_search ∧
      ∃ x ∈ [(asked_data h sender toDst).2.1, o.get_next_hop], x ≠ h.dst ∧ s.lasting_route x = none

theorem Decided.replaced {s₁ : RoutingProtocol} {toDst : RoutingTableEntry}
    (hfound : (s.lookup_route h.dst).1 = some toDst) (h₁ : Decided s s₁ h sender toDst) :
    Replaced ((s₁.routing_table.purge s.now).view h.dst) h sender toDst := by
  have hentry : (s.routing_table.purge s.now).entries[h.dst]? = some toDst := hfound
  refine ⟨fun hcirc => ?_, fun hno w hw => ?_⟩
  · obtain ⟨e, he, -, hdata⟩ := h₁.updated hcirc
    rw [view, he, Option.map_some, hdata]
  · rw [view, h₁.kept hno] at hw
    have hview := purge_view_eq (Option.map_eq_some_iff.mp hw).choose_spec.1
    rw [view, hentry, Option.map_some, (Option.map_eq_some_iff.mp hw).choose_spec.2] at hview
    exact (Option.some.inj hview).symm

theorem Decided.clobbers_iff {s₁ : RoutingProtocol} {toDst : RoutingTableEntry} (hne : h.dst ≠ h.origin)
    (hfound : (s.lookup_route h.dst).1 = some toDst) (h₁ : Decided s s₁ h sender toDst) :
    Clobbers (s₁.routing_table.purge s.now) h ↔ Clobbered s h sender toDst := by
  have hentry : (s.routing_table.purge s.now).entries[h.dst]? = some toDst := hfound
  have horigin := h₁.other h.origin hne.symm
  have hknown : ∀ e : RoutingTableEntry, (s₁.routing_table.purge s.now).entries[h.dst]? = some e → ∀ x,
      ((s₁.routing_table.purge s.now).view x).isSome = false ↔ x ≠ h.dst ∧ s.lasting_route x = none := by
    intro e he x
    rw [view_isSome]
    by_cases hx : x = h.dst
    · subst hx
      simp [he]
    · rw [h₁.other x hx, Option.isSome_eq_false_iff, Option.isNone_iff_eq_none]
      exact (and_iff_right hx).symm
  have hfinal : (∃ e : RoutingTableEntry, (s₁.routing_table.purge s.now).entries[h.dst]? = some e ∧
      e.flag = .valid ∧ e.get_next_hop = (asked_data h sender toDst).2.1) ∨
      ¬ (Circumstance h toDst ∨ toDst.flag = .valid) ∧
        ∀ e : RoutingTableEntry, (s₁.routing_table.purge s.now).entries[h.dst]? = some e → e.flag ≠ .valid := by
    by_cases hcirc : Circumstance h toDst
    · left
      obtain ⟨e, he, hvalid, hdata⟩ := h₁.updated hcirc
      exact ⟨e, he, hvalid, by rw [asked_data, if_pos hcirc, ← hdata]; rfl⟩
    · rw [h₁.kept hcirc, getElem?_purge, hentry, Option.bind_some]
      by_cases hvalid : toDst.flag = .valid
      · left
        refine ⟨toDst, ?_, hvalid, by rw [asked_data, if_neg hcirc]; rfl⟩
        exact purge_entry_of_stays (.inl (not_expired_of_lookup hfound hvalid))
      · right
        exact ⟨not_or.mpr ⟨hcirc, hvalid⟩, fun e he hflag => purge_entry_not_valid he (.inl hvalid) hflag⟩
  unfold Clobbers Clobbered
  refine and_congr_right fun _ => ?_
  rcases hfinal with ⟨e, he, hvalid, hnext⟩ | ⟨hinactive, hnot⟩
  · have hactive : Circumstance h toDst ∨ toDst.flag = .valid := by
      by_contra hno
      obtain ⟨hcirc, hflag⟩ := not_or.mp hno
      rw [h₁.kept hcirc, getElem?_purge, hentry, Option.bind_some] at he
      exact purge_entry_not_valid he (.inl hflag) hvalid
    constructor
    · rintro ⟨e', o, he', -, ho, hflag, hunknown⟩
      obtain rfl := Option.some.inj (he.symm.trans he')
      refine ⟨hactive, o, horigin.symm.trans ho, hflag, ?_⟩
      rw [hknown e he, hknown e he, hnext] at hunknown
      simpa using hunknown
    · rintro ⟨-, o, ho, hflag, hunknown⟩
      refine ⟨e, o, he, hvalid, horigin.trans ho, hflag, ?_⟩
      rw [hknown e he, hknown e he, hnext]
      simpa using hunknown
  · constructor
    · rintro ⟨e, o, he, hvalid, -⟩
      exact absurd hvalid (hnot e he)
    · rintro ⟨hactive, -⟩
      exact absurd hactive hinactive

theorem detect_wormhole_frame {r : Bool × RoutingProtocol} (hpass : s.detect_wormhole h receiver sender = some r) :
    r.2 = { s with detector := r.2.detector, log := r.2.log } := by
  unfold detect_wormhole at hpass
  split at hpass
  · split at hpass
    · obtain rfl := Option.some.inj hpass
      rfl
    · split at hpass
      · exact (evaluate_rtt_probe_actions (c := ⟨s, .hello_timer_expire⟩) hpass).2.1
      · obtain rfl := Option.some.inj hpass
        rfl
  · obtain rfl := Option.some.inj hpass
    rfl

theorem accept_reply_replaced_iff {toDst : RoutingTableEntry} {ttl : UInt8} (hne : h.dst ≠ h.origin)
    (hfound : (s.lookup_route h.dst).1 = some toDst) (haccept : s.accept_reply h receiver sender ttl = some s') :
    Replaced (s'.routing_table.view h.dst) h sender toDst ↔
      if s.is_my_own_address h.origin then
        toDst.flag = .in_search → ¬ Circumstance h toDst → toDst.route_data = reply_data h sender
      else Clobbered s h sender toDst → asked_data h sender toDst = default_data := by
  obtain ⟨i, -, haccept⟩ := Option.bind_eq_some_iff.mp haccept
  simp only [hfound, Option.getD_some] at haccept
  obtain ⟨s₂, hack, haccept⟩ := Option.bind_eq_some_iff.mp haccept
  have hdecided : Decided s s₂ h sender toDst := by
    have hinstall := install_reply_decided (i := i) (n := sender) hfound
    split at hack
    · exact send_reply_ack_decided hinstall hack
    · exact Option.some.inj hack ▸ hinstall
  have hreplaced := hdecided.replaced hfound
  rw [hdecided.own] at haccept
  split at haccept
  next hown =>
    obtain rfl := Option.some.inj haccept
    rw [if_pos hown, reply_at_origin_view hfound hdecided]
    by_cases hsearch : toDst.flag = .in_search
    · rw [if_pos hsearch]
      constructor
      · rintro ⟨-, hkept⟩ - hno
        exact (hkept hno _ rfl).symm
      · intro hsame
        exact ⟨fun _ => rfl, fun hno w hw => (Option.some.inj hw).symm.trans (hsame hsearch hno).symm⟩
    · rw [if_neg hsearch]
      exact ⟨fun _ hflag => absurd hflag hsearch, fun _ => hreplaced⟩
  next hown =>
    rw [if_neg hown, ← hdecided.clobbers_iff hne hfound]
    have hview := forward_reply_view (h := { h with ack_required := false }) (hdecided.now ▸ hdecided.fresh) hne haccept
    rw [hdecided.now] at hview
    change (Clobbers (s₂.routing_table.purge s.now) h → s'.routing_table.view h.dst = some default_data) ∧
      (¬ Clobbers (s₂.routing_table.purge s.now) h →
        s'.routing_table.view h.dst = (s₂.routing_table.purge s.now).view h.dst) at hview
    by_cases hclobbers : Clobbers (s₂.routing_table.purge s.now) h
    · rw [hview.1 hclobbers]
      by_cases hcirc : Circumstance h toDst
      · have hasked : asked_data h sender toDst = reply_data h sender := if_pos hcirc
        rw [hasked]
        exact ⟨fun hr _ => (Option.some.inj (hr.1 hcirc)).symm,
          fun hdata => ⟨fun _ => congrArg some (hdata hclobbers).symm, fun hno => absurd hcirc hno⟩⟩
      · have hasked : asked_data h sender toDst = toDst.route_data := if_neg hcirc
        rw [hasked]
        exact ⟨fun hr _ => (hr.2 hcirc _ rfl).symm,
          fun hdata => ⟨fun hc => absurd hc hcirc,
            fun _ w hw => (Option.some.inj hw).symm.trans (hdata hclobbers).symm⟩⟩
    · rw [hview.2 hclobbers]
      exact ⟨fun _ hc => absurd hc hclobbers, fun _ => hreplaced⟩

/-- The theorem on the update of an existing route by a reply. -/
theorem recv_reply_replaced_iff {s₁ : RoutingProtocol} {toDst : RoutingTableEntry} {ttl : UInt8}
    (hne : h.dst ≠ h.origin)
    (hpass : s.detect_wormhole (counted_reply h) receiver sender = some (false, s₁))
    (hfound : (s.lookup_route h.dst).1 = some toDst) (hrecv : s.recv_reply h receiver sender ttl = some s') :
    Replaced (s'.routing_table.view h.dst) (counted_reply h) sender toDst ↔
      if s.is_my_own_address h.origin then
        toDst.flag = .in_search → ¬ Circumstance (counted_reply h) toDst →
          toDst.route_data = reply_data (counted_reply h) sender
      else Clobbered s (counted_reply h) sender toDst →
        asked_data (counted_reply h) sender toDst = default_data := by
  have hframe := detect_wormhole_frame hpass
  have haccept : s₁.accept_reply (counted_reply h) receiver sender ttl = some s' := by
    unfold recv_reply at hrecv
    dsimp only at hrecv
    rw [if_neg hne] at hrecv
    change (s.detect_wormhole (counted_reply h) receiver sender).bind _ = _ at hrecv
    rw [hpass] at hrecv
    exact hrecv
  dsimp only at hframe
  rw [hframe] at haccept
  exact accept_reply_replaced_iff (s := { s with detector := s₁.detector, log := s₁.log })
    (h := counted_reply h) hne hfound haccept

end RoutingProtocol

namespace Relay

open RoutingProtocol

def reply (n : UInt32) : RrepHeader :=
  { dst := far, dst_seqno := n, origin := iface.local_addr, hop_count := 1, life_time := 5000 }

/-- The node searching for a destination whose request gave it an entry. -/
def searching : Option RoutingProtocol :=
  (node.bind fun s => (s.recv_request request iface.local_addr neighbor 64)).bind fun s =>
    ({ s with now := milliseconds 20000 } : RoutingProtocol).send_request far

/-- The searching node, the entry it has, and the node after a reply. -/
def replied (n : UInt32) : Option (RoutingProtocol × RoutingTableEntry × RoutingProtocol) :=
  searching.bind fun s => (s.lookup_route far).1.bind fun toDst =>
    (s.recv_reply (reply n) iface.local_addr neighbor 64).map fun s' => (s, toDst, s')

theorem replied_spec {n : UInt32} {s s' : RoutingProtocol} {toDst : RoutingTableEntry}
    (h : replied n = some (s, toDst, s')) : searching = some s ∧
      (s.lookup_route (reply n).dst).1 = some toDst ∧
      s.recv_reply (reply n) iface.local_addr neighbor 64 = some s' := by
  obtain ⟨s₀, hs, hfound⟩ := Option.bind_eq_some_iff.mp h
  obtain ⟨e, he, hreplied⟩ := Option.bind_eq_some_iff.mp hfound
  obtain ⟨s₁, hrecv, heq⟩ := Option.map_eq_some_iff.mp hreplied
  cases heq
  exact ⟨hs, he, hrecv⟩

theorem detect_disabled {s : RoutingProtocol} {h : RrepHeader} {receiver sender : Ipv4Address}
    (hoff : s.enable_rtt_wormhole_detect = false) : s.detect_wormhole h receiver sender = some (false, s) := by
  rw [detect_wormhole, hoff]
  rfl

/-- A newer reply replaces the entry. -/
theorem newer_reply_replaces : ∃ (s s' s₁ : RoutingProtocol) (toDst : RoutingTableEntry),
    (reply 9).dst ≠ (reply 9).origin ∧
    s.detect_wormhole (counted_reply (reply 9)) iface.local_addr neighbor = some (false, s₁) ∧
    (s.lookup_route (reply 9).dst).1 = some toDst ∧
    s.recv_reply (reply 9) iface.local_addr neighbor 64 = some s' ∧
    Replaced (s'.routing_table.view (reply 9).dst) (counted_reply (reply 9)) neighbor toDst := by
  have hrun : (replied 9).any (fun x => decide (x.1.enable_rtt_wormhole_detect = false ∧
      x.1.is_my_own_address (reply 9).origin = true ∧ Circumstance (counted_reply (reply 9)) x.2.1)) = true := by
    decide +kernel
  obtain ⟨⟨s, toDst, s'⟩, hx, hgood⟩ := (Option.any_eq_true _ _).mp hrun
  obtain ⟨-, hfound, hrecv⟩ := replied_spec hx
  obtain ⟨hoff, hown, hcirc⟩ := of_decide_eq_true hgood
  have hne : (reply 9).dst ≠ (reply 9).origin := by decide
  have hpass : s.detect_wormhole (counted_reply (reply 9)) iface.local_addr neighbor = some (false, s) :=
    detect_disabled hoff
  refine ⟨s, s', s, toDst, hne, hpass, hfound, hrecv, ?_⟩
  refine (recv_reply_replaced_iff hne hpass hfound hrecv).mpr ?_
  rw [if_pos hown]
  exact fun _ hno => absurd hcirc hno

/-- The originator replaces a newer number that it searches with. -/
theorem newer_route_replaced : ∃ (s s' : RoutingProtocol) (toDst : RoutingTableEntry),
    searching = some s ∧ (reply 3).dst ≠ (reply 3).origin ∧
    s.detect_wormhole (counted_reply (reply 3)) iface.local_addr neighbor = some (false, s) ∧
    (s.lookup_route (reply 3).dst).1 = some toDst ∧ toDst.flag = .in_search ∧ toDst.valid_seq_no = true ∧
    0 < toDst.seq_no.toInt32 - (reply 3).dst_seqno.toInt32 ∧
    s.recv_reply (reply 3) iface.local_addr neighbor 64 = some s' ∧
    s'.routing_table.view (reply 3).dst = some (reply_data (counted_reply (reply 3)) neighbor) ∧
    ¬ Replaced (s'.routing_table.view (reply 3).dst) (counted_reply (reply 3)) neighbor toDst := by
  have hrun : (replied 3).any (fun x => decide (x.1.enable_rtt_wormhole_detect = false ∧
      ¬ Circumstance (counted_reply (reply 3)) x.2.1 ∧ x.2.1.flag = .in_search ∧ x.2.1.valid_seq_no = true ∧
      0 < x.2.1.seq_no.toInt32 - (reply 3).dst_seqno.toInt32 ∧
      x.2.2.routing_table.view (reply 3).dst = some (reply_data (counted_reply (reply 3)) neighbor) ∧
      x.2.1.route_data ≠ reply_data (counted_reply (reply 3)) neighbor)) = true := by
    decide +kernel
  obtain ⟨⟨s, toDst, s'⟩, hx, hgood⟩ := (Option.any_eq_true _ _).mp hrun
  obtain ⟨hs, hfound, hrecv⟩ := replied_spec hx
  obtain ⟨hoff, hno, hsearch, hvalid, hnewer, hview, hdata⟩ := of_decide_eq_true hgood
  refine ⟨s, s', toDst, hs, by decide, detect_disabled hoff, hfound, hsearch, hvalid, hnewer, hrecv, hview, ?_⟩
  exact fun hreplaced => hdata (hreplaced.2 hno _ hview).symm

end Relay

end Ns3.Aodv
