import Ns3.Aodv.Protocol.Fade
import Ns3.Aodv.Protocol.Step
import Ns3.Aodv.RoutingTable.Decay

namespace Ns3.Aodv.RoutingProtocol

open RoutingTable RoutingTableEntry

variable {s s₀ s₁ : RoutingProtocol} {h : RreqHeader} {receiver src : Ipv4Address}

/-- The state in which `RecvRequest` goes on with a request: none where the neighbour is on the
blacklist or the request is a duplicate. -/
def accepted_request (s : RoutingProtocol) (h : RreqHeader) (src : Ipv4Address) : Option RoutingProtocol :=
  let r := s.lookup_route src
  if r.1.any (·.black_list_state) then none
  else
    let c := r.2.rreq_id_cache.is_duplicate s.now h.origin h.id
    if c.1 then none else some { r.2 with rreq_id_cache := c.2 }

/-- The part of `RecvRequest` that writes the reverse route and the route to the previous hop. -/
def build_reverse_route (s : RoutingProtocol) (h : RreqHeader) (receiver src : Ipv4Address) :
    Option RoutingProtocol :=
  (s.reverse_route h receiver src).bind fun r => r.2.2.update_previous_hop h r.1 src

/-- The request as it is counted one hop up. -/
def counted (h : RreqHeader) : RreqHeader := { h with hop_count := h.hop_count + 1 }

theorem recv_request_of_accepted {ttl : UInt8} (hacc : s.accepted_request h src = some s₀) :
    s.recv_request h receiver src ttl = s₀.process_request (counted h) receiver src ttl := by
  unfold accepted_request at hacc
  unfold recv_request
  dsimp only at hacc ⊢
  split at hacc
  · cases hacc
  next hblack =>
    rw [if_neg hblack]
    split at hacc
    · cases hacc
    next hdup =>
      rw [if_neg hdup, ← Option.some.inj hacc]
      rfl

/-- The newer of the number of a request and a valid one that was known. -/
def newest_seqno (known : Option RoutingTableEntry) (n : UInt32) : UInt32 :=
  match known.filter (·.valid_seq_no) with
  | some e => if seqno_newer n e.seq_no then n else e.seq_no
  | none => n

/-- What an entry has to be to serve as a reverse route. -/
structure Usable (a : Attributes) (now : Time) (h : RreqHeader) (src : Ipv4Address)
    (known : Option RoutingTableEntry) (e : RoutingTableEntry) : Prop where
  flag : e.flag = .valid
  next_hop : e.get_next_hop = src
  hops : e.hops.toNat = h.hop_count.toNat + 1
  valid_seq_no : e.valid_seq_no = true
  seq_no : e.seq_no = newest_seqno known h.origin_seqno
  life_time : 2 * a.net_traversal_time - 2 * (h.hop_count.toNat + 1) * a.node_traversal_time ≤
    e.get_life_time now

/-- The remaining lifetime of a reverse route. -/
def reverse_remaining (s : RoutingProtocol) (h : RreqHeader) (known : Option RoutingTableEntry) : Time :=
  match known with
  | none => reverse_life_time s.attrs h.hop_count
  | some e => max (reverse_life_time s.attrs h.hop_count) (e.get_life_time s.now)

/-- What the first block of `RecvRequest` stores for the originator. -/
structure Reversed (s s₁ : RoutingProtocol) (h : RreqHeader) (src : Ipv4Address)
    (e : RoutingTableEntry) : Prop where
  now : s₁.now = s.now
  entry : s₁.routing_table.entries[h.origin]? = some e
  next_hop : e.get_next_hop = src
  hops : e.hops = h.hop_count.toUInt16
  valid_seq_no : e.valid_seq_no = true
  seq_no : e.seq_no = newest_seqno (s.lookup_route h.origin).1 h.origin_seqno
  flag : e.flag = ((s.lookup_route h.origin).1.map (·.flag)).getD .valid
  life_time : e.get_life_time s.now = reverse_remaining s h (s.lookup_route h.origin).1

theorem purge_purge_none {t : RoutingTable} {now : Time} {d : Ipv4Address}
    (h : (t.purge now).entries[d]? = none) : ((t.purge now).purge now).entries[d]? = none := by
  rw [getElem?_purge, h, Option.bind_none]

theorem get_life_time_stored_entry (rt : RoutingTableEntry) (now : Time) :
    (stored_entry rt).get_life_time now = rt.get_life_time now := by
  unfold stored_entry
  split <;> rfl

theorem reverse_route_reversed {r : Ipv4Address × RoutingTableEntry × RoutingProtocol}
    (hr : s.reverse_route h receiver src = some r) : ∃ e, Reversed s r.2.2 h src e := by
  obtain ⟨i, -, hr⟩ := Option.bind_eq_some_iff.mp hr
  dsimp only at hr
  have hfst := s.lookup_route_fst h.origin
  cases hknown : (s.lookup_route h.origin).1 with
  | none =>
    rw [hknown] at hr hfst
    obtain ⟨i', -, rfl⟩ := Option.map_eq_some_iff.mp hr
    refine ⟨stored_entry (RoutingTableEntry.of s.now i'.1 h.origin true h.origin_seqno i'.2
      h.hop_count.toUInt16 src (reverse_life_time s.attrs h.hop_count)), rfl, ?_, ?_, ?_, ?_, ?_, ?_, ?_⟩
    · change ((s.lookup_route h.origin).2.routing_table.add_route s.now _).entries[h.origin]? = _
      rw [getElem?_add_route, if_pos ⟨rfl, purge_purge_none hfst.symm⟩]
    · simp
    · simp
    · simp
    · simp [hknown, newest_seqno]
    · simp [hknown]
    · rw [get_life_time_stored_entry, hknown]
      exact add_sub_cancel_right _ _
  | some known =>
    rw [hknown] at hr hfst
    obtain rfl := Option.some.inj hr
    refine ⟨stored_entry (s.reverse_entry h src i known), rfl, ?_, ?_, ?_, ?_, ?_, ?_, ?_⟩
    · change ((s.lookup_route h.origin).2.routing_table.update _).entries[h.origin]? = _
      have hkey : known.get_destination = h.origin := get_destination_of_lookup hknown
      rw [getElem?_update, if_pos ⟨hkey, by simp [← hfst]⟩]
    · simp [reverse_entry]
    · simp [reverse_entry]
    · simp [reverse_entry]
    · simp only [stored_entry_seq_no, hknown]
      cases hvalid : known.valid_seq_no <;> cases hnew : seqno_newer h.origin_seqno known.seq_no <;>
        simp [reverse_entry, newest_seqno, Option.filter, hvalid, hnew]
    · simp [reverse_entry, hknown]
    · rw [get_life_time_stored_entry, hknown]
      exact add_sub_cancel_right _ _

theorem update_previous_hop_ne {d : Ipv4Address} (hd : src ≠ d)
    (hs : s.update_previous_hop h receiver src = some s₁) :
    s₁.routing_table.entries[d]? = (s.routing_table.purge s.now).entries[d]? ∨
      s₁.routing_table.entries[d]? = ((s.routing_table.purge s.now).purge s.now).entries[d]? := by
  obtain ⟨i, -, rfl⟩ := Option.map_eq_some_iff.mp hs
  cases hknown : (s.lookup_route src).1 with
  | none =>
    right
    change ((s.routing_table.purge s.now).add_route s.now _).entries[d]? = _
    rw [getElem?_add_route, if_neg fun hc => hd hc.1]
  | some known =>
    left
    change ((s.routing_table.purge s.now).update _).entries[d]? = _
    have hkey : known.get_destination = src := get_destination_of_lookup hknown
    rw [getElem?_update, if_neg fun hc => hd (hkey.symm.trans hc.1)]

theorem update_previous_hop_self (hs : s.update_previous_hop h receiver src = some s₁) :
    ∃ e, s₁.routing_table.entries[src]? = some e ∧ e.valid_seq_no = false := by
  obtain ⟨i, -, rfl⟩ := Option.map_eq_some_iff.mp hs
  have hfst := s.lookup_route_fst src
  cases hknown : (s.lookup_route src).1 with
  | none =>
    rw [hknown] at hfst
    refine ⟨stored_entry (RoutingTableEntry.of s.now i.1 src false h.origin_seqno i.2 1 src
      s.attrs.active_route_timeout), ?_, by simp⟩
    change ((s.lookup_route src).2.routing_table.add_route s.now _).entries[src]? = _
    rw [getElem?_add_route, if_pos ⟨rfl, purge_purge_none hfst.symm⟩]
  | some known =>
    rw [hknown] at hfst
    have hkey : known.get_destination = src := get_destination_of_lookup hknown
    refine ⟨_, (getElem?_update _ _ src).trans (if_pos ⟨hkey, ?_⟩), ?_⟩
    · simp
    · have hmem : (s.lookup_route src).2.routing_table.entries[src]? ≠ none := by simp [← hfst]
      exact hmem

/-- Where a request leaves a usable reverse route: it does not come from its originator itself,
its hop count has room, and the entry for the originator is active, or new with a lifetime. -/
def Reversible (s : RoutingProtocol) (h : RreqHeader) (src : Ipv4Address) : Prop :=
  src ≠ h.origin ∧ h.hop_count ≠ 255 ∧
    match (s.lookup_route h.origin).1 with
    | none => 0 ≤ reverse_life_time s.attrs (h.hop_count + 1)
    | some known => known.flag = .valid

theorem toNat_counted {n : UInt8} : (n + 1).toNat = n.toNat + 1 ↔ n ≠ 255 := by
  have hlt := n.toNat_lt
  have hadd : (n + 1).toNat = (n.toNat + 1) % 256 := by simp [UInt8.toNat_add]
  have hne : n ≠ 255 ↔ n.toNat ≠ 255 := by
    rw [Ne, ← UInt8.toNat_inj]
    rfl
  rw [hadd, hne]
  omega

theorem not_expired_of_lookup {d : Ipv4Address} {e : RoutingTableEntry}
    (he : (s.lookup_route d).1 = some e) (hvalid : e.flag = .valid) : 0 ≤ e.get_life_time s.now := by
  rw [lookup_route_fst] at he
  change (s.routing_table.purge s.now).entries[d]? = some e at he
  rw [getElem?_purge] at he
  obtain ⟨e₀, -, hpurge⟩ := Option.bind_eq_some_iff.mp he
  unfold purge_entry at hpurge
  split at hpurge
  · split at hpurge
    · cases hpurge
    · obtain rfl := Option.some.inj hpurge
      rw [RoutingTableEntry.invalidate] at hvalid
      split at hvalid
      next hflag => rw [hflag] at hvalid; cases hvalid
      next => cases hvalid
    next hflag =>
      obtain rfl := Option.some.inj hpurge
      rw [hflag] at hvalid
      cases hvalid
  next hlive =>
    obtain rfl := Option.some.inj hpurge
    exact not_lt.mp hlive

theorem purge_entry_eq_self {now l : Time} {e : RoutingTableEntry}
    (hlive : 0 ≤ e.get_life_time now) : purge_entry now l e = some e :=
  if_neg (not_lt.mpr hlive)

theorem purge_entry_not_valid {now lifetime : Time} {e e' : RoutingTableEntry}
    (hpurge : purge_entry now lifetime e = some e')
    (hbad : e.flag ≠ .valid ∨ e.get_life_time now < 0) : e'.flag ≠ .valid := by
  intro hvalid
  have hflag := (purge_entry_decays hpurge).valid hvalid
  rcases hbad with hbad | hbad
  · exact hbad hflag
  · rw [purge_entry, if_pos hbad, hflag] at hpurge
    obtain rfl := Option.some.inj hpurge
    rw [RoutingTableEntry.invalidate, hflag] at hvalid
    cases hvalid

/-- The theorem on the reverse route. -/
theorem reverse_route_usable_iff (hacc : s.accepted_request h src = some s₀)
    (hbuild : s₀.build_reverse_route (counted h) receiver src = some s₁) :
    (∃ e, s₁.routing_table.entries[h.origin]? = some e ∧
      Usable s₀.attrs s₀.now h src (s₀.lookup_route h.origin).1 e) ↔ s₀.Reversible h src := by
  obtain ⟨r, hreverse, hprevious⟩ := Option.bind_eq_some_iff.mp hbuild
  obtain ⟨e₁, hreversed⟩ := reverse_route_reversed hreverse
  have hentry : r.2.2.routing_table.entries[h.origin]? = some e₁ := hreversed.entry
  have hnow : r.2.2.now = s₀.now := hreversed.now
  by_cases hsrc : src = h.origin
  · subst hsrc
    obtain ⟨e, he, hfalse⟩ := update_previous_hop_self hprevious
    constructor
    · rintro ⟨e', he', husable⟩
      obtain rfl := Option.some.inj (he.symm.trans he')
      rw [husable.valid_seq_no] at hfalse
      cases hfalse
    · exact fun hrev => absurd rfl hrev.1
  have hfinal := update_previous_hop_ne (d := h.origin) hsrc hprevious
  simp only [getElem?_purge, hentry, hnow, Option.bind_some] at hfinal
  change _ = purge_entry s₀.now r.2.2.routing_table.bad_link_lifetime e₁ ∨
    _ = (purge_entry s₀.now r.2.2.routing_table.bad_link_lifetime e₁).bind
      (purge_entry s₀.now r.2.2.routing_table.bad_link_lifetime) at hfinal
  have hhops : e₁.hops.toNat = (h.hop_count + 1).toNat := by
    rw [hreversed.hops]
    exact UInt8.toNat_toUInt16 _
  constructor
  · rintro ⟨e, he, husable⟩
    -- what the purge leaves is the entry, and was active
    have hlast : ∃ e₂, purge_entry s₀.now r.2.2.routing_table.bad_link_lifetime e₁ = some e₂ ∧
        DecaysTo e₂ e := by
      rcases hfinal with hfinal | hfinal
      · exact ⟨e, hfinal.symm.trans he, DecaysTo.refl e⟩
      · obtain ⟨e₂, h₂, h₃⟩ := Option.bind_eq_some_iff.mp (hfinal.symm.trans he)
        exact ⟨e₂, h₂, purge_entry_decays h₃⟩
    obtain ⟨e₂, hpurge, hdecays⟩ := hlast
    have hvalid₂ : e₂.flag = .valid := hdecays.valid husable.flag
    have hgood : e₁.flag = .valid ∧ 0 ≤ e₁.get_life_time s₀.now := by
      by_contra hbad
      refine purge_entry_not_valid hpurge ?_ hvalid₂
      rcases not_and_or.mp hbad with hbad | hbad
      · exact .inl hbad
      · exact .inr (not_le.mp hbad)
    refine ⟨hsrc, ?_, ?_⟩
    · rw [← toNat_counted, ← hhops, ← husable.hops, ← (purge_entry_decays hpurge).1.hops,
        ← hdecays.1.hops]
    · have hflag := hreversed.flag
      have hlife := hreversed.life_time
      change e₁.flag = ((s₀.lookup_route h.origin).1.map (·.flag)).getD .valid at hflag
      change e₁.get_life_time s₀.now = reverse_remaining s₀ (counted h) (s₀.lookup_route h.origin).1 at hlife
      cases hknown : (s₀.lookup_route h.origin).1 with
      | none =>
        rw [hknown] at hlife
        exact hgood.2.trans_eq hlife
      | some known =>
        rw [hknown] at hflag
        exact hflag.symm.trans hgood.1
  · rintro ⟨-, hcount, hknown'⟩
    have hflag := hreversed.flag
    have hlife := hreversed.life_time
    change e₁.flag = ((s₀.lookup_route h.origin).1.map (·.flag)).getD .valid at hflag
    change e₁.get_life_time s₀.now = reverse_remaining s₀ (counted h) (s₀.lookup_route h.origin).1 at hlife
    have hgood : e₁.flag = .valid ∧ 0 ≤ e₁.get_life_time s₀.now ∧
        reverse_life_time s₀.attrs (h.hop_count + 1) ≤ e₁.get_life_time s₀.now := by
      cases hknown : (s₀.lookup_route h.origin).1 with
      | none =>
        rw [hknown] at hflag hlife hknown'
        exact ⟨hflag, hknown'.trans_eq hlife.symm, hlife.symm.le⟩
      | some known =>
        rw [hknown] at hflag hlife hknown'
        have hvalid : known.flag = .valid := hknown'
        refine ⟨hflag.trans hvalid, ?_, (le_max_left _ _).trans_eq hlife.symm⟩
        rw [hlife]
        exact le_max_of_le_right (not_expired_of_lookup hknown hvalid)
    have hpurge := purge_entry_eq_self (l := r.2.2.routing_table.bad_link_lifetime) hgood.2.1
    refine ⟨e₁, ?_, ?_⟩
    · rcases hfinal with hfinal | hfinal
      · exact hfinal.trans hpurge
      · rw [hfinal, hpurge, Option.bind_some, hpurge]
    · refine ⟨hgood.1, hreversed.next_hop, hhops.trans (toNat_counted.mpr hcount),
        hreversed.valid_seq_no, hreversed.seq_no, ?_⟩
      have hmin := hgood.2.2
      rw [reverse_life_time, toNat_counted.mpr hcount] at hmin
      exact_mod_cast hmin

end Ns3.Aodv.RoutingProtocol

namespace Ns3.Aodv.Relay

open RoutingProtocol

/-- The interface of a node, and the addresses of a neighbour and of a node further away. -/
def iface : Ipv4InterfaceAddress := Ipv4InterfaceAddress.of 0x0a000001 0xffffff00

def neighbor : Ipv4Address := 0x0a000002

def far : Ipv4Address := 0x0a000003

def node : Option RoutingProtocol :=
  (init { arithmetic := .default } 64 (milliseconds 30000) false false 0).step 0
    (.interface_up { interfaces := [{ device := 0, addresses := [Ipv4InterfaceAddress.of
      Ipv4Address.get_loopback 0xff000000] }, { device := 1, addresses := [iface] }] } 1)

/-- A request of the node further away, as the neighbour forwards it. -/
def request : RreqHeader :=
  { hop_count := 0, id := 1, dst := 0x0a000009, origin := far, origin_seqno := 5 }

/-- The node after the reverse route of the request, from a state. -/
def reversed (s : RoutingProtocol) : Option (RoutingProtocol × RoutingProtocol) :=
  (s.accepted_request request neighbor).bind fun s₀ =>
    (s₀.build_reverse_route (counted request) iface.local_addr neighbor).map fun s₁ => (s₀, s₁)

theorem accepted_of_reversed {s s₀ s₁ : RoutingProtocol} (h : reversed s = some (s₀, s₁)) :
    s.accepted_request request neighbor = some s₀ ∧
      s₀.build_reverse_route (counted request) iface.local_addr neighbor = some s₁ := by
  obtain ⟨s₀', hacc, h⟩ := Option.bind_eq_some_iff.mp h
  obtain ⟨s₁', hbuild, h⟩ := Option.map_eq_some_iff.mp h
  obtain ⟨rfl, rfl⟩ := Prod.mk.inj h
  exact ⟨hacc, hbuild⟩

/-- A new reverse route is usable. -/
theorem usable_new_route : ∃ s s₀ s₁ : RoutingProtocol,
    s.accepted_request request neighbor = some s₀ ∧
    s₀.build_reverse_route (counted request) iface.local_addr neighbor = some s₁ ∧
    ((∃ e, s₁.routing_table.entries[request.origin]? = some e ∧
      Usable s₀.attrs s₀.now request neighbor (s₀.lookup_route request.origin).1 e) ↔
        s₀.Reversible request neighbor) ∧
    ∃ e, s₁.routing_table.entries[request.origin]? = some e ∧
      Usable s₀.attrs s₀.now request neighbor (s₀.lookup_route request.origin).1 e := by
  have hrun : (node.bind reversed).any (fun x => decide ((x.1.lookup_route request.origin).1.isNone ∧
      0 ≤ reverse_life_time x.1.attrs (request.hop_count + 1))) = true := by decide +kernel
  obtain ⟨⟨s₀, s₁⟩, hx, hnew⟩ := (Option.any_eq_true _ _).mp hrun
  obtain ⟨s, -, hreversed⟩ := Option.bind_eq_some_iff.mp hx
  obtain ⟨hacc, hbuild⟩ := accepted_of_reversed hreversed
  obtain ⟨hnone, hlife⟩ := of_decide_eq_true hnew
  have hiff := reverse_route_usable_iff hacc hbuild
  have hrev : s₀.Reversible request neighbor := by
    refine ⟨by decide, by decide, ?_⟩
    rw [Option.isNone_iff_eq_none.mp hnone]
    exact hlife
  exact ⟨s, s₀, s₁, hacc, hbuild, hiff, hiff.mpr hrev⟩

/-- While the node searches for the originator its reverse route is not active, and when the
originator is the previous hop its sequence number is not valid. -/
theorem reverse_route_unusable :
    (∃ s s₀ s₁ : RoutingProtocol, (node.bind (·.send_request far)) = some s ∧
      s.accepted_request request neighbor = some s₀ ∧
      s₀.build_reverse_route (counted request) iface.local_addr neighbor = some s₁ ∧
      ∃ e, s₁.routing_table.entries[request.origin]? = some e ∧ e.flag = .in_search) ∧
    ∃ s s₀ s₁ : RoutingProtocol, node = some s ∧ s.accepted_request request far = some s₀ ∧
      s₀.build_reverse_route (counted request) iface.local_addr far = some s₁ ∧
      ∃ e, s₁.routing_table.entries[request.origin]? = some e ∧ e.valid_seq_no = false := by
  constructor
  · have hrun : ((node.bind (·.send_request far)).bind reversed).any (fun x =>
        x.2.routing_table.entries[request.origin]?.any fun e => e.flag == .in_search) = true := by
      decide +kernel
    obtain ⟨⟨s₀, s₁⟩, hx, hentry⟩ := (Option.any_eq_true _ _).mp hrun
    obtain ⟨s, hs, hreversed⟩ := Option.bind_eq_some_iff.mp hx
    obtain ⟨hacc, hbuild⟩ := accepted_of_reversed hreversed
    obtain ⟨e, he, hflag⟩ := (Option.any_eq_true _ _).mp hentry
    exact ⟨s, s₀, s₁, hs, hacc, hbuild, e, he, by simpa using hflag⟩
  · have hrun : (node.bind fun s => (s.accepted_request request far).bind fun s₀ =>
        s₀.build_reverse_route (counted request) iface.local_addr far).isSome = true := by
      decide +kernel
    obtain ⟨s₁, hx⟩ := Option.isSome_iff_exists.mp hrun
    obtain ⟨s, hs, hx⟩ := Option.bind_eq_some_iff.mp hx
    obtain ⟨s₀, hacc, hbuild⟩ := Option.bind_eq_some_iff.mp hx
    obtain ⟨r, -, hprevious⟩ := Option.bind_eq_some_iff.mp hbuild
    exact ⟨s, s₀, s₁, hs, hacc, hbuild, update_previous_hop_self hprevious⟩

end Ns3.Aodv.Relay
