import Ns3.Aodv.Protocol.Action.Receive

namespace Ns3.Aodv.RoutingProtocol

open RoutingTable (Decays stored_entry)
open RoutingTableEntry (DecaysTo SameRoute)

variable {c : Cause} {s s' : RoutingProtocol}

/-- The entries with a valid sequence number are those the event started with. -/
def StartValid (c : Cause) (t : RoutingTable) : Prop :=
  ∀ (d : Ipv4Address) (e : RoutingTableEntry), t.entries[d]? = some e → e.valid_seq_no = true →
    ∃ e₀, c.start.routing_table.entries[d]? = some e₀ ∧ SameRoute e₀ e

theorem StartValid.known {t : RoutingTable} (h : StartValid c t) : KnownTable c t := by
  intro d e he hvalid
  obtain ⟨e₀, he₀, hroute⟩ := h d e he hvalid
  exact .inr (.inl ⟨e₀, he₀, hroute.valid_seq_no ▸ hvalid, hroute.seq_no.symm⟩)

theorem StartValid.decays {t t' : RoutingTable} (h : StartValid c t) (hdecays : Decays t t') :
    StartValid c t' := by
  intro d e' he' hvalid
  obtain ⟨e, he, hdecay⟩ := hdecays.entry d e' he'
  obtain ⟨e₀, he₀, hroute⟩ := h d e he (hdecay.1.valid_seq_no ▸ hvalid)
  exact ⟨e₀, he₀, hroute.trans hdecay.1⟩

theorem KnownTable.decays {t t' : RoutingTable} (h : KnownTable c t) (hdecays : Decays t t') :
    KnownTable c t' := by
  intro d e' he' hvalid
  obtain ⟨e, he, hdecay⟩ := hdecays.entry d e' he'
  rw [hdecay.1.seq_no]
  exact h d e he (hdecay.1.valid_seq_no ▸ hvalid)

/-- The entry for the originator of a request, after the request has been taken in. -/
def ReverseRoute (h : RreqHeader) (t : RoutingTable) : Prop :=
  ∀ e, t.entries[h.origin]? = some e →
    (e.get_next_hop = h.origin ∨ e.hops = h.hop_count.toUInt16) ∧
      (e.valid_seq_no = true ∨ e.seq_no = h.origin_seqno)

theorem ReverseRoute.decays {h : RreqHeader} {t t' : RoutingTable} (hreverse : ReverseRoute h t)
    (hdecays : Decays t t') : ReverseRoute h t' := by
  intro e' he'
  obtain ⟨e, he, hdecay⟩ := hdecays.entry _ e' he'
  rw [hdecay.1.get_next_hop, hdecay.1.hops, hdecay.1.valid_seq_no, hdecay.1.seq_no]
  exact hreverse e he

section Request

variable {h₀ h : RreqHeader} {src receiver : Ipv4Address}

/-- What is known of the local `toOrigin` of `RecvRequest`. -/
structure LocalOrigin (c : Cause) (now : Time) (h : RreqHeader) (toOrigin : RoutingTableEntry) : Prop where
  known : Known c toOrigin.get_destination toOrigin.seq_no
  key : toOrigin.get_destination = h.origin ∨ toOrigin = RoutingTableEntry.default now

theorem known_of_request (hreceived : c.Received src (.rreq h₀)) (horigin : h.origin = h₀.origin)
    (hseq : h.origin_seqno = h₀.origin_seqno) : Known c h.origin h.origin_seqno :=
  .inr (.inr ⟨h₀, src, hreceived, horigin.symm, hseq.symm⟩)

theorem reverse_route_spec (hreceived : c.Received src (.rreq h₀)) (horigin : h.origin = h₀.origin)
    (hseq : h.origin_seqno = h₀.origin_seqno) (hhop : h.hop_count = h₀.hop_count + 1)
    (hlog : s.log = c.start.log) (hstart : StartValid c s.routing_table)
    {r : Ipv4Address × RoutingTableEntry × RoutingProtocol} (hr : s.reverse_route h receiver src = some r) :
    Actions c s r.2.2 ∧ r.2.2 = { s with routing_table := r.2.2.routing_table } ∧
      ReverseRoute h r.2.2.routing_table ∧ KnownTable c r.2.2.routing_table ∧ LocalOrigin c s.now h r.2.1 := by
  unfold reverse_route at hr
  obtain ⟨i, _, hr⟩ := Option.bind_eq_some_iff.mp hr
  have hknown : Known c h.origin h.origin_seqno := known_of_request hreceived horigin hseq
  have hlookup := (s.lookup_route_fades h.origin).actions (c := c)
  have hstart' : StartValid c (s.lookup_route h.origin).2.routing_table :=
    hstart.decays (s.routing_table.purge_decays s.now)
  have hfst := s.lookup_route_fst h.origin
  cases hrt : (s.lookup_route h.origin).1 with
  | none =>
    simp only [hrt] at hr
    obtain ⟨i', _, rfl⟩ := Option.map_eq_some_iff.mp hr
    set rt := RoutingTableEntry.of s.now (some i'.1) h.origin true h.origin_seqno i'.2 h.hop_count.toUInt16 src
      (reverse_life_time s.attrs h.hop_count) with hrtdef
    refine ⟨hlookup.trans ?_, rfl, ?_, ?_, ⟨.inl rfl, .inr rfl⟩⟩
    · refine add_route_actions rfl ?_
      exact .reverse hreceived horigin.symm (by simp [hrtdef]) (.inl (by simp [hrtdef, hseq]))
        (by simp [hrtdef, hhop]) (by simp [hrtdef]) (by simp [hrtdef]) (by simp [hrtdef]) hlog
    · intro e he
      rcases RoutingTable.entry_of_add_route he with ⟨_, rfl⟩ | hold
      · exact ⟨.inr (by simp [hrtdef]), .inl (by simp [hrtdef])⟩
      · rw [purge_keeps_absent (hfst.symm.trans hrt)] at hold
        cases hold
    · intro d e he hvalid
      rcases RoutingTable.entry_of_add_route he with ⟨hd, rfl⟩ | hold
      · rw [← hd]
        simpa [hrtdef] using hknown
      · exact (hstart'.decays (RoutingTable.purge_decays _ _)).known d e hold hvalid
  | some toOrigin =>
    simp only [hrt] at hr
    cases hr
    have hkey : (s.reverse_entry h src i toOrigin).get_destination = h.origin := by
      have hdst : toOrigin.get_destination = h.origin := get_destination_of_lookup hrt
      exact hdst
    have hpresent := hfst.symm.trans hrt
    have hseqno : (s.reverse_entry h src i toOrigin).seq_no = h.origin_seqno ∨
        toOrigin.valid_seq_no = true ∧ (s.reverse_entry h src i toOrigin).seq_no = toOrigin.seq_no ∧
          seqno_newer h.origin_seqno toOrigin.seq_no = false := by
      by_cases hold : toOrigin.valid_seq_no ∧ ¬ seqno_newer h.origin_seqno toOrigin.seq_no
      · exact .inr ⟨hold.1, by simp [reverse_entry, hold], by simpa using hold.2⟩
      · exact .inl (by simp only [reverse_entry, if_neg hold]; rfl)
    have hentryKnown : Known c h.origin (s.reverse_entry h src i toOrigin).seq_no := by
      rcases hseqno with heq | ⟨hvalid, heq, _⟩
      · rw [heq]
        exact hknown
      · rw [heq]
        exact hstart'.known h.origin toOrigin hpresent hvalid
    refine ⟨hlookup.trans (update_actions hkey ?_), rfl, ?_, ?_, ⟨by rw [hkey]; exact hentryKnown, .inl hkey⟩⟩
    · intro e he
      obtain rfl := Option.some.inj (hpresent.symm.trans he)
      refine .reverse hreceived horigin.symm (by simp [reverse_entry]) ?_ (by simp [reverse_entry, ← hhop])
        (by simp [reverse_entry]) (by simp [reverse_entry]) ?_ hlog
      · rcases hseqno with heq | ⟨hvalid, heq, hold⟩
        · exact .inl (by simpa [hseq] using heq)
        · obtain ⟨e₀, he₀, hroute⟩ := hstart' h.origin toOrigin hpresent hvalid
          exact .inr ⟨e₀, he₀, hroute.valid_seq_no ▸ hvalid, by simpa [hroute.seq_no] using heq, by
            rw [← hseq, ← hroute.seq_no]
            exact hold⟩
      · simp [reverse_entry]
    · intro e he
      rw [routing_table_update, RoutingTable.getElem?_update, if_pos ⟨hkey, by simp [hpresent]⟩] at he
      cases he
      exact ⟨.inr (by simp [reverse_entry]), .inl (by simp [reverse_entry])⟩
    · intro d e he hvalid
      rcases RoutingTable.entry_of_update he with ⟨hd, rfl⟩ | hold
      · rw [← hd, hkey]
        simpa using hentryKnown
      · exact hstart'.known d e hold hvalid

theorem update_previous_hop_spec (hreceived : c.Received src (.rreq h₀)) (hreverse : ReverseRoute h s.routing_table)
    (hknown : KnownTable c s.routing_table) (hprevious : s.update_previous_hop h receiver src = some s') :
    Actions c s s' ∧ s' = { s with routing_table := s'.routing_table } ∧ ReverseRoute h s'.routing_table ∧
      KnownTable c s'.routing_table := by
  unfold update_previous_hop at hprevious
  obtain ⟨i, _, rfl⟩ := Option.map_eq_some_iff.mp hprevious
  have hlookup := (s.lookup_route_fades src).actions (c := c)
  have hdecays := s.routing_table.purge_decays s.now
  cases hrt : (s.lookup_route src).1 with
  | none =>
    simp only
    set rt := RoutingTableEntry.of s.now (some i.1) src false h.origin_seqno i.2 1 src
      s.attrs.active_route_timeout with hrtdef
    refine ⟨hlookup.trans (add_route_actions rfl (Change.of_neighbor hreceived rfl rfl (by simp [hrtdef]) rfl)),
      rfl, ?_, ?_⟩
    · intro e he
      rcases RoutingTable.entry_of_add_route he with ⟨hd, rfl⟩ | hold
      · exact ⟨.inl (by simpa [hrtdef] using hd), .inr (by simp [hrtdef])⟩
      · exact (hreverse.decays (hdecays.trans (RoutingTable.purge_decays _ _))) e hold
    · intro d e he hvalid
      rcases RoutingTable.entry_of_add_route he with ⟨_, rfl⟩ | hold
      · simp [hrtdef] at hvalid
      · exact (hknown.decays (hdecays.trans (RoutingTable.purge_decays _ _))) d e hold hvalid
  | some toNeighbor =>
    have hkey : toNeighbor.get_destination = src := get_destination_of_lookup hrt
    simp only
    refine ⟨hlookup.trans (update_actions hkey fun e _ =>
      Change.of_neighbor hreceived rfl rfl (by simp) rfl), rfl, ?_, ?_⟩
    · intro e he
      rcases RoutingTable.entry_of_update he with ⟨hd, rfl⟩ | hold
      · exact ⟨.inl (by simpa using hkey.symm.trans hd), .inr (by simp)⟩
      · exact (hreverse.decays hdecays) e hold
    · intro d e he hvalid
      rcases RoutingTable.entry_of_update he with ⟨_, rfl⟩ | hold
      · simp at hvalid
      · exact (hknown.decays hdecays) d e hold hvalid

theorem copied_false_to_dst (hmalicious : s.attrs.is_malicious = true) (t : RoutingTable)
    (i : NetDevice × Ipv4InterfaceAddress) : Copied s t (s.false_to_dst h i) :=
  fun _ _ => .inr ⟨rfl, by simp [false_to_dst], .inr ⟨hmalicious, by simp [false_to_dst]⟩⟩

theorem answer_origin {s₁ : RoutingProtocol} {toOrigin : RoutingTableEntry} (htouched : TouchedState s s₁)
    (hdecays : Decays s.routing_table s₁.routing_table) (hreceived : c.Received src (.rreq h₀))
    (horigin : h.origin = h₀.origin) (hseq : h.origin_seqno = h₀.origin_seqno)
    (hreverse : ReverseRoute h s.routing_table) (hknown : KnownTable c s.routing_table)
    (hlocal : LocalOrigin c s.now h toOrigin) :
    let o := s₁.lookup_route h.origin
    (Copied s s.routing_table (o.1.getD toOrigin) ∨
      o.2.routing_table.entries[(o.1.getD toOrigin).get_destination]? = none) ∧
      Known c (o.1.getD toOrigin).get_destination (o.1.getD toOrigin).seq_no := by
  intro o
  have hfst := s₁.lookup_route_fst h.origin
  cases hrt : o.1 with
  | none =>
    refine ⟨?_, hlocal.known⟩
    rcases hlocal.key with hkey | rfl
    · refine .inr ?_
      rw [Option.getD_none, hkey]
      exact hfst.symm.trans hrt
    · exact .inl (copied_default _ _)
  | some rt =>
    have hkey : rt.get_destination = h.origin := get_destination_of_lookup hrt
    have hdecays' := hdecays.trans (s₁.routing_table.purge_decays s₁.now)
    have hpresent := hfst.symm.trans hrt
    refine ⟨.inl ((htouched.lookup_route h.origin).2.copied hrt), ?_⟩
    rw [Option.getD_some, hkey]
    rcases ((hreverse.decays hdecays') rt hpresent).2 with hvalid | hseqno
    · exact (hknown.decays hdecays') h.origin rt hpresent hvalid
    · rw [hseqno]
      exact known_of_request hreceived horigin hseq

/-- The part of `RecvRequest` after the check for an own address. A request that goes on
has the destination number it came with, or one the node knows. -/
theorem answer_request_spec {toOrigin : RoutingTableEntry} (hreceived : c.Received src (.rreq h₀))
    (horigin : h.origin = h₀.origin) (hseq : h.origin_seqno = h₀.origin_seqno)
    (hreverse : ReverseRoute h s.routing_table) (hknown : KnownTable c s.routing_table)
    (hlocal : LocalOrigin c s.now h toOrigin)
    {a : Option RreqHeader × RoutingProtocol} (ha : s.answer_request h toOrigin receiver src = some a) :
    Actions c s a.2 ∧ ∀ h', a.1 = some h' → Fades s a.2 ∧
      (h' = h ∨ ∃ n, h' = { h with dst_seqno := n, unknown_seqno := false } ∧ Known c h.dst n) := by
  unfold answer_request at ha
  simp only at ha
  obtain ⟨htouched, hdecays, hfades⟩ : TouchedState s (s.request_target h).2 ∧
      Decays s.routing_table (s.request_target h).2.routing_table ∧ Fades s (s.request_target h).2 := by
    unfold request_target
    split
    · exact ⟨TouchedState.refl s, Decays.refl _, Fades.refl s⟩
    · exact ⟨(TouchedState.refl s).lookup_route _, s.routing_table.purge_decays s.now, s.lookup_route_fades _⟩
  have hhonest : s.attrs.is_malicious = false → s.request_target h = s.lookup_route h.dst := by
    intro hhonest
    simp [request_target, hhonest]
  cases hrt : (s.request_target h).1 with
  | none =>
    simp only [hrt] at ha
    cases ha
    exact ⟨hfades.actions, fun h' hh' => ⟨hfades, .inl (Option.some.inj hh').symm⟩⟩
  | some toDst =>
    simp only [hrt] at ha
    have hlookup : s.attrs.is_malicious = false → (s.lookup_route h.dst).1 = some toDst := by
      intro hm
      rw [← hhonest hm, hrt]
    split at ha
    next =>
      cases ha
      exact ⟨hfades.actions, nofun⟩
    next =>
      split at ha
      next hfresh =>
        have hvalid : s.attrs.is_malicious = false → toDst.valid_seq_no = true := by
          intro hm
          simp only [fresh_enough, hm, Bool.false_or, Bool.and_eq_true] at hfresh
          exact hfresh.2
        have hknownDst : s.attrs.is_malicious = false → Known c h.dst toDst.seq_no := fun hm =>
          (hknown.decays (s.routing_table.purge_decays s.now)) h.dst toDst (hlookup hm) (hvalid hm)
        obtain ⟨hcopied, hgrat⟩ := answer_origin htouched hdecays hreceived horigin hseq hreverse hknown hlocal
        have htouched' := htouched.lookup_route h.origin
        split at ha
        next =>
          split at ha
          next hmalicious =>
            obtain ⟨i, _, ha⟩ := Option.bind_eq_some_iff.mp ha
            obtain ⟨s₁, hsend, rfl⟩ := Option.map_eq_some_iff.mp ha
            refine ⟨?_, nofun⟩
            exact send_reply_by_intermediate_node_actions htouched'.1 htouched'.2
              (copied_false_to_dst hmalicious _ i) hcopied (.reply (by simp [hmalicious])) hgrat hsend
          next hm =>
            obtain ⟨s₁, hsend, rfl⟩ := Option.map_eq_some_iff.mp ha
            have hm : s.attrs.is_malicious = false := by simpa using hm
            have hkey : toDst.get_destination = h.dst := get_destination_of_lookup (hlookup hm)
            refine ⟨?_, nofun⟩
            refine send_reply_by_intermediate_node_actions htouched'.1 htouched'.2
              (((TouchedState.refl s).lookup_route h.dst).2.copied (hlookup hm)) hcopied (.reply fun _ => ⟨?_, ?_⟩)
              hgrat hsend
            · show Known c toDst.get_destination toDst.seq_no
              rw [hkey]
              exact hknownDst hm
            · intro e he _
              obtain ⟨e₀, he₀, hdecay⟩ := lookup_route_entry (hlookup hm)
              have he : s.routing_table.entries[toDst.get_destination]? = some e := he
              rw [hkey, he₀] at he
              cases he
              refine .inr ⟨hdecay.1.seq_no.symm, ?_⟩
              simp [intermediate_reply, hm, hdecay.1.hops]
        next hkeep =>
          cases ha
          have hm : s.attrs.is_malicious = false := by
            by_contra hm
            simp [may_answer, hm] at hkeep
          exact ⟨hfades.actions, fun h' hh' =>
            ⟨hfades, .inr ⟨toDst.seq_no, (Option.some.inj hh').symm, hknownDst hm⟩⟩⟩
      next =>
        cases ha
        exact ⟨hfades.actions, fun h' hh' => ⟨hfades, .inl (Option.some.inj hh').symm⟩⟩

theorem forward_request_actions {h' : RreqHeader} {ttl : UInt8}
    (hjustified : ∀ s₁ : RoutingProtocol, s₁.routing_table = s.routing_table → Justified c s₁ (.rreq h')) :
    Actions c s (s.forward_request h' ttl) := by
  unfold forward_request
  split
  next => exact .refl
  next =>
    have hloop : ∀ (ifaces : List Ipv4InterfaceAddress) (s₁ : RoutingProtocol),
        s₁.routing_table = s.routing_table → (∀ iface ∈ ifaces, iface ∈ s₁.socket_addresses) →
        Actions c s₁ (ifaces.foldl (fun s iface => ({ s with last_bcast_time := s.now }).send_to iface.local_addr
          (broadcast_destination iface) (ttl - 1) (.rreq h')) s₁) := by
      intro ifaces
      induction ifaces with
      | nil => exact fun _ _ _ => .refl
      | cons iface rest ih =>
        intro s₁ htable hifaces
        have hown : s₁.is_my_own_address iface.local_addr = true := by
          simp only [is_my_own_address, List.any_eq_true]
          exact ⟨iface, hifaces iface (by simp), by simp⟩
        have hclock : Action c s₁ { s₁ with last_bcast_time := s₁.now } := .internal rfl
        refine Relation.ReflTransGen.head hclock (Relation.ReflTransGen.head ?_ (ih _ htable ?_))
        · exact .send (fun _ => hown) (hjustified _ htable)
        · exact fun iface' hiface' => hifaces iface' (by simp [hiface'])
    exact hloop s.socket_addresses s rfl fun _ hiface => hiface

theorem process_request_actions {ttl : UInt8} (hreceived : c.Received src (.rreq h₀))
    (hh : h = { h₀ with hop_count := h₀.hop_count + 1 }) (hlog : s.log = c.start.log)
    (hseqno : s.seq_no = c.start.seq_no) (hstart : StartValid c s.routing_table)
    (hprocess : s.process_request h receiver src ttl = some s') : Actions c s s' := by
  have horigin : h.origin = h₀.origin := by rw [hh]
  have hseq : h.origin_seqno = h₀.origin_seqno := by rw [hh]
  have hhop : h.hop_count = h₀.hop_count + 1 := by rw [hh]
  unfold process_request at hprocess
  obtain ⟨r, hr, hprocess⟩ := Option.bind_eq_some_iff.mp hprocess
  obtain ⟨s₂, hprevious, hprocess⟩ := Option.bind_eq_some_iff.mp hprocess
  obtain ⟨s₃, hnb, hprocess⟩ := Option.bind_eq_some_iff.mp hprocess
  obtain ⟨hactions₁, hframe₁, hreverse₁, hknown₁, hlocal⟩ :=
    reverse_route_spec hreceived horigin hseq hhop hlog hstart hr
  obtain ⟨hactions₂, hframe₂, hreverse₂, hknown₂⟩ :=
    update_previous_hop_spec hreceived hreverse₁ hknown₁ hprevious
  have hfades := nb_update_fades hnb
  have hreverse₃ := hreverse₂.decays hfades.table
  have hknown₃ := hknown₂.decays hfades.table
  refine hactions₁.trans (hactions₂.trans (hfades.actions.trans ?_))
  split at hprocess
  next hown =>
    have hseqno₃ : (s₃.lookup_route h.origin).2.seq_no = c.start.seq_no := by
      rw [lookup_route_seq_no, hfades.frame, hframe₂, hframe₁]
      exact hseqno
    exact (s₃.lookup_route_fades h.origin).actions.trans (send_reply_actions hseqno₃ hown hprocess)
  next =>
    obtain ⟨a, ha, rfl⟩ := Option.map_eq_some_iff.mp hprocess
    have hlocal₃ : LocalOrigin c s₃.now h r.2.1 := by
      have hnow : s₃.now = s.now := by rw [hfades.frame, hframe₂, hframe₁]
      rw [hnow]
      exact hlocal
    obtain ⟨hactions, hforward⟩ := answer_request_spec hreceived horigin hseq hreverse₃ hknown₃ hlocal₃ ha
    refine hactions.trans ?_
    cases hh' : a.1 with
    | none => exact .refl
    | some h' =>
      obtain ⟨hfades', hheader⟩ := hforward h' hh'
      have hreverse := hreverse₃.decays hfades'.table
      refine forward_request_actions fun s₁ htable => ?_
      rw [← htable] at hreverse
      have hroute : ∀ e, s₁.routing_table.entries[h₀.origin]? = some e → e.get_next_hop = h₀.origin ∨
          e.hops = (h₀.hop_count + 1).toUInt16 := by
        intro e he
        rw [← horigin, ← hhop]
        exact (hreverse e (by rw [horigin]; exact he)).1
      rcases hheader with rfl | ⟨n, rfl, hn⟩
      · exact .forward_request hreceived horigin hseq hhop (by rw [hh]) (.inl (by rw [hh]; exact ⟨rfl, rfl⟩)) hroute
      · refine .forward_request hreceived horigin hseq hhop (by rw [hh]) (.inr ?_) hroute
        rw [hh] at hn
        exact hn

theorem recv_request_actions {ttl : UInt8} (hreceived : c.Received src (.rreq h))
    (hlog : s.log = c.start.log) (hseqno : s.seq_no = c.start.seq_no) (hstart : StartValid c s.routing_table)
    (hrecv : s.recv_request h receiver src ttl = some s') : Actions c s s' := by
  unfold recv_request at hrecv
  simp only at hrecv
  refine (s.lookup_route_fades src).actions.trans ?_
  split at hrecv
  next =>
    cases hrecv
    exact .refl
  next =>
    have hcache : ∀ cache, Action c (s.lookup_route src).2
        { (s.lookup_route src).2 with rreq_id_cache := cache } := fun _ => .internal rfl
    refine Relation.ReflTransGen.head
      (hcache ((s.lookup_route src).2.rreq_id_cache.is_duplicate s.now h.origin h.id).2) ?_
    split at hrecv
    next =>
      cases hrecv
      exact .refl
    next =>
      exact process_request_actions hreceived rfl hlog hseqno
        (hstart.decays (s.routing_table.purge_decays s.now)) hrecv

end Request

end Ns3.Aodv.RoutingProtocol
