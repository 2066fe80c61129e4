import Ns3.Aodv.Protocol.Action

namespace Ns3.Aodv.RoutingProtocol

open RoutingTable (Decays)
open RoutingTableEntry (DecaysTo SameRoute)

variable {c : Cause} {s s' s'' : RoutingProtocol}

theorem Change.of_decays {t t' : RoutingTable} (h : Decays t t') (d : Ipv4Address) :
    Change c s d t.entries[d]? t'.entries[d]? :=
  .decay (h.entry d)

theorem Change.refl (d : Ipv4Address) (old : Option RoutingTableEntry) : Change c s d old old :=
  .decay fun e' he' => ⟨e', he', DecaysTo.refl e'⟩

theorem Action.of_decays {t : RoutingTable} (h : Decays s.routing_table t) :
    Action c s { s with routing_table := t } :=
  .table h.lifetime (Change.of_decays h)

theorem Actions.one (h : Action c s s') : Actions c s s' := Relation.ReflTransGen.single h

theorem send_quiet_actions (source destination : Ipv4Address) (ttl : UInt8) {m : Message}
    (hclaims : m.claims = false) (hprobe : m ≠ .rverify (some false)) :
    Actions c s (s.send_to source destination ttl m) :=
  Actions.one (.send (by simp [hclaims]) (.other hclaims hprobe))

theorem emit_rerrs_actions {l : List Effect} (hl : ∀ e ∈ l, IsRerr e) :
    Actions c s { s with log := s.log ++ l } := by
  induction l generalizing s with
  | nil => simpa using Relation.ReflTransGen.refl
  | cons e l ih =>
    obtain ⟨source, destination, ttl, h, rfl⟩ := hl e (by simp)
    have hsend : Actions c s (s.send_to source destination ttl (.rerr h)) :=
      send_quiet_actions source destination ttl rfl nofun
    have hrest := ih (s := s.send_to source destination ttl (.rerr h)) fun e he => hl e (by simp [he])
    refine hsend.trans ?_
    simpa [send_to, emit] using hrest

theorem Fades.actions (h : Fades s s') : Actions c s s' := by
  obtain ⟨l, hl, hrerr⟩ := h.log
  have htable : Actions c s { s with routing_table := s'.routing_table } :=
    Actions.one (Action.of_decays h.table)
  refine (htable.trans (emit_rerrs_actions hrerr)).tail (.internal ?_)
  rw [Internal, h.frame, hl]

theorem emit_errors_actions (l : List (Callback × Packet × Ipv4Header)) :
    Actions c s { s with log := s.log ++ l.map fun e => .error e.1 e.2.1 e.2.2 } := by
  induction l generalizing s with
  | nil => simpa using Relation.ReflTransGen.refl
  | cons e l ih =>
    have hreport : Action c s (s.emit (.error e.1 e.2.1 e.2.2)) := .report (.inl ⟨_, _, _, rfl⟩)
    refine Relation.ReflTransGen.head hreport ?_
    simpa [emit] using ih (s := s.emit (.error e.1 e.2.1 e.2.2))

theorem update_actions {dst : Ipv4Address} {rt : RoutingTableEntry} (hdst : rt.get_destination = dst)
    (h : ∀ e, s.routing_table.entries[dst]? = some e →
      Change c s dst (some e) (some (RoutingTable.stored_entry rt))) :
    Actions c s (s.update rt) := by
  subst hdst
  refine Actions.one (.table rfl ?_)
  intro d
  rw [RoutingTable.getElem?_update]
  split
  next hd =>
    obtain ⟨rfl, hpresent⟩ := hd
    obtain ⟨e, he⟩ := Option.ne_none_iff_exists'.mp hpresent
    rw [he]
    exact h e he
  next => exact Change.refl d _

theorem add_route_actions {dst : Ipv4Address} {rt : RoutingTableEntry} (hdst : rt.get_destination = dst)
    (h : Change c { s with routing_table := s.routing_table.purge s.now } dst none
      (some (RoutingTable.stored_entry rt))) :
    Actions c s (s.add_route rt) := by
  subst hdst
  have hpurge : Action c s { s with routing_table := s.routing_table.purge s.now } :=
    Action.of_decays (s.routing_table.purge_decays s.now)
  refine Relation.ReflTransGen.head hpurge (Actions.one ?_)
  refine Action.table rfl ?_
  intro d
  rw [RoutingTable.getElem?_add_route]
  split
  next hd =>
    obtain ⟨rfl, hnone⟩ := hd
    simpa only [hnone] using h
  next => exact Change.refl d _

/-! The effect of the operations on the other components. -/

section Frame

variable (s : RoutingProtocol) (rt : RoutingTableEntry) (dst : Ipv4Address)

@[simp] theorem lookup_route_log : (s.lookup_route dst).2.log = s.log := rfl
@[simp] theorem lookup_route_seq_no : (s.lookup_route dst).2.seq_no = s.seq_no := rfl
@[simp] theorem lookup_route_now : (s.lookup_route dst).2.now = s.now := rfl
@[simp] theorem lookup_route_attrs : (s.lookup_route dst).2.attrs = s.attrs := rfl
@[simp] theorem lookup_route_detector : (s.lookup_route dst).2.detector = s.detector := rfl
@[simp] theorem lookup_route_socket_addresses :
    (s.lookup_route dst).2.socket_addresses = s.socket_addresses := rfl
@[simp] theorem lookup_route_ipv4 : (s.lookup_route dst).2.ipv4 = s.ipv4 := rfl
@[simp] theorem lookup_route_rreq_count : (s.lookup_route dst).2.rreq_count = s.rreq_count := rfl
@[simp] theorem lookup_route_queue : (s.lookup_route dst).2.queue = s.queue := rfl
@[simp] theorem update_log : (s.update rt).log = s.log := rfl
@[simp] theorem update_seq_no : (s.update rt).seq_no = s.seq_no := rfl
@[simp] theorem update_now : (s.update rt).now = s.now := rfl
@[simp] theorem update_attrs : (s.update rt).attrs = s.attrs := rfl
@[simp] theorem update_detector : (s.update rt).detector = s.detector := rfl
@[simp] theorem update_socket_addresses : (s.update rt).socket_addresses = s.socket_addresses := rfl
@[simp] theorem update_ipv4 : (s.update rt).ipv4 = s.ipv4 := rfl
@[simp] theorem add_route_log : (s.add_route rt).log = s.log := rfl
@[simp] theorem add_route_socket_addresses : (s.add_route rt).socket_addresses = s.socket_addresses := rfl

end Frame

theorem routing_table_update (s : RoutingProtocol) (rt : RoutingTableEntry) :
    (s.update rt).routing_table = s.routing_table.update rt := rfl

theorem routing_table_add_route (s : RoutingProtocol) (rt : RoutingTableEntry) :
    (s.add_route rt).routing_table = s.routing_table.add_route s.now rt := rfl

theorem routing_table_lookup_route (s : RoutingProtocol) (dst : Ipv4Address) :
    (s.lookup_route dst).2.routing_table = s.routing_table.purge s.now := rfl

theorem lookup_route_entry {dst : Ipv4Address} {e : RoutingTableEntry}
    (h : (s.lookup_route dst).1 = some e) :
    ∃ e₀, s.routing_table.entries[dst]? = some e₀ ∧ DecaysTo e₀ e :=
  (s.routing_table.purge_decays s.now).entry dst e h

end Ns3.Aodv.RoutingProtocol

namespace Ns3.Aodv.RoutingProtocol

open RoutingTableEntry (DecaysTo SameRoute)

variable {c : Cause} {s s' : RoutingProtocol}

theorem start_rtt_probe_actions (origin dst : Ipv4Address) : Actions c s (s.start_rtt_probe origin dst) := by
  by_cases henable : s.enable_rtt_wormhole_detect = true
  · exact Actions.one (.detect (.start origin dst henable))
  · simp only [start_rtt_probe, henable]
    exact .refl

theorem count_request_sameRoute (a : Attributes) (ttl : UInt16) (rt : RoutingTableEntry) :
    SameRoute rt (count_request a ttl rt) := by
  unfold count_request
  split
  · exact ⟨rfl, rfl, rfl, rfl⟩
  · exact SameRoute.refl rt

theorem stored_searching (s : RoutingProtocol) (rt : RoutingTableEntry) (ttl : UInt16) :
    (RoutingTable.stored_entry (s.searching rt ttl)).valid_seq_no = rt.valid_seq_no ∧
      (RoutingTable.stored_entry (s.searching rt ttl)).seq_no = rt.seq_no ∧
      (RoutingTable.stored_entry (s.searching rt ttl)).ipv4_route = rt.ipv4_route ∧
      (RoutingTable.stored_entry (s.searching rt ttl)).flag = .in_search := by
  have hstored := RoutingTable.stored_entry_sameRoute (s.searching rt ttl)
  have hcount := count_request_sameRoute s.attrs ttl rt
  exact ⟨hstored.valid_seq_no.trans hcount.valid_seq_no, hstored.seq_no.trans hcount.seq_no,
    hstored.ipv4_route.trans hcount.ipv4_route, RoutingTable.stored_entry_flag _⟩

theorem searching_get_destination (s : RoutingProtocol) (rt : RoutingTableEntry) (ttl : UInt16) :
    (s.searching rt ttl).get_destination = rt.get_destination :=
  (count_request_sameRoute s.attrs ttl rt).get_destination

theorem new_search_get_destination (s : RoutingProtocol) (dst : Ipv4Address) (ttl : UInt16) :
    (s.new_search dst ttl).get_destination = dst :=
  (count_request_sameRoute s.attrs ttl _).get_destination

theorem search_entry_actions (hsearch : c.Searches) {dst : Ipv4Address} {rt : Option RoutingTableEntry}
    {ttl : UInt16} (hrt : s.routing_table.entries[dst]? = rt) : Actions c s (s.search_entry dst rt ttl) := by
  cases rt with
  | some rt =>
    obtain ⟨hvalid, hseq, hroute, hflag⟩ := stored_searching s rt ttl
    refine update_actions ((s.searching_get_destination rt ttl).trans (s.routing_table.keyed dst rt hrt)) ?_
    intro e he
    obtain rfl : rt = e := Option.some.inj (hrt.symm.trans he)
    exact .search hsearch hvalid hseq hroute hflag
  | none =>
    refine add_route_actions (s.new_search_get_destination dst ttl) (.search_new hsearch ?_ ?_)
    · have hcount := count_request_sameRoute s.attrs ttl (RoutingTableEntry.of s.now none dst false 0 {} ttl
        Ipv4Address.uninitialized s.attrs.path_discovery_time)
      exact (RoutingTable.stored_entry_sameRoute _).valid_seq_no.trans hcount.valid_seq_no
    · exact RoutingTable.stored_entry_flag _

@[simp]
theorem search_entry_seq_no (dst : Ipv4Address) (rt : Option RoutingTableEntry) (ttl : UInt16) :
    (s.search_entry dst rt ttl).seq_no = s.seq_no := by
  unfold search_entry
  cases rt <;> rfl

@[simp]
theorem start_rtt_probe_frame (origin dst : Ipv4Address) :
    (s.start_rtt_probe origin dst).routing_table = s.routing_table ∧
      (s.start_rtt_probe origin dst).socket_addresses = s.socket_addresses ∧
      (s.start_rtt_probe origin dst).seq_no = s.seq_no := by
  unfold start_rtt_probe
  split <;> exact ⟨rfl, rfl, rfl⟩

theorem broadcast_request_frame (h : RreqHeader) (ttl : UInt16) (iface : Ipv4InterfaceAddress) :
    (broadcast_request h ttl s iface).routing_table = s.routing_table ∧
      (broadcast_request h ttl s iface).socket_addresses = s.socket_addresses ∧
      (broadcast_request h ttl s iface).seq_no = s.seq_no :=
  start_rtt_probe_frame iface.local_addr h.dst

theorem broadcast_request_actions (hsearch : c.Searches) {h : RreqHeader} {ttl : UInt16}
    {iface : Ipv4InterfaceAddress} (hiface : iface ∈ s.socket_addresses) (hseq : h.origin_seqno = s.seq_no)
    (hhop : h.hop_count = 0) (hknown : Known c h.dst h.dst_seqno) :
    Actions c s (broadcast_request h ttl s iface) := by
  obtain ⟨htable, hsockets, hseqno⟩ := start_rtt_probe_frame (s := s) iface.local_addr h.dst
  have howned : (s.start_rtt_probe iface.local_addr h.dst).is_my_own_address iface.local_addr = true := by
    simp only [is_my_own_address, hsockets, List.any_eq_true]
    exact ⟨iface, hiface, by simp⟩
  refine (start_rtt_probe_actions iface.local_addr h.dst).trans ?_
  have hcache : Action c (s.start_rtt_probe iface.local_addr h.dst)
      { s.start_rtt_probe iface.local_addr h.dst with
        rreq_id_cache := ((s.start_rtt_probe iface.local_addr h.dst).rreq_id_cache.is_duplicate
          (s.start_rtt_probe iface.local_addr h.dst).now iface.local_addr
          (s.start_rtt_probe iface.local_addr h.dst).request_id).2
        last_bcast_time := (s.start_rtt_probe iface.local_addr h.dst).now } := .internal rfl
  refine Relation.ReflTransGen.head hcache ?_
  exact Actions.one (.send (fun _ => howned)
    (.request hsearch howned (by simpa [hseqno] using hseq) hhop hknown))

theorem broadcast_requests_actions (hsearch : c.Searches) {h : RreqHeader} {ttl : UInt16}
    {ifaces : List Ipv4InterfaceAddress} (hifaces : ∀ iface ∈ ifaces, iface ∈ s.socket_addresses)
    (hseq : h.origin_seqno = s.seq_no) (hhop : h.hop_count = 0) (hknown : Known c h.dst h.dst_seqno) :
    Actions c s (ifaces.foldl (broadcast_request h ttl) s) := by
  induction ifaces generalizing s with
  | nil => exact .refl
  | cons iface rest ih =>
    obtain ⟨htable, hsockets, hseqno⟩ := broadcast_request_frame (s := s) h ttl iface
    have hturn : Actions c s (broadcast_request h ttl s iface) :=
      broadcast_request_actions hsearch (hifaces iface (by simp)) hseq hhop hknown
    refine hturn.trans (ih ?_ ?_)
    · intro iface' hiface'
      rw [hsockets]
      exact hifaces iface' (by simp [hiface'])
    · rw [hseqno, hseq]

theorem schedule_rreq_retry_actions {dst : Ipv4Address} (h : s.schedule_rreq_retry dst = some s') :
    Actions c s s' := by
  obtain ⟨retry, _, rfl⟩ := Option.map_eq_some_iff.mp h
  exact (s.lookup_route_fades dst).actions.tail (.internal rfl)

theorem send_request_actions (hsearch : c.Searches) (hseq : s.seq_no = c.start.seq_no)
    (hknown : KnownTable c s.routing_table) {dst : Ipv4Address} (h : s.send_request dst = some s') : Actions c s s' := by
  unfold send_request at h
  split at h
  next =>
    cases h
    exact Actions.one (.internal rfl)
  next =>
    set s₀ : RoutingProtocol := { s with rreq_count := s.rreq_count + 1 } with hs₀
    set r := s₀.lookup_route dst with hr
    set ttl := request_ttl s.attrs r.1 with httl
    set s₁ := r.2.search_entry dst r.1 ttl with hs₁
    set s₂ : RoutingProtocol := { s₁ with seq_no := s₁.seq_no + 1, request_id := s₁.request_id + 1 } with hs₂
    have hlookup : r.2.routing_table.entries[dst]? = r.1 := rfl
    have hdst : Known c dst (s₂.request_header dst r.1).dst_seqno := by
      cases hrt : r.1 with
      | none => exact .inl rfl
      | some rt =>
        by_cases hvalid : rt.valid_seq_no = true
        · obtain ⟨e, he, hdecay⟩ := lookup_route_entry hrt
          have hseqno : (s₂.request_header dst (some rt)).dst_seqno = e.seq_no := by
            rw [← hdecay.1.seq_no]
            simp [request_header, Option.filter, hvalid]
          rw [hseqno]
          exact hknown dst e he (hdecay.1.valid_seq_no ▸ hvalid)
        · exact .inl (by simp [request_header, Option.filter, hvalid])
    have hstart : Action c s s₀ := .internal rfl
    have hsearching : Actions c r.2 s₁ := search_entry_actions hsearch hlookup
    have hincrement : Action c s₁ { s₁ with seq_no := s₁.seq_no + 1 } := .increment (by simp [hs₁, hr, hs₀, hseq])
    have hid : Action c { s₁ with seq_no := s₁.seq_no + 1 } s₂ := .internal rfl
    refine Relation.ReflTransGen.head hstart ?_
    refine (s₀.lookup_route_fades dst).actions.trans ?_
    refine hsearching.trans ?_
    refine Relation.ReflTransGen.head hincrement (Relation.ReflTransGen.head hid ?_)
    refine (broadcast_requests_actions hsearch ?_ ?_ ?_ ?_).trans (schedule_rreq_retry_actions h)
    · exact fun _ hiface => hiface
    · rfl
    · rfl
    · exact hdst

end Ns3.Aodv.RoutingProtocol

namespace Ns3.Aodv

namespace RoutingTable

open RoutingTableEntry (DecaysTo SameRoute)

theorem entry_of_update {t : RoutingTable} {rt e : RoutingTableEntry} {d : Ipv4Address}
    (h : (t.update rt).entries[d]? = some e) :
    (rt.get_destination = d ∧ e = stored_entry rt) ∨ t.entries[d]? = some e := by
  rw [getElem?_update] at h
  split at h
  next hd => exact .inl ⟨hd.1, (Option.some.inj h).symm⟩
  next => exact .inr h

theorem entry_of_add_route {t : RoutingTable} {now : Time} {rt e : RoutingTableEntry} {d : Ipv4Address}
    (h : (t.add_route now rt).entries[d]? = some e) :
    (rt.get_destination = d ∧ e = stored_entry rt) ∨ (t.purge now).entries[d]? = some e := by
  rw [getElem?_add_route] at h
  split at h
  next hd => exact .inl ⟨hd.1, (Option.some.inj h).symm⟩
  next => exact .inr h

end RoutingTable

namespace RoutingProtocol

open RoutingTable (stored_entry stored_entry_sameRoute stored_entry_flag)
open RoutingTableEntry (DecaysTo SameRoute)

variable {c : Cause} {s s' : RoutingProtocol}

theorem Change.of_neighbor {d : Ipv4Address} {m : Message} {old : Option RoutingTableEntry}
    {rt : RoutingTableEntry} (hreceived : c.Received d m) (hvalid : rt.valid_seq_no = false)
    (hnext : rt.get_next_hop = d) (hdevice : rt.get_output_device ≠ none) (hflag : rt.flag = .valid) :
    Change c s d old (some (stored_entry rt)) :=
  .neighbor hreceived (by simpa using hvalid) (by simpa using hnext) (by simpa using hdevice) (by simpa using hflag)

section UpdateRouteToNeighbor

variable {sender receiver : Ipv4Address}

theorem update_route_to_neighbor_actions {m : Message} (hreceived : c.Received sender m)
    (h : s.update_route_to_neighbor sender receiver = some s') : Actions c s s' := by
  obtain ⟨i, _, rfl⟩ := Option.map_eq_some_iff.mp h
  refine (s.lookup_route_fades sender).actions.trans ?_
  cases hrt : (s.lookup_route sender).1 with
  | none =>
    exact add_route_actions rfl (Change.of_neighbor hreceived rfl rfl (by simp) rfl)
  | some toNeighbor =>
    simp only
    split
    · exact .refl
    · refine update_actions rfl ?_
      intro e _
      exact Change.of_neighbor hreceived rfl rfl (by simp) rfl

theorem update_route_to_neighbor_frame (h : s.update_route_to_neighbor sender receiver = some s') :
    s' = { s with routing_table := s'.routing_table } := by
  obtain ⟨i, _, rfl⟩ := Option.map_eq_some_iff.mp h
  cases hrt : (s.lookup_route sender).1 with
  | none => rfl
  | some toNeighbor =>
    simp only
    split <;> rfl

theorem update_route_to_neighbor_device (h : s.update_route_to_neighbor sender receiver = some s')
    {e : RoutingTableEntry} (he : s'.routing_table.entries[sender]? = some e) :
    e.get_output_device ≠ none := by
  obtain ⟨i, _, rfl⟩ := Option.map_eq_some_iff.mp h
  have hfst := s.lookup_route_fst sender
  cases hrt : (s.lookup_route sender).1 with
  | none =>
    simp only [hrt, routing_table_add_route] at he
    rcases RoutingTable.entry_of_add_route he with ⟨_, rfl⟩ | hold
    · simp
    · rw [hrt] at hfst
      rw [RoutingTable.getElem?_purge, ← hfst] at hold
      cases hold
  | some toNeighbor =>
    rw [hrt] at hfst
    simp only [hrt] at he
    split at he
    next hkeep =>
      rw [he] at hfst
      cases hfst
      simp [hkeep.2.2]
    next =>
      rw [routing_table_update, RoutingTable.getElem?_update, if_pos ⟨rfl, by simp [← hfst]⟩] at he
      cases he
      simp

theorem update_route_to_neighbor_valid (h : s.update_route_to_neighbor sender receiver = some s')
    {d : Ipv4Address} {e : RoutingTableEntry} (he : s'.routing_table.entries[d]? = some e)
    (hvalid : e.valid_seq_no = true) : ∃ e₀, s.routing_table.entries[d]? = some e₀ ∧ DecaysTo e₀ e := by
  obtain ⟨i, _, rfl⟩ := Option.map_eq_some_iff.mp h
  have hpurge := (s.routing_table.purge_decays s.now).entry d
  cases hrt : (s.lookup_route sender).1 with
  | none =>
    simp only [hrt, routing_table_add_route] at he
    rcases RoutingTable.entry_of_add_route he with ⟨_, rfl⟩ | hold
    · simp at hvalid
    · obtain ⟨e₁, he₁, hdecay₁⟩ := (RoutingTable.purge_decays _ _).entry d e hold
      obtain ⟨e₀, he₀, hdecay₀⟩ := hpurge e₁ he₁
      exact ⟨e₀, he₀, hdecay₀.trans hdecay₁⟩
  | some toNeighbor =>
    simp only [hrt] at he
    split at he
    next => exact hpurge e he
    next =>
      rcases RoutingTable.entry_of_update he with ⟨_, rfl⟩ | hold
      · simp at hvalid
      · exact hpurge e hold

end UpdateRouteToNeighbor

end RoutingProtocol

end Ns3.Aodv

namespace Ns3.Aodv.RoutingProtocol

open RoutingTable (Decays stored_entry)
open RoutingTableEntry (DecaysTo SameRoute)

variable {c : Cause} {s s' : RoutingProtocol}

theorem Overwrites.decays {d : Ipv4Address} {e e' : RoutingTableEntry} (h : Overwrites s d e)
    (hdecay : DecaysTo e e') : Overwrites s d e' := by
  refine ⟨hdecay.1.get_next_hop.trans h.next, fun hflag => h.flag (hdecay.in_search hflag), ?_⟩
  rcases h.origin with ⟨hd, hvalid⟩ | ⟨hmalicious, hdevice⟩
  · exact .inl ⟨hd, hdecay.1.valid_seq_no.trans hvalid⟩
  · exact .inr ⟨hmalicious, hdecay.1.get_output_device ▸ hdevice⟩

theorem Overwrites.stored {d : Ipv4Address} {e : RoutingTableEntry} (h : Overwrites s d e) :
    Overwrites s d (stored_entry e) :=
  h.decays ⟨RoutingTable.stored_entry_sameRoute e, .inl (by simp)⟩

/-- The table after lookups and updates with local copies of entries of `t`. -/
structure Touched (s : RoutingProtocol) (t t' : RoutingTable) : Prop where
  lifetime : t'.bad_link_lifetime = t.bad_link_lifetime
  entry : ∀ (d : Ipv4Address) (e' : RoutingTableEntry), t'.entries[d]? = some e' →
    ∃ e, t.entries[d]? = some e ∧ (DecaysTo e e' ∨ Overwrites s d e')

/-- A local copy of an entry of `t`, if `t` has one for the destination. -/
def Copied (s : RoutingProtocol) (t : RoutingTable) (rt : RoutingTableEntry) : Prop :=
  ∀ e, t.entries[rt.get_destination]? = some e → DecaysTo e rt ∨ Overwrites s rt.get_destination rt

theorem Copied.decays {t : RoutingTable} {rt rt' : RoutingTableEntry} (h : Copied s t rt)
    (hdecay : DecaysTo rt rt') : Copied s t rt' := by
  have hdst := hdecay.1.get_destination
  intro e he
  rw [hdst] at he ⊢
  rcases h e he with hcopy | hwrites
  · exact .inl (hcopy.trans hdecay)
  · exact .inr (hwrites.decays hdecay)

theorem Copied.insert_precursor {t : RoutingTable} {rt : RoutingTableEntry} (h : Copied s t rt)
    (id : Ipv4Address) : Copied s t (rt.insert_precursor id) :=
  h.decays (rt.insert_precursor_decays id)

theorem copied_default (t : RoutingTable) (now : Time) : Copied s t (RoutingTableEntry.default now) :=
  fun _ _ => .inr ⟨rfl, by simp [RoutingTableEntry.default], .inl ⟨rfl, rfl⟩⟩

namespace Touched

theorem of_decays {t t' : RoutingTable} (h : Decays t t') : Touched s t t' := by
  refine ⟨h.lifetime, ?_⟩
  intro d e' he'
  obtain ⟨e, he, hdecay⟩ := h.entry d e' he'
  exact ⟨e, he, .inl hdecay⟩

theorem refl (t : RoutingTable) : Touched s t t := of_decays (Decays.refl t)

theorem decays {t t' t'' : RoutingTable} (h : Touched s t t') (h' : Decays t' t'') : Touched s t t'' := by
  refine ⟨h'.lifetime.trans h.lifetime, ?_⟩
  intro d e'' he''
  obtain ⟨e', he', hdecay'⟩ := h'.entry d e'' he''
  obtain ⟨e, he, hdecay | hwrites⟩ := h.entry d e' he'
  · exact ⟨e, he, .inl (hdecay.trans hdecay')⟩
  · exact ⟨e, he, .inr (hwrites.decays hdecay')⟩

theorem update {t t' : RoutingTable} {rt : RoutingTableEntry} (h : Touched s t t') (hcopied : Copied s t rt) :
    Touched s t (t'.update rt) := by
  refine ⟨h.lifetime, ?_⟩
  intro d e' he'
  rw [RoutingTable.getElem?_update] at he'
  split at he'
  next hd =>
    cases he'
    obtain ⟨rfl, hpresent⟩ := hd
    obtain ⟨e₁, he₁⟩ := Option.ne_none_iff_exists'.mp hpresent
    obtain ⟨e, he, _⟩ := h.entry _ e₁ he₁
    refine ⟨e, he, ?_⟩
    rcases hcopied e he with hcopy | hwrites
    · exact .inl (hcopy.trans ⟨RoutingTable.stored_entry_sameRoute rt, .inl (by simp)⟩)
    · exact .inr hwrites.stored
  next => exact h.entry d e' he'

theorem update_absent {t t' : RoutingTable} {rt : RoutingTableEntry} (h : Touched s t t')
    (habsent : t'.entries[rt.get_destination]? = none) : Touched s t (t'.update rt) := by
  refine ⟨h.lifetime, ?_⟩
  intro d e' he'
  rcases RoutingTable.entry_of_update he' with ⟨rfl, _⟩ | hold
  · rw [RoutingTable.getElem?_update, if_neg (by simp [habsent]), habsent] at he'
    cases he'
  · exact h.entry d e' hold

theorem copied {t t' : RoutingTable} (h : Touched s t t') {d : Ipv4Address} {e : RoutingTableEntry}
    (he : t'.entries[d]? = some e) : Copied s t e := by
  obtain rfl := t'.keyed d e he
  intro e₀ he₀
  obtain ⟨e₁, he₁, hrelated⟩ := h.entry _ e he
  obtain rfl := Option.some.inj (he₁.symm.trans he₀)
  exact hrelated

theorem action {t : RoutingTable} (h : Touched s s.routing_table t) :
    Action c s { s with routing_table := t } := by
  refine .table h.lifetime ?_
  intro d
  cases hnew : t.entries[d]? with
  | none => exact .decay (fun _ he' => nomatch he')
  | some e' =>
    obtain ⟨e, he, hdecay | hwrites⟩ := h.entry d e' hnew
    · rw [he]
      refine .decay ?_
      intro e'' he''
      cases he''
      exact ⟨e, rfl, hdecay⟩
    · exact .overwrite hwrites

end Touched

theorem update_keeps_absent {t : RoutingTable} {rt : RoutingTableEntry} {d : Ipv4Address}
    (habsent : t.entries[d]? = none) : (t.update rt).entries[d]? = none := by
  rw [RoutingTable.getElem?_update, if_neg (by simp [habsent]), habsent]

theorem purge_keeps_absent {t : RoutingTable} {now : Time} {d : Ipv4Address}
    (habsent : t.entries[d]? = none) : (t.purge now).entries[d]? = none := by
  rw [RoutingTable.getElem?_purge, habsent, Option.bind_none]

end Ns3.Aodv.RoutingProtocol

namespace Ns3.Aodv.RoutingProtocol

open RoutingTable (stored_entry)
open RoutingTableEntry (DecaysTo SameRoute)

variable {c : Cause} {s s' : RoutingProtocol}

theorem is_my_own_address_of_find_socket {iface : Ipv4InterfaceAddress} {source : Ipv4Address}
    (h : s.find_socket_with_interface_address iface = some source) : s.is_my_own_address source = true := by
  unfold find_socket_with_interface_address at h
  split at h
  next hmem =>
    cases h
    simp only [is_my_own_address, List.any_eq_true]
    exact ⟨iface, hmem, by simp⟩
  next => cases h

theorem send_reply_actions (hseq : s.seq_no = c.start.seq_no) {h : RreqHeader}
    {toOrigin : RoutingTableEntry} (hown : s.is_my_own_address h.dst = true)
    (hsend : s.send_reply h toOrigin = some s') : Actions c s s' := by
  unfold send_reply at hsend
  split at hsend
  next =>
    obtain ⟨source, hsource, rfl⟩ := Option.map_eq_some_iff.mp hsend
    exact Relation.ReflTransGen.head (.increment hseq)
      (Actions.one (.send (fun _ => is_my_own_address_of_find_socket hsource) (.own_reply hown rfl rfl)))
  next =>
    obtain ⟨source, hsource, rfl⟩ := Option.map_eq_some_iff.mp hsend
    exact Actions.one (.send (fun _ => is_my_own_address_of_find_socket hsource) (.own_reply hown rfl rfl))

/-- `SendReplyByIntermediateNode`, on local copies of two entries of the table `s` had
before the lookups. The reply is justified there, and the gratuitous one after both
updates. -/
theorem send_reply_by_intermediate_node_actions {s₁ : RoutingProtocol} {toDst toOrigin : RoutingTableEntry}
    {gratRep : Bool} (hframe : s₁ = { s with routing_table := s₁.routing_table })
    (htouched : Touched s s.routing_table s₁.routing_table) (hdst : Copied s s.routing_table toDst)
    (horigin : Copied s s.routing_table toOrigin ∨
      s₁.routing_table.entries[toOrigin.get_destination]? = none)
    (hreply : Justified c s (.rrep (s.intermediate_reply toDst toOrigin)))
    (hgrat : Known c toOrigin.get_destination toOrigin.seq_no)
    (h : s₁.send_reply_by_intermediate_node toDst toOrigin gratRep = some s') : Actions c s s' := by
  -- the table after the lookup of the acknowledgement timer
  obtain ⟨t₂, ht₂, htouched₂, habsent₂⟩ : ∃ t₂ : RoutingTable,
      (if toDst.hops = 1 then (s₁.lookup_route toOrigin.get_next_hop).2 else s₁) =
        { s with routing_table := t₂ } ∧ Touched s s.routing_table t₂ ∧
      (s₁.routing_table.entries[toOrigin.get_destination]? = none →
        t₂.entries[toOrigin.get_destination]? = none) := by
    split
    · refine ⟨_, ?_, htouched.decays (s₁.routing_table.purge_decays s₁.now), purge_keeps_absent⟩
      rw [hframe]
      rfl
    · exact ⟨_, hframe, htouched, id⟩
  set toDst' := toDst.insert_precursor toOrigin.get_next_hop with htoDst'
  set toOrigin' := toOrigin.insert_precursor toDst'.get_next_hop with htoOrigin'
  have hdestination : toOrigin'.get_destination = toOrigin.get_destination :=
    (toOrigin.insert_precursor_sameRoute _).get_destination
  have htouched₃ : Touched s s.routing_table (t₂.update toDst') :=
    htouched₂.update (hdst.insert_precursor _)
  have htouched₄ : Touched s s.routing_table ((t₂.update toDst').update toOrigin') := by
    rcases horigin with hcopied | habsent
    · exact htouched₃.update (hcopied.insert_precursor _)
    · refine htouched₃.update_absent ?_
      rw [hdestination]
      exact update_keeps_absent (habsent₂ habsent)
  have hreply' : s₁.intermediate_reply toDst toOrigin = s.intermediate_reply toDst toOrigin := by
    rw [hframe]
    rfl
  unfold send_reply_by_intermediate_node at h
  simp only [ht₂, hreply'] at h
  obtain ⟨source, hsource, h⟩ := Option.bind_eq_some_iff.mp h
  have hown : s.is_my_own_address source = true := is_my_own_address_of_find_socket hsource
  set reply : Transmission := {
    source := source
    destination := toOrigin'.get_next_hop
    ttl := toOrigin'.hops.toUInt8
    message := .rrep (s.intermediate_reply toDst toOrigin) } with hreplyDef
  have hfirst : Action c s (s.emit (.send reply)) := .send (fun _ => hown) hreply
  have htable : Action c (s.emit (.send reply))
      { s.emit (.send reply) with routing_table := (t₂.update toDst').update toOrigin' } :=
    (show Touched (s.emit (.send reply)) _ _ from
      ⟨htouched₄.lifetime, fun d e' he' => by
        obtain ⟨e, he, hrelated⟩ := htouched₄.entry d e' he'
        exact ⟨e, he, hrelated.imp id fun h => ⟨h.next, h.flag, h.origin⟩⟩⟩).action
  have hboth := (Actions.one hfirst).tail htable
  split at h
  next =>
    obtain ⟨source', hsource', rfl⟩ := Option.map_eq_some_iff.mp h
    refine hboth.tail (.send (fun _ => is_my_own_address_of_find_socket hsource') (.reply fun _ => ⟨?_, ?_⟩))
    · show Known c toOrigin'.get_destination toOrigin'.seq_no
      rw [hdestination, (toOrigin.insert_precursor_sameRoute _).seq_no]
      exact hgrat
    · intro e he _
      refine .inr ?_
      have he' : ((t₂.update toDst').update toOrigin').entries[toOrigin'.get_destination]? = some e := he
      rw [RoutingTable.getElem?_update] at he'
      split at he'
      next =>
        cases he'
        show (stored_entry toOrigin').seq_no = toOrigin'.seq_no ∧
          (stored_entry toOrigin').hops.toUInt8 = toOrigin'.hops.toUInt8
        simp
      next hneg => simp [he'] at hneg
  next =>
    cases h
    exact hboth

end Ns3.Aodv.RoutingProtocol
