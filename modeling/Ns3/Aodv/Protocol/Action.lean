import Ns3.Aodv.Protocol.Fade
import Ns3.Aodv.Protocol.Step
import Mathlib.Logic.Relation

namespace Ns3.Aodv

/-- Whether a message carries a claim about a route: the route request and the route
reply do. -/
def Message.claims : Message → Bool
  | .rreq _ => true
  | .rrep _ => true
  | _ => false

/-- An effect that carries no claim about a route. -/
def Effect.Quiet : Effect → Prop
  | .send t => t.message.claims = false
  | _ => True

namespace RoutingProtocol

/-- An event being handled: the state it starts in, with the clock set, and the event. -/
structure Cause where
  start : RoutingProtocol
  event : Event

namespace Cause

/-- The event delivers a message that `sender` sent. -/
def Received (c : Cause) (sender : Ipv4Address) (m : Message) : Prop :=
  ∃ receiver ttl, c.event = .recv_aodv receiver sender ttl m

/-- The event may start or continue a route discovery. -/
def Searches (c : Cause) : Prop :=
  match c.event with
  | .route_input .. => True
  | .send_request _ => True
  | .route_request_timer_expire _ => True
  | _ => False

/-- The event may hand data packets to their forwarding callbacks. -/
def Forwards (c : Cause) : Prop :=
  match c.event with
  | .route_input .. => True
  | .route_request_timer_expire _ => True
  | .recv_aodv _ _ _ (.rrep h) => h.dst ≠ h.origin
  | _ => False

/-- The event makes the protocol use the address `iface`. -/
def Adds (c : Cause) (iface : Ipv4InterfaceAddress) : Prop :=
  match c.event with
  | .interface_up ipv4 i => ipv4.get_address i = some iface ∧ iface.local_addr ≠ Ipv4Address.get_loopback
  | .add_address ipv4 i => ipv4.get_address i = some iface ∧ iface.local_addr ≠ Ipv4Address.get_loopback
  | .remove_address ipv4 i _ => ipv4.get_address i = some iface
  | _ => False

end Cause

/-- A number for destination `d` that the node had in a valid entry when the event
started, or that the request being handled carries; or 0. -/
def Known (c : Cause) (d : Ipv4Address) (n : UInt32) : Prop :=
  n = 0 ∨
  (∃ e, c.start.routing_table.entries[d]? = some e ∧ e.valid_seq_no = true ∧ e.seq_no = n) ∨
  (∃ h src, c.Received src (.rreq h) ∧ h.origin = d ∧ h.origin_seqno = n)

/-- The valid sequence numbers of a table are known. -/
def KnownTable (c : Cause) (t : RoutingTable) : Prop :=
  ∀ (d : Ipv4Address) (e : RoutingTableEntry), t.entries[d]? = some e → e.valid_seq_no = true → Known c d e.seq_no

/-- The claim of sequence number `n` and hop count `hop` is that of the active route
for `d`, unless the route is direct or there is none. -/
def Backed (s : RoutingProtocol) (d : Ipv4Address) (n : UInt32) (hop : UInt8) : Prop :=
  ∀ e, s.routing_table.entries[d]? = some e → e.flag = .valid →
    e.get_next_hop = d ∨ (e.seq_no = n ∧ e.hops.toUInt8 = hop)

/-- Why a message may be sent in a state. -/
inductive Justified (c : Cause) (s : RoutingProtocol) : Message → Prop
  | request {h : RreqHeader} (hsearch : c.Searches) (horigin : s.is_my_own_address h.origin = true)
      (hseq : h.origin_seqno = s.seq_no) (hhop : h.hop_count = 0)
      (hdst : Known c h.dst h.dst_seqno) : Justified c s (.rreq h)
  | forward_request {h h' : RreqHeader} {src : Ipv4Address} (hreceived : c.Received src (.rreq h))
      (horigin : h'.origin = h.origin) (hseq : h'.origin_seqno = h.origin_seqno)
      (hhop : h'.hop_count = h.hop_count + 1) (hdst : h'.dst = h.dst)
      (hknown : h'.unknown_seqno = h.unknown_seqno ∧ h'.dst_seqno = h.dst_seqno ∨
        Known c h.dst h'.dst_seqno)
      (hroute : ∀ e, s.routing_table.entries[h.origin]? = some e → e.get_next_hop = h.origin ∨
        e.hops = (h.hop_count + 1).toUInt16) : Justified c s (.rreq h')
  | own_reply {r : RrepHeader} (hdst : s.is_my_own_address r.dst = true) (hseq : r.dst_seqno = s.seq_no)
      (hhop : r.hop_count = 0) : Justified c s (.rrep r)
  | reply {r : RrepHeader} (h : s.attrs.is_malicious = false →
      Known c r.dst r.dst_seqno ∧ Backed s r.dst r.dst_seqno r.hop_count) : Justified c s (.rrep r)
  | forward_reply {h r : RrepHeader} {sender : Ipv4Address} (hreceived : c.Received sender (.rrep h))
      (hdst : r.dst = h.dst) (hseq : r.dst_seqno = h.dst_seqno) (hhop : r.hop_count = h.hop_count + 1)
      (hroute : ∀ e, s.routing_table.entries[h.dst]? = some e → e.flag = .valid → e.get_next_hop = h.dst ∨
        reply_improves r e = false) : Justified c s (.rrep r)
  | other {m : Message} (hclaims : m.claims = false) (hprobe : m ≠ .rverify (some false)) : Justified c s m

/-- An entry that replaces whatever the table had for `d`: the default-constructed
one, or the forged one of a malicious node. -/
structure Overwrites (s : RoutingProtocol) (d : Ipv4Address) (e' : RoutingTableEntry) : Prop where
  next : e'.get_next_hop = d
  flag : e'.flag ≠ .in_search
  origin : d = Ipv4Address.uninitialized ∧ e'.valid_seq_no = false ∨
    s.attrs.is_malicious = true ∧ e'.get_output_device ≠ none

/-- What an action does to the entry of destination `d`. -/
inductive Change (c : Cause) (s : RoutingProtocol) (d : Ipv4Address) :
    Option RoutingTableEntry → Option RoutingTableEntry → Prop
  | decay {old new : Option RoutingTableEntry}
      (hdecay : ∀ e', new = some e' → ∃ e, old = some e ∧ RoutingTableEntry.DecaysTo e e') :
      Change c s d old new
  | search {e e' : RoutingTableEntry} (hsearch : c.Searches) (hvalid : e'.valid_seq_no = e.valid_seq_no)
      (hseq : e'.seq_no = e.seq_no) (hroute : e'.ipv4_route = e.ipv4_route) (hflag : e'.flag = .in_search) :
      Change c s d (some e) (some e')
  | search_new {e' : RoutingTableEntry} (hsearch : c.Searches) (hvalid : e'.valid_seq_no = false)
      (hflag : e'.flag = .in_search) : Change c s d none (some e')
  | neighbor {old : Option RoutingTableEntry} {e' : RoutingTableEntry} {m : Message}
      (hreceived : c.Received d m) (hvalid : e'.valid_seq_no = false) (hnext : e'.get_next_hop = d)
      (hdevice : e'.get_output_device ≠ none) (hflag : e'.flag = .valid) : Change c s d old (some e')
  | hello {old : Option RoutingTableEntry} {e' : RoutingTableEntry} {h : RrepHeader} {sender : Ipv4Address}
      (hreceived : c.Received sender (.rrep h)) (hhello : h.dst = h.origin) (hdst : h.dst = d)
      (hseq : e'.seq_no = h.dst_seqno) (hnext : e'.get_next_hop = d)
      (hdevice : e'.get_output_device ≠ none) (hflag : e'.flag = .valid) : Change c s d old (some e')
  | record {e' : RoutingTableEntry} {iface : Ipv4InterfaceAddress} (hadds : c.Adds iface)
      (hdst : iface.broadcast = d) (hseq : e'.seq_no = 0) (hnext : e'.get_next_hop = d)
      (hdevice : e'.get_output_device ≠ none) (hflag : e'.flag = .valid) : Change c s d none (some e')
  | overwrite {old : Option RoutingTableEntry} {e' : RoutingTableEntry} (h : Overwrites s d e') :
      Change c s d old (some e')
  | reverse {old : Option RoutingTableEntry} {e' : RoutingTableEntry} {h : RreqHeader} {src : Ipv4Address}
      (hreceived : c.Received src (.rreq h)) (hdst : h.origin = d) (hvalid : e'.valid_seq_no = true)
      (hseq : e'.seq_no = h.origin_seqno ∨ ∃ e, c.start.routing_table.entries[d]? = some e ∧
        e.valid_seq_no = true ∧ e'.seq_no = e.seq_no ∧ seqno_newer h.origin_seqno e.seq_no = false)
      (hhops : e'.hops = (h.hop_count + 1).toUInt16) (hnext : e'.get_next_hop = src)
      (hdevice : e'.get_output_device ≠ none) (hflag : e'.flag = (old.map (·.flag)).getD .valid)
      (hquiet : s.log = c.start.log) : Change c s d old (some e')
  | reply {old : Option RoutingTableEntry} {e' : RoutingTableEntry} {h : RrepHeader} {sender : Ipv4Address}
      (hreceived : c.Received sender (.rrep h)) (hhello : h.dst ≠ h.origin) (hdst : h.dst = d)
      (hvalid : e'.valid_seq_no = true) (hseq : e'.seq_no = h.dst_seqno)
      (hhops : e'.hops = (h.hop_count + 1).toUInt16) (hnext : e'.get_next_hop = sender)
      (hdevice : e'.get_output_device ≠ none) (hflag : e'.flag = .valid)
      (hsuspect : s.enable_rtt_wormhole_detect = true →
        s.detector.is_neighbor_temporarily_suspect s.now sender = false)
      (hquiet : ∃ l, s.log = c.start.log ++ l ∧ ∀ e ∈ l, e.Quiet) : Change c s d old (some e')
  | ack {e e' : RoutingTableEntry} (hreceived : c.Received d .rrep_ack)
      (hroute : RoutingTableEntry.SameRoute e e') (hdevice : e'.get_output_device ≠ none)
      (hflag : e'.flag = .valid) : Change c s d (some e) (some e')

/-- A change of the detector, with the effect that goes with it. -/
inductive Detection (s : RoutingProtocol) : RoutingProtocol → Prop
  | start (origin dst : Ipv4Address) (henable : s.enable_rtt_wormhole_detect = true) :
      Detection s (s.start_rtt_probe origin dst)
  | accept {key : WormholeProbeKey} {start : Time} (sender : Ipv4Address) (rtt : Time)
      (hstart : s.detector.rtt_probe_start_time[key]? = some start) :
      Detection s (({ s with detector := s.detector.update_neighbor_rtt_stats s.detectorAttributes sender rtt
        }).erase_rtt_probe key |>.emit (.rtt_probe_evaluated key start sender))
  | reject {key : WormholeProbeKey} {start : Time} (sender : Ipv4Address)
      (hstart : s.detector.rtt_probe_start_time[key]? = some start) :
      Detection s (({ s with detector := s.detector.mark_suspect s.detectorAttributes s.now sender
        }).erase_rtt_probe key |>.emit (.rtt_probe_evaluated key start sender))
  | defer {key : WormholeProbeKey} {start : Time} (sender : Ipv4Address)
      (hstart : s.detector.rtt_probe_start_time[key]? = some start) :
      Detection s ((s.erase_rtt_probe key).emit (.rtt_probe_evaluated key start sender))
  | verify (origin neighbor source : Ipv4Address) (hnew : neighbor ∉ s.detector.under_verification) :
      Detection s (({ s with detector := { s.detector with
        under_verification := s.detector.under_verification.insert neighbor s.now
        verification_probe_start_time :=
          s.detector.verification_probe_start_time.insert ⟨origin, neighbor⟩ s.now } }).send_to
            source neighbor 1 (.rverify (some false)))
  | respond (origin neighbor : Ipv4Address) (rtt : Time)
      (hpending : neighbor ∈ s.detector.under_verification)
      (hstart : (⟨origin, neighbor⟩ : WormholeProbeKey) ∈ s.detector.verification_probe_start_time) :
      Detection s (({ s with detector :=
        (s.detector.evaluate_verification_probe s.detectorAttributes s.now origin neighbor rtt).2 }).emit
          (.verification_evaluated ⟨origin, neighbor⟩
            (s.detector.evaluate_verification_probe s.detectorAttributes s.now origin neighbor rtt).1))

/-- Only the buffers, counters, caches and timers have changed. -/
def Internal (s s' : RoutingProtocol) : Prop :=
  s' = { s with
    queue := s'.queue, request_id := s'.request_id, rreq_id_cache := s'.rreq_id_cache, dpd := s'.dpd
    nb := s'.nb, rreq_count := s'.rreq_count, rerr_count := s'.rerr_count
    rreq_rate_limit_timer := s'.rreq_rate_limit_timer, address_req_timer := s'.address_req_timer
    deferred_requests := s'.deferred_requests, last_bcast_time := s'.last_bcast_time }

/-- The elementary actions that handling an event is made of. -/
inductive Action (c : Cause) : RoutingProtocol → RoutingProtocol → Prop
  | internal {s s' : RoutingProtocol} (h : Internal s s') : Action c s s'
  | table {s : RoutingProtocol} {t : RoutingTable}
      (hlifetime : t.bad_link_lifetime = s.routing_table.bad_link_lifetime)
      (h : ∀ d : Ipv4Address, Change c s d s.routing_table.entries[d]? t.entries[d]?) :
      Action c s { s with routing_table := t }
  | increment {s : RoutingProtocol} (hseq : s.seq_no = c.start.seq_no) :
      Action c s { s with seq_no := s.seq_no + 1 }
  | send {s : RoutingProtocol} {t : Transmission}
      (hsource : t.message.claims = true → s.is_my_own_address t.source = true)
      (h : Justified c s t.message) : Action c s (s.emit (.send t))
  | report {s : RoutingProtocol} {e : Effect}
      (h : (∃ ecb p header, e = .error ecb p header) ∨ (∃ ucb route p header, e = .broadcast_forward ucb route p header) ∨
        ∃ p header iif, e = .local_deliver p header iif) : Action c s (s.emit e)
  | forward {s : RoutingProtocol} {ucb : Callback} {route : Ipv4Route} {p : Packet} {header : Ipv4Header}
      {table : RoutingTable} (h : c.Forwards) : Action c s (s.emit (.unicast_forward ucb route p header table))
  | detect {s s' : RoutingProtocol} (h : Detection s s') : Action c s s'
  | configure {s s' : RoutingProtocol}
      (h : s' = { s with
        max_queue_len := s'.max_queue_len, ipv4 := s'.ipv4, socket_addresses := s'.socket_addresses
        enable_rtt_wormhole_detect := s'.enable_rtt_wormhole_detect
        enable_second_probe_verification := s'.enable_second_probe_verification })
      (hsockets : ∀ iface ∈ s'.socket_addresses, iface ∈ s.socket_addresses ∨ c.Adds iface) :
      Action c s s'

abbrev Actions (c : Cause) : RoutingProtocol → RoutingProtocol → Prop := Relation.ReflTransGen (Action c)

end RoutingProtocol

end Ns3.Aodv
