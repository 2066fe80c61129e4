import Ns3.Aodv.Protocol.State
import Ns3.Aodv.Protocol.Route

namespace Ns3.Aodv.RoutingProtocol

def send_verification_test_packet (s : RoutingProtocol) (origin neighbor : Ipv4Address) :
    Option RoutingProtocol :=
  let s := { s with
    detector := { s.detector with
      verification_probe_start_time :=
        s.detector.verification_probe_start_time.insert ⟨origin, neighbor⟩ s.now } }
  (s.ipv4.interface_of origin).bind fun i =>
  (s.find_socket_with_interface_address i.2).map fun source =>
    s.send_to source neighbor 1 (.rverify (some false))

/-- The first verification of a neighbour records it and sends a probe; while one
is pending nothing is sent. -/
def enter_verification (s : RoutingProtocol) (receiver sender : Ipv4Address) : Option RoutingProtocol :=
  if sender ∈ s.detector.under_verification then some s
  else
    ({ s with detector := { s.detector with
        under_verification := s.detector.under_verification.insert sender s.now } }
      ).send_verification_test_packet receiver sender

def erase_rtt_probe (s : RoutingProtocol) (key : WormholeProbeKey) : RoutingProtocol :=
  { s with detector := { s.detector with
      rtt_probe_start_time := s.detector.rtt_probe_start_time.erase key } }

/-- `EvaluateRttProbe`: whether the reply is rejected, and the state after it. -/
def evaluate_rtt_probe (s : RoutingProtocol) (origin dst sender receiver : Ipv4Address) (actualRtt : Time) :
    Option (Bool × RoutingProtocol) :=
  let key : WormholeProbeKey := ⟨origin, dst⟩
  match s.detector.rtt_probe_start_time[key]? with
  | none => some (false, s)
  | some start =>
    let s := s.emit (.rtt_probe_evaluated key start sender)
    let d := s.detector
    if d.is_anomalous s.detectorAttributes d.rtt_probe_start_time.size sender actualRtt then
      if s.enable_second_probe_verification then
        (s.enter_verification receiver sender).map fun s => (false, s.erase_rtt_probe key)
      else
        let s := { s with detector := d.mark_suspect s.detectorAttributes s.now sender }
        some (true, s.erase_rtt_probe key)
    else
      let s := { s with detector := d.update_neighbor_rtt_stats s.detectorAttributes sender actualRtt }
      some (false, s.erase_rtt_probe key)

/-- The branch of `RecvAodv` on a verification message: an unanswered probe is echoed
through the receiving socket, and a response is evaluated when the neighbour is
under verification and its probe left through the same interface. -/
def recv_verification (s : RoutingProtocol) (socket receiver sender : Ipv4Address) (tag : Option Bool) :
    RoutingProtocol :=
  if s.enable_second_probe_verification = false then s
  else
    match tag with
    | none => s
    | some false => s.send_to socket sender 0 (.rverify (some true))
    | some true =>
      if sender ∈ s.detector.under_verification then
        match s.detector.verification_probe_start_time[(⟨receiver, sender⟩ : WormholeProbeKey)]? with
        | none => s
        | some start =>
          let r := s.detector.evaluate_verification_probe s.detectorAttributes s.now receiver sender
            (s.now - start)
          ({ s with detector := r.2 }).emit (.verification_evaluated ⟨receiver, sender⟩ r.1)
      else s

/-- `UpdateRouteToNeighbor`. On the first branch of an existing entry the source
changes the lifetime of a local copy only. -/
def update_route_to_neighbor (s : RoutingProtocol) (sender receiver : Ipv4Address) : Option RoutingProtocol :=
  let r := s.lookup_route sender
  (s.ipv4.interface_of receiver).map fun i =>
    match r.1 with
    | none =>
      r.2.add_route (RoutingTableEntry.of s.now i.1 sender false 0 i.2 1 sender s.attrs.active_route_timeout)
    | some toNeighbor =>
      if toNeighbor.valid_seq_no ∧ toNeighbor.hops = 1 ∧ toNeighbor.get_output_device = i.1 then r.2
      else
        r.2.update (RoutingTableEntry.of s.now i.1 sender false 0 i.2 1 sender
          (max s.attrs.active_route_timeout (toNeighbor.get_life_time s.now)))

/-- The receiver `RecvAodv` assumes: a packet that came through the tunnel is
attributed to the tunnel's own end. -/
def tunnel_receiver (a : Attributes) (sender receiver : Ipv4Address) : Ipv4Address :=
  if a.enable_wrm_attack then
    let receiver :=
      if sender = a.first_end_of_worm_tunnel ∧ receiver = a.second_end_wifi_worm_tunnel then
        a.second_end_of_worm_tunnel
      else receiver
    if sender = a.second_end_of_worm_tunnel ∧ receiver = a.first_end_wifi_worm_tunnel then
      a.first_end_of_worm_tunnel
    else receiver
  else receiver

/-- The receiver `RecvRequest` uses for a reverse route that did not exist. -/
def reverse_receiver (a : Attributes) (receiver src : Ipv4Address) : Ipv4Address :=
  if a.enable_wrm_attack ∧ src = a.first_end_of_worm_tunnel then a.second_end_of_worm_tunnel
  else if a.enable_wrm_attack ∧ src = a.second_end_of_worm_tunnel then a.first_end_of_worm_tunnel
  else receiver

/-- The minimal lifetime of a reverse route. -/
def reverse_life_time (a : Attributes) (hop : UInt8) : Time :=
  2 * a.net_traversal_time - 2 * hop.toNat * a.node_traversal_time

/-- The entry `RecvRequest` makes of the existing entry for the originator. The flag
is left as it is. -/
def reverse_entry (s : RoutingProtocol) (h : RreqHeader) (src : Ipv4Address)
    (i : NetDevice × Ipv4InterfaceAddress) (toOrigin : RoutingTableEntry) : RoutingTableEntry :=
  ((({ toOrigin with
      seq_no :=
        if toOrigin.valid_seq_no ∧ ¬ seqno_newer h.origin_seqno toOrigin.seq_no then toOrigin.seq_no
        else h.origin_seqno
      valid_seq_no := true
      iface := i.2
      hops := h.hop_count.toUInt16 } : RoutingTableEntry).set_next_hop src).set_output_device i.1).set_life_time
    s.now (max (reverse_life_time s.attrs h.hop_count) (toOrigin.get_life_time s.now))

/-- The reverse route of `RecvRequest`, whose header has been counted one hop up. The
answer holds the receiver the rest of the function uses and its local `toOrigin`. -/
def reverse_route (s : RoutingProtocol) (h : RreqHeader) (receiver src : Ipv4Address) :
    Option (Ipv4Address × RoutingTableEntry × RoutingProtocol) :=
  (s.ipv4.interface_of receiver).bind fun i =>
  let r := s.lookup_route h.origin
  match r.1 with
  | none =>
    let receiver := reverse_receiver s.attrs receiver src
    (s.ipv4.interface_of receiver).map fun i =>
      (receiver, RoutingTableEntry.default s.now,
        r.2.add_route (RoutingTableEntry.of s.now i.1 h.origin true h.origin_seqno i.2 h.hop_count.toUInt16
          src (reverse_life_time s.attrs h.hop_count)))
  | some toOrigin =>
    let toOrigin := s.reverse_entry h src i toOrigin
    some (receiver, toOrigin, r.2.update toOrigin)

/-- The route to the previous hop of a request. Its sequence number is the
originator's, marked as not valid. -/
def update_previous_hop (s : RoutingProtocol) (h : RreqHeader) (receiver src : Ipv4Address) :
    Option RoutingProtocol :=
  let r := s.lookup_route src
  (s.ipv4.interface_of receiver).map fun i =>
    match r.1 with
    | none =>
      r.2.add_route (RoutingTableEntry.of s.now i.1 src false h.origin_seqno i.2 1 src
        s.attrs.active_route_timeout)
    | some toNeighbor =>
      r.2.update (((({ toNeighbor with
          valid_seq_no := false
          seq_no := h.origin_seqno
          flag := .valid
          iface := i.2
          hops := 1 } : RoutingTableEntry).set_next_hop src).set_output_device i.1).set_life_time s.now
        s.attrs.active_route_timeout)

/-- The route entry a malicious node claims to have. -/
def false_to_dst (s : RoutingProtocol) (h : RreqHeader) (i : NetDevice × Ipv4InterfaceAddress) :
    RoutingTableEntry :=
  RoutingTableEntry.of s.now i.1 h.dst true (h.dst_seqno + 100) i.2 1 h.dst s.attrs.active_route_timeout

/-- The entry for the destination that `RecvRequest` reads: a malicious node does not
look it up, and reads a default-constructed one. -/
def request_target (s : RoutingProtocol) (h : RreqHeader) : Option RoutingTableEntry × RoutingProtocol :=
  if s.attrs.is_malicious then (some (RoutingTableEntry.default s.now), s) else s.lookup_route h.dst

/-- Whether the node may answer with `toDst`, from the sequence numbers. -/
def fresh_enough (a : Attributes) (h : RreqHeader) (toDst : RoutingTableEntry) : Bool :=
  a.is_malicious || ((h.unknown_seqno || seqno_not_older toDst.seq_no h.dst_seqno) && toDst.valid_seq_no)

/-- Whether a fresh enough route is used to answer. -/
def may_answer (a : Attributes) (h : RreqHeader) (toDst : RoutingTableEntry) : Bool :=
  a.is_malicious || (!h.destination_only && toDst.flag == .valid)

/-- The part of `RecvRequest` after the check for an own address, up to the forwarding.
The header is the one to forward, and is absent when the function has returned. -/
def answer_request (s : RoutingProtocol) (h : RreqHeader) (toOrigin : RoutingTableEntry)
    (receiver src : Ipv4Address) : Option (Option RreqHeader × RoutingProtocol) :=
  let r := s.request_target h
  match r.1 with
  | none => some (some h, r.2)
  | some toDst =>
    if toDst.get_next_hop = src then some (none, r.2)
    else if fresh_enough s.attrs h toDst then
      if may_answer s.attrs h toDst then
        let o := r.2.lookup_route h.origin
        let toOrigin := o.1.getD toOrigin
        if s.attrs.is_malicious then
          (s.ipv4.interface_of receiver).bind fun i =>
          (o.2.send_reply_by_intermediate_node (s.false_to_dst h i) toOrigin h.gratuitous_rrep).map (none, ·)
        else (o.2.send_reply_by_intermediate_node toDst toOrigin h.gratuitous_rrep).map (none, ·)
      else some (some { h with dst_seqno := toDst.seq_no, unknown_seqno := false }, r.2)
    else some (some h, r.2)

/-- The forwarding of a request through every socket. -/
def forward_request (s : RoutingProtocol) (h : RreqHeader) (ttl : UInt8) : RoutingProtocol :=
  if ttl < 2 then s
  else
    s.socket_addresses.foldl (fun s iface =>
      ({ s with last_bcast_time := s.now }).send_to iface.local_addr (broadcast_destination iface) (ttl - 1)
        (.rreq h)) s

/-- `RecvRequest` after the two checks that make it ignore a request. -/
def process_request (s : RoutingProtocol) (h : RreqHeader) (receiver src : Ipv4Address) (ttl : UInt8) :
    Option RoutingProtocol :=
  (s.reverse_route h receiver src).bind fun r =>
  (r.2.2.update_previous_hop h r.1 src).bind fun s =>
  (s.nb_update src (s.attrs.allowed_hello_loss.toNat * s.attrs.hello_interval)).bind fun s =>
  if s.is_my_own_address h.dst then
    let o := s.lookup_route h.origin
    o.2.send_reply h (o.1.getD r.2.1)
  else
    (s.answer_request h r.2.1 r.1 src).map fun a =>
      match a.1 with
      | some h => a.2.forward_request h ttl
      | none => a.2

def recv_request (s : RoutingProtocol) (h : RreqHeader) (receiver src : Ipv4Address) (ttl : UInt8) :
    Option RoutingProtocol :=
  let r := s.lookup_route src
  if r.1.any (·.black_list_state) then some r.2
  else
    let c := r.2.rreq_id_cache.is_duplicate s.now h.origin h.id
    let s := { r.2 with rreq_id_cache := c.2 }
    if c.1 then some s
    else s.process_request { h with hop_count := h.hop_count + 1 } receiver src ttl

/-- The receiver `ProcessHello` uses for an existing entry. -/
def hello_receiver (a : Attributes) (dst receiver : Ipv4Address) : Ipv4Address :=
  if a.enable_wrm_attack ∧ dst = a.first_end_of_worm_tunnel then a.second_end_of_worm_tunnel
  else if a.enable_wrm_attack ∧ dst = a.second_end_of_worm_tunnel then a.first_end_of_worm_tunnel
  else receiver

def process_hello (s : RoutingProtocol) (h : RrepHeader) (receiver : Ipv4Address) : Option RoutingProtocol :=
  let r := s.lookup_route h.dst
  let allowed : Time := s.attrs.allowed_hello_loss.toNat * s.attrs.hello_interval
  let s : Option RoutingProtocol :=
    match r.1 with
    | none =>
      (s.ipv4.interface_of receiver).map fun i =>
        r.2.add_route (RoutingTableEntry.of s.now i.1 h.dst true h.dst_seqno i.2 1 h.dst h.get_life_time)
    | some toNeighbor =>
      (s.ipv4.interface_of (hello_receiver s.attrs h.dst receiver)).map fun i =>
        r.2.update (((({ toNeighbor with
            seq_no := h.dst_seqno
            valid_seq_no := true
            flag := .valid
            iface := i.2
            hops := 1 } : RoutingTableEntry).set_next_hop h.dst).set_output_device i.1).set_life_time s.now
          (max allowed (toNeighbor.get_life_time s.now)))
  s.bind fun s => if s.attrs.enable_hello then s.nb_update h.dst allowed else some s

/-- Whether `RecvReply` replaces the entry for the destination: its sequence number is
not valid, or older, or the same on a route that is not active or is longer. -/
def reply_improves (h : RrepHeader) (toDst : RoutingTableEntry) : Bool :=
  !toDst.valid_seq_no || seqno_newer h.dst_seqno toDst.seq_no
    || (h.dst_seqno == toDst.seq_no && (toDst.flag != .valid || h.hop_count.toUInt16 < toDst.hops))

/-- The part of `RecvReply` that enters the precursors of the two routes and of their
next hops, with the local `toOrigin` it leaves. A next hop without an entry is read as
the default-constructed one. -/
def update_precursors (s : RoutingProtocol) (dst : Ipv4Address) (toOrigin : RoutingTableEntry) :
    RoutingTableEntry × RoutingProtocol :=
  let d := s.lookup_valid_route dst
  match d.1 with
  | none => (toOrigin, d.2)
  | some toDst =>
    let toDst := toDst.insert_precursor toOrigin.get_next_hop
    let n := (d.2.update toDst).lookup_route toDst.get_next_hop
    let toNextHopToDst := (n.1.getD (RoutingTableEntry.default s.now)).insert_precursor toOrigin.get_next_hop
    let toOrigin := toOrigin.insert_precursor toDst.get_next_hop
    let n := ((n.2.update toNextHopToDst).update toOrigin).lookup_route toOrigin.get_next_hop
    let toNextHopToOrigin := (n.1.getD (RoutingTableEntry.default s.now)).insert_precursor toDst.get_next_hop
    (toOrigin, n.2.update toNextHopToOrigin)

/-- The forwarding of a reply along the reverse route, if there is one. -/
def forward_reply (s : RoutingProtocol) (h : RrepHeader) (ttl : UInt8) : Option RoutingProtocol :=
  let r := s.lookup_route h.origin
  match r.1 with
  | none => some r.2
  | some toOrigin =>
    if toOrigin.flag = .in_search then some r.2
    else
      let toOrigin := toOrigin.set_life_time s.now (max s.attrs.active_route_timeout (toOrigin.get_life_time s.now))
      let r := (r.2.update toOrigin).update_precursors h.dst toOrigin
      if ttl < 2 then some r.2
      else
        (r.2.find_socket_with_interface_address r.1.iface).map fun source =>
          r.2.send_to source r.1.get_next_hop (ttl - 1) (.rrep h)

def reply_entry (s : RoutingProtocol) (h : RrepHeader) (sender : Ipv4Address)
    (i : NetDevice × Ipv4InterfaceAddress) : RoutingTableEntry :=
  RoutingTableEntry.of s.now i.1 h.dst true h.dst_seqno i.2 h.hop_count.toUInt16 sender h.get_life_time

/-- The branch of `RecvReply` at the originator. `toDst` is the entry found before the
reply was taken in. -/
def reply_at_origin (s : RoutingProtocol) (dst : Ipv4Address) (newEntry toDst : RoutingTableEntry) :
    RoutingProtocol :=
  let s :=
    if toDst.flag = .in_search then
      let s := s.update newEntry
      { s with address_req_timer := s.address_req_timer.erase dst }
    else s
  let r := s.lookup_route dst
  r.2.send_packet_from_queue dst (r.1.getD toDst).ipv4_route

/-- The creation or update of the entry for the destination of a reply. -/
def install_reply (s : RoutingProtocol) (h : RrepHeader) (newEntry : RoutingTableEntry) : RoutingProtocol :=
  let r := s.lookup_route h.dst
  match r.1 with
  | some toDst => if reply_improves h toDst then r.2.update newEntry else r.2
  | none => r.2.add_route newEntry

/-- `RecvReply` from the point where the reply is taken in. -/
def accept_reply (s : RoutingProtocol) (h : RrepHeader) (receiver sender : Ipv4Address) (ttl : UInt8) :
    Option RoutingProtocol :=
  (s.ipv4.interface_of receiver).bind fun i =>
  let newEntry := s.reply_entry h sender i
  let toDst := (s.lookup_route h.dst).1.getD (RoutingTableEntry.default s.now)
  let s := s.install_reply h newEntry
  (if h.ack_required then s.send_reply_ack sender else some s).bind fun s =>
  if s.is_my_own_address h.origin then some (s.reply_at_origin h.dst newEntry toDst)
  else s.forward_reply { h with ack_required := false } ttl

/-- The wormhole detection of `RecvReply`: whether the reply is dropped. -/
def detect_wormhole (s : RoutingProtocol) (h : RrepHeader) (receiver sender : Ipv4Address) :
    Option (Bool × RoutingProtocol) :=
  if s.enable_rtt_wormhole_detect then
    if s.detector.is_neighbor_temporarily_suspect s.now sender then some (true, s)
    else
      match s.detector.rtt_probe_start_time[(⟨h.origin, h.dst⟩ : WormholeProbeKey)]? with
      | some start => s.evaluate_rtt_probe h.origin h.dst sender receiver (s.now - start)
      | none => some (false, s)
  else some (false, s)

def recv_reply (s : RoutingProtocol) (h : RrepHeader) (receiver sender : Ipv4Address) (ttl : UInt8) :
    Option RoutingProtocol :=
  let h := { h with hop_count := h.hop_count + 1 }
  if h.dst = h.origin then s.process_hello h receiver
  else
    (s.detect_wormhole h receiver sender).bind fun r =>
      if r.1 then some r.2 else r.2.accept_reply h receiver sender ttl

/-- `RecvAodv` on a message that `sender` sent, received with TTL `ttl` by the socket
whose interface address is `receiver`. -/
def recv_aodv (s : RoutingProtocol) (receiver sender : Ipv4Address) (ttl : UInt8) (m : Message) :
    Option RoutingProtocol :=
  let socket := receiver
  let receiver := tunnel_receiver s.attrs sender receiver
  (s.update_route_to_neighbor sender receiver).bind fun s =>
  match m with
  | .invalid => some s
  | .rverify tag => some (s.recv_verification socket receiver sender tag)
  | .rreq h => s.recv_request h receiver sender ttl
  | .rrep h => s.recv_reply h receiver sender ttl
  | .rerr h => s.recv_error h sender
  | .rrep_ack => some (s.recv_reply_ack sender)

/-- The state after `SetIpv4` on a node whose only interface is the loopback device
`lo`. The lifetimes of the table and of the caches are those the constructor
computes from the default attributes. -/
def init (attrs : Attributes) (max_queue_len : UInt32) (max_queue_time : Time)
    (detect verification : Bool) (lo : NetDevice) : RoutingProtocol :=
  let iface := Ipv4InterfaceAddress.of Ipv4Address.get_loopback 0xff000000
  let table : RoutingTable := { bad_link_lifetime := milliseconds 15000 }
  { attrs := attrs
    max_queue_len := max_queue_len
    enable_rtt_wormhole_detect := detect
    enable_second_probe_verification := verification
    ipv4 := { interfaces := [{ device := lo, addresses := [iface] }] }
    socket_addresses := []
    routing_table :=
      table.add_route 0 (RoutingTableEntry.of 0 lo Ipv4Address.get_loopback true 0 iface 1
        Ipv4Address.get_loopback get_maximum_simulation_time)
    queue := { max_len := max_queue_len, queue_timeout := max_queue_time }
    request_id := 0
    seq_no := 0
    rreq_id_cache := { lifetime := milliseconds 5600 }
    dpd := { lifetime := milliseconds 5600 }
    nb := {}
    rreq_count := 0
    rerr_count := 0
    rreq_rate_limit_timer := milliseconds 1000
    address_req_timer := ∅
    deferred_requests := []
    last_bcast_time := 0
    detector := {}
    now := 0
    log := [] }

def route_request_timer_expire (s : RoutingProtocol) (dst : Ipv4Address) : Option RoutingProtocol :=
  let r := s.lookup_route dst
  let toDst := r.1.getD (RoutingTableEntry.default s.now)
  let stop := fun (s : RoutingProtocol) =>
    let s := ({ s with address_req_timer := s.address_req_timer.erase dst }).delete_route dst
    let o := s.queue.drop_packet_with_dst s.now dst
    ({ s with queue := o.queue }).report_dropped o.dropped
  if r.1.any (·.flag = .valid) then some (r.2.send_packet_from_queue dst toDst.ipv4_route)
  else if toDst.req_count.toUInt32 = s.attrs.rreq_retries then some (stop r.2)
  else if toDst.flag = .in_search then r.2.send_request dst
  else some (stop r.2)

def send_hello (s : RoutingProtocol) : RoutingProtocol :=
  s.socket_addresses.foldl (fun s iface =>
    s.send_to iface.local_addr (broadcast_destination iface) 1
      (.rrep (RrepHeader.of 0 0 iface.local_addr s.seq_no iface.local_addr
        (s.attrs.allowed_hello_loss.toNat * s.attrs.hello_interval)))) s

/-- `HelloTimerExpire`: the message is left out after a recent broadcast. -/
def hello_timer_expire (s : RoutingProtocol) : RoutingProtocol :=
  let s := if s.last_bcast_time > 0 then s else s.send_hello
  { s with last_bcast_time := 0 }

/-- `ProcessTxError`, run on a frame for `addr` that the device has dropped. -/
def process_tx_error (s : RoutingProtocol) (addr : Mac48Address) : Option RoutingProtocol :=
  nb_purge { s with nb := s.nb.mark_closed addr }

/-- The sockets of `iface` and the local broadcast record. -/
def create_socket (s : RoutingProtocol) (iface : Ipv4InterfaceAddress) : Option RoutingProtocol :=
  (s.ipv4.interface_of iface.local_addr).map fun i =>
    { s with socket_addresses := s.socket_addresses ++ [iface] }.add_route
      (RoutingTableEntry.of s.now i.1 iface.broadcast true 0 iface 1 iface.broadcast
        get_maximum_simulation_time)

/-- What is cleared when the last socket is closed. -/
def clear_if_unused (s : RoutingProtocol) : RoutingProtocol :=
  if s.socket_addresses = [] then { s with nb := s.nb.clear, routing_table := s.routing_table.clear } else s

def notify_interface_up (s : RoutingProtocol) (i : Nat) : Option RoutingProtocol :=
  (s.ipv4.get_address i).bind fun iface =>
    if iface.local_addr = Ipv4Address.get_loopback then some s else s.create_socket iface

def notify_interface_down (s : RoutingProtocol) (i : Nat) : Option RoutingProtocol :=
  (s.ipv4.get_address i).bind fun iface =>
    if iface ∈ s.socket_addresses then
      let s := { s with socket_addresses := s.socket_addresses.erase iface }
      if s.socket_addresses = [] then some s.clear_if_unused
      else some { s with routing_table := s.routing_table.delete_all_routes_from_interface iface }
    else none

/-- `NotifyAddAddress`. Only the first address of an interface is used. -/
def notify_add_address (s : RoutingProtocol) (i : Nat) : Option RoutingProtocol :=
  if s.ipv4.is_up i = false then some s
  else
    match s.ipv4.interfaces[i]?.map (·.addresses) with
    | some [iface] =>
      if iface ∈ s.socket_addresses ∨ iface.local_addr = Ipv4Address.get_loopback then some s
      else s.create_socket iface
    | _ => some s

def notify_remove_address (s : RoutingProtocol) (i : Nat) (address : Ipv4InterfaceAddress) :
    Option RoutingProtocol :=
  if address ∈ s.socket_addresses then
    let s := { s with
      routing_table := s.routing_table.delete_all_routes_from_interface address
      socket_addresses := s.socket_addresses.erase address }
    match s.ipv4.get_address i with
    | some iface => (s.create_socket iface).map clear_if_unused
    | none => some s.clear_if_unused
  else some s

/-- What the simulator can run on a node. A packet's receiver is the address of the
socket it arrives at, and a change of the interfaces comes with the interfaces as
they are after it. -/
inductive Event
  | recv_aodv (receiver sender : Ipv4Address) (ttl : UInt8) (m : Message)
  | route_output (p : Option Packet) (header : Ipv4Header) (oif : Option NetDevice)
  | route_input (p : Packet) (header : Ipv4Header) (iif : Nat) (c : InputCallbacks)
  | send_request (i : Nat)
  | route_request_timer_expire (dst : Ipv4Address)
  | hello_timer_expire
  | rreq_rate_limit_timer_expire
  | rerr_rate_limit_timer_expire
  | neighbor_timer_expire
  | tx_error (addr : Mac48Address)
  | arp_update (arp : Ipv4Address → Mac48Address)
  | interface_up (ipv4 : Ipv4) (i : Nat)
  | interface_down (ipv4 : Ipv4) (i : Nat)
  | add_address (ipv4 : Ipv4) (i : Nat)
  | remove_address (ipv4 : Ipv4) (i : Nat) (address : Ipv4InterfaceAddress)
  | set_max_queue_len (len : UInt32)
  | set_max_queue_time (t : Time)
  | set_rtt_wormhole_detect_enable (f : Bool)
  | set_second_probe_verification_enable (f : Bool)

/-- One event, at the time the state carries. `none` means that the event cannot
happen in the state or that the program stops in it. -/
def handle (s : RoutingProtocol) : Event → Option RoutingProtocol
  | .recv_aodv receiver sender ttl m =>
    if s.is_my_own_address receiver then s.recv_aodv receiver sender ttl m else none
  | .route_output p header oif => (s.route_output p header oif).map (·.2)
  | .route_input p header iif c => s.route_input p header iif c
  | .send_request i =>
    (s.deferred_requests[i]?.filter (·.1 = s.now)).bind fun r =>
      send_request { s with deferred_requests := s.deferred_requests.eraseIdx i } r.2
  | .route_request_timer_expire dst =>
    if s.address_req_timer[dst]? = some (some s.now) then
      route_request_timer_expire { s with address_req_timer := s.address_req_timer.insert dst none } dst
    else none
  | .hello_timer_expire => some s.hello_timer_expire
  | .rreq_rate_limit_timer_expire =>
    if s.rreq_rate_limit_timer = s.now then
      some { s with rreq_count := 0, rreq_rate_limit_timer := s.now + milliseconds 1000 }
    else none
  | .rerr_rate_limit_timer_expire => some { s with rerr_count := 0 }
  | .neighbor_timer_expire => s.nb_purge
  | .tx_error addr => s.process_tx_error addr
  | .arp_update arp => some { s with nb := { s.nb with arp } }
  | .interface_up ipv4 i => notify_interface_up { s with ipv4 } i
  | .interface_down ipv4 i => notify_interface_down { s with ipv4 } i
  | .add_address ipv4 i => notify_add_address { s with ipv4 } i
  | .remove_address ipv4 i address => notify_remove_address { s with ipv4 } i address
  | .set_max_queue_len len => some { s with max_queue_len := len, queue := { s.queue with max_len := len } }
  | .set_max_queue_time t => some { s with queue := { s.queue with queue_timeout := t } }
  | .set_rtt_wormhole_detect_enable f => some { s with enable_rtt_wormhole_detect := f }
  | .set_second_probe_verification_enable f => some { s with enable_second_probe_verification := f }

/-- An event at time `t`, which is not earlier than the last one. -/
def step (s : RoutingProtocol) (t : Time) (e : Event) : Option RoutingProtocol :=
  if s.now ≤ t then handle { s with now := t } e else none

end Ns3.Aodv.RoutingProtocol
