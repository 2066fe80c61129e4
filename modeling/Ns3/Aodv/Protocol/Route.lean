import Ns3.Aodv.Protocol.State

namespace Ns3.Aodv.RoutingProtocol

/-- `int32_t(a) - int32_t(b) > 0`, in two's complement. -/
def seqno_newer (a b : UInt32) : Bool := 0 < a.toInt32 - b.toInt32

/-- `int32_t(a) - int32_t(b) >= 0`. -/
def seqno_not_older (a b : UInt32) : Bool := 0 ≤ a.toInt32 - b.toInt32

/-- `SendReply`, as the destination of the request. -/
def send_reply (s : RoutingProtocol) (h : RreqHeader) (toOrigin : RoutingTableEntry) : Option RoutingProtocol :=
  let s :=
    if ¬ h.unknown_seqno ∧ h.dst_seqno = s.seq_no + 1 then { s with seq_no := s.seq_no + 1 } else s
  let rrep := RrepHeader.of 0 0 h.dst s.seq_no toOrigin.get_destination s.attrs.my_route_timeout
  (s.find_socket_with_interface_address toOrigin.iface).map fun source =>
    s.send_to source toOrigin.get_next_hop toOrigin.hops.toUInt8 (.rrep rrep)

/-- The unicast of the reply that `SendReplyByIntermediateNode` makes for the origin. -/
def intermediate_reply (s : RoutingProtocol) (toDst toOrigin : RoutingTableEntry) : RrepHeader :=
  { RrepHeader.of 0 toDst.hops.toUInt8 toDst.get_destination toDst.seq_no toOrigin.get_destination
      (toDst.get_life_time s.now) with
    hop_count := if s.attrs.is_malicious then 1 else toDst.hops.toUInt8
    ack_required := toDst.hops = 1 }

/-- The gratuitous reply that informs the destination about the origin. -/
def gratuitous_reply (s : RoutingProtocol) (toDst toOrigin : RoutingTableEntry) : RrepHeader :=
  RrepHeader.of 0 toOrigin.hops.toUInt8 toOrigin.get_destination toOrigin.seq_no toDst.get_destination
    (toOrigin.get_life_time s.now)

/-- `SendReplyByIntermediateNode`. The acknowledgement timer the source sets up here
belongs to a local copy and is never started. -/
def send_reply_by_intermediate_node (s : RoutingProtocol) (toDst toOrigin : RoutingTableEntry)
    (gratRep : Bool) : Option RoutingProtocol :=
  let rrep := s.intermediate_reply toDst toOrigin
  let s := if toDst.hops = 1 then (s.lookup_route toOrigin.get_next_hop).2 else s
  let toDst := toDst.insert_precursor toOrigin.get_next_hop
  let toOrigin := toOrigin.insert_precursor toDst.get_next_hop
  let s := (s.update toDst).update toOrigin
  (s.find_socket_with_interface_address toOrigin.iface).bind fun source =>
    let s := s.send_to source toOrigin.get_next_hop toOrigin.hops.toUInt8 (.rrep rrep)
    if gratRep then
      (s.find_socket_with_interface_address toDst.iface).map fun source =>
        s.send_to source toDst.get_next_hop toDst.hops.toUInt8 (.rrep (s.gratuitous_reply toDst toOrigin))
    else some s

def send_reply_ack (s : RoutingProtocol) (neighbor : Ipv4Address) : Option RoutingProtocol :=
  let r := s.lookup_route neighbor
  (r.2.find_socket_with_interface_address (r.1.getD (RoutingTableEntry.default s.now)).iface).map fun source =>
    r.2.send_to source neighbor 1 .rrep_ack

def recv_reply_ack (s : RoutingProtocol) (neighbor : Ipv4Address) : RoutingProtocol :=
  match s.lookup_route neighbor with
  | (some rt, s) => s.update { rt with flag := .valid }
  | (none, s) => s

/-- The effects of the callbacks `SendPacketFromQueue` runs: the forwarded packet has
lost its tag, takes the source of the route and one more TTL. -/
def queue_effect (s : RoutingProtocol) (route : Ipv4Route) : RequestQueue.QueueCallback → Effect
  | .error e => .error e.ecb e.packet e.header
  | .unicast_forward e =>
    .unicast_forward e.ucb route { e.packet with tag := none }
      { e.header with source := route.source, ttl := e.header.ttl + 1 } s.routing_table

def send_packet_from_queue (s : RoutingProtocol) (dst : Ipv4Address) (route : Ipv4Route) : RoutingProtocol :=
  let r := s.queue.send_packet_from_queue s.now dst (s.ipv4.get_interface_for_device route.output_device)
  { s with queue := r.1, log := s.log ++ r.2.map (s.queue_effect route) }

end Ns3.Aodv.RoutingProtocol

namespace Ns3.Aodv.RoutingProtocol

/-- The TTL of the next request for a destination: the expanding ring search keeps
the last one in the hop field of the entry. -/
def request_ttl (a : Attributes) (rt : Option RoutingTableEntry) : UInt16 :=
  match rt with
  | none => a.ttl_start
  | some rt =>
    if rt.flag ≠ .in_search then min (rt.hops + a.ttl_increment) a.net_diameter.toUInt16
    else if rt.hops + a.ttl_increment > a.ttl_threshold then a.net_diameter.toUInt16
    else rt.hops + a.ttl_increment

/-- A request at the network diameter is counted in the entry. -/
def count_request (a : Attributes) (ttl : UInt16) (rt : RoutingTableEntry) : RoutingTableEntry :=
  if ttl.toUInt32 = a.net_diameter then rt.increment_rreq_cnt else rt

/-- The `IN_SEARCH` entry that `SendRequest` makes of an existing one. -/
def searching (s : RoutingProtocol) (rt : RoutingTableEntry) (ttl : UInt16) : RoutingTableEntry :=
  ({ count_request s.attrs ttl rt with hops := ttl, flag := .in_search } : RoutingTableEntry).set_life_time s.now
    s.attrs.path_discovery_time

/-- The `IN_SEARCH` entry that `SendRequest` adds for an unknown destination. -/
def new_search (s : RoutingProtocol) (dst : Ipv4Address) (ttl : UInt16) : RoutingTableEntry :=
  { count_request s.attrs ttl (RoutingTableEntry.of s.now none dst false 0 {} ttl Ipv4Address.uninitialized
      s.attrs.path_discovery_time) with flag := .in_search }

/-- The part of `SendRequest` that turns the entry for `dst` into an `IN_SEARCH` one,
or adds one. -/
def search_entry (s : RoutingProtocol) (dst : Ipv4Address) (rt : Option RoutingTableEntry) (ttl : UInt16) :
    RoutingProtocol :=
  match rt with
  | some rt => s.update (s.searching rt ttl)
  | none => s.add_route (s.new_search dst ttl)

/-- The request header for `dst`, from the entry the search starts with. -/
def request_header (s : RoutingProtocol) (dst : Ipv4Address) (rt : Option RoutingTableEntry) : RreqHeader :=
  let known := rt.filter (·.valid_seq_no)
  { dst := dst
    dst_seqno := (known.map (·.seq_no)).getD 0
    unknown_seqno := known.isNone
    gratuitous_rrep := s.attrs.gratuitous_reply
    destination_only := s.attrs.destination_only
    origin_seqno := s.seq_no
    id := s.request_id
    hop_count := 0 }

/-- `StartRttProbe`, run for each request when the detector is enabled. -/
def start_rtt_probe (s : RoutingProtocol) (origin dst : Ipv4Address) : RoutingProtocol :=
  if s.enable_rtt_wormhole_detect then
    ({ s with detector := s.detector.start_rtt_probe s.now origin dst }).emit (.rtt_probe_started ⟨origin, dst⟩)
  else s

/-- One turn of the loop of `SendRequest` over the sockets. -/
def broadcast_request (h : RreqHeader) (ttl : UInt16) (s : RoutingProtocol) (iface : Ipv4InterfaceAddress) :
    RoutingProtocol :=
  let s := s.start_rtt_probe iface.local_addr h.dst
  let cache := (s.rreq_id_cache.is_duplicate s.now iface.local_addr s.request_id).2
  ({ s with rreq_id_cache := cache, last_bcast_time := s.now }).send_to iface.local_addr
    (broadcast_destination iface) ttl.toUInt8 (.rreq { h with origin := iface.local_addr })

/-- `1 << backoffFactor`, an `int` of 32 bits; `none` is a shift by its width or more. -/
def backoff (backoff_factor : ℕ) : Option ℤ :=
  if backoff_factor ≤ 30 then some (2 ^ backoff_factor)
  else if backoff_factor = 31 then some (-2 ^ 31)
  else none

/-- The delay before a request is repeated. `none` is the abort on a request count of 0
at the network diameter, a shift or a product without a value, and the simulator's
assertion on a negative delay. -/
def rreq_retry_delay (a : Attributes) (rt : RoutingTableEntry) : Option Time :=
  let retry : Option Time :=
    if rt.hops.toUInt32 < a.net_diameter then
      some (2 * a.node_traversal_time * (rt.hops.toNat + a.timeout_buffer.toNat))
    else if rt.req_count > 0 then (backoff (rt.req_count.toNat - 1)).map (a.net_traversal_time * ·)
    else none
  retry.filter fun retry => 0 ≤ retry ∧ retry < 2 ^ 63

def schedule_rreq_retry (s : RoutingProtocol) (dst : Ipv4Address) : Option RoutingProtocol :=
  let r := s.lookup_route dst
  (rreq_retry_delay r.2.attrs (r.1.getD (RoutingTableEntry.default s.now))).map fun retry =>
    { r.2 with address_req_timer := r.2.address_req_timer.insert dst (some (s.now + retry)) }

/-- `SendRequest`. At the rate limit the call is scheduled again. -/
def send_request (s : RoutingProtocol) (dst : Ipv4Address) : Option RoutingProtocol :=
  if s.rreq_count = s.attrs.rreq_rate_limit then
    let due := max s.now s.rreq_rate_limit_timer + microseconds 100
    some { s with deferred_requests := s.deferred_requests ++ [(due, dst)] }
  else
    let r := ({ s with rreq_count := s.rreq_count + 1 }).lookup_route dst
    let ttl := request_ttl s.attrs r.1
    let s := r.2.search_entry dst r.1 ttl
    let s := { s with seq_no := s.seq_no + 1, request_id := s.request_id + 1 }
    (s.socket_addresses.foldl (broadcast_request (s.request_header dst r.1) ttl) s).schedule_rreq_retry dst

end Ns3.Aodv.RoutingProtocol

namespace Ns3.Aodv.RoutingProtocol

/-- The interfaces towards the precursors that have a valid route, each once. -/
def precursor_interfaces : RoutingProtocol → List Ipv4Address → List Ipv4InterfaceAddress →
    List Ipv4InterfaceAddress × RoutingProtocol
  | s, [], ifaces => (ifaces, s)
  | s, precursor :: rest, ifaces =>
    match s.lookup_valid_route precursor with
    | (some toPrecursor, s) =>
      precursor_interfaces s rest
        (if toPrecursor.iface ∈ ifaces then ifaces else ifaces ++ [toPrecursor.iface])
    | (none, s) => precursor_interfaces s rest ifaces

def send_rerr_message (s : RoutingProtocol) (h : RerrHeader) (precursors : List Ipv4Address) :
    Option RoutingProtocol :=
  match precursors with
  | [] => some s
  | precursor :: rest =>
    if s.rerr_count = s.attrs.rerr_rate_limit then some s
    else if rest = [] then
      match s.lookup_valid_route precursor with
      | (some toPrecursor, s) =>
        (s.find_socket_with_interface_address toPrecursor.iface).map fun source =>
          { s.send_to source precursor 1 (.rerr h) with rerr_count := s.rerr_count + 1 }
      | (none, s) => some s
    else
      let r := s.precursor_interfaces precursors []
      r.1.foldlM (fun s iface =>
        (s.find_socket_with_interface_address iface).map fun source =>
          s.send_to source (broadcast_destination iface) 1 (.rerr h)) r.2

/-- The loop that adds unreachable destinations to a header and collects the
precursors of their entries. -/
def add_unreachable : RoutingProtocol → RerrHeader → List Ipv4Address → List (Ipv4Address × UInt32) →
    Option (RerrHeader × List Ipv4Address × RoutingProtocol)
  | s, h, precursors, [] => some (h, precursors, s)
  | s, h, precursors, (dst, seq_no) :: rest =>
    (h.add_un_destination dst seq_no).bind fun h =>
      let r := s.lookup_route dst
      add_unreachable r.2 h ((r.1.getD (RoutingTableEntry.default s.now)).get_precursors precursors) rest

def get_list_of_destination_with_next_hop (s : RoutingProtocol) (next_hop : Ipv4Address) :
    Std.ExtTreeMap Ipv4Address UInt32 × RoutingProtocol :=
  let t := s.routing_table.purge s.now
  (t.get_list_of_destination_with_next_hop next_hop, { s with routing_table := t })

def invalidate_routes_with_dst (s : RoutingProtocol) (unreachable : Std.ExtTreeMap Ipv4Address UInt32) :
    RoutingProtocol :=
  { s with routing_table := s.routing_table.invalidate_routes_with_dst s.now unreachable }

/-- Send the error collected so far, if it names a destination. -/
def send_collected (s : RoutingProtocol) (h : RerrHeader) (precursors : List Ipv4Address) :
    Option RoutingProtocol :=
  if h.get_dest_count ≠ 0 then s.send_rerr_message h precursors else some s

def send_rerr_when_breaks_link_to_next_hop (s : RoutingProtocol) (next_hop : Ipv4Address) :
    Option RoutingProtocol :=
  match s.lookup_route next_hop with
  | (none, s) => some s
  | (some toNextHop, s) =>
    (RerrHeader.add_un_destination {} next_hop toNextHop.seq_no).bind fun h =>
    let l := s.get_list_of_destination_with_next_hop next_hop
    (add_unreachable l.2 h (toNextHop.get_precursors []) l.1.toList).bind fun r =>
    (send_collected r.2.2 r.1 r.2.1).map fun s =>
    s.invalidate_routes_with_dst (l.1.insertIfNew next_hop toNextHop.seq_no)

/-- `SendRerrWhenNoRouteToForward`: unicast to the origin when there is a valid route
to it, broadcast otherwise. -/
def send_rerr_when_no_route_to_forward (s : RoutingProtocol) (dst : Ipv4Address) (dst_seq_no : UInt32)
    (origin : Ipv4Address) : Option RoutingProtocol :=
  if s.rerr_count = s.attrs.rerr_rate_limit then some s
  else
    (RerrHeader.add_un_destination {} dst dst_seq_no).bind fun h =>
    match s.lookup_valid_route origin with
    | (some toOrigin, s) =>
      (s.find_socket_with_interface_address toOrigin.iface).map fun source =>
        s.send_to source toOrigin.get_next_hop 1 (.rerr h)
    | (none, s) =>
      some (s.socket_addresses.foldl
        (fun s iface => s.send_to iface.local_addr (broadcast_destination iface) 1 (.rerr h)) s)

/-- `RecvError`. The destinations of the header are taken out, and those that are routed
through the sender put back. -/
def recv_error (s : RoutingProtocol) (h : RerrHeader) (src : Ipv4Address) : Option RoutingProtocol :=
  let l := s.get_list_of_destination_with_next_hop src
  let unreachable := h.unreachable.filter fun dst _ => dst ∈ l.1
  (add_unreachable l.2 { h with unreachable := ∅ } [] unreachable.toList).bind fun r =>
  (send_collected r.2.2 r.1 r.2.1).map fun s =>
  s.invalidate_routes_with_dst unreachable

/-- `Neighbors::Purge`, with the link failure callback run on each closed link. -/
def nb_purge (s : RoutingProtocol) : Option RoutingProtocol :=
  ((s.nb.failed s.now).foldlM send_rerr_when_breaks_link_to_next_hop s).map fun s =>
    { s with nb := s.nb.purge s.now }

/-- `Neighbors::Update`. Only opening a link purges. -/
def nb_update (s : RoutingProtocol) (addr : Ipv4Address) (expire : Time) : Option RoutingProtocol :=
  match s.nb.refreshFirst s.now addr expire s.nb.nb with
  | some nb => some { s with nb := { s.nb with nb } }
  | none => nb_purge { s with nb := s.nb.open_link s.now addr expire }

end Ns3.Aodv.RoutingProtocol

namespace Ns3.Aodv.RoutingProtocol

inductive SocketErrno
  | noterror | noroutetohost
deriving DecidableEq, Repr

/-- What `RouteOutput` gives back: the route, the packet with the tag it may have got,
and the error code when it was written. -/
structure OutputRoute where
  route : Option Ipv4Route
  packet : Option Packet
  sockerr : Option SocketErrno
deriving DecidableEq, Repr

/-- `LoopbackRoute`. The source is the first address that fits, and must be one. -/
def loopback_route (s : RoutingProtocol) (header : Ipv4Header) (oif : Option NetDevice) : Option Ipv4Route :=
  let source : Option Ipv4Address :=
    match oif with
    | none => s.socket_addresses.head?.map (·.local_addr)
    | some _ =>
      some <| ((s.socket_addresses.find? fun iface =>
        decide (oif = (s.ipv4.get_interface_for_address iface.local_addr).bind s.ipv4.get_net_device)).map
          (·.local_addr)).getD Ipv4Address.uninitialized
  (source.filter (· ≠ Ipv4Address.uninitialized)).map fun source =>
    { destination := header.destination
      source := source
      gateway := Ipv4Address.get_loopback
      output_device := s.ipv4.get_net_device 0 }

/-- `RouteOutput`. A packet without a valid route is tagged, once, with the interface
it asks for and looped back. -/
def route_output (s : RoutingProtocol) (p : Option Packet) (header : Ipv4Header) (oif : Option NetDevice) :
    Option (OutputRoute × RoutingProtocol) :=
  match p with
  | none => (s.loopback_route header oif).map fun route => (⟨some route, none, none⟩, s)
  | some p =>
    if s.socket_addresses = [] then some (⟨none, some p, some .noroutetohost⟩, s)
    else
      match s.lookup_valid_route header.destination with
      | (some rt, s) =>
        if oif ≠ none ∧ rt.get_output_device ≠ oif then some (⟨none, some p, some .noroutetohost⟩, s)
        else
          let s := s.update_route_life_time header.destination s.attrs.active_route_timeout
          let s := s.update_route_life_time rt.get_next_hop s.attrs.active_route_timeout
          some (⟨some rt.ipv4_route, some p, some .noterror⟩, s)
      | (none, s) =>
        let iif := if oif = none then -1 else s.ipv4.get_interface_for_device oif
        let p := if p.tag = none then { p with tag := some iif } else p
        (s.loopback_route header oif).map fun route => (⟨some route, some p, some .noterror⟩, s)

/-- The request `DeferredRouteOutput` makes for a packet that was queued. -/
def request_route (s : RoutingProtocol) (dst : Ipv4Address) : Option RoutingProtocol :=
  let r := s.lookup_route dst
  if r.1.any (·.flag = .in_search) then some r.2 else r.2.send_request dst

def deferred_route_output (s : RoutingProtocol) (p : Packet) (header : Ipv4Header) (ucb ecb : Callback) :
    Option RoutingProtocol :=
  (s.queue.enqueue s.now { packet := p, header, ucb, ecb, expire := s.now }).bind fun o =>
    let s := ({ s with queue := o.queue }).report_dropped o.dropped
    if o.result then s.request_route header.destination else some s

/-- The callbacks of `RouteInput`; the multicast one is never called. -/
structure InputCallbacks where
  ucb : Callback
  ecb : Callback
  lcb_is_null : Bool := false
deriving DecidableEq, Repr

/-- The local delivery callback, or the error callback when it is null. -/
def local_deliver (s : RoutingProtocol) (p : Packet) (header : Ipv4Header) (iif : Int)
    (c : InputCallbacks) : RoutingProtocol :=
  if c.lcb_is_null then s.emit (.error c.ecb p header) else s.emit (.local_deliver p header iif)

/-- The forwarding of a broadcast, through the entry for its address. -/
def forward_broadcast (s : RoutingProtocol) (p : Packet) (header : Ipv4Header) (ucb : Callback) :
    RoutingProtocol :=
  let r := s.lookup_route header.destination
  match r.1 with
  | some toBroadcast => r.2.emit (.broadcast_forward ucb toBroadcast.ipv4_route p header)
  | none => r.2

/-- The branch of `RouteInput` on a broadcast received by `iif`. -/
def broadcast_input (s : RoutingProtocol) (p : Packet) (header : Ipv4Header) (iif : Int)
    (c : InputCallbacks) : RoutingProtocol :=
  let d := s.dpd.is_duplicate s.now header.source p.uid.toUInt32
  let s := { s with dpd := d.2 }
  if d.1 then s
  else
    let s := s.update_route_life_time header.source s.attrs.active_route_timeout
    let s := s.local_deliver p header iif c
    if s.attrs.enable_broadcast = false then s
    else if header.protocol = 17 ∧ p.udp_destination_port = 654 then s
    else if header.ttl ≤ 1 then s
    else s.forward_broadcast p header c.ucb

/-- The branch of `RouteInput` on a packet for this node. -/
def unicast_input (s : RoutingProtocol) (p : Packet) (header : Ipv4Header) (iif : Int)
    (c : InputCallbacks) : Option RoutingProtocol :=
  let s := s.update_route_life_time header.source s.attrs.active_route_timeout
  let r := s.lookup_valid_route header.source
  let s :=
    match r.1 with
    | some toOrigin =>
      (r.2.update_route_life_time toOrigin.get_next_hop s.attrs.active_route_timeout).nb_update
        toOrigin.get_next_hop s.attrs.active_route_timeout
    | none => some r.2
  s.map fun s =>
    let tunnel := s.attrs.enable_wrm_attack && (header.destination == s.attrs.first_end_of_worm_tunnel
      || header.destination == s.attrs.second_end_of_worm_tunnel) && !c.lcb_is_null
    s.local_deliver p header (if tunnel then 1 else iif) c

def forwarding (s : RoutingProtocol) (p : Packet) (header : Ipv4Header) (ucb : Callback) :
    Option RoutingProtocol :=
  let s := { s with routing_table := s.routing_table.purge s.now }
  if s.attrs.is_malicious then some s
  else
    let r := s.lookup_route header.destination
    match r.1 with
    | none => r.2.send_rerr_when_no_route_to_forward header.destination 0 header.source
    | some toDst =>
      if toDst.flag = .valid then
        let active := s.attrs.active_route_timeout
        let s := r.2.update_route_life_time header.source active
        let s := s.update_route_life_time header.destination active
        let s := s.update_route_life_time toDst.get_next_hop active
        let o := s.lookup_route header.source
        let previousHop := (o.1.getD (RoutingTableEntry.default s.now)).get_next_hop
        let s := o.2.update_route_life_time previousHop active
        (s.nb_update toDst.get_next_hop active).bind fun s =>
        (s.nb_update previousHop active).map fun s =>
          s.emit (.unicast_forward ucb toDst.ipv4_route p header s.routing_table)
      else
        r.2.send_rerr_when_no_route_to_forward header.destination
          (if toDst.valid_seq_no then toDst.seq_no else 0) header.source

/-- The interface `RouteInput` treats `dst` as a broadcast on: one of an own address
whose interface is the receiving one. -/
def is_broadcast_on (s : RoutingProtocol) (dst : Ipv4Address) (iif : Nat) : Bool :=
  s.socket_addresses.any fun iface =>
    decide (s.ipv4.get_interface_for_address iface.local_addr = some iif)
      && (dst == iface.broadcast || Ipv4Address.is_broadcast dst)

/-- `RouteInput` on a packet received by interface `iif`. -/
def route_input (s : RoutingProtocol) (p : Packet) (header : Ipv4Header) (iif : Nat) (c : InputCallbacks) :
    Option RoutingProtocol :=
  if s.socket_addresses = [] then some s
  else if s.ipv4.interfaces.length ≤ iif then none
  else if iif = 0 ∧ p.tag ≠ none then s.deferred_route_output p header c.ucb c.ecb
  else if s.is_my_own_address header.source then some s
  else if Ipv4Address.is_multicast header.destination then some s
  else if s.is_broadcast_on header.destination iif then some (s.broadcast_input p header iif c)
  else if s.ipv4.is_destination_address header.destination iif then s.unicast_input p header iif c
  else if s.ipv4.is_forwarding iif = false then some (s.emit (.error c.ecb p header))
  else s.forwarding p header c.ucb

end Ns3.Aodv.RoutingProtocol
