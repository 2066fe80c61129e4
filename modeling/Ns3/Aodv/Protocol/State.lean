import Ns3.Internet.Ipv4
import Ns3.Aodv.Detector
import Ns3.Aodv.IdCache
import Ns3.Aodv.RequestQueue
import Ns3.Aodv.RoutingTable

namespace Ns3.Aodv

/-- The attributes of the protocol that no event of a run changes. -/
structure Attributes where
  rreq_retries : UInt32 := 2
  ttl_start : UInt16 := 1
  ttl_increment : UInt16 := 2
  ttl_threshold : UInt16 := 7
  timeout_buffer : UInt16 := 2
  rreq_rate_limit : UInt16 := 10
  rerr_rate_limit : UInt16 := 10
  active_route_timeout : Time := milliseconds 3000
  net_diameter : UInt32 := 35
  node_traversal_time : Time := milliseconds 40
  net_traversal_time : Time := milliseconds 2800
  path_discovery_time : Time := milliseconds 5600
  my_route_timeout : Time := milliseconds 11200
  hello_interval : Time := milliseconds 1000
  allowed_hello_loss : UInt32 := 2
  black_list_timeout : Time := milliseconds 5600
  destination_only : Bool := false
  gratuitous_reply : Bool := true
  enable_hello : Bool := true
  enable_broadcast : Bool := true
  is_malicious : Bool := false
  enable_wrm_attack : Bool := false
  first_end_of_worm_tunnel : Ipv4Address := 0x0a010201
  second_end_of_worm_tunnel : Ipv4Address := 0x0a010202
  first_end_wifi_worm_tunnel : Ipv4Address := 0x0a000125
  second_end_wifi_worm_tunnel : Ipv4Address := 0x0a000126
  wormhole_pd : Time := milliseconds 1
  wormhole_ctrl_packet_bytes : UInt32 := 64
  wormhole_cpu_process_base : Time := milliseconds 1
  arithmetic : RttArithmetic

/-- What a node does towards its environment, in order. `unicast_forward` keeps the
routing table as it is when the callback runs, and the two probe effects mark
where `StartRttProbe` and the evaluations act. -/
inductive Effect
  | send (t : Transmission)
  | unicast_forward (ucb : Callback) (route : Ipv4Route) (packet : Packet) (header : Ipv4Header)
      (table : RoutingTable)
  | broadcast_forward (ucb : Callback) (route : Ipv4Route) (packet : Packet) (header : Ipv4Header)
  | local_deliver (packet : Packet) (header : Ipv4Header) (iif : Int)
  | error (ecb : Callback) (packet : Packet) (header : Ipv4Header)
  | rtt_probe_started (key : WormholeProbeKey)
  | rtt_probe_evaluated (key : WormholeProbeKey) (start : Time) (sender : Ipv4Address)
  | verification_evaluated (key : WormholeProbeKey) (confirmed : Bool)

/-- The state of one `aodv::RoutingProtocol`. `now` is the simulator's clock at the
event being run, `address_req_timer` maps a destination to the expiry time of its
timer (`none` once cancelled or expired), `deferred_requests` holds the calls of
`SendRequest` the rate limiter has scheduled, and `log` the effects so far. -/
structure RoutingProtocol where
  attrs : Attributes
  max_queue_len : UInt32
  enable_rtt_wormhole_detect : Bool
  enable_second_probe_verification : Bool
  ipv4 : Ipv4
  socket_addresses : List Ipv4InterfaceAddress
  routing_table : RoutingTable
  queue : RequestQueue
  request_id : UInt32
  seq_no : UInt32
  rreq_id_cache : IdCache
  dpd : IdCache
  nb : Neighbors
  rreq_count : UInt16
  rerr_count : UInt16
  rreq_rate_limit_timer : Time
  address_req_timer : Std.ExtTreeMap Ipv4Address (Option Time)
  deferred_requests : List (Time × Ipv4Address)
  last_bcast_time : Time
  detector : WormholeDetector
  now : Time
  log : List Effect

namespace RoutingProtocol

def detectorAttributes (s : RoutingProtocol) : DetectorAttributes where
  arithmetic := s.attrs.arithmetic
  max_queue_len := s.max_queue_len
  node_traversal_time := s.attrs.node_traversal_time
  black_list_timeout := s.attrs.black_list_timeout
  wormhole_pd := s.attrs.wormhole_pd
  wormhole_ctrl_packet_bytes := s.attrs.wormhole_ctrl_packet_bytes
  wormhole_cpu_process_base := s.attrs.wormhole_cpu_process_base

def emit (s : RoutingProtocol) (e : Effect) : RoutingProtocol := { s with log := s.log ++ [e] }

/-- A socket bound to `source` sends a message. -/
def send_to (s : RoutingProtocol) (source destination : Ipv4Address) (ttl : UInt8) (message : Message) :
    RoutingProtocol :=
  s.emit (.send { source, destination, ttl, message })

def lookup_route (s : RoutingProtocol) (dst : Ipv4Address) : Option RoutingTableEntry × RoutingProtocol :=
  ((s.routing_table.lookup_route s.now dst).1,
    { s with routing_table := (s.routing_table.lookup_route s.now dst).2 })

/-- `LookupValidRoute`: whether the entry is `VALID`, with the entry either way. -/
def lookup_valid_route (s : RoutingProtocol) (dst : Ipv4Address) : Option RoutingTableEntry × RoutingProtocol :=
  ((s.lookup_route dst).1.filter (·.flag = .valid), (s.lookup_route dst).2)

def add_route (s : RoutingProtocol) (rt : RoutingTableEntry) : RoutingProtocol :=
  { s with routing_table := s.routing_table.add_route s.now rt }

def update (s : RoutingProtocol) (rt : RoutingTableEntry) : RoutingProtocol :=
  { s with routing_table := s.routing_table.update rt }

def delete_route (s : RoutingProtocol) (dst : Ipv4Address) : RoutingProtocol :=
  { s with routing_table := s.routing_table.delete_route s.now dst }

def is_my_own_address (s : RoutingProtocol) (src : Ipv4Address) : Bool :=
  s.socket_addresses.any (·.local_addr == src)

/-- `FindSocketWithInterfaceAddress`: the local address of the socket, or the failing
assertion on a null socket. -/
def find_socket_with_interface_address (s : RoutingProtocol) (iface : Ipv4InterfaceAddress) :
    Option Ipv4Address :=
  if iface ∈ s.socket_addresses then some iface.local_addr else none

/-- The destination of a broadcast from `iface`: all hosts on a /32 address, the
subnet otherwise. -/
def broadcast_destination (iface : Ipv4InterfaceAddress) : Ipv4Address :=
  if iface.mask = Ipv4Mask.get_ones then 0xffffffff else iface.broadcast

/-- The error callbacks of the entries a queue operation dropped. -/
def report_dropped (s : RoutingProtocol) (dropped : List QueueEntry) : RoutingProtocol :=
  { s with log := s.log ++ dropped.map fun e => .error e.ecb e.packet e.header }

def update_route_life_time (s : RoutingProtocol) (addr : Ipv4Address) (lifetime : Time) : RoutingProtocol :=
  let (rt, s) := s.lookup_route addr
  match rt with
  | some rt =>
    if rt.flag = .valid then
      s.update (({ rt with req_count := 0 } : RoutingTableEntry).set_life_time s.now
        (max lifetime (rt.get_life_time s.now)))
    else s
  | none => s

end RoutingProtocol

end Ns3.Aodv
