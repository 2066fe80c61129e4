import Ns3.Foundation.Agenda
import Ns3.Network.Address

namespace Ns3

/-- A link-layer address. -/
structure Address where
  kind : UInt8 := 0
  bytes : List UInt8 := []
deriving DecidableEq, Repr

def Address.is_invalid (a : Address) : Bool := a.bytes.isEmpty && a.kind = 0

inductive ArpCacheEntryState
  | ALIVE | WAIT_REPLY | DEAD | PERMANENT | STATIC_AUTOGENERATED
deriving DecidableEq, Repr

/-- A packet with its header. `serial` and `destination` are history: which lookup the packet came
with, and what was looked up. -/
structure Ipv4PayloadHeaderPair where
  packet : ℕ
  header : Ipv4Header
  serial : ℕ
  destination : Ipv4Address
deriving DecidableEq, Repr

/-- `ArpCache::Entry`. `since` is history: when the entry last began to wait. -/
structure ArpCacheEntry where
  state : ArpCacheEntryState := .ALIVE
  last_seen : Time := 0
  mac_address : Address := {}
  ipv4_address : Ipv4Address
  pending : List Ipv4PayloadHeaderPair := []
  retries : UInt32 := 0
  since : Time := 0
deriving DecidableEq, Repr

/-- A timer is not started with a negative delay, and a resolved address lives for some time. -/
structure ArpCacheAttributes where
  alive_timeout : Time := 120000000000
  dead_timeout : Time := 100000000000
  wait_reply_timeout : Time := 1000000000
  max_retries : UInt32 := 3
  pending_queue_size : UInt32 := 3
  alive_timeout_nonneg : 0 ≤ alive_timeout := by decide
  wait_reply_timeout_nonneg : 0 ≤ wait_reply_timeout := by decide

namespace ArpCacheEntry

variable (a : ArpCacheAttributes) (now : Time) (entry : ArpCacheEntry)

def get_timeout : Time :=
  match entry.state with
  | .WAIT_REPLY => a.wait_reply_timeout
  | .DEAD => a.dead_timeout
  | .ALIVE => a.alive_timeout
  | .PERMANENT => get_maximum_simulation_time
  | .STATIC_AUTOGENERATED => get_maximum_simulation_time

def is_expired : Bool := entry.get_timeout a < now - entry.last_seen

def update_seen : ArpCacheEntry := { entry with last_seen := now }

/-- The functions that change the state give `none` where an assertion fails. -/
def mark_dead : Option ArpCacheEntry :=
  if entry.state = .ALIVE ∨ entry.state = .WAIT_REPLY ∨ entry.state = .DEAD then
    some { entry with state := .DEAD, retries := 0, last_seen := now }
  else none

def mark_alive (mac_address : Address) : Option ArpCacheEntry :=
  if entry.state = .WAIT_REPLY then some { entry with state := .ALIVE, mac_address, retries := 0, last_seen := now }
  else none

def mark_permanent : Option ArpCacheEntry :=
  if entry.mac_address.is_invalid then none
  else some { entry with state := .PERMANENT, retries := 0, last_seen := now }

def mark_auto_generated : Option ArpCacheEntry :=
  if entry.mac_address.is_invalid then none
  else some { entry with state := .STATIC_AUTOGENERATED, retries := 0, last_seen := now }

def update_wait_reply (waiting : Ipv4PayloadHeaderPair) : Option (Bool × ArpCacheEntry) :=
  if entry.state = .WAIT_REPLY then
    if a.pending_queue_size.toNat ≤ entry.pending.length then some (false, entry)
    else some (true, { entry with pending := entry.pending ++ [waiting] })
  else none

/-- The part of `MarkWaitReply` that concerns the entry. -/
def mark_wait_reply (waiting : Ipv4PayloadHeaderPair) : Option ArpCacheEntry :=
  if (entry.state = .ALIVE ∨ entry.state = .DEAD) ∧ entry.pending = [] then
    some { entry with state := .WAIT_REPLY, pending := [waiting], last_seen := now, since := now }
  else none

def increment_retries : ArpCacheEntry := { entry with retries := entry.retries + 1, last_seen := now }

end ArpCacheEntry

/-- The cache: a map in the order of the addresses, and the event of its timer. -/
structure ArpCache where
  attrs : ArpCacheAttributes
  wait_reply_timer : Option ℕ := none
  entries : List ArpCacheEntry := []

namespace ArpCache

variable (cache : ArpCache)

def lookup (dest : Ipv4Address) : Option ArpCacheEntry := cache.entries.find? (·.ipv4_address = dest)

/-- Whether an entry is one that a packet tells of: the one of its source or else, by `LookupInverse`,
those of its sender. -/
def concerns (source : Ipv4Address) (sender : Address) (entry : ArpCacheEntry) : Bool :=
  if (cache.lookup source).isSome then entry.ipv4_address = source else entry.mac_address = sender

def update (dest : Ipv4Address) (entry : ArpCacheEntry) : ArpCache :=
  { cache with entries := cache.entries.map fun e => if e.ipv4_address = dest then entry else e }

def add (dest : Ipv4Address) : Option ArpCache :=
  if (cache.lookup dest).isSome then none
  else some { cache with
    entries := cache.entries.orderedInsert (fun e e' => e.ipv4_address ≤ e'.ipv4_address) { ipv4_address := dest } }

/-- The entries that a reason to delete them leaves. -/
def erase (p : ArpCacheEntry → Bool) : ArpCache := { cache with entries := cache.entries.filter fun e => !p e }

end ArpCache

end Ns3

namespace Ns3

structure ArpHeader where
  type : UInt16
  mac_source : Address
  mac_dest : Address
  ipv4_source : Ipv4Address
  ipv4_dest : Ipv4Address
deriving DecidableEq, Repr

def ArpHeader.is_request (arp : ArpHeader) : Bool := arp.type = 1

def ArpHeader.is_reply (arp : ArpHeader) : Bool := arp.type = 2

/-- The calls that are scheduled. -/
inductive ArpCall
  | handle_wait_reply_timeout
  | send_arp_request (dest : Ipv4Address)
deriving DecidableEq, Repr

/-- What the protocol does: the requests and replies it sends, the packets it hands to `Send` of the
interface, and the reports of its two drop traces. -/
inductive ArpAction
  | request (dest : Ipv4Address)
  | reply (my_ip to_ip : Ipv4Address) (to_mac : Address)
  | send (pending : Ipv4PayloadHeaderPair) (dest : Ipv4Address)
  | cache_drop (pending : Ipv4PayloadHeaderPair)
  | drop (packet : Ipv4PayloadHeaderPair)
  | drop_reply (arp : ArpHeader)
deriving DecidableEq, Repr

/-- The protocol, with the cache of one device. Four history variables follow: the number of lookups,
the packets for which a lookup returned false, those that were pending in an entry as it was deleted,
and what has been done. -/
structure ArpL3Protocol where
  cache : ArpCache
  device_address : Address
  simulator : Agenda ArpCall := ⟨0, [], 0⟩
  lookups : ℕ := 0
  refused : List Ipv4PayloadHeaderPair := []
  discarded : List Ipv4PayloadHeaderPair := []
  log : List ArpAction := []

namespace ArpL3Protocol

variable (s : ArpL3Protocol)

def act (actions : List ArpAction) : ArpL3Protocol := { s with log := s.log ++ actions }

def with_cache (cache : ArpCache) : ArpL3Protocol := { s with cache }

def is_running : Bool := (s.simulator.find s.cache.wait_reply_timer).isSome

def schedule_wait_reply_timer : ArpL3Protocol :=
  { s with
    simulator := s.simulator.schedule s.cache.attrs.wait_reply_timeout .handle_wait_reply_timeout
    cache := { s.cache with wait_reply_timer := some s.simulator.next_uid } }

def start_wait_reply_timer : ArpL3Protocol := if s.is_running then s else s.schedule_wait_reply_timer

/-- An entry begins to wait, and a request is scheduled. -/
def resolve (entry : ArpCacheEntry) (waiting : Ipv4PayloadHeaderPair) (jitter : Time) : Option ArpL3Protocol :=
  (entry.mark_wait_reply s.simulator.now waiting).map fun entry =>
    let s := (s.with_cache (s.cache.update entry.ipv4_address entry)).start_wait_reply_timer
    { s with simulator := s.simulator.schedule jitter (.send_arp_request entry.ipv4_address) }

/-- `Lookup`, for a packet that is numbered. `none` is a failed assertion or the fatal error. -/
def lookup_packet (waiting : Ipv4PayloadHeaderPair) (jitter : Time) : Option (Option Address × ArpL3Protocol) :=
  match s.cache.lookup waiting.destination with
  | some entry =>
    if entry.is_expired s.cache.attrs s.simulator.now then
      match entry.state with
      | .DEAD => (s.resolve entry waiting jitter).map fun s => (none, s)
      | .ALIVE => (s.resolve entry waiting jitter).map fun s => (none, s)
      | _ => none
    else
      match entry.state with
      | .DEAD => some (none, s.act [.drop waiting])
      | .ALIVE => some (some entry.mac_address, s)
      | .WAIT_REPLY =>
        (entry.update_wait_reply s.cache.attrs waiting).map fun r =>
          let s := s.with_cache (s.cache.update entry.ipv4_address r.2)
          (none, if r.1 then s else s.act [.drop waiting])
      | .PERMANENT => some (some entry.mac_address, s)
      | .STATIC_AUTOGENERATED => some (some entry.mac_address, s)
  | none =>
    (s.cache.add waiting.destination).bind fun cache =>
      ((s.with_cache cache).resolve { ipv4_address := waiting.destination } waiting jitter).map fun s => (none, s)

/-- `Lookup` gives an address, or keeps the packet. -/
def lookup (packet : ℕ) (header : Ipv4Header) (destination : Ipv4Address) (jitter : Time) :
    Option (Option Address × ArpL3Protocol) :=
  let waiting := { packet, header, serial := s.lookups, destination : Ipv4PayloadHeaderPair }
  (s.lookup_packet waiting jitter).map fun r =>
    (r.1, { r.2 with
      lookups := s.lookups + 1
      refused := if r.1.isNone then s.refused ++ [waiting] else s.refused })

def receive_reply (arp : ArpHeader) : Option ArpL3Protocol :=
  match s.cache.lookup arp.ipv4_source with
  | some entry =>
    if entry.state = .WAIT_REPLY then
      (entry.mark_alive s.simulator.now arp.mac_source).map fun alive =>
        (s.with_cache (s.cache.update entry.ipv4_address { alive with pending := [] })).act
          (entry.pending.map fun pending => .send pending arp.ipv4_source)
    else some (s.act [.drop_reply arp])
  | none => some (s.act [.drop_reply arp])

/-- `Receive`, with the addresses of the interface. The header is missing if it cannot be read. -/
def receive (addresses : List Ipv4Address) : Option ArpHeader → Option ArpL3Protocol
  | none => some s
  | some arp =>
    match addresses.find? fun address =>
        (arp.is_request && arp.ipv4_dest = address) ||
          (arp.is_reply && arp.ipv4_dest = address && arp.mac_dest = s.device_address) with
    | none => some s
    | some _ =>
      if arp.is_request then some (s.act [.reply arp.ipv4_dest arp.ipv4_source arp.mac_source])
      else s.receive_reply arp

/-- An entry at a timeout: the entry it becomes, what is done, and whether the timer is restarted. -/
def expire (a : ArpCacheAttributes) (now : Time) (entry : ArpCacheEntry) : ArpCacheEntry × List ArpAction × Bool :=
  if entry.state = .WAIT_REPLY then
    if entry.retries < a.max_retries then (entry.increment_retries now, [.request entry.ipv4_address], true)
    else
      ({ entry with state := .DEAD, retries := 0, last_seen := now, pending := [] },
        entry.pending.map .cache_drop, false)
  else (entry, [], false)

def handle_wait_reply_timeout : ArpL3Protocol :=
  let r := s.cache.entries.map (expire s.cache.attrs s.simulator.now)
  let s := (s.with_cache { s.cache with entries := r.map (·.1) }).act (r.flatMap (·.2.1))
  if r.any (·.2.2) then s.schedule_wait_reply_timer else s

/-- Delete entries, with the packets that are pending in them. -/
def delete (p : ArpCacheEntry → Bool) : ArpL3Protocol :=
  { s with
    cache := s.cache.erase p
    discarded := s.discarded ++ (s.cache.entries.filter p).flatMap (·.pending) }

def flush : ArpL3Protocol :=
  let s := s.delete fun _ => true
  if s.is_running then { s with simulator := s.simulator.cancel s.cache.wait_reply_timer } else s

/-- `Remove` of the entry of an address. -/
def remove (dest : Ipv4Address) : ArpL3Protocol := s.delete (·.ipv4_address = dest)

def remove_auto_generated_entries : ArpL3Protocol := s.delete (·.state = .STATIC_AUTOGENERATED)

/-- What `Ipv4L3Protocol::Receive` does with the cache of the interface. -/
def packet_seen (source : Ipv4Address) (sender : Address) : ArpL3Protocol :=
  s.with_cache { s.cache with
    entries := s.cache.entries.map fun entry =>
      if s.cache.concerns source sender entry && entry.state = .ALIVE then entry.update_seen s.simulator.now
      else entry }

def change (dest : Ipv4Address) (f : ArpCacheEntry → Option ArpCacheEntry) : Option ArpL3Protocol :=
  (s.cache.lookup dest).bind fun entry => (f entry).map fun entry' => s.with_cache (s.cache.update dest entry')

/-- Everything that happens to the protocol. -/
inductive Event
  | lookup (packet : ℕ) (header : Ipv4Header) (destination : Ipv4Address) (jitter : Time)
  | receive (addresses : List Ipv4Address) (arp : Option ArpHeader)
  | packet_seen (source : Ipv4Address) (sender : Address)
  | advance (t : Time)
  | run (uid : ℕ)
  | flush
  | remove (dest : Ipv4Address)
  | add (dest : Ipv4Address)
  | set_mac_address (dest : Ipv4Address) (mac_address : Address)
  | mark_permanent (dest : Ipv4Address)
  | mark_auto_generated (dest : Ipv4Address)
  | remove_auto_generated_entries
deriving DecidableEq, Repr

def step : Event → Option ArpL3Protocol
  | .lookup packet header destination jitter => (s.lookup packet header destination jitter).map (·.2)
  | .receive addresses arp => s.receive addresses arp
  | .packet_seen source sender => some (s.packet_seen source sender)
  | .advance t =>
    if t ≤ get_maximum_simulation_time then (s.simulator.advance t).map fun simulator => { s with simulator } else none
  | .run uid =>
    match s.simulator.take uid with
    | some (.handle_wait_reply_timeout, simulator) => some (handle_wait_reply_timeout { s with simulator })
    | some (.send_arp_request dest, simulator) => some (act { s with simulator } [.request dest])
    | none => none
  | .flush => some s.flush
  | .remove dest => some (s.remove dest)
  | .add dest => (s.cache.add dest).map s.with_cache
  | .set_mac_address dest mac_address => s.change dest fun entry => some { entry with mac_address }
  | .mark_permanent dest => s.change dest (ArpCacheEntry.mark_permanent s.simulator.now)
  | .mark_auto_generated dest => s.change dest (ArpCacheEntry.mark_auto_generated s.simulator.now)
  | .remove_auto_generated_entries => some s.remove_auto_generated_entries

def Fresh : Prop :=
  s.cache.entries = [] ∧ s.cache.wait_reply_timer = none ∧ s.simulator = ⟨0, [], 0⟩ ∧ s.lookups = 0 ∧ s.refused = [] ∧
    s.discarded = [] ∧ s.log = []

/-- No entry is made permanent while it is waiting. -/
def Admissible : Event → Prop
  | .mark_permanent dest => (s.cache.lookup dest).all (·.state ≠ .WAIT_REPLY) = true
  | .mark_auto_generated dest => (s.cache.lookup dest).all (·.state ≠ .WAIT_REPLY) = true
  | _ => True

end ArpL3Protocol

end Ns3
