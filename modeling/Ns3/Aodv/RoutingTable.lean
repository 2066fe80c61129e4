import Ns3.Network.Address

namespace Ns3.Aodv

inductive RouteFlags
  | valid | invalid | in_search
deriving DecidableEq, Repr

structure RoutingTableEntry where
  valid_seq_no : Bool
  seq_no : UInt32
  hops : UInt16
  life_time : Time
  ipv4_route : Ipv4Route
  iface : Ipv4InterfaceAddress
  flag : RouteFlags
  precursor_list : List Ipv4Address
  req_count : UInt8
  black_list_state : Bool
  black_list_timeout : Time
deriving DecidableEq, Repr

namespace RoutingTableEntry

/-- The constructor. A fresh entry is `VALID` and expires `life_time` from now. -/
def of (now : Time) (dev : Option NetDevice) (dst : Ipv4Address) (valid_seq_no : Bool)
    (seq_no : UInt32) (iface : Ipv4InterfaceAddress) (hops : UInt16) (next_hop : Ipv4Address)
    (life_time : Time) : RoutingTableEntry where
  valid_seq_no := valid_seq_no
  seq_no := seq_no
  hops := hops
  life_time := life_time + now
  ipv4_route := { destination := dst, source := iface.local_addr, gateway := next_hop, output_device := dev }
  iface := iface
  flag := .valid
  precursor_list := []
  req_count := 0
  black_list_state := false
  black_list_timeout := now

/-- The default-constructed entry, whose lifetime argument is the current time. -/
def default (now : Time) : RoutingTableEntry :=
  of now none Ipv4Address.uninitialized false 0 {} 0 Ipv4Address.uninitialized now

def get_destination (e : RoutingTableEntry) : Ipv4Address := e.ipv4_route.destination

def get_next_hop (e : RoutingTableEntry) : Ipv4Address := e.ipv4_route.gateway

def get_output_device (e : RoutingTableEntry) : Option NetDevice := e.ipv4_route.output_device

def set_next_hop (e : RoutingTableEntry) (next_hop : Ipv4Address) : RoutingTableEntry :=
  { e with ipv4_route := { e.ipv4_route with gateway := next_hop } }

def set_output_device (e : RoutingTableEntry) (dev : Option NetDevice) : RoutingTableEntry :=
  { e with ipv4_route := { e.ipv4_route with output_device := dev } }

def set_life_time (e : RoutingTableEntry) (now lt : Time) : RoutingTableEntry :=
  { e with life_time := lt + now }

def get_life_time (e : RoutingTableEntry) (now : Time) : Time := e.life_time - now

def increment_rreq_cnt (e : RoutingTableEntry) : RoutingTableEntry :=
  { e with req_count := e.req_count + 1 }

def insert_precursor (e : RoutingTableEntry) (id : Ipv4Address) : RoutingTableEntry :=
  if id ∈ e.precursor_list then e else { e with precursor_list := e.precursor_list ++ [id] }

/-- `GetPrecursors` appends the precursors that the vector does not hold yet. -/
def get_precursors (e : RoutingTableEntry) (prec : List Ipv4Address) : List Ipv4Address :=
  e.precursor_list.foldl (fun prec id => if id ∈ prec then prec else prec ++ [id]) prec

def invalidate (e : RoutingTableEntry) (now bad_link_lifetime : Time) : RoutingTableEntry :=
  if e.flag = .invalid then e
  else { e with flag := .invalid, req_count := 0, life_time := bad_link_lifetime + now }

end RoutingTableEntry

theorem keyed_empty (dst : Ipv4Address) (rt : RoutingTableEntry) :
    (∅ : Std.ExtTreeMap Ipv4Address RoutingTableEntry)[dst]? = some rt → rt.get_destination = dst := by simp

/-- The table maps a destination to its entry; `keyed` says that an entry is stored
under the destination it names. -/
structure RoutingTable where
  bad_link_lifetime : Time
  entries : Std.ExtTreeMap Ipv4Address RoutingTableEntry := ∅
  keyed : ∀ (dst : Ipv4Address) (rt : RoutingTableEntry),
    entries[dst]? = some rt → rt.get_destination = dst := by first | exact keyed_empty | simp

namespace RoutingTable

/-- What `Purge` does with one entry: an expired `INVALID` entry goes, an expired
`VALID` one becomes `INVALID`, and `IN_SEARCH` entries never expire here. -/
def purge_entry (now bad_link_lifetime : Time) (e : RoutingTableEntry) : Option RoutingTableEntry :=
  if e.get_life_time now < 0 then
    match e.flag with
    | .invalid => none
    | .valid => some (e.invalidate now bad_link_lifetime)
    | .in_search => some e
  else some e

@[simp]
theorem invalidate_get_destination (e : RoutingTableEntry) (now lifetime : Time) :
    (e.invalidate now lifetime).get_destination = e.get_destination := by
  unfold RoutingTableEntry.invalidate RoutingTableEntry.get_destination
  split <;> rfl

theorem purge_entry_get_destination {now lifetime : Time} {e e' : RoutingTableEntry}
    (h : purge_entry now lifetime e = some e') : e'.get_destination = e.get_destination := by
  unfold purge_entry at h
  split at h
  · split at h
    · cases h
    · cases h
      exact invalidate_get_destination e now lifetime
    · cases h
      rfl
  · cases h
    rfl

def purge (t : RoutingTable) (now : Time) : RoutingTable where
  bad_link_lifetime := t.bad_link_lifetime
  entries := t.entries.filterMap fun _ e => purge_entry now t.bad_link_lifetime e
  keyed := by
    intro dst rt h
    rw [Std.ExtTreeMap.getElem?_filterMap', Option.bind_eq_some_iff] at h
    obtain ⟨e, he, hpurge⟩ := h
    rw [purge_entry_get_destination hpurge, t.keyed dst e he]

/-- `LookupRoute` purges first; the entry is the one the purged table holds. -/
def lookup_route (t : RoutingTable) (now : Time) (id : Ipv4Address) :
    Option RoutingTableEntry × RoutingTable :=
  ((t.purge now).entries[id]?, t.purge now)

def delete_route (t : RoutingTable) (now : Time) (dst : Ipv4Address) : RoutingTable where
  bad_link_lifetime := t.bad_link_lifetime
  entries := (t.purge now).entries.erase dst
  keyed := by
    intro d rt h
    rw [Std.ExtTreeMap.getElem?_erase] at h
    split at h
    · cases h
    · exact (t.purge now).keyed d rt h

/-- What `AddRoute` and `Update` store: an entry that is not `IN_SEARCH` has no
requests to count. -/
def stored_entry (rt : RoutingTableEntry) : RoutingTableEntry :=
  if rt.flag ≠ .in_search then { rt with req_count := 0 } else rt

@[simp]
theorem stored_entry_get_destination (rt : RoutingTableEntry) :
    (stored_entry rt).get_destination = rt.get_destination := by
  unfold stored_entry
  split <;> rfl

/-- `AddRoute` inserts only when the destination has no entry. -/
def add_route (t : RoutingTable) (now : Time) (rt : RoutingTableEntry) : RoutingTable where
  bad_link_lifetime := t.bad_link_lifetime
  entries := (t.purge now).entries.insertIfNew rt.get_destination (stored_entry rt)
  keyed := by
    intro d e h
    rw [Std.ExtTreeMap.getElem?_insertIfNew] at h
    split at h
    next hnew =>
      cases h
      simpa using hnew.1
    next => exact (t.purge now).keyed d e h

/-- `Update` overwrites only an entry that exists, and does not purge. -/
def update (t : RoutingTable) (rt : RoutingTableEntry) : RoutingTable where
  bad_link_lifetime := t.bad_link_lifetime
  entries :=
    if rt.get_destination ∈ t.entries then t.entries.insert rt.get_destination (stored_entry rt)
    else t.entries
  keyed := by
    intro d e h
    split at h
    · rw [Std.ExtTreeMap.getElem?_insert] at h
      split at h
      next hd =>
        cases h
        simpa using hd
      next => exact t.keyed d e h
    · exact t.keyed d e h

/-- `GetListOfDestinationWithNextHop`; the purge it starts with is the caller's. -/
def get_list_of_destination_with_next_hop (t : RoutingTable) (next_hop : Ipv4Address) :
    Std.ExtTreeMap Ipv4Address UInt32 :=
  t.entries.filterMap fun _ e => if e.get_next_hop = next_hop then some e.seq_no else none

/-- `InvalidateRoutesWithDst`; the sequence numbers in the argument are not read. -/
def invalidate_routes_with_dst (t : RoutingTable) (now : Time)
    (unreachable : Std.ExtTreeMap Ipv4Address UInt32) : RoutingTable where
  bad_link_lifetime := t.bad_link_lifetime
  entries := (t.purge now).entries.map fun dst e =>
    if dst ∈ unreachable ∧ e.flag = .valid then e.invalidate now t.bad_link_lifetime else e
  keyed := by
    intro d e h
    rw [Std.ExtTreeMap.getElem?_map, Option.map_eq_some_iff] at h
    obtain ⟨e₀, he₀, rfl⟩ := h
    rw [← (t.purge now).keyed d e₀ he₀]
    split
    · exact invalidate_get_destination e₀ now _
    · rfl

def delete_all_routes_from_interface (t : RoutingTable) (iface : Ipv4InterfaceAddress) : RoutingTable where
  bad_link_lifetime := t.bad_link_lifetime
  entries := t.entries.filter fun _ e => e.iface ≠ iface
  keyed := by
    intro d e h
    rw [Std.ExtTreeMap.getElem?_filter', Option.filter_eq_some_iff] at h
    exact t.keyed d e h.1

def clear (t : RoutingTable) : RoutingTable where
  bad_link_lifetime := t.bad_link_lifetime

end RoutingTable

end Ns3.Aodv
