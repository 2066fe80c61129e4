import Ns3.Aodv.Packet
import Ns3.Foundation.Reachable

namespace Ns3.Aodv

/-- The identity of a forwarding or error callback. -/
abbrev Callback := Nat

structure QueueEntry where
  packet : Packet
  header : Ipv4Header
  ucb : Callback
  ecb : Callback
  expire : Time
deriving DecidableEq, Repr

structure RequestQueue where
  queue : List QueueEntry := []
  max_len : UInt32
  queue_timeout : Time
deriving DecidableEq, Repr

namespace RequestQueue

def is_expired (now : Time) (e : QueueEntry) : Bool := e.expire - now < 0

/-- The entries `Purge` hands to their error callbacks. -/
def outdated (q : RequestQueue) (now : Time) : List QueueEntry := q.queue.filter (is_expired now)

def purge (q : RequestQueue) (now : Time) : RequestQueue :=
  { q with queue := q.queue.filter fun e => ¬ is_expired now e }

def same_packet (a b : QueueEntry) : Bool :=
  a.packet.uid == b.packet.uid && a.header.destination == b.header.destination

/-- The outcome of a queue operation: its result, the queue, and the entries given
to their error callbacks, in order. -/
structure Outcome (α : Type) where
  result : α
  queue : RequestQueue
  dropped : List QueueEntry

/-- `Enqueue`. `none` is the overflow branch on an empty vector, where the source
reads the front of it. -/
def enqueue (q : RequestQueue) (now : Time) (entry : QueueEntry) : Option (Outcome Bool) :=
  let dropped := q.outdated now
  let q := q.purge now
  if q.queue.any (same_packet · entry) then some ⟨false, q, dropped⟩
  else
    let entry := { entry with expire := q.queue_timeout + now }
    if q.queue.length = q.max_len.toNat then
      match q.queue with
      | [] => none
      | front :: rest => some ⟨true, { q with queue := rest ++ [entry] }, dropped ++ [front]⟩
    else some ⟨true, { q with queue := q.queue ++ [entry] }, dropped⟩

def drop_packet_with_dst (q : RequestQueue) (now : Time) (dst : Ipv4Address) : Outcome Unit :=
  let dropped := q.outdated now
  let q := q.purge now
  { result := ()
    queue := { q with queue := q.queue.filter fun e => e.header.destination ≠ dst }
    dropped := dropped ++ q.queue.filter fun e => e.header.destination = dst }

/-- The first entry for `dst` and the list without it. -/
def takeFirst (dst : Ipv4Address) : List QueueEntry → Option (QueueEntry × List QueueEntry)
  | [] => none
  | e :: rest =>
    if e.header.destination = dst then some (e, rest)
    else (takeFirst dst rest).map fun r => (r.1, e :: r.2)

def dequeue (q : RequestQueue) (now : Time) (dst : Ipv4Address) : Outcome (Option QueueEntry) :=
  let dropped := q.outdated now
  let q := q.purge now
  match takeFirst dst q.queue with
  | some (entry, rest) => ⟨some entry, { q with queue := rest }, dropped⟩
  | none => ⟨none, q, dropped⟩

/-- A callback run on a queued entry. -/
inductive QueueCallback
  | unicast_forward (e : QueueEntry)
  | error (e : QueueEntry)
deriving DecidableEq, Repr

/-- Whether the entry's packet asks for an output interface other than `iface`. -/
def mismatch (iface : Int) (e : QueueEntry) : Bool :=
  match e.packet.tag with
  | some i => i ≠ -1 && i ≠ iface
  | none => false

/-- The loop of `SendPacketFromQueue`, ended by an empty answer of `Dequeue` or by
the return on a packet that asks for another interface. -/
def drain (now : Time) (dst : Ipv4Address) (iface : Int) : Nat → RequestQueue → RequestQueue × List QueueCallback
  | 0, q => (q, [])
  | fuel + 1, q =>
    let r := q.dequeue now dst
    let errors := r.dropped.map QueueCallback.error
    match r.result with
    | none => (r.queue, errors)
    | some e =>
      if mismatch iface e then (r.queue, errors)
      else
        let rest := drain now dst iface fuel r.queue
        (rest.1, errors ++ QueueCallback.unicast_forward e :: rest.2)

/-- `SendPacketFromQueue` for a route whose output device is interface `iface`. Each
pass takes an entry out, so the length of the queue bounds the passes. -/
def send_packet_from_queue (q : RequestQueue) (now : Time) (dst : Ipv4Address) (iface : Int) :
    RequestQueue × List QueueCallback :=
  drain now dst iface (q.queue.length + 1) q

end RequestQueue

end Ns3.Aodv

namespace Ns3.Aodv.RequestQueue

/-- The entries handed to their forwarding callbacks, in order. -/
def handed (calls : List QueueCallback) : List QueueEntry :=
  calls.filterMap fun
    | .unicast_forward e => some e
    | .error _ => none

/-- The entries handed to their error callbacks, in order. -/
def errored (calls : List QueueCallback) : List QueueEntry :=
  calls.filterMap fun
    | .unicast_forward _ => none
    | .error e => some e

@[simp]
theorem handed_append (a b : List QueueCallback) : handed (a ++ b) = handed a ++ handed b :=
  List.filterMap_append

@[simp]
theorem errored_append (a b : List QueueCallback) : errored (a ++ b) = errored a ++ errored b :=
  List.filterMap_append

@[simp]
theorem handed_map_error (es : List QueueEntry) : handed (es.map .error) = [] := by
  simp [handed, List.filterMap_map]

@[simp]
theorem errored_map_error (es : List QueueEntry) : errored (es.map .error) = es := by
  simp [errored, List.filterMap_map]

@[simp]
theorem handed_map_unicast_forward (es : List QueueEntry) : handed (es.map .unicast_forward) = es := by
  simp [handed, List.filterMap_map]

@[simp]
theorem errored_map_unicast_forward (es : List QueueEntry) : errored (es.map .unicast_forward) = [] := by
  simp [errored, List.filterMap_map]

def forDestination (dst : Ipv4Address) (es : List QueueEntry) : List QueueEntry :=
  es.filter fun e => e.header.destination = dst

@[simp]
theorem forDestination_append (dst : Ipv4Address) (a b : List QueueEntry) :
    forDestination dst (a ++ b) = forDestination dst a ++ forDestination dst b :=
  List.filter_append a b

theorem purge_perm (q : RequestQueue) (now : Time) :
    ((q.purge now).queue ++ q.outdated now).Perm q.queue := by
  have h := List.filter_append_perm (is_expired now) q.queue
  refine List.perm_append_comm.trans ?_
  simpa [purge, outdated] using h

theorem purge_sublist (q : RequestQueue) (now : Time) : (q.purge now).queue.Sublist q.queue :=
  List.filter_sublist

@[simp]
theorem purge_max_len (q : RequestQueue) (now : Time) : (q.purge now).max_len = q.max_len := rfl

@[simp]
theorem purge_queue_timeout (q : RequestQueue) (now : Time) :
    (q.purge now).queue_timeout = q.queue_timeout := rfl

@[simp]
theorem purge_purge (q : RequestQueue) (now : Time) : (q.purge now).purge now = q.purge now := by
  simp [purge]

@[simp]
theorem outdated_purge (q : RequestQueue) (now : Time) : (q.purge now).outdated now = [] := by
  simp [purge, outdated]

theorem takeFirst_eq_some {dst : Ipv4Address} {es rest : List QueueEntry} {e : QueueEntry}
    (htake : takeFirst dst es = some (e, rest)) :
    forDestination dst es = e :: forDestination dst rest ∧ rest.Sublist es ∧ rest.length < es.length ∧
      es.filter (·.header.destination ≠ dst) = rest.filter (·.header.destination ≠ dst) := by
  induction es generalizing rest with
  | nil => cases htake
  | cons a es ih =>
    rw [takeFirst] at htake
    split at htake
    next hdst =>
      cases htake
      refine ⟨?_, List.sublist_cons_self _ _, by simp, ?_⟩
      · simp [forDestination, hdst]
      · simp [hdst]
    next hdst =>
      obtain ⟨⟨e', rest'⟩, htake', heq⟩ := Option.map_eq_some_iff.mp htake
      cases heq
      obtain ⟨hfor, hsub, hlength, hother⟩ := ih htake'
      refine ⟨?_, hsub.cons_cons a, by simpa using hlength, ?_⟩
      · simpa [forDestination, hdst] using hfor
      · simpa [hdst] using hother

theorem takeFirst_eq_none {dst : Ipv4Address} {es : List QueueEntry}
    (htake : takeFirst dst es = none) : forDestination dst es = [] := by
  induction es with
  | nil => rfl
  | cons a es ih =>
    rw [takeFirst] at htake
    split at htake
    next => cases htake
    next hdst =>
      have h := ih (Option.map_eq_none_iff.mp htake)
      simpa [forDestination, hdst] using h

/-- Every unexpired entry for `dst` can leave through interface `iface`. -/
def Deliverable (q : RequestQueue) (now : Time) (dst : Ipv4Address) (iface : Int) : Prop :=
  ∀ e ∈ (q.purge now).queue, e.header.destination = dst → mismatch iface e = false

instance (q : RequestQueue) (now : Time) (dst : Ipv4Address) (iface : Int) :
    Decidable (q.Deliverable now dst iface) :=
  inferInstanceAs (Decidable (∀ e ∈ _, _))

theorem drain_purged {now : Time} {dst : Ipv4Address} {iface : Int} {q : RequestQueue} {fuel : Nat}
    (hpurged : q.purge now = q) (hfuel : q.queue.length < fuel)
    (hdeliver : ∀ e ∈ q.queue, e.header.destination = dst → mismatch iface e = false) :
    drain now dst iface fuel q =
      ({ q with queue := q.queue.filter (·.header.destination ≠ dst) },
        (forDestination dst q.queue).map .unicast_forward) := by
  induction fuel generalizing q with
  | zero => omega
  | succ fuel ih =>
    have houtdated : q.outdated now = [] := by rw [← hpurged, outdated_purge]
    rw [drain]
    simp only [dequeue, hpurged, houtdated]
    cases htake : takeFirst dst q.queue with
    | none =>
      have hnone := takeFirst_eq_none htake
      have hall : q.queue.filter (·.header.destination ≠ dst) = q.queue := by
        refine List.filter_eq_self.mpr ?_
        intro e he
        simpa using List.filter_eq_nil_iff.mp hnone e he
      simp only [hnone, hall, List.map_nil]
    | some r =>
      obtain ⟨e, rest⟩ := r
      obtain ⟨hfor, hsub, hlength, hother⟩ := takeFirst_eq_some htake
      have he : e ∈ forDestination dst q.queue := by simp [hfor]
      obtain ⟨hmem, hdst⟩ := List.mem_filter.mp he
      have hmatch : mismatch iface e = false := hdeliver e hmem (by simpa using hdst)
      have hrest : ({ q with queue := rest } : RequestQueue).purge now = { q with queue := rest } := by
        have hkeep : ∀ x ∈ rest, ¬ is_expired now x := by
          intro x hx
          have hx' : x ∈ (q.purge now).queue := by
            rw [hpurged]
            exact hsub.subset hx
          simpa [purge] using (List.mem_filter.mp hx').2
        simp only [purge]
        congr
        exact List.filter_eq_self.mpr (by simpa using hkeep)
      rw [ih hrest (by simpa using by omega) (fun x hx => hdeliver x (hsub.subset hx))]
      simp only [hmatch, hfor, hother, List.map_cons]
      rfl

/-- What `SendPacketFromQueue` does when no entry asks for another interface: the
outdated entries fail, and those for `dst` are forwarded in order. -/
theorem send_packet_from_queue_eq {q : RequestQueue} {now : Time} {dst : Ipv4Address} {iface : Int}
    (hdeliver : q.Deliverable now dst iface) :
    q.send_packet_from_queue now dst iface =
      ({ q with queue := (q.purge now).queue.filter (·.header.destination ≠ dst) },
        (q.outdated now).map .error ++ (forDestination dst (q.purge now).queue).map .unicast_forward) := by
  have hlength : (q.purge now).queue.length ≤ q.queue.length := (q.purge_sublist now).length_le
  have hfirst : drain now dst iface (q.queue.length + 1) q =
      ((drain now dst iface (q.queue.length + 1) (q.purge now)).1,
        (q.outdated now).map .error ++ (drain now dst iface (q.queue.length + 1) (q.purge now)).2) := by
    simp only [drain, dequeue, purge_purge, outdated_purge]
    cases takeFirst dst (q.purge now).queue with
    | none => simp
    | some r =>
      simp only
      split <;> simp
  rw [send_packet_from_queue, hfirst, drain_purged (purge_purge q now) (by omega) hdeliver]
  rfl

end Ns3.Aodv.RequestQueue
