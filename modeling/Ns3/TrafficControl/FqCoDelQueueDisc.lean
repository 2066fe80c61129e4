import Ns3.TrafficControl.CoDelQueueDisc

namespace Ns3.TrafficControl

inductive FlowStatus
  | inactive | new_flow | old_flow
deriving DecidableEq, Repr

/-- `FqCoDelFlow`, with the queue disc of the class. `sent` is history: the bytes that have been
dequeued from the flow. -/
structure FqCoDelFlow where
  deficit : Int32 := 0
  sent : Nat := 0
  status : FlowStatus := .inactive
  index : UInt32
  queue_disc : CoDelQueueDisc

namespace FqCoDelQueueDisc

structure Attributes where
  use_ecn : Bool := true
  interval : Time := milliseconds 100
  target : Time := milliseconds 5
  flows : UInt32 := 1024
  drop_batch_size : UInt32 := 64
  perturbation : UInt32 := 0
  ce_threshold : Time := 9223372036854775807
  enable_set_associative_hash : Bool := false
  set_ways : UInt32 := 8
  use_l4s : Bool := false
deriving DecidableEq, Repr

def unclassified_drop : String := "Unclassified drop"
def overlimit_drop : String := "Overlimit drop"
def child_queue_disc_drop : String := "(Dropped by child queue disc) "
def child_queue_disc_mark : String := "(Marked by child queue disc) "

/-- The report of a parent on that of a child. -/
def child_event : QueueDiscEvent → QueueDiscEvent
  | .drop_before_enqueue item reason => .drop_before_enqueue item (child_queue_disc_drop ++ reason)
  | .drop_after_dequeue item reason => .drop_after_dequeue item (child_queue_disc_drop ++ reason)
  | .mark item reason => .mark item (child_queue_disc_mark ++ reason)

end FqCoDelQueueDisc

/-- The queue disc. Classes are known by their position, `max_size` counts packets, and
`requeued` is the packet a peek has taken. `hash` and `filters` are methods of the packets and of
the packet filters. `arrived` is history: how many packets have been classified. -/
structure FqCoDelQueueDisc where
  attrs : FqCoDelQueueDisc.Attributes
  quantum : UInt32
  max_size : UInt32 := 10240
  hash : QueueDiscItem → UInt32 → UInt32
  filters : List (QueueDiscItem → Int32) := []
  classes : List FqCoDelFlow := []
  flows_indices : UInt32 → Option Nat := fun _ => none
  tags : UInt32 → Option UInt32 := fun _ => none
  new_flows : List Nat := []
  old_flows : List Nat := []
  requeued : Option QueueDiscItem := none
  arrived : Nat := 0

namespace FqCoDelQueueDisc

/-- What `CheckConfig` asks of a configuration. -/
def check_config (q : FqCoDelQueueDisc) : Prop :=
  q.quantum ≠ 0 ∧ ¬ (q.attrs.enable_set_associative_hash = true ∧ q.attrs.flows % q.attrs.set_ways ≠ 0)

def modify_flow (q : FqCoDelQueueDisc) (i : Nat) (f : FqCoDelFlow → FqCoDelFlow) : FqCoDelQueueDisc :=
  { q with classes := q.classes.modify i f }

def get_n_packets (q : FqCoDelQueueDisc) : UInt32 :=
  UInt32.ofNat ((q.classes.map fun flow => flow.queue_disc.packets.length).sum + q.requeued.toList.length)

/-- `Classify`: the answer of the first filter that knows the packet, or -1. -/
def classify (item : QueueDiscItem) : List (QueueDiscItem → Int32) → Int32
  | [] => -1
  | filter :: filters => if filter item = -1 then classify item filters else filter item

/-- The hash by which a packet is classified. -/
def get_flow_hash (q : FqCoDelQueueDisc) (item : QueueDiscItem) : Option UInt32 :=
  if q.filters.isEmpty then some (q.hash item q.attrs.perturbation)
  else if classify item q.filters = -1 then none
  else some (classify item q.filters).toUInt32

/-- The queues of the set of a flow, in the order of the scan. -/
def ways (a : Attributes) (flow_hash : UInt32) : List UInt32 :=
  let h := flow_hash % a.flows
  (List.range a.set_ways.toNat).map fun i => h - h % a.set_ways + UInt32.ofNat i

/-- Whether the scan takes a queue for a flow: it has not been created, is associated with the
flow, or is inactive. -/
def usable (q : FqCoDelQueueDisc) (flow_hash i : UInt32) : Bool :=
  match q.flows_indices i with
  | none => true
  | some c => q.tags i = some flow_hash || q.classes[c]?.any (·.status = .inactive)

def set_associative_hash (q : FqCoDelQueueDisc) (flow_hash : UInt32) : UInt32 × FqCoDelQueueDisc :=
  let h := flow_hash % q.attrs.flows
  let i := ((ways q.attrs flow_hash).find? (q.usable flow_hash)).getD (h - h % q.attrs.set_ways)
  (i, { q with tags := Function.update q.tags i (some flow_hash) })

/-- The queue of a flow. `none` is a division by zero. -/
def select_queue (q : FqCoDelQueueDisc) (flow_hash : UInt32) : Option (UInt32 × FqCoDelQueueDisc) :=
  if q.attrs.flows = 0 then none
  else if q.attrs.enable_set_associative_hash then
    if q.attrs.set_ways = 0 then none else some (q.set_associative_hash flow_hash)
  else some (flow_hash % q.attrs.flows, q)

def new_flow (q : FqCoDelQueueDisc) (h : UInt32) : FqCoDelFlow where
  index := h
  queue_disc :=
    { attrs :=
        { use_ecn := q.attrs.use_ecn
          use_l4s := q.attrs.use_l4s
          interval := q.attrs.interval
          target := q.attrs.target
          ce_threshold := q.attrs.ce_threshold }
      max_size := ⟨.packets, q.max_size⟩ }

/-- The class of a queue, which is created if there is none. -/
def get_flow (q : FqCoDelQueueDisc) (h : UInt32) : Nat × FqCoDelQueueDisc :=
  match q.flows_indices h with
  | some c => (c, q)
  | none =>
    (q.classes.length, { q with
      classes := q.classes ++ [q.new_flow h]
      flows_indices := Function.update q.flows_indices h (some q.classes.length) })

/-- An inactive flow is put on the list of new flows. -/
def activate (q : FqCoDelQueueDisc) (c : Nat) : FqCoDelQueueDisc :=
  if q.classes[c]?.any (·.status = .inactive) then
    { q.modify_flow c fun flow => { flow with status := .new_flow, deficit := q.quantum.toInt32 } with
      new_flows := q.new_flows ++ [c] }
  else q

/-- The loop of `FqCoDelDrop` over the packets of the fat flow. `none` is an empty queue. -/
def drop_batch (batch threshold : UInt32) :
    List QueueDiscItem → UInt32 → UInt32 → Option (List QueueDiscItem × List QueueDiscEvent)
  | [], _, _ => none
  | item :: rest, count, len =>
    if count + 1 < batch ∧ len + item.size < threshold then
      (drop_batch batch threshold rest (count + 1) (len + item.size)).map fun r =>
        (r.1, .drop_after_dequeue item overlimit_drop :: r.2)
    else some (rest, [.drop_after_dequeue item overlimit_drop])

/-- The position of the first flow with the largest backlog, and the backlog. -/
def fat_flow (q : FqCoDelQueueDisc) : UInt32 × Nat :=
  (List.range q.classes.length).foldl (fun max i =>
    match q.classes[i]? with
    | some flow => if max.1 < flow.queue_disc.get_n_bytes then (flow.queue_disc.get_n_bytes, i) else max
    | none => max) (0, 0)

def fq_codel_drop (q : FqCoDelQueueDisc) : Option (FqCoDelQueueDisc × List QueueDiscEvent) :=
  let fat := q.fat_flow
  q.classes[fat.2]?.bind fun flow =>
    (drop_batch q.attrs.drop_batch_size (fat.1 >>> 1) flow.queue_disc.packets 0 0).map fun r =>
      (q.modify_flow fat.2 fun flow => { flow with queue_disc := { flow.queue_disc with packets := r.1 } }, r.2)

def received (q : FqCoDelQueueDisc) (flow_hash : UInt32) (item : QueueDiscItem) : QueueDiscItem :=
  { item with flow_hash, arrival := q.arrived }

/-- The part of `DoEnqueue` that puts a packet into the queue of its flow. -/
def enqueue_flow (q : FqCoDelQueueDisc) (now : Time) (h flow_hash : UInt32) (item : QueueDiscItem) :
    FqCoDelQueueDisc × List QueueDiscEvent :=
  let g := q.get_flow h
  let q := g.2.activate g.1
  match q.classes[g.1]? with
  | none => (q, [])
  | some flow =>
    let r := flow.queue_disc.enqueue now (q.received flow_hash item)
    ({ q.modify_flow g.1 fun flow => { flow with queue_disc := r.2.1 } with arrived := q.arrived + 1 },
      r.2.2.map child_event)

/-- `Enqueue`. `none` is a program that stops. -/
def enqueue (q : FqCoDelQueueDisc) (now : Time) (item : QueueDiscItem) :
    Option (Bool × FqCoDelQueueDisc × List QueueDiscEvent) :=
  match q.get_flow_hash item with
  | none => some (false, q, [.drop_before_enqueue item unclassified_drop])
  | some flow_hash =>
    (q.select_queue flow_hash).bind fun s =>
      let r := s.2.enqueue_flow now s.1 flow_hash item
      if r.1.max_size < r.1.get_n_packets then r.1.fq_codel_drop.map fun d => (true, d.1, r.2 ++ d.2)
      else some (true, r.1, r.2)

/-- Whether the deficit of a flow is used up. -/
def exhausted (q : FqCoDelQueueDisc) (i : Nat) : Bool := q.classes[i]?.any (·.deficit ≤ 0)

def increase_deficit (q : FqCoDelQueueDisc) (i : Nat) (deficit : Int32) : FqCoDelQueueDisc :=
  q.modify_flow i fun flow => { flow with deficit := flow.deficit + deficit }

def set_status (q : FqCoDelQueueDisc) (i : Nat) (status : FlowStatus) : FqCoDelQueueDisc :=
  q.modify_flow i fun flow => { flow with status }

def charge (q : FqCoDelQueueDisc) (i : Nat) (size : UInt32) : FqCoDelQueueDisc :=
  q.modify_flow i fun flow =>
    { flow with deficit := flow.deficit + (size * (-1)).toInt32, sent := flow.sent + size.toNat }

/-- The first loop of `DoDequeue`: the new flows at the front whose deficit is used up become
old flows. -/
def next_new (q : FqCoDelQueueDisc) : List Nat → FqCoDelQueueDisc
  | [] => { q with new_flows := [] }
  | i :: rest =>
    if q.exhausted i then
      next_new { (q.increase_deficit i q.quantum.toInt32).set_status i .old_flow with
        old_flows := q.old_flows ++ [i] } rest
    else { q with new_flows := i :: rest }

/-- The second loop of `DoDequeue`, for at most so many rounds. -/
def next_old : Nat → FqCoDelQueueDisc → Option FqCoDelQueueDisc
  | 0, _ => none
  | n + 1, q =>
    match q.old_flows with
    | [] => some q
    | i :: rest =>
      if q.exhausted i then
        next_old n { q.increase_deficit i q.quantum.toInt32 with old_flows := rest ++ [i] }
      else some q

/-- The flow the two loops find, if any, is the first of the new flows or else of the old ones. -/
def find_flow (n : Nat) (q : FqCoDelQueueDisc) : Option FqCoDelQueueDisc :=
  let q := q.next_new q.new_flows
  if q.new_flows.isEmpty then next_old n q else some q

/-- A flow without a packet to give is moved on. -/
def retire (q : FqCoDelQueueDisc) (i : Nat) : FqCoDelQueueDisc :=
  if q.new_flows.isEmpty then { q.set_status i .inactive with old_flows := q.old_flows.tail }
  else { q.set_status i .old_flow with old_flows := q.old_flows ++ [i], new_flows := q.new_flows.tail }

/-- `DoDequeue`, for at most so many rounds of its loops. `none` means that they do not suffice,
or that the program stops. -/
def do_dequeue : Nat → FqCoDelQueueDisc → Time →
    Option (Option QueueDiscItem × FqCoDelQueueDisc × List QueueDiscEvent)
  | 0, _, _ => none
  | n + 1, q, now =>
    (find_flow n q).bind fun q =>
      match (q.new_flows ++ q.old_flows).head? with
      | none => some (none, q, [])
      | some i =>
        q.classes[i]?.bind fun flow =>
          (flow.queue_disc.do_dequeue now).bind fun r =>
            let q := q.modify_flow i fun flow => { flow with queue_disc := r.2.1 }
            match r.1 with
            | some item =>
              some (some item, q.charge i item.size, r.2.2.map child_event)
            | none =>
              (do_dequeue n (q.retire i) now).map fun d => (d.1, d.2.1, r.2.2.map child_event ++ d.2.2)

def dequeue (n : Nat) (q : FqCoDelQueueDisc) (now : Time) :
    Option (Option QueueDiscItem × FqCoDelQueueDisc × List QueueDiscEvent) :=
  match q.requeued with
  | some item => some (some item, { q with requeued := none }, [])
  | none => do_dequeue n q now

/-- `Peek` dequeues a packet and keeps it. -/
def peek (n : Nat) (q : FqCoDelQueueDisc) (now : Time) :
    Option (Option QueueDiscItem × FqCoDelQueueDisc × List QueueDiscEvent) :=
  match q.requeued with
  | some item => some (some item, q, [])
  | none => (do_dequeue n q now).map fun r => (r.1, { r.2.1 with requeued := r.1 }, r.2.2)

end FqCoDelQueueDisc

end Ns3.TrafficControl
