import Ns3.TrafficControl.CoDelQueueDisc

namespace Ns3.TrafficControl

namespace CobaltQueueDisc

open CoDelQueueDisc (reciprocal_divide is_l4s overlimit_drop target_exceeded_drop ce_threshold_exceeded_mark)

/-- The attributes that do not change. `D` stands for `double`. -/
structure Attributes (D : Type) where
  interval : Time := milliseconds 100
  target : Time := milliseconds 5
  use_ecn : Bool := false
  increment : D
  decrement : D
  ce_threshold : Time := 9223372036854775807
  use_l4s : Bool := false
  blue_threshold : Time := milliseconds 400

/-- The variables of the algorithm, with the random numbers to come. `newtons` is history: the
iterates and counts that `NewtonStep` was called with. -/
structure Control (D : Type) where
  count : UInt32 := 0
  drop_next : Time := 0
  dropping : Bool := false
  rec_inv_sqrt : UInt32 := 0xffffffff
  last_update_time_blue : UInt32 := 0
  p_drop : D
  uv : ℕ → D
  newtons : List (UInt32 × UInt32) := []

def forced_mark : String := "forcedMark"

def codel_time_after (a b : Time) : Bool := 0 < a - b

def codel_time_after_eq (a b : Time) : Bool := 0 ≤ a - b

/-- The new iterate of `NewtonStep`. -/
def newton_step (rec_inv_sqrt count : UInt32) : UInt32 :=
  let invsqrt2 : UInt32 := ((rec_inv_sqrt.toUInt64 * rec_inv_sqrt.toUInt64) >>> 32).toUInt32
  let val : UInt64 := (((3 : UInt64) <<< 32) - count.toUInt64 * invsqrt2.toUInt64) >>> 2
  ((val * rec_inv_sqrt.toUInt64) >>> 31).toUInt32

def REC_INV_SQRT_CACHE : ℕ := 16

/-- The calls of `NewtonStep` for one entry of the cache, and the entry. -/
def cache_entry (rec_inv_sqrt count : UInt32) : ℕ → List (UInt32 × UInt32) × UInt32
  | 0 => ([], rec_inv_sqrt)
  | n + 1 =>
    let r := cache_entry (newton_step rec_inv_sqrt count) count n
    ((rec_inv_sqrt, count) :: r.1, r.2)

/-- `CacheInit`: from the entries that there are, so many more. -/
def cache_init (rec_inv_sqrt : UInt32) (count : UInt32) : ℕ → List (UInt32 × UInt32) × List UInt32
  | 0 => ([], [])
  | n + 1 =>
    let entry := cache_entry rec_inv_sqrt count 4
    let r := cache_init entry.2 (count + 1) n
    (entry.1 ++ r.1, entry.2 :: r.2)

/-- The cache as the constructor fills it. -/
def rec_inv_sqrt_cache : List UInt32 := 0xffffffff :: (cache_init 0xffffffff 1 (REC_INV_SQRT_CACHE - 1)).2

variable {D : Type}

def initialize_params (p_drop : D) (uv : ℕ → D) : Control D where
  p_drop := p_drop
  uv := uv
  newtons := (cache_init 0xffffffff 1 (REC_INV_SQRT_CACHE - 1)).1

/-- `NewtonStep`, `InvSqrt`. -/
def inv_sqrt (v : Control D) : Control D :=
  if v.count.toNat < REC_INV_SQRT_CACHE then
    { v with rec_inv_sqrt := rec_inv_sqrt_cache.getD v.count.toNat 0 }
  else
    { v with
      rec_inv_sqrt := newton_step v.rec_inv_sqrt v.count
      newtons := v.newtons ++ [(v.rec_inv_sqrt, v.count)] }

/-- `ControlLaw`. The interval is cut to 32 bits. -/
def control_law (interval : Time) (rec_inv_sqrt : UInt32) (t : Time) : Time :=
  t + (reciprocal_divide (UInt32.ofInt interval) rec_inv_sqrt).toNat

/-- The drop is scheduled after the last one. -/
def schedule_next (a : Attributes D) (v : Control D) : Control D :=
  { v with drop_next := control_law a.interval v.rec_inv_sqrt v.drop_next }

def step_down (a : Attributes D) (v : Control D) : Control D :=
  schedule_next a (inv_sqrt { v with count := v.count - 1 })

variable [Add D] [Sub D] [Min D] [Max D] [Zero D] [One D] [LT D] [DecidableEq D] [DecidableLT D]

/-- The drop probability of BLUE is raised if it is time. -/
def raise_p_drop (a : Attributes D) (now : Time) (v : Control D) : Control D :=
  if codel_time_after (now - v.last_update_time_blue.toNat) a.target then
    { v with p_drop := min (v.p_drop + a.increment) 1, last_update_time_blue := UInt32.ofInt now }
  else v

def cobalt_queue_full (a : Attributes D) (now : Time) (v : Control D) : Control D :=
  { raise_p_drop a now v with
    dropping := true
    drop_next := now
    count := if v.count = 0 then 1 else v.count }

def cobalt_queue_empty (a : Attributes D) (now : Time) (v : Control D) : Control D :=
  let v :=
    if v.p_drop ≠ 0 ∧ codel_time_after (now - v.last_update_time_blue.toNat) a.target then
      { v with p_drop := max (v.p_drop - a.decrement) 0, last_update_time_blue := UInt32.ofInt now }
    else v
  let v := { v with dropping := false }
  if v.count ≠ 0 ∧ codel_time_after_eq (now - v.drop_next) 0 then step_down a v else v

/-- The loop that steps the count down while the next drop is due. -/
def catch_up (a : Attributes D) (now : Time) : ℕ → Control D → Control D
  | 0, v => v
  | n + 1, v =>
    if v.count ≠ 0 ∧ 0 ≤ now - v.drop_next then catch_up a now n (step_down a v) else v

def next_due (now : Time) (v : Control D) : Bool := v.count ≠ 0 && 0 ≤ now - v.drop_next

/-- Entering and leaving the dropping state. -/
def enter_or_leave (a : Attributes D) (now : Time) (over_target : Bool) (v : Control D) : Control D :=
  if over_target then
    let v :=
      if v.dropping then v
      else { v with dropping := true, drop_next := control_law a.interval v.rec_inv_sqrt now }
    if v.count = 0 then { v with count := 1 } else v
  else { v with dropping := false }

/-- What `CobaltShouldDrop` decides on a packet. -/
structure Verdict (D : Type) where
  drop : Bool
  item : QueueDiscItem
  control : Control D
  events : List QueueDiscEvent

/-- The packet with a mark, if it can be marked and is to be. -/
def mark_if (wanted : Bool) (reason : String) (item : QueueDiscItem) : Option (QueueDiscItem × List QueueDiscEvent) :=
  if wanted then item.mark.map fun marked => (marked, [.mark marked reason]) else none

/-- The drop of BLUE. Lack of ECN is deliberate. -/
def blue (v : Control D) : Bool × Control D :=
  if v.p_drop ≠ 0 then (v.uv 0 < v.p_drop, { v with uv := fun i => v.uv (i + 1) }) else (false, v)

/-- The end of `CobaltShouldDrop`: the threshold, BLUE and the activity timeout. `schedule` is the
time since the drop was due. -/
def conclude (a : Attributes D) (now schedule : Time) (is_marked drop : Bool) (item : QueueDiscItem)
    (v : Control D) : Verdict D :=
  let sojourn_time := now - item.time_stamp
  let m := (mark_if (!is_marked && !a.use_l4s && a.use_ecn && codel_time_after sojourn_time a.ce_threshold)
    ce_threshold_exceeded_mark item).getD (item, [])
  let v := if codel_time_after sojourn_time a.blue_threshold then raise_p_drop a now v else v
  let b := blue v
  let drop := drop || b.1
  let v := b.2
  let v :=
    if v.count = 0 then { v with drop_next := now + a.interval }
    else if 0 < schedule ∧ ¬ drop then { v with drop_next := now }
    else v
  { drop, item := m.1, control := v, events := m.2 }

def cobalt_should_drop (a : Attributes D) (now : Time) (item : QueueDiscItem) (v : Control D) : Verdict D :=
  let sojourn_time := now - item.time_stamp
  let schedule := now - v.drop_next
  let next_due := next_due now v
  if a.use_l4s && is_l4s item then
    let m := (mark_if (codel_time_after sojourn_time a.ce_threshold) ce_threshold_exceeded_mark item).getD (item, [])
    { drop := false, item := m.1, control := v, events := m.2 }
  else
    let v := enter_or_leave a now (codel_time_after sojourn_time a.target) v
    if next_due && v.dropping then
      let v := schedule_next a (inv_sqrt { v with count := max v.count (v.count + 1) })
      match mark_if a.use_ecn forced_mark item with
      | some m =>
        let r := conclude a now (now - v.drop_next) true false m.1 v
        { r with events := m.2 ++ r.events }
      | none => conclude a now (now - v.drop_next) false true item v
    else if next_due then
      let v := catch_up a now v.count.toNat v
      conclude a now (now - v.drop_next) false false item v
    else conclude a now schedule false false item v

end CobaltQueueDisc

structure CobaltQueueDisc (D : Type) where
  attrs : CobaltQueueDisc.Attributes D
  max_size : QueueSize
  packets : List QueueDiscItem := []
  control : CobaltQueueDisc.Control D

namespace CobaltQueueDisc

open CoDelQueueDisc (overlimit_drop target_exceeded_drop)

variable {D : Type} [Add D] [Sub D] [Min D] [Max D] [Zero D] [One D] [LT D] [DecidableEq D] [DecidableLT D]

/-- `DoEnqueue`. The internal queue has the same limit. -/
def do_enqueue (q : CobaltQueueDisc D) (now : Time) (item : QueueDiscItem) :
    Bool × CobaltQueueDisc D × List QueueDiscEvent :=
  if exceeds q.max_size q.packets item then
    (false, { q with control := cobalt_queue_full q.attrs now q.control }, [.drop_before_enqueue item overlimit_drop])
  else (true, { q with packets := q.packets ++ [{ item with time_stamp := now }] }, [])

/-- The loop of `DoDequeue`. -/
def dequeue_loop (a : Attributes D) (now : Time) : List QueueDiscItem → Control D →
    Option QueueDiscItem × List QueueDiscItem × Control D × List QueueDiscEvent
  | [], v => (none, [], cobalt_queue_empty a now { v with dropping := false }, [])
  | item :: rest, v =>
    let d := cobalt_should_drop a now item v
    if d.drop then
      let r := dequeue_loop a now rest d.control
      (r.1, r.2.1, r.2.2.1, d.events ++ .drop_after_dequeue d.item target_exceeded_drop :: r.2.2.2)
    else (some d.item, rest, d.control, d.events)

def do_dequeue (q : CobaltQueueDisc D) (now : Time) :
    Option QueueDiscItem × CobaltQueueDisc D × List QueueDiscEvent :=
  let r := dequeue_loop q.attrs now q.packets q.control
  (r.1, { q with packets := r.2.1, control := r.2.2.1 }, r.2.2.2)

/-- `DoPeek`: the head of the internal queue. -/
def do_peek (q : CobaltQueueDisc D) : Option QueueDiscItem := q.packets.head?

end CobaltQueueDisc

end Ns3.TrafficControl
