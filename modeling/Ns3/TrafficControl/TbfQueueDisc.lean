import Ns3.Core.Int64x64
import Ns3.Foundation.Reachable
import Ns3.TrafficControl.QueueDisc

namespace Ns3

/-- A data rate in bits per second. -/
structure DataRate where
  bps : UInt64
deriving DecidableEq, Repr

namespace DataRate

def get_bit_rate (r : DataRate) : UInt64 := r.bps

/-- `CalculateBitsTxTime`, with a clock of nanoseconds. `none` is a division by zero. -/
def calculate_bits_tx_time (r : DataRate) (bits : UInt32) : Option Time :=
  (Int64x64.div (Int64x64.DIGITS + 1) (.of_long (bits.toBitVec.setWidth 64)) (.of_long r.bps.toBitVec)).bind fun seconds =>
    (seconds.mul (.of_long 1000000000)).map fun t => t.round.toInt

def calculate_bytes_tx_time (r : DataRate) (bytes : UInt32) : Option Time := r.calculate_bits_tx_time (bytes * 8)

end DataRate

namespace TrafficControl

structure FifoQueueDisc where
  max_size : QueueSize := ⟨.packets, 1000⟩
  packets : List QueueDiscItem := []
deriving Repr

def FifoQueueDisc.overrides : Overrides FifoQueueDisc where
  do_enqueue held q _ item :=
    some <|
      if exceeds q.max_size (held ++ q.packets) item then
        (q, [.drop_before_enqueue item "Queue disc limit exceeded"])
      else ({ q with packets := q.packets ++ [item] }, [])
  do_dequeue q _ := some (q.packets.head?, { q with packets := q.packets.tail }, [])
  do_peek := some fun q => q.packets.head?

/-- A queue disc of three queues. -/
structure PfifoFastQueueDisc where
  max_size : UInt32 := 1000
  queues : Vector (List QueueDiscItem) 3 := .replicate 3 []
deriving Repr

namespace PfifoFastQueueDisc

local instance bands_ne_zero : NeZero 3 := ⟨by decide⟩

def prio2band : Vector (Fin 3) 16 := #v[1, 2, 2, 2, 1, 2, 0, 0, 1, 1, 1, 1, 1, 1, 1, 1]

def first_band (q : PfifoFastQueueDisc) : Option (Fin 3) :=
  (List.finRange 3).find? fun band => !(q.queues[band]).isEmpty

/-- What `PfifoFastQueueDisc` overrides; `priority` reads the socket priority tag of a packet. -/
def overrides (priority : QueueDiscItem → UInt8) : Overrides PfifoFastQueueDisc where
  do_enqueue held q _ item :=
    some <|
      if q.max_size.toNat ≤ held.length + q.queues.toList.flatten.length then
        (q, [.drop_before_enqueue item "Queue disc limit exceeded"])
      else
        let band := prio2band[(priority item &&& 0x0f).toNat % 16]
        ({ q with queues := q.queues.set band (q.queues[band] ++ [item]) }, [])
  do_dequeue q _ :=
    some <| match q.first_band with
      | some band => (q.queues[band].head?, { q with queues := q.queues.set band q.queues[band].tail }, [])
      | none => (none, q, [])
  do_peek := some fun q => q.first_band.bind fun band => q.queues[band].head?

end PfifoFastQueueDisc

/-- The variables of a `TbfQueueDisc` and its child queue disc. `id` is the time of the wake-up
while it is pending. -/
structure TbfQueueDisc (σ : Type) where
  btokens : ℤ
  ptokens : ℤ
  time_check_point : Time
  id : Option Time
  child : QueueDisc σ

namespace TbfQueueDisc

/-- The attributes: `peak_rate` is zero where there is no second bucket. -/
structure Attributes where
  burst : UInt32 := 125000
  mtu : UInt32 := 0
  rate : DataRate := ⟨1000000⟩
  peak_rate : DataRate := ⟨0⟩
deriving DecidableEq, Repr

/-- `std::round`, halfway cases away from zero. -/
def round (x : ℚ) : ℤ := if 0 ≤ x then ⌊x + 1 / 2⌋ else ⌈x - 1 / 2⌉

/-- A whole `double` given to an `int64_t`; `none` where that is undefined. -/
def to_int64 (x : ℤ) : Option ℤ := if -2 ^ 63 ≤ x ∧ x < 2 ^ 63 then some x else none

def get_seconds (t : Time) : ℚ := t / 10 ^ 9

/-- What a bucket holds after `delta` seconds, less the packet. -/
def toks (tokens : ℤ) (rate : DataRate) (limit : UInt32) (delta : ℚ) (pktSize : UInt32) : Option ℤ :=
  (to_int64 (tokens + round (delta * (rate.get_bit_rate / 8).toNat))).map fun (t : ℤ) =>
    (if t > limit.toNat then (limit.toNat : ℤ) else t) - pktSize.toNat

/-- `btoks` and `ptoks` of `DoDequeue`. -/
def both_toks {σ : Type} (a : Attributes) (s : TbfQueueDisc σ) (now : Time) (pktSize : UInt32) : Option (ℤ × ℤ) :=
  let delta := get_seconds (now - s.time_check_point)
  (if a.peak_rate.get_bit_rate > 0 then toks s.ptokens a.peak_rate a.mtu delta pktSize else some 0).bind fun ptoks =>
    (toks s.btokens a.rate a.burst delta pktSize).map fun btoks => (btoks, ptoks)

/-- The delay of the wake-up; `none` also for the failing assertions. -/
def required_delay_time (a : Attributes) (btoks ptoks : ℤ) : Option Time :=
  let rate_delay := a.rate.calculate_bytes_tx_time (.ofNat (-btoks).toNat)
  let peak_delay := a.peak_rate.calculate_bytes_tx_time (.ofNat (-ptoks).toNat)
  if a.rate.get_bit_rate = 0 then none
  else
    (if a.peak_rate.get_bit_rate = 0 then if btoks < 0 then rate_delay else none
    else if btoks < 0 ∧ 0 ≤ ptoks then rate_delay
    else if 0 ≤ btoks ∧ ptoks < 0 then peak_delay
    else rate_delay.bind fun d => peak_delay.map fun d' => max d d').filter (0 ≤ ·)

variable {σ : Type}

def initialize_params (a : Attributes) (child : QueueDisc σ) : TbfQueueDisc σ :=
  { btokens := a.burst.toNat, ptokens := a.mtu.toNat, time_check_point := 0, id := none, child }

def do_enqueue (o : Overrides σ) (s : TbfQueueDisc σ) (now : Time) (item : QueueDiscItem) : Option (TbfQueueDisc σ) :=
  (o.enqueue s.child now item).map fun r => { s with child := r.1 }

/-- `DoDequeue`. The or of two numbers is negative when one of them is. -/
def do_dequeue (o : Overrides σ) (a : Attributes) (s : TbfQueueDisc σ) (now : Time) :
    Option (Option QueueDiscItem × TbfQueueDisc σ) :=
  (o.peek s.child now).bind fun (itemPeek, child, _) =>
    match itemPeek with
    | none => some (none, { s with child })
    | some item =>
      (both_toks a s now item.size).bind fun (btoks, ptoks) =>
        if 0 ≤ btoks ∧ 0 ≤ ptoks then
          (o.dequeue child now).map fun (item, child, _) =>
            match item with
            | none => (none, { s with child })
            | some item =>
              (some item,
                { s with child, time_check_point := now, btokens := btoks % 2 ^ 32, ptokens := ptoks % 2 ^ 32 })
        else
          match s.id with
          | some _ => some (none, { s with child })
          | none =>
            (required_delay_time a btoks ptoks).map fun requiredDelayTime =>
              (none, { s with child, id := some (now + requiredDelayTime) })

/-- What happens to the queue disc: packets are put in, a packet is asked for, or the timer expires. -/
inductive Event
  | enqueue (item : QueueDiscItem)
  | dequeue
  | wake_up

/-- A queue disc at a time. `sent` is history: the packets that were returned, and when. -/
structure Clocked (σ : Type) where
  clock : Time
  tbf : TbfQueueDisc σ
  sent : List (Time × QueueDiscItem)

/-- The simulator does not go back, and not past an event that is due. -/
def Due (s : Clocked σ) (now : Time) : Prop := s.clock ≤ now ∧ ∀ w ∈ s.tbf.id, now ≤ w

instance (s : Clocked σ) (now : Time) : Decidable (Due s now) := by
  unfold Due
  infer_instance

def step (o : Overrides σ) (a : Attributes) (s : Clocked σ) (e : Time × Event) : Option (Clocked σ) :=
  if Due s e.1 then
    match e.2 with
    | .enqueue item => (s.tbf.do_enqueue o e.1 item).map fun tbf => { s with clock := e.1, tbf }
    | .dequeue =>
      (s.tbf.do_dequeue o a e.1).map fun (item, tbf) =>
        { clock := e.1, tbf, sent := s.sent ++ (item.map (e.1, ·)).toList }
    | .wake_up =>
      if s.tbf.id = some e.1 then some { s with clock := e.1, tbf := { s.tbf with id := none } } else none
  else none

def Initialized (a : Attributes) (s : Clocked σ) : Prop :=
  0 ≤ s.clock ∧ s.sent = [] ∧ ∃ child : QueueDisc σ, child.requeued = none ∧ s.tbf = initialize_params a child

end TbfQueueDisc

end TrafficControl

end Ns3
