import Ns3.Core.Scheduler
import Ns3.Foundation.PriorityQueue

namespace Ns3

open PriorityQueue (Operation Response)
open Scheduler (Event)

structure EventId where
  impl : Option EventImpl := none
  ts : UInt64 := 0
  context : UInt32 := 0
  uid : UInt32 := 0
deriving DecidableEq, Repr

namespace EventId

/-- The special values of an identifier. -/
def invalid : UInt32 := 0

def destroy : UInt32 := 2

def valid : UInt32 := 4

/-- The identifier `Schedule` returns for an event. -/
def of (ev : Event) : EventId := ⟨some ev.impl, ev.key.ts, ev.key.context, ev.key.uid⟩

end EventId

namespace DefaultSimulatorImpl

/-- What happens in a simulation. An event whose turn comes is `invoked` at the time of the
clock, or `skipped` when its implementation has been cancelled. -/
inductive Occurrence
  | scheduled (ev : Event)
  | scheduled_destroy (id : EventId)
  | cancelled (impl : EventImpl)
  | removed (ev : Event)
  | removed_destroy (id : EventId)
  | invoked (ev : Event) (clock : UInt64)
  | skipped (ev : Event)
  | destroyed (id : EventId)
deriving DecidableEq, Repr

end DefaultSimulatorImpl

open DefaultSimulatorImpl (Occurrence)

/-- The state of `DefaultSimulatorImpl` over a scheduler with states `Q`. `cancelled` holds
the implementations whose cancel flag is set, and `log` what has happened, in order. -/
structure DefaultSimulatorImpl (Q : Type) where
  stop : Bool := false
  uid : UInt32 := EventId.valid
  current_uid : UInt32 := EventId.invalid
  current_ts : UInt64 := 0
  current_context : UInt32 := 0xffffffff
  event_count : UInt64 := 0
  unscheduled_events : Int32 := 0
  destroy_events : List EventId := []
  events : Q
  cancelled : List EventImpl := []
  log : List Occurrence := []

namespace DefaultSimulatorImpl

variable {Q : Type} (scheduler : Q → Operation Event → Option (Q × Response Event))

def is_cancelled (s : DefaultSimulatorImpl Q) (impl : EventImpl) : Bool := s.cancelled.contains impl

def is_expired (s : DefaultSimulatorImpl Q) (id : EventId) : Bool :=
  match id.impl with
  | none => true
  | some impl =>
    if id.uid = EventId.destroy then s.is_cancelled impl || !s.destroy_events.contains id
    else id.ts < s.current_ts || (id.ts == s.current_ts && id.uid ≤ s.current_uid) || s.is_cancelled impl

/-- The time `delay` from now, as the 64 bits of the sum. -/
def absolute_time (s : DefaultSimulatorImpl Q) (delay : Int) : UInt64 :=
  UInt64.ofInt (s.current_ts.toNat + delay)

/-- The part `Schedule` and `ScheduleWithContext` share. -/
def insert_event (s : DefaultSimulatorImpl Q) (context : UInt32) (delay : Int) (impl : EventImpl) :
    Option (DefaultSimulatorImpl Q) :=
  let ev : Event := ⟨impl, ⟨s.absolute_time delay, s.uid, context⟩⟩
  (scheduler s.events (.insert ev)).map fun r =>
    { s with
      uid := s.uid + 1
      unscheduled_events := s.unscheduled_events + 1
      events := r.1
      log := s.log ++ [.scheduled ev] }

/-- `Schedule`; `none` is its failing assertion on a negative delay. -/
def schedule (s : DefaultSimulatorImpl Q) (delay : Int) (impl : EventImpl) : Option (DefaultSimulatorImpl Q) :=
  if 0 ≤ delay then s.insert_event scheduler s.current_context delay impl else none

def schedule_now (s : DefaultSimulatorImpl Q) (impl : EventImpl) : Option (DefaultSimulatorImpl Q) :=
  s.schedule scheduler 0 impl

/-- `ScheduleWithContext`, called from the simulation thread. -/
def schedule_with_context (s : DefaultSimulatorImpl Q) (context : UInt32) (delay : Int) (impl : EventImpl) :
    Option (DefaultSimulatorImpl Q) :=
  s.insert_event scheduler context delay impl

def schedule_destroy (s : DefaultSimulatorImpl Q) (impl : EventImpl) : DefaultSimulatorImpl Q :=
  let id : EventId := ⟨some impl, s.current_ts, 0xffffffff, EventId.destroy⟩
  { s with destroy_events := s.destroy_events ++ [id], uid := s.uid + 1, log := s.log ++ [.scheduled_destroy id] }

def cancel_impl (s : DefaultSimulatorImpl Q) (impl : EventImpl) : DefaultSimulatorImpl Q :=
  { s with cancelled := s.cancelled ++ [impl], log := s.log ++ [.cancelled impl] }

def cancel (s : DefaultSimulatorImpl Q) (id : EventId) : DefaultSimulatorImpl Q :=
  match id.impl with
  | some impl => if s.is_expired id then s else s.cancel_impl impl
  | none => s

def remove (s : DefaultSimulatorImpl Q) (id : EventId) : Option (DefaultSimulatorImpl Q) :=
  if id.uid = EventId.destroy then
    if id ∈ s.destroy_events then
      some { s with destroy_events := s.destroy_events.erase id, log := s.log ++ [.removed_destroy id] }
    else some s
  else
    match id.impl with
    | some impl =>
      if s.is_expired id then some s
      else
        let event : Event := ⟨impl, ⟨id.ts, id.uid, id.context⟩⟩
        (scheduler s.events (.remove event)).map fun r =>
          let s := s.cancel_impl impl
          { s with
            events := r.1
            unscheduled_events := s.unscheduled_events - 1
            log := s.log ++ [.removed event] }
    | none => some s

/-- `Stop`. The version with a delay schedules a call of this one. -/
def stop_now (s : DefaultSimulatorImpl Q) : DefaultSimulatorImpl Q := { s with stop := true }

/-- `ProcessOneEvent`, up to the invocation of the event; the calls it makes are the steps
that follow. `none` is the failing assertion that the clock does not go back. -/
def process_one_event (s : DefaultSimulatorImpl Q) : Option (DefaultSimulatorImpl Q) :=
  (scheduler s.events .remove_next).bind fun r =>
    match r.2 with
    | .item next =>
      if s.current_ts ≤ next.key.ts then
        some { s with
          events := r.1
          unscheduled_events := s.unscheduled_events - 1
          event_count := s.event_count + 1
          current_ts := next.key.ts
          current_context := next.key.context
          current_uid := next.key.uid
          log := s.log ++ [if s.is_cancelled next.impl then .skipped next else .invoked next next.key.ts] }
      else none
    | _ => none

/-- `m_events->IsEmpty()`. -/
def no_events (s : DefaultSimulatorImpl Q) : Bool :=
  match scheduler s.events .is_empty with
  | some (_, .flag b) => b
  | _ => true

/-- A turn of the loop of `Run`. -/
def run_turn (s : DefaultSimulatorImpl Q) : Option (DefaultSimulatorImpl Q) :=
  if ¬ s.no_events scheduler ∧ s.stop = false then s.process_one_event scheduler else none

/-- A turn of the loop of `Destroy`. -/
def destroy_turn (s : DefaultSimulatorImpl Q) : Option (DefaultSimulatorImpl Q) :=
  match s.destroy_events with
  | [] => none
  | id :: rest => some { s with destroy_events := rest, log := s.log ++ [.destroyed id] }

/-- The steps of a simulation: the calls of the program, before `Run` and from inside the
running event, the start of `Run`, and the turns of the loops of `Run` and `Destroy`. -/
inductive Move
  | schedule (delay : Int) (impl : EventImpl)
  | schedule_now (impl : EventImpl)
  | schedule_with_context (context : UInt32) (delay : Int) (impl : EventImpl)
  | schedule_destroy (impl : EventImpl)
  | cancel (id : EventId)
  | remove (id : EventId)
  | stop
  | run
  | run_turn
  | destroy_turn
deriving DecidableEq, Repr

def step (s : DefaultSimulatorImpl Q) : Move → Option (DefaultSimulatorImpl Q)
  | .schedule delay impl => s.schedule scheduler delay impl
  | .schedule_now impl => s.schedule_now scheduler impl
  | .schedule_with_context context delay impl => s.schedule_with_context scheduler context delay impl
  | .schedule_destroy impl => some (s.schedule_destroy impl)
  | .cancel id => some (s.cancel id)
  | .remove id => s.remove scheduler id
  | .stop => some s.stop_now
  | .run => some { s with stop := false }
  | .run_turn => s.run_turn scheduler
  | .destroy_turn => s.destroy_turn

end DefaultSimulatorImpl

end Ns3
