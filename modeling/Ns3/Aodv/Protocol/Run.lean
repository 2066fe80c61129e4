import Ns3.Aodv.Protocol.Action.Handle
import Ns3.Foundation.Reachable

namespace Ns3.Aodv.RoutingProtocol

open Transition (Reachable)

/-- A node as `SetIpv4` leaves it, before its first event. -/
def Initial (s : RoutingProtocol) : Prop :=
  ∃ attrs max_queue_len max_queue_time detect verification lo,
    s = init attrs max_queue_len max_queue_time detect verification lo

def timed_step (s : RoutingProtocol) (e : Time × Event) : Option RoutingProtocol := s.step e.1 e.2

/-- The states that the runs of a node reach when each event meets `cond` in the
state before it. -/
abbrev Run (cond : RoutingProtocol → Time × Event → Prop) : RoutingProtocol → Prop :=
  Reachable Initial timed_step cond

/-- The cause of an event: the state with the clock set to the event's time. -/
def cause (s : RoutingProtocol) (e : Time × Event) : Cause := ⟨{ s with now := e.1 }, e.2⟩

variable {c : Cause} {s s' : RoutingProtocol} {cond : RoutingProtocol → Time × Event → Prop}

theorem step_actions {e : Time × Event} (h : s.timed_step e = some s') :
    s.now ≤ e.1 ∧ Actions (s.cause e) { s with now := e.1 } s' := by
  unfold timed_step step at h
  split at h
  next hclock => exact ⟨hclock, handle_actions h⟩
  next => cases h

theorem Actions.invariant {I : RoutingProtocol → Prop} (haction : ∀ s s', I s → Action c s s' → I s')
    (hactions : Actions c s s') (hs : I s) : I s' := by
  induction hactions with
  | refl => exact hs
  | tail _ hlast ih => exact haction _ _ ih hlast

/-- What holds initially, does not depend on the clock and is preserved by every
action holds in every state of every run. -/
theorem Run.of_actions {I : RoutingProtocol → Prop} (hinit : ∀ s, Initial s → I s)
    (hclock : ∀ (s : RoutingProtocol) (t : Time), s.now ≤ t → I s → I { s with now := t })
    (haction : ∀ s e, cond s e → ∀ s₁ s₂, I s₁ → Action (s.cause e) s₁ s₂ → I s₂)
    (hrun : Run cond s) : I s := by
  refine hrun.invariant hinit ?_
  intro s e s' hs hcond hstep
  obtain ⟨htime, hactions⟩ := step_actions hstep
  exact hactions.invariant (haction s e hcond) (hclock s e.1 htime hs)

section Frame

theorem Detection.frame (h : Detection s s') :
    s' = { s with detector := s'.detector, log := s'.log } := by
  cases h with
  | start origin dst henable =>
    unfold start_rtt_probe
    split <;> rfl
  | _ => rfl

theorem Action.frame (h : Action c s s') : s'.attrs = s.attrs ∧ s'.now = s.now := by
  cases h with
  | internal h => rw [h]; exact ⟨rfl, rfl⟩
  | detect h => rw [h.frame]; exact ⟨rfl, rfl⟩
  | configure h => rw [h]; exact ⟨rfl, rfl⟩
  | _ => exact ⟨rfl, rfl⟩

theorem Detection.log (h : Detection s s') : ∃ l, s'.log = s.log ++ l := by
  cases h with
  | start origin dst henable =>
    unfold start_rtt_probe
    rw [if_pos henable]
    exact ⟨_, rfl⟩
  | _ => exact ⟨_, rfl⟩

theorem Action.log (h : Action c s s') : ∃ l, s'.log = s.log ++ l := by
  cases h with
  | internal h => exact ⟨[], by rw [h]; simp⟩
  | table => exact ⟨[], by simp⟩
  | increment => exact ⟨[], by simp⟩
  | send => exact ⟨_, rfl⟩
  | report => exact ⟨_, rfl⟩
  | forward => exact ⟨_, rfl⟩
  | detect h => exact h.log
  | configure h => exact ⟨[], by rw [h]; simp⟩

theorem Actions.log (h : Actions c s s') : ∃ l, s'.log = s.log ++ l := by
  induction h with
  | refl => exact ⟨[], by simp⟩
  | tail _ hlast ih =>
    obtain ⟨l, hl⟩ := ih
    obtain ⟨l', hl'⟩ := hlast.log
    exact ⟨l ++ l', by rw [hl', hl, List.append_assoc]⟩

theorem Actions.frame (h : Actions c s s') : s'.attrs = s.attrs ∧ s'.now = s.now := by
  induction h with
  | refl => exact ⟨rfl, rfl⟩
  | tail _ hlast ih => exact ⟨hlast.frame.1.trans ih.1, hlast.frame.2.trans ih.2⟩

end Frame

/-! A station with one interface, for the examples of runs. -/

namespace Station

def own : Ipv4Address := 0x0a000001
def neighbor : Ipv4Address := 0x0a000002
def destination : Ipv4Address := 0x0a000009

def iface : Ipv4InterfaceAddress := .of own 0xffffff00

def ipv4 : Ipv4 where
  interfaces := [{ device := 0, addresses := [.of Ipv4Address.get_loopback 0xff000000] },
    { device := 1, addresses := [iface] }]

/-- The data packet that starts a discovery. -/
def packet : Packet where
  uid := 1
  tag := some (-1)

def header : Ipv4Header where
  source := own
  destination := destination
  ttl := 64
  protocol := 17

/-- The reply of the neighbour, whose time the detector finds anomalous. -/
def reply : RrepHeader where
  dst := destination
  dst_seqno := 1
  origin := own
  life_time := 11200

/-- A discovery of the destination, answered by the neighbour. -/
def discovery : List (Time × Event) :=
  [(0, .interface_up ipv4 1), (0, .route_input packet header 0 ⟨0, 1, false⟩),
    (milliseconds 1, .recv_aodv own neighbor 64 (.rrep reply))]

/-- The station with the default attributes, before its first event. -/
def usual : RoutingProtocol := init { arithmetic := .default } 64 (milliseconds 30000) true true 0

theorem usual_initial : Initial usual := ⟨_, _, _, _, _, _, rfl⟩

end Station

end Ns3.Aodv.RoutingProtocol
