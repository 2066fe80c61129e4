import Ns3.Wifi.CtrlBAckResponseHeader
import Ns3.Wifi.OriginatorBlockAckAgreement

namespace Ns3

open BlockAckAgreement (get_distance)

/-- The entry of an established agreement in the manager's map: the agreement and the queue of
its MPDUs in flight. -/
structure BlockAckManager (α : Type) where
  agreement : OriginatorBlockAckAgreement
  in_flight : List (WifiMpdu α) := []
deriving DecidableEq, Repr

namespace BlockAckManager

inductive MpduStatus
  | stay_inflight
  | to_retransmit
  | acknowledged
deriving DecidableEq, Repr

/-- What the scan of `StorePacket` finds. -/
inductive Place (α : Type)
  | present
  | insert (queue : List (WifiMpdu α))

variable {α : Type}

/-- The scan of `StorePacket` from the end of the queue, over the reversed queue. -/
def scan (start mpdu_dist : ℕ) (mpdu : WifiMpdu α) : List (WifiMpdu α) → Option (Place α)
  | [] => some (.insert [mpdu])
  | x :: xs =>
    if mpdu.sequence_control = x.sequence_control then some .present
    else do
      let dist ← get_distance x.sequence_number start
      if mpdu_dist > dist ∨ (mpdu_dist = dist ∧ mpdu.fragment_number > x.fragment_number) then
        return .insert (mpdu :: x :: xs)
      match ← scan start mpdu_dist mpdu xs with
      | .present => return .present
      | .insert queue => return .insert (x :: queue)

def store_packet (s : BlockAckManager α) (mpdu : WifiMpdu α) : Option (BlockAckManager α) := do
  let mpdu_dist ← s.agreement.distance_to mpdu.sequence_number
  if mpdu_dist ≥ SEQNO_SPACE_HALF_SIZE then return s
  match ← scan s.agreement.tx_window.win_start mpdu_dist mpdu s.in_flight.reverse with
  | .present => return s
  | .insert queue => do
    let agreement ← s.agreement.notify_transmitted_mpdu mpdu.sequence_number
    return ⟨agreement, queue.reverse⟩

/-- `HandleInFlightMpdu` of an MPDU in the EDCA queue whose lifetime has not expired: whether
the MPDU stays in flight. -/
def handle_in_flight_mpdu (s : BlockAckManager α) (mpdu : WifiMpdu α) (status : MpduStatus) : Option Bool :=
  if status = .acknowledged then some false
  else do
    let distance ← s.agreement.distance_to mpdu.sequence_number
    if distance ≥ SEQNO_SPACE_HALF_SIZE then return false
    return status = .stay_inflight

/-- A loop that handles each MPDU in flight with its status. -/
def handle_all (s : BlockAckManager α) (status : WifiMpdu α → MpduStatus) :
    List (WifiMpdu α) → Option (List (WifiMpdu α))
  | [] => some []
  | x :: xs => do
    let stays ← s.handle_in_flight_mpdu x (status x)
    let xs ← handle_all s status xs
    return if stays then x :: xs else xs

/-- The first MPDU in flight with a sequence number is handled. -/
def handle_first (s : BlockAckManager α) (seq_number : ℕ) (status : MpduStatus) :
    List (WifiMpdu α) → Option (List (WifiMpdu α))
  | [] => some []
  | x :: xs =>
    if x.sequence_number = seq_number then do
      let stays ← s.handle_in_flight_mpdu x status
      return if stays then x :: xs else xs
    else do
      let xs ← handle_first s seq_number status xs
      return x :: xs

def notify_got_ack (s : BlockAckManager α) (mpdu : WifiMpdu α) : Option (BlockAckManager α) := do
  let agreement ← s.agreement.notify_acked_mpdu mpdu.sequence_number
  let s := { s with agreement }
  let in_flight ← s.handle_first mpdu.sequence_number .acknowledged s.in_flight
  return { s with in_flight }

def notify_missed_ack (s : BlockAckManager α) (mpdu : WifiMpdu α) : Option (BlockAckManager α) := do
  let in_flight ← s.handle_first mpdu.sequence_number .to_retransmit s.in_flight
  return { s with in_flight }

/-- The first loop of `NotifyGotBlockAck`: it removes the MPDUs that the frame acknowledges. -/
def remove_acked (received : ℕ → Option Bool) :
    OriginatorBlockAckAgreement → List (WifiMpdu α) → Option (BlockAckManager α)
  | agreement, [] => some ⟨agreement, []⟩
  | agreement, x :: xs => do
    if ← received x.sequence_number then
      let agreement ← agreement.notify_acked_mpdu x.sequence_number
      remove_acked received agreement xs
    else
      let s ← remove_acked received agreement xs
      return { s with in_flight := x :: s.in_flight }

/-- `NotifyGotBlockAck` on a link. `in_flight_link_ids` are the links an MPDU is in flight on. -/
def notify_got_block_ack (s : BlockAckManager α) (link_id : ℕ) (block_ack : CtrlBAckResponseHeader)
    (index : ℕ) (in_flight_link_ids : WifiMpdu α → List ℕ) : Option (BlockAckManager α) := do
  if block_ack.variant = .basic ∨ block_ack.variant = .multi_tid then none
  let s ← remove_acked (block_ack.is_packet_received index) s.agreement s.in_flight
  let status mpdu := if in_flight_link_ids mpdu = [link_id] then .to_retransmit else .stay_inflight
  let in_flight ← s.handle_all status s.in_flight
  return { s with in_flight }

def notify_missed_block_ack (s : BlockAckManager α) (link_id : ℕ)
    (in_flight_link_ids : WifiMpdu α → List ℕ) : Option (BlockAckManager α) := do
  let status mpdu := if link_id ∈ in_flight_link_ids mpdu then .to_retransmit else .stay_inflight
  let in_flight ← s.handle_all status s.in_flight
  return { s with in_flight }

/-- The loop of `NotifyDiscardedMpdu` over the queue, which stops at the first MPDU that is not old. -/
def drop_old (agreement : OriginatorBlockAckAgreement) : List (WifiMpdu α) → Option (List (WifiMpdu α))
  | [] => some []
  | x :: xs => do
    let distance ← agreement.distance_to x.sequence_number
    if distance ≥ SEQNO_SPACE_HALF_SIZE then drop_old agreement xs
    else return x :: xs

def qos_utils_is_old_packet (starting_seq seq_number : ℕ) : Option Bool := do
  let distance ← get_distance seq_number starting_seq
  return distance ≥ SEQNO_SPACE_HALF_SIZE

/-- `NotifyDiscardedMpdu`. `transmitted` is whether the MPDU is a retry or in flight. -/
def notify_discarded_mpdu (s : BlockAckManager α) (mpdu : WifiMpdu α) (transmitted : Bool) :
    Option (BlockAckManager α) := do
  if !transmitted then return s
  if ← qos_utils_is_old_packet s.agreement.get_starting_sequence mpdu.sequence_number then return s
  let agreement ← s.agreement.notify_discarded_mpdu mpdu.sequence_number
  let in_flight ← drop_old agreement s.in_flight
  return ⟨agreement, in_flight⟩

end BlockAckManager

end Ns3
