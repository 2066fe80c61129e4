import Ns3.Wifi.CtrlBAckResponseHeader

namespace Ns3

open BlockAckAgreement (get_distance)

/-- The scoreboard and the receive reordering buffer of a recipient. `buffered_mpdus` is the
map in the order of its keys, and `rx_middle` what has been passed up. -/
structure RecipientBlockAckAgreement (α : Type) where
  scoreboard : BlockAckWindow
  win_start_b : ℕ
  win_size_b : ℕ
  buffered_mpdus : List (WifiMpdu α) := []
  rx_middle : List (WifiMpdu α) := []
deriving DecidableEq, Repr

namespace RecipientBlockAckAgreement

variable {α : Type}

def create (buffer_size starting_seq : ℕ) : RecipientBlockAckAgreement α where
  scoreboard := .init starting_seq buffer_size
  win_start_b := starting_seq
  win_size_b := buffer_size

/-- `Compare`, of two keys that hold the window start `win_start_b`. -/
def compare (win_start_b a b : ℕ) : Bool :=
  decide ((a + SEQNO_SPACE_SIZE - win_start_b) % SEQNO_SPACE_SIZE
    < (b + SEQNO_SPACE_SIZE - win_start_b) % SEQNO_SPACE_SIZE)

/-- `insert` of the map, which keeps what it has under an equivalent key. -/
def insert (win_start_b : ℕ) (mpdu : WifiMpdu α) : List (WifiMpdu α) → List (WifiMpdu α)
  | [] => [mpdu]
  | x :: xs =>
    if compare win_start_b x.sequence_number mpdu.sequence_number then
      x :: insert win_start_b mpdu xs
    else if compare win_start_b mpdu.sequence_number x.sequence_number then mpdu :: x :: xs
    else x :: xs

/-- The assertion that there are no old MPDUs in the buffer. -/
def no_old (s : RecipientBlockAckAgreement α) : Option Unit :=
  match s.buffered_mpdus.getLast? with
  | none => some ()
  | some last => do
    let distance ← get_distance last.sequence_number s.win_start_b
    if distance < SEQNO_SPACE_HALF_SIZE then some () else none

/-- The loop of `PassBufferedMpdusUntilFirstLost`, over what the buffer holds. -/
def pass_run (s : RecipientBlockAckAgreement α) : List (WifiMpdu α) → RecipientBlockAckAgreement α
  | [] => s
  | x :: xs =>
    if x.sequence_number = s.win_start_b then
      pass_run { s with
        rx_middle := s.rx_middle ++ [x]
        buffered_mpdus := xs
        win_start_b := (s.win_start_b + 1) % SEQNO_SPACE_SIZE } xs
    else s

def pass_buffered_mpdus_until_first_lost (s : RecipientBlockAckAgreement α) :
    Option (RecipientBlockAckAgreement α) := do
  s.no_old
  return pass_run s s.buffered_mpdus

/-- The loop of `PassBufferedMpdusWithSeqNumberLessThan`, over what the buffer holds. -/
def pass_less (new_win_start_b : ℕ) (s : RecipientBlockAckAgreement α) :
    List (WifiMpdu α) → Option (RecipientBlockAckAgreement α)
  | [] => some s
  | x :: xs => do
    let distance ← get_distance x.sequence_number s.win_start_b
    let new_distance ← get_distance new_win_start_b s.win_start_b
    if distance < new_distance then
      pass_less new_win_start_b { s with rx_middle := s.rx_middle ++ [x], buffered_mpdus := xs } xs
    else some s

def pass_buffered_mpdus_with_seq_number_less_than (s : RecipientBlockAckAgreement α)
    (new_win_start_b : ℕ) : Option (RecipientBlockAckAgreement α) := do
  s.no_old
  let s ← pass_less new_win_start_b s s.buffered_mpdus
  return { s with win_start_b := new_win_start_b }

/-- The start of the window that ends with a sequence number, as the 16 bits of the
argument that `NotifyReceivedMpdu` passes. -/
def start_of_window_ending (sequence_number win_size_b : ℕ) : ℕ :=
  (sequence_number + 2 ^ 64 - win_size_b + 1) % 2 ^ 16

/-- The scoreboard's part of `NotifyReceivedMpdu`. -/
def mark_received (scoreboard : BlockAckWindow) (sequence_number : ℕ) : Option BlockAckWindow := do
  let distance ← get_distance sequence_number scoreboard.win_start
  if distance < scoreboard.get_win_size then scoreboard.set distance
  else if distance < SEQNO_SPACE_HALF_SIZE then
    (scoreboard.advance (distance - scoreboard.get_win_size + 1)).set (scoreboard.get_win_size - 1)
  else some scoreboard

def notify_received_mpdu (s : RecipientBlockAckAgreement α) (mpdu : WifiMpdu α) :
    Option (RecipientBlockAckAgreement α) := do
  let scoreboard ← mark_received s.scoreboard mpdu.sequence_number
  let s := { s with scoreboard }
  let distance ← get_distance mpdu.sequence_number s.win_start_b
  if distance < s.win_size_b then
    let s := { s with buffered_mpdus := insert s.win_start_b mpdu s.buffered_mpdus }
    s.pass_buffered_mpdus_until_first_lost
  else if distance < SEQNO_SPACE_HALF_SIZE then
    let s := { s with buffered_mpdus := insert s.win_start_b mpdu s.buffered_mpdus }
    let s ← s.pass_buffered_mpdus_with_seq_number_less_than
      (start_of_window_ending mpdu.sequence_number s.win_size_b)
    s.pass_buffered_mpdus_until_first_lost
  else some s

def flush (s : RecipientBlockAckAgreement α) : Option (RecipientBlockAckAgreement α) := do
  let s ← s.pass_buffered_mpdus_with_seq_number_less_than s.scoreboard.win_start
  s.pass_buffered_mpdus_until_first_lost

/-- The scoreboard's part of `NotifyReceivedBar`, with its assertion. -/
def move_start (scoreboard : BlockAckWindow) (starting_sequence_number : ℕ) : Option BlockAckWindow := do
  let distance ← get_distance starting_sequence_number scoreboard.win_start
  if 0 < distance ∧ distance < scoreboard.get_win_size then
    let scoreboard := scoreboard.advance distance
    if scoreboard.win_start = starting_sequence_number then some scoreboard else none
  else if 0 < distance ∧ distance < SEQNO_SPACE_HALF_SIZE then
    some (scoreboard.reset starting_sequence_number)
  else some scoreboard

def notify_received_bar (s : RecipientBlockAckAgreement α) (starting_sequence_number : ℕ) :
    Option (RecipientBlockAckAgreement α) := do
  let scoreboard ← move_start s.scoreboard starting_sequence_number
  let s := { s with scoreboard }
  let distance ← get_distance starting_sequence_number s.win_start_b
  if 0 < distance ∧ distance < SEQNO_SPACE_HALF_SIZE then
    let s ← s.pass_buffered_mpdus_with_seq_number_less_than starting_sequence_number
    s.pass_buffered_mpdus_until_first_lost
  else some s

/-- The loop of `FillBlockAckBitmap`, over distances from the start of the scoreboard. -/
def fill_bits (scoreboard : BlockAckWindow) (index : ℕ) :
    List ℕ → CtrlBAckResponseHeader → Option CtrlBAckResponseHeader
  | [], h => some h
  | i :: is, h => do
    if ← scoreboard.get i then
      let h ← h.set_received_packet index ((scoreboard.win_start + i) % SEQNO_SPACE_SIZE)
      fill_bits scoreboard index is h
    else fill_bits scoreboard index is h

def fill_block_ack_bitmap (s : RecipientBlockAckAgreement α) (block_ack_header : CtrlBAckResponseHeader)
    (index : ℕ) : Option CtrlBAckResponseHeader :=
  match block_ack_header.variant with
  | .basic | .multi_tid => none
  | .compressed | .extended_compressed | .multi_sta => do
    let ssn := s.scoreboard.win_start
    let h ← block_ack_header.set_starting_sequence index ssn
    let h ← h.reset_bitmap index
    fill_bits s.scoreboard index (List.range s.scoreboard.get_win_size) h

end RecipientBlockAckAgreement

end Ns3
