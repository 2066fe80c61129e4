import Ns3.Internet.TcpRxBuffer
import Ns3.Network.Address

namespace Ns3

/-- A segment. `node` is the place in a list that holds it, to which iterators point. -/
structure TcpTxItem where
  node : ℕ
  packet : PacketBytes
  start_seq : SequenceNumber32 := ⟨0⟩
  lost : Bool := false
  retrans : Bool := false
  last_sent : Time := -2 ^ 63
  sacked : Bool := false
deriving DecidableEq, Repr

/-- The transmit buffer. The end of the sent list is an iterator `none`, and `next_node` counts the places that lists
have had. -/
structure TcpTxBuffer where
  app_list : List TcpTxItem := []
  sent_list : List TcpTxItem := []
  max_buffer : UInt32 := 32768
  size : UInt32 := 0
  sent_size : UInt32 := 0
  first_byte_seq : SequenceNumber32
  highest_sack : Option ℕ × SequenceNumber32 := (none, ⟨0⟩)
  lost_out : UInt32 := 0
  sacked_out : UInt32 := 0
  retrans : UInt32 := 0
  dup_ack_thresh : UInt32 := 0
  segment_size : UInt32 := 0
  reno_sack : Bool := false
  sack_enabled : Bool := true
  next_node : ℕ := 0
deriving DecidableEq, Repr

namespace TcpTxItem

def get_size (item : TcpTxItem) : UInt32 := item.packet.get_size

/-- `SplitItems`: the first `size` bytes of an item in a new place, and the others. -/
def split_items (node : ℕ) (t2 : TcpTxItem) (size : UInt32) : TcpTxItem × TcpTxItem :=
  ({ t2 with node, packet := t2.packet.take size.toNat },
    { t2 with packet := t2.packet.drop size.toNat, start_seq := t2.start_seq.add size })

/-- `MergeItems`, with the count of retransmitted bytes. -/
def merge_items (retrans : UInt32) (t1 t2 : TcpTxItem) : Option (TcpTxItem × UInt32) :=
  if t1.sacked = t2.sacked ∧ t1.lost = t2.lost then
    let retrans :=
      if t1.retrans ≠ t2.retrans then retrans - (if t1.retrans then t1.get_size else t2.get_size) else retrans
    some ({ t1 with
      retrans := t1.retrans && t2.retrans
      last_sent := if t1.last_sent < t2.last_sent then t2.last_sent else t1.last_sent
      packet := t1.packet ++ t2.packet }, retrans)
  else none

end TcpTxItem

namespace TcpTxBuffer

open TcpTxItem (split_items merge_items)

/-- The buffer after `SetHeadSequence`. -/
def init (n : SequenceNumber32) : TcpTxBuffer := { first_byte_seq := n }

def tail_sequence (s : TcpTxBuffer) : SequenceNumber32 := s.first_byte_seq.add s.size

def available (s : TcpTxBuffer) : UInt32 := s.max_buffer - s.size

def set_max_buffer_size (s : TcpTxBuffer) (n : UInt32) : TcpTxBuffer := { s with max_buffer := n }

def set_dup_ack_thresh (s : TcpTxBuffer) (n : UInt32) : TcpTxBuffer := { s with dup_ack_thresh := n }

def set_segment_size (s : TcpTxBuffer) (n : UInt32) : TcpTxBuffer := { s with segment_size := n }

def set_sack_enabled (s : TcpTxBuffer) (enabled : Bool) : TcpTxBuffer := { s with sack_enabled := enabled }

def set_head_sequence (s : TcpTxBuffer) (seq : SequenceNumber32) : Option TcpTxBuffer :=
  if s.sent_list = [] then some { s with first_byte_seq := seq, highest_sack := (none, ⟨0⟩) } else none

def add (s : TcpTxBuffer) (p : PacketBytes) : Bool × TcpTxBuffer :=
  if p.get_size ≤ s.available then
    if p.get_size > 0 then
      (true, { s with
        app_list := s.app_list ++ [{ node := s.next_node, packet := p }]
        size := s.size + p.get_size
        next_node := s.next_node + 1 })
    else (true, s)
  else (false, s)

def size_from_sequence (s : TcpTxBuffer) (seq : SequenceNumber32) : UInt32 :=
  if s.tail_sequence.greater_equal seq then (s.tail_sequence.sub seq).toUInt32 else 0

/-- An item of a list, with the items on both sides of it. -/
structure Found where
  before : List TcpTxItem
  item : TcpTxItem
  after : List TcpTxItem
  retrans : UInt32
  next_node : ℕ

/-- The item that starts at `seq` and does not end before `numBytes` bytes. -/
def fit (numBytes retrans : UInt32) (node : ℕ) (item : TcpTxItem) (rest : List TcpTxItem) : Option Found :=
  if numBytes = item.get_size then some ⟨[], item, rest, retrans, node⟩
  else if numBytes < item.get_size then
    let parts := split_items node item numBytes
    some ⟨[], parts.1, parts.2 :: rest, retrans, node + 1⟩
  else none

/-- `GetPacketFromList` from the item that starts at `seq` on. -/
def take_end (numBytes : UInt32) (seq : SequenceNumber32) (node : ℕ) :
    UInt32 → TcpTxItem → List TcpTxItem → Option Found
  | retrans, item, [] =>
    if (seq.add numBytes).less_equal (seq.add item.get_size) then fit numBytes retrans node item []
    else some ⟨[], item, [], retrans, node⟩
  | retrans, item, next :: rest =>
    if (seq.add numBytes).less_equal (seq.add item.get_size) then fit numBytes retrans node item (next :: rest)
    else do
      let (item, retrans) ← merge_items retrans item next
      take_end numBytes seq node retrans item rest

/-- `GetPacketFromList`. A call that starts again passes the same items and comes back to the one at `seq`. `first` is
what the items of the sent list are checked against. -/
def get_packet_from_list (first : Option SequenceNumber32) (numBytes : UInt32) (seq : SequenceNumber32)
    (retrans : UInt32) (node : ℕ) : SequenceNumber32 → List TcpTxItem → Option Found
  | _, [] => none
  | begin, item :: rest =>
    if first.all fun f => item.start_seq.greater_equal f then
      if seq.less (begin.add item.get_size) then
        if seq = begin then take_end numBytes seq node retrans item rest
        else if seq.greater begin then
          let parts := split_items node item (seq.sub begin).toUInt32
          if first.all fun f => parts.2.start_seq.greater_equal f then
            (take_end numBytes seq (node + 1) retrans parts.2 rest).map fun f => { f with before := parts.1 :: f.before }
          else none
        else none
      else
        (get_packet_from_list first numBytes seq retrans node (begin.add item.get_size) rest).map fun f =>
          { f with before := item :: f.before }
    else none

/-- `GetNewSegment`, before the item is put at the end of the sent list. -/
def get_new_segment (s : TcpTxBuffer) (numBytes : UInt32) : Option (Found × TcpTxBuffer) := do
  let start := s.first_byte_seq.add s.sent_size
  let f ← get_packet_from_list none numBytes start s.retrans s.next_node start s.app_list
  let item := { f.item with start_seq := start, node := f.next_node }
  some (⟨s.sent_list, item, [], f.retrans, f.next_node + 1⟩,
    { s with app_list := f.before ++ f.after, sent_size := s.sent_size + item.get_size })

/-- The loop of `GetTransmittedSegment`, which does not merge packets with different flags. -/
def merge_limit (numBytes : UInt32) (seq : SequenceNumber32) : List TcpTxItem → UInt32
  | [] => numBytes
  | [item] => if item.start_seq = seq then min numBytes item.get_size else numBytes
  | item :: next :: rest =>
    if item.start_seq = seq then
      if !next.sacked && item.lost == next.lost then min numBytes (item.get_size + next.get_size)
      else min numBytes item.get_size
    else merge_limit numBytes seq (next :: rest)

def get_transmitted_segment (s : TcpTxBuffer) (numBytes : UInt32) (seq : SequenceNumber32) : Option Found :=
  if seq.greater_equal s.first_byte_seq ∧ numBytes ≤ s.sent_size ∧ s.sent_list ≠ [] then do
    let f ← get_packet_from_list (some s.first_byte_seq) (merge_limit numBytes seq s.sent_list) seq s.retrans s.next_node
      s.first_byte_seq s.sent_list
    if f.item.retrans then some f
    else some { f with item := { f.item with retrans := true }, retrans := f.retrans + f.item.get_size }
  else none

/-- The item in its list at the end of `CopyFromSequence`. -/
def put (s : TcpTxBuffer) (now : Time) (f : Found) : Option (Option TcpTxItem × TcpTxBuffer) :=
  let item := { f.item with last_sent := now }
  if item.start_seq.greater_equal s.first_byte_seq then
    some (some item, { s with sent_list := f.before ++ item :: f.after, retrans := f.retrans, next_node := f.next_node })
  else none

def copy_transmitted (s : TcpTxBuffer) (now : Time) (numBytes : UInt32) (seq : SequenceNumber32) :
    Option (Option TcpTxItem × TcpTxBuffer) := do
  let f ← s.get_transmitted_segment numBytes seq
  if f.item.sacked then none else s.put now f

/-- `CopyFromSequence`; the outer `none` is a failing assertion or the use of a null pointer, the inner one the result
`nullptr`. In the last case it is called again for what is left of the sent data, which is the first case. -/
def copy_from_sequence (s : TcpTxBuffer) (now : Time) (numBytes : UInt32) (seq : SequenceNumber32) :
    Option (Option TcpTxItem × TcpTxBuffer) :=
  if s.first_byte_seq.greater seq then none
  else
    let n := min numBytes (s.size_from_sequence seq)
    let sent_end := s.first_byte_seq.add s.sent_size
    if n = 0 then some (none, s)
    else if sent_end.greater_equal (seq.add n) then s.copy_transmitted now n seq
    else if sent_end.less_equal seq then
      if sent_end = seq then do
        let (f, s) ← s.get_new_segment n
        if f.item.retrans then none else s.put now f
      else none
    else if sent_end.value > seq.value ∧ sent_end.value < seq.value + n then
      s.copy_transmitted now (sent_end.value - seq.value) seq
    else none

def find_highest_sacked (s : TcpTxBuffer) : Option ℕ × SequenceNumber32 :=
  (s.sent_list.foldl (fun (ret, begin) item =>
    (if item.sacked then (some item.node, begin) else ret, begin.add item.get_size))
    ((none, ⟨0⟩), s.first_byte_seq)).1

def remove_from_counts (s : TcpTxBuffer) (item : TcpTxItem) (n : UInt32) : Option TcpTxBuffer :=
  if (item.sacked → n ≤ s.sacked_out) ∧ (item.retrans → n ≤ s.retrans) ∧ (item.lost → n ≤ s.lost_out) then
    some { s with
      sacked_out := if item.sacked then s.sacked_out - n else s.sacked_out
      retrans := if item.retrans then s.retrans - n else s.retrans
      lost_out := if item.lost then s.lost_out - n else s.lost_out }
  else none

/-- The loop of `DiscardUpTo`. Each turn takes a byte at least. -/
def discard_loop (now : Time) : ℕ → UInt32 → TcpTxBuffer → Option TcpTxBuffer
  | 0, _, _ => none
  | turns + 1, offset, s =>
    if s.size > 0 ∧ offset > 0 then do
      let s ← (if s.sent_list = [] then do
          let (item, s) ← s.copy_from_sequence now offset s.first_byte_seq
          if item.isSome then some s else none
        else some s)
      match s.sent_list with
      | [] => none
      | item :: rest =>
        let pktSize := item.get_size
        if item.start_seq = s.first_byte_seq then
          if offset ≥ pktSize then do
            let s ← remove_from_counts { s with
              size := s.size - pktSize
              sent_size := s.sent_size - pktSize
              first_byte_seq := s.first_byte_seq.add pktSize
              sent_list := rest } item pktSize
            discard_loop now turns (offset - pktSize) s
          else
            let fragment := { item with
              packet := item.packet.drop offset.toNat
              start_seq := item.start_seq.add offset }
            remove_from_counts { s with
              sent_list := fragment :: rest
              size := s.size - offset
              sent_size := s.sent_size - offset
              first_byte_seq := s.first_byte_seq.add offset } item offset
        else none
    else some s

def sack_first : List TcpTxItem → Option (TcpTxItem × List TcpTxItem)
  | [] => none
  | item :: rest =>
    if item.sacked then (sack_first rest).map fun r => (r.1, item :: r.2)
    else some (item, { item with sacked := true } :: rest)

def add_reno_sack (s : TcpTxBuffer) : Option TcpTxBuffer :=
  match s.sent_list with
  | [] => none
  | head :: rest =>
    if s.sack_enabled ∧ rest = [] then none
    else
      match sack_first rest with
      | none => some { s with reno_sack := true }
      | some (item, rest) => some { s with
          reno_sack := true
          sent_list := head :: rest
          sacked_out := s.sacked_out + item.get_size
          highest_sack := (some item.node, item.start_seq) }

def mark_head_as_lost (s : TcpTxBuffer) : TcpTxBuffer :=
  match s.sent_list with
  | [] => s
  | head :: rest => { s with
      sent_list := { head with sacked := false, retrans := false, lost := true } :: rest
      sacked_out := if head.sacked then s.sacked_out - head.get_size else s.sacked_out
      retrans := if head.retrans then s.retrans - head.get_size else s.retrans
      lost_out := if head.lost then s.lost_out else s.lost_out + head.get_size }

/-- What `DiscardUpTo` does about the head of the sent list: it cannot be sacked. -/
def check_head (s : TcpTxBuffer) (seq : SequenceNumber32) : Option TcpTxBuffer :=
  match s.sent_list with
  | [] => some s
  | head :: rest => do
    let s ← (if head.sacked then
        if head.lost then none
        else (add_reno_sack { s with
          sent_list := { head with sacked := false } :: rest
          sacked_out := s.sacked_out - head.get_size }).map mark_head_as_lost
      else some s)
    if head.start_seq = seq then some s else none

def discard_up_to (s : TcpTxBuffer) (now : Time) (seq : SequenceNumber32) : Option TcpTxBuffer :=
  if s.first_byte_seq.greater_equal seq then some s
  else do
    let s ← s.discard_loop now (s.size.toNat + 1) (seq.sub s.first_byte_seq).toUInt32
    let s := if s.size = 0 then { s with first_byte_seq := seq } else s
    let s ← s.check_head seq
    let s := if s.highest_sack.2.less_equal s.first_byte_seq then { s with highest_sack := (none, ⟨0⟩) } else s
    if s.first_byte_seq.greater_equal seq ∧ s.sent_size ≥ s.sacked_out + s.lost_out then some s else none

/-- What the blocks change beside the flags. -/
structure Tally where
  sacked_out : UInt32
  lost_out : UInt32
  bytes_sacked : UInt32
  highest_sack : Option ℕ × SequenceNumber32

/-- The loop of `Update` over the sent list. -/
def update_block (block : SackBlock) :
    SequenceNumber32 → Tally → List TcpTxItem → Option (List TcpTxItem × Tally)
  | _, t, [] => some ([], t)
  | begin, t, item :: rest =>
    let pktSize := item.get_size
    if begin.greater_equal block.1 && (begin.add pktSize).less_equal block.2 then
      if item.sacked then
        if item.lost then none
        else (update_block block (begin.add pktSize) t rest).map fun r => (item :: r.1, r.2)
      else
        let t := {
          lost_out := if item.lost then t.lost_out - pktSize else t.lost_out
          sacked_out := t.sacked_out + pktSize
          bytes_sacked := t.bytes_sacked + pktSize
          highest_sack :=
            if t.highest_sack.1 = none ∨ t.highest_sack.2.less_equal (begin.add pktSize) then (some item.node, begin)
            else t.highest_sack }
        (update_block block (begin.add pktSize) t rest).map fun r =>
          ({ item with lost := false, sacked := true } :: r.1, r.2)
    else if (begin.add pktSize).greater block.2 then some (item :: rest, t)
    else (update_block block (begin.add pktSize) t rest).map fun r => (item :: r.1, r.2)

/-- The loop of `Update` over the blocks, and whether it has come to the end. -/
def update_blocks (first sent_end : SequenceNumber32) :
    List SackBlock → Tally → List TcpTxItem → Option (Bool × List TcpTxItem × Tally)
  | [], t, items => some (true, items, t)
  | block :: list, t, items =>
    if sent_end.less block.1 then some (false, items, t)
    else do
      let (items, t) ← update_block block first t items
      update_blocks first sent_end list t items

/-- The turn of `UpdateLostCount` for an item. -/
def mark_lost (thresh : UInt32) (item : TcpTxItem) (r : List TcpTxItem × ℕ × UInt32) : List TcpTxItem × ℕ × UInt32 :=
  let sacked := if item.sacked then r.2.1 + 1 else r.2.1
  if sacked ≥ thresh.toNat ∧ !item.sacked ∧ !item.lost then
    ({ item with lost := true } :: r.1, sacked, r.2.2 + item.get_size)
  else (item :: r.1, sacked, r.2.2)

/-- The loop of `UpdateLostCount`, from a place back to the item after the first one; `none` is an iterator that points
to none of them. -/
def mark_lost_from (thresh : UInt32) (node : ℕ) (lost_out : UInt32) :
    List TcpTxItem → Option (List TcpTxItem × ℕ × UInt32)
  | [] => none
  | item :: rest =>
    if item.node = node then some (mark_lost thresh item (rest, 0, lost_out))
    else (mark_lost_from thresh node lost_out rest).map (mark_lost thresh item)

def update_lost_count (s : TcpTxBuffer) : Option TcpTxBuffer :=
  match s.sent_list, s.highest_sack.1 with
  | head :: rest, some node => do
    let (rest, sacked, lost_out) ← (if head.node = node then some (rest, 0, s.lost_out)
      else mark_lost_from s.dup_ack_thresh node s.lost_out rest)
    if sacked ≥ s.dup_ack_thresh.toNat ∧ !head.lost then
      some { s with sent_list := { head with lost := true } :: rest, lost_out := lost_out + head.get_size }
    else some { s with sent_list := head :: rest, lost_out }
  | _, _ => none

/-- `Update`; `none` is a failing assertion. -/
def update (s : TcpTxBuffer) (list : List SackBlock) : Option (UInt32 × TcpTxBuffer) := do
  let (complete, items, t) ← update_blocks s.first_byte_seq (s.first_byte_seq.add s.sent_size) list
    ⟨s.sacked_out, s.lost_out, 0, s.highest_sack⟩ s.sent_list
  let s := { s with
    sent_list := items
    sacked_out := t.sacked_out
    lost_out := t.lost_out
    highest_sack := t.highest_sack }
  if complete then
    let s ← (if t.bytes_sacked > 0 then s.update_lost_count else some s)
    match s.sent_list with
    | [] => none
    | head :: _ =>
      if !head.sacked ∧ s.sent_size ≥ s.sacked_out + s.lost_out then some (t.bytes_sacked, s) else none
  else some (t.bytes_sacked, s)

def reset_reno_sack (s : TcpTxBuffer) : TcpTxBuffer :=
  { s with
    sacked_out := 0
    sent_list := s.sent_list.map fun item => { item with sacked := false }
    highest_sack := (none, ⟨0⟩) }

def reset_sent_list (s : TcpTxBuffer) : TcpTxBuffer :=
  { s with
    app_list := s.sent_list.map (fun item => { item with retrans := false, sacked := false, lost := false }) ++ s.app_list
    sent_list := []
    sent_size := 0
    lost_out := 0
    retrans := 0
    sacked_out := 0
    highest_sack := (none, ⟨0⟩) }

def reset_last_segment_sent (s : TcpTxBuffer) : TcpTxBuffer :=
  match s.sent_list.getLast? with
  | none => s
  | some item => { s with
      sent_list := s.sent_list.dropLast
      sent_size := s.sent_size - item.get_size
      retrans := if item.retrans then s.retrans - item.get_size else s.retrans
      app_list := item :: s.app_list }

def set_sent_list_lost (s : TcpTxBuffer) (resetSack : Bool) : Option TcpTxBuffer :=
  let s := if resetSack then { s with
      retrans := 0
      sacked_out := 0
      lost_out := s.sent_size
      highest_sack := (none, ⟨0⟩)
      sent_list := s.sent_list.map fun item => { item with sacked := false, lost := true, retrans := false } }
    else { s with
      retrans := 0
      lost_out := s.sent_list.foldl (fun n item => if item.lost || !item.sacked then n + item.get_size else n) 0
      sent_list := s.sent_list.map fun item => { item with lost := item.lost || !item.sacked, retrans := false } }
  if s.sent_size ≥ s.sacked_out + s.lost_out then some s else none

def delete_retransmitted_flag_from_head (s : TcpTxBuffer) : TcpTxBuffer :=
  match s.sent_list with
  | [] => s
  | head :: rest =>
    if s.sent_size = 0 ∨ !head.retrans then s
    else { s with sent_list := { head with retrans := false } :: rest, retrans := s.retrans - head.get_size }

/-- The loop of `NextSeg`: the range of rule 1, or the one that is kept for rule 3. -/
def scan (isRecovery : Bool) :
    SequenceNumber32 → Option SequenceNumber32 × SequenceNumber32 → List TcpTxItem →
      Option SequenceNumber32 × Option SequenceNumber32
  | _, rule3, [] => (none, rule3.1)
  | begin, rule3, item :: rest =>
    if !item.retrans && !item.sacked then
      if item.lost then (some begin, none)
      else if rule3.2.value = 0 && isRecovery then scan isRecovery (begin.add item.get_size) (some begin, begin) rest
      else scan isRecovery (begin.add item.get_size) rule3 rest
    else scan isRecovery (begin.add item.get_size) rule3 rest

/-- `NextSeg`, with the window of the receiver. -/
def next_seg (s : TcpTxBuffer) (r_wnd : UInt32) (isRecovery : Bool) : Option (SequenceNumber32 × SequenceNumber32) :=
  match scan isRecovery s.first_byte_seq (none, ⟨0⟩) s.sent_list with
  | (some seq, _) => some (seq, seq.add s.segment_size)
  | (none, rule3) =>
    let seq := s.first_byte_seq.add s.sent_size
    if s.size_from_sequence seq > 0 then
      if s.sent_size ≤ r_wnd then some (seq, seq.add (min s.segment_size (r_wnd - s.sent_size)))
      else none
    else rule3.map fun seq => (seq, seq.add s.segment_size)

/-- `BytesInFlight`; `none` is the failing assertion. -/
def bytes_in_flight (s : TcpTxBuffer) : Option UInt32 :=
  if s.sacked_out + s.lost_out ≤ s.sent_size then some (s.sent_size - (s.sacked_out + s.lost_out) + s.retrans) else none

/-- The operations that change a buffer. -/
inductive Operation
  | add (p : PacketBytes)
  | set_head_sequence (seq : SequenceNumber32)
  | set_max_buffer_size (n : UInt32)
  | set_dup_ack_thresh (n : UInt32)
  | set_segment_size (n : UInt32)
  | set_sack_enabled (enabled : Bool)
  | copy_from_sequence (now : Time) (numBytes : UInt32) (seq : SequenceNumber32)
  | discard_up_to (now : Time) (seq : SequenceNumber32)
  | update (list : List SackBlock)
  | set_sent_list_lost (resetSack : Bool)
  | reset_sent_list
  | reset_last_segment_sent
  | mark_head_as_lost
  | delete_retransmitted_flag_from_head
  | add_reno_sack
  | reset_reno_sack

def step (s : TcpTxBuffer) : Operation → Option TcpTxBuffer
  | .add p => some (s.add p).2
  | .set_head_sequence seq => s.set_head_sequence seq
  | .set_max_buffer_size n => some (s.set_max_buffer_size n)
  | .set_dup_ack_thresh n => some (s.set_dup_ack_thresh n)
  | .set_segment_size n => some (s.set_segment_size n)
  | .set_sack_enabled enabled => some (s.set_sack_enabled enabled)
  | .copy_from_sequence now numBytes seq => (s.copy_from_sequence now numBytes seq).map Prod.snd
  | .discard_up_to now seq => s.discard_up_to now seq
  | .update list => (s.update list).map Prod.snd
  | .set_sent_list_lost resetSack => s.set_sent_list_lost resetSack
  | .reset_sent_list => some s.reset_sent_list
  | .reset_last_segment_sent => some s.reset_last_segment_sent
  | .mark_head_as_lost => some s.mark_head_as_lost
  | .delete_retransmitted_flag_from_head => some s.delete_retransmitted_flag_from_head
  | .add_reno_sack => s.add_reno_sack
  | .reset_reno_sack => some s.reset_reno_sack

end TcpTxBuffer

end Ns3
