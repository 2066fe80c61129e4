import Ns3.Network.SequenceNumber
import Ns3.Network.PacketBytes

namespace Ns3

/-- The edges of a `TcpOptionSack::SackBlock`. -/
abbrev SackBlock := SequenceNumber32 × SequenceNumber32

/-- The receive buffer. `data` is the map of the packets by sequence number, in the order of
its keys. -/
structure TcpRxBuffer where
  sack_list : List SackBlock := []
  next_rx_seq : SequenceNumber32 := ⟨0⟩
  fin_seq : SequenceNumber32 := ⟨0⟩
  got_fin : Bool := false
  size : UInt32 := 0
  max_buffer : UInt32 := 32768
  avail_bytes : UInt32 := 0
  data : List (SequenceNumber32 × PacketBytes) := []
deriving DecidableEq, Repr

namespace TcpRxBuffer

/-- The buffer that expects the sequence number `n` first. -/
def init (n : SequenceNumber32) : TcpRxBuffer := { next_rx_seq := n }

def set_max_buffer_size (b : TcpRxBuffer) (s : UInt32) : TcpRxBuffer := { b with max_buffer := s }

def set_fin_sequence (b : TcpRxBuffer) (s : SequenceNumber32) : TcpRxBuffer :=
  { b with
    got_fin := true
    fin_seq := s
    next_rx_seq := if b.next_rx_seq = s then b.next_rx_seq.increment else b.next_rx_seq }

def find (key : SequenceNumber32) (data : List (SequenceNumber32 × PacketBytes)) : Bool :=
  data.any fun e => !e.1.less key && !key.less e.1

/-- The assignment of a packet to a key of the map. -/
def assign (key : SequenceNumber32) (p : PacketBytes) :
    List (SequenceNumber32 × PacketBytes) → List (SequenceNumber32 × PacketBytes)
  | [] => [(key, p)]
  | (k, q) :: rest =>
    if k.less key then (k, q) :: assign key p rest
    else if key.less k then (key, p) :: (k, q) :: rest
    else (k, p) :: rest

/-- What is left of a new packet beside the stored ones. -/
structure Overlap where
  head : SequenceNumber32
  tail : SequenceNumber32
  size : UInt32
  data : List (SequenceNumber32 × PacketBytes)

/-- The loop of `Add` over the stored packets, which trims the new one and erases those
embedded in it. -/
def overlap (head tail : SequenceNumber32) (size : UInt32) : List (SequenceNumber32 × PacketBytes) → Overlap
  | [] => ⟨head, tail, size, []⟩
  | (k, q) :: rest =>
    if k.less_equal tail then
      let last_byte_seq := k.add q.get_size
      if last_byte_seq.greater head then
        if k.greater head && last_byte_seq.less tail then overlap head tail (size - q.get_size) rest
        else
          let head := if k.less_equal head then last_byte_seq else head
          let tail := if last_byte_seq.greater_equal tail then k else tail
          let o := overlap head tail size rest
          { o with data := (k, q) :: o.data }
      else
        let o := overlap head tail size rest
        { o with data := (k, q) :: o.data }
    else ⟨head, tail, size, (k, q) :: rest⟩

/-- The first block that the newest one can be merged with, merged, and the others. The outer
`none` is a failing assertion, the inner one no such block. -/
def merge_block (begin : SackBlock) : List SackBlock → Option (Option (SackBlock × List SackBlock))
  | [] => some none
  | current :: rest =>
    if begin.1 = current.2 then
      if current.1.less begin.2 then some (some ((current.1, begin.2), rest)) else none
    else if begin.2 = current.1 then
      if begin.1.less current.2 then some (some ((begin.1, current.2), rest)) else none
    else (merge_block begin rest).map fun merged => merged.map fun r => (r.1, current :: r.2)

/-- The loop of `UpdateSackList`, which starts again after each merge. -/
def merge_blocks : ℕ → SackBlock → List SackBlock → Option (List SackBlock)
  | 0, begin, rest => some (begin :: rest)
  | turns + 1, begin, rest => do
    match ← merge_block begin rest with
    | none => some (begin :: rest)
    | some (merged, rest) => merge_blocks turns merged rest

/-- `UpdateSackList`. Each merge takes a block out, which bounds their number. -/
def update_sack_list (b : TcpRxBuffer) (head tail : SequenceNumber32) : Option (List SackBlock) :=
  if head.greater b.next_rx_seq then
    (merge_blocks b.sack_list.length (head, tail) b.sack_list).map fun l =>
      if 4 < l.length then l.dropLast else l
  else none

def clear_sack_list (seq : SequenceNumber32) : List SackBlock → Option (List SackBlock)
  | [] => some []
  | block :: rest =>
    if block.1.less block.2 then
      (clear_sack_list seq rest).map fun l => if block.2.less_equal seq then l else block :: l
    else none

/-- The loop of `Add` that moves `m_nextRxSeq` over the packets now in sequence. -/
def advance (next : SequenceNumber32) (avail : UInt32) (sacks : List SackBlock) :
    List (SequenceNumber32 × PacketBytes) → Option (SequenceNumber32 × UInt32 × List SackBlock)
  | [] => some (next, avail, sacks)
  | (k, q) :: rest =>
    if k.less next then advance next avail sacks rest
    else if k.greater next then some (next, avail, sacks)
    else do
      let next := k.add q.get_size
      let sacks ← clear_sack_list next sacks
      advance next (avail + q.get_size) sacks rest

/-- The range of a new packet that fits the receive window. -/
def trim_to_window (b : TcpRxBuffer) (head tail : SequenceNumber32) : SequenceNumber32 × SequenceNumber32 :=
  let head := if head.less b.next_rx_seq then b.next_rx_seq else head
  match b.data with
  | [] => (head, tail)
  | (first, _) :: _ =>
    let max_seq := first.add b.max_buffer
    let tail := if max_seq.less tail then max_seq else tail
    (if tail.less head then tail else head, tail)

/-- `Add` of a packet whose header has the sequence number `seq`; `none` is a failing assertion. -/
def add (b : TcpRxBuffer) (p : PacketBytes) (seq : SequenceNumber32) : Option (Bool × TcpRxBuffer) :=
  let trimmed := b.trim_to_window seq (seq.add p.get_size)
  let o := overlap trimmed.1 trimmed.2 b.size b.data
  if o.head.greater_equal o.tail then some (false, { b with size := o.size, data := o.data })
  else do
    let length := (o.tail.sub o.head).toUInt32
    let p ← p.create_fragment (o.head.sub seq).toUInt32 length
    if length = p.get_size ∧ find o.head o.data = false then
      let data := assign o.head p o.data
      let sacks ← (if o.head.greater b.next_rx_seq then b.update_sack_list o.head o.tail else some b.sack_list)
      let (next, avail, sacks) ← advance b.next_rx_seq b.avail_bytes sacks data
      let next := if b.got_fin && next == b.fin_seq then next.increment else next
      some (true, { b with
        sack_list := sacks
        next_rx_seq := next
        size := o.size + p.get_size
        avail_bytes := avail
        data := data })
    else none

/-- The loop of `Extract`, which takes `extract_size` bytes from the first packets; `none` is a
failing assertion or the use of an empty map. -/
def extract_loop (next : SequenceNumber32) (extract_size size avail : UInt32) (out : PacketBytes) :
    List (SequenceNumber32 × PacketBytes) →
      Option (PacketBytes × UInt32 × UInt32 × List (SequenceNumber32 × PacketBytes))
  | [] => if extract_size = 0 then some (out, size, avail, []) else none
  | (k, q) :: rest =>
    if extract_size = 0 then some (out, size, avail, (k, q) :: rest)
    else if k.less_equal next then
      let pkt_size := q.get_size
      if pkt_size ≤ extract_size then
        extract_loop next (extract_size - pkt_size) (size - pkt_size) (avail - pkt_size) (out ++ q) rest
      else do
        let taken ← q.create_fragment 0 extract_size
        let left ← q.create_fragment extract_size (pkt_size - extract_size)
        some (out ++ taken, size - extract_size, avail - extract_size,
          (assign (k.add extract_size) left ((k, q) :: rest)).erase (k, q))
    else none

/-- `Extract`. No packet is given out when there are no bytes to give. -/
def extract (b : TcpRxBuffer) (max_size : UInt32) : Option (Option PacketBytes × TcpRxBuffer) :=
  let extract_size := if b.avail_bytes < max_size then b.avail_bytes else max_size
  if extract_size = 0 then some (none, b)
  else if b.data.isEmpty then none
  else do
    let (out, size, avail, data) ← extract_loop b.next_rx_seq extract_size b.size b.avail_bytes [] b.data
    some (if out.get_size = 0 then none else some out, { b with size, avail_bytes := avail, data })

end TcpRxBuffer

end Ns3
