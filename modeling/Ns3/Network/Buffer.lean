import Ns3.Foundation.SharedList
import Ns3.Foundation.Slice

namespace Ns3

open SharedList (Heap)

/-- The result of a `uint32_t` computation. -/
@[irreducible] def u32 (n : ℕ) : ℕ := n % 2 ^ 32

/-- The difference of two `uint32_t`. -/
@[irreducible] def sub32 (a b : ℕ) : ℕ := u32 (a + (2 ^ 32 - b))

/-- A storage. `bytes` is the array `m_data`, which has `m_size` bytes. -/
structure Data where
  count : ℕ
  size : ℕ
  dirty_start : ℕ
  dirty_end : ℕ
  bytes : List UInt8
deriving DecidableEq, Repr

/-- The storages of all buffers, with the free list (the last one first) and what the class learns
about sizes. `garbage` is what a new storage holds at an offset. -/
structure Memory where
  heap : Heap Data
  free_list : List ℕ
  max_size : ℕ
  recommended_start : ℕ
  garbage : ℕ → ℕ → UInt8

/-- A variable of class `Buffer`. -/
structure Buffer where
  data : ℕ
  max_zero_area_start : ℕ
  zero_area_start : ℕ
  zero_area_end : ℕ
  start : ℕ
  end_ : ℕ
deriving DecidableEq, Repr

namespace Memory

def read (s : Memory) (a : ℕ) : Option Data := SharedList.read s.heap a

def write (s : Memory) (a : ℕ) (d : Data) : Memory := { s with heap := s.heap.set a (some d) }

/-- `memcpy` from a storage; `none` is a read behind its end. -/
def load (s : Memory) (a offset size : ℕ) : Option (List UInt8) :=
  if size = 0 then some []
  else do
    let d ← s.read a
    if offset + size ≤ d.bytes.length then some (Slice.slice d.bytes offset (offset + size)) else none

/-- `memcpy` to a storage; `none` is a write behind its end. -/
def store (s : Memory) (a offset : ℕ) (bytes : List UInt8) : Option Memory :=
  if bytes.length = 0 then some s
  else do
    let d ← s.read a
    if offset + bytes.length ≤ d.bytes.length then
      some (s.write a { d with bytes := Slice.splice d.bytes offset bytes })
    else none

/-- `Allocate`; `none` is an array shorter than `m_size`, when its length does not fit 32 bits. -/
def allocate (s : Memory) (req_size : ℕ) : Option (ℕ × Memory) :=
  let req_size := if req_size = 0 then 1 else req_size
  let req_size := u32 (req_size + 100)
  if u32 (req_size - 1 + 20) = req_size - 1 + 20 then
    let bytes := (List.range req_size).map (s.garbage s.heap.length)
    some (s.heap.length, { s with heap := s.heap ++ [some ⟨1, req_size, 0, 0, bytes⟩] })
  else none

def deallocate (s : Memory) (a : ℕ) : Memory := { s with heap := s.heap.set a none }

/-- The search of `Create` in the free list. -/
def take_free (s : Memory) (data_size : ℕ) : List ℕ → Option (ℕ × Memory)
  | [] => ({ s with free_list := [] } : Memory).allocate data_size
  | a :: rest => do
    let d ← s.read a
    if d.size ≥ data_size then some (a, { s.write a { d with count := 1 } with free_list := rest })
    else if d.count = 0 then take_free (s.deallocate a) data_size rest
    else none

def create (s : Memory) (data_size : ℕ) : Option (ℕ × Memory) := s.take_free data_size s.free_list

def recycle (s : Memory) (a : ℕ) : Option Memory := do
  let d ← s.read a
  if d.count = 0 then
    let max_size := max s.max_size d.size
    if d.size < max_size ∨ s.free_list.length > 1000 then some { s.deallocate a with max_size }
    else some { s with max_size, free_list := a :: s.free_list }
  else none

/-- `m_count--`, and the recycling of a storage that nobody has. -/
def release (s : Memory) (a : ℕ) : Option Memory := do
  let d ← s.read a
  let count := sub32 d.count 1
  let s := s.write a { d with count }
  if count = 0 then s.recycle a else some s

/-- `m_count++`. -/
def acquire (s : Memory) (a : ℕ) : Option Memory :=
  (s.read a).map fun d => s.write a { d with count := u32 (d.count + 1) }

def recommend (s : Memory) (n : ℕ) : Memory := { s with recommended_start := max s.recommended_start n }

end Memory

namespace Buffer

open Memory

def get_size (b : Buffer) : ℕ := sub32 b.end_ b.start

def zero_size (b : Buffer) : ℕ := sub32 b.zero_area_end b.zero_area_start

def get_internal_size (b : Buffer) : ℕ := sub32 (u32 (sub32 b.zero_area_start b.start + b.end_)) b.zero_area_end

def get_internal_end (b : Buffer) : ℕ := sub32 b.end_ b.zero_size

def initialize_ (s : Memory) (zero_size : ℕ) : Option (Buffer × Memory) := do
  let (a, s) ← s.create 0
  let d ← s.read a
  let start := min d.size s.recommended_start
  let stop := u32 (start + zero_size)
  some (⟨a, start, start, stop, start, stop⟩, s.write a { d with dirty_start := start, dirty_end := stop })

/-- The copy constructor. -/
def copy (s : Memory) (o : Buffer) : Option (Buffer × Memory) :=
  (s.acquire o.data).map fun s => ({ o with max_zero_area_start := o.zero_area_start }, s)

/-- The destructor. -/
def destroy (s : Memory) (b : Buffer) : Option Memory := (s.recommend b.max_zero_area_start).release b.data

/-- `operator=`. -/
def assign (s : Memory) (b o : Buffer) : Option (Buffer × Memory) := do
  let s ← (if b.data ≠ o.data then do (← s.release b.data).acquire o.data else some s)
  some (o, s.recommend b.max_zero_area_start)

/-- The update of `m_maxZeroAreaStart` at the end of an operation. -/
def learn (b : Buffer) : Buffer := { b with max_zero_area_start := max b.max_zero_area_start b.zero_area_start }

/-- A storage of its own, with `gap` free bytes and then the bytes of the buffer. -/
def move (s : Memory) (b : Buffer) (size gap : ℕ) : Option (ℕ × Memory) := do
  let (a, s) ← s.create size
  let bytes ← s.load b.data b.start b.get_internal_size
  let s ← s.store a gap bytes
  let s ← s.release b.data
  some (a, s)

def set_dirty (s : Memory) (b : Buffer) : Option Memory :=
  (s.read b.data).map fun d => s.write b.data { d with dirty_start := b.start, dirty_end := b.end_ }

/-- The offsets of a buffer after a signed shift. -/
def shift (b : Buffer) (a delta : ℕ) : Buffer :=
  { b with
    data := a
    start := u32 (b.start + delta)
    zero_area_start := u32 (b.zero_area_start + delta)
    zero_area_end := u32 (b.zero_area_end + delta)
    end_ := u32 (b.end_ + delta) }

def add_at_start (s : Memory) (b : Buffer) (start : ℕ) : Option (Buffer × Memory) := do
  let d ← s.read b.data
  let is_dirty := d.count > 1 ∧ b.start > d.dirty_start
  if b.start ≥ start ∧ ¬ is_dirty then
    if d.count = 1 ∨ b.start = d.dirty_start then
      let b := { b with start := b.start - start }
      some (b.learn, s.write b.data { d with dirty_start := b.start })
    else none
  else
    let (a, s) ← b.move s (u32 (b.get_internal_size + start)) start
    let b := b.shift a (sub32 start b.start)
    let b := { b with start := sub32 b.start start }
    let s ← b.set_dirty s
    some (b.learn, s)

def add_at_end (s : Memory) (b : Buffer) (end_ : ℕ) : Option (Buffer × Memory) := do
  let d ← s.read b.data
  let is_dirty := d.count > 1 ∧ b.end_ < d.dirty_end
  if u32 (b.get_internal_end + end_) ≤ d.size ∧ ¬ is_dirty then
    if d.count = 1 ∨ b.end_ = d.dirty_end then
      let b := { b with end_ := u32 (b.end_ + end_) }
      some (b.learn, s.write b.data { d with dirty_end := b.end_ })
    else none
  else
    let (a, s) ← b.move s (u32 (b.get_internal_size + end_)) 0
    let b := b.shift a (sub32 0 b.start)
    let b := { b with end_ := u32 (b.end_ + end_) }
    let s ← b.set_dirty s
    some (b.learn, s)

/-- `RemoveAtStart`; `none` is the failing assertion. -/
def remove_at_start (b : Buffer) (start : ℕ) : Option Buffer :=
  let new_start := u32 (b.start + start)
  if new_start ≤ b.zero_area_start then some { b with start := new_start }.learn
  else if new_start ≤ b.zero_area_end then
    let delta := sub32 new_start b.zero_area_start
    some { b with
      start := b.zero_area_start
      zero_area_end := sub32 b.zero_area_end delta
      end_ := sub32 b.end_ delta }.learn
  else if new_start ≤ b.end_ then
    if b.end_ ≥ start then
      let start := sub32 new_start b.zero_size
      some { b with start, zero_area_start := start, zero_area_end := start, end_ := sub32 b.end_ b.zero_size }.learn
    else none
  else
    let stop := sub32 b.end_ b.zero_size
    some { b with start := stop, zero_area_start := stop, zero_area_end := stop, end_ := stop }.learn

def remove_at_end (b : Buffer) (end_ : ℕ) : Buffer :=
  let new_end := sub32 b.end_ (min end_ (sub32 b.end_ b.start))
  if new_end > b.zero_area_end then { b with end_ := new_end }.learn
  else if new_end > b.zero_area_start then { b with end_ := new_end, zero_area_end := new_end }.learn
  else if new_end > b.start then
    { b with end_ := new_end, zero_area_end := new_end, zero_area_start := new_end }.learn
  else { b with end_ := b.start, zero_area_end := b.start, zero_area_start := b.start }.learn

def create_fragment (s : Memory) (b : Buffer) (start length : ℕ) : Option (Buffer × Memory) := do
  let (tmp, s) ← copy s b
  let tmp ← tmp.remove_at_start start
  some (tmp.remove_at_end (sub32 b.get_size (u32 (start + length))), s)

structure Iterator where
  zero_start : ℕ
  zero_end : ℕ
  data_start : ℕ
  data_end : ℕ
  current : ℕ
  data : ℕ

def begin_ (b : Buffer) : Iterator := ⟨b.zero_area_start, b.zero_area_end, b.start, b.end_, b.start, b.data⟩

def stop (b : Buffer) : Iterator := ⟨b.zero_area_start, b.zero_area_end, b.start, b.end_, b.end_, b.data⟩

namespace Iterator

def prev (i : Iterator) (delta : ℕ) : Option Iterator :=
  if i.current ≥ delta then some { i with current := i.current - delta } else none

def check_no_zero (i : Iterator) (start end_ : ℕ) : Bool :=
  !(start < i.data_start || end_ > i.data_end ||
    (end_ > i.zero_start && start < i.zero_end && i.zero_end != i.zero_start && start != end_))

/-- The offset in the storage of what is not before the zero area. -/
def offset (i : Iterator) : ℕ := sub32 i.current (sub32 i.zero_end i.zero_start)

/-- `Write(const uint8_t*, uint32_t)`. -/
def write (s : Memory) (i : Iterator) (bytes : List UInt8) : Option Memory :=
  if i.check_no_zero i.current bytes.length then
    s.store i.data (if i.current ≤ i.zero_start then i.current else i.offset) bytes
  else none

def peek_u8 (s : Memory) (i : Iterator) : Option UInt8 := do
  let d ← s.read i.data
  if i.current ≥ i.data_start ∧ i.current < i.data_end then
    if i.current < i.zero_start then d.bytes[i.current]?
    else if i.current < i.zero_end then some 0
    else d.bytes[i.offset]?
  else none

/-- `ReadU8` a number of times. -/
def read (s : Memory) (i : Iterator) : ℕ → Option (List UInt8)
  | 0 => some []
  | size + 1 => do
    let byte ← i.peek_u8 s
    let rest ← read s { i with current := u32 (i.current + 1) } size
    some (byte :: rest)

end Iterator

/-- The bytes that an iterator reads from the start to the end. -/
def read (s : Memory) (b : Buffer) : Option (List UInt8) := b.begin_.read s b.get_size

end Buffer

end Ns3
