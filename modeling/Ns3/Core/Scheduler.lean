import Mathlib
import Ns3.Foundation.PriorityQueue
import Ns3.Foundation.Lists

namespace Ns3

/-- The identity of an `EventImpl`. -/
abbrev EventImpl := Nat

namespace Scheduler

structure EventKey where
  ts : UInt64
  uid : UInt32
  context : UInt32
deriving DecidableEq, Repr

/-- `operator<`: earlier, or at the same time with a smaller identifier. -/
def EventKey.less (a b : EventKey) : Bool := a.ts < b.ts || (a.ts == b.ts && a.uid < b.uid)

structure Event where
  impl : EventImpl
  key : EventKey
deriving DecidableEq, Repr

/-- The position of a key in the order of `operator<`. -/
def EventKey.order (k : EventKey) : ℕ ×ₗ ℕ := toLex (k.ts.toNat, k.uid.toNat)

theorem EventKey.less_iff (a b : EventKey) : a.less b = true ↔ a.order < b.order := by
  simp only [less, order, Prod.Lex.toLex_lt_toLex, Bool.or_eq_true, Bool.and_eq_true, decide_eq_true_eq,
    beq_iff_eq, UInt64.lt_iff_toNat_lt, UInt32.lt_iff_toNat_lt, ← UInt64.toNat_inj]

theorem EventKey.less_eq_false (a b : EventKey) : a.less b = false ↔ b.order ≤ a.order := by
  rw [Bool.eq_false_iff, ne_eq, less_iff, not_lt]

/-- The order a scheduler hands its events out in. -/
def Event.order (e : Event) : ℕ ×ₗ ℕ := e.key.order

end Scheduler

end Ns3

namespace Ns3

open PriorityQueue (Operation Response)
open Scheduler (Event EventKey)

/-- The list of events, which `Insert` keeps in order. -/
structure ListScheduler where
  events : List Event := []
  ordered : events.Pairwise fun a b => a.order ≤ b.order := by simp

namespace ListScheduler

/-- `Insert`: the event goes before the first one with a greater key. -/
def insert (q : ListScheduler) (ev : Event) : ListScheduler where
  events := SortedList.place (fun a b => a.key.less b.key) ev q.events
  ordered := SortedList.place_pairwise Event.order (fun a b : Event => EventKey.less_iff a.key b.key) q.ordered

def is_empty (q : ListScheduler) : Bool := q.events.isEmpty

/-- The first event with the identifier of `ev` is erased; `none` is a failing assertion. -/
def remove (q : ListScheduler) (ev : Event) : Option ListScheduler :=
  match q.events.find? fun i => i.key.uid == ev.key.uid with
  | some i =>
    if ev.impl = i.impl then
      some ⟨q.events.eraseP fun i => i.key.uid == ev.key.uid, q.ordered.sublist List.eraseP_sublist⟩
    else none
  | none => none

def operate (q : ListScheduler) : Operation Event → Option (ListScheduler × Response Event)
  | .insert ev => some (q.insert ev, .done)
  | .remove ev => (q.remove ev).map (·, .done)
  | .remove_next => q.events.head?.map fun next => (⟨q.events.tail, q.ordered.tail⟩, .item next)
  | .peek_next => q.events.head?.map fun next => (q, .item next)
  | .is_empty => some (q, .flag q.is_empty)

def contents (q : ListScheduler) : Multiset Event := ↑q.events

theorem head_isLeast {q : ListScheduler} (hsome : q.contents ≠ 0) :
    ∃ next rest, q.events = next :: rest ∧ PriorityQueue.IsLeast Event.order q.contents next := by
  obtain ⟨events, ordered⟩ := q
  cases events with
  | nil => exact absurd rfl hsome
  | cons next rest =>
    refine ⟨next, rest, rfl, by simp [contents], fun b hb => ?_⟩
    rcases List.mem_cons.mp (Multiset.mem_coe.mp hb) with rfl | hb
    · exact le_rfl
    · exact (List.pairwise_cons.mp ordered).1 b hb

theorem remove_spec {q : ListScheduler} {ev : Event} (hdistinct : (q.contents.map (·.key.uid)).Nodup)
    (hmem : ev ∈ q.contents) : ∃ q', q.remove ev = some q' ∧ q'.contents = q.contents.erase ev := by
  have hunique : ∀ i ∈ q.events, (i.key.uid == ev.key.uid) = true → i = ev := fun i hi huid =>
    Multiset.inj_on_of_nodup_map hdistinct i hi ev hmem (by simpa using huid)
  unfold remove
  simp only [SortedList.find?_eq_of_unique (p := fun i : Event => i.key.uid == ev.key.uid)
    (Multiset.mem_coe.mp hmem) (by simp) hunique, if_true]
  exact ⟨_, rfl, by simp only [contents, SortedList.eraseP_eq_erase_of_unique (by simp) hunique, Multiset.coe_erase]⟩

theorem correct : PriorityQueue.Correct Event.order (fun e : Event => e.key.uid) operate contents := by
  constructor
  intro q op hdistinct hlegal
  cases op with
  | insert ev =>
    exact ⟨_, rfl, rfl, Multiset.coe_eq_coe.mpr (SortedList.place_perm (fun a b : Event => a.key.less b.key) ev q.events)⟩
  | remove ev =>
    obtain ⟨q', hremove, hcontents⟩ := remove_spec hdistinct hlegal
    exact ⟨(q', .done), by rw [operate, hremove]; rfl, rfl, hcontents⟩
  | remove_next =>
    obtain ⟨next, rest, hevents, hleast⟩ := head_isLeast hlegal
    have hhead : q.events.head? = some next := by rw [hevents, List.head?_cons]
    refine ⟨_, by rw [operate, hhead]; rfl, ⟨next, rfl, hleast⟩, ?_⟩
    simp [PriorityQueue.after, contents, hevents]
  | peek_next =>
    obtain ⟨next, rest, hevents, hleast⟩ := head_isLeast hlegal
    have hhead : q.events.head? = some next := by rw [hevents, List.head?_cons]
    exact ⟨_, by rw [operate, hhead]; rfl, ⟨next, rfl, hleast⟩, rfl⟩
  | is_empty => exact ⟨_, rfl, ⟨_, rfl, by simp [is_empty, contents]⟩, rfl⟩

end ListScheduler

end Ns3

namespace Ns3

open Scheduler (Event)

/-- The heap is the array from index 1 on; its first item is wasted. -/
structure HeapScheduler where
  heap : Array Event := #[⟨0, ⟨0, 0, 0⟩⟩]
deriving DecidableEq, Repr

namespace HeapScheduler

/-- The event at an index, or a made-up one outside the array, where no index below gets. -/
def get (h : HeapScheduler) (id : Nat) : Event := h.heap.getD id ⟨0, ⟨0, 0, 0⟩⟩

def parent (id : Nat) : Nat := id / 2

def left_child (id : Nat) : Nat := id * 2

def right_child (id : Nat) : Nat := id * 2 + 1

def root : Nat := 1

def is_root (id : Nat) : Bool := id == root

def last (h : HeapScheduler) : Nat := h.heap.size - 1

def is_bottom (h : HeapScheduler) (id : Nat) : Bool := h.heap.size ≤ id

/-- `Exch`; `none` is its failing assertion. -/
def exch (h : HeapScheduler) (a b : Nat) : Option HeapScheduler :=
  if hb : a < h.heap.size ∧ b < h.heap.size then some ⟨h.heap.swap a b hb.1 hb.2⟩ else none

def is_less_strictly (h : HeapScheduler) (a b : Nat) : Bool := (h.get a).key.less (h.get b).key

def smallest (h : HeapScheduler) (a b : Nat) : Nat := if h.is_less_strictly a b then a else b

def is_empty (h : HeapScheduler) : Bool := h.heap.size == 1

/-- The loop of `BottomUp` from `index`; `none` where it has not ended in the turns given. -/
def bottom_up : Nat → HeapScheduler → Nat → Option HeapScheduler
  | 0, _, _ => none
  | turns + 1, h, index =>
    if ¬ is_root index ∧ h.is_less_strictly index (parent index) then
      (h.exch index (parent index)).bind fun h => bottom_up turns h (parent index)
    else some h

/-- `TopDown`, as one loop: its end looks at an only child. -/
def top_down : Nat → HeapScheduler → Nat → Option HeapScheduler
  | 0, _, _ => none
  | turns + 1, h, index =>
    if ¬ h.is_bottom (right_child index) then
      let tmp := h.smallest (left_child index) (right_child index)
      if h.is_less_strictly index tmp then some h
      else (h.exch index tmp).bind fun h => top_down turns h tmp
    else if h.is_bottom index then some h
    else if h.is_bottom (left_child index) then some h
    else if h.is_less_strictly index (left_child index) then some h
    else h.exch index (left_child index)

def insert (h : HeapScheduler) (ev : Event) : Option HeapScheduler :=
  let h : HeapScheduler := ⟨h.heap.push ev⟩
  bottom_up h.heap.size h h.last

def peek_next (h : HeapScheduler) : Event := h.get root

def pop_back (h : HeapScheduler) : HeapScheduler := ⟨h.heap.pop⟩

def remove_next (h : HeapScheduler) : Option (Event × HeapScheduler) :=
  let next := h.get root
  (h.exch root h.last).bind fun h =>
    (top_down h.heap.size h.pop_back root).map fun h => (next, h)

/-- The first index from 1 on whose event has the identifier `uid`. -/
def position (h : HeapScheduler) (uid : UInt32) : Option Nat :=
  ((List.range h.heap.size).drop 1).find? fun i => uid == (h.get i).key.uid

def remove (h : HeapScheduler) (ev : Event) : Option HeapScheduler :=
  (h.position ev.key.uid).bind fun i =>
    if (h.get i).impl = ev.impl then
      (h.exch i h.last).bind fun h => top_down h.heap.size h.pop_back i
    else none

open PriorityQueue (Operation Response)

/-- An operation with its answer. `PeekNext` reads past the end of an empty heap. -/
def operate (h : HeapScheduler) : Operation Event → Option (HeapScheduler × Response Event)
  | .insert ev => (h.insert ev).map (·, .done)
  | .remove ev => (h.remove ev).map (·, .done)
  | .remove_next => h.remove_next.map fun r => (r.2, .item r.1)
  | .peek_next => if root < h.heap.size then some (h, .item h.peek_next) else none
  | .is_empty => some (h, .flag h.is_empty)

end HeapScheduler

end Ns3

namespace Ns3

open PriorityQueue (Operation Response)
open Scheduler (Event EventKey)

/-- The calendar: `n_buckets` lists, of which the one of index `last_bucket` holds the events
before `bucket_top` in the current year. -/
structure CalendarScheduler where
  reverse : Bool
  buckets : Nat → List Event
  n_buckets : UInt32
  width : UInt64
  last_bucket : UInt32
  bucket_top : UInt64
  last_prio : UInt64
  q_size : UInt32

namespace CalendarScheduler

/-- `NextEvent`, on a bucket that may be empty. -/
def next_event (c : CalendarScheduler) (bucket : List Event) : Option Event :=
  if c.reverse then bucket.getLast? else bucket.head?

def order (c : CalendarScheduler) (a b : Event) : Bool :=
  if c.reverse then b.key.less a.key else a.key.less b.key

def pop (c : CalendarScheduler) (bucket : List Event) : List Event :=
  if c.reverse then bucket.dropLast else bucket.tail

def hash (c : CalendarScheduler) (ts : UInt64) : UInt32 := (ts / c.width % c.n_buckets.toUInt64).toUInt32

/-- `Init`: new buckets, and the search starts with the bucket of `startPrio`. -/
def initialise (c : CalendarScheduler) (nBuckets : UInt32) (width startPrio : UInt64) : CalendarScheduler :=
  let c := { c with buckets := fun _ => [], n_buckets := nBuckets, width := width, last_prio := startPrio }
  { c with last_bucket := c.hash startPrio, bucket_top := (startPrio / width + 1) * width }

def init (reverse : Bool) : CalendarScheduler :=
  initialise ⟨reverse, fun _ => [], 0, 0, 0, 0, 0, 0⟩ 2 1 0

def do_insert (c : CalendarScheduler) (ev : Event) : CalendarScheduler :=
  let bucket := (c.hash ev.key.ts).toNat
  { c with buckets := Function.update c.buckets bucket (SortedList.place c.order ev (c.buckets bucket)) }

/-- What the loop over the buckets finds: an event of the year, in a bucket with this top,
or else the least next event of all buckets. -/
inductive Found
  | year (bucket : UInt32) (bucket_top : UInt64) (next : Event)
  | direct (min : Option (UInt32 × Event))
deriving DecidableEq, Repr

/-- The loop over the buckets that `PeekNext` and `DoRemoveNext` share, from bucket `i` on.
A next event is compared with the least one so far, or with `limit` while there is none. -/
def scan (c : CalendarScheduler) (limit : EventKey) :
    Nat → UInt32 → UInt64 → Option (UInt32 × Event) → Option Found
  | 0, _, _, _ => none
  | turns + 1, i, bucket_top, min =>
    let continue_with := fun min =>
      if (i + 1) % c.n_buckets = c.last_bucket then some (.direct min)
      else c.scan limit turns ((i + 1) % c.n_buckets) (bucket_top + c.width) min
    match c.next_event (c.buckets i.toNat) with
    | none => continue_with min
    | some next =>
      if next.key.ts < bucket_top then some (.year i bucket_top next)
      else
        continue_with
          (if next.key.less ((min.map fun m => m.2.key).getD limit) then some (i, next) else min)

def is_empty (c : CalendarScheduler) : Bool := c.q_size == 0

/-- `PeekNext`; `none` is its failing assertion. -/
def peek_next (c : CalendarScheduler) : Option Event :=
  if c.is_empty then none
  else
    (c.scan ⟨0xffffffffffffffff, 0xffffffff, 0⟩ c.n_buckets.toNat c.last_bucket c.bucket_top none).bind fun
      | .year _ _ next => some next
      | .direct min => min.map (·.2)

/-- `DoRemoveNext`; `none` is its failing assertion or the selection of no bucket. -/
def do_remove_next (c : CalendarScheduler) : Option (Event × CalendarScheduler) :=
  if c.is_empty then none
  else
    (c.scan ⟨0xffffffffffffffff, 0, 0xffffffff⟩ c.n_buckets.toNat c.last_bucket c.bucket_top none).bind fun
      | .year i bucket_top next =>
        some (next, { c with
          last_bucket := i, last_prio := next.key.ts, bucket_top := bucket_top
          buckets := Function.update c.buckets i.toNat (c.pop (c.buckets i.toNat)) })
      | .direct none => none
      | .direct (some (i, min)) =>
        (c.next_event (c.buckets i.toNat)).map fun next =>
          (next, { c with
            last_bucket := c.hash min.key.ts, last_prio := min.key.ts
            bucket_top := (min.key.ts / c.width + 1) * c.width
            buckets := Function.update c.buckets i.toNat (c.pop (c.buckets i.toNat)) })

/-- The events `CalculateNewWidth` takes out, in order. -/
def take_samples : Nat → CalendarScheduler → Option (List Event × CalendarScheduler)
  | 0, c => some ([], c)
  | n + 1, c =>
    c.do_remove_next.bind fun r => (take_samples n r.2).map fun rest => (r.1 :: rest.1, rest.2)

def sample_count (c : CalendarScheduler) : UInt32 :=
  min (if c.q_size ≤ 5 then c.q_size else 5 + c.q_size / 10) 25

/-- The differences between the times of consecutive samples. -/
def separations (samples : List Event) : List UInt64 :=
  samples.zipWith (fun cur next => next.key.ts - cur.key.ts) samples.tail

/-- The width for samples of the next events. -/
def width_of (samples : List Event) : UInt64 :=
  let twiceAvg := (separations samples).sum / (UInt64.ofNat samples.length - 1) * 2
  max (((separations samples).filter (· ≤ twiceAvg)).sum * 3) 1

/-- `CalculateNewWidth`, with the samples put back. -/
def calculate_new_width (c : CalendarScheduler) : Option (UInt64 × CalendarScheduler) :=
  if c.q_size < 2 then some (1, c)
  else
    (take_samples c.sample_count.toNat c).map fun r =>
      (width_of r.1, { r.1.foldl do_insert r.2 with
        last_bucket := c.last_bucket, bucket_top := c.bucket_top, last_prio := c.last_prio })

def do_resize (c : CalendarScheduler) (newSize : UInt32) (newWidth : UInt64) : CalendarScheduler :=
  ((List.range c.n_buckets.toNat).flatMap c.buckets).foldl do_insert (c.initialise newSize newWidth c.last_prio)

def resize (c : CalendarScheduler) (newSize : UInt32) : Option CalendarScheduler :=
  c.calculate_new_width.map fun r => r.2.do_resize newSize r.1

def resize_up (c : CalendarScheduler) : Option CalendarScheduler :=
  if c.q_size > c.n_buckets * 2 ∧ c.n_buckets < 32768 then c.resize (c.n_buckets * 2) else some c

def resize_down (c : CalendarScheduler) : Option CalendarScheduler :=
  if c.q_size < c.n_buckets / 2 then c.resize (c.n_buckets / 2) else some c

def insert (c : CalendarScheduler) (ev : Event) : Option CalendarScheduler :=
  resize_up { c.do_insert ev with q_size := c.q_size + 1 }

def remove_next (c : CalendarScheduler) : Option (Event × CalendarScheduler) :=
  c.do_remove_next.bind fun r => (resize_down { r.2 with q_size := r.2.q_size - 1 }).map (r.1, ·)

/-- `Remove`; `none` is a failing assertion. -/
def remove (c : CalendarScheduler) (ev : Event) : Option CalendarScheduler :=
  if c.is_empty then none
  else
    let bucket := (c.hash ev.key.ts).toNat
    match (c.buckets bucket).find? fun i => i.key.uid == ev.key.uid with
    | none => none
    | some i =>
      if ev.impl = i.impl then
        resize_down { c with
          buckets := Function.update c.buckets bucket
            ((c.buckets bucket).eraseP fun i => i.key.uid == ev.key.uid)
          q_size := c.q_size - 1 }
      else none

def operate (c : CalendarScheduler) : Operation Event → Option (CalendarScheduler × Response Event)
  | .insert ev => (c.insert ev).map (·, .done)
  | .remove ev => (c.remove ev).map (·, .done)
  | .remove_next => c.remove_next.map fun r => (r.2, .item r.1)
  | .peek_next => c.peek_next.map fun next => (c, .item next)
  | .is_empty => some (c, .flag c.is_empty)

end CalendarScheduler

end Ns3
