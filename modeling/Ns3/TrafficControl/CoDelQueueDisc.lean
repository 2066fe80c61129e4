import Ns3.Network.Address

namespace Ns3.TrafficControl

inductive QueueSizeUnit
  | packets | bytes
deriving DecidableEq, Repr

structure QueueSize where
  unit : QueueSizeUnit
  value : UInt32
deriving DecidableEq, Repr

theorem full_size_lt : (1500 : UInt32).toNat < 2 ^ 31 := by decide

/-- A queued packet. `tos` is the field `IP_DSFIELD` of an IP packet, and `uid` the packet. An IP
datagram or ARP message is far smaller than 2 GiB.
`flow_hash` and `arrival` are history: the hash by which a packet was classified, and how many
packets had been classified before it. -/
structure QueueDiscItem where
  uid : Nat
  size : UInt32
  tos : Option UInt8
  size_lt : size.toNat < 2 ^ 31 := by first | exact full_size_lt | decide
  time_stamp : Time := 0
  flow_hash : UInt32 := 0
  arrival : Nat := 0
deriving DecidableEq, Repr

namespace QueueDiscItem

/-- `Mark`. The packet is not marked if it is not ECN capable. -/
def mark (item : QueueDiscItem) : Option QueueDiscItem :=
  match item.tos with
  | some t => if t &&& 3 = 0 then none else some { item with tos := some ((t &&& 0xfc) ||| 3) }
  | none => none

def shift (d : Time) (item : QueueDiscItem) : QueueDiscItem :=
  { item with time_stamp := item.time_stamp + d }

def plain (item : QueueDiscItem) : QueueDiscItem := { item with time_stamp := 0 }

theorem mark_shift (d : Time) (item : QueueDiscItem) : (item.shift d).mark = item.mark.map (shift d) := by
  obtain ⟨uid, size, tos, size_lt, time_stamp, flow_hash, arrival⟩ := item
  cases tos with
  | none => rfl
  | some t =>
    simp only [mark, shift]
    split <;> rfl

theorem mark_eq {item marked : QueueDiscItem} (h : item.mark = some marked) :
    marked = { item with tos := marked.tos } := by
  unfold mark at h
  split at h
  · split at h
    · cases h
    · exact Option.some.inj h ▸ rfl
  · cases h

end QueueDiscItem

/-- `GetCurrentSize () + item > GetMaxSize ()` for a queue that holds `packets`. -/
def exceeds (max_size : QueueSize) (packets : List QueueDiscItem) (item : QueueDiscItem) : Bool :=
  match max_size.unit with
  | .packets => max_size.value < UInt32.ofNat packets.length + 1
  | .bytes => max_size.value < (packets.map (·.size)).sum + item.size

/-- What a queue disc reports through its traces. -/
inductive QueueDiscEvent
  | drop_before_enqueue (item : QueueDiscItem) (reason : String)
  | drop_after_dequeue (item : QueueDiscItem) (reason : String)
  | mark (item : QueueDiscItem) (reason : String)
deriving DecidableEq, Repr

/-- The report without the time stamp of its packet. -/
def QueueDiscEvent.plain : QueueDiscEvent → QueueDiscEvent
  | .drop_before_enqueue item reason => .drop_before_enqueue item.plain reason
  | .drop_after_dequeue item reason => .drop_after_dequeue item.plain reason
  | .mark item reason => .mark item.plain reason

end Ns3.TrafficControl

namespace Ns3.TrafficControl

namespace CoDelQueueDisc

/-- The attributes of the algorithm. -/
structure Attributes where
  use_ecn : Bool := false
  use_l4s : Bool := false
  min_bytes : UInt32 := 1500
  interval : Time := milliseconds 100
  target : Time := milliseconds 5
  ce_threshold : Time := 9223372036854775807
deriving DecidableEq, Repr

/-- The variables of the algorithm. -/
structure Control where
  count : UInt32 := 0
  last_count : UInt32 := 0
  dropping : Bool := false
  rec_inv_sqrt : UInt16 := 0xffff
  first_above_time : UInt32 := 0
  drop_next : UInt32 := 0
deriving DecidableEq, Repr

def target_exceeded_drop : String := "Target exceeded drop"
def overlimit_drop : String := "Overlimit drop"
def target_exceeded_mark : String := "Target exceeded mark"
def ce_threshold_exceeded_mark : String := "CE threshold exceeded mark"

/-- `Time2CoDel`: units of 1024 ns, cut to 32 bits. -/
def time2_codel (t : Time) : UInt32 := UInt32.ofInt (t / 1024)

def codel_get_time (now : Time) : UInt32 := UInt32.ofInt (now / 1024)

/-- `CoDelTimeAfter`. The difference is taken in 64 bits. -/
def codel_time_after (a b : UInt32) : Bool := 0 < (a.toNat : Int) - b.toNat

def codel_time_after_eq (a b : UInt32) : Bool := 0 ≤ (a.toNat : Int) - b.toNat

def codel_time_before (a b : UInt32) : Bool := (a.toNat : Int) - b.toNat < 0

def reciprocal_divide (a r : UInt32) : UInt32 := ((a.toUInt64 * r.toUInt64) >>> 32).toUInt32

def newton_step (rec_inv_sqrt : UInt16) (count : UInt32) : UInt16 :=
  let invsqrt : UInt32 := rec_inv_sqrt.toUInt32 <<< 16
  let invsqrt2 : UInt32 := ((invsqrt.toUInt64 * invsqrt.toUInt64) >>> 32).toUInt32
  let val : UInt64 := (((3 : UInt64) <<< 32) - count.toUInt64 * invsqrt2.toUInt64) >>> 2
  (((val * invsqrt.toUInt64) >>> 31) >>> 16).toUInt16

def control_law (t interval : UInt32) (rec_inv_sqrt : UInt16) : UInt32 :=
  t + reciprocal_divide interval (rec_inv_sqrt.toUInt32 <<< 16)

/-- `OkToDrop`, with the packets that are left in the queue. -/
def ok_to_drop (a : Attributes) (now : Time) (packets : List QueueDiscItem) (v : Control) :
    Option QueueDiscItem → Bool × Control
  | none => (false, { v with first_above_time := 0 })
  | some item =>
    if codel_time_before (time2_codel (now - item.time_stamp)) (time2_codel a.target) ||
        (packets.map (·.size)).sum < a.min_bytes then
      (false, { v with first_above_time := 0 })
    else if v.first_above_time = 0 then
      (false, { v with first_above_time := codel_get_time now + time2_codel a.interval })
    else (codel_time_after (codel_get_time now) v.first_above_time, v)

/-- The packet that is served, the packets and variables that are left, what was reported on
the way, and whether the packet has been marked. -/
structure Served where
  item : Option QueueDiscItem
  packets : List QueueDiscItem
  control : Control
  events : List QueueDiscEvent
  is_marked : Bool
deriving DecidableEq, Repr

def target_mark (a : Attributes) (item : QueueDiscItem) : Option QueueDiscItem :=
  if a.use_ecn then item.mark else none

def drop_loop (a : Attributes) (now : Time) : List QueueDiscItem → Control → QueueDiscItem → Served
  | packets, v, item =>
    if v.dropping && codel_time_after_eq (codel_get_time now) v.drop_next then
      let v := { v with count := v.count + 1, rec_inv_sqrt := newton_step v.rec_inv_sqrt (v.count + 1) }
      match target_mark a item with
      | some marked =>
        { item := marked
          packets
          control := { v with
            drop_next := control_law (codel_get_time now) (time2_codel a.interval) v.rec_inv_sqrt }
          events := [.mark marked target_exceeded_mark]
          is_marked := true }
      | none =>
        match packets with
        | [] =>
          { item := none
            packets := []
            control := { (ok_to_drop a now [] v none).2 with dropping := false }
            events := [.drop_after_dequeue item target_exceeded_drop]
            is_marked := false }
        | next :: rest =>
          let r := ok_to_drop a now rest v (some next)
          if r.1 then
            let served := drop_loop a now rest { r.2 with
              drop_next := control_law r.2.drop_next (time2_codel a.interval) r.2.rec_inv_sqrt } next
            { served with events := .drop_after_dequeue item target_exceeded_drop :: served.events }
          else
            { item := next
              packets := rest
              control := { r.2 with dropping := false }
              events := [.drop_after_dequeue item target_exceeded_drop]
              is_marked := false }
    else { item, packets, control := v, events := [], is_marked := false }

/-- The first drop or mark of a dropping state. -/
def first_drop (a : Attributes) (now : Time) (packets : List QueueDiscItem) (v : Control) (item : QueueDiscItem) :
    Served :=
  match target_mark a item with
  | some marked =>
    { item := marked
      packets
      control := v
      events := [.mark marked target_exceeded_mark]
      is_marked := true }
  | none =>
    { item := packets.head?
      packets := packets.tail
      control := (ok_to_drop a now packets.tail v packets.head?).2
      events := [.drop_after_dequeue item target_exceeded_drop]
      is_marked := false }

/-- The variables at the start of a dropping state. -/
def start_dropping (a : Attributes) (now : Time) (v : Control) : Control :=
  let delta := v.count - v.last_count
  let v :=
    if 1 < delta.toInt32 ∧
        codel_time_before (codel_get_time now - v.drop_next) (16 * time2_codel a.interval) then
      { v with count := delta, rec_inv_sqrt := newton_step v.rec_inv_sqrt delta }
    else { v with count := 1, rec_inv_sqrt := 0xffff }
  { v with
    dropping := true
    last_count := v.count
    drop_next := control_law (codel_get_time now) (time2_codel a.interval) v.rec_inv_sqrt }

/-- The decision of `DoDequeue` on the packet at the head of the queue. -/
def serve (a : Attributes) (now : Time) (packets : List QueueDiscItem) (v : Control) (item : QueueDiscItem) :
    Served :=
  let r := ok_to_drop a now packets v (some item)
  if r.2.dropping then
    if r.1 then drop_loop a now packets r.2 item
    else { item, packets, control := { r.2 with dropping := false }, events := [], is_marked := false }
  else if r.1 then
    let first := first_drop a now packets r.2 item
    { first with control := start_dropping a now first.control }
  else { item, packets, control := r.2, events := [], is_marked := false }

/-- Whether the delay of a packet exceeds the threshold above which it is marked. -/
def exceeds_ce_threshold (a : Attributes) (now : Time) (item : QueueDiscItem) : Bool :=
  codel_time_after (time2_codel (now - item.time_stamp)) (time2_codel a.ce_threshold)

/-- A packet, marked if the threshold is exceeded and it can be. -/
def ce_mark (a : Attributes) (now : Time) (item : QueueDiscItem) : QueueDiscItem × List QueueDiscEvent :=
  match if exceeds_ce_threshold a now item then item.mark else none with
  | some marked => (marked, [.mark marked ce_threshold_exceeded_mark])
  | none => (item, [])

/-- Whether a packet is treated as L4S traffic: its codepoint is ECT(1) or CE. -/
def is_l4s (item : QueueDiscItem) : Bool := item.tos.any fun t => t &&& 3 == 1 || t &&& 3 == 3

end CoDelQueueDisc

/-- The queue disc: its attributes, its limit, its internal queue and its variables. -/
structure CoDelQueueDisc where
  attrs : CoDelQueueDisc.Attributes
  max_size : QueueSize
  packets : List QueueDiscItem := []
  control : CoDelQueueDisc.Control := {}
deriving DecidableEq, Repr

namespace CoDelQueueDisc

def get_n_bytes (q : CoDelQueueDisc) : UInt32 := (q.packets.map (·.size)).sum

/-- `Enqueue`. The internal queue has the same limit. -/
def enqueue (q : CoDelQueueDisc) (now : Time) (item : QueueDiscItem) :
    Bool × CoDelQueueDisc × List QueueDiscEvent :=
  if exceeds q.max_size q.packets item then (false, q, [.drop_before_enqueue item overlimit_drop])
  else (true, { q with packets := q.packets ++ [{ item with time_stamp := now }] }, [])

/-- The end of `DoDequeue`. `none` is the null pointer dereferenced when every packet was dropped. -/
def finish (q : CoDelQueueDisc) (now : Time) (served : Served) :
    Option (Option QueueDiscItem × CoDelQueueDisc × List QueueDiscEvent) :=
  served.item.map fun item =>
    let m :=
      if ¬ served.is_marked ∧ ¬ q.attrs.use_l4s ∧ q.attrs.use_ecn then ce_mark q.attrs now item else (item, [])
    (some m.1, { q with packets := served.packets, control := served.control }, served.events ++ m.2)

def do_dequeue (q : CoDelQueueDisc) (now : Time) :
    Option (Option QueueDiscItem × CoDelQueueDisc × List QueueDiscEvent) :=
  match q.packets with
  | [] => some (none, { q with control := { q.control with dropping := false } }, [])
  | item :: rest =>
    if q.attrs.use_l4s && is_l4s item then
      let m := ce_mark q.attrs now item
      some (some m.1, { q with packets := rest }, m.2)
    else q.finish now (serve q.attrs now rest q.control item)

end CoDelQueueDisc

end Ns3.TrafficControl

namespace Ns3.TrafficControl.CoDelQueueDisc

variable {a : Attributes} {now : Time} {packets : List QueueDiscItem} {v : Control} {item : QueueDiscItem}
  {q q' : CoDelQueueDisc}

def Marks (p item : QueueDiscItem) : Prop := item = { p with tos := item.tos }

theorem Marks.refl (p : QueueDiscItem) : Marks p p := rfl

theorem Marks.trans {p p' p'' : QueueDiscItem} (h : Marks p p') (h' : Marks p' p'') : Marks p p'' := by
  unfold Marks at *
  rw [h', h]

theorem Marks.of_target {marked : QueueDiscItem} (h : target_mark a item = some marked) : Marks item marked := by
  unfold target_mark at h
  split at h
  · exact QueueDiscItem.mark_eq h
  · cases h

theorem ce_mark_marks : Marks item (ce_mark a now item).1 := by
  unfold ce_mark
  split
  next marked hmark =>
    split at hmark
    · exact QueueDiscItem.mark_eq hmark
    · cases hmark
  next => exact Marks.refl item

/-- What is served comes from the front of the queue, behind the packets that are dropped. -/
def FromFront (queue : List QueueDiscItem) (served : Option QueueDiscItem) (rest : List QueueDiscItem) : Prop :=
  match served with
  | none => rest = []
  | some item => ∃ dropped p, queue = dropped ++ p :: rest ∧ Marks p item

theorem FromFront.cons {queue rest : List QueueDiscItem} {served : Option QueueDiscItem}
    (h : FromFront queue served rest) (item : QueueDiscItem) : FromFront (item :: queue) served rest := by
  cases served with
  | none => exact h
  | some served =>
    obtain ⟨dropped, p, hqueue, hmarks⟩ := h
    exact ⟨item :: dropped, p, by rw [hqueue, List.cons_append], hmarks⟩

theorem drop_loop_from_front :
    FromFront (item :: packets) (drop_loop a now packets v item).item (drop_loop a now packets v item).packets := by
  induction packets generalizing v item with
  | nil =>
    unfold drop_loop
    split
    · dsimp only
      split
      next hmark => exact ⟨[], item, rfl, Marks.of_target hmark⟩
      next => exact rfl
    · exact ⟨[], item, rfl, Marks.refl item⟩
  | cons next rest ih =>
    unfold drop_loop
    split
    · dsimp only
      split
      next hmark => exact ⟨[], item, rfl, Marks.of_target hmark⟩
      next =>
        split
        · exact FromFront.cons ih item
        · exact ⟨[item], next, rfl, Marks.refl next⟩
    · exact ⟨[], item, rfl, Marks.refl item⟩

theorem first_drop_from_front :
    FromFront (item :: packets) (first_drop a now packets v item).item (first_drop a now packets v item).packets := by
  unfold first_drop
  split
  next hmark => exact ⟨[], item, rfl, Marks.of_target hmark⟩
  next =>
    cases packets with
    | nil => exact rfl
    | cons next rest => exact ⟨[item], next, rfl, Marks.refl next⟩

theorem serve_from_front {t : Time} {l : List QueueDiscItem} {x : QueueDiscItem} :
    FromFront (x :: l) (serve a t l v x).item (serve a t l v x).packets := by
  unfold serve
  dsimp only
  split
  · split
    · exact drop_loop_from_front
    · exact ⟨[], x, rfl, Marks.refl x⟩
  · split
    · exact first_drop_from_front
    · exact ⟨[], x, rfl, Marks.refl x⟩

theorem do_dequeue_from_front {r : Option QueueDiscItem} {events : List QueueDiscEvent}
    (h : q.do_dequeue now = some (r, q', events)) :
    q'.attrs = q.attrs ∧ q'.max_size = q.max_size ∧ FromFront q.packets r q'.packets ∧
      (r = none → q.packets = []) := by
  unfold do_dequeue at h
  cases hpackets : q.packets with
  | nil =>
    rw [hpackets] at h
    cases h
    exact ⟨rfl, rfl, rfl, fun _ => rfl⟩
  | cons item rest =>
    rw [hpackets] at h
    dsimp only at h
    split at h
    · cases h
      exact ⟨rfl, rfl, ⟨[], item, rfl, ce_mark_marks⟩, nofun⟩
    · obtain ⟨served, hserved, heq⟩ := Option.map_eq_some_iff.mp h
      have hfront := serve_from_front (a := q.attrs) (t := now) (l := rest) (v := q.control) (x := item)
      rw [hserved] at hfront
      obtain ⟨dropped, p, hqueue, hmarks⟩ := hfront
      cases heq
      refine ⟨rfl, rfl, ⟨dropped, p, hqueue, hmarks.trans ?_⟩, nofun⟩
      split
      · exact ce_mark_marks
      · exact Marks.refl served

theorem ne_nil_of_ok_to_drop (hbytes : a.min_bytes ≠ 0)
    (h : (ok_to_drop a now packets v (some item)).1 = true) : packets ≠ [] := by
  rintro rfl
  have hfew : (([] : List QueueDiscItem).map (·.size)).sum < a.min_bytes := by
    rw [List.map_nil, List.sum_nil]
    exact UInt32.pos_iff_ne_zero.mpr hbytes
  rw [ok_to_drop, if_pos (by rw [decide_eq_true hfew, Bool.or_true])] at h
  cases h

theorem drop_loop_some (hbytes : a.min_bytes ≠ 0) (hne : packets ≠ []) :
    (drop_loop a now packets v item).item ≠ none := by
  induction packets generalizing v item with
  | nil => exact absurd rfl hne
  | cons next rest ih =>
    unfold drop_loop
    split
    · dsimp only
      split
      next => exact nofun
      next =>
        split
        next hok => exact ih (ne_nil_of_ok_to_drop hbytes hok)
        next => exact nofun
    · exact nofun

theorem do_dequeue_isSome {t : Time} (hbytes : q.attrs.min_bytes ≠ 0) : (q.do_dequeue t).isSome := by
  unfold do_dequeue
  split
  · rfl
  next item rest _ =>
    dsimp only
    split
    · rfl
    · have hserved : (serve q.attrs t rest q.control item).item ≠ none := by
        unfold serve
        dsimp only
        split
        · split
          next hok => exact drop_loop_some hbytes (ne_nil_of_ok_to_drop hbytes hok)
          next => exact nofun
        · split
          next hok =>
            unfold first_drop
            split
            · exact nofun
            · obtain ⟨next, rest', hrest⟩ := List.exists_cons_of_ne_nil (ne_nil_of_ok_to_drop hbytes hok)
              rw [hrest]
              exact nofun
          next => exact nofun
      obtain ⟨served, hserved⟩ := Option.ne_none_iff_exists'.mp hserved
      rw [finish, hserved]
      rfl

end Ns3.TrafficControl.CoDelQueueDisc
