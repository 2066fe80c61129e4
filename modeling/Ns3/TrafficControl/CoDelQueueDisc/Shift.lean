import Ns3.TrafficControl.CoDelQueueDisc
import Mathlib.Tactic.Ring

namespace Ns3.TrafficControl.CoDelQueueDisc

variable {a : Attributes} {now d : Time} {k : Int} {e t t' : UInt32} {packets packets' : List QueueDiscItem}
  {v v' : Control} {item : QueueDiscItem}

/-- A shift by `e` ticks carries both tick counts past the wrap, or neither. -/
def Aligned (e t t' : UInt32) : Prop := 2 ^ 32 ≤ t.toNat + e.toNat ↔ 2 ^ 32 ≤ t'.toNat + e.toNat

instance : Decidable (Aligned e t t') := inferInstanceAs (Decidable (_ ↔ _))

theorem toNat_shift : (t + e).toNat + (if 2 ^ 32 ≤ t.toNat + e.toNat then 2 ^ 32 else 0) = t.toNat + e.toNat := by
  have ht := t.toNat_lt
  have he := e.toNat_lt
  rw [UInt32.toNat_add]
  split <;> omega

/-- A comparison comes out the same exactly where the shift is aligned. -/
theorem codel_time_after_shift :
    codel_time_after (t + e) (t' + e) = codel_time_after t t' ↔ Aligned e t t' := by
  have ht := toNat_shift (t := t) (e := e)
  have ht' := toNat_shift (t := t') (e := e)
  have hlt := t.toNat_lt
  have hlt' := t'.toNat_lt
  have hle := (t + e).toNat_lt
  have hle' := (t' + e).toNat_lt
  unfold Aligned
  simp only [codel_time_after, decide_eq_decide]
  split at ht <;> split at ht' <;> omega

theorem codel_time_after_eq_shift :
    codel_time_after_eq (t + e) (t' + e) = codel_time_after_eq t t' ↔ Aligned e t t' := by
  have ht := toNat_shift (t := t) (e := e)
  have ht' := toNat_shift (t := t') (e := e)
  have hlt := t.toNat_lt
  have hlt' := t'.toNat_lt
  have hle := (t + e).toNat_lt
  have hle' := (t' + e).toNat_lt
  unfold Aligned
  simp only [codel_time_after_eq, decide_eq_decide]
  split at ht <;> split at ht' <;> omega

theorem codel_get_time_shift : codel_get_time (now + 1024 * k) = codel_get_time now + UInt32.ofInt k := by
  have hdiv : (now + 1024 * k) / 1024 = now / 1024 + k :=
    Int.add_mul_ediv_left now k (by decide)
  rw [codel_get_time, codel_get_time, hdiv, UInt32.ofInt_add]

theorem sojourn_shift : now + d - (item.shift d).time_stamp = now - item.time_stamp :=
  add_sub_add_right_eq_sub now item.time_stamp d

/-- The variables in two runs whose times differ by `e` ticks. The time of the next drop is
not set before the first dropping state. -/
structure Shifted (e : UInt32) (v v' : Control) : Prop where
  count : v'.count = v.count
  last_count : v'.last_count = v.last_count
  dropping : v'.dropping = v.dropping
  rec_inv_sqrt : v'.rec_inv_sqrt = v.rec_inv_sqrt
  first_above_time : v.first_above_time = 0 ∧ v'.first_above_time = 0 ∨
    v.first_above_time ≠ 0 ∧ v'.first_above_time ≠ 0 ∧ v'.first_above_time = v.first_above_time + e
  drop_next : v'.drop_next = v.drop_next + e ∨ v.count = v.last_count ∧ v.dropping = false

/-- The tick counts that `OkToDrop` compares are aligned, and the time it sets is the value
that stands for no time in both runs or in none. -/
def OkAligned (a : Attributes) (e : UInt32) (now : Time) (packets : List QueueDiscItem) (v : Control) :
    Option QueueDiscItem → Prop
  | none => True
  | some item =>
    (codel_time_before (time2_codel (now - item.time_stamp)) (time2_codel a.target) ||
        (packets.map (·.size)).sum < a.min_bytes) = false →
      if v.first_above_time = 0 then
        codel_get_time now + time2_codel a.interval = 0 ↔ codel_get_time now + time2_codel a.interval + e = 0
      else Aligned e (codel_get_time now) v.first_above_time

instance {item : Option QueueDiscItem} : Decidable (OkAligned a e now packets v item) :=
  match item with
  | none => inferInstanceAs (Decidable True)
  | some _ => inferInstanceAs (Decidable (_ → _))

theorem map_size_shift : ((packets.map (QueueDiscItem.shift d)).map (·.size)) = packets.map (·.size) := by
  rw [List.map_map]
  rfl

theorem ok_to_drop_shift {t : Time} {l : List QueueDiscItem} {x : Option QueueDiscItem} (hv : Shifted (UInt32.ofInt k) v v')
    (h : OkAligned a (UInt32.ofInt k) t l v x) :
    (ok_to_drop a (t + 1024 * k) (l.map (.shift (1024 * k))) v' (x.map (.shift (1024 * k)))).1 =
        (ok_to_drop a t l v x).1 ∧
      Shifted (UInt32.ofInt k) (ok_to_drop a t l v x).2
        (ok_to_drop a (t + 1024 * k) (l.map (.shift (1024 * k))) v' (x.map (.shift (1024 * k)))).2 := by
  cases x with
  | none => exact ⟨rfl, { hv with first_above_time := .inl ⟨rfl, rfl⟩ }⟩
  | some x =>
    simp only [Option.map_some, ok_to_drop, sojourn_shift, map_size_shift]
    split
    next => exact ⟨rfl, { hv with first_above_time := .inl ⟨rfl, rfl⟩ }⟩
    next hbelow =>
      have h := h (Bool.eq_false_iff.mpr hbelow)
      rcases hv.first_above_time with ⟨hzero, hzero'⟩ | ⟨hset, hset', heq⟩
      · rw [if_pos hzero] at h
        rw [if_pos hzero, if_pos hzero']
        refine ⟨rfl, { hv with first_above_time := ?_ }⟩
        have hnext : codel_get_time (t + 1024 * k) + time2_codel a.interval =
            codel_get_time t + time2_codel a.interval + UInt32.ofInt k := by
          rw [codel_get_time_shift]
          ac_rfl
        simp only [hnext]
        by_cases hz : codel_get_time t + time2_codel a.interval = 0
        · exact .inl ⟨hz, h.mp hz⟩
        · exact .inr ⟨hz, fun hc => hz (h.mpr hc), trivial⟩
      · rw [if_neg hset] at h
        rw [if_neg hset, if_neg hset']
        refine ⟨?_, hv⟩
        rw [heq, codel_get_time_shift]
        exact codel_time_after_shift.mpr h

/-- What two runs whose times differ by `d`, or `e` ticks, serve. -/
structure ServedShifted (d : Time) (e : UInt32) (served served' : Served) : Prop where
  item : served'.item = served.item.map (.shift d)
  packets : served'.packets = served.packets.map (.shift d)
  control : Shifted e served.control served'.control
  events : served'.events.map (·.plain) = served.events.map (·.plain)
  is_marked : served'.is_marked = served.is_marked

theorem target_mark_shift : target_mark a (item.shift d) = (target_mark a item).map (.shift d) := by
  unfold target_mark
  split
  · exact item.mark_shift d
  · rfl

theorem control_law_shift {interval : UInt32} {r : UInt16} (h : t' = t + e) :
    control_law t' interval r = control_law t interval r + e := by
  rw [h, control_law, control_law]
  ac_rfl

def count_drop (v : Control) : Control :=
  { v with count := v.count + 1, rec_inv_sqrt := newton_step v.rec_inv_sqrt (v.count + 1) }

/-- The variables with the next drop scheduled. -/
def schedule (a : Attributes) (t : UInt32) (v : Control) : Control :=
  { v with drop_next := control_law t (time2_codel a.interval) v.rec_inv_sqrt }

/-- The tick counts that the loop of the dropping state compares are aligned. -/
def LoopAligned (a : Attributes) (e : UInt32) (now : Time) : List QueueDiscItem → Control → QueueDiscItem → Prop
  | packets, v, item =>
    v.dropping = true →
      Aligned e (codel_get_time now) v.drop_next ∧
        (codel_time_after_eq (codel_get_time now) v.drop_next = true → target_mark a item = none →
          match packets with
          | [] => True
          | next :: rest =>
            OkAligned a e now rest (count_drop v) (some next) ∧
              let r := ok_to_drop a now rest (count_drop v) (some next)
              (r.1 = true → LoopAligned a e now rest (schedule a r.2.drop_next r.2) next))

instance LoopAligned.decidable :
    (packets : List QueueDiscItem) → (v : Control) → (item : QueueDiscItem) →
      Decidable (LoopAligned a e now packets v item)
  | [], v, item => decidable_of_iff
      (v.dropping = true → Aligned e (codel_get_time now) v.drop_next ∧ (_ → _ → True)) (by rw [LoopAligned])
  | next :: rest, v, item =>
    have := LoopAligned.decidable rest
    decidable_of_iff (v.dropping = true → Aligned e (codel_get_time now) v.drop_next ∧
      (codel_time_after_eq (codel_get_time now) v.drop_next = true → target_mark a item = none →
        OkAligned a e now rest (count_drop v) (some next) ∧
          ((ok_to_drop a now rest (count_drop v) (some next)).1 = true → LoopAligned a e now rest
            (schedule a (ok_to_drop a now rest (count_drop v) (some next)).2.drop_next
              (ok_to_drop a now rest (count_drop v) (some next)).2) next))) (by rw [LoopAligned])

theorem Shifted.count_drop (hv : Shifted e v v') (hd : v'.drop_next = v.drop_next + e) :
    Shifted e (count_drop v) (count_drop v') :=
  ⟨congrArg (· + 1) hv.count, hv.last_count, hv.dropping, by simp [CoDelQueueDisc.count_drop, hv.count, hv.rec_inv_sqrt],
    hv.first_above_time, .inl hd⟩

theorem Shifted.schedule (hv : Shifted e v v') (ht : t' = t + e) : Shifted e (schedule a t v) (schedule a t' v') :=
  { hv with
    drop_next := .inl (by
      simp only [CoDelQueueDisc.schedule, hv.rec_inv_sqrt]
      exact control_law_shift ht) }

theorem ok_to_drop_drop_next {item : Option QueueDiscItem} :
    (ok_to_drop a now packets v item).2.drop_next = v.drop_next ∧
      (ok_to_drop a now packets v item).2.dropping = v.dropping := by
  cases item with
  | none => exact ⟨rfl, rfl⟩
  | some item =>
    simp only [ok_to_drop]
    split
    · exact ⟨rfl, rfl⟩
    · split <;> exact ⟨rfl, rfl⟩

def drops_next (now : Time) (v : Control) : Bool :=
  v.dropping && codel_time_after_eq (codel_get_time now) v.drop_next

theorem drop_loop_stop (h : drops_next now v = false) :
    drop_loop a now packets v item = { item, packets, control := v, events := [], is_marked := false } := by
  unfold drop_loop
  exact if_neg (ne_true_of_eq_false h)

theorem drop_loop_mark {marked : QueueDiscItem} (h : drops_next now v = true) (hmark : target_mark a item = some marked) :
    drop_loop a now packets v item =
      { item := marked
        packets
        control := schedule a (codel_get_time now) (count_drop v)
        events := [.mark marked target_exceeded_mark]
        is_marked := true } := by
  unfold drop_loop
  simp only [hmark]
  exact if_pos h

theorem drop_loop_nil (h : drops_next now v = true) (hmark : target_mark a item = none) :
    drop_loop a now [] v item =
      { item := none
        packets := []
        control := { (ok_to_drop a now [] (count_drop v) none).2 with dropping := false }
        events := [.drop_after_dequeue item target_exceeded_drop]
        is_marked := false } := by
  unfold drop_loop
  simp only [hmark]
  exact if_pos h

theorem drop_loop_cons {next : QueueDiscItem} {rest : List QueueDiscItem} (h : drops_next now v = true)
    (hmark : target_mark a item = none) :
    drop_loop a now (next :: rest) v item =
      if (ok_to_drop a now rest (count_drop v) (some next)).1 then
        let served := drop_loop a now rest (schedule a (ok_to_drop a now rest (count_drop v) (some next)).2.drop_next
          (ok_to_drop a now rest (count_drop v) (some next)).2) next
        { served with events := .drop_after_dequeue item target_exceeded_drop :: served.events }
      else
        { item := next
          packets := rest
          control := { (ok_to_drop a now rest (count_drop v) (some next)).2 with dropping := false }
          events := [.drop_after_dequeue item target_exceeded_drop]
          is_marked := false } := by
  rw [drop_loop]
  simp only [hmark]
  exact if_pos h

theorem drops_next_shift (hv : Shifted (UInt32.ofInt k) v v')
    (hd : v.dropping = true → v'.drop_next = v.drop_next + UInt32.ofInt k)
    (h : v.dropping = true → Aligned (UInt32.ofInt k) (codel_get_time now) v.drop_next) :
    drops_next (now + 1024 * k) v' = drops_next now v := by
  unfold drops_next
  rw [hv.dropping]
  cases hdropping : v.dropping with
  | false => rfl
  | true => rw [hd hdropping, codel_get_time_shift, codel_time_after_eq_shift.mpr (h hdropping)]

theorem Shifted.leave (hv : Shifted e v v') (hd : v'.drop_next = v.drop_next + e) :
    Shifted e { v with dropping := false } { v' with dropping := false } :=
  { hv with dropping := rfl, drop_next := .inl hd }

theorem drop_loop_shift (hv : Shifted (UInt32.ofInt k) v v')
    (hd : v.dropping = true → v'.drop_next = v.drop_next + UInt32.ofInt k)
    (h : LoopAligned a (UInt32.ofInt k) now packets v item) :
    ServedShifted (1024 * k) (UInt32.ofInt k) (drop_loop a now packets v item)
      (drop_loop a (now + 1024 * k) (packets.map (.shift (1024 * k))) v' (item.shift (1024 * k))) := by
  induction packets generalizing v v' item with
  | nil =>
    rw [LoopAligned] at h
    have hdrops := drops_next_shift hv hd fun hdropping => (h hdropping).1
    cases hgo : drops_next now v with
    | false =>
      rw [drop_loop_stop hgo, drop_loop_stop (hdrops.trans hgo)]
      exact ⟨rfl, rfl, hv, rfl, rfl⟩
    | true =>
      have hdropping : v.dropping = true := (Bool.and_eq_true_iff.mp hgo).1
      have hcount := hv.count_drop (hd hdropping)
      cases hmark : target_mark a item with
      | some marked =>
        rw [drop_loop_mark hgo hmark, drop_loop_mark (hdrops.trans hgo) (target_mark_shift.trans (by rw [hmark]; rfl))]
        exact ⟨rfl, rfl, hcount.schedule codel_get_time_shift, rfl, rfl⟩
      | none =>
        rw [drop_loop_nil hgo hmark, List.map_nil,
          drop_loop_nil (hdrops.trans hgo) (target_mark_shift.trans (by rw [hmark]; rfl))]
        obtain ⟨-, hnone⟩ := ok_to_drop_shift (a := a) (t := now) (l := []) (x := none) hcount trivial
        exact ⟨rfl, rfl, hnone.leave (hd hdropping), rfl, rfl⟩
  | cons next rest ih =>
    rw [LoopAligned] at h
    have hdrops := drops_next_shift hv hd fun hdropping => (h hdropping).1
    cases hgo : drops_next now v with
    | false =>
      rw [drop_loop_stop hgo, drop_loop_stop (hdrops.trans hgo)]
      exact ⟨rfl, rfl, hv, rfl, rfl⟩
    | true =>
      obtain ⟨hdropping, hafter⟩ := Bool.and_eq_true_iff.mp hgo
      have hcount := hv.count_drop (hd hdropping)
      cases hmark : target_mark a item with
      | some marked =>
        rw [drop_loop_mark hgo hmark, drop_loop_mark (hdrops.trans hgo) (target_mark_shift.trans (by rw [hmark]; rfl))]
        exact ⟨rfl, rfl, hcount.schedule codel_get_time_shift, rfl, rfl⟩
      | none =>
        obtain ⟨hok, hloop⟩ := (h hdropping).2 hafter hmark
        obtain ⟨hsame, hnext⟩ := ok_to_drop_shift hcount hok
        have hdnext : (ok_to_drop a (now + 1024 * k) (rest.map (.shift (1024 * k))) (count_drop v')
            ((some next).map (.shift (1024 * k)))).2.drop_next =
            (ok_to_drop a now rest (count_drop v) (some next)).2.drop_next + UInt32.ofInt k := by
          rw [ok_to_drop_drop_next.1, ok_to_drop_drop_next.1]
          exact hd hdropping
        rw [drop_loop_cons hgo hmark, List.map_cons,
          drop_loop_cons (hdrops.trans hgo) (target_mark_shift.trans (by rw [hmark]; rfl))]
        simp only [Option.map_some] at hsame hnext hdnext
        rw [hsame]
        by_cases hdrop : (ok_to_drop a now rest (count_drop v) (some next)).1 = true
        · rw [if_pos hdrop, if_pos hdrop]
          have hrec := ih (hnext.schedule hdnext) (fun _ => by
            simp only [CoDelQueueDisc.schedule, hnext.rec_inv_sqrt]
            exact control_law_shift hdnext) (hloop hdrop)
          exact ⟨hrec.item, hrec.packets, hrec.control, congrArg (_ :: ·) hrec.events, hrec.is_marked⟩
        · rw [if_neg hdrop, if_neg hdrop]
          exact ⟨rfl, rfl, hnext.leave hdnext, rfl, rfl⟩

theorem Shifted.drop_next_of_dropping (hv : Shifted e v v') (h : v.dropping = true) :
    v'.drop_next = v.drop_next + e := by
  rcases hv.drop_next with hd | ⟨-, hstopped⟩
  · exact hd
  · rw [h] at hstopped
    cases hstopped

/-- The count and the rate at which a dropping state starts. -/
def restart (a : Attributes) (now : Time) (v : Control) : UInt32 × UInt16 :=
  if 1 < (v.count - v.last_count).toInt32 ∧
      codel_time_before (codel_get_time now - v.drop_next) (16 * time2_codel a.interval) then
    (v.count - v.last_count, newton_step v.rec_inv_sqrt (v.count - v.last_count))
  else (1, 0xffff)

theorem start_dropping_eq : start_dropping a now v = { v with
    count := (restart a now v).1
    last_count := (restart a now v).1
    dropping := true
    rec_inv_sqrt := (restart a now v).2
    drop_next := control_law (codel_get_time now) (time2_codel a.interval) (restart a now v).2 } := by
  unfold start_dropping restart
  dsimp only
  split <;> rfl

theorem restart_shift (hv : Shifted (UInt32.ofInt k) v v') :
    restart a (now + 1024 * k) v' = restart a now v := by
  unfold restart
  rw [hv.count, hv.last_count, hv.rec_inv_sqrt]
  rcases hv.drop_next with hd | ⟨hunset, -⟩
  · have hsub : codel_get_time (now + 1024 * k) - v'.drop_next = codel_get_time now - v.drop_next := by
      rw [hd, codel_get_time_shift]
      grind
    rw [hsub]
  · -- no drop has been counted since the last start
    have hstill : ¬ 1 < (v.count - v.last_count).toInt32 := by
      rw [hunset, UInt32.sub_self]
      decide
    rw [if_neg fun hc => hstill hc.1, if_neg fun hc => hstill hc.1]

theorem start_dropping_shift (hv : Shifted (UInt32.ofInt k) v v') :
    Shifted (UInt32.ofInt k) (start_dropping a now v) (start_dropping a (now + 1024 * k) v') := by
  rw [start_dropping_eq, start_dropping_eq, restart_shift hv]
  exact { count := rfl, last_count := rfl, dropping := rfl, rec_inv_sqrt := rfl
          first_above_time := hv.first_above_time
          drop_next := .inl (control_law_shift codel_get_time_shift) }

/-- The tick counts that the decision on the head of the queue compares are aligned. -/
def ServeAligned (a : Attributes) (e : UInt32) (now : Time) (packets : List QueueDiscItem) (v : Control)
    (item : QueueDiscItem) : Prop :=
  OkAligned a e now packets v (some item) ∧
    let r := ok_to_drop a now packets v (some item)
    (r.1 = true →
      if r.2.dropping then LoopAligned a e now packets r.2 item
      else target_mark a item = none → OkAligned a e now packets.tail r.2 packets.head?)

instance : Decidable (ServeAligned a e now packets v item) := inferInstanceAs (Decidable (_ ∧ (_ → ite _ _ _)))

theorem first_drop_shift (hv : Shifted (UInt32.ofInt k) v v')
    (h : target_mark a item = none → OkAligned a (UInt32.ofInt k) now packets.tail v packets.head?) :
    ServedShifted (1024 * k) (UInt32.ofInt k) (first_drop a now packets v item)
      (first_drop a (now + 1024 * k) (packets.map (.shift (1024 * k))) v' (item.shift (1024 * k))) := by
  unfold first_drop
  rw [target_mark_shift]
  cases hmark : target_mark a item with
  | some marked => exact ⟨rfl, rfl, hv, rfl, rfl⟩
  | none =>
    obtain ⟨-, hnext⟩ := ok_to_drop_shift hv (h hmark)
    rw [Option.map_none, ← List.map_tail, List.head?_map]
    exact ⟨rfl, rfl, hnext, rfl, rfl⟩

theorem serve_shift (hv : Shifted (UInt32.ofInt k) v v') (h : ServeAligned a (UInt32.ofInt k) now packets v item) :
    ServedShifted (1024 * k) (UInt32.ofInt k) (serve a now packets v item)
      (serve a (now + 1024 * k) (packets.map (.shift (1024 * k))) v' (item.shift (1024 * k))) := by
  obtain ⟨hok, hdecision⟩ := h
  obtain ⟨hsame, hnext⟩ := ok_to_drop_shift hv hok
  simp only [Option.map_some] at hsame hnext
  unfold serve
  simp only [hsame, hnext.dropping]
  cases hdropping : (ok_to_drop a now packets v (some item)).2.dropping with
  | true =>
    have hd := hnext.drop_next_of_dropping hdropping
    rw [if_pos rfl, if_pos rfl]
    by_cases hdrop : (ok_to_drop a now packets v (some item)).1 = true
    · rw [if_pos hdrop, if_pos hdrop]
      have hloop := hdecision hdrop
      rw [hdropping] at hloop
      exact drop_loop_shift hnext (fun _ => hd) hloop
    · rw [if_neg hdrop, if_neg hdrop]
      exact ⟨rfl, rfl, hnext.leave hd, rfl, rfl⟩
  | false =>
    rw [if_neg Bool.false_ne_true, if_neg Bool.false_ne_true]
    by_cases hdrop : (ok_to_drop a now packets v (some item)).1 = true
    · rw [if_pos hdrop, if_pos hdrop]
      have hfirst := hdecision hdrop
      rw [hdropping] at hfirst
      have hserved := first_drop_shift hnext hfirst
      exact ⟨hserved.item, hserved.packets, start_dropping_shift hserved.control, hserved.events, hserved.is_marked⟩
    · rw [if_neg hdrop, if_neg hdrop]
      exact ⟨rfl, rfl, hnext, rfl, rfl⟩

theorem ce_mark_shift {t : Time} {x : QueueDiscItem} : (ce_mark a (t + d) (x.shift d)).1 = (ce_mark a t x).1.shift d ∧
    (ce_mark a (t + d) (x.shift d)).2.map (·.plain) = (ce_mark a t x).2.map (·.plain) := by
  unfold ce_mark exceeds_ce_threshold
  rw [sojourn_shift, x.mark_shift d]
  cases codel_time_after (time2_codel (t - x.time_stamp)) (time2_codel a.ce_threshold) with
  | false => exact ⟨rfl, rfl⟩
  | true =>
    rw [if_pos rfl, if_pos rfl]
    cases x.mark with
    | none => exact ⟨rfl, rfl⟩
    | some marked => exact ⟨rfl, rfl⟩

/-- Two queue discs in runs whose times differ by `k` ticks. -/
structure DiscShifted (k : Int) (q q' : CoDelQueueDisc) : Prop where
  attrs : q'.attrs = q.attrs
  max_size : q'.max_size = q.max_size
  packets : q'.packets = q.packets.map (.shift (1024 * k))
  control : Shifted (UInt32.ofInt k) q.control q'.control

/-- Wherever a dequeue compares two tick counts, a shift by `e` ticks carries both past the
wrap or neither, and a time that it sets does not become the value that stands for none. -/
def DequeueAligned (e : UInt32) (now : Time) (q : CoDelQueueDisc) : Prop :=
  match q.packets with
  | [] => True
  | item :: rest => (q.attrs.use_l4s && is_l4s item) = true ∨ ServeAligned q.attrs e now rest q.control item

instance {q : CoDelQueueDisc} : Decidable (DequeueAligned e now q) := by
  unfold DequeueAligned
  split <;> infer_instance

/-- What a call reports: its result and its drops and marks. -/
inductive Outcome
  | enqueued (accepted : Bool) (events : List QueueDiscEvent)
  | dequeued (item : Option QueueDiscItem) (events : List QueueDiscEvent)
deriving DecidableEq, Repr

def Outcome.plain : Outcome → Outcome
  | .enqueued accepted events => .enqueued accepted (events.map (·.plain))
  | .dequeued item events => .dequeued (item.map (·.plain)) (events.map (·.plain))

inductive Call
  | enqueue (item : QueueDiscItem)
  | dequeue
deriving DecidableEq, Repr

/-- One call. `none` is a program that stops. -/
def call (q : CoDelQueueDisc) (now : Time) : Call → Option (Outcome × CoDelQueueDisc)
  | .enqueue item =>
    let r := q.enqueue now item
    some (.enqueued r.1 r.2.2, r.2.1)
  | .dequeue => (q.do_dequeue now).map fun r => (.dequeued r.1 r.2.2, r.2.1)

/-- The outcomes of a sequence of calls at given times. -/
def outcomes (q : CoDelQueueDisc) : List (Time × Call) → Option (List Outcome)
  | [] => some []
  | (now, c) :: calls => (q.call now c).bind fun r => (outcomes r.2 calls).map (r.1 :: ·)

/-- Every dequeue of the run is aligned. -/
def RunAligned (e : UInt32) (q : CoDelQueueDisc) : List (Time × Call) → Prop
  | [] => True
  | (now, c) :: calls =>
    (c = .dequeue → DequeueAligned e now q) ∧ ∀ r, q.call now c = some r → RunAligned e r.2 calls

instance RunAligned.decidable : (q : CoDelQueueDisc) → (calls : List (Time × Call)) → Decidable (RunAligned e q calls)
  | _, [] => inferInstanceAs (Decidable True)
  | q, (now, c) :: calls =>
    have : Decidable (∀ r, q.call now c = some r → RunAligned e r.2 calls) :=
      match q.call now c with
      | none => isTrue fun _ hr => nomatch hr
      | some r =>
        have := RunAligned.decidable r.2 calls
        decidable_of_iff (RunAligned e r.2 calls) ⟨fun hrest _ hr => Option.some.inj hr ▸ hrest, fun hrest => hrest r rfl⟩
    inferInstanceAs (Decidable ((c = .dequeue → DequeueAligned e now q) ∧ _))

def shift_calls (d : Time) (calls : List (Time × Call)) : List (Time × Call) :=
  calls.map fun c => (c.1 + d, c.2)

variable {q q' : CoDelQueueDisc}

theorem exceeds_shift {max_size : QueueSize} :
    exceeds max_size (packets.map (.shift d)) item = exceeds max_size packets item := by
  unfold exceeds
  rw [List.length_map, map_size_shift]

theorem enqueue_shift {t : Time} {x : QueueDiscItem} (hq : DiscShifted k q q') :
    (q'.enqueue (t + 1024 * k) x).1 = (q.enqueue t x).1 ∧
      DiscShifted k (q.enqueue t x).2.1 (q'.enqueue (t + 1024 * k) x).2.1 ∧
      (q'.enqueue (t + 1024 * k) x).2.2 = (q.enqueue t x).2.2 := by
  obtain ⟨a', max_size', packets', v'⟩ := q'
  obtain ⟨rfl, rfl, rfl, hv⟩ := hq
  simp only [enqueue, exceeds_shift]
  split
  · exact ⟨rfl, ⟨rfl, rfl, rfl, hv⟩, rfl⟩
  · refine ⟨rfl, ⟨rfl, rfl, ?_, hv⟩, rfl⟩
    simp only [List.map_append]
    rfl

/-- The results of a dequeue in two runs whose times differ. -/
def SameDequeue (k : Int) : Option (Option QueueDiscItem × CoDelQueueDisc × List QueueDiscEvent) →
    Option (Option QueueDiscItem × CoDelQueueDisc × List QueueDiscEvent) → Prop
  | some r, some r' =>
    r'.1 = r.1.map (.shift (1024 * k)) ∧ DiscShifted k r.2.1 r'.2.1 ∧
      r'.2.2.map (·.plain) = r.2.2.map (·.plain)
  | none, none => True
  | _, _ => False

theorem finish_shift {served served' : Served} (hq : DiscShifted k q q')
    (h : ServedShifted (1024 * k) (UInt32.ofInt k) served served') :
    SameDequeue k (q.finish now served) (q'.finish (now + 1024 * k) served') := by
  obtain ⟨a', max_size', packets', v'⟩ := q'
  obtain ⟨rfl, rfl, rfl, hv⟩ := hq
  simp only [finish, h.item, h.is_marked]
  cases served.item with
  | none => trivial
  | some item =>
    simp only [Option.map_some]
    split
    · obtain ⟨hitem, hevents⟩ := ce_mark_shift (a := q.attrs) (t := now) (d := 1024 * k) (x := item)
      refine ⟨congrArg some hitem, ⟨rfl, rfl, h.packets, h.control⟩, ?_⟩
      simp only [List.map_append, h.events, hevents]
    · refine ⟨rfl, ⟨rfl, rfl, h.packets, h.control⟩, ?_⟩
      simp only [List.append_nil]
      exact h.events

theorem do_dequeue_shift (hq : DiscShifted k q q') (h : DequeueAligned (UInt32.ofInt k) now q) :
    SameDequeue k (q.do_dequeue now) (q'.do_dequeue (now + 1024 * k)) := by
  obtain ⟨a', max_size', packets', v'⟩ := q'
  obtain ⟨rfl, rfl, rfl, hv⟩ := hq
  obtain ⟨a, max_size, packets, v⟩ := q
  cases packets with
  | nil =>
    refine ⟨rfl, ⟨rfl, rfl, rfl, ?_⟩, rfl⟩
    refine { hv with dropping := rfl, drop_next := ?_ }
    rcases hv.drop_next with hd | ⟨hunset, -⟩
    · exact .inl hd
    · exact .inr ⟨hunset, rfl⟩
  | cons item rest =>
    have hl4s : is_l4s (item.shift (1024 * k)) = is_l4s item := rfl
    simp only [do_dequeue, List.map_cons, hl4s]
    by_cases hearly : (a.use_l4s && is_l4s item) = true
    · rw [if_pos hearly, if_pos hearly]
      obtain ⟨hitem, hevents⟩ := ce_mark_shift (a := a) (t := now) (d := 1024 * k) (x := item)
      exact ⟨congrArg some hitem, ⟨rfl, rfl, rfl, hv⟩, hevents⟩
    · rw [if_neg hearly, if_neg hearly]
      exact finish_shift ⟨rfl, rfl, rfl, hv⟩ (serve_shift hv (Or.resolve_left h hearly))

theorem call_shift {c : Call} (hq : DiscShifted k q q') (h : c = .dequeue → DequeueAligned (UInt32.ofInt k) now q) :
    (∃ r r', q.call now c = some r ∧ q'.call (now + 1024 * k) c = some r' ∧ r'.1.plain = r.1.plain ∧
      DiscShifted k r.2 r'.2) ∨ q.call now c = none ∧ q'.call (now + 1024 * k) c = none := by
  cases c with
  | enqueue item =>
    obtain ⟨haccepted, hdisc, hevents⟩ := enqueue_shift (t := now) (x := item) hq
    refine .inl ⟨_, _, rfl, rfl, ?_, hdisc⟩
    rw [haccepted, hevents]
  | dequeue =>
    have hsame := do_dequeue_shift hq (h rfl)
    unfold call
    cases hr : q.do_dequeue now with
    | none =>
      rw [hr] at hsame
      cases hr' : q'.do_dequeue (now + 1024 * k) with
      | none => exact .inr ⟨rfl, rfl⟩
      | some r' =>
        rw [hr'] at hsame
        exact hsame.elim
    | some r =>
      rw [hr] at hsame
      cases hr' : q'.do_dequeue (now + 1024 * k) with
      | none =>
        rw [hr'] at hsame
        exact hsame.elim
      | some r' =>
        rw [hr'] at hsame
        obtain ⟨hitem, hdisc, hevents⟩ := hsame
        refine .inl ⟨_, _, rfl, rfl, ?_, hdisc⟩
        simp only [Outcome.plain, hitem, hevents, Option.map_map]
        rfl

theorem outcomes_shift {calls : List (Time × Call)} (hq : DiscShifted k q q')
    (h : RunAligned (UInt32.ofInt k) q calls) :
    (outcomes q' (shift_calls (1024 * k) calls)).map (·.map (·.plain)) =
      (outcomes q calls).map (·.map (·.plain)) := by
  induction calls generalizing q q' with
  | nil => rfl
  | cons c calls ih =>
    obtain ⟨now, c⟩ := c
    obtain ⟨hstep, hrest⟩ := h
    change ((q'.call (now + 1024 * k) c).bind _).map _ = ((q.call now c).bind _).map _
    rcases call_shift hq hstep with ⟨r, r', hr, hr', hplain, hdisc⟩ | ⟨hr, hr'⟩
    · rw [hr, hr', Option.bind_some, Option.bind_some]
      have hrec := ih hdisc (hrest r hr)
      simp only [Option.map_map, Function.comp_def, List.map_cons, hplain]
      simp only [← Function.comp_def (List.cons r.1.plain), ← Option.map_map]
      exact congrArg (Option.map (List.cons r.1.plain)) hrec
    · rw [hr, hr']
      rfl

/-- The theorem on runs at shifted times. -/
theorem outcomes_shift_of_aligned {max_size : QueueSize} {calls : List (Time × Call)}
    (h : RunAligned (UInt32.ofInt k) { attrs := a, max_size } calls) :
    (outcomes { attrs := a, max_size } (shift_calls (1024 * k) calls)).map (·.map (·.plain)) =
      (outcomes { attrs := a, max_size } calls).map (·.map (·.plain)) :=
  outcomes_shift ⟨rfl, rfl, rfl, rfl, rfl, rfl, rfl, .inl ⟨rfl, rfl⟩, .inr ⟨rfl, rfl⟩⟩ h

/-- Five packets, and two dequeues once the first has been queued for 10 ms. -/
def backlog : List (Time × Call) :=
  (List.range 5).map (fun uid => (0, Call.enqueue { uid, size := 1500, tos := none })) ++
    [(milliseconds 10, .dequeue), (10500000, .dequeue)]

/-- The queue disc with its default attributes. -/
def fresh : CoDelQueueDisc := { attrs := {}, max_size := ⟨.bytes, 1500000⟩ }

/-- Later by 7 ticks nothing changes. -/
theorem backlog_shift : (outcomes fresh (shift_calls (1024 * 7) backlog)).map (·.map (·.plain)) =
    (outcomes fresh backlog).map (·.map (·.plain)) :=
  outcomes_shift_of_aligned (by decide +kernel)

/-- When the tick count wraps after the second dequeue, the second packet is dropped. -/
theorem backlog_wraps :
    (outcomes fresh (shift_calls (1024 * (2 ^ 32 - 1000 - 9765)) backlog)).map (·.map (·.plain)) ≠
      (outcomes fresh backlog).map (·.map (·.plain)) := by
  decide +kernel

end Ns3.TrafficControl.CoDelQueueDisc
