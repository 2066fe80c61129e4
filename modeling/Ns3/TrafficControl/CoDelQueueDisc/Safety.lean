import Ns3.Foundation.Reachable
import Ns3.TrafficControl.CoDelQueueDisc.Shift

namespace Ns3.TrafficControl.CoDelQueueDisc

open Transition

variable {a : Attributes} {now : Time} {packets : List QueueDiscItem} {v : Control} {item : QueueDiscItem}
  {q : CoDelQueueDisc} {max_size : QueueSize}

/-- The packet that a report of a drop is about. -/
def dropped : QueueDiscEvent → Option QueueDiscItem
  | .drop_after_dequeue item _ => some item
  | _ => none

/-- What was taken out of a queue is what was dropped, each packet once, and then what is served,
up to a mark; nothing is served only where nothing is left. -/
def Accounts (queue : List QueueDiscItem) (served : Option QueueDiscItem) (rest : List QueueDiscItem)
    (events : List QueueDiscEvent) : Prop :=
  match served with
  | some item => ∃ p, Marks p item ∧ queue = events.filterMap dropped ++ p :: rest
  | none => queue = events.filterMap dropped ∧ rest = []

/-- `DoDequeue` returns, with all packets accounted for. -/
def Safe (q : CoDelQueueDisc) (now : Time) : Prop :=
  ∃ r q' events, q.do_dequeue now = some (r, q', events) ∧ Accounts q.packets r q'.packets events

theorem Accounts.keep : Accounts (item :: packets) item packets [] := ⟨item, Marks.refl item, rfl⟩

theorem Accounts.marked {marked : QueueDiscItem} {reason : String} (h : Marks item marked) :
    Accounts (item :: packets) marked packets [.mark marked reason] :=
  ⟨item, h, rfl⟩

theorem Accounts.drop {queue rest : List QueueDiscItem} {served : Option QueueDiscItem}
    {events : List QueueDiscEvent} {reason : String} (h : Accounts queue served rest events) :
    Accounts (item :: queue) served rest (.drop_after_dequeue item reason :: events) := by
  cases served with
  | none => exact ⟨congrArg (item :: ·) h.1, h.2⟩
  | some x =>
    obtain ⟨p, hmarks, hqueue⟩ := h
    exact ⟨p, hmarks, congrArg (item :: ·) hqueue⟩

theorem drop_loop_accounts :
    Accounts (item :: packets) (drop_loop a now packets v item).item (drop_loop a now packets v item).packets
      (drop_loop a now packets v item).events := by
  induction packets generalizing v item with
  | nil =>
    unfold drop_loop
    split
    · dsimp only
      split
      next hmark => exact Accounts.marked (Marks.of_target hmark)
      next => exact ⟨rfl, rfl⟩
    · exact Accounts.keep
  | cons next rest ih =>
    unfold drop_loop
    split
    · dsimp only
      split
      next hmark => exact Accounts.marked (Marks.of_target hmark)
      next =>
        split
        · exact ih.drop
        · exact Accounts.keep.drop
    · exact Accounts.keep

theorem first_drop_accounts :
    Accounts (item :: packets) (first_drop a now packets v item).item (first_drop a now packets v item).packets
      (first_drop a now packets v item).events := by
  unfold first_drop
  split
  next hmark => exact Accounts.marked (Marks.of_target hmark)
  next =>
    cases packets with
    | nil => exact ⟨rfl, rfl⟩
    | cons next rest => exact Accounts.keep.drop

theorem serve_accounts (t : Time) (l : List QueueDiscItem) (v : Control) (x : QueueDiscItem) :
    Accounts (x :: l) (serve a t l v x).item (serve a t l v x).packets (serve a t l v x).events := by
  unfold serve
  dsimp only
  split
  · split
    · exact drop_loop_accounts
    · exact Accounts.keep
  · split
    · exact first_drop_accounts
    · exact Accounts.keep

theorem ce_mark_drops : (ce_mark a now item).2.filterMap dropped = [] := by
  unfold ce_mark
  split <;> rfl

theorem safe_of_some (h : (q.do_dequeue now).isSome) : Safe q now := by
  obtain ⟨⟨r, q', events⟩, hsome⟩ := Option.isSome_iff_exists.mp h
  refine ⟨r, q', events, hsome, ?_⟩
  unfold do_dequeue at hsome
  cases hpackets : q.packets with
  | nil =>
    rw [hpackets] at hsome
    cases hsome
    exact ⟨rfl, rfl⟩
  | cons item rest =>
    rw [hpackets] at hsome
    dsimp only at hsome
    split at hsome
    · cases hsome
      refine ⟨item, ce_mark_marks, ?_⟩
      rw [ce_mark_drops]
      rfl
    · obtain ⟨x, hitem, heq⟩ := Option.map_eq_some_iff.mp hsome
      have haccounts := serve_accounts (a := q.attrs) now rest q.control item
      rw [hitem] at haccounts
      obtain ⟨p, hmarks, hqueue⟩ := haccounts
      cases heq
      refine ⟨p, hmarks.trans ?_, ?_⟩
      · split
        · exact ce_mark_marks
        · exact Marks.refl x
      · rw [hqueue, List.filterMap_append]
        split
        · rw [ce_mark_drops, List.append_nil]
        · rw [List.filterMap_nil, List.append_nil]

/-- A call at a time that is not before the last one. -/
def step (s : Time × CoDelQueueDisc) (e : Time × Call) : Option (Time × CoDelQueueDisc) :=
  if s.1 ≤ e.1 then (s.2.call e.1 e.2).map fun r => (e.1, r.2) else none

/-- The states of a queue disc with given attributes and limit, with the times of the last calls. -/
def Reaches (a : Attributes) (max_size : QueueSize) : Time × CoDelQueueDisc → Prop :=
  Reachable (· = (0, { attrs := a, max_size })) step Always

theorem call_attrs {t : Time} {c : Call} {r : Outcome × CoDelQueueDisc} (h : q.call t c = some r) :
    r.2.attrs = q.attrs ∧ r.2.max_size = q.max_size := by
  cases c with
  | enqueue x =>
    cases h
    dsimp only
    unfold enqueue
    split <;> exact ⟨rfl, rfl⟩
  | dequeue =>
    obtain ⟨⟨r, q', events⟩, hsome, rfl⟩ := Option.map_eq_some_iff.mp h
    obtain ⟨hattrs, hmax, -⟩ := do_dequeue_from_front hsome
    exact ⟨hattrs, hmax⟩

/-- The attributes never change, and a queue into which nothing fits stays empty. -/
theorem reaches_spec {s : Time × CoDelQueueDisc} (h : Reaches a max_size s) :
    s.2.attrs = a ∧ s.2.max_size = max_size ∧
      ((∀ item, exceeds max_size [] item = true) → s.2.packets = []) := by
  refine Reachable.invariant
    (I := fun s : Time × CoDelQueueDisc => s.2.attrs = a ∧ s.2.max_size = max_size ∧
      ((∀ item, exceeds max_size [] item = true) → s.2.packets = [])) ?_ ?_ (h : Reachable _ _ _ s)
  · rintro s rfl
    exact ⟨rfl, rfl, fun _ => rfl⟩
  · rintro ⟨t, q⟩ ⟨t', c⟩ s' ⟨hattrs, hmax, hempty⟩ - hstep
    dsimp only at hattrs hmax hempty
    unfold step at hstep
    split at hstep
    · obtain ⟨r, hcall, rfl⟩ := Option.map_eq_some_iff.mp hstep
      obtain ⟨hattrs', hmax'⟩ := call_attrs hcall
      refine ⟨hattrs'.trans hattrs, hmax'.trans hmax, fun hfull => ?_⟩
      have hnil := hempty hfull
      cases c with
      | enqueue x =>
        cases hcall
        dsimp only
        rw [enqueue, hmax, hnil, if_pos (hfull x)]
        exact hnil
      | dequeue =>
        obtain ⟨⟨r, q', events⟩, hsome, rfl⟩ := Option.map_eq_some_iff.mp hcall
        rw [do_dequeue, hnil] at hsome
        cases hsome
        rfl
    · cases hstep

def ticks (n : ℕ) : Time := 1024 * (n : ℤ)

theorem time2_codel_ticks (n : ℕ) : time2_codel (ticks n) = UInt32.ofNat n := by
  rw [time2_codel, ticks, Int.mul_ediv_cancel_left _ (by norm_num)]
  apply UInt32.toNat_inj.mp
  simp only [UInt32.ofInt, UInt32.toNat_ofNat']
  omega

theorem ticks_sub {m n : ℕ} (h : m ≤ n) : ticks n - ticks m = ticks (n - m) := by
  rw [ticks, ticks, ticks, Nat.cast_sub h]
  ring

/-- A packet alone in the queue, above the target: the first time only the time to drop is set. -/
theorem do_dequeue_alone (t : Time) {x : QueueDiscItem} (hmin : q.attrs.min_bytes = 0) (hq : q.packets = [x])
    (htos : x.tos = none) (habove : time2_codel (t - x.time_stamp) = time2_codel q.attrs.target)
    (hdropping : q.control.dropping = false) (hfirst : q.control.first_above_time = 0) :
    ∃ r events, q.do_dequeue t = some (r, { q with
      packets := []
      control := { q.control with
        first_above_time := codel_get_time t + time2_codel q.attrs.interval } }, events) := by
  have hl4s : is_l4s x = false := by rw [is_l4s, htos, Option.any_none]
  have hok : ok_to_drop q.attrs t [] q.control (some x) =
      (false, { q.control with first_above_time := codel_get_time t + time2_codel q.attrs.interval }) := by
    rw [ok_to_drop, habove, if_neg (by simp [codel_time_before, hmin]), if_pos hfirst]
  rw [do_dequeue, hq]
  dsimp only
  rw [hl4s, Bool.and_false, if_neg Bool.false_ne_true, serve, hok]
  dsimp only
  rw [hdropping, if_neg Bool.false_ne_true, if_neg Bool.false_ne_true]
  exact ⟨_, _, rfl⟩

theorem do_dequeue_dry {x : QueueDiscItem} (hmin : q.attrs.min_bytes = 0) (hq : q.packets = [x])
    (htos : x.tos = none) (habove : time2_codel (now - x.time_stamp) = time2_codel q.attrs.target)
    (hdropping : q.control.dropping = false) (hfirst : q.control.first_above_time ≠ 0)
    (hdue : codel_time_after (codel_get_time now) q.control.first_above_time = true) :
    q.do_dequeue now = none := by
  have hl4s : is_l4s x = false := by rw [is_l4s, htos, Option.any_none]
  have hmark : target_mark q.attrs x = none := by
    rw [target_mark, QueueDiscItem.mark, htos]
    split <;> rfl
  have hok : ok_to_drop q.attrs now [] q.control (some x) = (true, q.control) := by
    rw [ok_to_drop, habove, if_neg (by simp [codel_time_before, hmin]), if_neg hfirst, hdue]
  rw [do_dequeue, hq]
  dsimp only
  rw [hl4s, Bool.and_false, if_neg Bool.false_ne_true, serve, hok]
  dsimp only
  rw [hdropping, if_neg Bool.false_ne_true, if_pos rfl, first_drop, hmark]
  rfl

theorem Reaches.enqueue {t : Time} {x : QueueDiscItem} (h : Reaches a max_size (t, q)) (now : Time)
    (ht : t ≤ now) (hempty : q.packets = []) (hfits : exceeds max_size [] x = false) :
    Reaches a max_size (now, { q with packets := [{ x with time_stamp := now }] }) := by
  obtain ⟨-, hmax, -⟩ := reaches_spec h
  refine Reachable.step (e := (now, .enqueue x)) h trivial ?_
  rw [step, if_pos ht, call, CoDelQueueDisc.enqueue, hempty, show q.max_size = max_size from hmax, hfits]
  rfl

/-- Without a minimum of bytes two packets that come alone are enough, whatever the interval and the
target: the first sets the time to drop to one tick, and the second is dropped after that. -/
theorem dry_of_no_minimum {m : QueueSize} (hmin : a.min_bytes = 0) {x : QueueDiscItem} (hfits : exceeds m [] x = false) :
    ∃ s, Reaches a m s ∧ ∃ now ≥ s.1, s.2.do_dequeue now = none := by
  have hfits' : exceeds m [] { x with tos := none } = false := hfits
  generalize hT : (time2_codel a.target).toNat = T
  have hTlt : T < 2 ^ 32 := by
    rw [← hT]
    exact (time2_codel a.target).toNat_lt
  have habove (m : ℕ) (hle : T ≤ m) : time2_codel (ticks m - ticks (m - T)) = time2_codel a.target := by
    rw [ticks_sub (by omega), time2_codel_ticks, show m - (m - T) = T by omega, ← hT, UInt32.ofNat_toNat]
  generalize hn : (1 - time2_codel a.interval).toNat = n
  have hnlt : n < 2 ^ 32 := by
    rw [← hn]
    exact (1 - time2_codel a.interval).toNat_lt
  have hset : codel_get_time (ticks (n + 2 ^ 32)) + time2_codel a.interval = 1 := by
    have hnow : codel_get_time (ticks (n + 2 ^ 32)) = 1 - time2_codel a.interval := by
      change time2_codel (ticks (n + 2 ^ 32)) = _
      rw [time2_codel_ticks, ← hn, UInt32.ofNat_add, UInt32.ofNat_toNat]
      exact UInt32.add_zero _
    rw [hnow, UInt32.sub_add_cancel]
  have hmono {m k : ℕ} (hle : m ≤ k) : ticks m ≤ ticks k := by
    unfold ticks
    exact Int.mul_le_mul_of_nonneg_left (by exact_mod_cast hle) (by norm_num)
  have hstart : Reaches a m (0, { attrs := a, max_size := m }) := Reachable.init rfl
  have hfirst := hstart.enqueue (ticks (n + 2 ^ 32 - T)) (hmono (Nat.zero_le _)) rfl hfits'
  obtain ⟨r, events, hserved⟩ := do_dequeue_alone (ticks (n + 2 ^ 32))
    (q := { attrs := a, max_size := m, packets := [{ x with tos := none, time_stamp := ticks (n + 2 ^ 32 - T) }] })
    hmin rfl rfl (habove _ (by omega)) rfl rfl
  have hserved' := Reachable.step (e := (ticks (n + 2 ^ 32), .dequeue)) hfirst trivial (by
    rw [step, if_pos (hmono (Nat.sub_le _ _)), call, hserved]
    rfl)
  have hsecond := Reaches.enqueue hserved' (ticks (3 * 2 ^ 32 + 2 - T)) (hmono (by omega)) rfl hfits'
  refine ⟨_, hsecond, ticks (3 * 2 ^ 32 + 2), hmono (Nat.sub_le _ _), ?_⟩
  dsimp only
  refine do_dequeue_dry hmin rfl rfl (habove _ (by omega)) rfl ?_ ?_
  · dsimp only
    rw [hset]
    decide
  · have hnow : codel_get_time (ticks (3 * 2 ^ 32 + 2)) = 2 := by
      change time2_codel (ticks (3 * 2 ^ 32 + 2)) = 2
      rw [time2_codel_ticks]
      decide
    dsimp only
    rw [hset, hnow]
    decide

/-- Every dequeue of every run is safe just where the queue has a minimum of bytes, or no packet
ever fits into it. -/
theorem safe_iff (a : Attributes) (max_size : QueueSize) :
    (∀ s, Reaches a max_size s → ∀ now ≥ s.1, Safe s.2 now) ↔
      a.min_bytes ≠ 0 ∨ ∀ item, exceeds max_size [] item = true := by
  constructor
  · intro hsafe
    by_contra hno
    obtain ⟨hmin, hfits⟩ := not_or.mp hno
    rw [not_not] at hmin
    obtain ⟨x, hx⟩ := not_forall.mp hfits
    obtain ⟨s, hs, now, hnow, hnone⟩ := dry_of_no_minimum hmin (Bool.not_eq_true _ ▸ hx)
    obtain ⟨r, q', events, hsome, -⟩ := hsafe s hs now hnow
    rw [hnone] at hsome
    cases hsome
  · intro hcond s hs now _
    obtain ⟨hattrs, -, hempty⟩ := reaches_spec hs
    apply safe_of_some
    rcases hcond with hmin | hfull
    · exact do_dequeue_isSome (hattrs ▸ hmin)
    · rw [do_dequeue, hempty hfull]
      rfl

/-- With a minimum of zero bytes and room for a thousand packets, a dequeue runs dry. -/
theorem unsafe_without_minimum :
    ¬ ∀ s, Reaches { min_bytes := 0 } ⟨.packets, 1000⟩ s → ∀ now ≥ s.1, Safe s.2 now := by
  intro hsafe
  obtain ⟨s, hs, now, hnow, hnone⟩ := dry_of_no_minimum (a := { min_bytes := 0 }) (m := ⟨.packets, 1000⟩)
    (x := { uid := 0, size := 1500, tos := none }) rfl (by decide)
  obtain ⟨r, q', events, hsome, -⟩ := hsafe s hs now hnow
  rw [hnone] at hsome
  cases hsome

example : outcomes { attrs := { min_bytes := 0 }, max_size := ⟨.packets, 1000⟩ }
    [(0, .enqueue { uid := 0, size := 1500, tos := none }), (milliseconds 10, .dequeue),
      (milliseconds 110, .enqueue { uid := 1, size := 1500, tos := none }), (milliseconds 120, .dequeue)] = none := by
  decide +kernel

end Ns3.TrafficControl.CoDelQueueDisc
