import Ns3.Foundation.Reachable
import Ns3.TrafficControl.CobaltQueueDisc
import Ns3.TrafficControl.FqCoDelQueueDisc

namespace Ns3.TrafficControl

open Transition

/-- What the classes of queue discs override. The packets of `do_enqueue` are held by the base class
and count too; `do_peek` is `none` where it is not overridden. -/
structure Overrides (σ : Type) where
  do_enqueue : List QueueDiscItem → σ → Time → QueueDiscItem → Option (σ × List QueueDiscEvent)
  do_dequeue : σ → Time → Option (Option QueueDiscItem × σ × List QueueDiscEvent)
  do_peek : Option (σ → Option QueueDiscItem) := none

/-- The base class: `m_requeued`, with `m_peeked` as a flag of the packet. -/
structure QueueDisc (σ : Type) where
  disc : σ
  requeued : Option (QueueDiscItem × Bool) := none

namespace Overrides

variable {σ : Type} {o : Overrides σ} {q : QueueDisc σ} {now : Time}

/-- `Enqueue`. A packet that failed to be transmitted does not count any more. -/
def enqueue (o : Overrides σ) (q : QueueDisc σ) (now : Time) (item : QueueDiscItem) :
    Option (QueueDisc σ × List QueueDiscEvent) :=
  let held := (q.requeued.toList.filter (·.2)).map (·.1)
  (o.do_enqueue held q.disc now item).map fun r => ({ q with disc := r.1 }, r.2)

def dequeue (o : Overrides σ) (q : QueueDisc σ) (now : Time) :
    Option (Option QueueDiscItem × QueueDisc σ × List QueueDiscEvent) :=
  match q.requeued with
  | some (item, _) => some (some item, { q with requeued := none }, [])
  | none => (o.do_dequeue q.disc now).map fun r => (r.1, { q with disc := r.2.1 }, r.2.2)

/-- `Peek`; the base class dequeues a packet and keeps it. -/
def peek (o : Overrides σ) (q : QueueDisc σ) (now : Time) :
    Option (Option QueueDiscItem × QueueDisc σ × List QueueDiscEvent) :=
  match o.do_peek with
  | some look => some (look q.disc, q, [])
  | none =>
    match q.requeued with
    | some (item, _) => some (some item, q, [])
    | none => (o.dequeue q now).map fun r => (r.1, { r.2.1 with requeued := r.1.map (·, true) }, r.2.2)

/-- `Requeue`, after the device did not take the packet. -/
def requeue (q : QueueDisc σ) (item : QueueDiscItem) : QueueDisc σ := { q with requeued := some (item, false) }

/-- The next `Dequeue` returns the packet that `Peek` returns, or both return none. -/
def Predicts (o : Overrides σ) (q : QueueDisc σ) (now : Time) : Prop :=
  ∀ r q₁ events, o.peek q now = some (r, q₁, events) →
    ∃ r' q₂ events', o.dequeue q₁ now = some (r', q₂, events') ∧ r'.map (·.uid) = r.map (·.uid)

/-- A `Peek` before a `Dequeue` makes no difference to what is returned, reported and left. -/
def Transparent (o : Overrides σ) : Prop :=
  ∀ q now, ((o.peek q now).bind fun p => (o.dequeue p.2.1 now).map fun r => (r.1, r.2.1, p.2.2 ++ r.2.2)) =
    o.dequeue q now

/-- A second `DoDequeue` after one that finds nothing does nothing. -/
def DryOnce (o : Overrides σ) : Prop :=
  ∀ s now s' events, o.do_dequeue s now = some (none, s', events) → o.do_dequeue s' now = some (none, s', [])

theorem dequeue_of_requeued {x : QueueDiscItem × Bool} (h : q.requeued = some x) :
    o.dequeue q now = some (some x.1, { q with requeued := none }, []) := by
  rw [dequeue, h]

theorem dequeue_of_none (h : q.requeued = none) :
    o.dequeue q now = (o.do_dequeue q.disc now).map fun r => (r.1, { q with disc := r.2.1 }, r.2.2) := by
  rw [dequeue, h]

theorem peek_of_requeued (hpeek : o.do_peek = none) {x : QueueDiscItem × Bool} (h : q.requeued = some x) :
    o.peek q now = some (some x.1, q, []) := by
  rw [peek, hpeek, h]

theorem peek_of_none (hpeek : o.do_peek = none) (h : q.requeued = none) :
    o.peek q now = (o.dequeue q now).map fun r => (r.1, { r.2.1 with requeued := r.1.map (·, true) }, r.2.2) := by
  rw [peek, hpeek, h]

theorem dequeue_after_peek (hdry : o.DryOnce) (hrequeued : q.requeued = none) {d : Option QueueDiscItem × σ × List QueueDiscEvent}
    (hd : o.do_dequeue q.disc now = some d) :
    o.dequeue { disc := d.2.1, requeued := d.1.map (·, true) } now = some (d.1, { q with disc := d.2.1 }, []) := by
  obtain ⟨served, s', events⟩ := d
  cases served with
  | some item => rw [dequeue_of_requeued rfl, hrequeued]
  | none =>
    rw [dequeue_of_none rfl, hdry q.disc now s' events hd, hrequeued]
    rfl

theorem predicts_of_base (hpeek : o.do_peek = none) (hdry : o.DryOnce) (q : QueueDisc σ) (now : Time) :
    o.Predicts q now := by
  intro r q₁ events hr
  cases hrequeued : q.requeued with
  | some x =>
    rw [peek_of_requeued hpeek hrequeued] at hr
    cases hr
    exact ⟨some x.1, _, [], dequeue_of_requeued hrequeued, rfl⟩
  | none =>
    rw [peek_of_none hpeek hrequeued, dequeue_of_none hrequeued] at hr
    obtain ⟨p, hp, heq⟩ := Option.map_eq_some_iff.mp hr
    obtain ⟨d, hd, rfl⟩ := Option.map_eq_some_iff.mp hp
    cases heq
    exact ⟨d.1, _, [], dequeue_after_peek hdry hrequeued hd, rfl⟩

theorem transparent_of_base (hpeek : o.do_peek = none) (hdry : o.DryOnce) : o.Transparent := by
  intro q now
  cases hrequeued : q.requeued with
  | some x =>
    rw [peek_of_requeued hpeek hrequeued, Option.bind_some, dequeue_of_requeued hrequeued]
    rfl
  | none =>
    rw [peek_of_none hpeek hrequeued, dequeue_of_none hrequeued]
    cases hd : o.do_dequeue q.disc now with
    | none => rfl
    | some d =>
      rw [Option.map_some, Option.map_some, Option.bind_some]
      dsimp only
      rw [dequeue_after_peek hdry hrequeued hd, Option.map_some, List.append_nil]

theorem transparent_of_look {look : σ → Option QueueDiscItem} (hpeek : o.do_peek = some look) : o.Transparent := by
  intro q now
  rw [peek, hpeek]
  dsimp only [Option.bind_some]
  simp

/-- A call on a queue disc. -/
inductive Op
  | enqueue (item : QueueDiscItem)
  | dequeue
  | peek
  | requeue (item : QueueDiscItem)

/-- What is seen of a run: packets that are dropped or marked, and what `Dequeue` returns. -/
inductive Entry
  | event (event : QueueDiscEvent)
  | returned (item : Option QueueDiscItem)

def call (o : Overrides σ) (q : QueueDisc σ) (now : Time) : Op → Option (QueueDisc σ × List Entry)
  | .enqueue item => (o.enqueue q now item).map fun r => (r.1, r.2.map .event)
  | .dequeue => (o.dequeue q now).map fun r => (r.2.1, r.2.2.map .event ++ [.returned r.1])
  | .peek => (o.peek q now).map fun r => (r.2.1, r.2.2.map .event)
  | .requeue item => some (requeue q item, [])

/-- The entries of a sequence of calls. `none` is a program that stops. -/
def log (o : Overrides σ) (q : QueueDisc σ) : List (Time × Op) → Option (List Entry)
  | [] => some []
  | (now, c) :: calls => (o.call q now c).bind fun r => (log o r.1 calls).map (r.2 ++ ·)

/-- Calls of `Peek` are inserted, each just before a `Dequeue` at the same time. -/
inductive Inserted : List (Time × Op) → List (Time × Op) → Prop
  | nil : Inserted [] []
  | cons {calls calls' : List (Time × Op)} (c : Time × Op) (h : Inserted calls calls') : Inserted (c :: calls) (c :: calls')
  | peek {calls calls' : List (Time × Op)} (now : Time) (h : Inserted calls calls') :
      Inserted ((now, .dequeue) :: calls) ((now, .peek) :: (now, .dequeue) :: calls')

/-- By induction on the calls: one inserted `Peek` is absorbed by the `Dequeue` behind it. -/
theorem log_inserted (ho : o.Transparent) {calls calls' : List (Time × Op)} (h : Inserted calls calls') :
    o.log q calls' = o.log q calls := by
  induction h generalizing q with
  | nil => rfl
  | cons c _ ih =>
    obtain ⟨now, c⟩ := c
    simp only [log, ih]
  | peek now _ ih =>
    simp only [log, call, ih]
    rw [← ho q now]
    cases o.peek q now with
    | none => rfl
    | some p =>
      cases hd : o.dequeue p.2.1 now with
      | none => simp [hd]
      | some d => simp [hd, Function.comp_def]

end Overrides

namespace CoDelQueueDisc

open Overrides

def overrides : Overrides CoDelQueueDisc where
  do_enqueue held q now item :=
    some <|
      if exceeds q.max_size (held ++ q.packets) item then (q, [.drop_before_enqueue item overlimit_drop])
      else ({ q with packets := q.packets ++ [{ item with time_stamp := now }] }, [])
  do_dequeue := do_dequeue

theorem dryOnce : overrides.DryOnce := by
  intro q now q' events h
  obtain ⟨-, -, hfront, hempty⟩ := do_dequeue_from_front h
  have hnil := hempty rfl
  change q.do_dequeue now = _ at h
  rw [do_dequeue, hnil] at h
  cases h
  rfl

end CoDelQueueDisc

namespace FqCoDelQueueDisc

open Overrides

/-- What `FqCoDelQueueDisc` overrides, with loops of at most `n` rounds. -/
def overrides (n : ℕ) : Overrides FqCoDelQueueDisc where
  do_enqueue held q now item :=
    (enqueue { q with requeued := held.head? } now item).map fun r => ({ r.2.1 with requeued := none }, r.2.2)
  do_dequeue := do_dequeue n

theorem lists_of_do_dequeue_none {n : ℕ} {q q' : FqCoDelQueueDisc} {now : Time} {events : List QueueDiscEvent}
    (h : do_dequeue n q now = some (none, q', events)) : 2 ≤ n ∧ q'.new_flows = [] ∧ q'.old_flows = [] := by
  induction n generalizing q q' events with
  | zero => cases h
  | succ n ih =>
    rw [do_dequeue] at h
    obtain ⟨q₁, hfind, hrest⟩ := Option.bind_eq_some_iff.mp h
    dsimp only at hrest
    split at hrest
    next hhead =>
      cases hrest
      obtain ⟨hnew, hold⟩ := List.append_eq_nil_iff.mp (List.head?_eq_none_iff.mp hhead)
      refine ⟨?_, hnew, hold⟩
      unfold find_flow at hfind
      dsimp only at hfind
      split at hfind
      · cases n with
        | zero => cases hfind
        | succ n => omega
      next hne =>
        cases hfind
        exact absurd (List.isEmpty_iff.mpr hnew) hne
    next i hhead =>
      obtain ⟨flow, -, hflow⟩ := Option.bind_eq_some_iff.mp hrest
      obtain ⟨⟨served, d, child_events⟩, -, hserved⟩ := Option.bind_eq_some_iff.mp hflow
      cases served with
      | some item => cases hserved
      | none =>
        obtain ⟨⟨r, q'', events'⟩, hretired, heq⟩ := Option.map_eq_some_iff.mp hserved
        cases heq
        obtain ⟨hn, hlists⟩ := ih hretired
        exact ⟨by omega, hlists⟩

theorem dryOnce (n : ℕ) : (overrides n).DryOnce := by
  intro q now q' events h
  obtain ⟨hn, hnew, hold⟩ := lists_of_do_dequeue_none h
  obtain ⟨m, rfl⟩ := Nat.exists_eq_add_of_le' hn
  change do_dequeue (m + 1 + 1) q' now = _
  have hnone : q'.next_new q'.new_flows = q' := by
    rw [hnew, next_new, ← hnew]
  have hfind : find_flow (m + 1) q' = some q' := by
    rw [find_flow, hnone, hnew]
    dsimp only [List.isEmpty_nil, if_true]
    rw [next_old, hold]
    rfl
  rw [do_dequeue, hfind, Option.bind_some, hnew, hold]
  rfl

end FqCoDelQueueDisc

namespace CobaltQueueDisc

open Overrides

variable {D : Type}

theorem mark_if_uid {wanted : Bool} {reason : String} {item : QueueDiscItem} {m : QueueDiscItem × List QueueDiscEvent}
    (h : mark_if wanted reason item = some m) : m.1.uid = item.uid := by
  unfold mark_if at h
  split at h
  · obtain ⟨marked, hmark, rfl⟩ := Option.map_eq_some_iff.mp h
    rw [QueueDiscItem.mark_eq hmark]
  · cases h

theorem getD_mark_if_uid (wanted : Bool) (reason : String) (item : QueueDiscItem) :
    ((mark_if wanted reason item).getD (item, [])).1.uid = item.uid := by
  cases h : mark_if wanted reason item with
  | none => rfl
  | some m => exact mark_if_uid h

variable [Add D] [Min D] [Zero D] [One D] [LT D] [DecidableEq D] [DecidableLT D]
  {a : Attributes D} {v : Control D} {now : Time}

theorem should_drop_uid (item : QueueDiscItem) : (cobalt_should_drop a now item v).item.uid = item.uid := by
  unfold cobalt_should_drop
  dsimp only
  split
  · exact getD_mark_if_uid _ _ item
  · split
    · split
      next m hm => exact (getD_mark_if_uid _ _ m.1).trans (mark_if_uid hm)
      next => exact getD_mark_if_uid _ _ item
    · split <;> exact getD_mark_if_uid _ _ item
variable [Sub D] [Max D]

/-- What `CobaltQueueDisc` overrides: also `DoPeek`. -/
def overrides : Overrides (CobaltQueueDisc D) where
  do_enqueue _ q now item :=
    let r := q.do_enqueue now item
    some (r.2.1, r.2.2)
  do_dequeue q now := some (q.do_dequeue now)
  do_peek := some do_peek

theorem dequeue_loop_spec (packets : List QueueDiscItem) (v : Control D) :
    (dequeue_loop a now packets v).2.1 <:+ packets ∧
      ∀ x, (dequeue_loop a now packets v).1 = some x → ∃ p ∈ packets, x.uid = p.uid := by
  induction packets generalizing v with
  | nil => exact ⟨List.suffix_rfl, nofun⟩
  | cons item rest ih =>
    rw [dequeue_loop]
    dsimp only
    split
    · obtain ⟨hsuffix, hreturned⟩ := ih (cobalt_should_drop a now item v).control
      refine ⟨hsuffix.trans (List.suffix_cons item rest), fun x hx => ?_⟩
      obtain ⟨p, hp, huid⟩ := hreturned x hx
      exact ⟨p, List.mem_cons_of_mem item hp, huid⟩
    · refine ⟨List.suffix_cons item rest, fun x hx => ?_⟩
      cases hx
      exact ⟨item, List.mem_cons_self, should_drop_uid item⟩

def uids (q : QueueDisc (CobaltQueueDisc D)) : List Nat :=
  (q.requeued.toList.map (·.1) ++ q.disc.packets).map (·.uid)

/-- A call at a time that is not before the last one, with a packet that is not in the queue disc. -/
def base_step (s : Time × QueueDisc (CobaltQueueDisc D)) (e : Time × Op) :
    Option (Time × QueueDisc (CobaltQueueDisc D)) :=
  if s.1 ≤ e.1 then (overrides.call s.2 e.1 e.2).map fun r => (e.1, r.1) else none

/-- A packet that is put in is not in the queue disc. -/
def NewPacket (s : Time × QueueDisc (CobaltQueueDisc D)) (e : Time × Op) : Prop :=
  match e.2 with
  | .enqueue item | .requeue item => item.uid ∉ uids s.2
  | .dequeue | .peek => True

instance (s : Time × QueueDisc (CobaltQueueDisc D)) (e : Time × Op) : Decidable (NewPacket s e) := by
  unfold NewPacket
  split <;> infer_instance

def Empty (s : Time × QueueDisc (CobaltQueueDisc D)) : Prop :=
  s.2.disc.packets = [] ∧ s.2.requeued = none ∧ ∃ p_drop uv, s.2.disc.control = initialize_params p_drop uv

/-- The packet at the head of the queue is not dropped, and none is kept aside. -/
def PassesHead (q : QueueDisc (CobaltQueueDisc D)) (now : Time) : Prop :=
  q.requeued = none ∧
    ∀ item ∈ q.disc.packets.head?, (cobalt_should_drop q.disc.attrs now item q.disc.control).drop = false

theorem nodup_of_call {q : QueueDisc (CobaltQueueDisc D)} {t t' : Time} {c : Op} {r : QueueDisc (CobaltQueueDisc D) × List Entry}
    (hnodup : (uids q).Nodup) (hnew : NewPacket (t, q) (t', c)) (hcall : overrides.call q t' c = some r) :
    (uids r.1).Nodup := by
  cases c with
  | enqueue x =>
    cases hcall
    change (uids { q with disc := (q.disc.do_enqueue t' x).2.1 }).Nodup
    unfold do_enqueue
    split
    · exact hnodup
    · rw [uids] at hnodup ⊢
      dsimp only
      rw [← List.append_assoc, List.map_append, List.map_singleton]
      exact hnodup.append (List.nodup_singleton _) (List.disjoint_singleton.mpr hnew)
  | dequeue =>
    obtain ⟨d, hdequeue, rfl⟩ := Option.map_eq_some_iff.mp hcall
    cases hrequeued : q.requeued with
    | some x =>
      rw [dequeue_of_requeued hrequeued] at hdequeue
      cases hdequeue
      rw [uids, hrequeued] at hnodup
      exact (List.nodup_cons.mp hnodup).2
    | none =>
      rw [dequeue_of_none hrequeued] at hdequeue
      cases hdequeue
      rw [uids, hrequeued] at hnodup
      rw [uids]
      dsimp only
      rw [hrequeued]
      exact hnodup.sublist ((dequeue_loop_spec q.disc.packets q.disc.control).1.sublist.map _)
  | peek =>
    cases hcall
    exact hnodup
  | requeue x =>
    cases hcall
    rw [uids] at hnodup
    have hpackets : (q.disc.packets.map (·.uid)).Nodup :=
      hnodup.sublist ((List.sublist_append_right _ _).map _)
    refine List.nodup_cons.mpr ⟨fun hmem => hnew ?_, hpackets⟩
    rw [uids, List.map_append]
    exact List.mem_append_right _ hmem

theorem nodup_of_reachable {s : Time × QueueDisc (CobaltQueueDisc D)} (h : Reachable Empty base_step NewPacket s) :
    (uids s.2).Nodup := by
  refine h.invariant (I := fun s => (uids s.2).Nodup) ?_ ?_
  · rintro ⟨t, q⟩ ⟨hpackets, hrequeued, -⟩
    dsimp only at hpackets hrequeued ⊢
    rw [uids, hpackets, hrequeued]
    exact List.nodup_nil
  · rintro ⟨t, q⟩ ⟨t', c⟩ s' hnodup hnew hstep
    unfold base_step at hstep
    split at hstep
    · obtain ⟨r, hcall, rfl⟩ := Option.map_eq_some_iff.mp hstep
      exact nodup_of_call hnodup hnew hcall
    · cases hstep

/-- `Peek` predicts just where the head of the queue passes and no packet is kept aside. -/
theorem predicts_iff {q : QueueDisc (CobaltQueueDisc D)} (hnodup : (uids q).Nodup) :
    overrides.Predicts q now ↔ PassesHead q now := by
  have hpeek : overrides.peek q now = some (q.disc.packets.head?, q, []) := rfl
  unfold Predicts PassesHead
  rw [hpeek]
  constructor
  · intro hpredicts
    obtain ⟨r', q₂, events', hdequeue, huid⟩ := hpredicts _ _ _ rfl
    cases hrequeued : q.requeued with
    | some x =>
      -- the packet kept aside is returned, and it is not in the queue
      rw [dequeue_of_requeued hrequeued] at hdequeue
      cases hdequeue
      obtain ⟨p, hp, hpuid⟩ := Option.map_eq_some_iff.mp huid.symm
      rw [uids, hrequeued] at hnodup
      have hmem := List.mem_map_of_mem (f := (·.uid)) (List.mem_of_mem_head? hp)
      exact absurd (hpuid ▸ hmem) (List.nodup_cons.mp hnodup).1
    | none =>
      refine ⟨rfl, fun item hitem => ?_⟩
      by_contra hdrop
      rw [Bool.not_eq_false] at hdrop
      obtain ⟨rest, hrest⟩ := List.head?_eq_some_iff.mp hitem
      rw [dequeue_of_none hrequeued] at hdequeue
      obtain ⟨d, hd, heq⟩ := Option.map_eq_some_iff.mp hdequeue
      cases heq
      have hserved : d.1 = (dequeue_loop q.disc.attrs now rest
          (cobalt_should_drop q.disc.attrs now item q.disc.control).control).1 := by
        cases hd
        rw [do_dequeue, hrest, dequeue_loop]
        dsimp only
        rw [if_pos hdrop]
      rw [hitem, Option.map_some, hserved] at huid
      obtain ⟨x, hx, hxuid⟩ := Option.map_eq_some_iff.mp huid
      obtain ⟨p, hp, hpuid⟩ := (dequeue_loop_spec rest _).2 x hx
      rw [uids, hrequeued, hrest] at hnodup
      have hmem : item.uid ∈ rest.map (·.uid) := by
        rw [← hxuid, hpuid]
        exact List.mem_map_of_mem hp
      exact absurd hmem (List.nodup_cons.mp hnodup).1
  · rintro ⟨hrequeued, hpass⟩ r q₁ events hsome
    cases hsome
    rw [dequeue_of_none hrequeued]
    refine ⟨_, _, _, rfl, ?_⟩
    rw [do_dequeue]
    cases hpackets : q.disc.packets with
    | nil => rfl
    | cons item rest =>
      rw [hpackets] at hpass
      rw [dequeue_loop]
      dsimp only
      rw [if_neg (by rw [hpass item rfl]; exact Bool.false_ne_true)]
      exact congrArg some (should_drop_uid item)

end CobaltQueueDisc

namespace Overrides

variable {D : Type} [Add D] [Sub D] [Min D] [Max D] [Zero D] [One D] [LT D] [DecidableEq D] [DecidableLT D]

/-- `Peek` of CoDel and FQ-CoDel predicts `Dequeue` in every state, that of COBALT in just those
reachable states in which the head of its queue passes; and in all three inserted calls of `Peek` do
not change what is dropped, marked and returned. -/
theorem peek_predicts_iff :
    (∀ q now, CoDelQueueDisc.overrides.Predicts q now) ∧
    (∀ n q now, (FqCoDelQueueDisc.overrides n).Predicts q now) ∧
    (∀ s, Reachable (CobaltQueueDisc.Empty (D := D)) CobaltQueueDisc.base_step CobaltQueueDisc.NewPacket s →
      ∀ now ≥ s.1, CobaltQueueDisc.overrides.Predicts s.2 now ↔ CobaltQueueDisc.PassesHead s.2 now) ∧
    ∀ calls calls', Inserted calls calls' →
      (∀ q, CoDelQueueDisc.overrides.log q calls' = CoDelQueueDisc.overrides.log q calls) ∧
      (∀ n q, (FqCoDelQueueDisc.overrides n).log q calls' = (FqCoDelQueueDisc.overrides n).log q calls) ∧
      ∀ q : QueueDisc (CobaltQueueDisc D),
        CobaltQueueDisc.overrides.log q calls' = CobaltQueueDisc.overrides.log q calls := by
  refine ⟨?_, ?_, ?_, ?_⟩
  · exact predicts_of_base rfl CoDelQueueDisc.dryOnce
  · exact fun n => predicts_of_base rfl (FqCoDelQueueDisc.dryOnce n)
  · exact fun s hs now _ => CobaltQueueDisc.predicts_iff (CobaltQueueDisc.nodup_of_reachable hs)
  · intro calls calls' hinserted
    refine ⟨fun q => ?_, fun n q => ?_, fun q => ?_⟩
    · exact log_inserted (transparent_of_base rfl CoDelQueueDisc.dryOnce) hinserted
    · exact log_inserted (transparent_of_base rfl (FqCoDelQueueDisc.dryOnce n)) hinserted
    · exact log_inserted (transparent_of_look rfl) hinserted

/-- The default queue disc, with doubles that are fractions. -/
def cobalt : QueueDisc (CobaltQueueDisc ℚ) where
  disc :=
    { attrs := { increment := 1 / 256, decrement := 1 / 4096 }
      max_size := ⟨.bytes, 1500000⟩
      control := CobaltQueueDisc.initialize_params 0 fun _ => 1 / 2 }

/-- Three packets, and a dequeue once they have been queued for 10 ms. -/
def backlog : List (Time × Op) :=
  [(0, .enqueue { uid := 0, size := 1500, tos := none }), (0, .enqueue { uid := 1, size := 1500, tos := none }),
    (0, .enqueue { uid := 2, size := 1500, tos := none }), (milliseconds 10, .dequeue)]

/-- After that the head of the queue is due to be dropped: it is peeked, and the next one returned. -/
theorem peek_of_dropped :
    ∃ s, Reachable (CobaltQueueDisc.Empty (D := ℚ)) CobaltQueueDisc.base_step CobaltQueueDisc.NewPacket s ∧
      ∃ now ≥ s.1, ¬ CobaltQueueDisc.overrides.Predicts s.2 now := by
  have hrun : ((execute CobaltQueueDisc.base_step CobaltQueueDisc.NewPacket (0, cobalt) backlog).map fun s =>
      (s.1, s.2.disc.packets.head?.map (·.uid),
        (CobaltQueueDisc.overrides.dequeue s.2 (milliseconds 20)).map (·.1.map (·.uid)))) =
      some (milliseconds 10, some 1, some (some 2)) := by
    decide +kernel
  obtain ⟨s, hexecute, heq⟩ := Option.map_eq_some_iff.mp hrun
  simp only [Prod.mk.injEq] at heq
  obtain ⟨htime, hhead, hreturned⟩ := heq
  have hstart : CobaltQueueDisc.Empty (0, cobalt) := ⟨rfl, rfl, 0, fun _ => 1 / 2, rfl⟩
  refine ⟨s, (Reachable.init hstart).execute hexecute, milliseconds 20, by rw [htime]; decide, ?_⟩
  intro hpredicts
  obtain ⟨r', q₂, events', hdequeue, huid⟩ := hpredicts s.2.disc.packets.head? s.2 [] rfl
  rw [hdequeue, Option.map_some, Option.some_inj] at hreturned
  rw [hreturned, hhead] at huid
  cases huid

end Overrides

end Ns3.TrafficControl
