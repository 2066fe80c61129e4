import Mathlib

/-! Pending calls of a discrete-event simulator, as the component that schedules them sees them. -/

structure Agenda.Event (α : Type*) where
  uid : ℕ
  ts : ℤ
  call : α
deriving DecidableEq, Repr

/-- The clock, the events that are neither run nor cancelled, and the next identifier. -/
structure Agenda (α : Type*) where
  now : ℤ
  pending : List (Agenda.Event α)
  next_uid : ℕ
deriving DecidableEq, Repr

namespace Agenda

variable {α : Type*} {a : Agenda α} {e : Event α}

def schedule (a : Agenda α) (delay : ℤ) (call : α) : Agenda α :=
  { a with
    pending := a.pending ++ [⟨a.next_uid, a.now + delay, call⟩]
    next_uid := a.next_uid + 1 }

/-- Cancelling is without effect on an event that is over, and on the null identifier. -/
def cancel (a : Agenda α) (id : Option ℕ) : Agenda α :=
  { a with pending := a.pending.filter fun e => some e.uid ≠ id }

def find (a : Agenda α) (id : Option ℕ) : Option (Event α) :=
  a.pending.find? fun e => some e.uid = id

/-- The time that is left until an event runs; none when it is over. -/
def get_delay_left (a : Agenda α) (id : Option ℕ) : ℤ :=
  match a.find id with
  | some e => e.ts - a.now
  | none => 0

/-- The clock moves no further than the next event. -/
def advance (a : Agenda α) (t : ℤ) : Option (Agenda α) :=
  if a.now ≤ t ∧ ∀ e ∈ a.pending, t ≤ e.ts then some { a with now := t } else none

/-- Take an event off the agenda at its time. -/
def take (a : Agenda α) (uid : ℕ) : Option (α × Agenda α) :=
  match a.find (some uid) with
  | some e => if e.ts = a.now then some (e.call, a.cancel (some uid)) else none
  | none => none

@[simp] theorem mem_schedule {delay : ℤ} {call : α} :
    e ∈ (a.schedule delay call).pending ↔
      e ∈ a.pending ∨ e = ⟨a.next_uid, a.now + delay, call⟩ := by
  simp [schedule]

@[simp] theorem mem_cancel {id : Option ℕ} :
    e ∈ (a.cancel id).pending ↔ e ∈ a.pending ∧ some e.uid ≠ id := by
  simp [cancel]

/-- Identifiers are not used twice, and nothing is late. -/
structure Valid (a : Agenda α) : Prop where
  fresh : ∀ e ∈ a.pending, e.uid < a.next_uid
  distinct : (a.pending.map Event.uid).Nodup

theorem Valid.schedule (h : a.Valid) (delay : ℤ) (call : α) : (a.schedule delay call).Valid := by
  constructor
  · intro e he
    rcases mem_schedule.mp he with he | rfl
    · exact Nat.lt_succ_of_lt (h.fresh e he)
    · exact Nat.lt_succ_self _
  · have hnew : a.next_uid ∉ a.pending.map Event.uid := by
      intro hmem
      obtain ⟨e, he, huid⟩ := List.mem_map.mp hmem
      exact absurd (h.fresh e he) (by omega)
    simpa [Agenda.schedule, List.nodup_append] using ⟨h.distinct, by simpa using hnew⟩

theorem Valid.cancel (h : a.Valid) (id : Option ℕ) : (a.cancel id).Valid :=
  ⟨fun e he => h.fresh e (mem_cancel.mp he).1, h.distinct.sublist (List.filter_sublist.map _)⟩

theorem Valid.ext (h : a.Valid) {e e' : Event α} (he : e ∈ a.pending) (he' : e' ∈ a.pending)
    (huid : e.uid = e'.uid) : e = e' :=
  List.inj_on_of_nodup_map h.distinct he he' huid

theorem find_some (id : Option ℕ) (hfind : a.find id = some e) : e ∈ a.pending ∧ some e.uid = id := by
  have hmem := List.mem_of_find?_eq_some hfind
  have heq := List.find?_some hfind
  exact ⟨hmem, by simpa using heq⟩

theorem Valid.find (h : a.Valid) (he : e ∈ a.pending) : a.find (some e.uid) = some e := by
  cases hfind : a.find (some e.uid) with
  | none =>
    have hnone := List.find?_eq_none.mp hfind e he
    simp at hnone
  | some e' =>
    obtain ⟨hmem, huid⟩ := find_some _ hfind
    rw [h.ext hmem he (Option.some.inj huid)]

theorem Valid.get_delay_left (h : a.Valid) (he : e ∈ a.pending) :
    a.get_delay_left (some e.uid) = e.ts - a.now := by
  rw [Agenda.get_delay_left, h.find he]

theorem advance_some {t : ℤ} {a' : Agenda α} (h : a.advance t = some a') :
    a' = { a with now := t } := by
  unfold advance at h
  split at h
  · exact (Option.some.inj h).symm
  · cases h

theorem take_some {uid : ℕ} {call : α} {a' : Agenda α} (h : a.take uid = some (call, a')) :
    ∃ e ∈ a.pending, e.uid = uid ∧ e.call = call ∧ e.ts = a.now ∧ a' = a.cancel (some uid) := by
  unfold take at h
  split at h
  next e hfind =>
    obtain ⟨hmem, huid⟩ := find_some _ hfind
    split at h
    next hts =>
      have hpair := Prod.mk.inj (Option.some.inj h)
      exact ⟨e, hmem, Option.some.inj huid, hpair.1, hts, hpair.2.symm⟩
    next => cases h
  next => cases h

end Agenda
