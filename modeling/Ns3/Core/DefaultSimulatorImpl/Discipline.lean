import Ns3.Core.DefaultSimulatorImpl
import Ns3.Core.Scheduler

namespace Ns3.DefaultSimulatorImpl

open PriorityQueue (Operation Response Answers Correct IsLeast Legal)
open Scheduler (Event)
open Transition (Reachable)

variable {Q : Type} {scheduler : Q → Operation Event → Option (Q × Response Event)} {contents : Q → Multiset Event}
  {s s' : DefaultSimulatorImpl Q}

/-- The position of the clock and of the running event in the order of events. -/
def current (s : DefaultSimulatorImpl Q) : ℕ ×ₗ ℕ := toLex (s.current_ts.toNat, s.current_uid.toNat)

def Invoked (s : DefaultSimulatorImpl Q) (ev : Event) : Prop := ∃ clock, .invoked ev clock ∈ s.log

/-- The event has been invoked, taken out or cancelled. -/
def Settled (s : DefaultSimulatorImpl Q) (ev : Event) : Prop :=
  s.Invoked ev ∨ .removed ev ∈ s.log ∨ .cancelled ev.impl ∈ s.log

/-- The discipline of a simulation. -/
structure Disciplined (contents : Q → Multiset Event) (s : DefaultSimulatorImpl Q) : Prop where
  /-- An event is invoked at its time, after it is scheduled, unless it was removed or
  cancelled before, and later in the order than all that were invoked before. -/
  invoked : ∀ l ev clock, l ++ [.invoked ev clock] <+: s.log →
    clock = ev.key.ts ∧ .scheduled ev ∈ l ∧ .removed ev ∉ l ∧ .cancelled ev.impl ∉ l ∧
      ∀ ev' clock', .invoked ev' clock' ∈ l → ev'.order < ev.order
  /-- Identifiers increase with the order of the schedule calls. -/
  numbered : ∀ l ev, l ++ [.scheduled ev] <+: s.log → ∀ ev', .scheduled ev' ∈ l → ev'.key.uid < ev.key.uid
  /-- No scheduled event is lost. -/
  complete : ∀ ev, .scheduled ev ∈ s.log → ev ∈ contents s.events ∨ s.Settled ev
  expired : ∀ ev, .scheduled ev ∈ s.log → (s.is_expired (EventId.of ev) = true ↔ s.Settled ev)
  expired_destroy : ∀ id, .scheduled_destroy id ∈ s.log → (s.is_expired id = true ↔
    s.log.count (.scheduled_destroy id) = s.log.count (.destroyed id) + s.log.count (.removed_destroy id) ∨
      ∃ impl, id.impl = some impl ∧ .cancelled impl ∈ s.log)
  count : s.unscheduled_events.toInt = (contents s.events).card

/-- What the simulation keeps between its steps. -/
structure Kept (contents : Q → Multiset Event) (s : DefaultSimulatorImpl Q) : Prop where
  invoked : ∀ l ev clock, l ++ [.invoked ev clock] <+: s.log →
    clock = ev.key.ts ∧ .scheduled ev ∈ l ∧ .removed ev ∉ l ∧ .cancelled ev.impl ∉ l ∧
      ∀ ev' clock', .invoked ev' clock' ∈ l → ev'.order < ev.order
  numbered : ∀ l ev, l ++ [.scheduled ev] <+: s.log → ∀ ev', .scheduled ev' ∈ l → ev'.key.uid < ev.key.uid
  complete : ∀ ev, .scheduled ev ∈ s.log → ev ∈ contents s.events ∨ s.Settled ev
  scheduled : ∀ ev ∈ contents s.events, .scheduled ev ∈ s.log
  future : ∀ ev ∈ contents s.events, s.current < ev.order
  present : ∀ ev ∈ contents s.events, .removed ev ∉ s.log
  past : ∀ ev, s.Invoked ev → ev.order ≤ s.current
  known : ∀ ev, .scheduled ev ∈ s.log → EventId.valid ≤ ev.key.uid ∧ ev.key.uid < s.uid
  next : s.current_uid < s.uid ∧ EventId.valid ≤ s.uid
  distinct : ((contents s.events).map fun ev => ev.key.uid).Nodup
  removed : ∀ ev, .removed ev ∈ s.log → .scheduled ev ∈ s.log ∧ .cancelled ev.impl ∈ s.log
  flags : ∀ impl, impl ∈ s.cancelled ↔ .cancelled impl ∈ s.log
  destroy : ∀ id, s.log.count (.scheduled_destroy id) =
    s.destroy_events.count id + s.log.count (.destroyed id) + s.log.count (.removed_destroy id)
  destroy_uid : ∀ id, .scheduled_destroy id ∈ s.log → id.uid = EventId.destroy ∧ id.impl ≠ none
  count : s.unscheduled_events = Int32.ofNat (contents s.events).card
  small : (contents s.events).card < 2 ^ 31

theorem Settled.record {ev : Event} (h : s.Settled ev) (hsub : ∀ o ∈ s.log, o ∈ s'.log) : s'.Settled ev := by
  rcases h with ⟨clock, hmem⟩ | hmem | hmem
  · exact .inl ⟨clock, hsub _ hmem⟩
  · exact .inr (.inl (hsub _ hmem))
  · exact .inr (.inr (hsub _ hmem))

section Log

variable {log new l : List Occurrence} {o : Occurrence}

theorem prefix_of_not_mem (hnew : o ∉ new) (h : l ++ [o] <+: log ++ new) : l ++ [o] <+: log := by
  induction new using List.reverseRecOn with
  | nil => simpa using h
  | append_singleton new x ih =>
    rw [List.mem_append, not_or, List.mem_singleton] at hnew
    rw [← List.append_assoc, List.prefix_concat_iff] at h
    rcases h with heq | h
    · exact absurd (List.append_inj_right' heq rfl) (by simpa using hnew.2)
    · exact ih hnew.1 h

theorem prefix_concat {x : Occurrence} (h : l ++ [o] <+: log ++ [x]) : l ++ [o] <+: log ∨ l = log ∧ o = x := by
  rw [List.prefix_concat_iff] at h
  rcases h with heq | h
  · obtain ⟨hl, ho⟩ := List.append_inj' heq rfl
    exact .inr ⟨hl, by simpa using ho⟩
  · exact .inl h

end Log

theorem Kept.disciplined (h : Kept contents s) : Disciplined contents s := by
  refine ⟨h.invoked, h.numbered, h.complete, ?_, ?_, ?_⟩
  · intro ev hev
    have hordinary : ¬ (EventId.of ev).uid = EventId.destroy := by
      have hvalid := (h.known ev hev).1
      intro (hdestroy : ev.key.uid = EventId.destroy)
      rw [hdestroy] at hvalid
      exact absurd hvalid (by decide)
    have hcancelled : s.is_cancelled ev.impl = true ↔ .cancelled ev.impl ∈ s.log := by
      rw [is_cancelled, List.contains_iff_mem, h.flags]
    have htime : (ev.key.ts < s.current_ts || (ev.key.ts == s.current_ts && ev.key.uid ≤ s.current_uid)) = true ↔
        ev.order ≤ s.current := by
      simp [Event.order, Scheduler.EventKey.order, current, Prod.Lex.toLex_le_toLex, UInt64.lt_iff_toNat_lt,
        UInt32.le_iff_toNat_le, ← UInt64.toNat_inj]
    have hexpired : s.is_expired (EventId.of ev) =
        (ev.key.ts < s.current_ts || (ev.key.ts == s.current_ts && ev.key.uid ≤ s.current_uid) ||
          s.is_cancelled ev.impl) := if_neg hordinary
    rw [hexpired, Bool.or_eq_true, htime, hcancelled]
    constructor
    · rintro (hpast | hcancelled)
      · rcases h.complete ev hev with hpending | hsettled
        · exact absurd hpast (not_le.mpr (h.future ev hpending))
        · exact hsettled
      · exact .inr (.inr hcancelled)
    · rintro (hinvoked | hremoved | hcancelled)
      · exact .inl (h.past ev hinvoked)
      · exact .inr (h.removed ev hremoved).2
      · exact .inr hcancelled
  · intro id hid
    obtain ⟨huid, himpl⟩ := h.destroy_uid id hid
    obtain ⟨impl, himpl⟩ := Option.ne_none_iff_exists'.mp himpl
    have hcount := h.destroy id
    have hpending : s.destroy_events.contains id = false ↔
        s.log.count (.scheduled_destroy id) = s.log.count (.destroyed id) + s.log.count (.removed_destroy id) := by
      rw [List.contains_eq_mem, decide_eq_false_iff_not, ← List.count_eq_zero]
      omega
    have hcancelled : s.is_cancelled impl = true ↔ .cancelled impl ∈ s.log := by
      rw [is_cancelled, List.contains_iff_mem, h.flags]
    simp only [is_expired, himpl, if_pos huid, Bool.or_eq_true, Bool.not_eq_true', hcancelled, hpending]
    simp [or_comm]
  · rw [h.count, Int32.toInt_ofNat_of_lt h.small]

section Moves

variable (hcorrect : Correct Event.order (fun ev : Event => ev.key.uid) scheduler contents)

include hcorrect in
theorem operate_spec (h : Kept contents s) (op : Operation Event) {r : Q × Response Event}
    (hlegal : Legal (fun ev : Event => ev.key.uid) (contents s.events) op) (hr : scheduler s.events op = some r) :
    Answers Event.order (contents s.events) op r.2 ∧
      contents r.1 = PriorityQueue.after (contents s.events) op r.2 := by
  obtain ⟨r', hr', hanswers, hafter⟩ := hcorrect.serves s.events op h.distinct hlegal
  obtain rfl := Option.some.inj (hr.symm.trans hr')
  exact ⟨hanswers, hafter⟩

theorem absolute_time_toNat {delay : Int} (hdelay : 0 ≤ delay) (hsum : s.current_ts.toNat + delay < 2 ^ 63) :
    ((s.absolute_time delay).toNat : Int) = s.current_ts.toNat + delay := by
  have hbounds : (s.current_ts.toNat + delay) % 2 ^ 64 = s.current_ts.toNat + delay :=
    Int.emod_eq_of_lt (by omega) (by omega)
  rw [absolute_time, UInt64.ofInt, hbounds, UInt64.toNat_ofNat_of_lt' (by rw [UInt64.size]; omega)]
  omega

include hcorrect in
theorem insert_event_kept {context : UInt32} {delay : Int} {impl : EventImpl} (h : Kept contents s)
    (hdelay : 0 ≤ delay) (hsum : s.current_ts.toNat + delay < 2 ^ 63) (huid : s.uid.toNat + 1 < 2 ^ 32)
    (hsmall : (contents s.events).card + 1 < 2 ^ 31)
    (hinsert : s.insert_event scheduler context delay impl = some s') : Kept contents s' := by
  unfold insert_event at hinsert
  obtain ⟨r, hr, rfl⟩ := Option.map_eq_some_iff.mp hinsert
  generalize hev : (⟨impl, ⟨s.absolute_time delay, s.uid, context⟩⟩ : Event) = ev at hr ⊢
  have hev_uid : ev.key.uid = s.uid := by rw [← hev]
  have hlegal : Legal (fun ev : Event => ev.key.uid) (contents s.events) (.insert ev) := by
    intro b hb heq
    have hlt := (h.known b (h.scheduled b hb)).2
    rw [show b.key.uid = ev.key.uid from heq, hev_uid] at hlt
    exact absurd hlt (UInt32.lt_irrefl _)
  obtain ⟨_, hafter⟩ := operate_spec hcorrect h _ hlegal hr
  have hcontents : contents r.1 = ev ::ₘ contents s.events := hafter
  have hlater : s.current < ev.order := by
    have htime := absolute_time_toNat hdelay hsum
    have hnext := UInt32.lt_iff_toNat_lt.mp h.next.1
    simp only [current, Event.order, Scheduler.EventKey.order, ← hev, Prod.Lex.toLex_lt_toLex]
    omega
  have hnew : .scheduled ev ∉ s.log := by
    intro hmem
    have hlt := (h.known ev hmem).2
    rw [hev_uid] at hlt
    exact absurd hlt (UInt32.lt_irrefl _)
  have huid' : (s.uid + 1).toNat = s.uid.toNat + 1 := by
    rw [UInt32.toNat_add]
    exact Nat.mod_eq_of_lt huid
  refine ⟨?_, ?_, ?_, ?_, ?_, ?_, ?_, ?_, ?_, ?_, ?_, ?_, ?_, ?_, ?_, ?_⟩
  · intro l ev' clock hpre
    exact h.invoked l ev' clock (prefix_of_not_mem (by simp) hpre)
  · intro l ev₁ hpre ev₂ hmem
    rcases prefix_concat hpre with hpre | ⟨rfl, heq⟩
    · exact h.numbered l ev₁ hpre ev₂ hmem
    · obtain rfl : ev₁ = ev := by simpa using heq
      rw [hev_uid]
      exact (h.known ev₂ hmem).2
  · intro ev' hmem
    simp only [hcontents, Multiset.mem_cons]
    rcases List.mem_append.mp hmem with hold | hnew
    · rcases h.complete ev' hold with hpending | hdone
      · exact .inl (.inr hpending)
      · exact .inr (hdone.record fun o ho => List.mem_append_left _ ho)
    · exact .inl (.inl (by simpa using hnew))
  · simp only [hcontents, Multiset.mem_cons, List.mem_append, List.mem_singleton]
    rintro ev' (rfl | hmem)
    · exact .inr rfl
    · exact .inl (h.scheduled ev' hmem)
  · simp only [hcontents, Multiset.mem_cons]
    rintro ev' (rfl | hmem)
    · exact hlater
    · exact h.future ev' hmem
  · simp only [hcontents, Multiset.mem_cons, List.mem_append, List.mem_singleton]
    rintro ev' (rfl | hmem)
    · simpa using fun hmem => hnew (h.removed ev' hmem).1
    · simpa using h.present ev' hmem
  · rintro ev' ⟨clock, hmem⟩
    exact h.past ev' ⟨clock, by simpa using hmem⟩
  · intro ev' hmem
    rw [UInt32.lt_iff_toNat_lt, huid']
    rcases List.mem_append.mp hmem with hold | hnew
    · have hknown := h.known ev' hold
      exact ⟨hknown.1, (UInt32.lt_iff_toNat_lt.mp hknown.2).trans (Nat.lt_succ_self _)⟩
    · obtain rfl : ev' = ev := by simpa using hnew
      rw [hev_uid]
      exact ⟨h.next.2, Nat.lt_succ_self _⟩
  · have hnext := UInt32.lt_iff_toNat_lt.mp h.next.1
    have hvalid := UInt32.le_iff_toNat_le.mp h.next.2
    refine ⟨UInt32.lt_iff_toNat_lt.mpr ?_, UInt32.le_iff_toNat_le.mpr ?_⟩
    · show s.current_uid.toNat < (s.uid + 1).toNat
      omega
    · show EventId.valid.toNat ≤ (s.uid + 1).toNat
      omega
  · rw [hcontents, Multiset.map_cons, Multiset.nodup_cons]
    refine ⟨fun hmem => ?_, h.distinct⟩
    obtain ⟨b, hb, heq⟩ := Multiset.mem_map.mp hmem
    exact hlegal b hb heq
  · intro ev' hmem
    obtain ⟨hscheduled, hcancelled⟩ := h.removed ev' (by simpa using hmem)
    exact ⟨List.mem_append_left _ hscheduled, List.mem_append_left _ hcancelled⟩
  · intro impl'
    simpa using h.flags impl'
  · intro id
    simpa [List.count_append] using h.destroy id
  · intro id hmem
    exact h.destroy_uid id (by simpa using hmem)
  · rw [hcontents, Multiset.card_cons, Int32.ofNat_add, h.count]
    rfl
  · rw [hcontents, Multiset.card_cons]
    exact hsmall

theorem Kept.record {o : Occurrence} {uid : UInt32} {cancelled : List EventImpl} {destroy_events : List EventId}
    (h : Kept contents s) (huid : s.uid ≤ uid) (hinvoked : ∀ ev clock, o ≠ .invoked ev clock)
    (hscheduled : ∀ ev, o ≠ .scheduled ev) (hremoved : ∀ ev, o ≠ .removed ev)
    (hflags : ∀ impl, impl ∈ cancelled ↔ impl ∈ s.cancelled ∨ .cancelled impl = o)
    (hdestroy : ∀ id, (s.log ++ [o]).count (.scheduled_destroy id) =
      destroy_events.count id + (s.log ++ [o]).count (.destroyed id) + (s.log ++ [o]).count (.removed_destroy id))
    (hdestroy_uid : ∀ id, .scheduled_destroy id = o → id.uid = EventId.destroy ∧ id.impl ≠ none) :
    Kept contents { s with uid, cancelled, destroy_events, log := s.log ++ [o] } := by
  have hmem : ∀ {o' : Occurrence}, o' ≠ o → (o' ∈ s.log ++ [o] ↔ o' ∈ s.log) := by
    intro o' hne
    simp [hne]
  refine ⟨?_, ?_, ?_, ?_, h.future, ?_, ?_, ?_, ?_, h.distinct, ?_, ?_, hdestroy, ?_, h.count, h.small⟩
  · intro l ev clock hpre
    exact h.invoked l ev clock (prefix_of_not_mem (by simpa using (hinvoked ev clock).symm) hpre)
  · intro l ev hpre
    exact h.numbered l ev (prefix_of_not_mem (by simpa using (hscheduled ev).symm) hpre)
  · intro ev hev
    rcases h.complete ev ((hmem (hscheduled ev).symm).mp hev) with hpending | hsettled
    · exact .inl hpending
    · exact .inr (hsettled.record fun o ho => List.mem_append_left _ ho)
  · exact fun ev hev => List.mem_append_left _ (h.scheduled ev hev)
  · exact fun ev hev hold => h.present ev hev ((hmem (hremoved ev).symm).mp hold)
  · rintro ev ⟨clock, hold⟩
    exact h.past ev ⟨clock, (hmem (hinvoked ev clock).symm).mp hold⟩
  · intro ev hev
    obtain ⟨hvalid, hlt⟩ := h.known ev ((hmem (hscheduled ev).symm).mp hev)
    exact ⟨hvalid, UInt32.lt_of_lt_of_le hlt huid⟩
  · exact ⟨UInt32.lt_of_lt_of_le h.next.1 huid, UInt32.le_trans h.next.2 huid⟩
  · intro ev hev
    obtain ⟨hscheduled, hcancelled⟩ := h.removed ev ((hmem (hremoved ev).symm).mp hev)
    exact ⟨List.mem_append_left _ hscheduled, List.mem_append_left _ hcancelled⟩
  · intro impl
    rw [hflags, h.flags, List.mem_append, List.mem_singleton]
  · intro id hid
    rcases List.mem_append.mp hid with hid | hid
    · exact h.destroy_uid id hid
    · exact hdestroy_uid id (List.mem_singleton.mp hid)

theorem cancel_impl_kept (h : Kept contents s) (impl : EventImpl) : Kept contents (s.cancel_impl impl) := by
  refine h.record (UInt32.le_refl _) (by simp) (by simp) (by simp) ?_ ?_ (by simp)
  · simp
  · intro id
    simpa [List.count_append] using h.destroy id

theorem erase_count {q : Q} {ev : Event} (h : Kept contents s) (hev : ev ∈ contents s.events)
    (hcontents : contents q = (contents s.events).erase ev) :
    s.unscheduled_events - 1 = Int32.ofNat (contents q).card ∧ (contents q).card < 2 ^ 31 := by
  have hcard : (contents s.events).card = (contents q).card + 1 := by
    rw [hcontents, Multiset.card_erase_add_one hev]
  have hsmall := h.small
  refine ⟨?_, by omega⟩
  rw [h.count, hcard, Int32.ofNat_add]
  exact Int32.add_sub_cancel _ _

theorem Kept.remove {q : Q} {ev : Event} (h : Kept contents s) (hev : ev ∈ contents s.events)
    (hcancelled : .cancelled ev.impl ∈ s.log) (hcontents : contents q = (contents s.events).erase ev) :
    Kept contents { s with
      events := q
      unscheduled_events := s.unscheduled_events - 1
      log := s.log ++ [.removed ev] } := by
  have hsub : ∀ ev', ev' ∈ contents q → ev' ∈ contents s.events := by
    rw [hcontents]
    exact fun ev' => Multiset.mem_of_mem_erase
  have hother : ∀ ev' ∈ contents q, ev' ≠ ev := by
    have hnodup := Multiset.Nodup.of_map _ h.distinct
    rw [hcontents]
    exact fun ev' hev' => (Multiset.Nodup.mem_erase_iff hnodup |>.mp hev').1
  obtain ⟨hcount, hsmall⟩ := erase_count h hev hcontents
  refine ⟨?_, ?_, ?_, ?_, fun ev' hev' => h.future ev' (hsub ev' hev'), ?_, ?_, ?_, h.next, ?_, ?_, ?_, ?_, ?_, hcount, hsmall⟩
  · intro l ev' clock hpre
    exact h.invoked l ev' clock (prefix_of_not_mem (by simp) hpre)
  · intro l ev' hpre
    exact h.numbered l ev' (prefix_of_not_mem (by simp) hpre)
  · intro ev' hev'
    rcases h.complete ev' (by simpa using hev') with hpending | hsettled
    · by_cases heq : ev' = ev
      · exact .inr (.inr (.inl (by simp [heq])))
      · refine .inl ?_
        show ev' ∈ contents q
        rw [hcontents]
        exact (Multiset.mem_erase_of_ne heq).mpr hpending
    · exact .inr (hsettled.record fun o ho => List.mem_append_left _ ho)
  · exact fun ev' hev' => List.mem_append_left _ (h.scheduled ev' (hsub ev' hev'))
  · intro ev' hev'
    simpa [hother ev' hev'] using h.present ev' (hsub ev' hev')
  · rintro ev' ⟨clock, hold⟩
    exact h.past ev' ⟨clock, by simpa using hold⟩
  · exact fun ev' hev' => h.known ev' (by simpa using hev')
  · show ((contents q).map _).Nodup
    rw [hcontents]
    exact Multiset.nodup_of_le (Multiset.map_le_map (Multiset.erase_le ev _)) h.distinct
  · intro ev' hev'
    rcases List.mem_append.mp hev' with hold | hnew
    · obtain ⟨hscheduled, hcancelled⟩ := h.removed ev' hold
      exact ⟨List.mem_append_left _ hscheduled, List.mem_append_left _ hcancelled⟩
    · obtain rfl : ev' = ev := by simpa using hnew
      exact ⟨List.mem_append_left _ (h.scheduled ev' hev), List.mem_append_left _ hcancelled⟩
  · intro impl
    simpa using h.flags impl
  · intro id
    simpa [List.count_append] using h.destroy id
  · exact fun id hid => h.destroy_uid id (by simpa using hid)

theorem Kept.dispatch {q : Q} {ev : Event} (h : Kept contents s) (hleast : IsLeast Event.order (contents s.events) ev)
    (hcontents : contents q = (contents s.events).erase ev) :
    Kept contents { s with
      events := q
      unscheduled_events := s.unscheduled_events - 1
      event_count := s.event_count + 1
      current_ts := ev.key.ts
      current_context := ev.key.context
      current_uid := ev.key.uid
      log := s.log ++ [if s.is_cancelled ev.impl then .skipped ev else .invoked ev ev.key.ts] } := by
  obtain ⟨hev, hmin⟩ := hleast
  have hscheduled := h.scheduled ev hev
  have hnodup := Multiset.Nodup.of_map _ h.distinct
  have hsub : ∀ ev', ev' ∈ contents q → ev' ∈ contents s.events ∧ ev' ≠ ev := by
    rw [hcontents]
    exact fun ev' hev' => ((Multiset.Nodup.mem_erase_iff hnodup).mp hev').symm
  have hpast := (h.future ev hev).le
  have hcurrent : ∀ t : DefaultSimulatorImpl Q, t.current_ts = ev.key.ts → t.current_uid = ev.key.uid →
      t.current = ev.order := by
    intro t hts huid
    rw [current, hts, huid]
    rfl
  obtain ⟨hcount, hsmall⟩ := erase_count h hev hcontents
  generalize ho : (if s.is_cancelled ev.impl then Occurrence.skipped ev else .invoked ev ev.key.ts) = o
  have hflag : s.is_cancelled ev.impl = true ↔ .cancelled ev.impl ∈ s.log := by
    rw [is_cancelled, List.contains_iff_mem, h.flags]
  have hcases : .cancelled ev.impl ∈ s.log ∧ o = .skipped ev ∨
      .cancelled ev.impl ∉ s.log ∧ o = .invoked ev ev.key.ts := by
    rw [← ho, ← hflag]
    split
    next hyes => exact .inl ⟨hyes, rfl⟩
    next hno => exact .inr ⟨hno, rfl⟩
  have hmem : ∀ {o' : Occurrence}, (∀ ev', o' ≠ .skipped ev') → (∀ ev' clock, o' ≠ .invoked ev' clock) →
      (o' ∈ s.log ++ [o] ↔ o' ∈ s.log) := by
    intro o' hskipped hinvoked
    rcases hcases with ⟨_, rfl⟩ | ⟨_, rfl⟩ <;> simp [hskipped, hinvoked]
  refine ⟨?_, ?_, ?_, ?_, ?_, ?_, ?_, ?_, ⟨(h.known ev hscheduled).2, h.next.2⟩, ?_, ?_, ?_, ?_, ?_, hcount, hsmall⟩
  · intro l ev' clock hpre
    rcases prefix_concat hpre with hpre | ⟨rfl, heq⟩
    · exact h.invoked l ev' clock hpre
    · rcases hcases with ⟨_, rfl⟩ | ⟨hnot, rfl⟩
      · cases heq
      · cases heq
        exact ⟨rfl, hscheduled, h.present ev hev, hnot, fun ev' clock' hmem' =>
          (h.past ev' ⟨clock', hmem'⟩).trans_lt (h.future ev hev)⟩
  · intro l ev' hpre
    refine h.numbered l ev' (prefix_of_not_mem ?_ hpre)
    rcases hcases with ⟨_, rfl⟩ | ⟨_, rfl⟩ <;> simp
  · intro ev' hev'
    rcases h.complete ev' ((hmem (by simp) (by simp)).mp hev') with hpending | hsettled
    · by_cases heq : ev' = ev
      · subst heq
        refine .inr ?_
        rcases hcases with ⟨hcancelled, rfl⟩ | ⟨_, rfl⟩
        · exact .inr (.inr (List.mem_append_left _ hcancelled))
        · exact .inl ⟨ev'.key.ts, by simp⟩
      · refine .inl ?_
        show ev' ∈ contents q
        rw [hcontents]
        exact (Multiset.mem_erase_of_ne heq).mpr hpending
    · exact .inr (hsettled.record fun o ho => List.mem_append_left _ ho)
  · exact fun ev' hev' => List.mem_append_left _ (h.scheduled ev' (hsub ev' hev').1)
  · intro ev' hev'
    obtain ⟨hpending, hne⟩ := hsub ev' hev'
    rw [hcurrent _ rfl rfl]
    refine lt_of_le_of_ne (hmin ev' hpending) fun heq => hne ?_
    refine Multiset.inj_on_of_nodup_map h.distinct ev' hpending ev hev ?_
    have huid := congrArg (fun o => (ofLex o).2) heq
    exact UInt32.toNat_inj.mp huid.symm
  · exact fun ev' hev' hold => h.present ev' (hsub ev' hev').1 ((hmem (by simp) (by simp)).mp hold)
  · rintro ev' ⟨clock, hold⟩
    rw [hcurrent _ rfl rfl]
    rcases List.mem_append.mp hold with hold | hnew
    · exact (h.past ev' ⟨clock, hold⟩).trans hpast
    · rw [List.mem_singleton] at hnew
      rcases hcases with ⟨_, rfl⟩ | ⟨_, rfl⟩
      · cases hnew
      · cases hnew
        exact le_rfl
  · exact fun ev' hev' => h.known ev' ((hmem (by simp) (by simp)).mp hev')
  · show ((contents q).map _).Nodup
    rw [hcontents]
    exact Multiset.nodup_of_le (Multiset.map_le_map (Multiset.erase_le ev _)) h.distinct
  · intro ev' hev'
    obtain ⟨hscheduled, hcancelled⟩ := h.removed ev' ((hmem (by simp) (by simp)).mp hev')
    exact ⟨List.mem_append_left _ hscheduled, List.mem_append_left _ hcancelled⟩
  · intro impl
    rw [h.flags]
    exact (hmem (by simp) (by simp)).symm
  · intro id
    have hdestroy := h.destroy id
    rcases hcases with ⟨_, rfl⟩ | ⟨_, rfl⟩ <;> simpa [List.count_append] using hdestroy
  · exact fun id hid => h.destroy_uid id ((hmem (by simp) (by simp)).mp hid)

end Moves

/-- The identifiers a program has: the default one and those that its calls returned. -/
def holds (s : DefaultSimulatorImpl Q) (id : EventId) : Bool :=
  id == {} || s.log.any fun
    | .scheduled ev => id == EventId.of ev
    | .scheduled_destroy id' => id == id'
    | _ => false

/-- The calls a program can make: on its own identifiers, and while fewer than 2 ^ 32 - 4
events have been scheduled. -/
def Admitted (s : DefaultSimulatorImpl Q) : Move → Prop
  | .schedule _ _ => s.uid.toNat + 1 < 2 ^ 32
  | .schedule_now _ => s.uid.toNat + 1 < 2 ^ 32
  | .schedule_with_context _ _ _ => s.uid.toNat + 1 < 2 ^ 32
  | .schedule_destroy _ => s.uid.toNat + 1 < 2 ^ 32
  | .cancel id => s.holds id = true
  | .remove id => s.holds id = true
  | _ => True

instance (s : DefaultSimulatorImpl Q) : (move : Move) → Decidable (s.Admitted move)
  | .schedule _ _ | .schedule_now _ | .schedule_with_context _ _ _ | .schedule_destroy _ =>
    inferInstanceAs (Decidable (s.uid.toNat + 1 < 2 ^ 32))
  | .cancel id | .remove id => inferInstanceAs (Decidable (s.holds id = true))
  | .stop | .run | .run_turn | .destroy_turn => inferInstanceAs (Decidable True)

/-- An event to be scheduled `delay` from now fits: its time in a `Time`, which has 63 bits
and a sign, and the number of events in an `int`. -/
def Fits (contents : Q → Multiset Event) (s : DefaultSimulatorImpl Q) (delay : Int) : Prop :=
  s.current_ts.toNat + delay < 2 ^ 63 ∧ (contents s.events).card + 1 < 2 ^ 31

instance (contents : Q → Multiset Event) (s : DefaultSimulatorImpl Q) (delay : Int) :
    Decidable (s.Fits contents delay) := inferInstanceAs (Decidable (_ ∧ _))

/-- A call schedules nothing in the past, and nothing that does not fit. -/
def Timely (contents : Q → Multiset Event) (s : DefaultSimulatorImpl Q) : Move → Prop
  | .schedule delay _ => s.Fits contents delay
  | .schedule_now _ => s.Fits contents 0
  | .schedule_with_context _ delay _ => 0 ≤ delay ∧ s.Fits contents delay
  | _ => True

instance (contents : Q → Multiset Event) (s : DefaultSimulatorImpl Q) : (move : Move) → Decidable (s.Timely contents move)
  | .schedule delay _ => inferInstanceAs (Decidable (s.Fits contents delay))
  | .schedule_now _ => inferInstanceAs (Decidable (s.Fits contents 0))
  | .schedule_with_context _ delay _ => inferInstanceAs (Decidable (0 ≤ delay ∧ s.Fits contents delay))
  | .schedule_destroy _ | .cancel _ | .remove _ | .stop | .run | .run_turn | .destroy_turn =>
    inferInstanceAs (Decidable True)

/-- The simulator as it is constructed, over an empty scheduler. -/
def Initial (contents : Q → Multiset Event) (s : DefaultSimulatorImpl Q) : Prop :=
  ∃ q, contents q = 0 ∧ s = { events := q }

theorem initial_kept (h : Initial contents s) : Kept contents s := by
  obtain ⟨q, hq, rfl⟩ := h
  constructor <;> simp [hq, Invoked, EventId.valid, EventId.invalid]

section Step

variable (hcorrect : Correct Event.order (fun ev : Event => ev.key.uid) scheduler contents)

include hcorrect in
/-- The turn of an event: the scheduler hands out the next one, which is not before the clock. -/
theorem process_one_event_spec (h : Kept contents s) (hsome : contents s.events ≠ 0) :
    ∃ s', s.process_one_event scheduler = some s' ∧ Kept contents s' ∧ s.current_ts ≤ s'.current_ts := by
  obtain ⟨r, hr, hanswers, hafter⟩ := hcorrect.serves s.events .remove_next h.distinct hsome
  obtain ⟨next, hnext, hleast⟩ := hanswers
  rw [hnext] at hafter
  have hclock : s.current_ts ≤ next.key.ts := by
    have hfuture := h.future next hleast.1
    simp only [current, Event.order, Scheduler.EventKey.order, Prod.Lex.toLex_lt_toLex] at hfuture
    rw [UInt64.le_iff_toNat_le]
    omega
  refine ⟨_, ?_, h.dispatch hleast hafter, hclock⟩
  rw [process_one_event, hr, Option.bind_some, hnext]
  exact if_pos hclock

include hcorrect in
theorem no_events_iff (h : Kept contents s) : s.no_events scheduler = true ↔ contents s.events = 0 := by
  obtain ⟨r, hr, ⟨b, hb, hiff⟩, _⟩ := hcorrect.serves s.events .is_empty h.distinct trivial
  obtain ⟨q, answer⟩ := r
  subst hb
  rw [no_events, hr]
  exact hiff

theorem holds_event {id : EventId} {impl : EventImpl} (h : Kept contents s) (hid : s.holds id = true)
    (hordinary : id.uid ≠ EventId.destroy) (himpl : id.impl = some impl) :
    ∃ ev, .scheduled ev ∈ s.log ∧ id = EventId.of ev := by
  rw [holds, Bool.or_eq_true, List.any_eq_true] at hid
  rcases hid with hdefault | ⟨o, ho, hmatch⟩
  · rw [beq_iff_eq.mp hdefault] at himpl
    cases himpl
  · cases o with
    | scheduled ev => exact ⟨ev, ho, by simpa using hmatch⟩
    | scheduled_destroy id' =>
      have heq : id = id' := by simpa using hmatch
      exact absurd (heq ▸ (h.destroy_uid id' ho).1) hordinary
    | _ => cases hmatch

include hcorrect in
theorem remove_kept {id : EventId} (h : Kept contents s) (hid : s.holds id = true)
    (hremove : s.remove scheduler id = some s') : Kept contents s' := by
  unfold remove at hremove
  split at hremove
  next hdestroy =>
    split at hremove
    next hmem =>
      cases hremove
      refine h.record (UInt32.le_refl _) (by simp) (by simp) (by simp) (by simp) ?_ (by simp)
      intro id'
      have hcount := h.destroy id'
      have hpos := List.count_pos_iff.mpr hmem
      by_cases heq : id = id'
      · subst heq
        simp [List.count_append, List.count_erase_self]
        omega
      · simp [List.count_append, List.count_erase_of_ne (Ne.symm heq), heq, hcount]
    next =>
      cases hremove
      exact h
  next hordinary =>
    split at hremove
    next impl himpl =>
      split at hremove
      next =>
        cases hremove
        exact h
      next hpending =>
        obtain ⟨r, hr, rfl⟩ := Option.map_eq_some_iff.mp hremove
        obtain ⟨ev, hev, rfl⟩ := holds_event h hid hordinary himpl
        obtain rfl : ev.impl = impl := by simpa [EventId.of] using himpl
        have hmem : ev ∈ contents s.events := by
          refine (h.complete ev hev).resolve_right fun hsettled => hpending ?_
          exact (h.disciplined.expired ev hev).mpr hsettled
        obtain ⟨_, hafter⟩ := operate_spec hcorrect h (.remove ev) hmem hr
        exact (cancel_impl_kept h ev.impl).remove hmem (by simp [cancel_impl]) hafter
    next =>
      cases hremove
      exact h

include hcorrect in
theorem step_kept {move : Move} (h : Kept contents s) (hadmitted : s.Admitted move) (htimely : s.Timely contents move)
    (hstep : s.step scheduler move = some s') : Kept contents s' := by
  cases move with
  | schedule delay impl =>
    rw [step, schedule] at hstep
    split at hstep
    next hdelay => exact insert_event_kept hcorrect h hdelay htimely.1 hadmitted htimely.2 hstep
    next => cases hstep
  | schedule_now impl =>
    rw [step, schedule_now, schedule, if_pos le_rfl] at hstep
    exact insert_event_kept hcorrect h le_rfl htimely.1 hadmitted htimely.2 hstep
  | schedule_with_context context delay impl =>
    exact insert_event_kept hcorrect h htimely.1 htimely.2.1 hadmitted htimely.2.2 hstep
  | schedule_destroy impl =>
    cases hstep
    have huid : (s.uid + 1).toNat = s.uid.toNat + 1 := by
      rw [UInt32.toNat_add]
      exact Nat.mod_eq_of_lt hadmitted
    refine h.record (UInt32.le_iff_toNat_le.mpr (by omega)) (by simp) (by simp) (by simp) (by simp) ?_ ?_
    · intro id
      have hcount := h.destroy id
      simp only [List.count_append, hcount]
      by_cases heq : (⟨some impl, s.current_ts, 0xffffffff, EventId.destroy⟩ : EventId) = id
      · subst heq
        simp
        omega
      · simp [heq]
    · intro id hid
      cases hid
      exact ⟨rfl, by simp⟩
  | cancel id =>
    cases hstep
    unfold cancel
    split
    · split
      · exact h
      · exact cancel_impl_kept h _
    · exact h
  | remove id => exact remove_kept hcorrect h hadmitted hstep
  | stop =>
    cases hstep
    exact { h with }
  | run =>
    cases hstep
    exact { h with }
  | run_turn =>
    rw [step, run_turn] at hstep
    split at hstep
    next hturn =>
      have hsome : contents s.events ≠ 0 := fun hnone => hturn.1 ((no_events_iff hcorrect h).mpr hnone)
      obtain ⟨s₁, hprocess, hkept, _⟩ := process_one_event_spec hcorrect h hsome
      obtain rfl := Option.some.inj (hstep.symm.trans hprocess)
      exact hkept
    next => cases hstep
  | destroy_turn =>
    rw [step, destroy_turn] at hstep
    split at hstep
    next => cases hstep
    next id rest hevents =>
      cases hstep
      refine h.record (UInt32.le_refl _) (by simp) (by simp) (by simp) (by simp) ?_ (by simp)
      intro id'
      have hcount := h.destroy id'
      rw [hevents, List.count_cons] at hcount
      simp only [List.count_append, hcount, beq_iff_eq]
      by_cases heq : id = id'
      · subst heq
        simp
        omega
      · simp [heq]

/-- The clock never goes back. -/
def Advances (s s' : DefaultSimulatorImpl Q) : Prop := s.current_ts ≤ s'.current_ts

include hcorrect in
theorem step_advances {move : Move} (h : Kept contents s) (hstep : s.step scheduler move = some s') : s.Advances s' := by
  have hinsert : ∀ {context delay impl}, s.insert_event scheduler context delay impl = some s' → s.Advances s' := by
    intro context delay impl hinsert
    obtain ⟨r, _, rfl⟩ := Option.map_eq_some_iff.mp hinsert
    exact UInt64.le_refl _
  cases move with
  | schedule delay impl =>
    rw [step, schedule] at hstep
    split at hstep
    · exact hinsert hstep
    · cases hstep
  | schedule_now impl =>
    rw [step, schedule_now, schedule, if_pos le_rfl] at hstep
    exact hinsert hstep
  | schedule_with_context context delay impl => exact hinsert hstep
  | remove id =>
    rw [step, remove] at hstep
    split at hstep
    · split at hstep <;> cases hstep <;> exact UInt64.le_refl _
    · split at hstep
      · split at hstep
        · cases hstep
          exact UInt64.le_refl _
        · obtain ⟨r, _, rfl⟩ := Option.map_eq_some_iff.mp hstep
          exact UInt64.le_refl _
      · cases hstep
        exact UInt64.le_refl _
  | cancel id =>
    cases hstep
    unfold cancel Advances
    split
    · split <;> exact UInt64.le_refl _
    · exact UInt64.le_refl _
  | run_turn =>
    rw [step, run_turn] at hstep
    split at hstep
    next hturn =>
      have hsome : contents s.events ≠ 0 := fun hnone => hturn.1 ((no_events_iff hcorrect h).mpr hnone)
      obtain ⟨s₁, hprocess, _, hclock⟩ := process_one_event_spec hcorrect h hsome
      obtain rfl := Option.some.inj (hstep.symm.trans hprocess)
      exact hclock
    next => cases hstep
  | destroy_turn =>
    rw [step, destroy_turn] at hstep
    split at hstep <;> cases hstep
    exact UInt64.le_refl _
  | schedule_destroy impl | stop | run =>
    cases hstep
    exact UInt64.le_refl _

end Step

/-- A turn of `Run` goes through, and the loop ends with its counter at zero. -/
def RunsOn (scheduler : Q → Operation Event → Option (Q × Response Event)) (contents : Q → Multiset Event)
    (s : DefaultSimulatorImpl Q) : Prop :=
  if contents s.events = 0 then s.unscheduled_events = 0
  else s.stop = false → ∃ s', s.run_turn scheduler = some s'

/-- In every run of a program that schedules nothing in the past and nothing that does not
fit, the simulator keeps its discipline, its clock does not go back, and no turn of `Run` fails. -/
theorem simulation_is_disciplined (hcorrect : Correct Event.order (fun ev : Event => ev.key.uid) scheduler contents)
    (hrun : Reachable (Initial contents) (step scheduler) (fun s move => s.Admitted move ∧ s.Timely contents move) s) :
    Disciplined contents s ∧ (∀ move s', s.step scheduler move = some s' → s.Advances s') ∧
      s.RunsOn scheduler contents := by
  have hkept : Kept contents s := hrun.invariant (fun _ => initial_kept) fun _ _ _ h hcond hstep =>
    step_kept hcorrect h hcond.1 hcond.2 hstep
  refine ⟨hkept.disciplined, fun _ _ => step_advances hcorrect hkept, ?_⟩
  unfold RunsOn
  split
  next hnone => rw [hkept.count, hnone, Multiset.card_zero]; rfl
  next hsome =>
    intro hstop
    obtain ⟨s', hprocess, _, _⟩ := process_one_event_spec hcorrect hkept hsome
    refine ⟨s', ?_⟩
    rw [run_turn, if_pos ⟨fun hnone => hsome ((no_events_iff hcorrect hkept).mp hnone), hstop⟩]
    exact hprocess

/-! Programs over the list scheduler. -/

theorem initial_list : Initial ListScheduler.contents { events := ({} : ListScheduler) } := ⟨_, rfl, rfl⟩

/-- One event schedules another and cancels a third. -/
theorem simulation_is_disciplined_list : ∃ s : DefaultSimulatorImpl ListScheduler,
    .invoked ⟨3, ⟨7, 6, 0⟩⟩ 7 ∈ s.log ∧ Disciplined ListScheduler.contents s ∧
      (∀ move s', s.step ListScheduler.operate move = some s' → s.Advances s') ∧
      s.RunsOn ListScheduler.operate ListScheduler.contents := by
  have hrun : (Transition.execute (step ListScheduler.operate)
      (fun s move => s.Admitted move ∧ s.Timely ListScheduler.contents move) { events := ({} : ListScheduler) }
      [.schedule 5 1, .schedule 5 2, .run, .run_turn, .schedule_with_context 0 2 3,
        .cancel ⟨some 2, 5, 0xffffffff, 5⟩, .run_turn, .run_turn]).map
          (fun s => decide (.invoked ⟨3, ⟨7, 6, 0⟩⟩ 7 ∈ s.log)) = some true := by decide +kernel
  obtain ⟨s, hs, hinvoked⟩ := Option.map_eq_some_iff.mp hrun
  exact ⟨s, of_decide_eq_true hinvoked,
    simulation_is_disciplined ListScheduler.correct ((Reachable.init initial_list).execute hs)⟩

/-- `ScheduleWithContext` takes a negative delay, and the turn of its event stops the program. -/
theorem past_event_stops_run : ∃ s : DefaultSimulatorImpl ListScheduler,
    Reachable (Initial ListScheduler.contents) (step ListScheduler.operate) Admitted s ∧
      ¬ s.RunsOn ListScheduler.operate ListScheduler.contents := by
  have hrun : (Transition.execute (step ListScheduler.operate) Admitted { events := ({} : ListScheduler) }
      [.schedule 5 1, .run, .run_turn, .schedule_with_context 0 (-1) 2]).map
        (fun s => (decide (ListScheduler.contents s.events = 0), s.stop,
          (s.run_turn ListScheduler.operate).isSome)) = some (false, false, false) := by decide +kernel
  obtain ⟨s, hs, hfacts⟩ := Option.map_eq_some_iff.mp hrun
  simp only [Prod.mk.injEq, decide_eq_false_iff_not] at hfacts
  obtain ⟨hsome, hstop, hturn⟩ := hfacts
  refine ⟨s, (Reachable.init initial_list).execute hs, fun hruns => ?_⟩
  rw [RunsOn, if_neg hsome] at hruns
  obtain ⟨s', hs'⟩ := hruns hstop
  rw [hs'] at hturn
  cases hturn

end Ns3.DefaultSimulatorImpl
