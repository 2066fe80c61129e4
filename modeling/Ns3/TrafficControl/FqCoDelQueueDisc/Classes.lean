import Ns3.TrafficControl.CoDelQueueDisc
import Ns3.TrafficControl.FqCoDelQueueDisc

namespace Ns3.TrafficControl

namespace FqCoDelQueueDisc

open Relation (ReflTransGen)

variable {q q' q₁ : FqCoDelQueueDisc} {i j c n : Nat} {flow : FqCoDelFlow} {f : FqCoDelFlow → FqCoDelFlow}
  {item : QueueDiscItem} {now : Time} {l : List Nat}

theorem getElem?_modify_flow :
    (q.modify_flow i f).classes[j]? = if i = j then q.classes[j]?.map f else q.classes[j]? := by
  rw [modify_flow, List.getElem?_modify]
  split
  · rfl
  · exact Option.map_id'

theorem exhausted_iff (hc : q.classes[i]? = some flow) : q.exhausted i = true ↔ flow.deficit ≤ 0 := by
  simp [exhausted, hc]

/-- The new flow at the front becomes an old one. -/
def demote (q : FqCoDelQueueDisc) (i : Nat) (rest : List Nat) : FqCoDelQueueDisc :=
  { (q.increase_deficit i q.quantum.toInt32).set_status i .old_flow with
    new_flows := rest
    old_flows := q.old_flows ++ [i] }

/-- The old flow at the front goes to the end. -/
def rotate (q : FqCoDelQueueDisc) (i : Nat) (rest : List Nat) : FqCoDelQueueDisc :=
  { q.increase_deficit i q.quantum.toInt32 with old_flows := rest ++ [i] }

/-- The class with the queue disc that a dequeue leaves. -/
def set_queue_disc (q : FqCoDelQueueDisc) (i : Nat) (queue_disc : CoDelQueueDisc) : FqCoDelQueueDisc :=
  q.modify_flow i fun flow => { flow with queue_disc }

def Selected (q : FqCoDelQueueDisc) (i : Nat) (flow : FqCoDelFlow) : Prop :=
  (q.new_flows ++ q.old_flows).head? = some i ∧ q.classes[i]? = some flow ∧ ¬ flow.deficit ≤ 0

/-- What `DoDequeue` does before it has a packet. -/
inductive Quiet (now : Time) : FqCoDelQueueDisc → FqCoDelQueueDisc → Prop
  | demote {q : FqCoDelQueueDisc} {i : Nat} {rest : List Nat} {flow : FqCoDelFlow} (hnew : q.new_flows = i :: rest)
      (hflow : q.classes[i]? = some flow) (hover : flow.deficit ≤ 0) : Quiet now q (q.demote i rest)
  | rotate {q : FqCoDelQueueDisc} {i : Nat} {rest : List Nat} {flow : FqCoDelFlow} (hnew : q.new_flows = [])
      (hold : q.old_flows = i :: rest) (hflow : q.classes[i]? = some flow) (hover : flow.deficit ≤ 0) :
      Quiet now q (q.rotate i rest)
  | retire {q : FqCoDelQueueDisc} {i : Nat} {flow : FqCoDelFlow} {d : CoDelQueueDisc} {events : List QueueDiscEvent}
      (hselected : q.Selected i flow) (hchild : flow.queue_disc.do_dequeue now = some (none, d, events)) :
      Quiet now q ((q.set_queue_disc i d).retire i)

/-- A packet is taken from the selected flow. -/
inductive Serve (now : Time) : FqCoDelQueueDisc → QueueDiscItem → FqCoDelQueueDisc → Prop
  | serve {q : FqCoDelQueueDisc} {i : Nat} {flow : FqCoDelFlow} {d : CoDelQueueDisc} {item : QueueDiscItem}
      {events : List QueueDiscEvent} (hselected : q.Selected i flow)
      (hchild : flow.queue_disc.do_dequeue now = some (some item, d, events)) :
      Serve now q item ((q.set_queue_disc i d).charge i item.size)

/-- The positions on the lists are those of classes. -/
def Bounded (q : FqCoDelQueueDisc) : Prop := ∀ i ∈ q.new_flows ++ q.old_flows, i < q.classes.length

theorem Bounded.exists_flow (hb : q.Bounded) (hi : i ∈ q.new_flows ++ q.old_flows) : ∃ flow, q.classes[i]? = some flow :=
  ⟨_, List.getElem?_eq_getElem (hb i hi)⟩

theorem Quiet.subset (hstep : Quiet now q q') : q'.new_flows ++ q'.old_flows ⊆ q.new_flows ++ q.old_flows := by
  intro j hj
  cases hstep with
  | @demote i rest flow hnew _ _ =>
    have hmem : j ∈ rest ++ (q.old_flows ++ [i]) := hj
    rw [hnew]
    simp only [List.mem_append, List.mem_cons, List.not_mem_nil, or_false] at hmem ⊢
    tauto
  | @rotate i rest flow _ hold _ _ =>
    have hmem : j ∈ q.new_flows ++ (rest ++ [i]) := hj
    rw [hold]
    simp only [List.mem_append, List.mem_cons, List.not_mem_nil, or_false] at hmem ⊢
    tauto
  | @retire i flow d events hselected _ =>
    have hi : i ∈ q.new_flows ++ q.old_flows := List.mem_of_mem_head? hselected.1
    unfold FqCoDelQueueDisc.retire at hj
    split at hj
    · have hmem : j ∈ q.new_flows ++ q.old_flows.tail := hj
      rcases List.mem_append.mp hmem with hnew | hold
      · exact List.mem_append_left _ hnew
      · exact List.mem_append_right _ (List.mem_of_mem_tail hold)
    · have hmem : j ∈ q.new_flows.tail ++ (q.old_flows ++ [i]) := hj
      simp only [List.mem_append, List.mem_singleton] at hmem
      rcases hmem with hnew | hold | rfl
      · exact List.mem_append_left _ (List.mem_of_mem_tail hnew)
      · exact List.mem_append_right _ hold
      · exact hi

theorem exists_of_exhausted (h : q.exhausted i = true) : ∃ flow, q.classes[i]? = some flow ∧ flow.deficit ≤ 0 := by
  obtain ⟨flow, hflow, hover⟩ := (Option.any_eq_true _ _).mp h
  exact ⟨flow, hflow, of_decide_eq_true hover⟩

theorem next_new_new_flows (q : FqCoDelQueueDisc) (l' : List Nat) : next_new { q with new_flows := l' } l = next_new q l := by
  induction l generalizing q with
  | nil => rfl
  | cons i rest ih =>
    unfold next_new
    have hsame : exhausted { q with new_flows := l' } i = q.exhausted i := rfl
    rw [hsame]
    split
    · exact ih { (q.increase_deficit i q.quantum.toInt32).set_status i .old_flow with
        old_flows := q.old_flows ++ [i] }
    · rfl

theorem next_new_steps {t : Time} (hnew : q.new_flows = l) :
    ReflTransGen (Quiet t) q (q.next_new l) ∧
      ∀ i rest, (q.next_new l).new_flows = i :: rest → (q.next_new l).exhausted i = false := by
  induction l generalizing q with
  | nil =>
    have hsame : q.next_new [] = q := by
      rw [next_new, ← hnew]
    rw [hsame]
    exact ⟨.refl, fun i rest h => nomatch hnew.symm.trans h⟩
  | cons i rest ih =>
    unfold next_new
    split
    next hover =>
      obtain ⟨flow, hflow, hover⟩ := exists_of_exhausted hover
      have hrec := ih (q := q.demote i rest) rfl
      have hsame : next_new (q.demote i rest) rest =
          next_new { (q.increase_deficit i q.quantum.toInt32).set_status i .old_flow with
            old_flows := q.old_flows ++ [i] } rest :=
        next_new_new_flows { (q.increase_deficit i q.quantum.toInt32).set_status i .old_flow with
          old_flows := q.old_flows ++ [i] } rest
      rw [hsame] at hrec
      exact ⟨.head (.demote hnew hflow hover) hrec.1, hrec.2⟩
    next hlive =>
      have hsame : { q with new_flows := i :: rest } = q := by rw [← hnew]
      rw [hsame]
      refine ⟨.refl, fun i' rest' h => ?_⟩
      obtain ⟨rfl, -⟩ := List.cons.inj (hnew.symm.trans h)
      exact Bool.eq_false_iff.mpr hlive

theorem next_old_steps {t : Time} (hnew : q.new_flows = []) (h : next_old n q = some q') :
    ReflTransGen (Quiet t) q q' ∧ q'.new_flows = [] ∧
      ∀ i rest, q'.old_flows = i :: rest → q'.exhausted i = false := by
  induction n generalizing q with
  | zero => cases h
  | succ n ih =>
    unfold next_old at h
    split at h
    next hold =>
      obtain rfl := Option.some.inj h
      exact ⟨.refl, hnew, fun i rest h => nomatch hold.symm.trans h⟩
    next i rest hold =>
      split at h
      next hover =>
        obtain ⟨flow, hflow, hover⟩ := exists_of_exhausted hover
        obtain ⟨hsteps, hfound⟩ := ih (q := q.rotate i rest) hnew h
        exact ⟨.head (.rotate hnew hold hflow hover) hsteps, hfound⟩
      next hlive =>
        obtain rfl := Option.some.inj h
        refine ⟨.refl, hnew, fun i' rest' h => ?_⟩
        obtain ⟨rfl, -⟩ := List.cons.inj (hold.symm.trans h)
        exact Bool.eq_false_iff.mpr hlive

theorem find_flow_steps {t : Time} (h : find_flow n q = some q') :
    ReflTransGen (Quiet t) q q' ∧
      ∀ i, (q'.new_flows ++ q'.old_flows).head? = some i → q'.exhausted i = false := by
  obtain ⟨hnew, hlive⟩ := next_new_steps (t := t) (q := q) rfl
  unfold find_flow at h
  dsimp only at h
  split at h
  next hempty =>
    obtain ⟨hold, hnone, hfound⟩ := next_old_steps (t := t) (List.isEmpty_iff.mp hempty) h
    refine ⟨hnew.trans hold, fun i hi => ?_⟩
    rw [hnone, List.nil_append] at hi
    obtain ⟨rest, hrest⟩ := List.head?_eq_some_iff.mp hi
    exact hfound i rest hrest
  next hsome =>
    obtain rfl := Option.some.inj h
    refine ⟨hnew, fun i hi => ?_⟩
    obtain ⟨j, rest, hrest⟩ := List.exists_cons_of_ne_nil (mt List.isEmpty_iff.mpr hsome)
    rw [hrest, List.cons_append, List.head?_cons] at hi
    exact Option.some.inj hi ▸ hlive j rest hrest

/-- `DoDequeue` takes quiet steps, and then a packet unless no flow is left. -/
theorem do_dequeue_steps {r : Option QueueDiscItem} {events : List QueueDiscEvent}
    (h : do_dequeue n q now = some (r, q', events)) :
    ∃ q₁, ReflTransGen (Quiet now) q q₁ ∧
      (r = none → q' = q₁ ∧ q₁.new_flows = [] ∧ q₁.old_flows = []) ∧
      ∀ item, r = some item → Serve now q₁ item q' := by
  induction n generalizing q r events with
  | zero => cases h
  | succ n ih =>
    unfold do_dequeue at h
    obtain ⟨q₁, hfind, h⟩ := Option.bind_eq_some_iff.mp h
    obtain ⟨hsteps, hlive⟩ := find_flow_steps (t := now) hfind
    split at h
    next hnone =>
      cases h
      rw [List.head?_eq_none_iff, List.append_eq_nil_iff] at hnone
      exact ⟨_, hsteps, fun _ => ⟨rfl, hnone⟩, nofun⟩
    next i hi =>
      obtain ⟨flow, hflow, h⟩ := Option.bind_eq_some_iff.mp h
      obtain ⟨⟨served, d, childEvents⟩, hchild, h⟩ := Option.bind_eq_some_iff.mp h
      have hselected : q₁.Selected i flow :=
        ⟨hi, hflow, fun hover => absurd ((exhausted_iff hflow).mpr hover) (Bool.eq_false_iff.mp (hlive i hi))⟩
      cases served with
      | some item =>
        cases h
        exact ⟨q₁, hsteps, nofun, fun _ hitem => Option.some.inj hitem ▸ .serve hselected hchild⟩
      | none =>
        obtain ⟨⟨r', q'', events'⟩, hrec, heq⟩ := Option.map_eq_some_iff.mp h
        cases heq
        obtain ⟨q₂, hsteps₂, hlast⟩ := ih hrec
        exact ⟨q₂, (hsteps.tail (.retire hselected hchild)).trans hsteps₂, hlast⟩

end FqCoDelQueueDisc

end Ns3.TrafficControl
