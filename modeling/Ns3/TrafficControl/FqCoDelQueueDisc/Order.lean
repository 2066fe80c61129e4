import Ns3.Foundation.Lanes
import Ns3.TrafficControl.FqCoDelQueueDisc.Classes

namespace Ns3.TrafficControl.FqCoDelQueueDisc

open Relation (ReflTransGen)
open CoDelQueueDisc (Marks FromFront do_dequeue_from_front)

variable {q q' q₁ : FqCoDelQueueDisc} {i j c n : Nat} {h flow_hash : UInt32} {flow : FqCoDelFlow}
  {f : FqCoDelFlow → FqCoDelFlow} {item : QueueDiscItem} {now : Time} {left : List QueueDiscItem}

/-- The number and the packets of the queue of a class. -/
def view (q : FqCoDelQueueDisc) (c : Nat) : Option (UInt32 × List QueueDiscItem) :=
  q.classes[c]?.map fun flow => (flow.index, flow.queue_disc.packets)

def lanes (q : FqCoDelQueueDisc) (c : Nat) : List QueueDiscItem := ((q.view c).map (·.2)).getD []

theorem lanes_eq {l : List QueueDiscItem} (hc : q.view c = some (h, l)) : q.lanes c = l := by
  rw [lanes, hc]
  rfl

theorem mem_lanes {p : QueueDiscItem} (hp : p ∈ q.lanes c) : ∃ h l, q.view c = some (h, l) ∧ p ∈ l := by
  unfold lanes at hp
  cases hc : q.view c with
  | none =>
    rw [hc] at hp
    cases hp
  | some x =>
    rw [hc] at hp
    exact ⟨x.1, x.2, rfl, hp⟩

/-- The same packets are in the same queues. -/
structure SameQueues (q q' : FqCoDelQueueDisc) : Prop where
  view : q'.view = q.view
  flows_indices : q'.flows_indices = q.flows_indices
  attrs : q'.attrs = q.attrs
  requeued : q'.requeued = q.requeued
  arrived : q'.arrived = q.arrived

namespace SameQueues

theorem refl (q : FqCoDelQueueDisc) : SameQueues q q := ⟨rfl, rfl, rfl, rfl, rfl⟩

theorem trans (hq : SameQueues q q₁) (hq' : SameQueues q₁ q') : SameQueues q q' :=
  ⟨hq'.view.trans hq.view, hq'.flows_indices.trans hq.flows_indices, hq'.attrs.trans hq.attrs,
    hq'.requeued.trans hq.requeued, hq'.arrived.trans hq.arrived⟩

theorem lanes (hq : SameQueues q q') : q'.lanes = q.lanes := by
  funext c
  rw [FqCoDelQueueDisc.lanes, FqCoDelQueueDisc.lanes, hq.view]

end SameQueues

theorem view_modify_flow (hf : ∀ flow, q.classes[i]? = some flow →
      (f flow).index = flow.index ∧ (f flow).queue_disc.packets = flow.queue_disc.packets) :
    (q.modify_flow i f).view = q.view := by
  funext j
  rw [view, view, getElem?_modify_flow]
  split
  next hij =>
    subst hij
    cases hc : q.classes[i]? with
    | none => rfl
    | some flow =>
      rw [Option.map_some, Option.map_some, Option.map_some, (hf flow hc).1, (hf flow hc).2]
  next => rfl

theorem same_queues_modify_flow (hf : ∀ flow, q.classes[i]? = some flow →
      (f flow).index = flow.index ∧ (f flow).queue_disc.packets = flow.queue_disc.packets) :
    SameQueues q (q.modify_flow i f) := ⟨view_modify_flow hf, rfl, rfl, rfl, rfl⟩

theorem view_set_queue_disc {d : CoDelQueueDisc} (hflow : q.classes[i]? = some flow) :
    (q.set_queue_disc i d).view = Function.update q.view i (some (flow.index, d.packets)) := by
  funext j
  rw [view, set_queue_disc, getElem?_modify_flow]
  by_cases hij : i = j
  · subst hij
    rw [if_pos rfl, hflow, Function.update_self]
    rfl
  · rw [if_neg hij, Function.update_of_ne (Ne.symm hij)]
    rfl

theorem Quiet.same_queues (hstep : Quiet now q q') : SameQueues q q' := by
  cases hstep with
  | @demote i rest =>
    have hincrease : SameQueues q (q.increase_deficit i q.quantum.toInt32) :=
      same_queues_modify_flow fun _ _ => ⟨rfl, rfl⟩
    have hstatus : SameQueues (q.increase_deficit i q.quantum.toInt32)
        ((q.increase_deficit i q.quantum.toInt32).set_status i .old_flow) :=
      same_queues_modify_flow fun _ _ => ⟨rfl, rfl⟩
    exact hincrease.trans (hstatus.trans ⟨rfl, rfl, rfl, rfl, rfl⟩)
  | @rotate i rest =>
    have hincrease : SameQueues q (q.increase_deficit i q.quantum.toInt32) :=
      same_queues_modify_flow fun _ _ => ⟨rfl, rfl⟩
    exact hincrease.trans ⟨rfl, rfl, rfl, rfl, rfl⟩
  | @retire i flow d events hselected hchild =>
    obtain ⟨-, -, hfront, hempty⟩ := do_dequeue_from_front hchild
    have hdisc : SameQueues q (q.set_queue_disc i d) := by
      refine same_queues_modify_flow fun flow' hflow' => ⟨rfl, ?_⟩
      obtain rfl := Option.some.inj (hselected.2.1.symm.trans hflow')
      exact hfront.trans (hempty rfl).symm
    refine hdisc.trans ?_
    unfold FqCoDelQueueDisc.retire
    split
    · exact (same_queues_modify_flow fun _ _ => ⟨rfl, rfl⟩ : SameQueues _ (set_status _ i .inactive)).trans
        ⟨rfl, rfl, rfl, rfl, rfl⟩
    · exact (same_queues_modify_flow fun _ _ => ⟨rfl, rfl⟩ : SameQueues _ (set_status _ i .old_flow)).trans
        ⟨rfl, rfl, rfl, rfl, rfl⟩

def Idle (q : FqCoDelQueueDisc) : Prop :=
  ∀ (c : Nat) (flow : FqCoDelFlow),
    q.classes[c]? = some flow → flow.status = .inactive → flow.queue_disc.packets = []

theorem Idle.of_classes (hq : q.Idle) (hclasses : q'.classes = q.classes) : q'.Idle := by
  unfold Idle
  rw [hclasses]
  exact hq

theorem idle_modify_flow (hq : q.Idle) (hf : ∀ flow, q.classes[i]? = some flow → (f flow).status = .inactive →
      (f flow).queue_disc.packets = []) : (q.modify_flow i f).Idle := by
  intro c flow hflow hstatus
  rw [getElem?_modify_flow] at hflow
  split at hflow
  next hic =>
    subst hic
    obtain ⟨flow', hflow', rfl⟩ := Option.map_eq_some_iff.mp hflow
    exact hf flow' hflow' hstatus
  next => exact hq c flow hflow hstatus

theorem Quiet.idle (hstep : Quiet now q q') (hq : q.Idle) : q'.Idle := by
  cases hstep with
  | @demote i rest =>
    have hincrease : (q.increase_deficit i q.quantum.toInt32).Idle :=
      idle_modify_flow hq fun flow hflow hstatus => hq i flow hflow hstatus
    have hold : ((q.increase_deficit i q.quantum.toInt32).set_status i .old_flow).Idle :=
      idle_modify_flow hincrease fun _ _ hstatus => nomatch hstatus
    exact hold.of_classes rfl
  | @rotate i rest =>
    have hincrease : (q.increase_deficit i q.quantum.toInt32).Idle :=
      idle_modify_flow hq fun flow hflow hstatus => hq i flow hflow hstatus
    exact hincrease.of_classes rfl
  | @retire i flow d events hselected hchild =>
    obtain ⟨-, -, hfront, -⟩ := do_dequeue_from_front hchild
    have hdisc : (q.set_queue_disc i d).Idle := idle_modify_flow hq fun _ _ _ => hfront
    unfold FqCoDelQueueDisc.retire
    split
    · have hinactive : ((q.set_queue_disc i d).set_status i .inactive).Idle := by
        refine idle_modify_flow hdisc fun flow' hflow' _ => ?_
        rw [set_queue_disc, getElem?_modify_flow, if_pos rfl] at hflow'
        obtain ⟨flow₀, -, rfl⟩ := Option.map_eq_some_iff.mp hflow'
        exact hfront
      exact hinactive.of_classes rfl
    · have hold : ((q.set_queue_disc i d).set_status i .old_flow).Idle :=
        idle_modify_flow hdisc fun _ _ hstatus => nomatch hstatus
      exact hold.of_classes rfl

def homes (a : Attributes) (flow_hash : UInt32) : List UInt32 :=
  if a.enable_set_associative_hash then ways a flow_hash else [flow_hash % a.flows]

/-- Classes and queue numbers belong together, a packet is in a queue of its flow's set, and
inactive flows have no packets. -/
structure Homed (q : FqCoDelQueueDisc) : Prop where
  class_of : ∀ h c, q.flows_indices h = some c → ∃ l, q.view c = some (h, l)
  index_of : ∀ c h l, q.view c = some (h, l) → q.flows_indices h = some c
  home : ∀ c h l, q.view c = some (h, l) → ∀ p ∈ l, h ∈ homes q.attrs p.flow_hash
  idle : q.Idle

theorem Homed.of_same_queues (hq : q.Homed) (hsame : SameQueues q q') (hidle : q'.Idle) : q'.Homed := by
  refine ⟨?_, ?_, ?_, hidle⟩
  · rw [hsame.flows_indices, hsame.view]
    exact hq.class_of
  · rw [hsame.flows_indices, hsame.view]
    exact hq.index_of
  · rw [hsame.attrs, hsame.view]
    exact hq.home

theorem Homed.of_subset {l l' : List QueueDiscItem} (hq : q.Homed) (hc : q.view c = some (h, l)) (hl : l' ⊆ l)
    (hview : q'.view = Function.update q.view c (some (h, l'))) (hindices : q'.flows_indices = q.flows_indices)
    (hattrs : q'.attrs = q.attrs) (hidle : q'.Idle) : q'.Homed := by
  have hcases : ∀ c' h' l'', q'.view c' = some (h', l'') → ∃ l₀, q.view c' = some (h', l₀) ∧ l'' ⊆ l₀ := by
    intro c' h' l'' hc'
    rw [hview] at hc'
    by_cases hcc : c' = c
    · subst hcc
      rw [Function.update_self] at hc'
      cases hc'
      exact ⟨l, hc, hl⟩
    · rw [Function.update_of_ne hcc] at hc'
      exact ⟨l'', hc', fun _ hp => hp⟩
  refine ⟨?_, ?_, ?_, hidle⟩
  · intro h' c' hh
    rw [hindices] at hh
    obtain ⟨l₀, hl₀⟩ := hq.class_of h' c' hh
    rw [hview]
    by_cases hcc : c' = c
    · subst hcc
      rw [hc] at hl₀
      cases hl₀
      exact ⟨l', Function.update_self ..⟩
    · rw [Function.update_of_ne hcc]
      exact ⟨l₀, hl₀⟩
  · intro c' h' l'' hc'
    obtain ⟨l₀, hl₀, -⟩ := hcases c' h' l'' hc'
    rw [hindices]
    exact hq.index_of c' h' l₀ hl₀
  · intro c' h' l'' hc' p hp
    obtain ⟨l₀, hl₀, hsub⟩ := hcases c' h' l'' hc'
    rw [hattrs]
    exact hq.home c' h' l₀ hl₀ p (hsub hp)

/-- The packets of a flow are in one queue, and leave in the order in which they arrived. -/
structure Ordered (q : FqCoDelQueueDisc) (left : List QueueDiscItem) : Prop where
  homed : q.Homed
  in_order : Lanes.InOrder (·.flow_hash) (·.arrival) q.lanes (left ++ q.requeued.toList) q.arrived

theorem Ordered.quiet (hq : q.Ordered left) (hsteps : ReflTransGen (Quiet now) q q') : q'.Ordered left := by
  induction hsteps with
  | refl => exact hq
  | tail _ hstep ih =>
    have hsame := hstep.same_queues
    refine ⟨ih.homed.of_same_queues hsame (hstep.idle ih.homed.idle), ?_⟩
    rw [hsame.lanes, hsame.requeued, hsame.arrived]
    exact ih.in_order

theorem lanes_update {x : UInt32 × List QueueDiscItem} (hview : q'.view = Function.update q.view c (some x)) :
    q'.lanes = Function.update q.lanes c x.2 := by
  funext j
  rw [lanes, hview]
  by_cases hj : j = c
  · subst hj
    rw [Function.update_self, Function.update_self]
    rfl
  · rw [Function.update_of_ne hj, Function.update_of_ne hj]
    rfl

theorem Ordered.serve (hq : q.Ordered left) (hrequeued : q.requeued = none) (hserve : Serve now q item q') :
    q'.Homed ∧ q'.requeued = none ∧
      Lanes.InOrder (·.flow_hash) (·.arrival) q'.lanes (left ++ [item]) q'.arrived := by
  cases hserve with
  | @serve i flow d _ events hselected hchild =>
    obtain ⟨-, -, ⟨dropped, p, hqueue, hmarks⟩, -⟩ := do_dequeue_from_front hchild
    have hflow := hselected.2.1
    have hcharge : SameQueues (q.set_queue_disc i d) ((q.set_queue_disc i d).charge i item.size) :=
      same_queues_modify_flow fun _ _ => ⟨rfl, rfl⟩
    have hview : ((q.set_queue_disc i d).charge i item.size).view =
        Function.update q.view i (some (flow.index, d.packets)) :=
      hcharge.view.trans (view_set_queue_disc hflow)
    have hi : q.view i = some (flow.index, flow.queue_disc.packets) := by rw [view, hflow, Option.map_some]
    have hsub : d.packets ⊆ flow.queue_disc.packets := by
      rw [hqueue]
      exact fun p' hp' => List.mem_append_right _ (List.mem_cons_of_mem _ hp')
    have hdisc : (q.set_queue_disc i d).Idle := by
      refine idle_modify_flow hq.homed.idle fun flow' hflow' hstatus => ?_
      obtain rfl := Option.some.inj (hflow.symm.trans hflow')
      have hempty := hq.homed.idle i flow hflow hstatus
      rw [hqueue] at hempty
      simp at hempty
    have hidle : ((q.set_queue_disc i d).charge i item.size).Idle :=
      idle_modify_flow hdisc fun flow' hflow' hstatus => hdisc i flow' hflow' hstatus
    refine ⟨hq.homed.of_subset hi hsub hview rfl rfl hidle, hrequeued, ?_⟩
    have horder := hq.in_order
    rw [hrequeued, Option.toList_none, List.append_nil] at horder
    rw [lanes_update hview]
    have hitem : item.flow_hash = p.flow_hash ∧ item.arrival = p.arrival := by
      unfold Marks at hmarks
      rw [hmarks]
      exact ⟨rfl, rfl⟩
    exact horder.take ((lanes_eq hi).trans hqueue) hitem.1 hitem.2

def Holds (q : FqCoDelQueueDisc) (i flow_hash : UInt32) : Prop :=
  ∃ c, q.flows_indices i = some c ∧ ∃ p ∈ q.lanes c, p.flow_hash = flow_hash

/-- A queue holds a packet of another flow. -/
def HoldsOther (q : FqCoDelQueueDisc) (i flow_hash : UInt32) : Prop :=
  ∃ c, q.flows_indices i = some c ∧ ∃ p ∈ q.lanes c, p.flow_hash ≠ flow_hash

def Active (q : FqCoDelQueueDisc) (i : UInt32) : Prop :=
  ∃ c flow, q.flows_indices i = some c ∧ q.classes[c]? = some flow ∧ flow.status ≠ .inactive

/-- A queue that holds packets of the flow comes first among those the scan takes, or it is the
first of a set of which the scan takes none. -/
def Kept (q : FqCoDelQueueDisc) (flow_hash : UInt32) : Prop :=
  ∀ i ∈ ways q.attrs flow_hash, q.Holds i flow_hash →
    ∃ before after, ways q.attrs flow_hash = before ++ i :: after ∧
      (∀ j ∈ before, q.usable flow_hash j = false) ∧
      (q.usable flow_hash i = true ∨ before = [] ∧ ∀ j ∈ ways q.attrs flow_hash, q.usable flow_hash j = false)

/-- The first queue that the scan takes does not hold packets of other flows, unless all queues
of the set are active. -/
def Unshared (q : FqCoDelQueueDisc) (flow_hash : UInt32) : Prop :=
  ∀ before i after, ways q.attrs flow_hash = before ++ i :: after →
    (∀ j ∈ before, q.usable flow_hash j = false) → q.tags i = some flow_hash → q.HoldsOther i flow_hash →
      ∀ j ∈ ways q.attrs flow_hash, q.Active j

theorem ways_eq_cons {y : UInt32} (hways : q.attrs.set_ways ≠ 0) :
    ∃ rest, ways q.attrs y =
      (y % q.attrs.flows - y % q.attrs.flows % q.attrs.set_ways) :: rest := by
  obtain ⟨m, hm⟩ : ∃ m, q.attrs.set_ways.toNat = m + 1 :=
    Nat.exists_eq_succ_of_ne_zero fun hzero => hways (UInt32.toNat_inj.mp hzero)
  rw [ways, hm, List.range_succ_eq_map]
  exact ⟨_, congrArg (· :: _) (UInt32.add_zero _)⟩

/-- A flow whose packets are where the scan looks first is put there. -/
theorem Kept.selected (hkept : q.Kept flow_hash) (hi : h ∈ ways q.attrs flow_hash)
    (hholds : q.Holds h flow_hash) (hways : q.attrs.set_ways ≠ 0) :
    (q.set_associative_hash flow_hash).1 = h := by
  obtain ⟨before, after, heq, hbefore, hfirst⟩ := hkept h hi hholds
  unfold set_associative_hash
  rcases hfirst with huse | ⟨rfl, hnone⟩
  · have hfind : (ways q.attrs flow_hash).find? (q.usable flow_hash) = some h := by
      rw [List.find?_eq_some_iff_append]
      exact ⟨huse, before, after, heq, fun j hj => by rw [hbefore j hj]; rfl⟩
    simp only [hfind, Option.getD_some]
  · have hfind : (ways q.attrs flow_hash).find? (q.usable flow_hash) = none := by
      rw [List.find?_eq_none]
      exact fun j hj => by rw [hnone j hj]; exact Bool.false_ne_true
    obtain ⟨rest, hrest⟩ := ways_eq_cons (y := flow_hash) hways
    simp only [hfind, Option.getD_none]
    exact (List.cons.inj (hrest.symm.trans heq)).1

theorem active_of_not_usable (hq : q.Homed) (huse : q.usable flow_hash h = false) : q.Active h := by
  unfold usable at huse
  split at huse
  · cases huse
  next c hc =>
    obtain ⟨l, hl⟩ := hq.class_of h c hc
    obtain ⟨flow, hflow, -⟩ := Option.map_eq_some_iff.mp hl
    refine ⟨c, flow, hc, hflow, fun hstatus => ?_⟩
    simp [hflow, hstatus] at huse

/-- A packet is put in with packets of another flow only where all queues of the set are active. -/
theorem Unshared.selected (hunshared : q.Unshared flow_hash) (hq : q.Homed)
    (hshared : q.HoldsOther (q.set_associative_hash flow_hash).1 flow_hash) :
    ∀ j ∈ ways q.attrs flow_hash, q.Active j := by
  unfold set_associative_hash at hshared
  cases hfind : (ways q.attrs flow_hash).find? (q.usable flow_hash) with
  | none =>
    rw [List.find?_eq_none] at hfind
    exact fun j hj => active_of_not_usable hq (Bool.eq_false_iff.mpr (hfind j hj))
  | some i =>
    simp only [hfind, Option.getD_some] at hshared
    obtain ⟨huse, before, after, heq, hbefore⟩ := List.find?_eq_some_iff_append.mp hfind
    refine hunshared before i after heq (fun j hj => by simpa using hbefore j hj) ?_ hshared
    obtain ⟨c, hc, p, hp, -⟩ := hshared
    unfold usable at huse
    rw [hc] at huse
    rcases Bool.or_eq_true_iff.mp huse with htag | hinactive
    · exact of_decide_eq_true htag
    · obtain ⟨flow, hflow, hstatus⟩ := (Option.any_eq_true _ _).mp hinactive
      have hempty := hq.idle c flow hflow (of_decide_eq_true hstatus)
      have hview : q.view c = some (flow.index, flow.queue_disc.packets) := by rw [view, hflow, Option.map_some]
      rw [lanes_eq hview, hempty] at hp
      cases hp

theorem get_flow_spec (hq : q.Ordered left) :
    (q.get_flow h).2.Ordered left ∧ (∃ l, (q.get_flow h).2.view (q.get_flow h).1 = some (h, l)) ∧
      (∀ c, q.flows_indices h = some c → (q.get_flow h).1 = c) ∧ (q.get_flow h).2.lanes = q.lanes ∧
      (q.get_flow h).2.attrs = q.attrs ∧ (q.get_flow h).2.arrived = q.arrived := by
  unfold get_flow
  split
  next c hc =>
    exact ⟨hq, hq.homed.class_of h c hc, fun c' hc' => Option.some.inj (hc.symm.trans hc'), rfl, rfl, rfl⟩
  next hnone =>
    set q₁ : FqCoDelQueueDisc := { q with
      classes := q.classes ++ [q.new_flow h]
      flows_indices := Function.update q.flows_indices h (some q.classes.length) } with hq₁
    have hend : q.view q.classes.length = none := by
      rw [view, List.getElem?_eq_none le_rfl, Option.map_none]
    have hview : q₁.view = Function.update q.view q.classes.length (some (h, [])) := by
      funext j
      by_cases hj : j = q.classes.length
      · subst hj
        rw [Function.update_self]
        simp only [view, hq₁, List.getElem?_concat_length, Option.map_some]
        rfl
      · rw [Function.update_of_ne hj]
        simp only [view, hq₁, List.getElem?_append]
        split
        · rfl
        next hlt =>
          rw [List.getElem?_eq_none (not_lt.mp hlt), List.getElem?_eq_none]
          simp only [List.length_singleton]
          omega
    have hlanes : q₁.lanes = q.lanes := by
      rw [lanes_update hview]
      funext j
      by_cases hj : j = q.classes.length
      · subst hj
        rw [Function.update_self, lanes, hend]
        rfl
      · rw [Function.update_of_ne hj]
    have hself : q₁.view q.classes.length = some (h, []) := by rw [hview, Function.update_self]
    have hother : ∀ c, q.flows_indices h ≠ some c := fun c hc => nomatch hnone.symm.trans hc
    refine ⟨⟨⟨?_, ?_, ?_, ?_⟩, ?_⟩, ⟨[], hself⟩, fun c hc => absurd hc (hother c), hlanes, rfl, rfl⟩
    · intro h' c hc
      by_cases hh : h' = h
      · subst hh
        have heq : q₁.flows_indices h' = some q.classes.length := Function.update_self ..
        obtain rfl := Option.some.inj (heq.symm.trans hc)
        exact ⟨[], hself⟩
      · have heq : q₁.flows_indices h' = q.flows_indices h' := Function.update_of_ne hh ..
        rw [heq] at hc
        obtain ⟨l, hl⟩ := hq.homed.class_of h' c hc
        refine ⟨l, ?_⟩
        rw [hview, Function.update_of_ne]
        · exact hl
        · rintro rfl
          exact nomatch hend.symm.trans hl
    · intro c h' l hl
      rw [hview] at hl
      by_cases hc : c = q.classes.length
      · subst hc
        rw [Function.update_self] at hl
        cases hl
        exact Function.update_self ..
      · rw [Function.update_of_ne hc] at hl
        have hold := hq.homed.index_of c h' l hl
        have hne : h' ≠ h := by
          rintro rfl
          exact hother c hold
        exact (Function.update_of_ne hne ..).trans hold
    · intro c h' l hl p hp
      rw [hview] at hl
      by_cases hc : c = q.classes.length
      · subst hc
        rw [Function.update_self] at hl
        cases hl
        cases hp
      · rw [Function.update_of_ne hc] at hl
        exact hq.homed.home c h' l hl p hp
    · intro c flow hflow hstatus
      rcases List.mem_append.mp (List.mem_of_getElem? hflow) with hold | hnew
      · obtain ⟨i, hi⟩ := List.mem_iff_getElem?.mp hold
        exact hq.homed.idle i flow hi hstatus
      · rw [List.mem_singleton.mp hnew]
        rfl
    · rw [hlanes]
      exact hq.in_order

theorem activate_same_queues : SameQueues q (q.activate c) := by
  unfold activate
  split
  · exact (same_queues_modify_flow fun _ _ => ⟨rfl, rfl⟩ :
      SameQueues q (q.modify_flow c fun flow => { flow with status := .new_flow, deficit := q.quantum.toInt32 })).trans
      ⟨rfl, rfl, rfl, rfl, rfl⟩
  · exact SameQueues.refl q

theorem activate_idle (hq : q.Idle) : (q.activate c).Idle := by
  unfold activate
  split
  · have hnew : (q.modify_flow c fun flow =>
        { flow with status := .new_flow, deficit := q.quantum.toInt32 }).Idle :=
      idle_modify_flow hq fun _ _ hstatus => nomatch hstatus
    exact hnew.of_classes rfl
  · exact hq

theorem activate_active (hflow : (q.activate c).classes[c]? = some flow) : flow.status ≠ .inactive := by
  unfold activate at hflow
  split at hflow
  · have hnew : (q.modify_flow c fun flow =>
        { flow with status := .new_flow, deficit := q.quantum.toInt32 }).classes[c]? = some flow := hflow
    rw [getElem?_modify_flow, if_pos rfl] at hnew
    obtain ⟨flow₀, -, rfl⟩ := Option.map_eq_some_iff.mp hnew
    exact nofun
  next hactive =>
    intro hstatus
    simp [hflow, hstatus] at hactive

theorem Ordered.enqueue_flow {t : Time} {x : QueueDiscItem} (hq : q.Ordered left) (hhome : h ∈ homes q.attrs flow_hash)
    (hplace : ∀ c, ∀ p ∈ q.lanes c, p.flow_hash = flow_hash → q.flows_indices h = some c) :
    (q.enqueue_flow t h flow_hash x).1.Ordered left := by
  obtain ⟨hq₁, ⟨l, hl⟩, hclass, hlanes₁, hattrs₁, harrived₁⟩ := get_flow_spec (h := h) hq
  set c := (q.get_flow h).1 with hc
  set q₁ := (q.get_flow h).2 with hq₁def
  have hsame := activate_same_queues (q := q₁) (c := c)
  have hidle₂ := activate_idle (q := q₁) (c := c) hq₁.homed.idle
  have hq₂ : (q₁.activate c).Homed := hq₁.homed.of_same_queues hsame hidle₂
  have hl₂ : (q₁.activate c).view c = some (h, l) := by rw [hsame.view, hl]
  have hlanes₂ : (q₁.activate c).lanes = q.lanes := hsame.lanes.trans hlanes₁
  obtain ⟨flow, hflow, heq⟩ := Option.map_eq_some_iff.mp hl₂
  have hactive := activate_active hflow
  obtain ⟨hindex, hpackets⟩ := Prod.mk.inj heq
  have horder : Lanes.InOrder (·.flow_hash) (·.arrival) (q₁.activate c).lanes
      (left ++ (q₁.activate c).requeued.toList) (q₁.activate c).arrived := by
    rw [hsame.lanes, hsame.requeued, hsame.arrived]
    exact hq₁.in_order
  have hput : (q.enqueue_flow t h flow_hash x).1 =
      { (q₁.activate c).set_queue_disc c
          (flow.queue_disc.enqueue t ((q₁.activate c).received flow_hash x)).2.1 with
        arrived := (q₁.activate c).arrived + 1 } := by
    simp only [FqCoDelQueueDisc.enqueue_flow, ← hc, ← hq₁def, hflow]
    rfl
  rw [hput]
  have hview := view_set_queue_disc (q := q₁.activate c)
    (d := (flow.queue_disc.enqueue t ((q₁.activate c).received flow_hash x)).2.1) hflow
  have hidle : ((q₁.activate c).set_queue_disc c
      (flow.queue_disc.enqueue t ((q₁.activate c).received flow_hash x)).2.1).Idle := by
    refine idle_modify_flow hidle₂ fun flow' hflow' hstatus => ?_
    obtain rfl := Option.some.inj (hflow.symm.trans hflow')
    exact absurd hstatus hactive
  by_cases hfull : exceeds flow.queue_disc.max_size flow.queue_disc.packets
      ((q₁.activate c).received flow_hash x) = true
  · -- the queue disc of the flow is full
    have hsamed : (flow.queue_disc.enqueue t ((q₁.activate c).received flow_hash x)).2.1.packets = l := by
      rw [CoDelQueueDisc.enqueue, if_pos hfull, hpackets]
    rw [hsamed, hindex] at hview
    refine ⟨hq₂.of_subset hl₂ (List.Subset.refl l) hview rfl rfl (hidle.of_classes rfl), ?_⟩
    have hstill : ((q₁.activate c).set_queue_disc c
        (flow.queue_disc.enqueue t ((q₁.activate c).received flow_hash x)).2.1).lanes =
        (q₁.activate c).lanes := by
      rw [lanes_update hview, ← lanes_eq hl₂, Function.update_eq_self]
    change Lanes.InOrder _ _ (lanes ((q₁.activate c).set_queue_disc c _)) (left ++ (q₁.activate c).requeued.toList) _
    rw [hstill]
    exact horder.skip
  · set p : QueueDiscItem := { (q₁.activate c).received flow_hash x with time_stamp := t } with hp
    have hnew : (flow.queue_disc.enqueue t ((q₁.activate c).received flow_hash x)).2.1.packets = l ++ [p] := by
      rw [CoDelQueueDisc.enqueue, if_neg hfull, ← hpackets]
    rw [hnew, hindex] at hview
    refine ⟨⟨?_, ?_, ?_, hidle.of_classes rfl⟩, ?_⟩
    · intro h' c' hh'
      obtain ⟨l', hl'⟩ := hq₂.class_of h' c' hh'
      change ∃ l, ((q₁.activate c).set_queue_disc c _).view c' = some (h', l)
      rw [hview]
      by_cases hcc : c' = c
      · subst hcc
        rw [hl₂] at hl'
        cases hl'
        exact ⟨_, Function.update_self ..⟩
      · exact ⟨l', (Function.update_of_ne hcc ..).trans hl'⟩
    · intro c' h' l' hl'
      change ((q₁.activate c).set_queue_disc c _).view c' = some (h', l') at hl'
      rw [hview] at hl'
      by_cases hcc : c' = c
      · subst hcc
        rw [Function.update_self] at hl'
        cases hl'
        exact hq₂.index_of c h l hl₂
      · exact hq₂.index_of c' h' l' ((Function.update_of_ne hcc ..).symm.trans hl')
    · intro c' h' l' hl' p' hp'
      change ((q₁.activate c).set_queue_disc c _).view c' = some (h', l') at hl'
      change h' ∈ homes (q₁.activate c).attrs p'.flow_hash
      rw [hview] at hl'
      by_cases hcc : c' = c
      · subst hcc
        rw [Function.update_self] at hl'
        cases hl'
        rcases List.mem_append.mp hp' with hold | hnew'
        · exact hq₂.home c h l hl₂ p' hold
        · rw [List.mem_singleton.mp hnew', hsame.attrs, hattrs₁]
          exact hhome
      · exact hq₂.home c' h' l' ((Function.update_of_ne hcc ..).symm.trans hl') p' hp'
    · change Lanes.InOrder _ _ (lanes ((q₁.activate c).set_queue_disc c _)) (left ++ (q₁.activate c).requeued.toList) _
      rw [lanes_update hview, ← lanes_eq hl₂]
      refine horder.push rfl fun j p' hp' hkey => ?_
      rw [hlanes₂] at hp'
      exact (hclass j (hplace j p' hp' hkey)).symm

theorem drop_batch_suffix {batch threshold count len : UInt32} {l l' : List QueueDiscItem} {events : List QueueDiscEvent}
    (hd : drop_batch batch threshold l count len = some (l', events)) : l' <:+ l := by
  induction l generalizing count len l' events with
  | nil => cases hd
  | cons item rest ih =>
    unfold drop_batch at hd
    split at hd
    · obtain ⟨⟨l'', events'⟩, hrec, heq⟩ := Option.map_eq_some_iff.mp hd
      cases heq
      exact (ih hrec).trans (List.suffix_cons item rest)
    · cases hd
      exact List.suffix_cons item rest

theorem Ordered.fq_codel_drop (hq : q.Ordered left) {events : List QueueDiscEvent}
    (hd : q.fq_codel_drop = some (q', events)) : q'.Ordered left := by
  obtain ⟨flow, hflow, hd⟩ := Option.bind_eq_some_iff.mp hd
  obtain ⟨⟨l', events'⟩, hbatch, heq⟩ := Option.map_eq_some_iff.mp hd
  cases heq
  have hsuffix := drop_batch_suffix hbatch
  have hi : q.view q.fat_flow.2 = some (flow.index, flow.queue_disc.packets) := by rw [view, hflow, Option.map_some]
  set q₁ := q.modify_flow q.fat_flow.2 fun flow =>
    { flow with queue_disc := { flow.queue_disc with packets := l' } } with hq₁
  have hview : q₁.view = Function.update q.view q.fat_flow.2 (some (flow.index, l')) := by
    funext j
    rw [view, hq₁, getElem?_modify_flow]
    by_cases hij : q.fat_flow.2 = j
    · subst hij
      rw [if_pos rfl, hflow, Function.update_self]
      rfl
    · rw [if_neg hij, Function.update_of_ne (Ne.symm hij)]
      rfl
  have hidle : q₁.Idle := by
    refine idle_modify_flow hq.homed.idle fun flow' hflow' hstatus => ?_
    obtain rfl := Option.some.inj (hflow.symm.trans hflow')
    have hempty := hq.homed.idle _ flow hflow hstatus
    rw [hempty] at hsuffix
    exact List.suffix_nil.mp hsuffix
  refine ⟨hq.homed.of_subset hi hsuffix.subset hview rfl rfl hidle, ?_⟩
  refine Lanes.InOrder.sublist hq.in_order fun j => ?_
  rw [lanes_update hview]
  by_cases hj : j = q.fat_flow.2
  · subst hj
    rw [Function.update_self, lanes_eq hi]
    exact hsuffix.sublist
  · rw [Function.update_of_ne hj]

theorem Ordered.of_same_queues (hq : q.Ordered left) (hsame : SameQueues q q') (hidle : q'.Idle) :
    q'.Ordered left := by
  refine ⟨hq.homed.of_same_queues hsame hidle, ?_⟩
  rw [hsame.lanes, hsame.requeued, hsame.arrived]
  exact hq.in_order

theorem Homed.holds {p : QueueDiscItem} (hq : q.Homed) (hp : p ∈ q.lanes c) :
    ∃ h, h ∈ homes q.attrs p.flow_hash ∧ q.flows_indices h = some c ∧ q.Holds h p.flow_hash := by
  obtain ⟨h, l, hl, hmem⟩ := mem_lanes hp
  have hindex := hq.index_of c h l hl
  exact ⟨h, hq.home c h l hl p hmem, hindex, c, hindex, p, hp, rfl⟩

/-- The queue that is selected for a packet is where the packets of its flow are. -/
theorem Ordered.select_queue (hq : q.Ordered left) (hkept : q.attrs.enable_set_associative_hash = true → q.Kept flow_hash)
    (hselect : q.select_queue flow_hash = some (h, q')) :
    q'.Ordered left ∧ h ∈ homes q'.attrs flow_hash ∧
      ∀ c, ∀ p ∈ q'.lanes c, p.flow_hash = flow_hash → q'.flows_indices h = some c := by
  unfold FqCoDelQueueDisc.select_queue at hselect
  split at hselect
  · cases hselect
  split at hselect
  next henable =>
    split at hselect
    · cases hselect
    next hways =>
      cases hselect
      have hmem : (q.set_associative_hash flow_hash).1 ∈ homes q.attrs flow_hash := by
        rw [homes, if_pos henable]
        unfold set_associative_hash
        cases hfind : (ways q.attrs flow_hash).find? (q.usable flow_hash) with
        | some i => exact List.mem_of_find?_eq_some hfind
        | none =>
          obtain ⟨rest, hrest⟩ := ways_eq_cons (y := flow_hash) hways
          rw [hrest]
          exact List.mem_cons_self
      refine ⟨hq.of_same_queues ⟨rfl, rfl, rfl, rfl, rfl⟩ (hq.homed.idle.of_classes rfl), hmem, ?_⟩
      intro c p hp hkey
      have hp' : p ∈ q.lanes c := hp
      obtain ⟨i, hi, hindex, hholds⟩ := hq.homed.holds hp'
      rw [hkey] at hi hholds
      rw [homes, if_pos henable] at hi
      have hsame := (hkept henable).selected hi hholds hways
      have hself : q.flows_indices (q.set_associative_hash flow_hash).1 = some c := by
        rw [hsame]
        exact hindex
      exact hself
  next hdisabled =>
    cases hselect
    have hhomes : homes q.attrs flow_hash = [flow_hash % q.attrs.flows] := if_neg hdisabled
    refine ⟨hq, by rw [hhomes]; exact List.mem_cons_self, ?_⟩
    intro c p hp hkey
    obtain ⟨i, hi, hindex, -⟩ := hq.homed.holds hp
    rw [hkey, hhomes, List.mem_singleton] at hi
    rw [← hi]
    exact hindex

theorem Ordered.enqueue (hq : q.Ordered left) {r : Bool × FqCoDelQueueDisc × List QueueDiscEvent}
    (hkept : ∀ flow_hash, q.get_flow_hash item = some flow_hash →
      q.attrs.enable_set_associative_hash = true → q.Kept flow_hash)
    (henqueue : q.enqueue now item = some r) : r.2.1.Ordered left := by
  unfold FqCoDelQueueDisc.enqueue at henqueue
  split at henqueue
  · cases henqueue
    exact hq
  next flow_hash hhash =>
    obtain ⟨⟨h, q'⟩, hselect, henqueue⟩ := Option.bind_eq_some_iff.mp henqueue
    obtain ⟨hq', hhome, hplace⟩ := hq.select_queue (hkept flow_hash hhash) hselect
    have hput := hq'.enqueue_flow (t := now) (x := item) hhome hplace
    dsimp only at henqueue
    split at henqueue
    · obtain ⟨d, hdrop, heq⟩ := Option.map_eq_some_iff.mp henqueue
      cases heq
      exact hput.fq_codel_drop hdrop
    · cases henqueue
      exact hput

theorem Ordered.do_dequeue (hq : q.Ordered left) (hrequeued : q.requeued = none)
    {r : Option QueueDiscItem × FqCoDelQueueDisc × List QueueDiscEvent} (hdequeue : do_dequeue n q now = some r) :
    r.2.1.Homed ∧ r.2.1.requeued = none ∧
      Lanes.InOrder (·.flow_hash) (·.arrival) r.2.1.lanes (left ++ r.1.toList) r.2.1.arrived := by
  obtain ⟨served, q', events⟩ := r
  obtain ⟨q₁, hsteps, hnone, hsome⟩ := do_dequeue_steps hdequeue
  have hq₁ := hq.quiet hsteps
  have hrequeued₁ : q₁.requeued = none := by
    clear hnone hsome hq₁
    induction hsteps with
    | refl => exact hrequeued
    | tail _ hstep ih => rw [hstep.same_queues.requeued, ih]
  cases served with
  | none =>
    obtain ⟨rfl, -⟩ := hnone rfl
    have horder := hq₁.in_order
    rw [hrequeued₁] at horder
    exact ⟨hq₁.homed, hrequeued₁, horder⟩
  | some item => exact hq₁.serve hrequeued₁ (hsome item rfl)

theorem Homed.with_requeued (hq : q.Homed) (r : Option QueueDiscItem) : Homed { q with requeued := r } :=
  { hq with }

inductive Event
  | enqueue (item : QueueDiscItem)
  | dequeue
  | peek

/-- A call at a time, its loops with at most so many rounds, and the packets that leave. -/
def call (n : Nat) (q : FqCoDelQueueDisc) (now : Time) : Event → Option (List QueueDiscItem × FqCoDelQueueDisc)
  | .enqueue item => (q.enqueue now item).map fun r => ([], r.2.1)
  | .dequeue => (q.dequeue n now).map fun r => (r.1.toList, r.2.1)
  | .peek => (q.peek n now).map fun r => ([], r.2.1)

/-- The packets that are classified, with the state in which they are. -/
def classified (q : FqCoDelQueueDisc) : Event → List (FqCoDelQueueDisc × UInt32)
  | .enqueue item => (q.get_flow_hash item).toList.map fun flow_hash => (q, flow_hash)
  | _ => []

/-- A run of a queue disc: its state, the packets that have left, and what has been classified.
With the set associative hash every packet is classified where its flow is kept in one queue, and
is not put in with packets of another flow while a queue of the set is inactive. -/
inductive Run (q₀ : FqCoDelQueueDisc) :
    FqCoDelQueueDisc → List QueueDiscItem → List (FqCoDelQueueDisc × UInt32) → Prop
  | init : Run q₀ q₀ [] []
  | step {q q' : FqCoDelQueueDisc} {left out : List QueueDiscItem} {log : List (FqCoDelQueueDisc × UInt32)}
      {n : Nat} {now : Time} {e : Event} (hrun : Run q₀ q left log)
      (hgood : ∀ x ∈ q.classified e, q.attrs.enable_set_associative_hash = true → q.Kept x.2 ∧ q.Unshared x.2)
      (hcall : q.call n now e = some (out, q')) : Run q₀ q' (left ++ out) (log ++ q.classified e)

theorem Ordered.call {out : List QueueDiscItem} {e : Event} (hq : q.Ordered left)
    (hkept : ∀ x ∈ q.classified e, q.attrs.enable_set_associative_hash = true → q.Kept x.2)
    (hcall : q.call n now e = some (out, q')) : q'.Ordered (left ++ out) := by
  cases e with
  | enqueue item =>
    obtain ⟨r, henqueue, heq⟩ := Option.map_eq_some_iff.mp hcall
    cases heq
    rw [List.append_nil]
    refine hq.enqueue (fun flow_hash hhash => hkept (q, flow_hash) ?_) henqueue
    rw [classified, hhash]
    exact List.mem_cons_self
  | dequeue =>
    obtain ⟨r, hdequeue, heq⟩ := Option.map_eq_some_iff.mp hcall
    cases heq
    unfold dequeue at hdequeue
    split at hdequeue
    next item hrequeued =>
      cases hdequeue
      have horder := hq.in_order
      rw [hrequeued] at horder
      refine ⟨hq.homed.with_requeued none, ?_⟩
      change Lanes.InOrder _ _ q.lanes (left ++ [item] ++ []) q.arrived
      rw [List.append_nil]
      exact horder
    next hrequeued =>
      obtain ⟨hhomed, hrequeued', horder⟩ := hq.do_dequeue hrequeued hdequeue
      refine ⟨hhomed, ?_⟩
      rw [hrequeued', Option.toList_none, List.append_nil]
      exact horder
  | peek =>
    obtain ⟨r, hpeek, heq⟩ := Option.map_eq_some_iff.mp hcall
    cases heq
    rw [List.append_nil]
    unfold peek at hpeek
    split at hpeek
    next item hrequeued =>
      cases hpeek
      exact hq
    next hrequeued =>
      obtain ⟨r', hdequeue, heq⟩ := Option.map_eq_some_iff.mp hpeek
      cases heq
      obtain ⟨hhomed, -, horder⟩ := hq.do_dequeue hrequeued hdequeue
      exact ⟨hhomed.with_requeued r'.1, horder⟩

def Fresh (q : FqCoDelQueueDisc) : Prop :=
  q.classes = [] ∧ q.flows_indices = (fun _ => none) ∧ q.requeued = none

theorem Fresh.ordered (hq : q.Fresh) : q.Ordered [] := by
  obtain ⟨hclasses, hindices, hrequeued⟩ := hq
  have hview : ∀ c, q.view c = none := fun c => by rw [view, hclasses]; rfl
  have hlanes : q.lanes = fun _ => [] := by
    funext c
    rw [lanes, hview]
    rfl
  refine ⟨⟨?_, ?_, ?_, ?_⟩, ?_⟩
  · intro h c hc
    rw [hindices] at hc
    cases hc
  · exact fun c h l hl => nomatch (hview c).symm.trans hl
  · exact fun c h l hl => nomatch (hview c).symm.trans hl
  · intro c flow hflow
    rw [hclasses] at hflow
    cases hflow
  · rw [hlanes, hrequeued]
    exact Lanes.InOrder.empty

theorem Run.ordered {q₀ : FqCoDelQueueDisc} {log : List (FqCoDelQueueDisc × UInt32)} (hq₀ : q₀.Fresh)
    (hrun : Run q₀ q left log) : q.Ordered left := by
  induction hrun with
  | init => exact hq₀.ordered
  | step _ hgood hcall ih => exact ih.call (fun x hx henable => (hgood x hx henable).1) hcall

/-- The packets that leave in a sequence of calls. -/
def departures (n : Nat) (q : FqCoDelQueueDisc) : List (Time × Event) → Option (List QueueDiscItem)
  | [] => some []
  | (now, e) :: calls => (q.call n now e).bind fun r => (departures n r.2 calls).map (r.1 ++ ·)

/-- Two queues in one set. The hash of a packet is its DS field. -/
def pair : FqCoDelQueueDisc where
  attrs := { flows := 2, enable_set_associative_hash := true, set_ways := 2 }
  quantum := 1500
  hash item _ := UInt32.ofNat (item.tos.getD 0).toNat

def packet (flow_hash : UInt8) (uid : Nat) : QueueDiscItem := { uid, size := 1500, tos := some flow_hash }

/-- A flow is put into the queue of another one that has become inactive. -/
def takeover : List (Time × Event) :=
  [.enqueue (packet 2 0), .enqueue (packet 0 1), .enqueue (packet 0 2), .enqueue (packet 0 3),
    .dequeue, .dequeue, .dequeue, .enqueue (packet 0 4), .dequeue, .dequeue].map fun e => (0, e)

end Ns3.TrafficControl.FqCoDelQueueDisc
