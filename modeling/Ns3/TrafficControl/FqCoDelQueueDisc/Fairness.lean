import Ns3.TrafficControl.FqCoDelQueueDisc.Schedule

namespace Ns3.TrafficControl.FqCoDelQueueDisc

open Relation (ReflTransGen)
open CoDelQueueDisc (Marks FromFront do_dequeue_from_front do_dequeue_isSome)

variable {q q' q₁ : FqCoDelQueueDisc} {a b i j c n : Nat} {flow : FqCoDelFlow} {f : FqCoDelFlow → FqCoDelFlow}
  {item : QueueDiscItem} {now : Time} {Q L : Nat}

/-- How far the deficit of a flow is from one. -/
def lack (q : FqCoDelQueueDisc) (c : Nat) : Nat := (q.classes[c]?.map fun flow => (1 - flow.deficit.toInt).toNat).getD 0

/-- The rounds that are left to the second loop. -/
def rounds (q : FqCoDelQueueDisc) : Nat := (q.old_flows.map q.lack).sum

theorem rounds_rotate {rest : List Nat} (hpos : 1 ≤ q.quantum.toNat) (hmax : q.quantum.toNat ≤ 2 ^ 30)
    (hold : q.old_flows = i :: rest) (hflow : q.classes[i]? = some flow) (hover : flow.deficit ≤ 0) :
    (q.rotate i rest).rounds < q.rounds := by
  have hsum := toInt_add_quantum hmax hover
  have hover : flow.deficit.toInt ≤ 0 := Int32.le_iff_toInt_le.mp hover
  have hget : ∀ j, (q.rotate i rest).classes[j]? = if i = j then q.classes[j]?.map fun flow =>
      { flow with deficit := flow.deficit + q.quantum.toInt32 } else q.classes[j]? := fun j => getElem?_modify_flow
  have hlack : (q.rotate i rest).lack i < q.lack i := by
    rw [lack, lack, hget, if_pos rfl, hflow, Option.map_some, Option.map_some, Option.map_some, Option.getD_some,
      Option.getD_some, hsum]
    omega
  have hle : ∀ j, (q.rotate i rest).lack j ≤ q.lack j := by
    intro j
    by_cases hij : i = j
    · subst hij
      exact hlack.le
    · rw [lack, hget, if_neg hij]
      rfl
  have hrest : (rest.map (q.rotate i rest).lack).sum ≤ (rest.map q.lack).sum :=
    List.sum_le_sum fun j _ => hle j
  change ((rest ++ [i]).map (q.rotate i rest).lack).sum < _
  rw [rounds, hold, List.map_append, List.sum_append, List.map_singleton, List.sum_singleton, List.map_cons,
    List.sum_cons]
  omega

theorem next_old_ends (hpos : 1 ≤ Q) (hmax : Q ≤ 2 ^ 30) (hquantum : q.quantum.toNat = Q) :
    ∃ n₀ q', ∀ n ≥ n₀, next_old n q = some q' := by
  induction hm : q.rounds using Nat.strong_induction_on generalizing q with
  | _ m ih =>
    cases hold : q.old_flows with
    | nil =>
      refine ⟨1, q, fun n hn => ?_⟩
      obtain ⟨n, rfl⟩ := Nat.exists_eq_add_of_le' hn
      rw [next_old, hold]
    | cons i rest =>
      by_cases hover : q.exhausted i = true
      · obtain ⟨flow, hflow, hdeficit⟩ := exists_of_exhausted hover
        have hless := rounds_rotate (by omega) (by omega) hold hflow hdeficit
        obtain ⟨n₀, q', hrec⟩ := ih _ (hm ▸ hless) (q := q.rotate i rest) hquantum rfl
        refine ⟨n₀ + 1, q', fun n hn => ?_⟩
        obtain ⟨n, rfl⟩ := Nat.exists_eq_add_of_le' (Nat.le_of_add_left_le hn)
        rw [next_old, hold]
        dsimp only
        rw [if_pos hover]
        exact hrec n (by omega)
      · refine ⟨1, q, fun n hn => ?_⟩
        obtain ⟨n, rfl⟩ := Nat.exists_eq_add_of_le' hn
        rw [next_old, hold]
        dsimp only
        rw [if_neg hover]

theorem next_new_quantum {l : List Nat} : (q.next_new l).quantum = q.quantum := by
  induction l generalizing q with
  | nil => rfl
  | cons i rest ih =>
    unfold next_new
    split
    · rw [ih]
      rfl
    · rfl

theorem find_flow_ends (hpos : 1 ≤ Q) (hmax : Q ≤ 2 ^ 30) (hquantum : q.quantum.toNat = Q) :
    ∃ n₀ q', ∀ n ≥ n₀, find_flow n q = some q' := by
  unfold find_flow
  dsimp only
  split
  · exact next_old_ends hpos hmax (by rw [next_new_quantum, hquantum])
  · exact ⟨0, _, fun _ _ => rfl⟩

/-- The flows that are left, those that are new twice. -/
def turns (q : FqCoDelQueueDisc) : Nat := 2 * q.new_flows.length + q.old_flows.length

theorem turns_retire {d : CoDelQueueDisc} (hselected : q.Selected i flow) :
    ((q.set_queue_disc i d).retire i).turns < q.turns := by
  unfold FqCoDelQueueDisc.retire turns
  split
  next hempty =>
    have hnone : q.new_flows = [] := List.isEmpty_iff.mp hempty
    have hhead := hselected.1
    rw [hnone, List.nil_append] at hhead
    obtain ⟨rest, hrest⟩ := List.head?_eq_some_iff.mp hhead
    change 2 * q.new_flows.length + q.old_flows.tail.length < _
    rw [hnone, hrest]
    exact Nat.lt_succ_self _
  next hsome =>
    obtain ⟨j, rest, hrest⟩ := List.exists_cons_of_ne_nil (mt List.isEmpty_iff.mpr hsome)
    have hfront : q.new_flows = j :: rest := hrest
    change 2 * q.new_flows.tail.length + (q.old_flows ++ [i]).length < _
    rw [hfront, List.tail_cons, List.length_append, List.length_singleton, List.length_cons]
    omega

theorem Quiet.turns_le (hstep : Quiet now q q') : q'.turns ≤ q.turns := by
  cases hstep with
  | @demote i rest flow hnew _ _ =>
    change 2 * rest.length + (q.old_flows ++ [i]).length ≤ _
    rw [turns, hnew, List.length_append, List.length_singleton, List.length_cons]
    omega
  | @rotate i rest flow _ hold _ _ =>
    change 2 * q.new_flows.length + (rest ++ [i]).length ≤ _
    rw [turns, hold, List.length_append, List.length_singleton, List.length_cons]
  | @retire i flow d events hselected _ => exact (turns_retire hselected).le

theorem turns_le (hsteps : ReflTransGen (Quiet now) q q') : q'.turns ≤ q.turns := by
  induction hsteps with
  | refl => exact le_rfl
  | tail _ hstep ih => exact hstep.turns_le.trans ih

theorem Scheduled.do_dequeue_ends (hpos : 1 ≤ Q) (hmax : Q ≤ 2 ^ 30) (hq : Scheduled Q L q) (now : Time) :
    ∃ n₀ r, ∀ n ≥ n₀, FqCoDelQueueDisc.do_dequeue n q now = some r := by
  induction hm : q.turns using Nat.strong_induction_on generalizing q with
  | _ m ih =>
    obtain ⟨n₁, q₁, hfind⟩ := find_flow_ends hpos hmax hq.quantum
    obtain ⟨hsteps, hlive⟩ := find_flow_steps (t := now) (hfind n₁ le_rfl)
    have hq₁ := hq.quiets hpos hmax hsteps
    cases hhead : (q₁.new_flows ++ q₁.old_flows).head? with
    | none =>
      refine ⟨n₁ + 1, (none, q₁, []), fun n hn => ?_⟩
      obtain ⟨n, rfl⟩ := Nat.exists_eq_add_of_le' (Nat.le_of_add_left_le hn)
      rw [FqCoDelQueueDisc.do_dequeue, hfind n (by omega), Option.bind_some, hhead]
    | some i =>
      obtain ⟨flow, hflow⟩ := hq₁.listed.bounded.exists_flow (List.mem_of_mem_head? hhead)
      obtain ⟨⟨served, d, childEvents⟩, hchild⟩ :=
        Option.isSome_iff_exists.mp (do_dequeue_isSome (t := now) (hq₁.sound i flow hflow).min_bytes)
      cases served with
      | some item =>
        refine ⟨n₁ + 1, (some item, (q₁.set_queue_disc i d).charge i item.size, childEvents.map child_event),
          fun n hn => ?_⟩
        obtain ⟨n, rfl⟩ := Nat.exists_eq_add_of_le' (Nat.le_of_add_left_le hn)
        rw [FqCoDelQueueDisc.do_dequeue, hfind n (by omega), Option.bind_some, hhead]
        dsimp only
        rw [hflow, Option.bind_some, hchild]
        rfl
      | none =>
        have hselected : q₁.Selected i flow :=
          ⟨hhead, hflow, fun hover => absurd ((exhausted_iff hflow).mpr hover) (Bool.eq_false_iff.mp (hlive i hhead))⟩
        have hless : ((q₁.set_queue_disc i d).retire i).turns < m :=
          hm ▸ (turns_retire hselected).trans_le (turns_le hsteps)
        have hq₂ := hq₁.quiet hpos hmax (.retire hselected hchild)
        obtain ⟨n₂, r, hrec⟩ := ih _ hless hq₂ rfl
        refine ⟨max n₁ n₂ + 1, (r.1, r.2.1, childEvents.map child_event ++ r.2.2), fun n hn => ?_⟩
        obtain ⟨n, rfl⟩ := Nat.exists_eq_add_of_le' (Nat.le_of_add_left_le hn)
        rw [FqCoDelQueueDisc.do_dequeue, hfind n (by omega), Option.bind_some, hhead]
        dsimp only
        rw [hflow, Option.bind_some, hchild, Option.bind_some]
        have hagain := hrec n (by omega)
        rw [set_queue_disc] at hagain
        dsimp only
        rw [hagain]
        rfl

/-- The bytes that have been dequeued from a flow. -/
def sent_of (q : FqCoDelQueueDisc) (c : Nat) : Int := (q.classes[c]?.map fun flow => (flow.sent : Int)).getD 0

def credit (q : FqCoDelQueueDisc) (c : Nat) : Int :=
  (q.classes[c]?.map fun flow => (flow.sent : Int) + flow.deficit.toInt).getD 0

/-- The quantum by which a flow is behind another one that it comes before. -/
def lead (q : FqCoDelQueueDisc) (a b : Nat) : Int :=
  if q.old_flows.idxOf a < q.old_flows.idxOf b then q.quantum.toNat else 0

def gap (q : FqCoDelQueueDisc) (a b : Nat) : Int := q.credit a - q.credit b + q.lead a b

/-- The old flows and what they have been given are the same. -/
structure Level (q q' : FqCoDelQueueDisc) : Prop where
  old_flows : q'.old_flows = q.old_flows
  quantum : q'.quantum = q.quantum
  credit : ∀ c ∈ q.old_flows, q'.credit c = q.credit c

theorem Level.trans (h : Level q q₁) (h' : Level q₁ q') : Level q q' :=
  ⟨h'.old_flows.trans h.old_flows, h'.quantum.trans h.quantum,
    fun c hc => (h'.credit c (h.old_flows.symm ▸ hc)).trans (h.credit c hc)⟩

theorem Level.gap (h : Level q q') (ha : a ∈ q.old_flows) (hb : b ∈ q.old_flows) : q'.gap a b = q.gap a b := by
  unfold FqCoDelQueueDisc.gap lead
  rw [h.credit a ha, h.credit b hb, h.old_flows, h.quantum]

theorem credit_of_classes (hclasses : q'.classes[c]? = q.classes[c]?) : q'.credit c = q.credit c := by
  rw [credit, credit, hclasses]

theorem credit_modify_ne (hic : i ≠ c) : (q.modify_flow i f).credit c = q.credit c :=
  credit_of_classes (by rw [getElem?_modify_flow, if_neg hic])

theorem credit_modify_flow (hf : ∀ flow, q.classes[i]? = some flow →
      ((f flow).sent : Int) + (f flow).deficit.toInt = flow.sent + flow.deficit.toInt) :
    (q.modify_flow i f).credit c = q.credit c := by
  by_cases hic : i = c
  · subst hic
    rw [credit, credit, getElem?_modify_flow, if_pos rfl]
    cases hflow : q.classes[i]? with
    | none => rfl
    | some flow => exact hf flow hflow
  · exact credit_modify_ne hic

theorem level_modify_flow (hf : ∀ flow, q.classes[i]? = some flow →
      ((f flow).sent : Int) + (f flow).deficit.toInt = flow.sent + flow.deficit.toInt) : Level q (q.modify_flow i f) :=
  ⟨rfl, rfl, fun _ _ => credit_modify_flow hf⟩

theorem credit_increase (hmax : q.quantum.toNat ≤ 2 ^ 30) (hflow : q.classes[i]? = some flow)
    (hover : flow.deficit ≤ 0) : (q.increase_deficit i q.quantum.toInt32).credit i = q.credit i + q.quantum.toNat := by
  rw [credit, credit, increase_deficit, getElem?_modify_flow, if_pos rfl, hflow, Option.map_some, Option.map_some,
    Option.map_some, Option.getD_some, Option.getD_some, toInt_add_quantum hmax hover]
  ring

theorem Serve.level (hserve : Serve now q item q') : Level q q' := by
  cases hserve with
  | @serve i flow d _ events hselected _ =>
    have hdisc : Level q (q.set_queue_disc i d) := level_modify_flow fun _ _ => rfl
    refine hdisc.trans (level_modify_flow fun flow' hflow' => ?_)
    rw [set_queue_disc, getElem?_modify_flow, if_pos rfl, hselected.2.1] at hflow'
    cases hflow'
    have hsub := toInt_sub_size item.size_lt hselected.2.2
    change ((flow.sent + item.size.toNat : Nat) : Int) + (flow.deficit + (item.size * (-1)).toInt32).toInt = _
    rw [hsub]
    push_cast
    ring

theorem gap_rotate {rest : List Nat} (hmax : q.quantum.toNat ≤ 2 ^ 30) (honce : q.old_flows.Nodup)
    (hold : q.old_flows = i :: rest) (hflow : q.classes[i]? = some flow) (hover : flow.deficit ≤ 0)
    (ha : a ∈ q.old_flows) (hb : b ∈ q.old_flows) (hab : a ≠ b) : (q.rotate i rest).gap a b = q.gap a b := by
  have hfront : (q.rotate i rest).credit i = q.credit i + q.quantum.toNat := credit_increase hmax hflow hover
  have hother : ∀ c, i ≠ c → (q.rotate i rest).credit c = q.credit c := fun c hc => credit_modify_ne hc
  have hlead : (q.rotate i rest).lead a b =
      if (rest ++ [i]).idxOf a < (rest ++ [i]).idxOf b then (q.quantum.toNat : Int) else 0 := rfl
  rw [hold] at honce ha hb
  have hi : i ∉ rest := (List.nodup_cons.mp honce).1
  have hend : (rest ++ [i]).idxOf i = rest.length := by
    rw [List.idxOf_append_of_notMem hi, List.idxOf_cons_self, Nat.add_zero]
  have hrest : ∀ c ∈ rest, (rest ++ [i]).idxOf c = rest.idxOf c ∧ rest.idxOf c < rest.length :=
    fun c hc => ⟨List.idxOf_append_of_mem hc, List.idxOf_lt_length_iff.mpr hc⟩
  unfold gap
  rw [hlead, lead, hold]
  rcases List.mem_cons.mp ha with rfl | ha
  · -- `a` is at the front
    have hb : b ∈ rest := (List.mem_cons.mp hb).resolve_left (Ne.symm hab)
    obtain ⟨hbpos, hblt⟩ := hrest b hb
    rw [hfront, hother b hab, hend, hbpos, if_neg (by omega), List.idxOf_cons_self, List.idxOf_cons_ne _ hab,
      if_pos (Nat.succ_pos _)]
    ring
  · have hia : i ≠ a := fun h => hi (h ▸ ha)
    obtain ⟨hapos, halt⟩ := hrest a ha
    rcases List.mem_cons.mp hb with rfl | hb
    · -- `b` is at the front
      rw [hfront, hother a hia, hend, hapos, if_pos halt, List.idxOf_cons_self, if_neg (Nat.not_lt_zero _)]
      ring
    · have hib : i ≠ b := fun h => hi (h ▸ hb)
      obtain ⟨hbpos, -⟩ := hrest b hb
      rw [hother a hia, hother b hib, hapos, hbpos, List.idxOf_cons_ne _ hia, List.idxOf_cons_ne _ hib]
      simp only [Nat.succ_lt_succ_iff]

theorem Quiet.gap (hstep : Quiet now q q') (hmax : q.quantum.toNat ≤ 2 ^ 30) (hq : q.Listed) (ha : a ∈ q.old_flows)
    (hb : b ∈ q.old_flows) (ha' : a ∈ q'.old_flows) (hb' : b ∈ q'.old_flows) (hab : a ≠ b) :
    q'.gap a b = q.gap a b := by
  have honce := hq.once
  have happend : ∀ {i : Nat} {q₁ : FqCoDelQueueDisc}, q₁.old_flows = q.old_flows ++ [i] → q₁.quantum = q.quantum →
      (∀ c ∈ q.old_flows, q₁.credit c = q.credit c) → q₁.gap a b = q.gap a b := by
    intro i q₁ hold hquantum hcredit
    unfold FqCoDelQueueDisc.gap lead
    rw [hcredit a ha, hcredit b hb, hold, hquantum, List.idxOf_append_of_mem ha, List.idxOf_append_of_mem hb]
  cases hstep with
  | @demote i rest flow hnew hflow hover =>
    refine happend rfl rfl fun c hc => ?_
    have hic : i ≠ c := by
      rintro rfl
      rw [hnew] at honce
      exact (List.nodup_cons.mp honce).1 (List.mem_append_right _ hc)
    have hincrease : (q.increase_deficit i q.quantum.toInt32).credit c = q.credit c := credit_modify_ne hic
    have hstatus : ((q.increase_deficit i q.quantum.toInt32).set_status i .old_flow).credit c =
        (q.increase_deficit i q.quantum.toInt32).credit c := credit_modify_flow fun _ _ => rfl
    exact hstatus.trans hincrease
  | @rotate i rest flow hnew hold hflow hover =>
    exact gap_rotate hmax honce.of_append_right hold hflow hover ha hb hab
  | @retire i flow d events hselected _ =>
    have hdisc : ∀ c, (q.set_queue_disc i d).credit c = q.credit c := fun c => credit_modify_flow fun _ _ => rfl
    have hstatus : ∀ c status, ((q.set_queue_disc i d).set_status i status).credit c = q.credit c :=
      fun c status => Eq.trans (credit_modify_flow fun _ _ => rfl) (hdisc c)
    unfold FqCoDelQueueDisc.retire at ha' hb' ⊢
    split at ha'
    next hempty =>
      rw [if_pos hempty] at hb' ⊢
      have hnone : q.new_flows = [] := List.isEmpty_iff.mp hempty
      have hhead := hselected.1
      rw [hnone, List.nil_append] at hhead honce
      obtain ⟨rest, hrest⟩ := List.head?_eq_some_iff.mp hhead
      have ha' : a ∈ q.old_flows.tail := ha'
      have hb' : b ∈ q.old_flows.tail := hb'
      rw [hrest] at honce ha' hb'
      have hi : i ∉ rest := (List.nodup_cons.mp honce).1
      have hia : i ≠ a := fun h => hi (h ▸ ha')
      have hib : i ≠ b := fun h => hi (h ▸ hb')
      have hfront : ∀ {q₁ : FqCoDelQueueDisc}, q₁.old_flows = rest → q₁.quantum = q.quantum →
          (∀ c, q₁.credit c = q.credit c) → q₁.gap a b = q.gap a b := by
        intro q₁ hold hquantum hcredit
        unfold FqCoDelQueueDisc.gap lead
        rw [hcredit, hcredit, hold, hquantum, hrest, List.idxOf_cons_ne _ hia, List.idxOf_cons_ne _ hib]
        simp only [Nat.succ_lt_succ_iff]
      exact hfront (congrArg List.tail hrest) rfl fun c => hstatus c .inactive
    next hsome =>
      rw [if_neg hsome]
      exact happend rfl rfl fun c _ => hstatus c .old_flow

theorem Quiet.stays (hstep : Quiet now q q') (hc : c ∈ q.old_flows) (hc' : c ∈ q'.new_flows ++ q'.old_flows)
    (hq : q.Listed) : c ∈ q'.old_flows := by
  have hoff : c ∉ q.new_flows := fun hnew => (List.disjoint_of_nodup_append hq.once) hnew hc
  rcases List.mem_append.mp hc' with hnew | hold
  · refine absurd ?_ hoff
    cases hstep with
    | @demote i rest flow hfront _ _ =>
      rw [hfront]
      exact List.mem_cons_of_mem _ hnew
    | rotate => exact hnew
    | @retire i flow d events _ _ =>
      unfold FqCoDelQueueDisc.retire at hnew
      split at hnew
      · exact hnew
      · have hnew : c ∈ q.new_flows.tail := hnew
        exact List.mem_of_mem_tail hnew
  · exact hold

theorem subset_of_quiets (hsteps : ReflTransGen (Quiet now) q q') :
    q'.new_flows ++ q'.old_flows ⊆ q.new_flows ++ q.old_flows := by
  induction hsteps with
  | refl => exact List.Subset.refl _
  | tail _ hstep ih => exact List.Subset.trans hstep.subset ih

theorem Scheduled.quiets_gap (hpos : 1 ≤ Q) (hmax : Q ≤ 2 ^ 30) (hsteps : ReflTransGen (Quiet now) q q')
    (hq : Scheduled Q L q) (ha : a ∈ q.old_flows) (hb : b ∈ q.old_flows) (ha' : a ∈ q'.old_flows)
    (hb' : b ∈ q'.old_flows) (hab : a ≠ b) : q'.gap a b = q.gap a b := by
  induction hsteps using ReflTransGen.head_induction_on with
  | refl => rfl
  | @head q q₁ hstep hrest ih =>
    have hsubset := subset_of_quiets hrest
    have ha₁ := hstep.stays ha (hsubset (List.mem_append_right _ ha')) hq.listed
    have hb₁ := hstep.stays hb (hsubset (List.mem_append_right _ hb')) hq.listed
    have hquantum := hq.quantum
    rw [ih (hq.quiet hpos hmax hstep) ha₁ hb₁]
    exact hstep.gap (by omega) hq.listed ha hb ha₁ hb₁ hab

theorem Scheduled.do_dequeue_gap (hpos : 1 ≤ Q) (hmax : Q ≤ 2 ^ 30) (hq : Scheduled Q L q)
    {r : Option QueueDiscItem × FqCoDelQueueDisc × List QueueDiscEvent}
    (hdequeue : FqCoDelQueueDisc.do_dequeue n q now = some r) (ha : a ∈ q.old_flows) (hb : b ∈ q.old_flows)
    (ha' : a ∈ r.2.1.old_flows) (hb' : b ∈ r.2.1.old_flows) (hab : a ≠ b) : r.2.1.gap a b = q.gap a b := by
  obtain ⟨served, q', events⟩ := r
  obtain ⟨q₁, hsteps, hnone, hsome⟩ := do_dequeue_steps hdequeue
  cases served with
  | none =>
    obtain ⟨rfl, -, hold⟩ := hnone rfl
    rw [hold] at ha'
    exact absurd ha' List.not_mem_nil
  | some item =>
    have hlevel := (hsome item rfl).level
    rw [hlevel.old_flows] at ha' hb'
    exact (hlevel.gap ha' hb').trans (hq.quiets_gap hpos hmax hsteps ha hb ha' hb' hab)

theorem level_activate (hq : q.Listed) : Level q (q.activate i) := by
  unfold activate
  split
  next hinactive =>
    refine ⟨rfl, rfl, fun c hc => ?_⟩
    have hic : i ≠ c := by
      rintro rfl
      have hstatus := ((listed_iff.mp hq).2.2 i).mp hc
      rw [status_eq_inactive_iff.mpr hinactive] at hstatus
      cases hstatus
    exact credit_modify_ne hic
  next => exact ⟨rfl, rfl, fun _ _ => rfl⟩

theorem listed_get_flow (hq : q.Listed) (h : UInt32) : (q.get_flow h).2.Listed ∧ Level q (q.get_flow h).2 := by
  unfold get_flow
  split
  next => exact ⟨hq, rfl, rfl, fun _ _ => rfl⟩
  next hnone =>
    refine ⟨hq.of_status rfl rfl fun c status hne => ?_, rfl, rfl, fun c hc => ?_⟩
    · change (q.classes ++ [q.new_flow h])[c]?.map (·.status) = some status ↔ q.classes[c]?.map (·.status) = some status
      rcases lt_trichotomy c q.classes.length with hlt | rfl | hgt
      · rw [List.getElem?_append_left hlt]
      · rw [List.getElem?_concat_length, List.getElem?_eq_none le_rfl]
        simp [new_flow, Ne.symm hne]
      · rw [List.getElem?_eq_none (by simp; omega), List.getElem?_eq_none hgt.le]
    · exact credit_of_classes (List.getElem?_append_left (hq.bounded c (List.mem_append_right _ hc)))

theorem level_enqueue_flow {t : Time} {x : QueueDiscItem} {h y : UInt32} (hq : q.Listed) :
    Level q (q.enqueue_flow t h y x).1 := by
  obtain ⟨hlisted, hget⟩ := listed_get_flow hq h
  have hactivate := hget.trans (level_activate (i := (q.get_flow h).1) hlisted)
  unfold FqCoDelQueueDisc.enqueue_flow
  dsimp only
  split
  next => exact hactivate
  next flow hflow =>
    refine hactivate.trans ?_
    have hdisc : ∀ d, Level ((q.get_flow h).2.activate (q.get_flow h).1)
        (((q.get_flow h).2.activate (q.get_flow h).1).set_queue_disc (q.get_flow h).1 d) :=
      fun d => level_modify_flow fun _ _ => rfl
    exact ⟨rfl, rfl, (hdisc _).credit⟩

theorem Scheduled.level_enqueue (hq : Scheduled Q L q) {r : Bool × FqCoDelQueueDisc × List QueueDiscEvent}
    (henqueue : q.enqueue now item = some r) : Level q r.2.1 := by
  unfold FqCoDelQueueDisc.enqueue at henqueue
  split at henqueue
  · cases henqueue
    exact ⟨rfl, rfl, fun _ _ => rfl⟩
  next flow_hash hhash =>
    obtain ⟨⟨h, q'⟩, hselect, henqueue⟩ := Option.bind_eq_some_iff.mp henqueue
    have hsame : q'.classes = q.classes ∧ q'.new_flows = q.new_flows ∧ q'.old_flows = q.old_flows ∧
        q'.quantum = q.quantum := by
      unfold select_queue at hselect
      split at hselect
      · cases hselect
      split at hselect
      · split at hselect
        · cases hselect
        · cases hselect
          exact ⟨rfl, rfl, rfl, rfl⟩
      · cases hselect
        exact ⟨rfl, rfl, rfl, rfl⟩
    obtain ⟨hclasses, hnew, hold, hquantum⟩ := hsame
    have hq' := hq.of_same hquantum hclasses hnew hold
    have hselected : Level q q' := ⟨hold, hquantum, fun c _ => credit_of_classes (by rw [hclasses])⟩
    have hput := hselected.trans
      (level_enqueue_flow (t := now) (h := h) (y := flow_hash) (x := item) hq'.listed)
    dsimp only at henqueue
    split at henqueue
    · obtain ⟨⟨q₂, events⟩, hdrop, heq⟩ := Option.map_eq_some_iff.mp henqueue
      cases heq
      obtain ⟨flow, -, hdrop⟩ := Option.bind_eq_some_iff.mp hdrop
      obtain ⟨⟨l', events'⟩, -, heq⟩ := Option.map_eq_some_iff.mp hdrop
      cases heq
      exact hput.trans (level_modify_flow fun _ _ => rfl)
    · cases henqueue
      exact hput

/-- A packet that comes has at most so many bytes. -/
def Event.Within (L : Nat) : Event → Prop
  | .enqueue item => item.size.toNat ≤ L
  | _ => True

def Step (L : Nat) (q q' : FqCoDelQueueDisc) : Prop :=
  ∃ n now e out, Event.Within L e ∧ q.call n now e = some (out, q')

theorem Scheduled.step (hpos : 1 ≤ Q) (hmax : Q ≤ 2 ^ 30) (hq : Scheduled Q L q) (hstep : Step L q q') :
    Scheduled Q L q' := by
  obtain ⟨n, now, e, out, hwithin, hcall⟩ := hstep
  cases e with
  | enqueue item =>
    obtain ⟨r, henqueue, heq⟩ := Option.map_eq_some_iff.mp hcall
    cases heq
    exact hq.enqueue hpos hmax hwithin henqueue
  | dequeue =>
    obtain ⟨r, hdequeue, heq⟩ := Option.map_eq_some_iff.mp hcall
    cases heq
    unfold dequeue at hdequeue
    split at hdequeue
    · cases hdequeue
      exact hq.of_same rfl rfl rfl rfl
    · exact (hq.do_dequeue hpos hmax hdequeue).1
  | peek =>
    obtain ⟨r, hpeek, heq⟩ := Option.map_eq_some_iff.mp hcall
    cases heq
    unfold peek at hpeek
    split at hpeek
    · cases hpeek
      exact hq
    · obtain ⟨r', hdequeue, heq⟩ := Option.map_eq_some_iff.mp hpeek
      cases heq
      exact (hq.do_dequeue hpos hmax hdequeue).1.of_same rfl rfl rfl rfl

theorem Scheduled.step_gap (hpos : 1 ≤ Q) (hmax : Q ≤ 2 ^ 30) (hq : Scheduled Q L q) (hstep : Step L q q')
    (ha : a ∈ q.old_flows) (hb : b ∈ q.old_flows) (ha' : a ∈ q'.old_flows) (hb' : b ∈ q'.old_flows) (hab : a ≠ b) :
    q'.gap a b = q.gap a b := by
  obtain ⟨n, now, e, out, -, hcall⟩ := hstep
  cases e with
  | enqueue item =>
    obtain ⟨r, henqueue, heq⟩ := Option.map_eq_some_iff.mp hcall
    cases heq
    exact (hq.level_enqueue henqueue).gap ha hb
  | dequeue =>
    obtain ⟨r, hdequeue, heq⟩ := Option.map_eq_some_iff.mp hcall
    cases heq
    unfold dequeue at hdequeue
    split at hdequeue
    · cases hdequeue
      rfl
    · exact hq.do_dequeue_gap hpos hmax hdequeue ha hb ha' hb' hab
  | peek =>
    obtain ⟨r, hpeek, heq⟩ := Option.map_eq_some_iff.mp hcall
    cases heq
    unfold peek at hpeek
    split at hpeek
    · cases hpeek
      rfl
    · obtain ⟨r', hdequeue, heq⟩ := Option.map_eq_some_iff.mp hpeek
      cases heq
      have hgap := hq.do_dequeue_gap hpos hmax hdequeue ha hb ha' hb' hab
      exact hgap

/-- A call after which both flows are old flows. -/
def StepWith (L a b : Nat) (q q' : FqCoDelQueueDisc) : Prop := Step L q q' ∧ a ∈ q'.old_flows ∧ b ∈ q'.old_flows

theorem Scheduled.interval_gap (hpos : 1 ≤ Q) (hmax : Q ≤ 2 ^ 30) (hq : Scheduled Q L q) (ha : a ∈ q.old_flows)
    (hb : b ∈ q.old_flows) (hab : a ≠ b) (hsteps : ReflTransGen (StepWith L a b) q q') :
    Scheduled Q L q' ∧ a ∈ q'.old_flows ∧ b ∈ q'.old_flows ∧ q'.gap a b = q.gap a b := by
  induction hsteps with
  | refl => exact ⟨hq, ha, hb, rfl⟩
  | tail _ hstep ih =>
    obtain ⟨hq₁, ha₁, hb₁, hgap⟩ := ih
    obtain ⟨hcall, ha', hb'⟩ := hstep
    exact ⟨hq₁.step hpos hmax hcall, ha', hb', (hq₁.step_gap hpos hmax hcall ha₁ hb₁ ha' hb' hab).trans hgap⟩

theorem Scheduled.credit_eq (hq : Scheduled Q L q) (hc : c ∈ q.old_flows) :
    ∃ d : Int, q.credit c = q.sent_of c + d ∧ -(L : Int) < d ∧ d ≤ Q := by
  obtain ⟨flow, hflow⟩ := hq.listed.bounded.exists_flow (List.mem_append_right _ hc)
  have hsound := hq.sound c flow hflow
  refine ⟨flow.deficit.toInt, ?_, hsound.deficit_gt, hsound.deficit_le⟩
  rw [credit, sent_of, hflow]
  rfl

theorem Scheduled.fair (hpos : 1 ≤ Q) (hmax : Q ≤ 2 ^ 30) (hq : Scheduled Q L q) (ha : a ∈ q.old_flows)
    (hb : b ∈ q.old_flows) (hsteps : ReflTransGen (StepWith L a b) q q') :
    |(q'.sent_of a - q.sent_of a) - (q'.sent_of b - q.sent_of b)| < 3 * Q + 2 * L := by
  by_cases hab : a = b
  · subst hab
    rw [sub_self, abs_zero]
    omega
  · obtain ⟨hq', ha', hb', hgap⟩ := hq.interval_gap hpos hmax ha hb hab hsteps
    obtain ⟨da, hcredita, halo, hahi⟩ := hq.credit_eq ha
    obtain ⟨db, hcreditb, hblo, hbhi⟩ := hq.credit_eq hb
    obtain ⟨da', hcredita', halo', hahi'⟩ := hq'.credit_eq ha'
    obtain ⟨db', hcreditb', hblo', hbhi'⟩ := hq'.credit_eq hb'
    have hlead : ∀ {q : FqCoDelQueueDisc}, q.quantum.toNat = Q → 0 ≤ q.lead a b ∧ q.lead a b ≤ Q := by
      intro q hquantum
      unfold lead
      split
      · rw [hquantum]
        omega
      · omega
    have hlead₀ := hlead hq.quantum
    have hlead₁ := hlead hq'.quantum
    unfold gap at hgap
    rw [abs_lt]
    constructor <;> omega

def Unused (q : FqCoDelQueueDisc) : Prop := q.Fresh ∧ q.new_flows = [] ∧ q.old_flows = []

theorem Unused.scheduled (hq : q.Unused) (L : Nat) : Scheduled q.quantum.toNat L q := by
  obtain ⟨⟨hclasses, -, -⟩, hnew, hold⟩ := hq
  have hnone : ∀ (c : Nat) (flow : FqCoDelFlow), q.classes[c]? ≠ some flow := by
    intro c flow hflow
    rw [hclasses] at hflow
    cases hflow
  refine ⟨rfl, ⟨?_, ?_, fun c flow hflow => absurd hflow (hnone c flow), fun c flow hflow => absurd hflow (hnone c flow)⟩,
    fun c flow hflow => absurd hflow (hnone c flow), fun c flow hflow => absurd hflow (hnone c flow)⟩
  · rw [hnew, hold]
    exact List.nodup_nil
  · intro c hc
    rw [hnew, hold] at hc
    exact absurd hc List.not_mem_nil

theorem Scheduled.run (hpos : 1 ≤ Q) (hmax : Q ≤ 2 ^ 30) (hq : Scheduled Q L q) (hrun : ReflTransGen (Step L) q q') :
    Scheduled Q L q' := by
  induction hrun with
  | refl => exact hq
  | tail _ hstep ih => exact ih.step hpos hmax hstep

/-- The status of a flow names the list that it is on once, a flow that has a packet is on one,
and its deficit is in range. -/
structure InPlace (Q L : Nat) (q : FqCoDelQueueDisc) (c : Nat) (flow : FqCoDelFlow) : Prop where
  new_iff : flow.status = .new_flow ↔ q.new_flows.count c = 1 ∧ q.old_flows.count c = 0
  old_iff : flow.status = .old_flow ↔ q.new_flows.count c = 0 ∧ q.old_flows.count c = 1
  inactive_iff : flow.status = .inactive ↔ q.new_flows.count c = 0 ∧ q.old_flows.count c = 0
  backlogged : flow.queue_disc.packets ≠ [] → c ∈ q.new_flows ∨ c ∈ q.old_flows
  deficit_gt : -(L : Int) < flow.deficit.toInt
  deficit_le : flow.deficit.toInt ≤ Q

theorem Scheduled.in_place (hq : Scheduled Q L q) (hflow : q.classes[c]? = some flow) : InPlace Q L q c flow := by
  have hnew := hq.listed.new_iff c flow hflow
  have hold := hq.listed.old_iff c flow hflow
  have honce := hq.listed.once
  have hcount : ∀ {l : List Nat}, l.Nodup → l.count c = if c ∈ l then 1 else 0 :=
    fun hl => hl.count
  have hcount_new := hcount honce.of_append_left
  have hcount_old := hcount honce.of_append_right
  have hoff : c ∈ q.new_flows → c ∉ q.old_flows := fun h h' => List.disjoint_of_nodup_append honce h h'
  have hsound := hq.sound c flow hflow
  refine ⟨?_, ?_, ?_, fun hpackets => ?_, hsound.deficit_gt, hsound.deficit_le⟩
  · rw [hnew, hcount_new, hcount_old]
    by_cases hc : c ∈ q.new_flows
    · simp [hc, hoff hc]
    · simp [hc]
  · rw [hold, hcount_new, hcount_old]
    by_cases hc : c ∈ q.old_flows
    · have hnot : c ∉ q.new_flows := fun h => hoff h hc
      simp [hc, hnot]
    · simp [hc]
  · rw [hcount_new, hcount_old]
    cases hstatus : flow.status with
    | inactive => simp [← hnew, ← hold, hstatus]
    | new_flow => simp [← hnew, hstatus]
    | old_flow => simp [← hold, hstatus]
  · cases hstatus : flow.status with
    | inactive => exact absurd (hq.idle c flow hflow hstatus) hpackets
    | new_flow => exact .inl (hnew.mp hstatus)
    | old_flow => exact .inr (hold.mp hstatus)

def after (n : Nat) (q : FqCoDelQueueDisc) : List Event → Option FqCoDelQueueDisc
  | [] => some q
  | e :: calls => (q.call n 0 e).bind fun r => after n r.2 calls

theorem run_of_after {calls : List Event} (hcalls : ∀ e ∈ calls, e.Within L) (h : q.after n calls = some q') :
    ReflTransGen (Step L) q q' := by
  induction calls generalizing q with
  | nil => exact Option.some.inj h ▸ .refl
  | cons e calls ih =>
    obtain ⟨r, hcall, h⟩ := Option.bind_eq_some_iff.mp h
    exact .head ⟨n, 0, e, r.1, hcalls e List.mem_cons_self, hcall⟩
      (ih (fun e he => hcalls e (List.mem_cons_of_mem _ he)) h)

/-- Two flows with packets, which become old flows. -/
def two_flows : List Event :=
  [.enqueue (packet 0 0), .enqueue (packet 0 1), .enqueue (packet 0 2), .enqueue (packet 1 3), .enqueue (packet 1 4),
    .enqueue (packet 1 5), .dequeue, .dequeue, .dequeue]

end Ns3.TrafficControl.FqCoDelQueueDisc
