import Ns3.TrafficControl.FqCoDelQueueDisc.Order

namespace Ns3.TrafficControl.FqCoDelQueueDisc

open Relation (ReflTransGen)
open CoDelQueueDisc (Marks FromFront do_dequeue_from_front do_dequeue_isSome)

variable {q q' q₁ : FqCoDelQueueDisc} {i j c n : Nat} {flow : FqCoDelFlow} {f : FqCoDelFlow → FqCoDelFlow}
  {item : QueueDiscItem} {now : Time} {d : Int32} {Q L : Nat}

theorem toInt_toInt32 (x : UInt32) : x.toInt32.toInt = (x.toNat : Int).bmod (2 ^ 32) := by
  rw [Int32.toInt, UInt32.toBitVec_toInt32, BitVec.toInt_eq_toNat_bmod, UInt32.toNat_toBitVec]

theorem toInt_quantum {quantum : UInt32} (hq : quantum.toNat ≤ 2 ^ 30) : quantum.toInt32.toInt = quantum.toNat := by
  rw [toInt_toInt32, Int.bmod_eq_of_le (by omega) (by omega)]

theorem toInt_add_quantum {quantum : UInt32} (hq : quantum.toNat ≤ 2 ^ 30) (hd : d ≤ 0) :
    (d + quantum.toInt32).toInt = d.toInt + quantum.toNat := by
  have hd : d.toInt ≤ 0 := Int32.le_iff_toInt_le.mp hd
  have hlo := d.le_toInt
  rw [Int32.toInt_add, toInt_quantum hq, Int.bmod_eq_of_le (by omega) (by omega)]

theorem toInt_sub_size {size : UInt32} (hs : size.toNat < 2 ^ 31) (hd : ¬ d ≤ 0) :
    (d + (size * (-1)).toInt32).toInt = d.toInt - size.toNat := by
  have hd : 0 < d.toInt := not_le.mp fun hc => hd (Int32.le_iff_toInt_le.mpr hc)
  have hhi := d.toInt_lt
  have hneg : (size * (-1)).toInt32.toInt = -(size.toNat : Int) := by
    have hmul : size * (-1) = -size := by grind
    have hsize : UInt32.size = 2 ^ 32 := rfl
    rw [toInt_toInt32, hmul, UInt32.toNat_neg, hsize]
    by_cases hz : size.toNat = 0
    · rw [hz]
      rfl
    · rw [Nat.mod_eq_of_lt (by omega), Int.bmod_def]
      omega
  rw [Int32.toInt_add, hneg, Int.bmod_eq_of_le (by omega) (by omega)]
  exact (sub_eq_add_neg _ _).symm

/-- What holds of every flow: its deficit is in range, its packets are of size at most `L`, and its
queue disc keeps a minimum of bytes. -/
structure Sound (Q L : Nat) (flow : FqCoDelFlow) : Prop where
  deficit_gt : -(L : Int) < flow.deficit.toInt
  deficit_le : flow.deficit.toInt ≤ Q
  sizes : ∀ p ∈ flow.queue_disc.packets, p.size.toNat ≤ L
  min_bytes : flow.queue_disc.attrs.min_bytes ≠ 0

def AllSound (Q L : Nat) (q : FqCoDelQueueDisc) : Prop :=
  ∀ (c : Nat) (flow : FqCoDelFlow), q.classes[c]? = some flow → Sound Q L flow

/-- Each flow is once on the list that its status names, and on no other. -/
structure Listed (q : FqCoDelQueueDisc) : Prop where
  once : (q.new_flows ++ q.old_flows).Nodup
  bounded : q.Bounded
  new_iff : ∀ (c : Nat) (flow : FqCoDelFlow), q.classes[c]? = some flow → (flow.status = .new_flow ↔ c ∈ q.new_flows)
  old_iff : ∀ (c : Nat) (flow : FqCoDelFlow), q.classes[c]? = some flow → (flow.status = .old_flow ↔ c ∈ q.old_flows)

/-- The invariant of the scheduler. -/
structure Scheduled (Q L : Nat) (q : FqCoDelQueueDisc) : Prop where
  quantum : q.quantum.toNat = Q
  listed : q.Listed
  sound : q.AllSound Q L
  idle : q.Idle

theorem sound_modify_flow (hq : q.AllSound Q L)
    (hf : ∀ flow, q.classes[i]? = some flow → Sound Q L flow → Sound Q L (f flow)) :
    (q.modify_flow i f).AllSound Q L := by
  intro c flow hflow
  rw [getElem?_modify_flow] at hflow
  split at hflow
  next hic =>
    subst hic
    obtain ⟨flow', hflow', rfl⟩ := Option.map_eq_some_iff.mp hflow
    exact hf flow' hflow' (hq _ flow' hflow')
  next => exact hq c flow hflow

def status_of (q : FqCoDelQueueDisc) (c : Nat) : Option FlowStatus := q.classes[c]?.map (·.status)

theorem status_modify_flow : (q.modify_flow i f).status_of c =
    if i = c then q.classes[c]?.map fun flow => (f flow).status else q.status_of c := by
  unfold status_of
  rw [getElem?_modify_flow]
  split
  · rw [Option.map_map]
    rfl
  · rfl

theorem listed_iff : q.Listed ↔ (q.new_flows ++ q.old_flows).Nodup ∧
    (∀ c, c ∈ q.new_flows ↔ q.status_of c = some .new_flow) ∧
    ∀ c, c ∈ q.old_flows ↔ q.status_of c = some .old_flow := by
  constructor
  · intro hq
    refine ⟨hq.once, fun c => ⟨fun hc => ?_, fun hc => ?_⟩, fun c => ⟨fun hc => ?_, fun hc => ?_⟩⟩
    · obtain ⟨flow, hflow⟩ := hq.bounded.exists_flow (List.mem_append_left _ hc)
      rw [status_of, hflow, Option.map_some, (hq.new_iff c flow hflow).mpr hc]
    · obtain ⟨flow, hflow, hstatus⟩ := Option.map_eq_some_iff.mp hc
      exact (hq.new_iff c flow hflow).mp hstatus
    · obtain ⟨flow, hflow⟩ := hq.bounded.exists_flow (List.mem_append_right _ hc)
      rw [status_of, hflow, Option.map_some, (hq.old_iff c flow hflow).mpr hc]
    · obtain ⟨flow, hflow, hstatus⟩ := Option.map_eq_some_iff.mp hc
      exact (hq.old_iff c flow hflow).mp hstatus
  · rintro ⟨honce, hnew, hold⟩
    refine ⟨honce, fun c hc => ?_, fun c flow hflow => ?_, fun c flow hflow => ?_⟩
    · rcases List.mem_append.mp hc with hc | hc
      · obtain ⟨flow, hflow, -⟩ := Option.map_eq_some_iff.mp ((hnew c).mp hc)
        exact (List.getElem?_eq_some_iff.mp hflow).1
      · obtain ⟨flow, hflow, -⟩ := Option.map_eq_some_iff.mp ((hold c).mp hc)
        exact (List.getElem?_eq_some_iff.mp hflow).1
    · rw [hnew, status_of, hflow, Option.map_some, Option.some.injEq]
    · rw [hold, status_of, hflow, Option.map_some, Option.some.injEq]

theorem status_set_status {z : FlowStatus} : (q.set_status i z).status_of c =
    if i = c then (q.status_of c).map fun _ => z else q.status_of c := by
  rw [set_status, status_modify_flow]
  split
  · rw [status_of, Option.map_map]
    rfl
  · rfl

theorem status_modify_same (hf : ∀ flow, (f flow).status = flow.status) :
    (q.modify_flow i f).status_of c = q.status_of c := by
  rw [status_modify_flow]
  split
  · simp only [hf]
    rfl
  · rfl

theorem status_retire {d : CoDelQueueDisc} {status : FlowStatus} :
    ((q.set_queue_disc i d).set_status i status).status_of c =
      if i = c then (q.status_of c).map fun _ => status else q.status_of c := by
  have hdisc : (q.set_queue_disc i d).status_of c = q.status_of c := status_modify_same fun _ => rfl
  rw [status_set_status, hdisc]

theorem listed_moved {rest old : List Nat} {status status' : Nat → Option FlowStatus} {x : FlowStatus}
    (honce : (i :: rest ++ old).Nodup) (hnew : ∀ c, c ∈ i :: rest ↔ status c = some .new_flow)
    (hold : ∀ c, c ∈ old ↔ status c = some .old_flow) (hi : status i = some x)
    (hstatus : ∀ c, status' c = if i = c then (status c).map fun _ => .old_flow else status c) :
    (rest ++ (old ++ [i])).Nodup ∧ (∀ c, c ∈ rest ↔ status' c = some .new_flow) ∧
      ∀ c, c ∈ old ++ [i] ↔ status' c = some .old_flow := by
  refine ⟨?_, fun c => ?_, fun c => ?_⟩
  · have hperm : (rest ++ (old ++ [i])).Perm (i :: rest ++ old) := by
      rw [← List.append_assoc]
      exact List.perm_append_comm
    exact hperm.nodup_iff.mpr honce
  · rw [hstatus]
    have hnot : i ∉ rest := fun hc => (List.nodup_cons.mp honce).1 (List.mem_append_left _ hc)
    by_cases hic : i = c
    · subst hic
      simp [hi, hnot]
    · rw [if_neg hic, ← hnew, List.mem_cons]
      simp [Ne.symm hic]
  · rw [hstatus, List.mem_append, List.mem_singleton]
    by_cases hic : i = c
    · subst hic
      simp [hi]
    · rw [if_neg hic, hold]
      simp [Ne.symm hic]

theorem Quiet.listed (hstep : Quiet now q q') (hq : q.Listed) : q'.Listed := by
  rw [listed_iff] at hq ⊢
  obtain ⟨honce, hnew, hold⟩ := hq
  cases hstep with
  | @demote i rest flow hfront hflow _ =>
    have hstatus : ∀ c, (q.demote i rest).status_of c =
        if i = c then (q.status_of c).map fun _ => .old_flow else q.status_of c := by
      intro c
      have hset := status_set_status (q := q.increase_deficit i q.quantum.toInt32) (i := i) (c := c)
        (z := .old_flow)
      have hdeficit : (q.increase_deficit i q.quantum.toInt32).status_of c = q.status_of c :=
        status_modify_same fun _ => rfl
      rw [hdeficit] at hset
      exact hset
    have hi : q.status_of i = some flow.status := by rw [status_of, hflow, Option.map_some]
    rw [hfront] at honce hnew
    exact listed_moved honce hnew hold hi hstatus
  | @rotate i rest flow hnone hfront _ _ =>
    have hstatus : ∀ c, (q.rotate i rest).status_of c = q.status_of c := fun c => status_modify_same fun _ => rfl
    change (q.new_flows ++ (rest ++ [i])).Nodup ∧ (∀ c, c ∈ q.new_flows ↔ _) ∧ ∀ c, c ∈ rest ++ [i] ↔ _
    rw [hfront] at honce hold
    refine ⟨?_, fun c => by rw [hstatus, hnew], fun c => ?_⟩
    · have hperm : (q.new_flows ++ (rest ++ [i])).Perm (q.new_flows ++ i :: rest) :=
        List.perm_append_comm.append_left _
      exact hperm.nodup_iff.mpr honce
    · rw [hstatus, ← hold, List.mem_append, List.mem_singleton, List.mem_cons, or_comm]
  | @retire i flow d events hselected _ =>
    obtain ⟨hhead, hflow, -⟩ := hselected
    have hi : q.status_of i = some flow.status := by rw [status_of, hflow, Option.map_some]
    unfold FqCoDelQueueDisc.retire
    split
    next hempty =>
      have hnone : q.new_flows = [] := List.isEmpty_iff.mp hempty
      rw [hnone, List.nil_append] at hhead honce
      obtain ⟨rest, hrest⟩ := List.head?_eq_some_iff.mp hhead
      have hstatus : ∀ c, ((q.set_queue_disc i d).set_status i .inactive).status_of c =
          if i = c then (q.status_of c).map fun _ => .inactive else q.status_of c := fun c => status_retire
      change (q.new_flows ++ q.old_flows.tail).Nodup ∧
        (∀ c, c ∈ q.new_flows ↔ ((q.set_queue_disc i d).set_status i .inactive).status_of c = _) ∧
        ∀ c, c ∈ q.old_flows.tail ↔ ((q.set_queue_disc i d).set_status i .inactive).status_of c = _
      rw [hrest] at honce hold ⊢
      rw [hnone, List.nil_append, List.tail_cons]
      refine ⟨honce.of_cons, fun c => ?_, fun c => ?_⟩
      · rw [hstatus]
        by_cases hic : i = c
        · subst hic
          simp [hi]
        · rw [if_neg hic, ← hnew, hnone]
      · rw [hstatus]
        by_cases hic : i = c
        · subst hic
          simp [hi, (List.nodup_cons.mp honce).1]
        · rw [if_neg hic, ← hold, List.mem_cons]
          simp [Ne.symm hic]
    next hsome =>
      obtain ⟨j, rest, hrest⟩ := List.exists_cons_of_ne_nil (mt List.isEmpty_iff.mpr hsome)
      have hfront : q.new_flows = j :: rest := hrest
      rw [hfront, List.cons_append, List.head?_cons] at hhead
      obtain rfl := Option.some.inj hhead
      have hstatus : ∀ c, ((q.set_queue_disc j d).set_status j .old_flow).status_of c =
          if j = c then (q.status_of c).map fun _ => .old_flow else q.status_of c := fun c => status_retire
      have htail : rest = q.new_flows.tail := by rw [hfront, List.tail_cons]
      rw [hfront] at honce hnew
      have hmoved := listed_moved honce hnew hold hi hstatus
      rw [htail] at hmoved
      exact hmoved

theorem Sound.increase {quantum : UInt32} (hflow : Sound quantum.toNat L flow) (hpos : 1 ≤ quantum.toNat)
    (hmax : quantum.toNat ≤ 2 ^ 30) (hover : flow.deficit ≤ 0) :
    Sound quantum.toNat L { flow with deficit := flow.deficit + quantum.toInt32 } := by
  have hsum := toInt_add_quantum hmax hover
  have hover : flow.deficit.toInt ≤ 0 := Int32.le_iff_toInt_le.mp hover
  have hgt := hflow.deficit_gt
  refine ⟨?_, ?_, hflow.sizes, hflow.min_bytes⟩
  · change _ < (flow.deficit + quantum.toInt32).toInt
    omega
  · change (flow.deficit + quantum.toInt32).toInt ≤ _
    omega

theorem Sound.with_status {status : FlowStatus} (hflow : Sound Q L flow) : Sound Q L { flow with status } :=
  { hflow with }

theorem Sound.with_queue_disc (hflow : Sound Q L flow) {queue_disc : CoDelQueueDisc}
    (hattrs : queue_disc.attrs = flow.queue_disc.attrs) (hsizes : ∀ p ∈ queue_disc.packets, p.size.toNat ≤ L) :
    Sound Q L { flow with queue_disc } :=
  ⟨hflow.deficit_gt, hflow.deficit_le, hsizes, by
    rw [hattrs]
    exact hflow.min_bytes⟩

theorem AllSound.of_classes (hq : q.AllSound Q L) (hclasses : q'.classes = q.classes) : q'.AllSound Q L := by
  unfold AllSound
  rw [hclasses]
  exact hq

theorem Quiet.sound (hstep : Quiet now q q') (hquantum : q.quantum.toNat = Q) (hpos : 1 ≤ Q) (hmax : Q ≤ 2 ^ 30)
    (hq : q.AllSound Q L) : q'.AllSound Q L := by
  subst hquantum
  have hincrease : ∀ {i : Nat} {flow : FqCoDelFlow}, q.classes[i]? = some flow → flow.deficit ≤ 0 →
      (q.increase_deficit i q.quantum.toInt32).AllSound q.quantum.toNat L := by
    intro i flow hflow hover
    refine sound_modify_flow hq fun flow' hflow' hsound => ?_
    obtain rfl := Option.some.inj (hflow.symm.trans hflow')
    exact hsound.increase hpos hmax hover
  cases hstep with
  | @demote i rest flow _ hflow hover =>
    have hstatus : ((q.increase_deficit i q.quantum.toInt32).set_status i .old_flow).AllSound q.quantum.toNat L :=
      sound_modify_flow (hincrease hflow hover) fun _ _ hsound => hsound.with_status
    exact hstatus.of_classes rfl
  | @rotate i rest flow _ _ hflow hover => exact (hincrease hflow hover).of_classes rfl
  | @retire i flow d events hselected hchild =>
    obtain ⟨hattrs, -, hfront, -⟩ := do_dequeue_from_front hchild
    have hempty : d.packets = [] := hfront
    have hdisc : (q.set_queue_disc i d).AllSound q.quantum.toNat L := by
      refine sound_modify_flow hq fun flow' hflow' hsound => ?_
      obtain rfl := Option.some.inj (hselected.2.1.symm.trans hflow')
      refine hsound.with_queue_disc hattrs fun p hp => ?_
      rw [hempty] at hp
      exact absurd hp List.not_mem_nil
    have hstatus : ∀ status, ((q.set_queue_disc i d).set_status i status).AllSound q.quantum.toNat L :=
      fun status => sound_modify_flow hdisc fun _ _ hsound => hsound.with_status
    unfold FqCoDelQueueDisc.retire
    split
    · exact (hstatus .inactive).of_classes rfl
    · exact (hstatus .old_flow).of_classes rfl

theorem Quiet.quantum (hstep : Quiet now q q') : q'.quantum = q.quantum := by
  cases hstep with
  | demote => rfl
  | rotate => rfl
  | retire =>
    unfold FqCoDelQueueDisc.retire
    split <;> rfl

theorem Scheduled.quiet (hpos : 1 ≤ Q) (hmax : Q ≤ 2 ^ 30) (hstep : Quiet now q q') (hq : Scheduled Q L q) :
    Scheduled Q L q' :=
  ⟨by rw [hstep.quantum, hq.quantum], hstep.listed hq.listed, hstep.sound hq.quantum hpos hmax hq.sound,
    hstep.idle hq.idle⟩

theorem Scheduled.quiets (hpos : 1 ≤ Q) (hmax : Q ≤ 2 ^ 30) (hsteps : ReflTransGen (Quiet now) q q')
    (hq : Scheduled Q L q) : Scheduled Q L q' := by
  induction hsteps with
  | refl => exact hq
  | tail _ hstep ih => exact ih.quiet hpos hmax hstep

/-- The lists are kept while the statuses of the flows on them are. -/
theorem Listed.of_status (hq : q.Listed) (hnew : q'.new_flows = q.new_flows) (hold : q'.old_flows = q.old_flows)
    (hstatus : ∀ c, ∀ status ≠ FlowStatus.inactive, q'.status_of c = some status ↔ q.status_of c = some status) :
    q'.Listed := by
  rw [listed_iff] at hq ⊢
  rw [hnew, hold]
  exact ⟨hq.1, fun c => (hq.2.1 c).trans (hstatus c _ (by decide)).symm,
    fun c => (hq.2.2 c).trans (hstatus c _ (by decide)).symm⟩

theorem listed_modify_flow (hq : q.Listed) (hf : ∀ flow, (f flow).status = flow.status) : (q.modify_flow i f).Listed :=
  hq.of_status rfl rfl fun c _ _ => by rw [status_modify_same hf]

theorem Scheduled.serve (hserve : Serve now q item q') (hq : Scheduled Q L q) : Scheduled Q L q' := by
  cases hserve with
  | @serve i flow d _ events hselected hchild =>
    obtain ⟨hattrs, -, ⟨dropped, p, hqueue, hmarks⟩, -⟩ := do_dequeue_from_front hchild
    have hflow := hselected.2.1
    have hsound := hq.sound i flow hflow
    have hp : p ∈ flow.queue_disc.packets := by
      rw [hqueue]
      exact List.mem_append_right _ List.mem_cons_self
    have hsize : item.size.toNat ≤ L := by
      unfold Marks at hmarks
      rw [hmarks]
      exact hsound.sizes p hp
    refine ⟨hq.quantum, ?_, ?_, ?_⟩
    · exact listed_modify_flow (listed_modify_flow hq.listed fun _ => rfl) fun _ => rfl
    · have hdisc : (q.set_queue_disc i d).classes[i]? = some { flow with queue_disc := d } := by
        rw [set_queue_disc, getElem?_modify_flow, if_pos rfl, hflow, Option.map_some]
      have hkeep : (q.set_queue_disc i d).AllSound Q L := by
        refine sound_modify_flow hq.sound fun flow' hflow' hsound' => ?_
        obtain rfl := Option.some.inj (hflow.symm.trans hflow')
        refine hsound'.with_queue_disc hattrs fun p' hp' => hsound'.sizes p' ?_
        rw [hqueue]
        exact List.mem_append_right _ (List.mem_cons_of_mem _ hp')
      refine sound_modify_flow hkeep fun flow' hflow' hsound' => ?_
      obtain rfl := Option.some.inj (hdisc.symm.trans hflow')
      have hsub := toInt_sub_size item.size_lt hselected.2.2
      have hlive : 0 < flow.deficit.toInt := not_le.mp fun hc => hselected.2.2 (Int32.le_iff_toInt_le.mpr hc)
      have hle := hsound.deficit_le
      refine ⟨?_, ?_, hsound'.sizes, hsound'.min_bytes⟩
      · change _ < (flow.deficit + (item.size * (-1)).toInt32).toInt
        omega
      · change (flow.deficit + (item.size * (-1)).toInt32).toInt ≤ _
        omega
    · have hdisc : (q.set_queue_disc i d).Idle := by
        refine idle_modify_flow hq.idle fun flow' hflow' hstatus => ?_
        obtain rfl := Option.some.inj (hflow.symm.trans hflow')
        have hempty := hq.idle i flow hflow hstatus
        rw [hempty] at hp
        exact absurd hp List.not_mem_nil
      exact idle_modify_flow hdisc fun flow' hflow' hstatus => hdisc i flow' hflow' hstatus

theorem Scheduled.do_dequeue (hpos : 1 ≤ Q) (hmax : Q ≤ 2 ^ 30) (hq : Scheduled Q L q)
    {r : Option QueueDiscItem × FqCoDelQueueDisc × List QueueDiscEvent} (hdequeue : do_dequeue n q now = some r) :
    Scheduled Q L r.2.1 ∧ (r.1 = none → ∀ flow ∈ r.2.1.classes, flow.queue_disc.packets = []) := by
  obtain ⟨served, q', events⟩ := r
  obtain ⟨q₁, hsteps, hnone, hsome⟩ := do_dequeue_steps hdequeue
  have hq₁ := hq.quiets hpos hmax hsteps
  cases served with
  | some item => exact ⟨hq₁.serve (hsome item rfl), nofun⟩
  | none =>
    obtain ⟨rfl, hnew, hold⟩ := hnone rfl
    refine ⟨hq₁, fun _ flow hmem => ?_⟩
    obtain ⟨c, hflow⟩ := List.mem_iff_getElem?.mp hmem
    refine hq₁.idle c flow hflow ?_
    cases hstatus : flow.status with
    | inactive => rfl
    | new_flow =>
      have hc := (hq₁.listed.new_iff c flow hflow).mp hstatus
      rw [hnew] at hc
      exact absurd hc List.not_mem_nil
    | old_flow =>
      have hc := (hq₁.listed.old_iff c flow hflow).mp hstatus
      rw [hold] at hc
      exact absurd hc List.not_mem_nil

theorem status_eq_inactive_iff : q.status_of c = some .inactive ↔ q.classes[c]?.any (·.status = .inactive) = true := by
  unfold status_of
  cases q.classes[c]? with
  | none => simp
  | some flow => simp

/-- A flow is put on the list of new flows with a quantum. Its deficit matters only if it is on a
list already. -/
theorem scheduled_activate (hpos : 1 ≤ Q) (hmax : Q ≤ 2 ^ 30) (hquantum : q.quantum.toNat = Q) (hlisted : q.Listed)
    (hidle : q.Idle) (hsound : ∀ (c' : Nat) (flow : FqCoDelFlow), q.classes[c']? = some flow →
      Sound Q L flow ∨ c' = c ∧ flow.status = .inactive ∧ flow.queue_disc.attrs.min_bytes ≠ 0) :
    Scheduled Q L (q.activate c) := by
  subst hquantum
  have hidle' := activate_idle (c := c) hidle
  unfold activate at hidle' ⊢
  split
  next hinactive =>
    rw [if_pos hinactive] at hidle'
    refine ⟨rfl, ?_, ?_, hidle'⟩
    · have hc := status_eq_inactive_iff.mpr hinactive
      rw [listed_iff] at hlisted ⊢
      obtain ⟨honce, hnew, hold⟩ := hlisted
      have hoff : c ∉ q.new_flows ++ q.old_flows := by
        rw [List.mem_append, hnew, hold, hc]
        decide
      have hstatus : ∀ c', (q.modify_flow c fun flow =>
          { flow with status := .new_flow, deficit := q.quantum.toInt32 }).status_of c' =
          if c = c' then some .new_flow else q.status_of c' := by
        intro c'
        rw [status_modify_flow]
        by_cases hcc : c = c'
        · subst hcc
          obtain ⟨flow, hflow, -⟩ := Option.map_eq_some_iff.mp hc
          rw [if_pos rfl, if_pos rfl, hflow, Option.map_some]
        · rw [if_neg hcc, if_neg hcc]
      change ((q.new_flows ++ [c]) ++ q.old_flows).Nodup ∧
        (∀ c', c' ∈ q.new_flows ++ [c] ↔ status_of (q.modify_flow c _) c' = _) ∧
        ∀ c', c' ∈ q.old_flows ↔ status_of (q.modify_flow c _) c' = _
      refine ⟨?_, fun c' => ?_, fun c' => ?_⟩
      · rw [List.append_assoc, List.singleton_append]
        exact List.nodup_middle.mpr (List.nodup_cons.mpr ⟨hoff, honce⟩)
      · rw [hstatus, List.mem_append, List.mem_singleton]
        by_cases hcc : c = c'
        · subst hcc
          simp
        · rw [if_neg hcc, hnew]
          simp [Ne.symm hcc]
      · rw [hstatus]
        by_cases hcc : c = c'
        · subst hcc
          rw [if_pos rfl]
          exact ⟨fun hmem => absurd (List.mem_append_right _ hmem) hoff, nofun⟩
        · rw [if_neg hcc, hold]
    · have hkeep : (q.modify_flow c fun flow =>
          { flow with status := .new_flow, deficit := q.quantum.toInt32 }).AllSound q.quantum.toNat L := by
        intro c' flow hflow
        rw [getElem?_modify_flow] at hflow
        split at hflow
        next hcc =>
          subst hcc
          obtain ⟨flow₀, hflow₀, rfl⟩ := Option.map_eq_some_iff.mp hflow
          obtain ⟨status, hstatus⟩ := (Option.any_eq_true _ _).mp hinactive
          obtain rfl := Option.some.inj (hflow₀.symm.trans hstatus.1)
          have hempty := hidle c flow₀ hflow₀ (of_decide_eq_true hstatus.2)
          have hdeficit : q.quantum.toInt32.toInt = q.quantum.toNat := toInt_quantum hmax
          refine ⟨?_, le_of_eq hdeficit, fun p hp => ?_, ?_⟩
          · change _ < q.quantum.toInt32.toInt
            omega
          · have hp' : p ∈ flow₀.queue_disc.packets := hp
            rw [hempty] at hp'
            exact absurd hp' List.not_mem_nil
          · rcases hsound c flow₀ hflow₀ with hflow | hflow
            · exact hflow.min_bytes
            · exact hflow.2.2
        next hcc => exact (hsound c' flow hflow).resolve_right fun hc => hcc hc.1.symm
      exact hkeep.of_classes rfl
  next hactive =>
    refine ⟨rfl, hlisted, fun c' flow hflow => ?_, hidle⟩
    refine (hsound c' flow hflow).resolve_right fun hc => hactive ?_
    obtain ⟨rfl, hstatus, -⟩ := hc
    simp [hflow, hstatus]

theorem Scheduled.activate_flow (hpos : 1 ≤ Q) (hmax : Q ≤ 2 ^ 30) (hq : Scheduled Q L q) (h : UInt32) :
    Scheduled Q L ((q.get_flow h).2.activate (q.get_flow h).1) := by
  unfold get_flow
  split
  next c hc =>
    exact scheduled_activate hpos hmax hq.quantum hq.listed hq.idle fun c' flow hflow => .inl (hq.sound c' flow hflow)
  next hnone =>
    have hget : ∀ c, (q.classes ++ [q.new_flow h])[c]? =
        if c = q.classes.length then some (q.new_flow h) else q.classes[c]? := by
      intro c
      by_cases hc : c = q.classes.length
      · subst hc
        rw [if_pos rfl, List.getElem?_concat_length]
      · rw [if_neg hc, List.getElem?_append]
        split
        · rfl
        · rw [List.getElem?_eq_none (by simp; omega), List.getElem?_eq_none (by omega)]
    refine scheduled_activate hpos hmax hq.quantum ?_ ?_ ?_
    · refine hq.listed.of_status rfl rfl fun c status hne => ?_
      change (q.classes ++ [q.new_flow h])[c]?.map (·.status) = some status ↔ _
      rw [hget]
      split
      next hc =>
        subst hc
        rw [status_of, List.getElem?_eq_none le_rfl]
        simp [new_flow, Ne.symm hne]
      next => rfl
    · intro c flow hflow hstatus
      change (q.classes ++ [q.new_flow h])[c]? = some flow at hflow
      rw [hget] at hflow
      split at hflow
      · cases hflow
        rfl
      · exact hq.idle c flow hflow hstatus
    · intro c flow hflow
      change (q.classes ++ [q.new_flow h])[c]? = some flow at hflow
      rw [hget] at hflow
      split at hflow
      next hc =>
        cases hflow
        have hbytes : (1500 : UInt32) ≠ 0 := by decide
        exact .inr ⟨hc, rfl, hbytes⟩
      next => exact .inl (hq.sound c flow hflow)

theorem Scheduled.enqueue_flow {t : Time} {h y : UInt32} (hpos : 1 ≤ Q) (hmax : Q ≤ 2 ^ 30) (hq : Scheduled Q L q)
    (hitem : item.size.toNat ≤ L) : Scheduled Q L (q.enqueue_flow t h y item).1 := by
  have hq₁ := hq.activate_flow hpos hmax h
  unfold FqCoDelQueueDisc.enqueue_flow
  dsimp only
  split
  next => exact hq₁
  next flow hflow =>
    have hactive := activate_active hflow
    have hdisc : ∀ (p : QueueDiscItem), p.size = item.size → Scheduled Q L
        (((q.get_flow h).2.activate (q.get_flow h).1).set_queue_disc (q.get_flow h).1 (flow.queue_disc.enqueue t p).2.1) := by
      intro p hp
      refine ⟨hq₁.quantum, listed_modify_flow hq₁.listed fun _ => rfl, ?_, ?_⟩
      · refine sound_modify_flow hq₁.sound fun flow' hflow' hsound => ?_
        obtain rfl := Option.some.inj (hflow.symm.trans hflow')
        unfold CoDelQueueDisc.enqueue
        split
        · exact hsound
        · refine hsound.with_queue_disc rfl fun p' hp' => ?_
          rcases List.mem_append.mp hp' with hold | hnew
          · exact hsound.sizes p' hold
          · rw [List.mem_singleton.mp hnew]
            change p.size.toNat ≤ L
            rw [hp]
            exact hitem
      · refine idle_modify_flow hq₁.idle fun flow' hflow' hstatus => ?_
        obtain rfl := Option.some.inj (hflow.symm.trans hflow')
        exact absurd hstatus hactive
    have hput := hdisc (((q.get_flow h).2.activate (q.get_flow h).1).received y item) rfl
    exact ⟨hput.quantum, hput.listed.of_status rfl rfl fun _ _ _ => Iff.rfl, hput.sound.of_classes rfl,
      hput.idle.of_classes rfl⟩

theorem Scheduled.fq_codel_drop {events : List QueueDiscEvent} (hq : Scheduled Q L q)
    (hd : q.fq_codel_drop = some (q', events)) : Scheduled Q L q' := by
  obtain ⟨flow, hflow, hd⟩ := Option.bind_eq_some_iff.mp hd
  obtain ⟨⟨l', events'⟩, hbatch, heq⟩ := Option.map_eq_some_iff.mp hd
  cases heq
  have hsuffix := drop_batch_suffix hbatch
  refine ⟨hq.quantum, listed_modify_flow hq.listed fun _ => rfl, ?_, ?_⟩
  · refine sound_modify_flow hq.sound fun flow' hflow' hsound => ?_
    obtain rfl := Option.some.inj (hflow.symm.trans hflow')
    exact hsound.with_queue_disc rfl fun p hp => hsound.sizes p (hsuffix.subset hp)
  · refine idle_modify_flow hq.idle fun flow' hflow' hstatus => ?_
    obtain rfl := Option.some.inj (hflow.symm.trans hflow')
    have hempty := hq.idle _ flow hflow hstatus
    rw [hempty] at hsuffix
    exact List.suffix_nil.mp hsuffix

theorem Scheduled.of_same {q' : FqCoDelQueueDisc} (hq : Scheduled Q L q) (hquantum : q'.quantum = q.quantum)
    (hclasses : q'.classes = q.classes) (hnew : q'.new_flows = q.new_flows) (hold : q'.old_flows = q.old_flows) :
    Scheduled Q L q' := by
  refine ⟨by rw [hquantum, hq.quantum], ?_, hq.sound.of_classes hclasses, hq.idle.of_classes hclasses⟩
  refine hq.listed.of_status hnew hold fun c _ _ => ?_
  rw [status_of, status_of, hclasses]

theorem Scheduled.enqueue (hpos : 1 ≤ Q) (hmax : Q ≤ 2 ^ 30) (hq : Scheduled Q L q) (hitem : item.size.toNat ≤ L)
    {r : Bool × FqCoDelQueueDisc × List QueueDiscEvent} (henqueue : q.enqueue now item = some r) :
    Scheduled Q L r.2.1 := by
  unfold FqCoDelQueueDisc.enqueue at henqueue
  split at henqueue
  · cases henqueue
    exact hq
  next flow_hash hhash =>
    obtain ⟨⟨h, q'⟩, hselect, henqueue⟩ := Option.bind_eq_some_iff.mp henqueue
    have hq' : Scheduled Q L q' := by
      unfold select_queue at hselect
      split at hselect
      · cases hselect
      split at hselect
      · split at hselect
        · cases hselect
        · cases hselect
          exact hq.of_same rfl rfl rfl rfl
      · cases hselect
        exact hq
    have hput := hq'.enqueue_flow (t := now) (h := h) (y := flow_hash) hpos hmax hitem
    dsimp only at henqueue
    split at henqueue
    · obtain ⟨d, hdrop, heq⟩ := Option.map_eq_some_iff.mp henqueue
      cases heq
      exact hput.fq_codel_drop hdrop
    · cases henqueue
      exact hput

end Ns3.TrafficControl.FqCoDelQueueDisc
