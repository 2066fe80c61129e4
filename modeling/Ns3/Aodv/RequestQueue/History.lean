import Ns3.Aodv.RequestQueue

namespace Ns3.Aodv.RequestQueue

/-- What can happen to the request queue of a node: the calls of the protocol, the
purge that its queries start with, and changes of the two limits. -/
inductive Operation
  | enqueue (entry : QueueEntry)
  | drop_packet_with_dst (dst : Ipv4Address)
  | send_packet_from_queue (dst : Ipv4Address) (iface : Int)
  | purge
  | set_max_queue_len (len : UInt32)
  | set_queue_timeout (t : Time)

/-- A queue with its past: the entries for which `Enqueue` answered true, as they
were stored, and the callbacks run. -/
structure History where
  queue : RequestQueue
  accepted : List QueueEntry := []
  calls : List QueueCallback := []
deriving DecidableEq

namespace History

/-- An operation at a time. `none` is the undefined read of `Enqueue`. -/
def step (h : History) : Time × Operation → Option History
  | (now, .enqueue entry) =>
    (h.queue.enqueue now entry).map fun o =>
      { queue := o.queue
        accepted :=
          if o.result then h.accepted ++ [{ entry with expire := h.queue.queue_timeout + now }] else h.accepted
        calls := h.calls ++ o.dropped.map .error }
  | (now, .drop_packet_with_dst dst) =>
    let o := h.queue.drop_packet_with_dst now dst
    some { h with queue := o.queue, calls := h.calls ++ o.dropped.map .error }
  | (now, .send_packet_from_queue dst iface) =>
    let r := h.queue.send_packet_from_queue now dst iface
    some { h with queue := r.1, calls := h.calls ++ r.2 }
  | (now, .purge) =>
    some { h with queue := h.queue.purge now, calls := h.calls ++ (h.queue.outdated now).map .error }
  | (_, .set_max_queue_len len) => some { h with queue := { h.queue with max_len := len } }
  | (_, .set_queue_timeout t) => some { h with queue := { h.queue with queue_timeout := t } }

/-- A queue that has just been constructed. -/
def Initial (h : History) : Prop := h.queue.queue = [] ∧ h.accepted = [] ∧ h.calls = []

/-- An `Enqueue` finds room for an entry within the limit, which is not 0, and no
drain meets an entry that asks for another interface. -/
def Admissible (h : History) : Time × Operation → Prop
  | (now, .enqueue _) => 0 < h.queue.max_len ∧ (h.queue.purge now).queue.length ≤ h.queue.max_len.toNat
  | (now, .send_packet_from_queue dst iface) => h.queue.Deliverable now dst iface
  | _ => True

/-- Every accepted entry is in exactly one place, no packet is queued twice for one
destination, and the entries for a destination leave in the order they came. -/
structure Conserved (h : History) : Prop where
  conservation : h.accepted.Perm (h.queue.queue ++ (handed h.calls ++ errored h.calls))
  distinct : h.queue.queue.Pairwise fun a b => same_packet a b = false
  fifo : ∀ dst, (forDestination dst (handed h.calls) ++ forDestination dst h.queue.queue).Sublist
    (forDestination dst h.accepted)

theorem Initial.conserved {h : History} (hinit : Initial h) : Conserved h := by
  obtain ⟨hqueue, haccepted, hcalls⟩ := hinit
  refine ⟨?_, ?_, ?_⟩
  · simp [hqueue, haccepted, hcalls, handed, errored]
  · simp [hqueue]
  · intro dst
    simp [hqueue, haccepted, hcalls, handed, forDestination]

/-- An operation that moves entries out of the queue to the error callbacks, and keeps
the others in order, loses nothing. -/
theorem Conserved.drop {h : History} (hconserved : Conserved h) {q : RequestQueue} {dropped : List QueueEntry}
    (hperm : h.queue.queue.Perm (q.queue ++ dropped)) (hsub : q.queue.Sublist h.queue.queue) :
    Conserved { h with queue := q, calls := h.calls ++ dropped.map .error } := by
  refine ⟨?_, hconserved.distinct.sublist hsub, ?_⟩
  · calc h.accepted.Perm (h.queue.queue ++ (handed h.calls ++ errored h.calls)) := hconserved.conservation
      _ |>.Perm ((q.queue ++ dropped) ++ (handed h.calls ++ errored h.calls)) := hperm.append_right _
      _ |>.Perm (q.queue ++ ((handed h.calls ++ errored h.calls) ++ dropped)) := by
        rw [List.append_assoc]
        exact List.perm_append_comm.append_left _
      _ |>.Perm _ := by simp
  · intro dst
    have hfifo := hconserved.fifo dst
    simp only [handed_append, handed_map_error, List.append_nil]
    exact ((List.Sublist.refl _).append (hsub.filter _)).trans hfifo

theorem Conserved.purge {h : History} (hconserved : Conserved h) (now : Time) :
    Conserved { h with
      queue := h.queue.purge now
      calls := h.calls ++ (h.queue.outdated now).map .error } :=
  hconserved.drop (h.queue.purge_perm now).symm (h.queue.purge_sublist now)

theorem Conserved.store {h : History} (hconserved : Conserved h) {entry : QueueEntry}
    (hnew : ∀ e ∈ h.queue.queue, same_packet e entry = false) :
    Conserved { h with
      queue := { h.queue with queue := h.queue.queue ++ [entry] }
      accepted := h.accepted ++ [entry] } := by
  refine ⟨?_, ?_, ?_⟩
  · have hperm := hconserved.conservation.append_right [entry]
    have hmove : (handed h.calls ++ errored h.calls ++ [entry]).Perm
        ([entry] ++ (handed h.calls ++ errored h.calls)) := List.perm_append_comm
    refine hperm.trans ?_
    simpa only [List.append_assoc] using hmove.append_left h.queue.queue
  · refine List.pairwise_append.mpr ⟨hconserved.distinct, by simp, ?_⟩
    intro a ha b hb
    obtain rfl := List.mem_singleton.mp hb
    exact hnew a ha
  · intro dst
    have hfifo := (hconserved.fifo dst).append (List.Sublist.refl (forDestination dst [entry]))
    simpa only [forDestination_append, List.append_assoc] using hfifo

theorem Conserved.enqueue {h : History} (hconserved : Conserved h) {now : Time} {entry : QueueEntry}
    {o : Outcome Bool} (henqueue : h.queue.enqueue now entry = some o) :
    Conserved {
      queue := o.queue
      accepted :=
        if o.result then h.accepted ++ [{ entry with expire := h.queue.queue_timeout + now }] else h.accepted
      calls := h.calls ++ o.dropped.map .error } := by
  have hpurged := hconserved.purge now
  rw [RequestQueue.enqueue] at henqueue
  simp only at henqueue
  split at henqueue
  next =>
    cases henqueue
    simpa using hpurged
  next hnew =>
    have hfresh : ∀ e ∈ (h.queue.purge now).queue,
        same_packet e { entry with expire := h.queue.queue_timeout + now } = false := by
      intro e he
      have hne := hnew
      simp only [List.any_eq_true, not_exists, not_and, Bool.not_eq_true] at hne
      exact hne e he
    split at henqueue
    next =>
      split at henqueue
      next => cases henqueue
      next front rest hqueue =>
        cases henqueue
        -- the front of the full queue leaves through its error callback
        have hperm : (h.queue.purge now).queue.Perm (rest ++ [front]) := by
          simpa [hqueue] using (List.perm_append_singleton front rest).symm
        have hsub : rest.Sublist (h.queue.purge now).queue := by simp [hqueue]
        have hdropped := hpurged.drop (q := { h.queue.purge now with queue := rest }) hperm hsub
        simpa using hdropped.store fun e he => hfresh e (hsub.subset he)
    next =>
      cases henqueue
      simpa using hpurged.store hfresh

theorem Conserved.send_packet_from_queue {h : History} (hconserved : Conserved h) {now : Time}
    {dst : Ipv4Address} {iface : Int} (hdeliver : h.queue.Deliverable now dst iface) :
    Conserved { h with
      queue := (h.queue.send_packet_from_queue now dst iface).1
      calls := h.calls ++ (h.queue.send_packet_from_queue now dst iface).2 } := by
  have hpurged := hconserved.purge now
  rw [send_packet_from_queue_eq hdeliver]
  refine ⟨?_, hpurged.distinct.sublist List.filter_sublist, ?_⟩
  · have hsplit := List.filter_append_perm (fun e : QueueEntry => decide (e.header.destination = dst))
      (h.queue.purge now).queue
    refine hpurged.conservation.trans ?_
    refine (hsplit.symm.append_right _).trans ?_
    simp only [handed_append, errored_append, handed_map_error, errored_map_error,
      handed_map_unicast_forward, errored_map_unicast_forward, forDestination, List.append_nil]
    grind
  · intro d
    have hfifo := hpurged.fifo d
    simp only [handed_append, handed_map_error, handed_map_unicast_forward, forDestination_append,
      List.append_nil] at hfifo ⊢
    by_cases hd : d = dst
    · subst hd
      simpa [forDestination, List.filter_filter] using hfifo
    · have hnone : forDestination d (forDestination dst (h.queue.purge now).queue) = [] := by
        refine List.filter_eq_nil_iff.mpr ?_
        intro e he
        simp_all [forDestination, eq_comm]
      have hother : forDestination d ((h.queue.purge now).queue.filter (·.header.destination ≠ dst)) =
          forDestination d (h.queue.purge now).queue := by
        simp only [forDestination, List.filter_filter]
        refine List.filter_congr ?_
        intro e _
        grind
      rw [hnone, hother]
      simpa [forDestination] using hfifo

/-- The histories that runs within the condition reach. -/
abbrev Reachable (h : History) : Prop := Transition.Reachable Initial step Admissible h

theorem Conserved.step {h h' : History} {e : Time × Operation} (hconserved : Conserved h)
    (hadmissible : Admissible h e) (hstep : h.step e = some h') : Conserved h' := by
  obtain ⟨now, op⟩ := e
  cases op with
  | enqueue entry =>
    obtain ⟨o, henqueue, rfl⟩ := Option.map_eq_some_iff.mp hstep
    exact hconserved.enqueue henqueue
  | drop_packet_with_dst dst =>
    cases hstep
    have hsplit := List.filter_append_perm (fun e : QueueEntry => decide (e.header.destination = dst))
      (h.queue.purge now).queue
    have hperm : (h.queue.purge now).queue.Perm ((h.queue.purge now).queue.filter
        (fun e => decide (e.header.destination ≠ dst)) ++ (h.queue.purge now).queue.filter
        (fun e => decide (e.header.destination = dst))) := by
      refine hsplit.symm.trans (List.perm_append_comm.trans ?_)
      simp
    have hdropped := (hconserved.purge now).drop
      (q := (h.queue.drop_packet_with_dst now dst).queue) hperm List.filter_sublist
    simpa [drop_packet_with_dst] using hdropped
  | send_packet_from_queue dst iface =>
    cases hstep
    exact hconserved.send_packet_from_queue hadmissible
  | purge =>
    cases hstep
    exact hconserved.purge now
  | set_max_queue_len len =>
    cases hstep
    exact ⟨hconserved.conservation, hconserved.distinct, hconserved.fifo⟩
  | set_queue_timeout t =>
    cases hstep
    exact ⟨hconserved.conservation, hconserved.distinct, hconserved.fifo⟩

theorem Reachable.conserved {h : History} (hreach : Reachable h) : Conserved h :=
  Transition.Reachable.invariant (fun _ => Initial.conserved)
    (fun _ _ _ hconserved hadmissible hstep => hconserved.step hadmissible hstep) hreach

theorem length_le_of_enqueue {q : RequestQueue} {now : Time} {entry : QueueEntry} {o : Outcome Bool}
    (hroom : 0 < q.max_len ∧ (q.purge now).queue.length ≤ q.max_len.toNat)
    (henqueue : q.enqueue now entry = some o) :
    o.queue.queue.length ≤ o.queue.max_len.toNat := by
  obtain ⟨_, hlength⟩ := hroom
  rw [RequestQueue.enqueue] at henqueue
  simp only at henqueue
  split at henqueue
  next =>
    cases henqueue
    exact hlength
  next =>
    split at henqueue
    next hfull =>
      split at henqueue
      next => cases henqueue
      next front rest hqueue =>
        cases henqueue
        rw [hqueue] at hlength
        simpa using hlength
    next hfull =>
      cases henqueue
      simp only [purge_max_len] at hfull ⊢
      simp only [List.length_append, List.length_singleton]
      omega

/-- In every run in which each `Enqueue` finds the queue within a limit that is not 0
and no drain meets an entry that asks for another interface, every accepted entry is
queued or has been handed to exactly one callback, no packet is queued twice, the
entries for a destination leave in order, and an `Enqueue` leaves the queue within its
limit. -/
theorem accepted_entries_are_conserved {h : History} (hreach : Reachable h) :
    Conserved h ∧ ∀ now entry h', Admissible h (now, .enqueue entry) →
      h.step (now, .enqueue entry) = some h' → h'.queue.queue.length ≤ h'.queue.max_len.toNat := by
  refine ⟨hreach.conserved, ?_⟩
  intro now entry h' hadmissible hstep
  obtain ⟨o, henqueue, rfl⟩ := Option.map_eq_some_iff.mp hstep
  exact length_le_of_enqueue hadmissible henqueue

instance (h : History) (e : Time × Operation) : Decidable (Admissible h e) :=
  match e with
  | (_, .enqueue _) => inferInstanceAs (Decidable (_ ∧ _))
  | (now, .send_packet_from_queue dst iface) => inferInstanceAs (Decidable (h.queue.Deliverable now dst iface))
  | (_, .drop_packet_with_dst _) => inferInstanceAs (Decidable True)
  | (_, .purge) => inferInstanceAs (Decidable True)
  | (_, .set_max_queue_len _) => inferInstanceAs (Decidable True)
  | (_, .set_queue_timeout _) => inferInstanceAs (Decidable True)

/-- A queue for up to `len` packets. -/
def fresh (len : UInt32) : History := { queue := { max_len := len, queue_timeout := milliseconds 30000 } }

theorem fresh_initial (len : UInt32) : Initial (fresh len) := ⟨rfl, rfl, rfl⟩

/-- A packet for 10.0.0.9 that asks for interface `tag`. -/
def request (uid : UInt64) (tag : Int) : QueueEntry where
  packet := { uid := uid, tag := some tag }
  header := { source := 0x0a000001, destination := 0x0a000009, ttl := 64, protocol := 17 }
  ucb := 0
  ecb := 1
  expire := 0

/-- The history of two packets that leave together, without a limit on the interface. -/
def drained : History where
  queue := (fresh 2).queue
  accepted := [{ request 7 (-1) with expire := milliseconds 30000 },
    { request 8 (-1) with expire := milliseconds 30000 }]
  calls := [.unicast_forward { request 7 (-1) with expire := milliseconds 30000 },
    .unicast_forward { request 8 (-1) with expire := milliseconds 30000 }]

theorem drained_reachable : Reachable drained := by
  have hrun : Transition.execute step Admissible (fresh 2)
      [(0, .enqueue (request 7 (-1))), (0, .enqueue (request 8 (-1))),
        (5, .send_packet_from_queue 0x0a000009 1)] = some drained := by decide +kernel
  exact (Transition.Reachable.init (fresh_initial 2)).execute hrun

theorem accepted_entries_are_conserved_drained :
    Conserved drained ∧ ∀ now entry h', Admissible drained (now, .enqueue entry) →
      drained.step (now, .enqueue entry) = some h' → h'.queue.queue.length ≤ h'.queue.max_len.toNat :=
  accepted_entries_are_conserved drained_reachable

/-- The packet that asks for interface 2 is taken out of the queue by a drain towards
interface 1, and given to no callback. A limit lowered below the length of the queue
is not enforced by the next `Enqueue`. -/
theorem accepted_entry_is_lost :
    (∃ h, Transition.Reachable Initial step Transition.Always h ∧ h.accepted ≠ [] ∧
      h.queue.queue = [] ∧ h.calls = []) ∧
    ∃ h entry h', Transition.Reachable Initial step Transition.Always h ∧
      h.step (0, .enqueue entry) = some h' ∧ h'.queue.max_len.toNat < h'.queue.queue.length := by
  refine ⟨?_, ?_⟩
  · have hrun : Transition.execute step Transition.Always (fresh 64)
        [(0, .enqueue (request 7 2)), (5, .send_packet_from_queue 0x0a000009 1)] =
          some { fresh 64 with accepted := [{ request 7 2 with expire := milliseconds 30000 }] } := by
      decide +kernel
    exact ⟨_, (Transition.Reachable.init (fresh_initial 64)).execute hrun, by simp, rfl, rfl⟩
  · obtain ⟨h, hrun⟩ : ∃ h, Transition.execute step Transition.Always (fresh 64)
        [(0, .enqueue (request 7 2)), (0, .enqueue (request 8 2)), (0, .set_max_queue_len 1)] = some h :=
      ⟨_, rfl⟩
    obtain ⟨h', hstep, hover⟩ : ∃ h', h.step (0, .enqueue (request 9 2)) = some h' ∧
        h'.queue.max_len.toNat < h'.queue.queue.length := by
      cases hrun
      exact ⟨_, rfl, by decide⟩
    exact ⟨h, _, h', (Transition.Reachable.init (fresh_initial 64)).execute hrun, hstep, hover⟩

end History

end Ns3.Aodv.RequestQueue
