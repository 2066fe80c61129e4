import Ns3.Aodv.Protocol.Rerr.Tally

namespace Ns3.Aodv.RoutingProtocol

variable {s s' : RoutingProtocol}

section Run

theorem initial_sound (hinit : Initial s) : s.routing_table.Sound := by
  obtain ⟨attrs, max_queue_len, max_queue_time, detect, verification, lo, rfl⟩ := hinit
  have hempty : RoutingTable.Sound { bad_link_lifetime := milliseconds 15000 } :=
    ⟨by decide, fun d e he => by simp at he, fun d e he => by simp at he⟩
  exact hempty.add_route 0 rfl

theorem timed_step_sound {e : Time × Event} (hs : s.routing_table.Sound) (hstep : s.timed_step e = some s') :
    s'.routing_table.Sound := by
  unfold timed_step step at hstep
  split at hstep
  · by_cases hexpire : e.2 = .rerr_rate_limit_timer_expire
    · rw [hexpire] at hstep
      cases hstep
      exact hs
    · exact (handle_tallied (s := { s with now := e.1 }) hs hexpire hstep).table
  · cases hstep

theorem Run.sound {cond : RoutingProtocol → Time × Event → Prop} (hrun : Run cond s) : s.routing_table.Sound :=
  hrun.invariant (fun _ => initial_sound) fun _ _ _ hs _ hstep => timed_step_sound hs hstep

/-- The calls an event makes all count what they send. -/
def CountsAll (s : RoutingProtocol) (e : Time × Event) : Prop :=
  ∀ c ∈ rerr_calls { s with now := e.1 } e.2, c.1.Counts c.2

def effects (x : RoutingProtocol × (Time × Event) × RoutingProtocol) : List Effect := x.2.2.log.drop x.1.log.length

def errorsSent (steps : List (RoutingProtocol × (Time × Event) × RoutingProtocol)) : ℕ :=
  (steps.flatMap effects).countP (·.isRerr)

theorem timed_step_counts {e : Time × Event} (hs : s.routing_table.Sound) (hcounts : s.CountsAll e)
    (hexpire : e.2 ≠ .rerr_rate_limit_timer_expire) (hlimit : s.rerr_count ≤ s.attrs.rerr_rate_limit)
    (hstep : s.timed_step e = some s') :
    s'.attrs = s.attrs ∧ s'.rerr_count ≤ s.attrs.rerr_rate_limit ∧
      s'.rerr_count.toNat = s.rerr_count.toNat + errorsSent [(s, e, s')] := by
  unfold timed_step step at hstep
  split at hstep
  · have htallied := handle_tallied (s := { s with now := e.1 }) hs hexpire hstep
    obtain ⟨hle, l, hl, hcount⟩ := htallied.tally hcounts hlimit
    refine ⟨htallied.attrs, hle, ?_⟩
    have hlog : s'.log = s.log ++ l := hl
    rw [hcount, errorsSent, List.flatMap_singleton, effects, hlog, List.drop_left]
  · cases hstep

theorem log_eq_effects {steps : List (RoutingProtocol × (Time × Event) × RoutingProtocol)}
    (htrace : Transition.Trace Initial timed_step steps s) : s.log = steps.flatMap effects := by
  induction htrace with
  | init hinit =>
    obtain ⟨attrs, max_queue_len, max_queue_time, detect, verification, lo, rfl⟩ := hinit
    rfl
  | @step steps s s' e _ hstep ih =>
    obtain ⟨l, hl⟩ := (step_actions hstep).2.log
    have hlog : s'.log = s.log ++ l := hl
    rw [List.flatMap_append, ← ih, List.flatMap_singleton, effects, hlog, List.drop_left]

/-- A stretch of a run without an expiry of the timer has sent at most as many errors as the limit
allows, and one that ends now at most as many as have been counted. -/
structure WithinLimit (steps : List (RoutingProtocol × (Time × Event) × RoutingProtocol)) (s : RoutingProtocol) :
    Prop where
  sound : s.routing_table.Sound
  rerr_count : s.rerr_count ≤ s.attrs.rerr_rate_limit
  window : ∀ before window after, steps = before ++ window ++ after →
    (∀ x ∈ window, x.2.1.2 ≠ .rerr_rate_limit_timer_expire) →
    errorsSent window ≤ s.attrs.rerr_rate_limit.toNat ∧ (after = [] → errorsSent window ≤ s.rerr_count.toNat)

theorem withinLimit_init (hinit : Initial s) : WithinLimit [] s := by
  have hzero : s.rerr_count = 0 := by
    obtain ⟨attrs, max_queue_len, max_queue_time, detect, verification, lo, rfl⟩ := hinit
    rfl
  refine ⟨initial_sound hinit, ?_, ?_⟩
  · rw [hzero]
    exact UInt16.zero_le
  · intro before window after hsteps _
    have hnil : window = [] := by
      have := congrArg List.length hsteps
      simp only [List.length_nil, List.length_append] at this
      exact List.length_eq_zero_iff.mp (by omega)
    rw [hnil]
    exact ⟨Nat.zero_le _, fun _ => Nat.zero_le _⟩

/-- Where the last step of a run falls when the run is cut in three. -/
theorem last_of_three {α : Type} {steps before window after : List α} {x : α}
    (h : steps ++ [x] = before ++ window ++ after) :
    after = [] ∧ window = [] ∨ after = [] ∧ (∃ w, window = w ++ [x] ∧ steps = before ++ w) ∨
      ∃ a, after = a ++ [x] ∧ steps = before ++ window ++ a := by
  rcases List.eq_nil_or_concat' after with rfl | ⟨a, y, rfl⟩
  · rcases List.eq_nil_or_concat' window with rfl | ⟨w, y, rfl⟩
    · exact .inl ⟨rfl, rfl⟩
    · rw [List.append_nil, ← List.append_assoc] at h
      obtain ⟨hsteps, hy⟩ := List.append_inj' h rfl
      exact .inr (.inl ⟨rfl, w, by rw [List.singleton_inj.mp hy], hsteps⟩)
  · rw [← List.append_assoc] at h
    obtain ⟨hsteps, hy⟩ := List.append_inj' h rfl
    exact .inr (.inr ⟨a, by rw [List.singleton_inj.mp hy], hsteps⟩)

theorem WithinLimit.expire {steps : List (RoutingProtocol × (Time × Event) × RoutingProtocol)} {e : Time × Event}
    (h : WithinLimit steps s) (hexpire : e.2 = .rerr_rate_limit_timer_expire) (hstep : s.timed_step e = some s') :
    WithinLimit (steps ++ [(s, e, s')]) s' := by
  have hsound := timed_step_sound h.sound hstep
  have hstate : s' = { s with now := e.1, rerr_count := 0 } := by
    unfold timed_step RoutingProtocol.step at hstep
    split at hstep
    · rw [hexpire] at hstep
      exact (Option.some.inj hstep).symm
    · cases hstep
  have hattrs : s'.attrs = s.attrs := by rw [hstate]
  refine ⟨hsound, by rw [hstate]; exact UInt16.zero_le, ?_⟩
  intro before window after hsteps hwindow
  rcases last_of_three hsteps with ⟨rfl, rfl⟩ | ⟨-, w, rfl, -⟩ | ⟨a, rfl, hpre⟩
  · exact ⟨Nat.zero_le _, fun _ => Nat.zero_le _⟩
  · exact absurd hexpire (hwindow (s, e, s') (by simp))
  · rw [hattrs]
    exact ⟨(h.window before window a hpre hwindow).1, by simp⟩

theorem WithinLimit.step {steps : List (RoutingProtocol × (Time × Event) × RoutingProtocol)} {e : Time × Event}
    (h : WithinLimit steps s) (hcounts : s.CountsAll e) (hexpire : e.2 ≠ .rerr_rate_limit_timer_expire)
    (hstep : s.timed_step e = some s') : WithinLimit (steps ++ [(s, e, s')]) s' := by
  obtain ⟨hattrs, hlimit, hcount⟩ := timed_step_counts h.sound hcounts hexpire h.rerr_count hstep
  have hle : s'.rerr_count.toNat ≤ s'.attrs.rerr_rate_limit.toNat := by
    rw [hattrs]
    exact UInt16.le_iff_toNat_le.mp hlimit
  refine ⟨timed_step_sound h.sound hstep, UInt16.le_iff_toNat_le.mpr hle, ?_⟩
  intro before window after hsteps hwindow
  rcases last_of_three hsteps with ⟨rfl, rfl⟩ | ⟨rfl, w, rfl, hpre⟩ | ⟨a, rfl, hpre⟩
  · exact ⟨Nat.zero_le _, fun _ => Nat.zero_le _⟩
  · have hbefore := (h.window before w [] (by rw [List.append_nil, hpre])
      fun x hx => hwindow x (List.mem_append_left _ hx)).2 rfl
    have hsplit : errorsSent (w ++ [(s, e, s')]) = errorsSent w + errorsSent [(s, e, s')] := by
      rw [errorsSent, errorsSent, errorsSent, List.flatMap_append, List.countP_append]
    have hsent : errorsSent (w ++ [(s, e, s')]) ≤ s'.rerr_count.toNat := by omega
    exact ⟨hsent.trans hle, fun _ => hsent⟩
  · rw [hattrs]
    exact ⟨(h.window before window a hpre hwindow).1, by simp⟩

/-- In a run whose calls all count what they send, a node sends at most `RerrRateLimit` route
errors between two consecutive expiries of the timer. -/
theorem errors_within_limit {steps before window after : List (RoutingProtocol × (Time × Event) × RoutingProtocol)}
    (htrace : Transition.Trace Initial timed_step steps s) (hcounts : ∀ x ∈ steps, x.1.CountsAll x.2.1)
    (hsteps : steps = before ++ window ++ after)
    (hwindow : ∀ x ∈ window, x.2.1.2 ≠ .rerr_rate_limit_timer_expire) :
    errorsSent window ≤ s.attrs.rerr_rate_limit.toNat := by
  have hwithin : WithinLimit steps s := by
    clear hsteps hwindow
    induction htrace with
    | init hinit => exact withinLimit_init hinit
    | @step steps s s' e _ hstep ih =>
      have hpre := ih fun x hx => hcounts x (List.mem_append_left _ hx)
      by_cases hexpire : e.2 = .rerr_rate_limit_timer_expire
      · exact hpre.expire hexpire hstep
      · exact hpre.step (hcounts (s, e, s') (by simp)) hexpire hstep
  exact (hwithin.window before window after hsteps hwindow).1

end Run

namespace Station

def Single : RerrCall → Prop
  | .no_route _ => False
  | .message precursors => precursors.length ≤ 1

instance (c : RerrCall) : Decidable (Single c) :=
  match c with
  | .no_route _ => inferInstanceAs (Decidable False)
  | .message precursors => inferInstanceAs (Decidable (precursors.length ≤ 1))

/-- All calls of the event are for at most one precursor. -/
def Unicasts (s : RoutingProtocol) (e : Time × Event) : Prop :=
  ∀ c ∈ rerr_calls { s with now := e.1 } e.2, Single c.2

instance (s : RoutingProtocol) (e : Time × Event) : Decidable (Unicasts s e) :=
  inferInstanceAs (Decidable (∀ c ∈ rerr_calls { s with now := e.1 } e.2, Single c.2))

theorem Unicasts.countsAll {s : RoutingProtocol} {e : Time × Event} (h : Unicasts s e) : s.CountsAll e := by
  rintro ⟨s₁, call⟩ hcall
  have hsingle := h _ hcall
  cases call with
  | no_route origin => exact hsingle.elim
  | message precursors => exact .inr (.inl hsingle)

/-- The relay loses the next hop, and tells its one precursor. -/
theorem relay_within_limit : ∃ steps s, Transition.Trace Initial timed_step steps s ∧
    (∀ x ∈ steps, x.1.CountsAll x.2.1) ∧ errorsSent steps ≤ s.attrs.rerr_rate_limit.toNat := by
  obtain ⟨s, hs⟩ := Option.isSome_iff_exists.mp
    (show (Transition.execute timed_step Unicasts usual
        (relayed ++ [(milliseconds 3, .recv_aodv own nextHop 1 (.rerr broken))])).isSome = true by decide +kernel)
  obtain ⟨steps, htrace, hevents, hchecked⟩ := (Transition.Trace.init usual_initial).execute_checked hs
  rw [List.nil_append] at htrace
  have hcounts : ∀ x ∈ steps, x.1.CountsAll x.2.1 := fun x hx => Unicasts.countsAll (hchecked x hx)
  refine ⟨steps, s, htrace, hcounts, @errors_within_limit s steps [] steps [] htrace hcounts (by simp) fun x hx => ?_⟩
  have hmem : x.2.1 ∈ relayed ++ [(milliseconds 3, .recv_aodv own nextHop 1 (.rerr broken))] :=
    hevents ▸ List.mem_map_of_mem hx
  simp only [relayed, List.cons_append, List.nil_append, List.mem_cons, List.not_mem_nil, or_false] at hmem
  rcases hmem with h | h | h | h <;> rw [h] <;> exact Event.noConfusion

/-- A data packet of the neighbour for a destination without a route. -/
def stray (k : ℕ) : Time × Event :=
  (milliseconds 1, .route_input { uid := UInt64.ofNat k }
    { source := neighbor, destination := destination, ttl := 64, protocol := 17 } 1 ⟨0, 1, false⟩)

/-- With the default limit of 10, eleven packets without a route make eleven route errors. -/
theorem strays_over_limit : ∃ steps s, Transition.Trace Initial timed_step steps s ∧
    (∀ x ∈ steps, x.2.1.2 ≠ .rerr_rate_limit_timer_expire) ∧
    s.attrs.rerr_rate_limit.toNat < errorsSent steps := by
  have hrun : (Transition.execute timed_step Transition.Always usual
      ((0, .interface_up ipv4 1) :: (List.range 11).map stray)).map
        (fun s => (s.log.countP (·.isRerr), s.attrs.rerr_rate_limit)) = some (11, 10) := by decide +kernel
  obtain ⟨s, hs, hcounts⟩ := Option.map_eq_some_iff.mp hrun
  obtain ⟨hsent, hlimit⟩ := Prod.mk.inj hcounts
  obtain ⟨steps, htrace, hevents⟩ := (Transition.Trace.init usual_initial).execute hs
  rw [List.nil_append] at htrace
  refine ⟨steps, s, htrace, fun x hx => ?_, ?_⟩
  · have hmem : x.2.1 ∈ (0, .interface_up ipv4 1) :: (List.range 11).map stray := hevents ▸ List.mem_map_of_mem hx
    rcases List.mem_cons.mp hmem with h | h
    · rw [h]
      exact Event.noConfusion
    · obtain ⟨k, -, h⟩ := List.mem_map.mp h
      rw [← h]
      exact Event.noConfusion
  · rw [errorsSent, ← log_eq_effects htrace, hsent, hlimit]
    decide

end Station

end Ns3.Aodv.RoutingProtocol
