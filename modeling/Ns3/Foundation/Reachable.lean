import Mathlib.Logic.Relation

namespace Transition

variable {σ ε : Type*}

/-- The states that runs from an initial state reach when every step they take
meets a condition on the state before it and on the event. -/
inductive Reachable (init : σ → Prop) (step : σ → ε → Option σ) (cond : σ → ε → Prop) : σ → Prop
  | init {s : σ} (hinit : init s) : Reachable init step cond s
  | step {s s' : σ} {e : ε} (hreach : Reachable init step cond s) (hcond : cond s e)
      (hstep : step s e = some s') : Reachable init step cond s'

/-- The condition of a run without restrictions. -/
def Always (_ : σ) (_ : ε) : Prop := True

instance (s : σ) (e : ε) : Decidable (Always s e) := inferInstanceAs (Decidable True)

variable {init : σ → Prop} {step : σ → ε → Option σ} {cond cond' : σ → ε → Prop}

theorem Reachable.invariant {I : σ → Prop} (hinit : ∀ s, init s → I s)
    (hstep : ∀ s e s', I s → cond s e → step s e = some s' → I s') {s : σ}
    (hreach : Reachable init step cond s) : I s := by
  induction hreach with
  | init h => exact hinit _ h
  | step _ hcond hs ih => exact hstep _ _ _ ih hcond hs

/-- The runs from an initial state, with the steps they have taken. -/
inductive Trace (init : σ → Prop) (step : σ → ε → Option σ) : List (σ × ε × σ) → σ → Prop
  | init {s : σ} (hinit : init s) : Trace init step [] s
  | step {steps : List (σ × ε × σ)} {s s' : σ} {e : ε} (htrace : Trace init step steps s)
      (hstep : step s e = some s') : Trace init step (steps ++ [(s, e, s')]) s'

theorem Trace.reachable {steps : List (σ × ε × σ)} {s : σ} (htrace : Trace init step steps s)
    (hcond : ∀ x ∈ steps, cond x.1 x.2.1) :
    Reachable init step cond s ∧
      ∀ x ∈ steps, Reachable init step cond x.1 ∧ step x.1 x.2.1 = some x.2.2 := by
  induction htrace with
  | init h => exact ⟨.init h, by simp⟩
  | @step steps s s' e htrace hstep ih =>
    obtain ⟨hreach, hsteps⟩ := ih fun x hx => hcond x (by simp [hx])
    refine ⟨hreach.step (hcond (s, e, s') (by simp)) hstep, ?_⟩
    intro x hx
    rcases List.mem_append.mp hx with hx | hx
    · exact hsteps x hx
    · rw [List.mem_singleton] at hx
      subst hx
      exact ⟨hreach, hstep⟩

/-- Run a list of events, stopping where the condition fails. -/
def execute (step : σ → ε → Option σ) (cond : σ → ε → Prop) [∀ s e, Decidable (cond s e)] :
    σ → List ε → Option σ
  | s, [] => some s
  | s, e :: es => if cond s e then (step s e).bind fun s' => execute step cond s' es else none

theorem Trace.execute {steps : List (σ × ε × σ)} {s s' : σ} {es : List ε} (htrace : Trace init step steps s)
    (h : execute step Always s es = some s') :
    ∃ steps', Trace init step (steps ++ steps') s' ∧ steps'.map (·.2.1) = es := by
  induction es generalizing s steps with
  | nil =>
    cases h
    exact ⟨[], by simpa using htrace, rfl⟩
  | cons e es ih =>
    rw [Transition.execute, if_pos (show Always s e from trivial)] at h
    obtain ⟨s₁, hstep, hrest⟩ := Option.bind_eq_some_iff.mp h
    obtain ⟨steps', htrace', hevents⟩ := ih (htrace.step hstep) hrest
    exact ⟨(s, e, s₁) :: steps', by simpa using htrace', by simp [hevents]⟩

theorem Trace.execute_checked [∀ s e, Decidable (cond s e)] {steps : List (σ × ε × σ)} {s s' : σ} {es : List ε}
    (htrace : Trace init step steps s) (h : Transition.execute step cond s es = some s') :
    ∃ steps', Trace init step (steps ++ steps') s' ∧ steps'.map (·.2.1) = es ∧
      ∀ x ∈ steps', cond x.1 x.2.1 := by
  induction es generalizing s steps with
  | nil =>
    cases h
    exact ⟨[], by simpa using htrace, rfl, by simp⟩
  | cons e es ih =>
    rw [Transition.execute] at h
    split at h
    next hcond =>
      obtain ⟨s₁, hstep, hrest⟩ := Option.bind_eq_some_iff.mp h
      obtain ⟨steps', htrace', hevents, hchecked⟩ := ih (htrace.step hstep) hrest
      refine ⟨(s, e, s₁) :: steps', by simpa using htrace', by simp [hevents], ?_⟩
      intro x hx
      rcases List.mem_cons.mp hx with rfl | hx
      · exact hcond
      · exact hchecked x hx
    next => cases h

theorem Reachable.execute [∀ s e, Decidable (cond s e)] {s s' : σ} {es : List ε}
    (hreach : Reachable init step cond s) (h : execute step cond s es = some s') :
    Reachable init step cond s' := by
  induction es generalizing s with
  | nil =>
    cases h
    exact hreach
  | cons e es ih =>
    rw [Transition.execute] at h
    split at h
    next hcond =>
      obtain ⟨s₁, hstep, hrest⟩ := Option.bind_eq_some_iff.mp h
      exact ih (hreach.step hcond hstep) hrest
    next => cases h

end Transition
