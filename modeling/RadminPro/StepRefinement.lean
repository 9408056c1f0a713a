import RadminPro.StepRuns

namespace RadminPro.StepRuns

/-!
# Refinement of runs

Every step of a system stands for a list of actions of a simpler one.  If each
step keeps an invariant and its view is what its actions lead to, then so it is
for a whole run, and the simpler system allows the actions of the run.
-/

section Refinement

variable {State Input Abstract Action : Type}
variable (step : State → Input → State)
variable (actions : State → Input → List Action)

/-- The actions of a run, in the order of its steps. -/
def history : State → List Input → List Action
  | _, [] => []
  | state, input :: rest =>
      actions state input ++ history (step state input) rest

variable {step actions}

/-- What is simulated step by step is simulated by the run. -/
theorem refines_run
    {perform : Abstract → Action → Abstract}
    {legal : Abstract → Action → Prop}
    {view : State → Abstract}
    {invariant : State → Prop}
    {allowed : State → Input → Prop}
    (preserved :
      ∀ state input,
        invariant state → allowed state input → invariant (step state input))
    (simulated :
      ∀ state input,
        invariant state →
        allowed state input →
        Allowed perform legal (view state) (actions state input) ∧
          view (step state input) =
            run perform (view state) (actions state input))
    {start : State}
    (holds : invariant start)
    {inputs : List Input}
    (isAllowed : Allowed step allowed start inputs) :
    Allowed perform legal (view start) (history step actions start inputs) ∧
      view (run step start inputs) =
        run perform (view start) (history step actions start inputs) := by
  induction inputs generalizing start with
  | nil =>
      exact ⟨trivial, rfl⟩
  | cons input rest inductionHypothesis =>
      obtain ⟨now, later⟩ := isAllowed
      obtain ⟨legalNow, same⟩ := simulated start input holds now
      obtain ⟨legalRest, sameRest⟩ :=
        inductionHypothesis (preserved start input holds now) later
      rw [same] at legalRest sameRest
      rw [history]
      constructor
      · exact allowed_append.mpr ⟨legalNow, legalRest⟩
      · rw [run_append, run_cons, sameRest]

/-- Where every action is legal, the run keeps the invariant and is simulated. -/
theorem mirrors_run
    {perform : Abstract → Action → Abstract}
    {view : State → Abstract}
    {invariant : State → Prop}
    {allowed : State → Input → Prop}
    (mirrored :
      ∀ state input,
        invariant state →
        allowed state input →
        invariant (step state input) ∧
          view (step state input) =
            run perform (view state) (actions state input))
    {start : State}
    (holds : invariant start)
    {inputs : List Input}
    (isAllowed : Allowed step allowed start inputs) :
    invariant (run step start inputs) ∧
      view (run step start inputs) =
        run perform (view start) (history step actions start inputs) := by
  have preserved :
      ∀ state input,
        invariant state → allowed state input → invariant (step state input) :=
    fun state input holds now => (mirrored state input holds now).1
  have simulated :
      ∀ state input,
        invariant state →
        allowed state input →
        Allowed perform (fun _ _ => True) (view state) (actions state input) ∧
          view (step state input) =
            run perform (view state) (actions state input) := by
    intro state input holds now
    constructor
    · exact Allowed.of_forall (fun _ _ _ => trivial) _
    · exact (mirrored state input holds now).2
  constructor
  · exact
      isAllowed.invariant
        (fun state input now holds => preserved state input holds now) holds
  · exact (refines_run preserved simulated holds isAllowed).2

end Refinement

end RadminPro.StepRuns
