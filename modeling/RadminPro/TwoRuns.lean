import RadminPro.StepRuns

namespace RadminPro.TwoRuns

/-!
# What two runs show

Each step of a run may show something to an observer.  Two states between
which every permitted input keeps a relation, and shows the same on both
sides, cannot be told apart by any run of permitted inputs.
-/

variable {State Input Sight : Type}
variable (step : State → Input → State)
variable (sights : State → Input → List Sight)

/-- Everything a run shows, in order. -/
def seen : State → List Input → List Sight
  | _, [] => []
  | start, input :: rest => sights start input ++ seen (step start input) rest

variable {step sights}

/-- Inputs that keep two states alike and show the same keep showing the same. -/
theorem seen_eq
    {alike : State → State → Prop}
    {permitted : Input → Prop}
    (sameSights : ∀ first second input,
      permitted input → alike first second →
        sights first input = sights second input)
    (staysAlike : ∀ first second input,
      permitted input → alike first second →
        alike (step first input) (step second input))
    {first second : State}
    (startsAlike : alike first second)
    {inputs : List Input}
    (allPermitted : ∀ input ∈ inputs, permitted input) :
    seen step sights first inputs = seen step sights second inputs ∧
      alike (StepRuns.run step first inputs) (StepRuns.run step second inputs) := by
  induction inputs generalizing first second with
  | nil =>
      exact ⟨rfl, startsAlike⟩
  | cons input rest inductionHypothesis =>
      have now : permitted input := allPermitted input List.mem_cons_self
      obtain ⟨sameRest, endsAlike⟩ :=
        inductionHypothesis (staysAlike first second input now startsAlike)
          fun later member => allPermitted later (List.mem_cons_of_mem _ member)
      refine ⟨?_, endsAlike⟩
      simp only [seen, sameSights first second input now startsAlike, sameRest]

end RadminPro.TwoRuns
