import Mathlib.Data.List.Basic

namespace RadminPro.Transducer

/-!
# Transducers

A machine that reads inputs one by one and puts out a list at every step.
-/

section Feeding

variable {State Input Output : Type}
variable (step : State → Input → State × List Output)

/-- Read all inputs; the outputs are concatenated. -/
def feed : State → List Input → State × List Output
  | state, [] => (state, [])
  | state, input :: rest =>
      let next := step state input
      let later := feed next.1 rest
      (later.1, next.2 ++ later.2)

@[simp] theorem feed_nil (state : State) : feed step state [] = (state, []) :=
  rfl

@[simp] theorem feed_cons (state : State) (input : Input) (rest : List Input) :
    feed step state (input :: rest) =
      ((feed step (step state input).1 rest).1,
        (step state input).2 ++ (feed step (step state input).1 rest).2) :=
  rfl

/-- Reading on from where the first inputs led. -/
theorem feed_append
    (state : State)
    (first second : List Input) :
    feed step state (first ++ second) =
      ((feed step (feed step state first).1 second).1,
        (feed step state first).2 ++
          (feed step (feed step state first).1 second).2) := by
  induction first generalizing state with
  | nil =>
      rfl
  | cons input rest inductionHypothesis =>
      simp [inductionHypothesis]

/-- Inputs that a state ignores leave it alone. -/
theorem feed_ignored
    {state : State}
    {inputs : List Input}
    (ignored : ∀ input ∈ inputs, step state input = (state, [])) :
    feed step state inputs = (state, []) := by
  induction inputs with
  | nil =>
      rfl
  | cons input rest inductionHypothesis =>
      rw [List.forall_mem_cons] at ignored
      simp [ignored.1, inductionHypothesis ignored.2]

end Feeding

end RadminPro.Transducer
