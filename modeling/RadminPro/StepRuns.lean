import Mathlib.Data.List.Basic

namespace RadminPro.StepRuns

/-!
# Runs of a deterministic step function

A run feeds a list of inputs to a step function.  A run is allowed when every
input is allowed in the state it arrives in; an invariant that every allowed
step keeps holds in the state an allowed run reaches.
-/

section Runs

variable {State Input : Type}
variable (step : State → Input → State)

/-- The state after a list of inputs. -/
def run (start : State) (inputs : List Input) : State :=
  inputs.foldl step start

@[simp] theorem run_nil (start : State) : run step start [] = start :=
  rfl

@[simp] theorem run_cons (start : State) (input : Input) (rest : List Input) :
    run step start (input :: rest) = run step (step start input) rest :=
  rfl

theorem run_append (start : State) (earlier later : List Input) :
    run step start (earlier ++ later) =
      run step (run step start earlier) later :=
  List.foldl_append

theorem run_snoc (start : State) (earlier : List Input) (last : Input) :
    run step start (earlier ++ [last]) =
      step (run step start earlier) last :=
  run_append step start earlier [last]

/-- Every input is allowed in the state it arrives in. -/
def Allowed (allowed : State → Input → Prop) : State → List Input → Prop
  | _, [] => True
  | start, input :: rest =>
      allowed start input ∧ Allowed allowed (step start input) rest

instance
    (allowed : State → Input → Prop)
    [∀ state input, Decidable (allowed state input)] :
    (start : State) → (inputs : List Input) →
      Decidable (Allowed step allowed start inputs)
  | _, [] => inferInstanceAs (Decidable True)
  | start, input :: rest =>
      have : Decidable (Allowed step allowed (step start input) rest) :=
        instDecidableAllowed allowed (step start input) rest
      inferInstanceAs (Decidable (allowed start input ∧ _))

variable {step}

/-- An allowed run is allowed up to any point, and from there on. -/
theorem allowed_append
    {allowed : State → Input → Prop}
    {start : State}
    {earlier later : List Input} :
    Allowed step allowed start (earlier ++ later) ↔
      Allowed step allowed start earlier ∧
        Allowed step allowed (run step start earlier) later := by
  induction earlier generalizing start with
  | nil =>
      simp [Allowed]
  | cons input rest inductionHypothesis =>
      simp [Allowed, inductionHypothesis, and_assoc]

/-- The input at any point of an allowed run is allowed in the state there. -/
theorem Allowed.at
    {allowed : State → Input → Prop}
    {start : State}
    {earlier later : List Input}
    {input : Input}
    (isAllowed : Allowed step allowed start (earlier ++ input :: later)) :
    allowed (run step start earlier) input :=
  (allowed_append.mp isAllowed).2.1

/-- A run is allowed when every input is, in the state at its point. -/
theorem Allowed.of_at
    {allowed : State → Input → Prop}
    {start : State}
    {inputs : List Input}
    (each : ∀ earlier input later,
      inputs = earlier ++ input :: later → allowed (run step start earlier) input) :
    Allowed step allowed start inputs := by
  induction inputs generalizing start with
  | nil =>
      trivial
  | cons input rest inductionHypothesis =>
      refine ⟨each [] input rest rfl, inductionHypothesis ?_⟩
      intro earlier other later split
      exact each (input :: earlier) other later (by rw [split, List.cons_append])

/-- An invariant of the allowed steps is an invariant of the allowed runs. -/
theorem Allowed.invariant
    {allowed : State → Input → Prop}
    {invariant : State → Prop}
    (preserved : ∀ state input,
      allowed state input → invariant state → invariant (step state input))
    {start : State}
    {inputs : List Input}
    (isAllowed : Allowed step allowed start inputs)
    (holds : invariant start) :
    invariant (run step start inputs) := by
  induction inputs generalizing start with
  | nil =>
      exact holds
  | cons input rest inductionHypothesis =>
      exact inductionHypothesis isAllowed.2
        (preserved start input isAllowed.1 holds)

/-- A stronger condition allows fewer runs. -/
theorem Allowed.mono
    {allowed weaker : State → Input → Prop}
    (weakens : ∀ state input, allowed state input → weaker state input)
    {start : State}
    {inputs : List Input}
    (isAllowed : Allowed step allowed start inputs) :
    Allowed step weaker start inputs := by
  induction inputs generalizing start with
  | nil =>
      trivial
  | cons input rest inductionHypothesis =>
      exact ⟨weakens start input isAllowed.1,
        inductionHypothesis isAllowed.2⟩

/-- What holds of every input allows every run of these inputs. -/
theorem Allowed.of_forall
    {allowed : State → Input → Prop}
    {inputs : List Input}
    (each : ∀ input ∈ inputs, ∀ state, allowed state input)
    (start : State) :
    Allowed step allowed start inputs := by
  induction inputs generalizing start with
  | nil =>
      trivial
  | cons input rest inductionHypothesis =>
      exact ⟨each input List.mem_cons_self start,
        inductionHypothesis
          (fun other member => each other (List.mem_cons_of_mem _ member)) _⟩

/-- Two conditions on a run are one. -/
theorem Allowed.and
    {first second : State → Input → Prop}
    {start : State}
    {inputs : List Input}
    (isFirst : Allowed step first start inputs)
    (isSecond : Allowed step second start inputs) :
    Allowed step (fun state input => first state input ∧ second state input)
      start inputs := by
  induction inputs generalizing start with
  | nil =>
      trivial
  | cons input rest inductionHypothesis =>
      exact ⟨⟨isFirst.1, isSecond.1⟩,
        inductionHypothesis isFirst.2 isSecond.2⟩

/-- An invariant of every step is an invariant of every run. -/
theorem run_invariant
    (invariant : State → Prop)
    (preserved : ∀ state input, invariant state → invariant (step state input))
    {start : State}
    (holds : invariant start)
    (inputs : List Input) :
    invariant (run step start inputs) := by
  induction inputs generalizing start with
  | nil =>
      exact holds
  | cons input rest inductionHypothesis =>
      exact inductionHypothesis (preserved start input holds)

/--
Where soundness is never regained and a step keeps it exactly when its input is
allowed, a run keeps it exactly when it is allowed.
-/
theorem sound_iff_allowed
    {sound : State → Prop}
    {allowed : State → Input → Prop}
    (lost : ∀ state input, ¬ sound state → ¬ sound (step state input))
    (kept : ∀ state input,
      sound state → (sound (step state input) ↔ allowed state input))
    {start : State}
    (starts : sound start)
    (inputs : List Input) :
    sound (run step start inputs) ↔ Allowed step allowed start inputs := by
  induction inputs generalizing start with
  | nil =>
      exact iff_of_true starts trivial
  | cons input rest inductionHypothesis =>
      rw [run_cons, Allowed, ← kept start input starts]
      by_cases still : sound (step start input)
      · rw [inductionHypothesis still]
        exact (and_iff_right still).symm
      · have gone : ¬ sound (run step (step start input) rest) :=
          run_invariant (fun state => ¬ sound state) lost still rest
        exact iff_of_false gone fun both => still both.1

/--
Where every step from a sound state is sound exactly when its input is allowed,
all states of a run are sound exactly when the run is allowed.
-/
theorem always_iff_allowed
    {invariant sound : State → Prop}
    {allowed : State → Input → Prop}
    (preserved : ∀ state input, invariant state → invariant (step state input))
    (kept : ∀ state input,
      invariant state →
      sound state →
      (sound (step state input) ↔ allowed state input))
    {start : State}
    (holds : invariant start)
    (starts : sound start)
    (inputs : List Input) :
    (∀ earlier later,
        inputs = earlier ++ later → sound (run step start earlier)) ↔
      Allowed step allowed start inputs := by
  induction inputs generalizing start with
  | nil =>
      refine iff_of_true ?_ trivial
      intro earlier later split
      rw [(List.nil_eq_append_iff.mp split).1]
      exact starts
  | cons input rest inductionHypothesis =>
      rw [Allowed, ← kept start input holds starts]
      constructor
      · intro always
        have still : sound (step start input) :=
          always [input] rest rfl
        refine ⟨still,
          (inductionHypothesis (preserved start input holds) still).mp ?_⟩
        intro earlier later split
        exact always (input :: earlier) later (by rw [split, List.cons_append])
      · rintro ⟨still, restAllowed⟩ earlier later split
        cases earlier with
        | nil =>
            exact starts
        | cons first others =>
            rw [List.cons_append, List.cons.injEq] at split
            obtain ⟨rfl, isRest⟩ := split
            exact
              (inductionHypothesis (preserved start input holds) still).mpr
                restAllowed others later isRest

/--
Where soundness is kept by the allowed steps and any other step is seen, all
that is seen of a run is as it should be exactly when the run is allowed.
-/
theorem seen_iff_allowed
    {sound seen : State → Prop}
    {allowed : State → Input → Prop}
    (sees : ∀ state, sound state → seen state)
    (kept : ∀ state input,
      allowed state input → sound state → sound (step state input))
    (lost : ∀ state input,
      sound state → seen (step state input) → allowed state input)
    {start : State}
    (starts : sound start)
    (inputs : List Input) :
    (∀ earlier later,
        inputs = earlier ++ later → seen (run step start earlier)) ↔
      Allowed step allowed start inputs := by
  constructor
  · intro always
    induction inputs generalizing start with
    | nil =>
        trivial
    | cons input rest inductionHypothesis =>
        have allows : allowed start input :=
          lost start input starts (always [input] rest rfl)
        refine ⟨allows, inductionHypothesis (kept start input allows starts) ?_⟩
        intro earlier later split
        exact always (input :: earlier) later (by rw [split, List.cons_append])
  · rintro isAllowed earlier later rfl
    exact sees _ ((allowed_append.mp isAllowed).1.invariant kept starts)

end Runs

section Observers

variable {State Input Note : Type}

/-- A step with an observer beside it, who takes notes and does not interfere. -/
def watched
    (step : State → Input → State)
    (observe : State → Input → Note → Note)
    (both : State × Note)
    (input : Input) : State × Note :=
  (step both.1 input, observe both.1 input both.2)

variable {step : State → Input → State}
variable {observe : State → Input → Note → Note}

/-- What the allowed steps keep of state and notes, an allowed run keeps. -/
theorem Allowed.watched_invariant
    {allowed : State → Input → Prop}
    {invariant : State → Note → Prop}
    (preserved :
      ∀ state note input,
        allowed state input →
        invariant state note →
        invariant (step state input) (observe state input note))
    {start : State}
    {note : Note}
    {inputs : List Input}
    (isAllowed : Allowed step allowed start inputs)
    (holds : invariant start note) :
    invariant (run step start inputs)
      (run (watched step observe) (start, note) inputs).2 := by
  induction inputs generalizing start note with
  | nil =>
      exact holds
  | cons input rest inductionHypothesis =>
      exact
        inductionHypothesis isAllowed.2
          (preserved start note input isAllowed.1 holds)

/-- What follows at every allowed step from the invariant holds beside the observer. -/
theorem Allowed.watched
    {allowed : State → Input → Prop}
    {invariant : State → Note → Prop}
    {seen : State × Note → Input → Prop}
    (preserved :
      ∀ state note input,
        allowed state input →
        invariant state note →
        invariant (step state input) (observe state input note))
    (follows :
      ∀ state note input,
        allowed state input →
        invariant state note →
        seen (state, note) input)
    {start : State}
    {note : Note}
    {inputs : List Input}
    (isAllowed : Allowed step allowed start inputs)
    (holds : invariant start note) :
    Allowed (StepRuns.watched step observe) seen (start, note) inputs := by
  induction inputs generalizing start note with
  | nil =>
      trivial
  | cons input rest inductionHypothesis =>
      refine ⟨follows start note input isAllowed.1 holds, ?_⟩
      exact
        inductionHypothesis isAllowed.2
          (preserved start note input isAllowed.1 holds)

end Observers

end RadminPro.StepRuns
