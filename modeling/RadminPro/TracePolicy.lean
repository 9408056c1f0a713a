import Mathlib.Data.List.Basic

namespace RadminPro.TracePolicy

/-!
# Policies on traces

A policy judges an event by the events before it.  A trace obeys a policy when
each of its events does.
-/

variable {Event : Type}

/-- Every event of the trace is fine after the events before it. -/
def Obeys (policy : List Event → Event → Prop) (trace : List Event) : Prop :=
  ∀ before event after, trace = before ++ event :: after → policy before event

/-- A longer trace obeys a policy when its parts do, each in its place. -/
theorem obeys_append
    {policy : List Event → Event → Prop}
    {earlier later : List Event} :
    Obeys policy (earlier ++ later) ↔
      Obeys policy earlier ∧
        Obeys (fun before => policy (earlier ++ before)) later := by
  constructor
  · intro obeys
    refine ⟨fun before event after shape => ?_,
      fun before event after shape => ?_⟩
    · exact obeys before event (after ++ later) (by simp [shape])
    · exact obeys (earlier ++ before) event after (by simp [shape])
  · rintro ⟨first, second⟩ before event after shape
    rcases List.append_eq_append_iff.mp shape with
      ⟨between, rfl, rest⟩ | ⟨between, rfl, rest⟩
    · exact second between event after rest
    · cases between with
      | nil =>
          have atStart := second [] event after (by simpa using rest.symm)
          simpa using atStart
      | cons head tail =>
          rw [List.cons_append, List.cons.injEq] at rest
          exact first before event tail (by rw [rest.1])

/-- A policy that no event of the trace falls under is obeyed. -/
theorem obeys_of_forall
    {policy : List Event → Event → Prop}
    {trace : List Event}
    (each : ∀ event ∈ trace, ∀ before, policy before event) :
    Obeys policy trace := by
  rintro before event after rfl
  exact each event (by simp) before

/-- A stronger policy is harder to obey. -/
theorem Obeys.mono
    {policy weaker : List Event → Event → Prop}
    {trace : List Event}
    (obeys : Obeys policy trace)
    (weakens : ∀ before event, policy before event → weaker before event) :
    Obeys weaker trace :=
  fun before event after shape =>
    weakens before event (obeys before event after shape)

end RadminPro.TracePolicy
