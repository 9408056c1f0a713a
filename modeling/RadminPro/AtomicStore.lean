import RadminPro.FileStore
import RadminPro.StepRefinement

namespace RadminPro

/-!
# Atomic stores

Seen from outside, a store answers operations one after the other, each in one
go.  A system that keeps files of its own beside those of the store hides them;
what it does to hidden files does not count.
-/

namespace AtomicStore

open FileStore

/-! ## Operations -/

section Operations

variable {Path Item : Type}

/-- What is asked of a store, and for a `get` what it answers. -/
inductive Operation (Path Item : Type) where
  | put (path : Path) (content : List Item)
  | delete (path : Path)
  | move (src dst : Path)
  | get (path : Path) (content : List Item)
  deriving DecidableEq

/-- The paths that an operation is about. -/
def Operation.paths : Operation Path Item → List Path
  | .put path _ | .delete path | .get path _ => [path]
  | .move src dst => [src, dst]

/-- The store can answer; what is moved or read is there. -/
def Answers (store : Store Path Item) : Operation Path Item → Prop
  | .get path content => store path = some content
  | .move src _ => (store src).isSome = true
  | .put .. | .delete _ => True

variable [DecidableEq Path]

/-- The store after an operation. -/
def perform (store : Store Path Item) :
    Operation Path Item → Store Path Item
  | .put path content => Function.update store path (some content)
  | .delete path => Function.update store path none
  | .move src dst =>
      match store src with
      | none => store
      | some content =>
          Function.update (Function.update store src none) dst (some content)
  | .get .. => store

/-- A list of operations that the store answers as they say. -/
abbrev Legal (store : Store Path Item) (operations : List (Operation Path Item)) :
    Prop :=
  StepRuns.Allowed perform Answers store operations

end Operations

/-! ## Hidden files -/

section Hiding

variable {Path Item : Type}
variable (hidden : Path → Prop) [DecidablePred hidden]

/-- What is seen of a store. -/
def visible (store : Store Path Item) : Store Path Item :=
  fun path => if hidden path then none else store path

variable {hidden}

/-- What is not hidden is seen. -/
theorem visible_of_not
    (store : Store Path Item)
    {path : Path}
    (plain : ¬hidden path) :
    visible hidden store path = store path := by
  rw [visible, if_neg plain]

/-- Stores that differ in hidden files only look the same. -/
theorem visible_congr
    {store other : Store Path Item}
    (same : ∀ path, ¬hidden path → other path = store path) :
    visible hidden other = visible hidden store := by
  funext path
  by_cases isHidden : hidden path
  · simp [visible, isHidden]
  · simp [visible, isHidden, same path isHidden]

variable [DecidableEq Path]

/-- A change of a file that is not hidden is seen. -/
theorem visible_update
    (store : Store Path Item)
    {path : Path}
    (plain : ¬hidden path)
    (content : Option (List Item)) :
    visible hidden (Function.update store path content) =
      Function.update (visible hidden store) path content := by
  funext other
  by_cases same : other = path
  · subst same
    simp [visible, plain]
  · simp [visible, same]

/-- So an operation on files that are not hidden is seen. -/
theorem visible_perform
    (store : Store Path Item)
    {operation : Operation Path Item}
    (plain : ∀ path ∈ operation.paths, ¬hidden path) :
    visible hidden (perform store operation) =
      perform (visible hidden store) operation := by
  cases operation with
  | put path content =>
      exact visible_update store (plain path (by simp [Operation.paths])) _
  | delete path =>
      exact visible_update store (plain path (by simp [Operation.paths])) _
  | move src dst =>
      have srcPlain : ¬hidden src := plain src (by simp [Operation.paths])
      have dstPlain : ¬hidden dst := plain dst (by simp [Operation.paths])
      simp only [perform, visible_of_not store srcPlain]
      cases store src with
      | none => rfl
      | some content =>
          dsimp only
          rw [visible_update _ dstPlain, visible_update _ srcPlain]
  | get path content => rfl

/-- So are operations in a row. -/
theorem visible_run
    (store : Store Path Item)
    {operations : List (Operation Path Item)}
    (plain :
      ∀ operation ∈ operations, ∀ path ∈ operation.paths, ¬hidden path) :
    visible hidden (StepRuns.run perform store operations) =
      StepRuns.run perform (visible hidden store) operations := by
  induction operations generalizing store with
  | nil =>
      rfl
  | cons operation rest inductionHypothesis =>
      rw [StepRuns.run_cons, StepRuns.run_cons, inductionHypothesis,
        visible_perform]
      · exact plain operation List.mem_cons_self
      · exact fun other member => plain other (List.mem_cons_of_mem _ member)

/-- What appears under one path, with nothing else to be seen, has been put. -/
theorem visible_put
    {store after : Store Path Item}
    {path : Path}
    {content : List Item}
    (plain : ¬hidden path)
    (inPlace : after path = some content)
    (others :
      ∀ other, ¬hidden other → other ≠ path → after other = store other) :
    visible hidden after =
      perform (visible hidden store) (.put path content) := by
  rw [perform, ← visible_update store plain]
  apply visible_congr
  intro other isPlain
  by_cases same : other = path
  · rw [same, inPlace, Function.update_self]
  · rw [others other isPlain same, Function.update_of_ne same]

end Hiding

end AtomicStore

end RadminPro
