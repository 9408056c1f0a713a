import Mathlib.Logic.Function.Basic
import RadminPro.BufferWindow

namespace RadminPro.FileStore

/-!
# A store of files

A store has a content under some of its paths.  A change names the paths that it
acts on and leaves every other path alone.
-/

section Stores

variable {Path Item : Type}

/-- The contents of the files, by path. -/
abbrev Store (Path Item : Type) :=
  Path → Option (List Item)

/-- What can be done to a store. -/
inductive Change (Path Item : Type) where
  | truncate (path : Path)
  | write (path : Path) (offset : Nat) (data : List Item)
  | rename (src dst : Path)
  | remove (path : Path)

/-- The paths that a change acts on. -/
def Change.paths : Change Path Item → List Path
  | .truncate path | .write path .. | .remove path => [path]
  | .rename src dst => [src, dst]

/-- The content with `data` written from `offset` on; a gap before it is filled. -/
def patch
    [Inhabited Item]
    (content : List Item)
    (offset : Nat)
    (data : List Item) : List Item :=
  match data with
  | [] => content
  | _ :: _ =>
      BufferWindow.overlay
        (content ++ List.replicate (offset - content.length) default) offset
        data

/-- Writing at the end of a content appends to it. -/
theorem patch_end
    [Inhabited Item]
    (content data : List Item) :
    patch content content.length data = content ++ data := by
  cases data with
  | nil =>
      simp [patch]
  | cons item rest =>
      simp [patch, BufferWindow.overlay]

variable [DecidableEq Path] [Inhabited Item]

/-- The store after a change; what is not there is neither written nor renamed. -/
def apply
    (store : Store Path Item) :
    Change Path Item → Store Path Item
  | .truncate path => Function.update store path (some [])
  | .write path offset data =>
      match store path with
      | none => store
      | some content =>
          Function.update store path (some (patch content offset data))
  | .rename src dst =>
      match store src with
      | none => store
      | some content =>
          Function.update (Function.update store src none) dst (some content)
  | .remove path => Function.update store path none

/-- The store after a list of changes. -/
def applyAll
    (store : Store Path Item)
    (changes : List (Change Path Item)) : Store Path Item :=
  changes.foldl apply store

@[simp] theorem applyAll_nil (store : Store Path Item) :
    applyAll store [] = store :=
  rfl

@[simp] theorem applyAll_cons
    (store : Store Path Item)
    (change : Change Path Item)
    (rest : List (Change Path Item)) :
    applyAll store (change :: rest) = applyAll (apply store change) rest :=
  rfl

theorem applyAll_append
    (store : Store Path Item)
    (first second : List (Change Path Item)) :
    applyAll store (first ++ second) = applyAll (applyAll store first) second :=
  List.foldl_append

/-- A change leaves the paths alone that it does not act on. -/
theorem apply_other
    (store : Store Path Item)
    {change : Change Path Item}
    {path : Path}
    (other : path ∉ change.paths) :
    apply store change path = store path := by
  cases change with
  | truncate target =>
      simp only [Change.paths, List.mem_singleton] at other
      simp [apply, other]
  | write target offset data =>
      simp only [Change.paths, List.mem_singleton] at other
      cases present : store target with
      | none =>
          simp [apply, present]
      | some content =>
          simp [apply, present, other]
  | rename src dst =>
      simp only [Change.paths, List.mem_cons, List.not_mem_nil, or_false,
        not_or] at other
      cases present : store src with
      | none =>
          simp [apply, present]
      | some content =>
          simp [apply, present, other]
  | remove target =>
      simp only [Change.paths, List.mem_singleton] at other
      simp [apply, other]

/-- So does a list of changes. -/
theorem applyAll_other
    (store : Store Path Item)
    {changes : List (Change Path Item)}
    {path : Path}
    (other : ∀ change ∈ changes, path ∉ change.paths) :
    applyAll store changes path = store path := by
  induction changes generalizing store with
  | nil =>
      rfl
  | cons change rest inductionHypothesis =>
      rw [List.forall_mem_cons] at other
      rw [applyAll_cons, inductionHypothesis _ other.2,
        apply_other store other.1]

/-- A file that is opened for writing starts empty. -/
@[simp] theorem apply_truncate
    (store : Store Path Item)
    (path : Path) :
    apply store (.truncate path) path = some [] := by
  simp [apply]

/-- A write at the end of a file appends to it. -/
theorem apply_write_end
    {store : Store Path Item}
    {path : Path}
    {content : List Item}
    (present : store path = some content)
    (data : List Item) :
    apply store (.write path content.length data) path =
      some (content ++ data) := by
  simp [apply, present, patch_end]

/-- A renamed file is found under its new name. -/
theorem apply_rename
    {store : Store Path Item}
    {src : Path}
    {content : List Item}
    (present : store src = some content)
    (dst : Path) :
    apply store (.rename src dst) dst = some content := by
  simp [apply, present]

end Stores

end RadminPro.FileStore
