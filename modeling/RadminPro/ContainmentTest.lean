import RadminPro.NormalPath
import RadminPro.SessionEffects

namespace RadminPro

open ByteCodec
open PathText

/-!
# The containment test

`resolveInRoot` compares texts and looks at one character behind the root.  For
a root without a separator at its end this is containment by components.  A root
that ends in a separator lets nothing through but itself.
-/

/-- The path library finds these two paths for a root and a path below it. -/
structure Resolves
    (out : Outside)
    (root : Path)
    (rel : Bytes)
    (canonRoot candidate : NormalPath) : Prop where
  root : (out.weaklyCanonical root).getD (out.absolute root) = canonRoot.text
  candidate :
    out.weaklyCanonical (PathText.join canonRoot.text rel) =
      some candidate.text

/-- The test tells containment by components. -/
def DecidesContainment
    (out : Outside)
    (root : Path)
    (rel : Bytes)
    (canonRoot candidate : NormalPath) : Prop :=
  resolveInRoot out root rel = some candidate.text ↔
    canonRoot.elements <+: candidate.elements

/-- Where the root ends in a separator, it is the candidate or unlike it. -/
def ClosedRootFits (canonRoot candidate : NormalPath) : Prop :=
  canonRoot.closed = true →
  candidate.text = canonRoot.text ∨
    ¬canonRoot.text <+: candidate.text ∧
      candidate.text ++ [preferredSeparator] ≠ canonRoot.text

section Texts

variable {canonRoot candidate : NormalPath}

/-- The text of the root, or it with a separator behind it, begins the candidate. -/
theorem resolveInRoot_iff
    {out : Outside}
    {root : Path}
    {rel : Bytes}
    (resolves : Resolves out root rel canonRoot candidate) :
    resolveInRoot out root rel = some candidate.text ↔
      candidate.text = canonRoot.text ∨
        canonRoot.text ++ [preferredSeparator] <+: candidate.text := by
  simp only [resolveInRoot, resolves.root, resolves.candidate]
  generalize canonRoot.text = r
  generalize candidate.text = p
  constructor
  · intro passed
    split at passed
    · cases passed
    · split at passed
      · cases passed
      · next begins =>
          split at passed
          · cases passed
          · next behind =>
              rw [not_not] at begins
              have split : p = r ++ p.drop r.length := by
                conv_lhs => rw [← List.take_append_drop r.length p, begins]
              cases rest : p.drop r.length with
              | nil =>
                  rw [rest, List.append_nil] at split
                  exact .inl split
              | cons byte others =>
                  rw [rest] at split behind
                  have longer : p.length > r.length := by
                    rw [split]
                    simp
                  simp only [longer, true_and, List.head?_cons, ne_eq,
                    Option.some.injEq, not_not] at behind
                  refine .inr ⟨others, ?_⟩
                  rw [split, behind]
                  simp
  · rintro (rfl | ⟨rest, rfl⟩)
    · simp
    · simp

/-- Texts and components of a root without a separator at its end. -/
theorem elements_iff_of_open
    (isOpen : canonRoot.closed = false) :
    candidate.text = canonRoot.text ∨
        canonRoot.text ++ [preferredSeparator] <+: candidate.text ↔
      canonRoot.elements <+: candidate.elements := by
  have rootText : canonRoot.text = canonRoot.base := by
    simp [NormalPath.text, isOpen]
  rw [rootText]
  constructor
  · rintro (same | begins)
    · have notClosed := canonRoot.base_getLast?
      rw [← same] at notClosed
      have sameBase := NormalPath.base_eq_of_text notClosed
      exact NormalPath.elements_of_same_base (sameBase.trans same)
    · obtain ⟨rest, split, behind⟩ := NormalPath.base_of_text begins
      exact NormalPath.elements_of_base split behind
  · intro continues
    obtain ⟨more, -, split⟩ := NormalPath.base_of_elements continues
    cases more with
    | nil =>
        rw [NormalPath.tail, List.flatMap_nil, List.append_nil] at split
        cases closed : candidate.closed with
        | false =>
            left
            simp [NormalPath.text, closed, split]
        | true =>
            right
            rw [NormalPath.text, closed, if_pos rfl, split]
    | cons name rest =>
        right
        refine ⟨name ++ NormalPath.tail rest ++
          (if candidate.closed then [preferredSeparator] else []), ?_⟩
        rw [NormalPath.text, split]
        simp [NormalPath.tail]

/-- A path that goes on behind a closed root has no second separator there. -/
theorem elements_of_closed
    (isClosed : canonRoot.closed = true)
    (continues : canonRoot.elements <+: candidate.elements)
    (behind : canonRoot.text ++ [preferredSeparator] <+: candidate.text) :
    False := by
  obtain ⟨more, areNames, split⟩ := NormalPath.base_of_elements continues
  obtain ⟨rest, shape⟩ := behind
  rw [NormalPath.text, NormalPath.text, isClosed, if_pos rfl, split,
    List.append_assoc, List.append_assoc, List.append_assoc,
    List.append_cancel_left_eq] at shape
  cases more with
  | nil =>
      cases closed : candidate.closed with
      | false =>
          simp [NormalPath.tail, closed] at shape
      | true =>
          simp [NormalPath.tail, closed] at shape
  | cons name others =>
      have isName := areNames name List.mem_cons_self
      obtain ⟨first, letters, rfl⟩ :=
        List.exists_cons_of_ne_nil isName.nonempty
      simp only [NormalPath.tail, List.flatMap_cons, List.cons_append,
        List.nil_append, List.cons.injEq, true_and] at shape
      have noSlash := isName.noSlash first List.mem_cons_self
      rw [← shape.1] at noSlash
      exact absurd noSlash (by decide)

/-- A text in which a closed root goes on has its components. -/
theorem elements_of_closed_text
    (isClosed : canonRoot.closed = true)
    (begins : canonRoot.text <+: candidate.text) :
    canonRoot.elements <+: candidate.elements := by
  rw [NormalPath.text, isClosed, if_pos rfl] at begins
  obtain ⟨rest, split, behind⟩ := NormalPath.base_of_text begins
  exact NormalPath.elements_of_base split behind

/-- A closed root and a path with its components. -/
theorem text_of_elements_closed
    (isClosed : canonRoot.closed = true)
    (continues : canonRoot.elements <+: candidate.elements) :
    canonRoot.text <+: candidate.text ∨
      candidate.text ++ [preferredSeparator] = canonRoot.text := by
  obtain ⟨more, -, split⟩ := NormalPath.base_of_elements continues
  have rootText : canonRoot.text = canonRoot.base ++ [preferredSeparator] := by
    rw [NormalPath.text, isClosed, if_pos rfl]
  rw [rootText]
  cases more with
  | nil =>
      rw [NormalPath.tail, List.flatMap_nil, List.append_nil] at split
      cases closed : candidate.closed with
      | false =>
          right
          simp [NormalPath.text, closed, split]
      | true =>
          left
          simp [NormalPath.text, closed, split]
  | cons name rest =>
      left
      refine ⟨name ++ NormalPath.tail rest ++
        (if candidate.closed then [preferredSeparator] else []), ?_⟩
      rw [NormalPath.text, split]
      simp [NormalPath.tail]

/-- Without its separator, the text of a closed root is not closed. -/
theorem elements_of_closed_without
    (isClosed : canonRoot.closed = true)
    (without : candidate.text ++ [preferredSeparator] = canonRoot.text) :
    canonRoot.elements <+: candidate.elements := by
  have rootText : canonRoot.text = canonRoot.base ++ [preferredSeparator] := by
    rw [NormalPath.text, isClosed, if_pos rfl]
  rw [rootText] at without
  obtain ⟨same, -⟩ := List.append_inj' without rfl
  have notClosed := canonRoot.base_getLast?
  rw [← same] at notClosed
  have sameBase := NormalPath.base_eq_of_text notClosed
  exact NormalPath.elements_of_same_base (sameBase.trans same)

end Texts

/--
The test tells containment by components exactly when a root that ends in a
separator is the candidate itself or has nothing to do with it.
-/
theorem containment_exact_iff
    (out : Outside)
    (root : Path)
    (rel : Bytes)
    (canonRoot candidate : NormalPath)
    (resolves : Resolves out root rel canonRoot candidate) :
    DecidesContainment out root rel canonRoot candidate ↔
      ClosedRootFits canonRoot candidate := by
  rw [DecidesContainment, resolveInRoot_iff resolves, ClosedRootFits]
  cases isClosed : canonRoot.closed with
  | false =>
      rw [elements_iff_of_open isClosed]
      simp
  | true =>
      simp only [true_imp_iff]
      constructor
      · intro decides
        by_cases same : candidate.text = canonRoot.text
        · exact .inl same
        · right
          have outside : ¬canonRoot.elements <+: candidate.elements := by
            intro continues
            rcases decides.mpr continues with isRoot | behind
            · exact same isRoot
            · exact elements_of_closed isClosed continues behind
          exact
            ⟨fun begins => outside (elements_of_closed_text isClosed begins),
              fun without =>
                outside (elements_of_closed_without isClosed without)⟩
      · rintro (same | ⟨notBehind, notWithout⟩)
        · refine iff_of_true (.inl same) ?_
          apply elements_of_closed_text isClosed
          rw [same]
        · apply iff_of_false
          · rintro (same | behind)
            · exact notBehind (by rw [same])
            · exact notBehind ((List.prefix_append _ _).trans behind)
          · intro continues
            rcases text_of_elements_closed isClosed continues with begins | without
            · exact notBehind begins
            · exact notWithout without

/-- The root of drive D. -/
def driveRoot : NormalPath where
  root := .drive 68
  names := []
  rootValid := rfl
  namesValid := by simp

/-- A file in it. -/
def fileInRoot : NormalPath where
  root := .drive 68
  names := [[97]]
  rootValid := rfl
  namesValid := by
    intro name member
    rw [List.mem_singleton.mp member]
    refine ⟨List.cons_ne_nil _ _, fun byte isByte => ?_⟩
    rw [List.mem_singleton.mp isByte]
    rfl

/-- The path library on paths that are normalised already. -/
theorem driveRoot_resolves :
    Resolves {} (ascii "D:\\") (ascii "a") driveRoot fileInRoot where
  root := by decide
  candidate := by decide

/-- Whether the test is right about it is decided by the root's separator. -/
theorem containment_exact_iff_driveRoot :
    DecidesContainment {} (ascii "D:\\") (ascii "a") driveRoot fileInRoot ↔
      ClosedRootFits driveRoot fileInRoot :=
  containment_exact_iff {} (ascii "D:\\") (ascii "a") driveRoot fileInRoot
    driveRoot_resolves

/-- With the root of a drive as its sandbox the server finds no file in it. -/
theorem drive_root_rejects_all :
    Resolves {} (ascii "D:\\") (ascii "a") driveRoot fileInRoot ∧
      ¬DecidesContainment {} (ascii "D:\\") (ascii "a") driveRoot
        fileInRoot := by
  refine ⟨driveRoot_resolves, fun decides => ?_⟩
  have rejected : resolveInRoot {} (ascii "D:\\") (ascii "a") = none := by
    decide
  have accepted := decides.mpr ⟨[[97]], rfl⟩
  rw [rejected] at accepted
  cases accepted

end RadminPro
