import RadminPro.PathText

namespace RadminPro.PathText

open ByteCodec

/-!
# Absolute normalised paths

A normalised path is a root name, a root directory and names with single
separators between them.  Its text ends in a separator when there is no name, or
when the last name is followed by one.
-/

/-- A name in a path. -/
structure IsName (name : Path) : Prop where
  nonempty : name ≠ []
  noSlash : ∀ byte ∈ name, isSlash byte = false

/-- What an absolute path starts with: a drive, or a server or device. -/
inductive RootName where
  | drive (letter : UInt8)
  | server (name : Path)

namespace RootName

/-- The text of a root name. -/
def text : RootName → Path
  | .drive letter => [letter, 58]
  | .server name => preferredSeparator :: preferredSeparator :: name

/-- A root name as it can be written. -/
def Valid : RootName → Prop
  | .drive letter => isLetter letter = true
  | .server name => IsName name

/-- The name in a root name. -/
def name : RootName → Path
  | .drive letter => [letter, 58]
  | .server name => name

end RootName

/-- A path with its root name and its names. -/
structure NormalPath where
  root : RootName
  names : List Path
  trailing : Bool := false
  rootValid : root.Valid
  namesValid : ∀ name ∈ names, IsName name

namespace NormalPath

/-- Names, each behind a separator. -/
def tail (names : List Path) : Path :=
  names.flatMap (preferredSeparator :: ·)

/-- The text without a separator at its end. -/
def base (path : NormalPath) : Path :=
  path.root.text ++ tail path.names

/-- The text ends in a separator. -/
def closed (path : NormalPath) : Bool :=
  path.names.isEmpty || path.trailing

/-- The text of a path. -/
def text (path : NormalPath) : Path :=
  path.base ++ if path.closed then [preferredSeparator] else []

/-- The components: root name, root directory and names. -/
def elements (path : NormalPath) : List Path :=
  path.root.text :: [preferredSeparator] :: path.names

/-! ## Text and components -/

/-- A name is one component. -/
theorem components_name
    {name : Path}
    (isName : IsName name) :
    components name = [name] := by
  have taken :
      ∀ (rest current : Path),
        (∀ byte ∈ rest, isSlash byte = false) →
        splitComponents current rest =
          if current ++ rest = [] then [] else [current ++ rest] := by
    intro rest
    induction rest with
    | nil =>
        intro current _
        simp [splitComponents]
    | cons byte rest inductionHypothesis =>
        intro current noSlash
        rw [List.forall_mem_cons] at noSlash
        rw [splitComponents, noSlash.1, if_neg Bool.false_ne_true,
          inductionHypothesis _ noSlash.2]
        simp
  rw [components, taken name [] isName.noSlash, List.nil_append,
    if_neg isName.nonempty]

/-- Each name adds a component. -/
theorem components_tail
    {names : List Path}
    (areNames : ∀ name ∈ names, IsName name)
    (front : Path) :
    components (front ++ tail names) = components front ++ names := by
  induction names generalizing front with
  | nil =>
      simp [tail]
  | cons name rest inductionHypothesis =>
      rw [List.forall_mem_cons] at areNames
      have shape :
          front ++ tail (name :: rest) =
            (front ++ preferredSeparator :: name) ++ tail rest := by
        simp [tail]
      rw [shape, inductionHypothesis areNames.2,
        components_append_slash preferredSeparator rfl,
        components_name areNames.1]
      simp

/-- The name in a root name is its component. -/
theorem components_root
    {root : RootName}
    (valid : root.Valid) :
    components root.text = [root.name] := by
  cases root with
  | drive letter =>
      have noSlash : isSlash letter = false := by
        simp only [RootName.Valid, isLetter, Bool.or_eq_true, Bool.and_eq_true,
          decide_eq_true_eq, UInt8.le_iff_toNat_le] at valid
        simp only [isSlash, Bool.or_eq_false_iff, decide_eq_false_iff_not]
        constructor
        all_goals
          rintro rfl
          simp at valid
      apply components_name
      refine ⟨by simp [RootName.text], fun byte member => ?_⟩
      simp only [RootName.text, List.mem_cons, List.not_mem_nil, or_false]
        at member
      rcases member with rfl | rfl
      · exact noSlash
      · rfl
  | server name =>
      have skipped :
          components (preferredSeparator :: preferredSeparator :: name) =
            components name := by
        simp [components, splitComponents, preferredSeparator, isSlash]
      rw [RootName.text, skipped, components_name valid]
      rfl

/-- The components of the text are the name of the root and the names. -/
theorem components_base
    (path : NormalPath) :
    components path.base = path.root.name :: path.names := by
  rw [base, components_tail path.namesValid, components_root path.rootValid]
  rfl

/-- A root name starts with a separator if it is that of a server. -/
theorem root_eq_of_name
    {root other : RootName}
    (valid : root.Valid)
    (otherValid : other.Valid)
    (sameName : root.name = other.name)
    (sameStart : root.text.head? = other.text.head?) :
    root = other := by
  have letterNoSeparator :
      ∀ letter, isLetter letter = true → letter ≠ preferredSeparator := by
    rintro letter isLetter rfl
    simp [PathText.isLetter, preferredSeparator] at isLetter
  cases root with
  | drive letter =>
      cases other with
      | drive otherLetter =>
          simp only [RootName.name, List.cons.injEq, and_true] at sameName
          rw [sameName]
      | server name =>
          simp only [RootName.text, List.head?_cons, Option.some.injEq]
            at sameStart
          exact absurd sameStart (letterNoSeparator letter valid)
  | server name =>
      cases other with
      | drive letter =>
          simp only [RootName.text, List.head?_cons, Option.some.injEq]
            at sameStart
          exact absurd sameStart.symm (letterNoSeparator letter otherValid)
      | server otherName =>
          rw [RootName.name, RootName.name] at sameName
          rw [sameName]

/-- A root name is not empty. -/
theorem root_ne_nil
    (root : RootName) :
    root.text ≠ [] := by
  cases root with
  | drive letter =>
      exact List.cons_ne_nil _ _
  | server name =>
      exact List.cons_ne_nil _ _

/-- Neither a root name nor a name ends in a separator. -/
theorem base_getLast?
    (path : NormalPath) :
    path.base.getLast? ≠ some preferredSeparator := by
  have nameEnds :
      ∀ name, IsName name → name.getLast? ≠ some preferredSeparator := by
    intro name isName ends
    have noSlash := isName.noSlash _ (List.mem_of_getLast? ends)
    exact absurd noSlash (by decide)
  rcases List.eq_nil_or_concat path.names with none | ⟨front, last, shape⟩
  · have alone : path.base = path.root.text := by
      simp [base, tail, none]
    have valid := path.rootValid
    rw [alone]
    cases root : path.root with
    | drive letter =>
        simp [RootName.text, preferredSeparator]
    | server name =>
        rw [root] at valid
        have nonempty : name ≠ [] :=
          IsName.nonempty valid
        rw [RootName.text, List.getLast?_cons_of_ne_nil (by simp),
          List.getLast?_cons_of_ne_nil nonempty]
        exact nameEnds name valid
  · have isName : IsName last :=
      path.namesValid last (by simp [shape])
    have split :
        path.base =
          (path.root.text ++ tail front ++ [preferredSeparator]) ++ last := by
      simp [base, tail, shape]
    rw [split, List.getLast?_append_of_ne_nil _ isName.nonempty]
    exact nameEnds last isName

/-- Components that continue those of another path continue its text. -/
theorem base_of_elements
    {path longer : NormalPath}
    (continues : path.elements <+: longer.elements) :
    ∃ more,
      (∀ name ∈ more, IsName name) ∧ longer.base = path.base ++ tail more := by
  obtain ⟨more, split⟩ := continues
  simp only [elements, List.cons_append, List.cons.injEq, true_and] at split
  refine ⟨more, fun name member => longer.namesValid name ?_, ?_⟩
  · rw [← split.2]
    exact List.mem_append_right _ member
  · rw [base, base, split.1, ← split.2, List.append_assoc]
    simp [tail]

/-- A text that is continued behind a separator has its components continued. -/
theorem elements_of_base
    {path longer : NormalPath}
    {rest : Path}
    (split : longer.base = path.base ++ rest)
    (behindSeparator : ∀ byte ∈ rest.head?, byte = preferredSeparator) :
    path.elements <+: longer.elements := by
  have sameStart : path.root.text.head? = longer.root.text.head? := by
    have pathStart : path.base.head? = path.root.text.head? :=
      List.head?_append_of_ne_nil _ (root_ne_nil _)
    have longerStart : longer.base.head? = longer.root.text.head? :=
      List.head?_append_of_ne_nil _ (root_ne_nil _)
    rw [← pathStart, ← longerStart, split]
    refine (List.head?_append_of_ne_nil _ ?_).symm
    simp [base, root_ne_nil]
  have parts :
      components longer.base =
        components path.base ++ components rest := by
    rw [split]
    cases rest with
    | nil =>
        simp [components, splitComponents]
    | cons byte rest =>
        obtain rfl := behindSeparator byte rfl
        have first := components_append_slash preferredSeparator rfl path.base rest
        have alone := components_append_slash preferredSeparator rfl [] rest
        have none : components [] = [] :=
          rfl
        rw [List.nil_append, none, List.nil_append] at alone
        rw [first, alone]
  rw [components_base, components_base, List.cons_append, List.cons.injEq]
    at parts
  have sameRoot :=
    root_eq_of_name path.rootValid longer.rootValid parts.1.symm sameStart
  rw [elements, elements, sameRoot, parts.2]
  exact List.prefix_append _ _

/-- So has one that is the same but for a separator at its end. -/
theorem elements_of_same_base
    {path longer : NormalPath}
    (same : longer.base = path.base) :
    path.elements <+: longer.elements := by
  have split : longer.base = path.base ++ [] := by
    rw [List.append_nil, same]
  exact elements_of_base split (by simp)

/-- A text without a separator at its end is not closed. -/
theorem base_eq_of_text
    {path : NormalPath}
    (notClosed : path.text.getLast? ≠ some preferredSeparator) :
    path.base = path.text := by
  cases closed : path.closed with
  | false =>
      simp [text, closed]
  | true =>
      rw [text, closed, if_pos rfl, List.getLast?_concat] at notClosed
      exact absurd rfl notClosed

/-- What a text begins with up to a separator, it begins with without its last. -/
theorem base_of_text
    {path : NormalPath}
    {front : Path}
    (begins : front ++ [preferredSeparator] <+: path.text) :
    ∃ rest,
      path.base = front ++ rest ∧
        ∀ byte ∈ rest.head?, byte = preferredSeparator := by
  obtain ⟨rest, split⟩ := begins
  cases closed : path.closed with
  | false =>
      rw [text, closed, if_neg Bool.false_ne_true, List.append_nil,
        List.append_assoc] at split
      exact ⟨_, split.symm, by simp⟩
  | true =>
      rw [text, closed, if_pos rfl] at split
      rcases List.eq_nil_or_concat rest with rfl | ⟨middle, last, rfl⟩
      · rw [List.append_nil] at split
        obtain ⟨sameBase, -⟩ := List.append_inj' split rfl
        exact ⟨[], by simp [sameBase], by simp⟩
      · rw [List.concat_eq_append, ← List.append_assoc] at split
        obtain ⟨sameBase, -⟩ := List.append_inj' split rfl
        rw [List.append_assoc] at sameBase
        exact ⟨_, sameBase.symm, by simp⟩

end NormalPath

end RadminPro.PathText
