import RadminPro.ByteCodec
import Mathlib.Data.List.DropRight

namespace RadminPro

open ByteCodec

/-!
# Windows path text

A path is its native text.  This library has the decomposition of a path into
root name, root directory and relative part, the join `p / q`, the parent
directories of a path and its components, and says what it means for a path to
lie strictly inside a directory.
-/

/-- The native text of a path. -/
abbrev Path := Bytes

namespace PathText

/-- `\`, the separator a normalised path is written with. -/
def preferredSeparator : UInt8 := 92

/-- Both slashes separate components. -/
def isSlash (byte : UInt8) : Bool :=
  byte = 92 || byte = 47

/-- An ASCII letter. -/
def isLetter (byte : UInt8) : Bool :=
  (65 ≤ byte && byte ≤ 90) || (97 ≤ byte && byte ≤ 122)

/-- A drive letter and a colon. -/
def hasDrivePrefix : Path → Bool
  | letter :: colon :: _ => isLetter letter && colon = 58
  | _ => false

/-- The length of the root name: a drive, a device prefix or a server name. -/
def rootNameLength (path : Path) : Nat :=
  if hasDrivePrefix path then
    2
  else
    match path with
    | first :: second :: third :: rest =>
        if !isSlash first then
          0
        else if
            (match rest with
              | [] => false
              | fourth :: after =>
                  isSlash fourth &&
                    (match after with
                      | [] => true
                      | fifth :: _ => !isSlash fifth)) &&
              ((isSlash second && (third = 63 || third = 46)) ||
                (second = 63 && third = 63)) then
          3
        else if isSlash second && !isSlash third then
          3 + (rest.takeWhile fun byte => !isSlash byte).length
        else
          0
    | _ => 0

/-- The root name. -/
def rootName (path : Path) : Path :=
  path.take (rootNameLength path)

/-- What follows the root name. -/
def afterRootName (path : Path) : Path :=
  path.drop (rootNameLength path)

/-- The slashes between the root name and the relative part. -/
def rootDirectory (path : Path) : Path :=
  (afterRootName path).takeWhile isSlash

/-- The part below the root. -/
def relativePath (path : Path) : Path :=
  (afterRootName path).dropWhile isSlash

/-- `is_absolute`. -/
def isAbsolute (path : Path) : Bool :=
  if hasDrivePrefix path then
    (path.drop 2).head?.any isSlash
  else
    rootNameLength path ≠ 0

/-- `path / other`. -/
def join (path other : Path) : Path :=
  if isAbsolute other then
    other
  else if rootName other ≠ [] ∧ rootName path ≠ rootName other then
    other
  else if (afterRootName other).head?.any isSlash then
    rootName path ++ afterRootName other
  else if afterRootName path = [] then
    (if rootNameLength path ≥ 3 then path ++ [preferredSeparator] else path) ++
      afterRootName other
  else
    (if path.getLast?.any isSlash then path else path ++ [preferredSeparator]) ++
      afterRootName other

/-- A relative path without its last name and the slashes before it. -/
def dropName (relative : Path) : Path :=
  (relative.rdropWhile fun byte => !isSlash byte).rdropWhile isSlash

/-- The directories on the way to a relative path, itself included. -/
def directoriesTo : Nat → Path → List Path
  | 0, _ => []
  | fuel + 1, relative =>
      if relative = [] then
        []
      else
        directoriesTo fuel (dropName relative) ++ [relative]

/-- The directories that `create_directories(path.parent_path())` looks at. -/
def parentDirectories (path : Path) : List Path :=
  (directoriesTo path.length (dropName (relativePath path))).map
    (rootName path ++ rootDirectory path ++ ·)

/-- Split off the components, the bytes of the current one being `current`. -/
def splitComponents (current : Path) : Path → List Path
  | [] => if current = [] then [] else [current]
  | byte :: rest =>
      if isSlash byte then
        (if current = [] then [] else [current]) ++ splitComponents [] rest
      else
        splitComponents (current ++ [byte]) rest

/-- The names between the slashes. -/
def components (path : Path) : List Path :=
  splitComponents [] path

/-- A path that leads down from `directory` by at least one real name. -/
def StrictlyInside (directory path : Path) : Prop :=
  ∃ below,
    below ≠ [] ∧ components path = components directory ++ below ∧
      ∀ name ∈ below, name ≠ ascii "." ∧ name ≠ ascii ".."

/-- An absolute path with a root directory and no dot names. -/
structure Normalised (path : Path) : Prop where
  rooted : rootDirectory path ≠ []
  noDots : ∀ name ∈ components path, name ≠ ascii "." ∧ name ≠ ascii ".."

/-! ## Components -/

/-- A slash separates the components before it from those after it. -/
theorem splitComponents_append_slash
    {slash : UInt8}
    (isSeparator : isSlash slash = true)
    (current before after : Path) :
    splitComponents current (before ++ slash :: after) =
      splitComponents current before ++ components after := by
  induction before generalizing current with
  | nil =>
      simp [splitComponents, isSeparator, components]
  | cons byte rest inductionHypothesis =>
      by_cases separates : isSlash byte = true
      · simp [splitComponents, separates, inductionHypothesis]
      · simp [splitComponents, separates, inductionHypothesis]

/-- A slash separates the components before it from those after it. -/
theorem components_append_slash
    (slash : UInt8)
    (isSeparator : isSlash slash = true)
    (before after : Path) :
    components (before ++ slash :: after) =
      components before ++ components after :=
  splitComponents_append_slash isSeparator [] before after

/-- A path that ends in a slash has its components before those appended. -/
theorem components_append_of_getLast?
    {before : Path}
    {slash : UInt8}
    (ends : before.getLast? = some slash)
    (isSeparator : isSlash slash = true)
    (after : Path) :
    components (before ++ after) = components before ++ components after := by
  obtain ⟨front, rfl⟩ := List.getLast?_eq_some_iff.mp ends
  have alone : components (front ++ [slash]) = components front := by
    rw [components_append_slash slash isSeparator]
    simp [components, splitComponents]
  rw [alone, List.append_assoc]
  exact components_append_slash slash isSeparator front after

/-- Appending slashes adds no component. -/
theorem components_append_slashes
    {slashes : Path}
    (separators : ∀ byte ∈ slashes, isSlash byte = true)
    (before : Path) :
    components (before ++ slashes) = components before := by
  induction slashes generalizing before with
  | nil =>
      simp
  | cons slash rest inductionHypothesis =>
      have isSeparator := separators slash List.mem_cons_self
      rw [components_append_slash slash isSeparator]
      have restNone := inductionHypothesis
        (fun byte member => separators byte (List.mem_cons_of_mem _ member)) []
      rw [List.nil_append] at restNone
      rw [restNone]
      simp [components, splitComponents]

/-- Text that contains another byte than slashes has a component. -/
theorem splitComponents_ne_nil
    {current text : Path}
    (some : current ≠ [] ∨ ∃ byte ∈ text, isSlash byte = false) :
    splitComponents current text ≠ [] := by
  induction text generalizing current with
  | nil =>
      rcases some with nonempty | ⟨byte, member, _⟩
      · simp [splitComponents, nonempty]
      · cases member
  | cons head rest inductionHypothesis =>
      by_cases separates : isSlash head = true
      · by_cases nonempty : current = []
        · have later : ∃ byte ∈ rest, isSlash byte = false := by
            rcases some with given | ⟨byte, member, isName⟩
            · exact absurd nonempty given
            · rcases List.mem_cons.mp member with rfl | inRest
              · rw [separates] at isName
                cases isName
              · exact ⟨byte, inRest, isName⟩
          simp [splitComponents, separates, nonempty,
            inductionHypothesis (.inr later)]
        · simp [splitComponents, separates, nonempty]
      · simp only [splitComponents, separates, Bool.false_eq_true, if_false]
        exact inductionHypothesis (.inl (by simp))

/-- Appending to a path extends its last component or adds one. -/
theorem splitComponents_append_name
    {name : Path}
    (nonempty : name ≠ [])
    (isName : ∀ byte ∈ name, isSlash byte = false)
    (current text component : Path)
    (member : component ∈ splitComponents current (text ++ name)) :
    component ∈ splitComponents current text ∨ name <:+ component := by
  induction text generalizing current with
  | nil =>
      have whole :
          ∀ current, splitComponents current name =
            if current ++ name = [] then [] else [current ++ name] := by
        clear member nonempty
        induction name with
        | nil =>
            intro current
            simp [splitComponents]
        | cons byte rest inductionHypothesis =>
            intro current
            have notSlash := isName byte List.mem_cons_self
            simp only [splitComponents, notSlash, Bool.false_eq_true, if_false]
            rw [inductionHypothesis fun other isOther =>
              isName other (List.mem_cons_of_mem _ isOther)]
            simp
      rw [List.nil_append, whole, if_neg (by simp [nonempty])] at member
      rw [List.mem_singleton.mp member]
      exact .inr (List.suffix_append current name)
  | cons head rest inductionHypothesis =>
      by_cases separates : isSlash head = true
      · rw [List.cons_append] at member
        simp only [splitComponents, separates, if_true, List.mem_append]
          at member ⊢
        rcases member with inCurrent | inRest
        · exact .inl (.inl inCurrent)
        · exact (inductionHypothesis [] inRest).imp_left .inr
      · rw [List.cons_append] at member
        simp only [splitComponents, separates, Bool.false_eq_true, if_false]
          at member ⊢
        exact inductionHypothesis _ member

/-! ## Directories on the way -/

/-- The directory above a relative path has a prefix of its components. -/
theorem components_dropName
    (relative : Path) :
    components (dropName relative) <+: components relative := by
  let named := relative.rdropWhile fun byte => !isSlash byte
  have trimmed : components (dropName relative) = components named := by
    have split : dropName relative ++ named.rtakeWhile isSlash = named :=
      List.rdropWhile_append_rtakeWhile ..
    rw [← components_append_slashes
      (fun byte member => List.mem_rtakeWhile_imp member)
      (dropName relative), split]
  rw [trimmed]
  have split :
      named ++ (relative.rtakeWhile fun byte => !isSlash byte) = relative :=
    List.rdropWhile_append_rtakeWhile ..
  by_cases nothing : named = []
  · rw [nothing]
    exact List.nil_prefix
  · have ends := List.rdropWhile_last_not (fun byte => !isSlash byte) relative
      nothing
    conv_rhs => rw [← split]
    rw [components_append_of_getLast? (List.getLast?_eq_getLast_of_ne_nil nothing)
      (by simpa using ends)]
    exact List.prefix_append ..

/-- Every directory on the way has a prefix of the components. -/
theorem components_directoriesTo
    (fuel : Nat)
    (relative directory : Path)
    (member : directory ∈ directoriesTo fuel relative) :
    components directory <+: components relative := by
  induction fuel generalizing relative with
  | zero =>
      cases member
  | succ fuel inductionHypothesis =>
      unfold directoriesTo at member
      split at member
      · cases member
      · rcases List.mem_append.mp member with above | isLast
        · exact (inductionHypothesis _ above).trans
            (components_dropName relative)
        · rw [List.mem_singleton.mp isLast]

/-- A path is its root name, its root directory and its relative part. -/
theorem rootName_append_relativePath
    (path : Path) :
    rootName path ++ rootDirectory path ++ relativePath path = path := by
  rw [List.append_assoc, rootDirectory, relativePath,
    List.takeWhile_append_dropWhile, rootName, afterRootName,
    List.take_append_drop]

/-- The directories above a rooted path have a prefix of its components. -/
theorem components_parentDirectories
    {path directory : Path}
    (rooted : rootDirectory path ≠ [])
    (member : directory ∈ parentDirectories path) :
    components directory <+: components path := by
  obtain ⟨relative, isAbove, rfl⟩ := List.mem_map.mp member
  have above :=
    (components_directoriesTo _ _ _ isAbove).trans
      (components_dropName (relativePath path))
  obtain ⟨slash, ends⟩ : ∃ slash, (rootDirectory path).getLast? = some slash :=
    ⟨_, List.getLast?_eq_getLast_of_ne_nil rooted⟩
  have isSeparator : isSlash slash = true :=
    List.mem_takeWhile_imp (List.mem_of_getLast? ends)
  have rootEnds :
      (rootName path ++ rootDirectory path).getLast? = some slash := by
    rw [List.getLast?_append, ends]
    rfl
  conv_rhs => rw [← rootName_append_relativePath path]
  rw [components_append_of_getLast? rootEnds isSeparator,
    components_append_of_getLast? rootEnds isSeparator]
  exact (List.prefix_append_right_inj _).mpr above

end PathText

end RadminPro
