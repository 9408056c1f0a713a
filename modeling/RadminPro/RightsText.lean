import RadminPro.ConfigNormalForm

namespace RadminPro

open ByteCodec
open ConfigText

/-!
# The text of rights

A rights line lists names between bars or commas.  The whole value is trimmed,
its pieces are not: a name counts where it touches the separators around it.
-/

/-! ## Lists of rights as they are written -/

/-- A name with the blanks around it. -/
structure WrittenRight where
  before : Bytes := []
  name : Bytes
  behind : Bytes := []

namespace WrittenRight

/-- What stands between two separators. -/
def text (right : WrittenRight) : Bytes :=
  right.before ++ right.name ++ right.behind

/-- Blanks around a name that has no blank at its ends. -/
structure Valid (right : WrittenRight) : Prop where
  before : ∀ c ∈ right.before, isBlank c = true
  behind : ∀ c ∈ right.behind, isBlank c = true
  first : ∀ c ∈ right.name.head?, isBlank c = false
  last : ∀ c ∈ right.name.getLast?, isBlank c = false
  noSeparator : ∀ c ∈ right.name, separatesRights c = false

end WrittenRight

/-- Names with a separator before each but the first. -/
structure RightsList where
  first : WrittenRight
  rest : List (UInt8 × WrittenRight)

namespace RightsList

/-- The names in order. -/
def items (list : RightsList) : List WrittenRight :=
  list.first :: list.rest.map Prod.snd

/-- The list as it is written. -/
def text (list : RightsList) : Bytes :=
  TokenList.joined list.first.text
    (list.rest.map fun part => (part.1, part.2.text))

/-- Bars or commas between names with blanks around them. -/
structure Valid (list : RightsList) : Prop where
  items : ∀ right ∈ list.items, right.Valid
  separators : ∀ part ∈ list.rest, separatesRights part.1 = true

/-- A name is listed with no blank between it and the separators around it. -/
def ListsTightly (list : RightsList) (name : Bytes) : Prop :=
  ∃ earlier right later,
    list.items = earlier ++ right :: later ∧
      right.name = name ∧
      (earlier = [] ∨ right.before = []) ∧
      (later = [] ∨ right.behind = [])

end RightsList

/-- The rights are the union of the bits of the known names. -/
def UnionOfBits (rights : UInt32) (names : List Bytes) : Prop :=
  ∀ place,
    rights.toNat.testBit place = true ↔
      ∃ right ∈ kRights,
        right.2 ∈ names ∧ right.1.toNat.testBit place = true

/-- The account of this name is configured, and has these rights. -/
structure Grants (cfg : ServerConfig) (name : Bytes) (rights : UInt32) :
    Prop where
  configured : ∃ u ∈ cfg.users, u.username = name
  granted : ∀ u ∈ cfg.users, u.username = name → u.rights = rights

/-- The key of an account's rights. -/
def rightsKey (name : Bytes) : Bytes :=
  ascii "user." ++ name ++ ascii ".rights"

/-- A text whose last line with the rights of an account has this value. -/
structure LastRightsLine (text name value : Bytes) : Prop where
  noEquals : equalsSign ∉ name
  shape :
    ∃ earlier later,
      getlinesFrom [] text =
          earlier ++ ServerApp.configLine (rightsKey name) value :: later ∧
        ∀ line ∈ later, ∀ val, assignment? line ≠ some (rightsKey name, val)

/-! ## The names that are found -/

/-- A name of a right: it is found between separators. -/
structure Word (name : Bytes) : Prop where
  nonempty : name ≠ []
  solid : ∀ c ∈ name, isBlank c = false

theorem word_of_known :
    ∀ right ∈ kRights, Word right.2 := by
  intro right known
  obtain ⟨nonempty, clean⟩ := names_clean right known
  exact ⟨nonempty, fun c member => (clean c member).2⟩

namespace WrittenRight

variable {right : WrittenRight}
variable {name : Bytes}

/-- Blanks in a word are none. -/
theorem nil_of_blank
    (word : Word name)
    {blanks : Bytes}
    (blank : ∀ c ∈ blanks, isBlank c = true)
    (within : blanks ⊆ name) :
    blanks = [] := by
  apply List.eq_nil_iff_forall_not_mem.mpr
  intro c member
  have solid := word.solid c (within member)
  rw [blank c member] at solid
  cases solid

/-- Between two separators a word is found if no blank is around it. -/
theorem text_eq_iff
    (valid : right.Valid)
    (word : Word name) :
    right.text = name ↔
      right.name = name ∧ right.before = [] ∧ right.behind = [] := by
  constructor
  · rintro rfl
    have noBefore : right.before = [] :=
      nil_of_blank word valid.before fun c member => by simp [text, member]
    have noBehind : right.behind = [] :=
      nil_of_blank word valid.behind fun c member => by simp [text, member]
    simp [text, noBefore, noBehind]
  · rintro ⟨rfl, noBefore, noBehind⟩
    simp [text, noBefore, noBehind]

/-- At the start of a value the blanks before it do not count. -/
theorem dropWhile_text_eq_iff
    (valid : right.Valid)
    (word : Word name) :
    right.text.dropWhile isBlank = name ↔
      right.name = name ∧ right.behind = [] := by
  have dropped :
      right.text.dropWhile isBlank =
        (right.name ++ right.behind).dropWhile isBlank := by
    rw [text, List.append_assoc, List.dropWhile_append_of_pos valid.before]
  rw [dropped]
  cases spelled : right.name with
  | nil =>
      have gone : right.behind.dropWhile isBlank = [] :=
        List.dropWhile_eq_nil_iff.mpr valid.behind
      rw [List.nil_append, gone]
      have nonempty := word.nonempty
      exact iff_of_false (Ne.symm nonempty) fun both => nonempty both.1.symm
  | cons head tail =>
      have solid : isBlank head = false :=
        valid.first head (by rw [spelled]; rfl)
      rw [List.cons_append, List.dropWhile_cons_of_neg (by simp [solid])]
      constructor
      · rintro rfl
        have noBehind : right.behind = [] :=
          nil_of_blank word valid.behind fun c member => by simp [member]
        simp [noBehind]
      · rintro ⟨rfl, noBehind⟩
        simp [noBehind]

/-- At its end the blanks behind it do not count. -/
theorem rdropWhile_text_eq_iff
    (valid : right.Valid)
    (word : Word name) :
    right.text.rdropWhile isBlank = name ↔
      right.name = name ∧ right.before = [] := by
  rcases List.eq_nil_or_concat right.name with spelled | ⟨front, last, spelled⟩
  · have gone : right.text.rdropWhile isBlank = [] := by
      apply List.rdropWhile_eq_nil_iff.mpr
      intro c member
      simp only [text, spelled, List.append_nil, List.mem_append] at member
      rcases member with inBefore | inBehind
      · exact valid.before c inBefore
      · exact valid.behind c inBehind
    rw [gone, spelled]
    have nonempty := word.nonempty
    exact iff_of_false (Ne.symm nonempty) fun both => nonempty both.1.symm
  · rw [List.concat_eq_append] at spelled
    have solid : isBlank last = false :=
      valid.last last (by rw [spelled, List.getLast?_concat]; rfl)
    have gone : right.behind.rdropWhile isBlank = [] :=
      List.rdropWhile_eq_nil_iff.mpr valid.behind
    have shape :
        right.text = (right.before ++ front) ++ last :: right.behind := by
      simp [text, spelled]
    have kept :
        right.text.rdropWhile isBlank = right.before ++ right.name := by
      rw [shape, TrimmedText.rdropWhile_append_solid solid, gone, spelled]
      simp
    rw [kept]
    constructor
    · rintro rfl
      have noBefore : right.before = [] :=
        nil_of_blank word valid.before fun c member => by simp [member]
      simp [noBefore]
    · rintro ⟨rfl, noBefore⟩
      simp [noBefore]

/-- What is written between separators has no separator. -/
theorem Valid.text_clean
    (valid : right.Valid) :
    ∀ c ∈ right.text, separatesRights c = false := by
  have blankClean : ∀ c, isBlank c = true → separatesRights c = false := by
    intro c blank
    simp only [isBlank, Bool.or_eq_true, beq_iff_eq] at blank
    rcases blank with ((rfl | rfl) | rfl) | rfl
    all_goals decide
  intro c member
  simp only [text, List.mem_append] at member
  rcases member with (inBefore | inName) | inBehind
  · exact blankClean c (valid.before c inBefore)
  · exact valid.noSeparator c inName
  · exact blankClean c (valid.behind c inBehind)

end WrittenRight

/-- Separators are no blanks. -/
theorem separator_solid
    {c : UInt8}
    (separates : separatesRights c = true) :
    isBlank c = false := by
  simp only [separatesRights, Bool.or_eq_true, beq_iff_eq] at separates
  rcases separates with rfl | rfl
  all_goals decide

namespace RightsList

/-- Trimming a list of two names or more trims its first and its last. -/
theorem trim_joined
    (first : Bytes)
    (middle : List (UInt8 × Bytes))
    {separator : UInt8}
    (last : Bytes)
    (solid : isBlank separator = false)
    (middleSolid : ∀ part ∈ middle, isBlank part.1 = false) :
    trim (TokenList.joined first (middle ++ [(separator, last)])) =
      TokenList.joined (first.dropWhile isBlank)
        (middle ++ [(separator, last.rdropWhile isBlank)]) := by
  have startsSolid :
      ∀ (start : Bytes) (front : List (UInt8 × Bytes)) (back : Bytes),
        (∀ part ∈ front, isBlank part.1 = false) →
        (TokenList.joined start (front ++ [(separator, back)])).dropWhile
            isBlank =
          TokenList.joined (start.dropWhile isBlank)
            (front ++ [(separator, back)]) := by
    intro start front back frontSolid
    have dropped :
        ∀ (middle : UInt8) (rest : Bytes),
          isBlank middle = false →
          (start ++ middle :: rest).dropWhile isBlank =
            start.dropWhile isBlank ++ middle :: rest := by
      intro middle rest middleSolid
      rw [List.dropWhile_append]
      cases gone : start.dropWhile isBlank with
      | nil =>
          simp [middleSolid]
      | cons head tail =>
          rfl
    cases front with
    | nil =>
        simpa [TokenList.joined] using dropped separator back solid
    | cons part others =>
        have partSolid := frontSolid part List.mem_cons_self
        simpa [TokenList.joined] using dropped part.1 _ partSolid
  have ends :
      ∀ (start back : Bytes) (front : List (UInt8 × Bytes)),
        TokenList.joined start (front ++ [(separator, back)]) =
          TokenList.joined start front ++ separator :: back := by
    intro start back front
    simp [TokenList.joined]
  rw [trim, TrimmedText.trim, startsSolid first middle last middleSolid, ends,
    TrimmedText.rdropWhile_append_solid solid, ends]

/-- The known names among the pieces are those that are listed tightly. -/
theorem mem_tokens_iff
    {list : RightsList}
    (valid : list.Valid)
    {name : Bytes}
    (word : Word name) :
    name ∈ TokenList.tokens separatesRights (trim list.text) ↔
      list.ListsTightly name := by
  obtain ⟨first, rest⟩ := list
  have firstValid : first.Valid :=
    valid.items first List.mem_cons_self
  rcases List.eq_nil_or_concat rest with rfl | ⟨middle, ⟨separator, last⟩, rfl⟩
  · -- One name alone: all blanks around it are trimmed.
    have oneItem : (RightsList.mk first []).items = [first] :=
      rfl
    have clean :
        ∀ c ∈ trim first.text, separatesRights c = false :=
      fun c member => firstValid.text_clean c (TrimmedText.mem_of_mem_trim member)
    have found :
        name ∈ TokenList.tokens separatesRights (trim first.text) ↔
          trim first.text = name := by
      rw [TokenList.tokens_of_clean clean]
      split
      · next empty =>
          rw [List.isEmpty_iff.mp empty]
          simpa using word.nonempty.symm
      · exact List.mem_singleton.trans eq_comm
    have trimmed : trim first.text = name ↔ first.name = name := by
      let bare : WrittenRight := { first with before := [] }
      have bareValid : bare.Valid :=
        { firstValid with before := fun c member => by cases member }
      have dropped :
          trim first.text = bare.text.rdropWhile isBlank := by
        have both : trim first.text = trim bare.text := by
          simp only [TrimmedText.trim, WrittenRight.text, bare,
            List.append_assoc, List.nil_append]
          rw [List.dropWhile_append_of_pos firstValid.before]
        rw [both, trim, TrimmedText.trim, ← TrimmedText.dropWhile_rdropWhile]
        cases spelled : first.name with
        | nil =>
            have gone : bare.text.rdropWhile isBlank = [] := by
              apply List.rdropWhile_eq_nil_iff.mpr
              simpa [bare, WrittenRight.text, spelled] using firstValid.behind
            rw [gone]
            rfl
        | cons head tail =>
            have solid : isBlank head = false :=
              firstValid.first head (by rw [spelled]; rfl)
            have kept :=
              TrimmedText.rdropWhile_append_solid solid []
                (tail ++ first.behind)
            simp only [List.nil_append] at kept
            simp only [bare, WrittenRight.text, spelled, List.nil_append,
              List.cons_append, kept]
            rw [List.dropWhile_cons_of_neg (by simp [solid])]
      rw [dropped, WrittenRight.rdropWhile_text_eq_iff bareValid word]
      simp [bare]
    have alone : (RightsList.mk first []).text = first.text := by
      simp [RightsList.text, TokenList.joined]
    rw [alone, found, trimmed]
    constructor
    · intro same
      exact ⟨[], first, [], oneItem, same, .inl rfl, .inl rfl⟩
    · rintro ⟨earlier, right, later, split, same, -, -⟩
      rw [oneItem] at split
      cases earlier with
      | nil =>
          rw [List.nil_append, List.cons.injEq] at split
          rw [split.1]
          exact same
      | cons head front =>
          simp at split
  · -- The first and the last name are trimmed on one side each.
    rw [List.concat_eq_append] at valid ⊢
    have items :
        (RightsList.mk first (middle ++ [(separator, last)])).items =
          first :: (middle.map Prod.snd ++ [last]) := by
      simp [RightsList.items]
    have itemsValid := valid.items
    rw [items] at itemsValid
    have lastValid : last.Valid :=
      itemsValid last (by simp)
    have middleValid : ∀ right ∈ middle.map Prod.snd, right.Valid :=
      fun right member => itemsValid right (by simp only [List.mem_cons,
        List.mem_append, member, true_or, or_true])
    have separators := valid.separators
    have lastSeparates : separatesRights separator = true :=
      separators (separator, last) (by simp)
    have middleSeparates : ∀ part ∈ middle, separatesRights part.1 = true :=
      fun part member => separators part (by simp [member])
    have written :
        (RightsList.mk first (middle ++ [(separator, last)])).text =
          TokenList.joined first.text
            ((middle.map fun part => (part.1, part.2.text)) ++
              [(separator, last.text)]) := by
      simp [RightsList.text]
    have trimmed :=
      trim_joined first.text (middle.map fun part => (part.1, part.2.text))
        last.text (separator_solid lastSeparates) (by
          intro part member
          obtain ⟨source, inMiddle, rfl⟩ := List.mem_map.mp member
          exact separator_solid (middleSeparates source inMiddle))
    have pieces :
        TokenList.tokens separatesRights
            (TokenList.joined (first.text.dropWhile isBlank)
              ((middle.map fun part => (part.1, part.2.text)) ++
                [(separator, last.text.rdropWhile isBlank)])) =
          (first.text.dropWhile isBlank ::
              ((middle.map Prod.snd).map WrittenRight.text ++
                [last.text.rdropWhile isBlank])).filter
            fun piece => !piece.isEmpty := by
      rw [TokenList.tokens_joined]
      · simp [Function.comp_def]
      · exact fun c member =>
          firstValid.text_clean c ((List.dropWhile_suffix _).subset member)
      · intro part member
        rcases List.mem_append.mp member with inFront | isLast
        · obtain ⟨source, inMiddle, rfl⟩ := List.mem_map.mp inFront
          exact middleSeparates source inMiddle
        · rw [List.mem_singleton.mp isLast]
          exact lastSeparates
      · intro part member
        rcases List.mem_append.mp member with inFront | isLast
        · obtain ⟨source, inMiddle, rfl⟩ := List.mem_map.mp inFront
          exact
            (middleValid source.2 (List.mem_map_of_mem inMiddle)).text_clean
        · rw [List.mem_singleton.mp isLast]
          exact fun c inLast =>
            lastValid.text_clean c ((List.rdropWhile_prefix _ _).subset inLast)
    have nonempty : (!name.isEmpty) = true := by
      simpa using word.nonempty
    rw [written, trimmed, pieces, List.mem_filter, and_iff_left nonempty,
      List.mem_cons, List.mem_append, List.mem_singleton, eq_comm,
      eq_comm (a := name), WrittenRight.dropWhile_text_eq_iff firstValid word,
      WrittenRight.rdropWhile_text_eq_iff lastValid word]
    constructor
    · rintro (⟨same, noBehind⟩ | inMiddle | ⟨same, noBefore⟩)
      · exact ⟨[], first, _, items, same, .inl rfl, .inr noBehind⟩
      · obtain ⟨right, member, isText⟩ := List.mem_map.mp inMiddle
        obtain ⟨same, noBefore, noBehind⟩ :=
          (WrittenRight.text_eq_iff (middleValid right member) word).mp isText
        obtain ⟨front, back, split⟩ := List.append_of_mem member
        refine ⟨first :: front, right, back ++ [last], ?_, same, .inr noBefore,
          .inr noBehind⟩
        rw [items, split]
        simp
      · refine ⟨first :: middle.map Prod.snd, last, [], ?_, same, .inr noBefore,
          .inl rfl⟩
        rw [items, List.cons_append]
    · rintro ⟨earlier, right, later, split, same, atStart, atEnd⟩
      rw [items] at split
      cases earlier with
      | nil =>
          rw [List.nil_append, List.cons.injEq] at split
          obtain ⟨rfl, isLater⟩ := split
          left
          refine ⟨same, atEnd.resolve_left ?_⟩
          rintro rfl
          simp at isLater
      | cons head front =>
          rw [List.cons_append, List.cons.injEq] at split
          obtain ⟨-, split⟩ := split
          have noBefore := atStart.resolve_left (List.cons_ne_nil _ _)
          right
          rcases List.eq_nil_or_concat later with rfl | ⟨back, final, rfl⟩
          · right
            obtain ⟨-, isLast⟩ := List.append_inj' split rfl
            rw [List.singleton_inj.mp isLast]
            exact ⟨same, noBefore⟩
          · left
            have noBehind := atEnd.resolve_left (by simp)
            rw [List.concat_eq_append, ← List.cons_append, ← List.append_assoc]
              at split
            obtain ⟨isMiddle, -⟩ := List.append_inj' split rfl
            have member : right ∈ middle.map Prod.snd := by
              simp [isMiddle]
            refine List.mem_map.mpr ⟨right, member, ?_⟩
            exact
              (WrittenRight.text_eq_iff (middleValid right member) word).mpr
                ⟨same, noBefore, noBehind⟩

end RightsList

/-! ## The bits of the names -/

/-- The bits of the names that are known. -/
theorem rightsFromStrings_union
    (names : List Bytes) :
    UnionOfBits (rightsFromStrings names) names := by
  intro place
  have added :
      ∀ out : UInt32,
        (names.foldl addRight out).toNat.testBit place = true ↔
          out.toNat.testBit place = true ∨
            ∃ right ∈ kRights,
              right.2 ∈ names ∧ right.1.toNat.testBit place = true := by
    induction names with
    | nil =>
        simp
    | cons name rest inductionHypothesis =>
        intro out
        rw [List.foldl_cons, inductionHypothesis]
        unfold addRight
        cases found : kRights.find? fun r => name = r.2 with
        | none =>
            have unknown : ∀ right ∈ kRights, right.2 ≠ name := by
              intro right member same
              have absent := List.find?_eq_none.mp found right member
              simp [same] at absent
            refine or_congr_right ?_
            apply exists_congr
            intro right
            refine and_congr_right fun member => ?_
            rw [List.mem_cons, or_iff_right (unknown right member)]
        | some right =>
            have isKnown := List.mem_of_find?_eq_some found
            have named : name = right.2 := by
              simpa using List.find?_some found
            have same :
                ∀ other ∈ kRights, other.2 = name → other = right := by
              intro other member sameName
              have itself := find_right other member
              rw [sameName, found] at itself
              exact (Option.some.inj itself).symm
            dsimp only
            rw [UInt32.toNat_or, Nat.testBit_or, Bool.or_eq_true, or_assoc]
            refine or_congr_right ?_
            constructor
            · rintro (isSet | ⟨other, member, inRest, isSet⟩)
              · exact ⟨right, isKnown, by simp [named], isSet⟩
              · exact ⟨other, member, List.mem_cons_of_mem _ inRest, isSet⟩
            · rintro ⟨other, member, listed, isSet⟩
              rcases List.mem_cons.mp listed with isName | inRest
              · rw [same other member isName] at isSet
                exact .inl isSet
              · exact .inr ⟨other, member, inRest, isSet⟩
  have start := added R_None
  rw [rightsFromStrings, start]
  simp [R_None]

/-- Every right has a bit that no other right has. -/
theorem own_bit :
    ∀ right ∈ kRights, ∃ place < 32,
      ∀ other ∈ kRights,
        other.1.toNat.testBit place = true ↔ other = right := by
  decide +kernel

/-- Which known names there are decides the union of their bits. -/
theorem UnionOfBits.iff_sameNames
    {rights : UInt32}
    {found names : List Bytes}
    (union : UnionOfBits rights found) :
    UnionOfBits rights names ↔
      ∀ right ∈ kRights, right.2 ∈ found ↔ right.2 ∈ names := by
  constructor
  · intro isUnion right known
    obtain ⟨place, -, own⟩ := own_bit right known
    have only :
        ∀ listed : List Bytes,
          (∃ other ∈ kRights,
              other.2 ∈ listed ∧ other.1.toNat.testBit place = true) ↔
            right.2 ∈ listed := by
      intro listed
      constructor
      · rintro ⟨other, member, inList, isSet⟩
        rw [← (own other member).mp isSet]
        exact inList
      · intro inList
        exact ⟨right, known, inList, (own right known).mpr rfl⟩
    rw [← only found, ← only names, ← union place, ← isUnion place]
  · intro sameNames place
    rw [union place]
    apply exists_congr
    intro right
    refine and_congr_right fun known => ?_
    rw [sameNames right known]

/-! ## What `parse` stores -/

/-- An account in the map has these rights. -/
def HasRights (users : UserMap) (name : Bytes) (rights : UInt32) : Prop :=
  ∃ u, users[name]? = some u ∧ u.rights = rights

/-- The name and the field of an account make up what stands behind `user.`. -/
theorem name_field
    {rest : Bytes}
    (hasDot : dot ∈ rest) :
    rest =
      (rest.rdropWhile fun c => c != dot).dropLast ++
        dot :: rest.rtakeWhile fun c => c != dot := by
  have whole :=
    List.rdropWhile_append_rtakeWhile (p := fun c => c != dot) (l := rest)
  have someLeft : (rest.rdropWhile fun c => c != dot) ≠ [] := by
    intro nothing
    have allOther := List.rdropWhile_eq_nil_iff.mp nothing dot hasDot
    simp at allOther
  have endsWithDot :
      (rest.rdropWhile fun c => c != dot).getLast someLeft = dot := by
    have stops := List.rdropWhile_last_not (fun c => c != dot) rest someLeft
    simpa using stops
  have shape := List.dropLast_append_getLast someLeft
  rw [endsWithDot] at shape
  rw [List.append_cons, shape, whole]

/-- Only a line with the rights of an account changes them. -/
theorem HasRights.line
    {state : Reading}
    {name : Bytes}
    {rights : UInt32}
    (has : HasRights state.users name rights)
    {line : Bytes}
    (other : ∀ val, assignment? line ≠ some (rightsKey name, val)) :
    HasRights (state.line line).users name rights := by
  unfold Reading.line
  cases assigned : assignment? line with
  | none =>
      exact has
  | some parts =>
      obtain ⟨key, val⟩ := parts
      have differs : key ≠ rightsKey name := by
        rintro rfl
        exact other val assigned
      dsimp only
      by_cases isUser : ascii "user." <+: key
      · rw [assign_user state isUser]
        dsimp only
        unfold assignUser
        split
        · exact has
        · next hasDot =>
            rw [not_not] at hasDot
            obtain ⟨u, found, same⟩ := has
            have split := name_field hasDot
            obtain ⟨behind, isBehind⟩ := isUser
            have dropped : key.drop 5 = behind := by
              rw [← isBehind]
              exact List.drop_left' (by decide)
            generalize ((key.drop 5).rdropWhile fun c => c != dot).dropLast =
              account at split ⊢
            generalize (key.drop 5).rtakeWhile (fun c => c != dot) = field
              at split ⊢
            dsimp only
            by_cases sameName : account = name
            · subst sameName
              have notRights : field ≠ ascii "rights" := by
                rintro rfl
                apply differs
                rw [rightsKey, ← isBehind, ← dropped, split, List.append_assoc]
                rfl
              rw [if_neg notRights]
              refine ⟨_, Std.TreeMap.getElem?_insert_self, ?_⟩
              have kept : (ConfigText.account state.users account).rights = rights := by
                rw [ConfigText.account, Std.TreeMap.getD_eq_getD_getElem?, found]
                exact same
              split
              · exact kept
              · exact kept
            · refine ⟨u, ?_, same⟩
              rw [Std.TreeMap.getElem?_insert, if_neg (by simpa using sameName)]
              exact found
      · have unchanged : (state.assign key val).users = state.users := by
          simp [Reading.assign, isUser, apply_ite Reading.users]
        rw [unchanged]
        exact has

/-- What the last line with the rights of an account gives it. -/
theorem LastRightsLine.grants
    {text name value : Bytes}
    (line : LastRightsLine text name value) :
    Grants (ServerConfig.parse text) name
      (rightsFromStrings (splitAny (trim value) separatesRights)) := by
  obtain ⟨earlier, later, shape, others⟩ := line.shape
  let rights := rightsFromStrings (splitAny (trim value) separatesRights)
  have plain : PlainKey (rightsKey name) :=
    plainKey_user line.noEquals (by decide +kernel) (by decide +kernel)
      (by decide +kernel)
  have isUser : ascii "user." <+: rightsKey name :=
    ⟨name ++ ascii ".rights", by rw [rightsKey, List.append_assoc]⟩
  have behind : (rightsKey name).drop 5 = name ++ dot :: ascii "rights" := by
    rw [rightsKey, List.append_assoc]
    exact List.drop_left' (by decide)
  have assigned :
      ∀ state : Reading,
        HasRights
          (state.line (ServerApp.configLine (rightsKey name) value)).users name
          rights := by
    intro state
    have differs : ascii "rights" ≠ ascii "hash" := by
      decide
    rw [line_configLine state plain, assign_user state isUser, behind]
    dsimp only
    rw [assignUser_field _ _ (by decide +kernel), if_neg differs, if_pos rfl]
    exact ⟨_, Std.TreeMap.getElem?_insert_self, rfl⟩
  have kept :
      ∀ (lines : List Bytes) (state : Reading),
        (∀ line ∈ lines, ∀ val, assignment? line ≠ some (rightsKey name, val)) →
        HasRights state.users name rights →
        HasRights (lines.foldl Reading.line state).users name rights := by
    intro lines
    induction lines with
    | nil =>
        exact fun _ _ has => has
    | cons line rest inductionHypothesis =>
        intro state others has
        rw [List.forall_mem_cons] at others
        exact inductionHypothesis _ others.2 (has.line others.1)
  have sound := readingSound_text text
  have has :
      HasRights ((getlinesFrom [] text).foldl Reading.line {}).users name
        rights := by
    rw [shape, List.foldl_append, List.foldl_cons]
    exact kept later _ others (assigned _)
  rw [parse_eq]
  generalize ((getlinesFrom [] text).foldl Reading.line {}) = state at sound has
  obtain ⟨u, found, granted⟩ := has
  have inMap := Std.TreeMap.mem_toList_iff_getElem?_eq_some.mpr found
  constructor
  · exact ⟨u, List.mem_map.mpr ⟨(name, u), inMap, rfl⟩,
      (sound.accounts (name, u) inMap).1⟩
  · intro other member sameName
    obtain ⟨entry, entryInMap, rfl⟩ := List.mem_map.mp member
    obtain ⟨key, stored⟩ := entry
    have named := (sound.accounts (key, stored) entryInMap).1
    have isName : key = name :=
      named.symm.trans sameName
    have again := Std.TreeMap.mem_toList_iff_getElem?_eq_some.mp entryInMap
    rw [isName, found] at again
    rw [← Option.some.inj again]
    exact granted

/-- An account has one set of rights. -/
theorem Grants.unique
    {cfg : ServerConfig}
    {name : Bytes}
    {rights other : UInt32}
    (grants : Grants cfg name rights)
    (grantsOther : Grants cfg name other) :
    rights = other := by
  obtain ⟨u, member, named⟩ := grants.configured
  exact (grants.granted u member named).symm.trans
    (grantsOther.granted u member named)

/--
A list of rights means what it lists exactly when every known name in it is
listed at least once without a blank between it and the separators around it; a
mask that is written is read back as its defined rights.
-/
theorem rights_mean_listed
    (name : Bytes) :
    (∀ (text : Bytes) (list : RightsList),
      list.Valid →
      LastRightsLine text name list.text →
      ((∃ rights,
          Grants (ServerConfig.parse text) name rights ∧
            UnionOfBits rights (list.items.map WrittenRight.name)) ↔
        ∀ right ∈ kRights,
          right.2 ∈ list.items.map WrittenRight.name →
          list.ListsTightly right.2)) ∧
      ∀ (text : Bytes) (rights : UInt32),
        LastRightsLine text name (rightsToString rights) →
        Grants (ServerConfig.parse text) name (rights &&& definedRights) := by
  constructor
  · intro text list valid line
    have grants := line.grants
    rw [splitAny_eq_tokens] at grants
    have union :=
      rightsFromStrings_union (TokenList.tokens separatesRights (trim list.text))
    generalize rightsFromStrings
      (TokenList.tokens separatesRights (trim list.text)) = stored
      at grants union
    have isStored :
        (∃ rights,
            Grants (ServerConfig.parse text) name rights ∧
              UnionOfBits rights (list.items.map WrittenRight.name)) ↔
          UnionOfBits stored (list.items.map WrittenRight.name) := by
      constructor
      · rintro ⟨rights, grantsRights, isUnion⟩
        rw [grants.unique grantsRights]
        exact isUnion
      · intro isUnion
        exact ⟨stored, grants, isUnion⟩
    rw [isStored, union.iff_sameNames]
    refine forall₂_congr fun right known => ?_
    rw [list.mem_tokens_iff valid (word_of_known right known)]
    constructor
    · exact fun same => same.mpr
    · intro tightly
      refine ⟨?_, tightly⟩
      rintro ⟨earlier, written, later, split, named, -⟩
      exact List.mem_map.mpr ⟨written, by rw [split]; simp, named⟩
  · intro text rights line
    have grants := line.grants
    have solid := rightsToString_solid rights
    have trimmed : trim (rightsToString rights) = rightsToString rights := by
      apply TrimmedText.trim_solid_ends
      · exact fun c isFirst => solid c (List.mem_of_head? isFirst)
      · exact fun c isLast => solid c (List.mem_of_getLast? isLast)
    rw [trimmed, rightsFromStrings_masked] at grants
    exact grants

/-- Two names with a bar between them, and a blank on either side of the bar. -/
def spacedRights : RightsList where
  first := { name := ascii "Chat", behind := [32] }
  rest := [(124, { before := [32], name := ascii "FileTransfer" })]

/-- They are the rights of an account. -/
def spacedText : Bytes :=
  ServerApp.configLine (rightsKey (ascii "bob")) spacedRights.text ++ [Csv.lf]

/-- A known name with blanks around it is written as it can be. -/
theorem valid_of_known
    {right : UInt32 × Bytes}
    (known : right ∈ kRights)
    {before behind : Bytes}
    (blankBefore : ∀ c ∈ before, isBlank c = true)
    (blankBehind : ∀ c ∈ behind, isBlank c = true) :
    WrittenRight.Valid ⟨before, right.2, behind⟩ where
  before := blankBefore
  behind := blankBehind
  first := fun c isFirst =>
    ((names_clean right known).2 c (List.mem_of_head? isFirst)).2
  last := fun c isLast =>
    ((names_clean right known).2 c (List.mem_of_getLast? isLast)).2
  noSeparator := fun c member => ((names_clean right known).2 c member).1

theorem spacedRights_valid : spacedRights.Valid := by
  have noBlank : ∀ c ∈ ([] : Bytes), isBlank c = true := by
    simp
  have oneBlank : ∀ c ∈ ([32] : Bytes), isBlank c = true := by
    simp [isBlank]
  constructor
  · intro right member
    simp only [RightsList.items, spacedRights, List.map_cons, List.map_nil,
      List.mem_cons, List.not_mem_nil, or_false] at member
    rcases member with rfl | rfl
    · have known : (R_Chat, ascii "Chat") ∈ kRights := by
        decide +kernel
      exact valid_of_known known noBlank oneBlank
    · have known : (R_FileTransfer, ascii "FileTransfer") ∈ kRights := by
        decide +kernel
      exact valid_of_known known oneBlank noBlank
  · intro part member
    simp only [spacedRights, List.mem_cons, List.not_mem_nil, or_false] at member
    rw [member]
    rfl

theorem spacedText_line :
    LastRightsLine spacedText (ascii "bob") spacedRights.text where
  noEquals := by decide +kernel
  shape := by
    refine ⟨[], [], ?_, by simp⟩
    exact getlinesFrom_line (by decide +kernel) []

/-- What is written and what is listed are compared. -/
theorem rights_mean_listed_spaced :
    (spacedRights.Valid ∧
        LastRightsLine spacedText (ascii "bob") spacedRights.text) ∧
      ((∃ rights,
          Grants (ServerConfig.parse spacedText) (ascii "bob") rights ∧
            UnionOfBits rights (spacedRights.items.map WrittenRight.name)) ↔
        ∀ right ∈ kRights,
          right.2 ∈ spacedRights.items.map WrittenRight.name →
          spacedRights.ListsTightly right.2) :=
  ⟨⟨spacedRights_valid, spacedText_line⟩,
    (rights_mean_listed (ascii "bob")).1 spacedText spacedRights
      spacedRights_valid spacedText_line⟩

/-- With blanks around the bar neither right is granted. -/
theorem spaced_rights_dropped :
    spacedRights.Valid ∧
      LastRightsLine spacedText (ascii "bob") spacedRights.text ∧
      ¬∃ rights,
        Grants (ServerConfig.parse spacedText) (ascii "bob") rights ∧
          UnionOfBits rights (spacedRights.items.map WrittenRight.name) := by
  refine ⟨spacedRights_valid, spacedText_line, ?_⟩
  rintro ⟨rights, grants, union⟩
  have users :
      (ServerConfig.parse spacedText).users =
        [{ username := ascii "bob", argon2Hash := [], rights := 0 }] := by
    decide +kernel
  have noRights : 0 = rights := by
    refine grants.granted { username := ascii "bob", argon2Hash := [] } ?_ rfl
    rw [users]
    exact List.mem_singleton_self _
  subst noRights
  have chat := (union 4).mpr
    ⟨(R_Chat, ascii "Chat"), by decide +kernel, by decide +kernel, by decide⟩
  simp at chat

end RadminPro
