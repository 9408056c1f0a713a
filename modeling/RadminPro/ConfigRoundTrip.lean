import RadminPro.ServerConfig
import RadminPro.AuditChain
import RadminPro.TokenList
import Mathlib.Data.Nat.Bitwise

namespace RadminPro

open ByteCodec
open ConfigText

/-!
# Saving a configuration

What the dialogs produce is written as text and read back at the next start.
The scalar fields come back trimmed, and numbers above the range of `int` come
back as its largest value.  Accounts come back by name, as long as no name holds
an equals sign.
-/

/-! ## Numbers -/

/-- The digits of a number write it. -/
theorem decimalValue_decimal
    (value : Nat) :
    SubnetFilter.decimalValue (decimal value) = value := by
  have digits : (toString value).toList = Nat.toDigits 10 value := by
    simp
  have allDigits : ∀ c ∈ Nat.toDigits 10 value, c.isDigit :=
    fun c member => Nat.isDigit_of_mem_toDigits (by decide) (by decide) member
  have folded :
      ∀ (text : List Char) (start : Nat),
        (∀ c ∈ text, c.isDigit) →
        (text.map fun c => UInt8.ofNat c.toNat).foldl
            (fun value digit => value * 10 + (digit.toNat - 48)) start =
          Nat.ofDigitChars 10 text start := by
    intro text
    induction text with
    | nil =>
        simp
    | cons c rest inductionHypothesis =>
        intro start allDigits
        have bounds := Char.isDigit_iff_toNat.mp (allDigits c (by simp))
        have nine : '9'.toNat = 57 := rfl
        have small : (UInt8.ofNat c.toNat).toNat = c.toNat :=
          UInt8.toNat_ofNat_of_lt' (by show c.toNat < 256; omega)
        rw [List.map_cons, List.foldl_cons, Nat.ofDigitChars_cons,
          inductionHypothesis _ fun later member =>
            allDigits later (by simp [member])]
        rw [small, Nat.mul_comm start 10]
        rfl
  rw [SubnetFilter.decimalValue, decimal, ascii, digits, folded _ _ allDigits]
  exact Nat.ofDigitChars_toDigits (by decide) (by decide)

/-- The digits of a number are digits. -/
theorem isdigit_decimal
    {value : Nat}
    {byte : UInt8}
    (member : byte ∈ decimal value) :
    SubnetFilter.isdigit byte = true := by
  have bounds := decimal_mem member
  simp only [SubnetFilter.isdigit, Bool.and_eq_true, decide_eq_true_eq,
    UInt8.le_iff_toNat_le]
  exact bounds

theorem decimal_ne_nil
    (value : Nat) :
    decimal value ≠ [] := by
  simp [decimal, ascii, Nat.toDigits_ne_nil]

/-- `atoi` reads a number back, up to the largest `int`. -/
theorem atoi_decimal
    (value : Nat) :
    atoi (decimal value) = min (value : Int) (2 ^ 31 - 1) := by
  obtain ⟨first, rest, shape⟩ :=
    List.exists_cons_of_ne_nil (decimal_ne_nil value)
  have isDigit : ∀ byte ∈ first :: rest, 48 ≤ byte.toNat ∧ byte.toNat ≤ 57 := by
    rw [← shape]
    exact fun byte member => decimal_mem member
  have firstDigit := isDigit first (by simp)
  have notSpace : SubnetFilter.isspace first = false := by
    have notBlank : first ≠ 32 := by
      rintro rfl
      simp at firstDigit
    have notControl : ¬first ≤ 13 := by
      rw [UInt8.le_iff_toNat_le]
      simp
      omega
    simp [SubnetFilter.isspace, notBlank, notControl]
  have notMinus : first ≠ 45 := by
    rintro rfl
    simp at firstDigit
  have notPlus : first ≠ 43 := by
    rintro rfl
    simp at firstDigit
  have allTaken :
      (first :: rest).takeWhile SubnetFilter.isdigit = first :: rest := by
    rw [List.takeWhile_eq_self_iff, ← shape]
    exact fun byte member => isdigit_decimal member
  rw [atoi, shape, List.dropWhile_cons_of_neg (by simp [notSpace])]
  simp only [notMinus, notPlus, ↓reduceIte, allTaken]
  rw [← shape, decimalValue_decimal]

/-- A number has no blanks at its ends. -/
theorem trim_decimal
    (value : Nat) :
    trim (decimal value) = decimal value := by
  have solid : ∀ byte ∈ decimal value, isBlank byte = false := by
    intro byte member
    have bounds := decimal_mem member
    have differs : ∀ other : UInt8, other.toNat < 48 → byte ≠ other := by
      rintro other small rfl
      omega
    simp [isBlank, differs 32 (by decide), differs 9 (by decide),
      differs 13 (by decide), differs 10 (by decide)]
  apply TrimmedText.trim_solid_ends
  · exact fun byte isFirst => solid byte (List.mem_of_head? isFirst)
  · exact fun byte isLast => solid byte (List.mem_of_getLast? isLast)

/-! ## Lines -/

/-- A key that a line can start with: solid ends, no comment, no equals sign. -/
structure PlainKey (key : Bytes) : Prop where
  nonempty : key ≠ []
  first : ∀ c ∈ key.head?, isBlank c = false ∧ startsComment c = false
  last : ∀ c ∈ key.getLast?, isBlank c = false
  noEquals : equalsSign ∉ key

instance (key : Bytes) : Decidable (PlainKey key) :=
  decidable_of_iff
    (key ≠ [] ∧
      key.head?.all (fun c => !isBlank c && !startsComment c) = true ∧
      key.getLast?.all (fun c => !isBlank c) = true ∧ equalsSign ∉ key)
    ⟨fun h =>
      { nonempty := h.1
        first := by simpa [Option.all_eq_true] using h.2.1
        last := by simpa [Option.all_eq_true] using h.2.2.1
        noEquals := h.2.2.2 },
      fun h =>
        ⟨h.nonempty, by simpa [Option.all_eq_true] using h.first,
          by simpa [Option.all_eq_true] using h.last, h.noEquals⟩⟩

/-- Only the end of a line with a solid start is trimmed. -/
theorem trim_configLine
    {first : UInt8}
    (solid : isBlank first = false)
    (rest value : Bytes) :
    trim (ServerApp.configLine (first :: rest) value) =
      ServerApp.configLine (first :: rest) (value.rdropWhile isBlank) := by
  rw [ServerApp.configLine, List.cons_append, trim,
    TrimmedText.trim_cons_solid solid]
  exact TrimmedText.rdropWhile_append_solid (by decide) (first :: rest) value

/-- A line is read up to its first equals sign. -/
theorem takeWhile_configLine
    {key : Bytes}
    (noEquals : equalsSign ∉ key)
    (value : Bytes) :
    (ServerApp.configLine key value).takeWhile (fun c => c != equalsSign) = key ∧
      (ServerApp.configLine key value).dropWhile (fun c => c != equalsSign) =
        equalsSign :: value := by
  have keyTaken : ∀ c ∈ key, (c != equalsSign) = true := by
    intro c member
    have differs : c ≠ equalsSign := by
      rintro rfl
      exact noEquals member
    simpa using differs
  rw [ServerApp.configLine]
  constructor
  · rw [List.takeWhile_append_of_pos keyTaken]
    simp
  · rw [List.dropWhile_append_of_pos keyTaken]
    simp

/-- A line with a plain key assigns the trimmed value to it. -/
theorem assignment_configLine
    {key : Bytes}
    (plain : PlainKey key)
    (value : Bytes) :
    assignment? (ServerApp.configLine key value) = some (key, trim value) := by
  obtain ⟨first, rest, rfl⟩ := List.exists_cons_of_ne_nil plain.nonempty
  obtain ⟨solid, noComment⟩ := plain.first first rfl
  have keyTrimmed : trim (first :: rest) = first :: rest := by
    apply TrimmedText.trim_solid_ends
    · exact fun c isFirst => (plain.first c isFirst).1
    · exact plain.last
  have hasEquals :
      ∀ value, (ServerApp.configLine (first :: rest) value).contains equalsSign := by
    simp [ServerApp.configLine]
  obtain ⟨taken, dropped⟩ :=
    takeWhile_configLine plain.noEquals (value.rdropWhile isBlank)
  have contained := hasEquals (value.rdropWhile isBlank)
  rw [assignment?, trim_configLine solid]
  rw [ServerApp.configLine, List.cons_append] at taken dropped contained ⊢
  simp only [noComment, contained, Bool.not_true, Bool.or_self, taken, dropped,
    keyTrimmed, List.drop_one, List.tail_cons]
  exact congrArg (fun val => some (first :: rest, val))
    (TrimmedText.trim_rdropWhile value)

/-- A line that starts with `user.` assigns to a key that does, or to none. -/
theorem assignment_user
    {text key value : Bytes}
    (assigned : assignment? (ascii "user." ++ text) = some (key, value)) :
    ascii "user." <+: key := by
  have start : ascii "user." = ascii "user" ++ [dot] := by
    decide
  have kept :
      ∀ rest : Bytes,
        trim (ascii "user." ++ rest) =
          ascii "user." ++ rest.rdropWhile isBlank := by
    intro rest
    have solidStart : isBlank 117 = false := by
      decide
    have shape : ascii "user" = 117 :: ascii "ser" := by
      decide
    rw [start, List.append_assoc, shape, List.cons_append, trim,
      TrimmedText.trim_cons_solid solidStart]
    exact TrimmedText.rdropWhile_append_solid (by decide) (117 :: ascii "ser") rest
  have noEquals : ∀ c ∈ ascii "user.", (c != equalsSign) = true := by
    decide +kernel
  have shape : ascii "user." = 117 :: ascii "ser." := by
    decide
  rw [assignment?, kept] at assigned
  generalize text.rdropWhile isBlank = rest at assigned
  rw [shape, List.cons_append] at assigned
  simp only at assigned
  rw [← List.cons_append, ← shape] at assigned
  split at assigned
  · cases assigned
  · obtain ⟨rfl, -⟩ := Prod.mk.inj (Option.some.inj assigned)
    rw [List.takeWhile_append_of_pos noEquals, kept]
    exact List.prefix_append _ _

/-- Lines without line feeds are read back one by one. -/
theorem getlinesFrom_lines
    {lines : List Bytes}
    (oneLine : ∀ line ∈ lines, Csv.lf ∉ line) :
    getlinesFrom [] (lines.flatMap fun line => line ++ [Csv.lf]) = lines := by
  have oneRead :
      ∀ (line current rest : Bytes),
        Csv.lf ∉ line →
        getlinesFrom current (line ++ Csv.lf :: rest) =
          (current ++ line) :: getlinesFrom [] rest := by
    intro line
    induction line with
    | nil =>
        simp [getlinesFrom]
    | cons c tail inductionHypothesis =>
        intro current rest noLf
        simp only [List.mem_cons, not_or] at noLf
        rw [List.cons_append, getlinesFrom, if_neg (Ne.symm noLf.1),
          inductionHypothesis _ _ noLf.2]
        simp
  induction lines with
  | nil =>
      rfl
  | cons line rest inductionHypothesis =>
      have restRead :=
        inductionHypothesis fun later member => oneLine later (by simp [member])
      rw [List.flatMap_cons, List.append_assoc, List.singleton_append,
        oneRead line [] _ (oneLine line (by simp)), restRead]
      rfl

/-! ## Rights -/

/-- Splitting yields the tokens between separators. -/
theorem splitAny_eq_tokens
    (seps : UInt8 → Bool)
    (s : Bytes) :
    splitAny s seps = TokenList.tokens seps s := by
  have scanned :
      ∀ (rest : Bytes) (scan : SplitScan),
        (∀ c ∈ scan.cur, seps c = false) →
        (let ended := rest.foldl (SplitScan.feed seps) scan
          if ended.cur.isEmpty then ended.out else ended.out ++ [ended.cur]) =
          scan.out ++ TokenList.tokens seps (scan.cur ++ rest) := by
    intro rest
    induction rest with
    | nil =>
        intro scan clean
        have noneLeft := TokenList.tokens_of_clean clean
        cases nothing : scan.cur.isEmpty with
        | true =>
            simp [noneLeft, nothing]
        | false =>
            simp [noneLeft, nothing]
    | cons c rest inductionHypothesis =>
        intro scan clean
        cases isSeparator : seps c with
        | true =>
            have split :=
              TokenList.tokens_append_separator scan.cur rest isSeparator
            rw [TokenList.tokens_of_clean clean] at split
            rw [List.foldl_cons, split]
            cases nothing : scan.cur.isEmpty with
            | true =>
                have empty : scan.cur = [] := by
                  simpa using nothing
                have kept := inductionHypothesis scan clean
                simpa [SplitScan.feed, isSeparator, empty] using kept
            | false =>
                have pushed :=
                  inductionHypothesis { out := scan.out ++ [scan.cur] } (by simp)
                simpa [SplitScan.feed, isSeparator, nothing] using pushed
        | false =>
            have extended :=
              inductionHypothesis { scan with cur := scan.cur ++ [c] } (by
                intro other member
                rcases List.mem_append.mp member with inCur | isLast
                · exact clean other inCur
                · rw [List.mem_singleton.mp isLast]
                  exact isSeparator)
            simpa [SplitScan.feed, isSeparator] using extended
  simpa [splitAny] using scanned s {} (by simp)

/-- All rights that have a name. -/
def definedRights : UInt32 :=
  kRights.foldl (fun all right => all ||| right.1) 0

/-- The named rights of a mask. -/
def selectedRights (rights : UInt32) : List (UInt32 × Bytes) :=
  kRights.filter fun right => rights &&& right.1 != 0

/-- Every name is found under its own bit. -/
theorem find_right :
    ∀ right ∈ kRights,
      (kRights.find? fun other => right.2 = other.2) = some right := by
  decide +kernel

/-- The names of rights are words. -/
theorem names_clean :
    ∀ right ∈ kRights,
      right.2 ≠ [] ∧
        ∀ c ∈ right.2, separatesRights c = false ∧ isBlank c = false := by
  decide +kernel

/-- One name of a mask, behind those before it. -/
def joinName (rights : UInt32) (text : Bytes) (right : UInt32 × Bytes) : Bytes :=
  if rights &&& right.1 ≠ 0 then
    (if text.isEmpty then text else text ++ ascii "|") ++ right.2
  else
    text

/-- A mask is written as the names of its rights, or as `None`. -/
theorem rightsToString_eq
    (rights : UInt32) :
    rightsToString rights =
      if rights = R_None ∨ kRights.foldl (joinName rights) [] = [] then
        ascii "None"
      else
        kRights.foldl (joinName rights) [] := by
  have joined :
      rightsToString rights =
        if rights = R_None then
          ascii "None"
        else if (kRights.foldl (joinName rights) []).isEmpty then
          ascii "None"
        else
          kRights.foldl (joinName rights) [] :=
    rfl
  rw [joined]
  by_cases none : rights = R_None
  · simp [none]
  · simp [none]

/-- A name that is added is one more token. -/
theorem tokens_joinName
    (rights : UInt32)
    {right : UInt32 × Bytes}
    (known : right ∈ kRights)
    (text : Bytes) :
    TokenList.tokens separatesRights (joinName rights text right) =
      TokenList.tokens separatesRights text ++
        if rights &&& right.1 != 0 then [right.2] else [] := by
  obtain ⟨nonempty, clean⟩ := names_clean right known
  have nameToken : TokenList.tokens separatesRights right.2 = [right.2] := by
    rw [TokenList.tokens_of_clean fun c member => (clean c member).1,
      if_neg (by simpa using nonempty)]
  by_cases granted : rights &&& right.1 = 0
  · simp [joinName, granted]
  · cases text with
    | nil =>
        have noToken : TokenList.tokens separatesRights [] = [] :=
          rfl
        simp [joinName, granted, nameToken, noToken]
    | cons head tail =>
        have bar : separatesRights 124 = true := by
          decide
        have split :=
          TokenList.tokens_append_separator (head :: tail) right.2 bar
        rw [nameToken] at split
        simpa [joinName, granted, ascii] using split

/-- A name that is added has no blanks. -/
theorem joinName_solid
    (rights : UInt32)
    {right : UInt32 × Bytes}
    (known : right ∈ kRights)
    {text : Bytes}
    (solid : ∀ c ∈ text, isBlank c = false) :
    ∀ c ∈ joinName rights text right, isBlank c = false := by
  intro c member
  unfold joinName at member
  split at member
  · rcases List.mem_append.mp member with inText | inName
    · split at inText
      · exact solid c inText
      · rcases List.mem_append.mp inText with before | isBar
        · exact solid c before
        · rw [List.mem_singleton.mp isBar]
          decide
    · exact ((names_clean right known).2 c inName).2
  · exact solid c member

/-- The names of a mask are split again. -/
theorem tokens_joined
    (rights : UInt32)
    {names : List (UInt32 × Bytes)}
    (known : ∀ right ∈ names, right ∈ kRights)
    (text : Bytes) :
    TokenList.tokens separatesRights (names.foldl (joinName rights) text) =
      TokenList.tokens separatesRights text ++
        (names.filter fun right => rights &&& right.1 != 0).map Prod.snd := by
  induction names generalizing text with
  | nil =>
      simp
  | cons right rest inductionHypothesis =>
      rw [List.foldl_cons,
        inductionHypothesis fun other member => known other (by simp [member]),
        tokens_joinName rights (known right (by simp))]
      by_cases granted : rights &&& right.1 = 0
      · simp [granted]
      · simp [granted]

/-- The names of a mask have no blanks. -/
theorem joined_solid
    (rights : UInt32)
    {names : List (UInt32 × Bytes)}
    (known : ∀ right ∈ names, right ∈ kRights)
    {text : Bytes}
    (solid : ∀ c ∈ text, isBlank c = false) :
    ∀ c ∈ names.foldl (joinName rights) text, isBlank c = false := by
  induction names generalizing text with
  | nil =>
      simpa using solid
  | cons right rest inductionHypothesis =>
      exact inductionHypothesis
        (fun other member => known other (by simp [member]))
        (joinName_solid rights (known right (by simp)) solid)

/-- An account of the dialogs: something in both fields, and defined rights. -/
structure ProducedUser (u : UserRecord) : Prop where
  named : u.username ≠ []
  hashed : u.argon2Hash ≠ []
  oneLineName : Csv.lf ∉ u.username
  oneLineHash : Csv.lf ∉ u.argon2Hash
  isDefined : u.rights &&& definedRights = u.rights

/-- A written mask has no blanks. -/
theorem rightsToString_solid
    (rights : UInt32) :
    ∀ c ∈ rightsToString rights, isBlank c = false := by
  rw [rightsToString_eq]
  split
  · decide +kernel
  · exact joined_solid rights (fun _ member => member) (by simp)

/-- A single bit is in a mask or not. -/
theorem and_bit
    (rights : UInt32) :
    ∀ right ∈ kRights,
      rights &&& right.1 ≠ 0 → rights &&& right.1 = right.1 := by
  have oneBit :
      ∀ right ∈ kRights, ∃ place < 32, right.1 = UInt32.ofNat (2 ^ place) := by
    decide +kernel
  intro right member granted
  obtain ⟨place, small, bit⟩ := oneBit right member
  have inRange : 2 ^ place < UInt32.size :=
    Nat.pow_lt_pow_right (by decide) small
  have bitNat : right.1.toNat = 2 ^ place := by
    rw [bit, UInt32.toNat_ofNat_of_lt' inRange]
  have masked :
      (rights &&& right.1).toNat = (rights.toNat.testBit place).toNat * 2 ^ place := by
    rw [UInt32.toNat_and, bitNat, Nat.and_two_pow]
  apply UInt32.toNat_inj.mp
  cases isSet : rights.toNat.testBit place with
  | true =>
      simpa [isSet, bitNat] using masked
  | false =>
      refine absurd (UInt32.toNat_inj.mp ?_) granted
      simpa [isSet] using masked

/-- The bits of the named rights make up the mask. -/
theorem foldl_selected
    (rights : UInt32)
    {names : List (UInt32 × Bytes)}
    (known : ∀ right ∈ names, right ∈ kRights)
    (out all : UInt32)
    (covered : out = rights &&& all) :
    (names.filter fun right => rights &&& right.1 != 0).foldl
        (fun out right => out ||| right.1) out =
      rights &&& names.foldl (fun all right => all ||| right.1) all := by
  induction names generalizing out all with
  | nil =>
      simpa using covered
  | cons right rest inductionHypothesis =>
      have restKnown : ∀ other ∈ rest, other ∈ kRights :=
        fun other member => known other (by simp [member])
      have distributed :
          rights &&& (all ||| right.1) = out ||| (rights &&& right.1) := by
        rw [covered]
        apply UInt32.toNat_inj.mp
        simp only [UInt32.toNat_and, UInt32.toNat_or]
        exact Nat.and_or_distrib_left _ _ _
      by_cases granted : rights &&& right.1 = 0
      · have extended : out = rights &&& (all ||| right.1) := by
          rw [distributed, granted, UInt32.or_zero]
        simpa [granted] using
          inductionHypothesis restKnown out (all ||| right.1) extended
      · have extended : out ||| right.1 = rights &&& (all ||| right.1) := by
          rw [distributed, and_bit rights right (known right (by simp)) granted]
        simpa [granted] using
          inductionHypothesis restKnown (out ||| right.1) (all ||| right.1)
            extended

/-- The names of a mask are read back as its defined rights. -/
theorem rightsFromStrings_masked
    (rights : UInt32) :
    rightsFromStrings (splitAny (rightsToString rights) separatesRights) =
      rights &&& definedRights := by
  have bits :
      ∀ (names : List (UInt32 × Bytes)) (out : UInt32),
        (∀ right ∈ names, right ∈ kRights) →
        (names.map Prod.snd).foldl addRight out =
          names.foldl (fun out right => out ||| right.1) out := by
    intro names
    induction names with
    | nil =>
        simp
    | cons right rest inductionHypothesis =>
        intro out known
        rw [List.map_cons, List.foldl_cons, List.foldl_cons, addRight,
          find_right right (known right (by simp))]
        exact inductionHypothesis _ fun other member =>
          known other (by simp [member])
  have selectedKnown :
      ∀ right ∈ selectedRights rights, right ∈ kRights :=
    fun right member => List.mem_of_mem_filter member
  have covered :
      (selectedRights rights).foldl (fun out right => out ||| right.1) R_None =
        rights &&& definedRights := by
    have folded :=
      foldl_selected rights (fun _ member => member) R_None 0 (by simp [R_None])
    rw [selectedRights, folded, ← definedRights]
  have joined :
      TokenList.tokens separatesRights (kRights.foldl (joinName rights) []) =
        (selectedRights rights).map Prod.snd :=
    tokens_joined rights (fun _ member => member) []
  have noRight : rightsFromStrings [ascii "None"] = R_None := by
    decide +kernel
  have noneToken :
      TokenList.tokens separatesRights (ascii "None") = [ascii "None"] := by
    rw [TokenList.tokens_of_clean (by decide +kernel), if_neg (by decide +kernel)]
  rw [splitAny_eq_tokens, rightsToString_eq]
  split
  · next none =>
      rw [noneToken, noRight]
      rcases none with isNone | noName
      · rw [isNone, R_None, UInt32.zero_and]
      · have noSelected : selectedRights rights = [] := by
          rw [noName] at joined
          exact List.map_eq_nil_iff.mp joined.symm
        simpa [noSelected] using covered
  · rw [joined, rightsFromStrings, bits _ _ selectedKnown, covered]

/-- The names of defined rights are read back as the same rights. -/
theorem rightsFromStrings_rightsToString
    {rights : UInt32}
    (isDefined : rights &&& definedRights = rights) :
    rightsFromStrings (splitAny (rightsToString rights) separatesRights) =
      rights :=
  (rightsFromStrings_masked rights).trans isDefined

/-! ## Assignments -/

/-- The keys of the scalar fields. -/
def scalarKeys : List Bytes :=
  [ascii "port", ascii "bind", ascii "monitor", ascii "allow_subnets",
    ascii "tls_cert", ascii "tls_key", ascii "client_ca", ascii "audit_csv",
    ascii "file_root", ascii "max_sessions"]

/-- A key of an account changes the accounts only. -/
theorem assign_user
    (state : Reading)
    {key : Bytes}
    (isUser : ascii "user." <+: key)
    (val : Bytes) :
    state.assign key val =
      { state with users := assignUser state.users (key.drop 5) val } := by
  have noScalar : ∀ other ∈ scalarKeys, ¬ascii "user." <+: other := by
    decide
  have differs : ∀ other ∈ scalarKeys, key ≠ other := by
    rintro other member rfl
    exact noScalar key member isUser
  simp only [scalarKeys, List.forall_mem_cons] at differs
  simp [Reading.assign, differs, isUser]

/-- A scalar key sets its field. -/
theorem assign_scalar
    (state : Reading)
    (val : Bytes) :
    state.assign (ascii "bind") val = { state with c.bindAddr := val } ∧
      state.assign (ascii "port") val =
        { state with c.port := UInt16.ofInt (atoi val) } ∧
      state.assign (ascii "monitor") val =
        { state with c.monitor := toUInt32 val } ∧
      state.assign (ascii "allow_subnets") val =
        { state with c.allowSubnets := val } ∧
      state.assign (ascii "tls_cert") val = { state with c.tlsCert := val } ∧
      state.assign (ascii "tls_key") val = { state with c.tlsKey := val } ∧
      state.assign (ascii "client_ca") val = { state with c.clientCa := val } ∧
      state.assign (ascii "audit_csv") val = { state with c.auditCsv := val } ∧
      state.assign (ascii "file_root") val = { state with c.fileRoot := val } ∧
      state.assign (ascii "max_sessions") val =
        { state with c.maxSessions := toUInt32 val } := by
  refine ⟨?_, ?_, ?_, ?_, ?_, ?_, ?_, ?_, ?_, ?_⟩ <;>
    simp (disch := decide +kernel) only [Reading.assign, if_neg, ↓reduceIte]

/-- A line with a plain key assigns to it. -/
theorem line_configLine
    (state : Reading)
    {key : Bytes}
    (plain : PlainKey key)
    (value : Bytes) :
    state.line (ServerApp.configLine key value) =
      state.assign key (trim value) := by
  rw [Reading.line, assignment_configLine plain]

/-- A line of an account leaves the scalar fields alone. -/
theorem line_user
    (state : Reading)
    (text : Bytes) :
    (state.line (ascii "user." ++ text)).c = state.c := by
  unfold Reading.line
  split
  · rfl
  · next key val assigned =>
      rw [assign_user state (assignment_user assigned)]

/-- The lines of accounts leave the scalar fields alone. -/
theorem lines_userLines
    (state : Reading)
    (users : List UserRecord) :
    ((users.flatMap ServerApp.userLines).foldl Reading.line state).c =
      state.c := by
  have isUserLine :
      ∀ line ∈ users.flatMap ServerApp.userLines,
        ∃ text, line = ascii "user." ++ text := by
    intro line member
    obtain ⟨u, -, inLines⟩ := List.mem_flatMap.mp member
    unfold ServerApp.userLines at inLines
    split at inLines
    · cases inLines
    · simp only [List.mem_cons, List.not_mem_nil, or_false] at inLines
      rcases inLines with rfl | rfl
      · exact ⟨_, by rw [ServerApp.configLine, List.append_assoc,
          List.append_assoc]⟩
      · exact ⟨_, by rw [ServerApp.configLine, List.append_assoc,
          List.append_assoc]⟩
  generalize users.flatMap ServerApp.userLines = lines at isUserLine
  induction lines generalizing state with
  | nil =>
      rfl
  | cons line rest inductionHypothesis =>
      obtain ⟨text, rfl⟩ := isUserLine line (by simp)
      rw [List.foldl_cons,
        inductionHypothesis _ fun other member => isUserLine other (by simp [member]),
        line_user]

/-! ## The scalar fields -/

/-- A number as it comes back. -/
def capped (value : UInt32) : UInt32 :=
  UInt32.ofInt (min (value.toNat : Int) (2 ^ 31 - 1))

/-- The scalar fields as they come back. -/
def normalized (cfg : ServerConfig) : ServerConfig where
  bindAddr := trim cfg.bindAddr
  port := cfg.port
  monitor := capped cfg.monitor
  allowSubnets := trim cfg.allowSubnets
  tlsCert := trim cfg.tlsCert
  tlsKey := trim cfg.tlsKey
  clientCa := trim cfg.clientCa
  auditCsv := trim cfg.auditCsv
  fileRoot := trim cfg.fileRoot
  maxSessions := capped cfg.maxSessions
  users := []

/-- A port is read back. -/
theorem port_decimal
    (port : UInt16) :
    UInt16.ofInt (atoi (decimal port.toNat)) = port := by
  have bound := port.toNat_lt
  have small : (port.toNat : Int) ≤ 2 ^ 31 - 1 := by
    omega
  have reduced : ((port.toNat : Int) % 2 ^ 16).toNat = port.toNat := by
    omega
  rw [atoi_decimal, min_eq_left small, UInt16.ofInt, reduced,
    UInt16.ofNat_toNat]

/-- A number of 32 bits is read back capped. -/
theorem toUInt32_decimal
    (value : UInt32) :
    toUInt32 (decimal value.toNat) = capped value := by
  rw [toUInt32, atoi_decimal, capped]

/-- A number comes back exactly when it fits into an `int`. -/
theorem capped_eq_iff
    (value : UInt32) :
    capped value = value ↔ value.toNat ≤ 2 ^ 31 - 1 := by
  have bound := value.toNat_lt
  by_cases small : value.toNat ≤ 2 ^ 31 - 1
  · have fits : (value.toNat : Int) ≤ 2 ^ 31 - 1 := by
      omega
    have reduced : ((value.toNat : Int) % 2 ^ 32).toNat = value.toNat := by
      omega
    simp only [small, iff_true]
    rw [capped, min_eq_left fits, UInt32.ofInt, reduced, UInt32.ofNat_toNat]
  · have exceeds : (2 ^ 31 - 1 : Int) ≤ value.toNat := by
      omega
    simp only [small, iff_false]
    intro same
    rw [capped, min_eq_right exceeds] at same
    rw [← same] at small
    exact small (by decide)

/-- What reading the scalar lines of a configuration leads to. -/
theorem lines_scalars
    (cfg : ServerConfig) :
    (ServerApp.configLines cfg).foldl Reading.line {} =
      (cfg.users.flatMap ServerApp.userLines).foldl Reading.line
        { c := normalized cfg } := by
  have known := assign_scalar
  simp only [forall_and] at known
  rw [ServerApp.configLines, List.foldl_append]
  congr 1
  by_cases absent : cfg.clientCa = []
  · simp (disch := decide +kernel) only [absent, List.isEmpty_nil, ↓reduceIte,
      List.append_nil, List.cons_append, List.nil_append, List.foldl_cons,
      List.foldl_nil, line_configLine, known, trim_decimal, toUInt32_decimal,
      port_decimal, normalized, TrimmedText.trim_nil]
  · have present : cfg.clientCa.isEmpty = false := by
      simpa using absent
    simp (disch := decide +kernel) only [present, Bool.false_eq_true, ↓reduceIte,
      List.cons_append, List.nil_append, List.foldl_cons, List.foldl_nil,
      line_configLine, known, trim_decimal, toUInt32_decimal, port_decimal,
      normalized]

/-! ## Accounts that come back -/

/-- An account that its two lines can hold. -/
structure StorableUser (u : UserRecord) : Prop where
  noEquals : equalsSign ∉ u.username
  trimmed : trim u.argon2Hash = u.argon2Hash

/-- The key of a field of an account is plain without equals signs in the name. -/
theorem plainKey_user
    {name field : Bytes}
    (noEquals : equalsSign ∉ name)
    (fieldEnds : ∀ c ∈ field.getLast?, isBlank c = false)
    (fieldNoEquals : equalsSign ∉ field)
    (someField : field ≠ []) :
    PlainKey (ascii "user." ++ name ++ field) where
  nonempty := by
    simp [someField]
  first := by
    have first : (ascii "user.").head? = some 117 := by
      decide
    intro c isFirst
    rw [List.append_assoc, List.head?_append, first] at isFirst
    obtain rfl := Option.some.inj isFirst
    decide
  last := by
    intro c isLast
    rw [List.getLast?_append, List.getLast?_eq_getLast_of_ne_nil someField]
      at isLast
    apply fieldEnds
    rw [List.getLast?_eq_getLast_of_ne_nil someField]
    exact isLast
  noEquals := by
    have start : equalsSign ∉ ascii "user." := by
      decide
    simp [start, noEquals, fieldNoEquals]

/-- The name and the field of an account are split at the last dot. -/
theorem assignUser_field
    (users : UserMap)
    (name : Bytes)
    {field : Bytes}
    (noDot : dot ∉ field)
    (val : Bytes) :
    assignUser users (name ++ dot :: field) val =
      users.insert name
        (if field = ascii "hash" then
          { account users name with username := name, argon2Hash := val }
        else if field = ascii "rights" then
          { account users name with
            username := name
            rights := rightsFromStrings (splitAny val separatesRights) }
        else
          { account users name with username := name }) := by
  have kept :
      (name ++ dot :: field).rdropWhile (fun c => c != dot) = name ++ [dot] := by
    have allDropped : field.rdropWhile (fun c => c != dot) = [] := by
      apply List.rdropWhile_eq_nil_iff.mpr
      intro c member
      have differs : c ≠ dot := by
        rintro rfl
        exact noDot member
      simpa using differs
    rw [TrimmedText.rdropWhile_append_solid (by simp), allDropped]
  have taken :
      (name ++ dot :: field).rtakeWhile (fun c => c != dot) = field := by
    have whole :=
      List.rdropWhile_append_rtakeWhile (p := fun c => c != dot)
        (l := name ++ dot :: field)
    rw [kept, List.append_assoc] at whole
    simpa using whole
  have hasDot : dot ∈ name ++ dot :: field := by
    simp
  simp only [assignUser, hasDot, not_true_eq_false, ↓reduceIte, kept, taken,
    List.dropLast_concat]

/-- The two lines of a storable account put it under its name. -/
theorem lines_user
    (state : Reading)
    {u : UserRecord}
    (produced : ProducedUser u)
    (storable : StorableUser u) :
    ∃ first,
      (ServerApp.userLines u).foldl Reading.line state =
        { state with
          users := (state.users.insert u.username first).insert u.username u } := by
  have userLines :
      ServerApp.userLines u =
        [ServerApp.configLine (ascii "user." ++ u.username ++ ascii ".hash")
            u.argon2Hash,
          ServerApp.configLine (ascii "user." ++ u.username ++ ascii ".rights")
            (rightsToString u.rights)] := by
    simp [ServerApp.userLines, produced.named, produced.hashed]
  have isUser :
      ∀ field : Bytes, ascii "user." <+: ascii "user." ++ u.username ++ field :=
    fun field => ⟨u.username ++ field, by simp⟩
  have behind :
      ∀ field : Bytes,
        (ascii "user." ++ u.username ++ field).drop 5 = u.username ++ field := by
    intro field
    rw [List.append_assoc]
    exact List.drop_left' (by decide)
  have hashField : ascii ".hash" = dot :: ascii "hash" := by
    decide
  have rightsField : ascii ".rights" = dot :: ascii "rights" := by
    decide
  have rightsTrimmed : trim (rightsToString u.rights) = rightsToString u.rights := by
    have solid := rightsToString_solid u.rights
    apply TrimmedText.trim_solid_ends
    · exact fun c isFirst => solid c (List.mem_of_head? isFirst)
    · exact fun c isLast => solid c (List.mem_of_getLast? isLast)
  refine ⟨{ account state.users u.username with
    username := u.username, argon2Hash := u.argon2Hash }, ?_⟩
  rw [userLines, List.foldl_cons, List.foldl_cons, List.foldl_nil,
    line_configLine _
      (plainKey_user storable.noEquals (by decide +kernel) (by decide +kernel) (by decide +kernel)),
    line_configLine _
      (plainKey_user storable.noEquals (by decide +kernel) (by decide +kernel) (by decide +kernel)),
    assign_user _ (isUser _), assign_user _ (isUser _), behind, behind,
    hashField, rightsField, assignUser_field _ _ (by decide +kernel),
    assignUser_field _ _ (by decide +kernel), storable.trimmed, rightsTrimmed,
    rightsFromStrings_rightsToString produced.isDefined]
  have differs : ascii "rights" ≠ ascii "hash" := by
    decide
  simp [differs, account]

/-- The accounts of distinct names are all in the map. -/
theorem lines_users
    {users : List UserRecord}
    (produced : ∀ u ∈ users, ProducedUser u)
    (storable : ∀ u ∈ users, StorableUser u)
    (distinct : (users.map UserRecord.username).Nodup)
    (state : Reading)
    (fresh : ∀ u ∈ users, ∀ entry ∈ state.users.toList, entry.1 ≠ u.username) :
    (((users.flatMap ServerApp.userLines).foldl Reading.line
        state).users.toList.map Prod.snd).Perm
      (users ++ state.users.toList.map Prod.snd) := by
  induction users generalizing state with
  | nil =>
      simp
  | cons u rest inductionHypothesis =>
      obtain ⟨first, read⟩ :=
        lines_user state (produced u (by simp)) (storable u (by simp))
      have insertedFresh :
          (state.users.insert u.username first).toList.Perm
            ((u.username, first) :: state.users.toList) := by
        have inserted :=
          Std.TreeMap.toList_insert_perm (t := state.users) (k := u.username)
            (v := first)
        rwa [List.filter_eq_self.mpr] at inserted
        intro entry member
        simpa using (fresh u (by simp) entry member).symm
      have kept :
          ((u.username, first) :: state.users.toList).filter
              (fun entry => decide ¬(u.username == entry.1) = true) =
            state.users.toList := by
        rw [List.filter_cons_of_neg (by simp), List.filter_eq_self]
        intro entry member
        simpa using (fresh u (by simp) entry member).symm
      have inserted :
          ((state.users.insert u.username first).insert u.username u).toList.Perm
            ((u.username, u) :: state.users.toList) := by
        have again :=
          Std.TreeMap.toList_insert_perm
            (t := state.users.insert u.username first) (k := u.username) (v := u)
        have others := insertedFresh.filter
          (fun entry => decide ¬(u.username == entry.1) = true)
        rw [kept] at others
        exact again.trans (others.cons _)
      rw [List.map_cons, List.nodup_cons] at distinct
      have restFresh :
          ∀ other ∈ rest,
            ∀ entry ∈
                ((state.users.insert u.username first).insert u.username
                  u).toList,
              entry.1 ≠ other.username := by
        intro other member entry inMap
        rcases List.mem_cons.mp (inserted.mem_iff.mp inMap) with rfl | wasThere
        · intro same
          exact distinct.1 (List.mem_map.mpr ⟨other, member, same.symm⟩)
        · exact fresh other (by simp [member]) entry wasThere
      have restRead :=
        inductionHypothesis (fun other member => produced other (by simp [member]))
          (fun other member => storable other (by simp [member])) distinct.2
          { state with
            users := (state.users.insert u.username first).insert u.username u }
          restFresh
      rw [List.flatMap_cons, List.foldl_append, read]
      refine restRead.trans ?_
      have moved := (inserted.map Prod.snd).append_left rest
      exact moved.trans List.perm_middle

/-! ## What every configuration that is read satisfies -/

/-- The accounts that are being read: names without equals signs, trimmed hashes. -/
def AccountsRead (users : UserMap) : Prop :=
  ∀ entry ∈ users.toList, entry.2.username = entry.1 ∧ StorableUser entry.2

/-- A key that is read has no equals sign, and its value is trimmed. -/
theorem assignment_parts
    {line key val : Bytes}
    (assigned : assignment? line = some (key, val)) :
    equalsSign ∉ key ∧ trim val = val := by
  unfold assignment? at assigned
  split at assigned
  · cases assigned
  · split at assigned
    · cases assigned
    · obtain ⟨rfl, rfl⟩ := Prod.mk.inj (Option.some.inj assigned)
      refine ⟨fun member => ?_, TrimmedText.trim_trim _⟩
      have taken := List.mem_takeWhile_imp (TrimmedText.mem_of_mem_trim member)
      simp at taken

/-- An assignment changes the accounts as `assignUser` does, or not at all. -/
theorem assign_users
    (state : Reading)
    (key val : Bytes) :
    (state.assign key val).users = state.users ∨
      (state.assign key val).users =
        assignUser state.users (key.drop 5) val := by
  by_cases isUser : ascii "user." <+: key
  · right
    rw [assign_user state isUser]
  · left
    simp [Reading.assign, isUser, apply_ite Reading.users]

/-- The account of a name has a trimmed hash. -/
theorem AccountsRead.account_trimmed
    {users : UserMap}
    (read : AccountsRead users)
    (name : Bytes) :
    trim (account users name).argon2Hash = (account users name).argon2Hash := by
  rw [account, Std.TreeMap.getD_eq_getD_getElem?]
  cases found : users[name]? with
  | none =>
      rfl
  | some u =>
      have member :=
        Std.TreeMap.mem_toList_iff_getElem?_eq_some.mpr found
      exact (read (name, u) member).2.trimmed

/-- An assignment to an account keeps the accounts as they can be read. -/
theorem AccountsRead.assignUser
    {users : UserMap}
    (read : AccountsRead users)
    {rest val : Bytes}
    (noEquals : equalsSign ∉ rest)
    (trimmed : trim val = val) :
    AccountsRead (assignUser users rest val) := by
  unfold ConfigText.assignUser
  split
  · exact read
  · intro entry member
    have known :=
      (Std.TreeMap.toList_insert_perm (t := users)).mem_iff.mp member
    rcases List.mem_cons.mp known with rfl | wasThere
    · have nameNoEquals :
          equalsSign ∉ (rest.rdropWhile fun c => c != dot).dropLast :=
        fun inName =>
          noEquals ((List.rdropWhile_prefix _ _).subset
            (List.dropLast_subset _ inName))
      have oldTrimmed :=
        read.account_trimmed (rest.rdropWhile fun c => c != dot).dropLast
      dsimp only
      split
      · exact ⟨rfl, nameNoEquals, trimmed⟩
      · split
        · exact ⟨rfl, nameNoEquals, oldTrimmed⟩
        · exact ⟨rfl, nameNoEquals, oldTrimmed⟩
    · exact read entry (List.mem_of_mem_filter wasThere)

/-- One more line keeps the accounts as they can be read. -/
theorem AccountsRead.line
    {state : Reading}
    (read : AccountsRead state.users)
    (line : Bytes) :
    AccountsRead (state.line line).users := by
  unfold Reading.line
  split
  · exact read
  · next key val assigned =>
      obtain ⟨noEquals, trimmed⟩ := assignment_parts assigned
      rcases assign_users state key val with same | changed
      · rw [same]
        exact read
      · rw [changed]
        exact read.assignUser
          (fun member => noEquals (List.mem_of_mem_drop member)) trimmed

/-- The accounts of every configuration that is read have their own names. -/
theorem accounts_distinct
    {users : UserMap}
    (read : AccountsRead users) :
    ((users.toList.map Prod.snd).map UserRecord.username).Nodup := by
  have names :
      (users.toList.map Prod.snd).map UserRecord.username =
        users.toList.map Prod.fst := by
    rw [List.map_map]
    exact List.map_congr_left fun entry member => (read entry member).1
  rw [names, List.Nodup, List.pairwise_map]
  refine users.distinct_keys_toList.imp fun differs same => ?_
  rw [same] at differs
  exact differs Std.ReflCmp.compare_self

/-! ## The round trip -/

/-- What the dialogs can produce: texts of one line, and accounts. -/
structure ProducedConfig (cfg : ServerConfig) : Prop where
  bindAddr : Csv.lf ∉ cfg.bindAddr
  allowSubnets : Csv.lf ∉ cfg.allowSubnets
  tlsCert : Csv.lf ∉ cfg.tlsCert
  tlsKey : Csv.lf ∉ cfg.tlsKey
  clientCa : Csv.lf ∉ cfg.clientCa
  auditCsv : Csv.lf ∉ cfg.auditCsv
  fileRoot : Csv.lf ∉ cfg.fileRoot
  users : ∀ u ∈ cfg.users, ProducedUser u

/-- What the text can hold: trimmed texts, numbers of an `int`, named accounts. -/
structure StorableConfig (cfg : ServerConfig) : Prop where
  bindAddr : trim cfg.bindAddr = cfg.bindAddr
  monitor : cfg.monitor.toNat ≤ 2 ^ 31 - 1
  allowSubnets : trim cfg.allowSubnets = cfg.allowSubnets
  tlsCert : trim cfg.tlsCert = cfg.tlsCert
  tlsKey : trim cfg.tlsKey = cfg.tlsKey
  clientCa : trim cfg.clientCa = cfg.clientCa
  auditCsv : trim cfg.auditCsv = cfg.auditCsv
  fileRoot : trim cfg.fileRoot = cfg.fileRoot
  maxSessions : cfg.maxSessions.toNat ≤ 2 ^ 31 - 1
  users : ∀ u ∈ cfg.users, StorableUser u
  distinct : (cfg.users.map UserRecord.username).Nodup

/-- What is read back: the same scalar fields, and the same accounts in some order. -/
structure ReadsBack (cfg : ServerConfig) : Prop where
  scalars :
    { ServerConfig.parse (ServerApp.serialize cfg) with users := [] } =
      { cfg with users := [] }
  users :
    (ServerConfig.parse (ServerApp.serialize cfg)).users.Perm cfg.users

/-- A line is one line when its key and its value are. -/
theorem lf_mem_configLine
    {key value : Bytes} :
    Csv.lf ∈ ServerApp.configLine key value ↔ Csv.lf ∈ key ∨ Csv.lf ∈ value := by
  have notEquals : Csv.lf ≠ equalsSign := by
    decide
  simp [ServerApp.configLine, notEquals]

/-- The lines of an account are lines. -/
theorem ProducedUser.oneLine
    {u : UserRecord}
    (produced : ProducedUser u) :
    ∀ line ∈ ServerApp.userLines u, Csv.lf ∉ line := by
  have rightsOneLine : Csv.lf ∉ rightsToString u.rights := by
    intro member
    have solid := rightsToString_solid u.rights Csv.lf member
    exact absurd solid (by decide)
  have fixedOneLine :
      Csv.lf ∉ ascii "user." ∧ Csv.lf ∉ ascii ".hash" ∧
        Csv.lf ∉ ascii ".rights" := by
    decide
  intro line member
  unfold ServerApp.userLines at member
  split at member
  · cases member
  · simp only [List.mem_cons, List.not_mem_nil, or_false] at member
    rcases member with rfl | rfl
    · simp [lf_mem_configLine, fixedOneLine, produced.oneLineName,
        produced.oneLineHash]
    · simp [lf_mem_configLine, fixedOneLine, produced.oneLineName,
        rightsOneLine]

/-- Every line of a configuration is one line. -/
theorem ProducedConfig.oneLine
    {cfg : ServerConfig}
    (produced : ProducedConfig cfg) :
    ∀ line ∈ ServerApp.configLines cfg, Csv.lf ∉ line := by
  have number : ∀ value : Nat, Csv.lf ∉ decimal value := by
    intro value member
    have bounds := decimal_mem member
    exact absurd bounds (by decide)
  have keys : ∀ key ∈ scalarKeys, Csv.lf ∉ key := by
    decide
  simp only [scalarKeys, List.forall_mem_cons] at keys
  have caOneLine :
      ∀ line ∈
          (if cfg.clientCa.isEmpty then
            []
          else
            [ServerApp.configLine (ascii "client_ca") cfg.clientCa]),
        Csv.lf ∉ line := by
    intro line member
    split at member
    · cases member
    · rw [List.mem_singleton.mp member, lf_mem_configLine, not_or]
      exact ⟨by decide, produced.clientCa⟩
  have usersOneLine :
      ∀ line ∈ cfg.users.flatMap ServerApp.userLines, Csv.lf ∉ line := by
    intro line member
    obtain ⟨u, inUsers, inLines⟩ := List.mem_flatMap.mp member
    exact (produced.users u inUsers).oneLine line inLines
  rw [ServerApp.configLines]
  simp only [List.forall_mem_append, List.forall_mem_cons, lf_mem_configLine,
    keys, number, produced.bindAddr, produced.allowSubnets, produced.tlsCert,
    produced.tlsKey, produced.auditCsv, produced.fileRoot, List.not_mem_nil,
    or_self, not_false_eq_true, false_implies, implies_true, and_self, true_and,
    and_true]
  exact ⟨caOneLine, usersOneLine⟩

/-- What a configuration reads back as. -/
theorem ProducedConfig.parse_serialize
    {cfg : ServerConfig}
    (produced : ProducedConfig cfg) :
    ∃ users : UserMap,
      AccountsRead users ∧
        users =
          ((cfg.users.flatMap ServerApp.userLines).foldl Reading.line
            { c := normalized cfg }).users ∧
        ServerConfig.parse (ServerApp.serialize cfg) =
          { normalized cfg with users := users.toList.map Prod.snd } := by
  have linesRead :
      getlinesFrom [] (ServerApp.serialize cfg) = ServerApp.configLines cfg :=
    getlinesFrom_lines produced.oneLine
  have accountsRead :
      ∀ (lines : List Bytes) (state : Reading),
        AccountsRead state.users →
          AccountsRead (lines.foldl Reading.line state).users := by
    intro lines
    induction lines with
    | nil =>
        exact fun _ read => read
    | cons line rest inductionHypothesis =>
        exact fun state read => inductionHypothesis _ (read.line line)
  refine ⟨_, accountsRead _ _ ?_, rfl, ?_⟩
  · intro entry member
    cases member
  · rw [ServerConfig.parse, linesRead, lines_scalars]
    simp only [lines_userLines]
    rfl

/--
A configuration of the dialogs reads back exactly when its text can hold it: the
texts are trimmed, the numbers fit into an `int`, usernames are distinct and
without equals signs, and hashes are trimmed.
-/
theorem readsBack_iff_storable
    (cfg : ServerConfig)
    (produced : ProducedConfig cfg) :
    ReadsBack cfg ↔ StorableConfig cfg := by
  obtain ⟨users, read, usersEq, parsed⟩ := produced.parse_serialize
  have scalars :
      { ServerConfig.parse (ServerApp.serialize cfg) with users := [] } =
        normalized cfg := by
    rw [parsed]
    rfl
  constructor
  · intro readsBack
    have same := readsBack.scalars
    rw [scalars, normalized, ServerConfig.mk.injEq] at same
    have accounts := readsBack.users
    rw [parsed] at accounts
    have names := accounts.map UserRecord.username
    refine
      { bindAddr := same.1
        monitor := (capped_eq_iff _).mp same.2.2.1
        allowSubnets := same.2.2.2.1
        tlsCert := same.2.2.2.2.1
        tlsKey := same.2.2.2.2.2.1
        clientCa := same.2.2.2.2.2.2.1
        auditCsv := same.2.2.2.2.2.2.2.1
        fileRoot := same.2.2.2.2.2.2.2.2.1
        maxSessions := (capped_eq_iff _).mp same.2.2.2.2.2.2.2.2.2.1
        users := ?_
        distinct := names.nodup_iff.mp (accounts_distinct read) }
    intro u member
    obtain ⟨entry, inMap, rfl⟩ :=
      List.mem_map.mp (accounts.mem_iff.mpr member)
    exact (read entry inMap).2
  · intro storable
    refine ⟨?_, ?_⟩
    · rw [scalars, normalized, ServerConfig.mk.injEq]
      exact ⟨storable.bindAddr, rfl, (capped_eq_iff _).mpr storable.monitor,
        storable.allowSubnets, storable.tlsCert, storable.tlsKey,
        storable.clientCa, storable.auditCsv, storable.fileRoot,
        (capped_eq_iff _).mpr storable.maxSessions, rfl⟩
    · have stored :=
        lines_users produced.users storable.users storable.distinct
          { c := normalized cfg } (by
            intro u member entry inEmpty
            cases inEmpty)
      rw [← usersEq] at stored
      rw [parsed]
      refine stored.trans ?_
      have empty : (∅ : UserMap).toList = [] :=
        rfl
      simp [empty]

/-- Two accounts of one name. -/
def twoAccountsOfOneName : ServerConfig where
  users :=
    [{ username := ascii "admin", argon2Hash := ascii "$argon2id$old"
       rights := R_AllAccess },
      { username := ascii "admin", argon2Hash := ascii "$argon2id$new" }]

/-- One account with a plain name. -/
def oneAccount : ServerConfig where
  users :=
    [{ username := ascii "bob", argon2Hash := ascii "$argon2id$b"
       rights := R_FileTransfer }]

theorem oneAccount_produced : ProducedConfig oneAccount := by
  refine ⟨by decide, by decide, by decide, by decide, by decide, by decide,
    by decide, ?_⟩
  intro u member
  rw [List.mem_singleton.mp member]
  exact ⟨by decide, by decide, by decide, by decide, by decide⟩

/-- One account is read back. -/
theorem readsBack_iff_storable_oneAccount :
    ProducedConfig oneAccount ∧
      (ReadsBack oneAccount ↔ StorableConfig oneAccount) :=
  ⟨oneAccount_produced, readsBack_iff_storable oneAccount oneAccount_produced⟩

/-- Of two accounts of one name, one is lost. -/
theorem account_lost :
    ProducedConfig twoAccountsOfOneName ∧ ¬ReadsBack twoAccountsOfOneName := by
  refine ⟨⟨by decide, by decide, by decide, by decide, by decide, by decide,
    by decide, ?_⟩, fun readsBack => ?_⟩
  · intro u member
    simp only [twoAccountsOfOneName, List.mem_cons, List.not_mem_nil, or_false]
      at member
    rcases member with rfl | rfl
    · exact ⟨by decide, by decide, by decide, by decide, by decide⟩
    · exact ⟨by decide, by decide, by decide, by decide, by decide⟩
  · have counted := readsBack.users.length_eq
    have one :
        (ServerConfig.parse
          (ServerApp.serialize twoAccountsOfOneName)).users.length = 1 := by
      decide +kernel
    rw [one] at counted
    exact absurd counted (by decide)

end RadminPro
