import RadminPro.RightsText

namespace RadminPro

open ByteCodec ConfigText

/-!
# What a text says about an account

A key may be assigned in several lines; the last one holds.  The accounts that
are read are described by the last lines with their hash and their rights, with
no reference to the map in which they are gathered.
-/

namespace ConfigText

/-- One more line, seen by somebody who waits for assignments to a key. -/
def noteLine (key : Bytes) (held : Option Bytes) (line : Bytes) : Option Bytes :=
  match assignment? line with
  | none => held
  | some (assigned, val) => if assigned = key then some val else held

/-- What the last of these lines that assigns the key assigns to it. -/
def lastAssigned (lines : List Bytes) (key : Bytes) : Option Bytes :=
  lines.foldl (noteLine key) none

/-- What the last line of a text that assigns the key assigns to it. -/
def lastValue (text key : Bytes) : Option Bytes :=
  lastAssigned (getlinesFrom [] text) key

/-- The key of a field of an account. -/
def userKey (name field : Bytes) : Bytes :=
  ascii "user." ++ (name ++ dot :: field)

/-- The hash that a text gives an account. -/
def textHash (text name : Bytes) : Bytes :=
  (lastValue text (userKey name (ascii "hash"))).getD []

/-- The rights that a value names. -/
def valueRights (val : Bytes) : UInt32 :=
  rightsFromStrings (splitAny val separatesRights)

/-- The rights that a text gives an account. -/
def textRights (text name : Bytes) : UInt32 :=
  ((lastValue text (userKey name (ascii "rights"))).map valueRights).getD R_None

end ConfigText

/-! ## Keys of accounts -/

/-- What stands behind the last dot. -/
theorem rtakeWhile_field
    (name : Bytes)
    {field : Bytes}
    (noDot : dot ∉ field) :
    (name ++ dot :: field).rtakeWhile (fun c => c != dot) = field := by
  have others : ∀ c ∈ field, (c != dot) = true := by
    intro c member
    have differs : c ≠ dot := by
      rintro rfl
      exact noDot member
    simpa using differs
  rw [List.append_cons, rtakeWhile_append_of_pos (name ++ [dot]) others,
    List.rtakeWhile_concat_neg _ _ _ (by simp), List.nil_append]

/-- A key of an account is taken apart at its last dot. -/
theorem userKey_inj
    {name other field otherField : Bytes}
    (noDot : dot ∉ field)
    (otherNoDot : dot ∉ otherField) :
    userKey name field = userKey other otherField ↔
      name = other ∧ field = otherField := by
  constructor
  · intro same
    have tails := List.append_cancel_left same
    have fields : field = otherField := by
      rw [← rtakeWhile_field name noDot, tails, rtakeWhile_field other otherNoDot]
    subst fields
    exact ⟨List.append_cancel_right tails, rfl⟩
  · rintro ⟨rfl, rfl⟩
    rfl

/-- What a key of an account is behind `user.`. -/
theorem drop_userKey
    (name field : Bytes) :
    (userKey name field).drop 5 = name ++ dot :: field :=
  List.drop_left' (by decide)

/-- A key that starts with `user.` and has a dot behind it is one of an account. -/
theorem userKey_of_dot
    {key : Bytes}
    (isUser : ascii "user." <+: key)
    (hasDot : dot ∈ key.drop 5) :
    ∃ name field, dot ∉ field ∧ key = userKey name field := by
  obtain ⟨behind, rfl⟩ := isUser
  have dropped : (ascii "user." ++ behind).drop 5 = behind :=
    List.drop_left' (by decide)
  rw [dropped] at hasDot
  refine ⟨_, _, fun inField => ?_, congrArg (ascii "user." ++ ·) (name_field hasDot)⟩
  have kept := List.mem_rtakeWhile_imp inField
  simp at kept

/-! ## One line -/

/-- The account of a name after another one has been put in. -/
theorem account_insert
    (users : UserMap)
    (name other : Bytes)
    (u : UserRecord) :
    account (users.insert name u) other =
      if name = other then u else account users other := by
  rw [account, Std.TreeMap.getD_insert]
  simp [account]

/-- The accounts after an assignment to a key of an account. -/
theorem account_assign_user
    (state : Reading)
    (name other : Bytes)
    {field : Bytes}
    (noDot : dot ∉ field)
    (val : Bytes) :
    account (state.assign (userKey name field) val).users other =
      if name = other then
        if field = ascii "hash" then
          { account state.users name with username := name, argon2Hash := val }
        else if field = ascii "rights" then
          { account state.users name with
            username := name
            rights := valueRights val }
        else
          { account state.users name with username := name }
      else
        account state.users other := by
  have isUser : ascii "user." <+: userKey name field :=
    List.prefix_append _ _
  rw [assign_user state isUser, drop_userKey]
  dsimp only
  rw [assignUser_field _ _ noDot, account_insert]
  rfl

/-- An assignment to another key leaves the accounts alone. -/
theorem account_assign_other
    (state : Reading)
    {key : Bytes}
    (other : ∀ name field, dot ∉ field → key ≠ userKey name field)
    (val : Bytes) :
    (state.assign key val).users = state.users := by
  by_cases isUser : ascii "user." <+: key
  · have noDot : dot ∉ key.drop 5 := by
      intro hasDot
      obtain ⟨name, field, clean, same⟩ := userKey_of_dot isUser hasDot
      exact other name field clean same
    rw [assign_user state isUser]
    dsimp only
    rw [assignUser, if_pos noDot]
  · simp [Reading.assign, isUser, apply_ite Reading.users]

/-- The hash of an account after an assignment. -/
theorem argon2Hash_assign
    (state : Reading)
    (key val name : Bytes) :
    (account (state.assign key val).users name).argon2Hash =
      if key = userKey name (ascii "hash") then
        val
      else
        (account state.users name).argon2Hash := by
  have hashNoDot : dot ∉ ascii "hash" := by
    decide +kernel
  by_cases isAccount : ∃ other field, dot ∉ field ∧ key = userKey other field
  · obtain ⟨other, field, noDot, rfl⟩ := isAccount
    rw [account_assign_user state other name noDot]
    simp only [userKey_inj noDot hashNoDot]
    by_cases sameName : other = name
    · subst sameName
      by_cases isHash : field = ascii "hash"
      · simp [isHash]
      · simp only [isHash, if_true, if_false, and_false]
        split
        · rfl
        · rfl
    · simp [sameName]
  · have others : ∀ other field, dot ∉ field → key ≠ userKey other field :=
      fun other field noDot same => isAccount ⟨other, field, noDot, same⟩
    rw [account_assign_other state others, if_neg (others name _ hashNoDot)]

/-- The rights of an account after an assignment. -/
theorem rights_assign
    (state : Reading)
    (key val name : Bytes) :
    (account (state.assign key val).users name).rights =
      if key = userKey name (ascii "rights") then
        valueRights val
      else
        (account state.users name).rights := by
  have rightsNoDot : dot ∉ ascii "rights" := by
    decide +kernel
  by_cases isAccount : ∃ other field, dot ∉ field ∧ key = userKey other field
  · obtain ⟨other, field, noDot, rfl⟩ := isAccount
    rw [account_assign_user state other name noDot]
    simp only [userKey_inj noDot rightsNoDot]
    by_cases sameName : other = name
    · subst sameName
      by_cases isRights : field = ascii "rights"
      · have notHash : ascii "rights" ≠ ascii "hash" := by
          decide +kernel
        simp [isRights, notHash]
      · simp only [isRights, if_true, if_false, and_false]
        split
        · rfl
        · rfl
    · simp [sameName]
  · have others : ∀ other field, dot ∉ field → key ≠ userKey other field :=
      fun other field noDot same => isAccount ⟨other, field, noDot, same⟩
    rw [account_assign_other state others, if_neg (others name _ rightsNoDot)]

/-! ## All lines -/

/-- The lines so far and the account of a name say the same. -/
structure AccountAsWritten
    (lines : List Bytes)
    (users : UserMap)
    (name : Bytes) : Prop where
  hash :
    (account users name).argon2Hash =
      (lastAssigned lines (userKey name (ascii "hash"))).getD []
  rights :
    (account users name).rights =
      ((lastAssigned lines (userKey name (ascii "rights"))).map valueRights).getD
        R_None

/-- Every line is read as it is written. -/
theorem accountAsWritten_lines
    (lines : List Bytes)
    (name : Bytes) :
    AccountAsWritten lines (lines.foldl Reading.line {}).users name := by
  induction lines using List.reverseRecOn with
  | nil =>
      exact ⟨rfl, rfl⟩
  | append_singleton lines line inductionHypothesis =>
      have oneMore :
          ∀ key,
            lastAssigned (lines ++ [line]) key =
              noteLine key (lastAssigned lines key) line := by
        intro key
        rw [lastAssigned, List.foldl_concat]
        rfl
      rw [List.foldl_concat]
      generalize lines.foldl Reading.line {} = state at inductionHypothesis ⊢
      constructor
      all_goals
        rw [oneMore, noteLine, Reading.line]
      · cases assignment? line with
        | none =>
            exact inductionHypothesis.hash
        | some parts =>
            dsimp only
            rw [argon2Hash_assign]
            split
            · rfl
            · exact inductionHypothesis.hash
      · cases assignment? line with
        | none =>
            exact inductionHypothesis.rights
        | some parts =>
            dsimp only
            rw [rights_assign]
            split
            · rfl
            · exact inductionHypothesis.rights

/-- An account with a hash is the one that the text describes. -/
theorem mem_users_parse_iff
    {text : Bytes}
    {u : UserRecord}
    (hashed : u.argon2Hash ≠ []) :
    u ∈ (ServerConfig.parse text).users ↔
      u.argon2Hash = textHash text u.username ∧
        u.rights = textRights text u.username := by
  have read := (readingSound_text text).accounts
  have written := accountAsWritten_lines (getlinesFrom [] text) u.username
  rw [parse_eq]
  dsimp only
  rw [textHash, textRights, lastValue, lastValue, ← written.hash, ← written.rights]
  generalize ((getlinesFrom [] text).foldl Reading.line {}).users = users at read
  constructor
  · intro member
    obtain ⟨⟨key, stored⟩, inMap, rfl⟩ := List.mem_map.mp member
    have named := (read (key, stored) inMap).1
    have found := Std.TreeMap.mem_toList_iff_getElem?_eq_some.mp inMap
    dsimp only at named found ⊢
    rw [account, Std.TreeMap.getD_eq_getD_getElem?, named, found]
    exact ⟨rfl, rfl⟩
  · rintro ⟨sameHash, sameRights⟩
    rw [account, Std.TreeMap.getD_eq_getD_getElem?] at sameHash sameRights
    cases found : users[u.username]? with
    | none =>
        rw [found] at sameHash
        exact absurd sameHash hashed
    | some stored =>
        rw [found] at sameHash sameRights
        have inMap := Std.TreeMap.mem_toList_iff_getElem?_eq_some.mpr found
        have named := (read (u.username, stored) inMap).1
        refine List.mem_map.mpr ⟨(u.username, stored), inMap, ?_⟩
        cases u
        cases stored
        simp_all

end RadminPro
