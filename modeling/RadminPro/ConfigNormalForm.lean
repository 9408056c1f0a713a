import RadminPro.ConfigRoundTrip

namespace RadminPro

open ByteCodec
open ConfigText

/-!
# The normal form of a configuration

Whatever a text holds, what `parse` makes of it is trimmed, of one line, sorted
by name and made of known rights.  So writing it and reading it again keeps it,
but for the accounts that have no name or no hash.
-/

/-! ## What every configuration that is read looks like -/

/-- A text as it is read: of one line, without blanks at its ends. -/
structure ReadText (text : Bytes) : Prop where
  trimmed : trim text = text
  oneLine : Csv.lf ∉ text

/-- The scalar fields as they are read. -/
structure ScalarsRead (c : ServerConfig) : Prop where
  bindAddr : ReadText c.bindAddr
  allowSubnets : ReadText c.allowSubnets
  tlsCert : ReadText c.tlsCert
  tlsKey : ReadText c.tlsKey
  clientCa : ReadText c.clientCa
  auditCsv : ReadText c.auditCsv
  fileRoot : ReadText c.fileRoot
  noUsers : c.users = []

/-- An account as it is read, with or without a name and a hash. -/
structure UserRead (u : UserRecord) : Prop where
  oneLineName : Csv.lf ∉ u.username
  oneLineHash : Csv.lf ∉ u.argon2Hash
  isDefined : u.rights &&& definedRights = u.rights

/-- The lines of a text are lines. -/
theorem lf_not_mem_of_getlinesFrom
    {text current : Bytes}
    (noLf : Csv.lf ∉ current) :
    ∀ line ∈ getlinesFrom current text, Csv.lf ∉ line := by
  induction text generalizing current with
  | nil =>
      intro line member
      rw [getlinesFrom] at member
      split at member
      · cases member
      · rw [List.mem_singleton.mp member]
        exact noLf
  | cons c rest inductionHypothesis =>
      intro line member
      rw [getlinesFrom] at member
      split at member
      · rcases List.mem_cons.mp member with rfl | later
        · exact noLf
        · exact inductionHypothesis (by simp) line later
      · next isOther =>
          refine inductionHypothesis ?_ line member
          simp only [List.mem_append, List.mem_singleton, not_or]
          exact ⟨noLf, fun same => isOther same.symm⟩

/-- The key and the value of a line are of one line too. -/
theorem assignment_oneLine
    {line key val : Bytes}
    (noLf : Csv.lf ∉ line)
    (assigned : assignment? line = some (key, val)) :
    Csv.lf ∉ key ∧ Csv.lf ∉ val := by
  have trimmedNoLf : Csv.lf ∉ trim line :=
    fun member => noLf (TrimmedText.mem_of_mem_trim member)
  unfold assignment? at assigned
  generalize trim line = trimmed at assigned trimmedNoLf
  cases trimmed with
  | nil =>
      cases assigned
  | cons first rest =>
      dsimp only at assigned
      split at assigned
      · cases assigned
      · obtain ⟨rfl, rfl⟩ := Prod.mk.inj (Option.some.inj assigned)
        constructor
        · intro member
          exact trimmedNoLf
            ((List.takeWhile_prefix _).subset
              (TrimmedText.mem_of_mem_trim member))
        · intro member
          exact trimmedNoLf
            ((List.dropWhile_suffix _).subset
              (List.mem_of_mem_drop (TrimmedText.mem_of_mem_trim member)))

/-- Named rights are known rights. -/
theorem rightsFromStrings_isDefined
    (names : List Bytes) :
    rightsFromStrings names &&& definedRights = rightsFromStrings names := by
  have known : ∀ right ∈ kRights, right.1 &&& definedRights = right.1 := by
    decide +kernel
  have kept :
      ∀ out : UInt32,
        out &&& definedRights = out →
        names.foldl addRight out &&& definedRights = names.foldl addRight out := by
    induction names with
    | nil =>
        exact fun _ isDefined => isDefined
    | cons name rest inductionHypothesis =>
        intro out isDefined
        apply inductionHypothesis
        unfold addRight
        cases found : kRights.find? fun r => name = r.2 with
        | none =>
            exact isDefined
        | some right =>
            have member := List.mem_of_find?_eq_some found
            have split :
                (out ||| right.1) &&& definedRights =
                  (out &&& definedRights) ||| (right.1 &&& definedRights) := by
              apply UInt32.toNat_inj.mp
              simp only [UInt32.toNat_and, UInt32.toNat_or]
              exact Nat.and_or_distrib_right _ _ _
            dsimp only
            rw [split, isDefined, known right member]
  exact kept R_None (by simp [R_None])

/-- Other keys leave the scalar fields alone. -/
theorem assign_other
    (state : Reading)
    {key : Bytes}
    (other : key ∉ scalarKeys)
    (val : Bytes) :
    (state.assign key val).c = state.c := by
  by_cases isUser : ascii "user." <+: key
  · rw [assign_user state isUser]
  · simp only [scalarKeys, List.mem_cons, List.not_mem_nil, or_false, not_or]
      at other
    simp [Reading.assign, other, isUser]

/-- What a value assigned to a key leaves of the scalar fields. -/
theorem ScalarsRead.assign
    {state : Reading}
    (read : ScalarsRead state.c)
    (key : Bytes)
    {val : Bytes}
    (isRead : ReadText val) :
    ScalarsRead (state.assign key val).c := by
  by_cases scalar : key ∈ scalarKeys
  · obtain ⟨bind, port, monitor, subnets, cert, tlsKey, ca, audit, root, sessions⟩ :=
      assign_scalar state val
    simp only [scalarKeys, List.mem_cons, List.not_mem_nil, or_false] at scalar
    rcases scalar with
      rfl | rfl | rfl | rfl | rfl | rfl | rfl | rfl | rfl | rfl
    · rw [port]
      exact { read with }
    · rw [bind]
      exact { read with bindAddr := isRead }
    · rw [monitor]
      exact { read with }
    · rw [subnets]
      exact { read with allowSubnets := isRead }
    · rw [cert]
      exact { read with tlsCert := isRead }
    · rw [tlsKey]
      exact { read with tlsKey := isRead }
    · rw [ca]
      exact { read with clientCa := isRead }
    · rw [audit]
      exact { read with auditCsv := isRead }
    · rw [root]
      exact { read with fileRoot := isRead }
    · rw [sessions]
      exact { read with }
  · rw [assign_other state scalar]
    exact read

/-- The account that an assignment works on is one that can be read. -/
theorem userRead_account
    {users : UserMap}
    (read : ∀ entry ∈ users.toList, UserRead entry.2)
    (name : Bytes) :
    UserRead (account users name) := by
  rw [account, Std.TreeMap.getD_eq_getD_getElem?]
  cases found : users[name]? with
  | none =>
      exact ⟨by simp, by simp, by decide⟩
  | some u =>
      exact read (name, u) (Std.TreeMap.mem_toList_iff_getElem?_eq_some.mpr found)

/-- An assignment to an account keeps the accounts as they can be read. -/
theorem userRead_assignUser
    {users : UserMap}
    (read : ∀ entry ∈ users.toList, UserRead entry.2)
    {rest val : Bytes}
    (restOneLine : Csv.lf ∉ rest)
    (valOneLine : Csv.lf ∉ val) :
    ∀ entry ∈ (assignUser users rest val).toList, UserRead entry.2 := by
  unfold assignUser
  split
  · exact read
  · intro entry member
    have isKnown :=
      (Std.TreeMap.toList_insert_perm (t := users)).mem_iff.mp member
    rcases List.mem_cons.mp isKnown with rfl | wasThere
    · obtain ⟨-, oldOneLine, oldDefined⟩ :=
        userRead_account read (rest.rdropWhile fun c => c != dot).dropLast
      have nameOneLine :
          Csv.lf ∉ (rest.rdropWhile fun c => c != dot).dropLast :=
        fun inName =>
          restOneLine ((List.rdropWhile_prefix _ _).subset
            (List.dropLast_subset _ inName))
      dsimp only
      split
      · exact ⟨nameOneLine, valOneLine, oldDefined⟩
      · split
        · exact ⟨nameOneLine, oldOneLine, rightsFromStrings_isDefined _⟩
        · exact ⟨nameOneLine, oldOneLine, oldDefined⟩
    · exact read entry (List.mem_of_mem_filter wasThere)

/-- A configuration while it is read. -/
structure ReadingSound (state : Reading) : Prop where
  scalars : ScalarsRead state.c
  accounts : AccountsRead state.users
  users : ∀ entry ∈ state.users.toList, UserRead entry.2

/-- One more line keeps it so. -/
theorem ReadingSound.line
    {state : Reading}
    (sound : ReadingSound state)
    {line : Bytes}
    (noLf : Csv.lf ∉ line) :
    ReadingSound (state.line line) := by
  refine ⟨?_, sound.accounts.line line, ?_⟩
  · unfold Reading.line
    cases assigned : assignment? line with
    | none =>
        exact sound.scalars
    | some parts =>
        obtain ⟨key, val⟩ := parts
        exact sound.scalars.assign key
          ⟨(assignment_parts assigned).2, (assignment_oneLine noLf assigned).2⟩
  · unfold Reading.line
    cases assigned : assignment? line with
    | none =>
        exact sound.users
    | some parts =>
        obtain ⟨key, val⟩ := parts
        obtain ⟨keyOneLine, valOneLine⟩ := assignment_oneLine noLf assigned
        dsimp only
        rcases assign_users state key val with same | changed
        · rw [same]
          exact sound.users
        · rw [changed]
          exact userRead_assignUser sound.users
            (fun member => keyOneLine (List.mem_of_mem_drop member)) valOneLine

/-- So do all lines of a text. -/
theorem ReadingSound.lines
    {state : Reading}
    (sound : ReadingSound state)
    {lines : List Bytes}
    (oneLine : ∀ line ∈ lines, Csv.lf ∉ line) :
    ReadingSound (lines.foldl Reading.line state) := by
  induction lines generalizing state with
  | nil =>
      exact sound
  | cons line rest inductionHypothesis =>
      rw [List.forall_mem_cons] at oneLine
      exact inductionHypothesis (sound.line oneLine.1) oneLine.2

/-- Nothing has been read yet. -/
theorem readingSound_start : ReadingSound {} := by
  refine ⟨?_, ?_, ?_⟩
  · constructor
    all_goals first | rfl | exact ⟨by decide +kernel, by decide +kernel⟩
  · intro entry member
    cases member
  · intro entry member
    cases member

/-- What reading the lines of a text leads to. -/
theorem readingSound_text
    (text : Bytes) :
    ReadingSound ((getlinesFrom [] text).foldl Reading.line {}) :=
  readingSound_start.lines (lf_not_mem_of_getlinesFrom (by simp))

/-- A configuration is the scalar fields that were read and the accounts by name. -/
theorem parse_eq
    (text : Bytes) :
    ServerConfig.parse text =
      { ((getlinesFrom [] text).foldl Reading.line {}).c with
        users :=
          ((getlinesFrom [] text).foldl Reading.line {}).users.toList.map
            Prod.snd } := by
  rw [ServerConfig.parse, (readingSound_text text).scalars.noUsers,
    List.nil_append]

/-- Accounts in the order of their names. -/
def SortedByName (users : List UserRecord) : Prop :=
  users.Pairwise fun first second =>
    compare first.username second.username = .lt

/-- The accounts of a map come in the order of their names. -/
theorem sortedByName_toList
    {users : UserMap}
    (read : AccountsRead users) :
    SortedByName (users.toList.map Prod.snd) := by
  apply List.pairwise_map.mpr
  apply (Std.TreeMap.ordered_keys_toList (t := users)).imp_of_mem
  intro first second isFirst isSecond before
  rw [(read first isFirst).1, (read second isSecond).1]
  exact before

/-- The accounts of a text come in the order of their names. -/
theorem sortedByName_parse
    (text : Bytes) :
    SortedByName (ServerConfig.parse text).users := by
  rw [parse_eq]
  exact sortedByName_toList (readingSound_text text).accounts

/-- Accounts in the order of their names are in one order only. -/
theorem SortedByName.eq_of_perm
    {users others : List UserRecord}
    (sorted : SortedByName users)
    (othersSorted : SortedByName others)
    (perm : users.Perm others) :
    users = others := by
  refine List.Perm.eq_of_pairwise ?_ sorted othersSorted perm
  intro first second _ _ before after
  have swapped : compare first.username second.username = .gt :=
    Std.OrientedCmp.gt_of_lt after
  rw [before] at swapped
  cases swapped

/-! ## Writing and reading again -/

/-- An account has a name and a hash. -/
def isComplete (u : UserRecord) : Bool :=
  !u.username.isEmpty && !u.argon2Hash.isEmpty

/-- The configuration without the accounts that lack a name or a hash. -/
def withoutIncomplete (cfg : ServerConfig) : ServerConfig :=
  { cfg with users := cfg.users.filter isComplete }

/-- The limits are within the range of `int`. -/
structure InRange (cfg : ServerConfig) : Prop where
  monitor : cfg.monitor.toNat ≤ 2 ^ 31 - 1
  maxSessions : cfg.maxSessions.toNat ≤ 2 ^ 31 - 1

/-- Accounts without a name or a hash are not written. -/
theorem serialize_withoutIncomplete
    (cfg : ServerConfig) :
    ServerApp.serialize (withoutIncomplete cfg) = ServerApp.serialize cfg := by
  have sameLines :
      (cfg.users.filter isComplete).flatMap ServerApp.userLines =
        cfg.users.flatMap ServerApp.userLines := by
    induction cfg.users with
    | nil =>
        rfl
    | cons u rest inductionHypothesis =>
        cases complete : isComplete u with
        | true =>
            rw [List.filter_cons_of_pos complete, List.flatMap_cons,
              List.flatMap_cons, inductionHypothesis]
        | false =>
            have unwritten : ServerApp.userLines u = [] := by
              unfold ServerApp.userLines
              apply if_pos
              simpa [isComplete, Classical.or_iff_not_imp_left] using complete
            rw [List.filter_cons_of_neg (by simp [complete]), List.flatMap_cons,
              unwritten, List.nil_append, inductionHypothesis]
  rw [ServerApp.serialize, ServerApp.serialize, ServerApp.configLines,
    ServerApp.configLines, withoutIncomplete, sameLines]

/-- Without its incomplete accounts, what was read can be written. -/
theorem producedConfig_parse
    (text : Bytes) :
    ProducedConfig (withoutIncomplete (ServerConfig.parse text)) := by
  obtain ⟨scalars, accounts, users⟩ := readingSound_text text
  rw [parse_eq]
  refine ⟨scalars.bindAddr.oneLine, scalars.allowSubnets.oneLine,
    scalars.tlsCert.oneLine, scalars.tlsKey.oneLine, scalars.clientCa.oneLine,
    scalars.auditCsv.oneLine, scalars.fileRoot.oneLine, ?_⟩
  intro u member
  obtain ⟨inUsers, complete⟩ := List.mem_filter.mp member
  obtain ⟨entry, inMap, rfl⟩ := List.mem_map.mp inUsers
  have isRead := users entry inMap
  simp only [isComplete, Bool.and_eq_true, Bool.not_eq_true',
    List.isEmpty_eq_false_iff] at complete
  exact ⟨complete.1, complete.2, isRead.oneLineName, isRead.oneLineHash,
    isRead.isDefined⟩

/-- And its text can hold it, but for numbers out of range. -/
theorem storableConfig_parse
    {text : Bytes}
    (inRange : InRange (ServerConfig.parse text)) :
    StorableConfig (withoutIncomplete (ServerConfig.parse text)) := by
  obtain ⟨scalars, accounts, users⟩ := readingSound_text text
  obtain ⟨monitor, maxSessions⟩ := inRange
  rw [parse_eq] at monitor maxSessions ⊢
  refine ⟨scalars.bindAddr.trimmed, monitor, scalars.allowSubnets.trimmed,
    scalars.tlsCert.trimmed, scalars.tlsKey.trimmed, scalars.clientCa.trimmed,
    scalars.auditCsv.trimmed, scalars.fileRoot.trimmed, maxSessions, ?_, ?_⟩
  · intro u member
    obtain ⟨entry, inMap, rfl⟩ :=
      List.mem_map.mp (List.mem_of_mem_filter member)
    exact (accounts entry inMap).2
  · exact (accounts_distinct accounts).sublist (List.filter_sublist.map _)

/--
A configuration that was read is kept by writing it and reading it again, but
for the accounts that have no name or no hash; its text is kept as well.
-/
theorem config_normal_form
    (text : Bytes)
    (inRange : InRange (ServerConfig.parse text)) :
    ServerConfig.parse (ServerApp.serialize (ServerConfig.parse text)) =
        withoutIncomplete (ServerConfig.parse text) ∧
      ServerApp.serialize
          (ServerConfig.parse
            (ServerApp.serialize (ServerConfig.parse text))) =
        ServerApp.serialize (ServerConfig.parse text) := by
  have readsBack :=
    (readsBack_iff_storable _ (producedConfig_parse text)).mpr
      (storableConfig_parse inRange)
  have scalars := readsBack.scalars
  have sorted :
      SortedByName (withoutIncomplete (ServerConfig.parse text)).users :=
    (sortedByName_parse text).filter _
  have users :=
    (sortedByName_parse _).eq_of_perm sorted readsBack.users
  rw [serialize_withoutIncomplete] at scalars users
  have parsed :
      ServerConfig.parse (ServerApp.serialize (ServerConfig.parse text)) =
        withoutIncomplete (ServerConfig.parse text) := by
    generalize ServerConfig.parse (ServerApp.serialize (ServerConfig.parse text)) =
      again at scalars users ⊢
    generalize withoutIncomplete (ServerConfig.parse text) = kept
      at scalars users ⊢
    cases again
    cases kept
    simp only [ServerConfig.mk.injEq] at scalars users ⊢
    exact ⟨scalars.1, scalars.2.1, scalars.2.2.1, scalars.2.2.2.1,
      scalars.2.2.2.2.1, scalars.2.2.2.2.2.1, scalars.2.2.2.2.2.2.1,
      scalars.2.2.2.2.2.2.2.1, scalars.2.2.2.2.2.2.2.2.1,
      scalars.2.2.2.2.2.2.2.2.2.1, users⟩
  refine ⟨parsed, ?_⟩
  rw [parsed, serialize_withoutIncomplete]

/-- A dotted name, an equals sign in a hash, and an account without a hash. -/
def dottedName : Bytes :=
  ascii "; users\nport = 5000\n user.b.ob.hash = $argon2id$v=19 \n" ++
    ascii "user.b.ob.rights=RemoteScreenView\nuser.amy.rights=Chat\nmax_sessions=3"

/-- The port, the cap and one whole account are read, written and read again. -/
theorem config_normal_form_dottedName :
    ServerConfig.parse dottedName =
        { port := 5000
          maxSessions := 3
          users :=
            [{ username := ascii "amy", argon2Hash := [], rights := R_Chat },
              { username := ascii "b.ob"
                argon2Hash := ascii "$argon2id$v=19"
                rights := R_RemoteScreenView }] } ∧
      ServerConfig.parse (ServerApp.serialize (ServerConfig.parse dottedName)) =
        { port := 5000
          maxSessions := 3
          users :=
            [{ username := ascii "b.ob"
               argon2Hash := ascii "$argon2id$v=19"
               rights := R_RemoteScreenView }] } ∧
      ServerApp.serialize
          (ServerConfig.parse
            (ServerApp.serialize (ServerConfig.parse dottedName))) =
        ServerApp.serialize (ServerConfig.parse dottedName) := by
  obtain ⟨again, sameText⟩ :=
    config_normal_form dottedName ⟨by decide +kernel, by decide +kernel⟩
  refine ⟨by decide +kernel, ?_, sameText⟩
  rw [again]
  decide +kernel

end RadminPro
