import RadminPro.UsersDialog
import RadminPro.ServerAuthority

namespace RadminPro

open ByteCodec ConfigText

/-!
# Accounts from the dialog to the server

A server that is restarted gets its accounts from memory, the next process gets
them from the file that was saved.  Both have, for every name, the last account
with a hash that the administrator left under it.
-/

/-! ## The account of a name -/

/-- The last of some accounts that has a name, and a hash. -/
def lastAccount (users : List UserRecord) (name : Bytes) : Option UserRecord :=
  users.foldl
    (fun held u =>
      if u.username = name ∧ u.argon2Hash ≠ [] then some u else held)
    none

/-- One more account behind the others. -/
theorem lastAccount_append
    (users : List UserRecord)
    (u : UserRecord)
    (name : Bytes) :
    lastAccount (users ++ [u]) name =
      if u.username = name ∧ u.argon2Hash ≠ [] then
        some u
      else
        lastAccount users name := by
  rw [lastAccount, List.foldl_concat]
  rfl

/-- The server knows the last account of a name. -/
theorem accounts_eq_lastAccount
    (cfg : ServerConfig)
    (decoyHash name : Bytes) :
    (ServerApp.accounts cfg decoyHash).users name =
      lastAccount cfg.users name := by
  rw [ServerApp.accounts]
  generalize cfg.users = users
  induction users using List.reverseRecOn with
  | nil =>
      rfl
  | append_singleton users last inductionHypothesis =>
      rw [List.foldl_concat, lastAccount_append]
      cases hash : last.argon2Hash with
      | nil =>
          simpa using inductionHypothesis
      | cons byte rest =>
          simp only [List.isEmpty_cons, Bool.false_eq_true, if_false, ne_eq,
            reduceCtorEq, not_false_eq_true, and_true, SecurityManager.addUser]
          by_cases same : name = last.username
          · subst same
            simp
          · rw [Function.update_of_ne same, if_neg (Ne.symm same)]
            exact inductionHypothesis

/-- The account of a name is one of them. -/
theorem lastAccount_mem
    {users : List UserRecord}
    {name : Bytes}
    {u : UserRecord}
    (found : lastAccount users name = some u) :
    u ∈ users ∧ u.argon2Hash ≠ [] ∧ u.username = name := by
  have isAccount :
      (ServerApp.accounts { users } []).users name = some u :=
    (accounts_eq_lastAccount { users } [] name).trans found
  exact accounts_mem isAccount

/-- An account that is the only one of its name is the last one. -/
theorem lastAccount_of_distinct
    {users : List UserRecord}
    (distinct :
      users.Pairwise fun first second => first.username ≠ second.username)
    {u : UserRecord}
    (member : u ∈ users)
    (hashed : u.argon2Hash ≠ []) :
    lastAccount users u.username = some u := by
  induction users using List.reverseRecOn with
  | nil =>
      cases member
  | append_singleton users last inductionHypothesis =>
      rw [lastAccount_append]
      obtain ⟨before, -, apart⟩ := List.pairwise_append.mp distinct
      cases List.mem_append.mp member with
      | inl earlier =>
          have differs : last.username ≠ u.username :=
            (apart u earlier last (List.mem_singleton_self last)).symm
          rw [if_neg fun both => differs both.1]
          exact inductionHypothesis before earlier
      | inr isLast =>
          cases List.mem_singleton.mp isLast
          exact if_pos ⟨rfl, hashed⟩

/-- Accounts that are not written are not known to the server either. -/
theorem lastAccount_filter
    (users : List UserRecord)
    {name : Bytes}
    (named : name ≠ []) :
    lastAccount (users.filter isComplete) name = lastAccount users name := by
  induction users using List.reverseRecOn with
  | nil =>
      rfl
  | append_singleton users last inductionHypothesis =>
      rw [List.filter_append, lastAccount_append]
      cases complete : isComplete last with
      | true =>
          rw [List.filter_cons_of_pos complete, List.filter_nil,
            lastAccount_append, inductionHypothesis]
      | false =>
          have unknown :
              ¬(last.username = name ∧ last.argon2Hash ≠ []) := by
            rintro ⟨rfl, hashed⟩
            simp [isComplete, named, hashed] at complete
          rw [List.filter_cons_of_neg (by simp [complete]), List.filter_nil,
            List.append_nil, if_neg unknown, inductionHypothesis]

/-! ## Writing the accounts and reading them again -/

/-- After the lines of some accounts the map has the last one of every name. -/
theorem lines_lastAccount
    {users : List UserRecord}
    (produced : ∀ u ∈ users, ProducedUser u)
    (storable : ∀ u ∈ users, StorableUser u)
    {state : Reading}
    (fresh : state.users = ∅)
    (name : Bytes) :
    ((users.flatMap ServerApp.userLines).foldl Reading.line
        state).users[name]? =
      lastAccount users name := by
  induction users using List.reverseRecOn with
  | nil =>
      rw [List.flatMap_nil, List.foldl_nil, fresh]
      exact Std.TreeMap.getElem?_emptyc
  | append_singleton users last inductionHypothesis =>
      have lastProduced := produced last (by simp)
      rw [List.flatMap_append, List.foldl_append, List.flatMap_singleton]
      obtain ⟨first, read⟩ :=
        lines_user
          ((users.flatMap ServerApp.userLines).foldl Reading.line state)
          lastProduced (storable last (by simp))
      have earlier :=
        inductionHypothesis
          (fun u member => produced u (List.mem_append_left _ member))
          (fun u member => storable u (List.mem_append_left _ member))
      rw [read, lastAccount_append, Std.TreeMap.getElem?_insert,
        Std.TreeMap.getElem?_insert, earlier]
      by_cases same : last.username = name
      · simp [same, lastProduced.hashed]
      · simp [same]

/-- The accounts of a map, listed, are those of the map. -/
theorem lastAccount_toList
    {users : UserMap}
    (read : AccountsRead users)
    (hashed :
      ∀ (name : Bytes) (u : UserRecord),
        users[name]? = some u → u.argon2Hash ≠ [])
    (name : Bytes) :
    lastAccount (users.toList.map Prod.snd) name = users[name]? := by
  have distinct :
      (users.toList.map Prod.snd).Pairwise fun first second =>
        first.username ≠ second.username := by
    refine (sortedByName_toList read).imp ?_
    intro first second before same
    simp [same] at before
  apply Option.ext
  intro u
  constructor
  · intro found
    obtain ⟨member, -, isName⟩ := lastAccount_mem found
    obtain ⟨entry, inMap, rfl⟩ := List.mem_map.mp member
    have key : entry.1 = name := (read entry inMap).1.symm.trans isName
    subst key
    exact Std.TreeMap.mem_toList_iff_getElem?_eq_some.mp inMap
  · intro found
    have inMap := Std.TreeMap.mem_toList_iff_getElem?_eq_some.mpr found
    have isName : u.username = name := (read (name, u) inMap).1
    subst isName
    exact
      lastAccount_of_distinct distinct
        (List.mem_map.mpr ⟨(u.username, u), inMap, rfl⟩)
        (hashed u.username u found)

/-- What is written and read again leaves the server the same accounts. -/
theorem accounts_reload
    {cfg : ServerConfig}
    (produced : ProducedConfig (withoutIncomplete cfg))
    (storable : ∀ u ∈ (withoutIncomplete cfg).users, StorableUser u)
    (decoyHash : Bytes)
    {name : Bytes}
    (named : name ≠ []) :
    (ServerApp.accounts (ServerConfig.parse (ServerApp.serialize cfg))
        decoyHash).users name =
      lastAccount cfg.users name := by
  obtain ⟨users, read, isRead, parsed⟩ := produced.parse_serialize
  have inMap (name : Bytes) :
      users[name]? = lastAccount (withoutIncomplete cfg).users name := by
    rw [isRead]
    exact lines_lastAccount produced.users storable rfl name
  have hashed (name : Bytes) (u : UserRecord) (found : users[name]? = some u) :
      u.argon2Hash ≠ [] :=
    (lastAccount_mem ((inMap name).symm.trans found)).2.1
  rw [← serialize_withoutIncomplete, accounts_eq_lastAccount, parsed]
  calc
    lastAccount (users.toList.map Prod.snd) name
      = users[name]? := lastAccount_toList read hashed name
    _ = lastAccount (withoutIncomplete cfg).users name := inMap name
    _ = lastAccount cfg.users name := lastAccount_filter cfg.users named

/-! ## Accounts that the dialog leaves -/

/-- An account that its lines can hold, if it has a name and a hash. -/
structure KeptAccount (u : UserRecord) : Prop where
  oneLineName : Csv.lf ∉ u.username
  oneLineHash : Csv.lf ∉ u.argon2Hash
  storable : StorableUser u

/-- What `PasswordStore::hash` returns: one line without blanks at its ends. -/
def HashesTidily (hash : PasswordHash) : Prop :=
  ∀ password argon2Hash,
    hash password = .ok argon2Hash →
      Csv.lf ∉ argon2Hash ∧ trim argon2Hash = argon2Hash

/-- The names that are typed are of one line and have no equals sign. -/
def NamesFit : UsersEvent → Prop
  | .add forms => ∀ form ∈ forms, Csv.lf ∉ form.name ∧ equalsSign ∉ form.name
  | _ => True

/-- The accounts of a text can be held. -/
theorem keptAccount_text
    {text : Bytes}
    {u : UserRecord}
    (member : u ∈ (ServerConfig.parse text).users) :
    KeptAccount u ∧ IsDefined u.rights := by
  obtain ⟨-, accounts, users⟩ := readingSound_text text
  rw [parse_eq] at member
  obtain ⟨entry, inMap, rfl⟩ := List.mem_map.mp member
  have isRead := users entry inMap
  exact
    ⟨{ oneLineName := isRead.oneLineName
       oneLineHash := isRead.oneLineHash
       storable := (accounts entry inMap).2 }, isRead.isDefined⟩

/-- A new account can be held. -/
theorem keptAccount_added
    {hash : PasswordHash}
    (tidily : HashesTidily hash)
    {forms : List AddForm}
    (fit : NamesFit (.add forms))
    {u : UserRecord}
    (added : showAddUserDialog hash forms = some u) :
    KeptAccount u := by
  obtain ⟨form, isForm, isUser⟩ := List.exists_of_findSome?_eq_some added
  obtain ⟨oneLineName, noEquals⟩ := fit form isForm
  unfold addUserProc at isUser
  split at isUser
  · cases isUser
  · split at isUser
    · cases isUser
    · split at isUser
      · cases isUser
      · split at isUser
        · cases isUser
        · next argon2Hash isHash =>
            cases isUser
            obtain ⟨oneLineHash, trimmed⟩ := tidily _ _ isHash
            exact
              { oneLineName
                oneLineHash
                storable := { noEquals, trimmed } }

/-- An edit leaves accounts that can be held. -/
theorem keptAccount_apply
    {users : List UserRecord}
    (kept : ∀ u ∈ users, KeptAccount u)
    {edit : AccountEdit}
    (appended : ∀ u, edit = .append u → KeptAccount u) :
    ∀ u ∈ edit.apply users, KeptAccount u := by
  cases edit with
  | append new =>
      intro u member
      cases List.mem_append.mp member with
      | inl before => exact kept u before
      | inr isNew =>
          cases List.mem_singleton.mp isNew
          exact appended new rfl
  | toggle index bit =>
      intro u member
      obtain ⟨i, place⟩ := List.mem_iff_getElem?.mp member
      rw [AccountEdit.apply, List.getElem?_modify] at place
      obtain ⟨before, wasThere, isU⟩ := Option.map_eq_some_iff.mp place
      have isKept := kept before (List.mem_of_getElem? wasThere)
      subst isU
      split
      · exact
          { oneLineName := isKept.oneLineName
            oneLineHash := isKept.oneLineHash
            storable := { isKept.storable with } }
      · exact isKept
  | remove index =>
      intro u member
      exact kept u (List.mem_of_mem_eraseIdx member)

namespace UsersDialog

section Runs

variable {hash : PasswordHash}
variable {cfgUsers : List UserRecord}
variable {dialog : UsersDialog}

/-- An event adds accounts that can be held. -/
theorem keptAccount_edits
    (tidily : HashesTidily hash)
    {event : UsersEvent}
    (fit : NamesFit event)
    {u : UserRecord}
    (member : .append u ∈ dialog.edits hash event) :
    KeptAccount u := by
  unfold edits at member
  split at member
  · cases member
  · cases event with
    | itemChanged item state newSelected oldSelected count =>
        cases member
    | click box =>
        dsimp only at member
        split at member
        · cases List.mem_singleton.mp member
        · cases member
    | add forms =>
        obtain ⟨new, isNew, same⟩ := List.mem_map.mp member
        cases same
        exact keptAccount_added tidily fit (Option.mem_toList.mp isNew)
    | remove confirmed =>
        dsimp only at member
        split at member
        · cases List.mem_singleton.mp member
        · cases member
    | ok => cases member
    | cancel => cases member
    | close => cases member

/-- An event leaves accounts that can be held. -/
theorem keptAccount_step
    (tidily : HashesTidily hash)
    (sound : Sound cfgUsers dialog)
    (kept : ∀ u ∈ dialog.users, KeptAccount u)
    {event : UsersEvent}
    (listed : Listed dialog event)
    (fit : NamesFit event) :
    ∀ u ∈ (dialog.step hash event).users, KeptAccount u := by
  have allowed :
      StepRuns.Allowed AccountEdit.apply
        (fun _ edit => ∀ u, edit = .append u → KeptAccount u)
        dialog.users (dialog.edits hash event) := by
    apply StepRuns.Allowed.of_forall
    rintro edit member - u rfl
    exact keptAccount_edits tidily fit member
  have preserved :
      ∀ users edit,
        (∀ u, edit = .append u → KeptAccount u) →
        (∀ u ∈ users, KeptAccount u) →
        ∀ u ∈ AccountEdit.apply users edit, KeptAccount u :=
    fun _ _ appended kept => keptAccount_apply kept appended
  rw [(sound.step listed).2]
  exact allowed.invariant preserved kept

/-- A run leaves accounts that can be held. -/
theorem keptAccount_run
    (tidily : HashesTidily hash)
    (areDefined : ∀ u ∈ cfgUsers, IsDefined u.rights)
    (kept : ∀ u ∈ cfgUsers, KeptAccount u)
    {events : List UsersEvent}
    (listed : StepRuns.Allowed (step hash) Listed (init cfgUsers) events)
    (fit : ∀ event ∈ events, NamesFit event) :
    ∀ u ∈ (run hash cfgUsers events).users, KeptAccount u := by
  have both :=
    listed.and
      (StepRuns.Allowed.of_forall (fun event member _ => fit event member) _)
  have preserved :
      ∀ dialog event,
        Listed dialog event ∧ NamesFit event →
        (Sound cfgUsers dialog ∧ ∀ u ∈ dialog.users, KeptAccount u) →
        Sound cfgUsers (step hash dialog event) ∧
          ∀ u ∈ (step hash dialog event).users, KeptAccount u := by
    rintro dialog event ⟨isListed, isFit⟩ ⟨sound, kept⟩
    constructor
    · exact (sound.step isListed).1
    · exact keptAccount_step tidily sound kept isListed isFit
  exact (both.invariant preserved ⟨sound_init areDefined, kept⟩).2

end Runs

end UsersDialog

/-! ## From the dialog to the server -/

open UsersDialog in
/--
Whatever the administrator does in the dialog, the server that is restarted and
the one that reads the saved file know the same account of every name: the last
one that the edits leave under it, if the dialog was left with `OK`, and else the
one that was there before.
-/
theorem administration_reaches_server
    (hash : PasswordHash)
    (tidily : HashesTidily hash)
    (tray : TrayApp)
    (loaded : tray.cfgLoaded = true)
    (text : Bytes)
    (isText : tray.cfg = ServerConfig.parse text)
    (events : List UsersEvent)
    (listed :
      StepRuns.Allowed (step hash) Listed (init tray.cfg.users) events)
    (fit : ∀ event ∈ events, NamesFit event)
    (saved : Bool)
    (decoyHash name : Bytes)
    (named : name ≠ []) :
    let cfg :=
      (tray.onUsers (showUsersDialog hash tray.cfg.users events) saved).cfg
    let edited :=
      if (run hash tray.cfg.users events).result = some true then
        StepRuns.run AccountEdit.apply tray.cfg.users
          (StepRuns.history (step hash) (edits hash) (init tray.cfg.users)
            events)
      else
        tray.cfg.users
    (ServerApp.accounts cfg decoyHash).users name = lastAccount edited name ∧
      (ServerApp.accounts (ServerConfig.parse (ServerApp.serialize cfg))
          decoyHash).users name =
        lastAccount edited name := by
  intro cfg edited
  have areDefined : ∀ u ∈ tray.cfg.users, IsDefined u.rights := by
    rw [isText]
    exact fun u member => (keptAccount_text member).2
  have kept : ∀ u ∈ tray.cfg.users, KeptAccount u := by
    rw [isText]
    exact fun u member => (keptAccount_text member).1
  obtain ⟨sound, users⟩ := sound_run areDefined listed
  have isCfg : cfg = { tray.cfg with users := edited } := by
    simp only [cfg, edited, TrayApp.onUsers, loaded, showUsersDialog,
      sound.written, ← users]
    cases (run hash tray.cfg.users events).result with
    | none => rfl
    | some answer =>
        cases answer with
        | false => rfl
        | true => cases saved <;> rfl
  have editedKept : ∀ u ∈ edited, KeptAccount u ∧ IsDefined u.rights := by
    intro u member
    simp only [edited, ← users] at member
    split at member
    · exact
        ⟨keptAccount_run tidily areDefined kept listed fit u member,
          sound.areDefined u member⟩
    · exact ⟨kept u member, areDefined u member⟩
  have produced : ProducedConfig (withoutIncomplete cfg) := by
    have scalars := producedConfig_parse text
    rw [← isText] at scalars
    rw [isCfg]
    refine { scalars with users := ?_ }
    intro u member
    obtain ⟨isEdited, complete⟩ := List.mem_filter.mp member
    obtain ⟨isKept, isDefined⟩ := editedKept u isEdited
    simp only [isComplete, Bool.and_eq_true, Bool.not_eq_true',
      List.isEmpty_eq_false_iff] at complete
    exact
      { named := complete.1
        hashed := complete.2
        oneLineName := isKept.oneLineName
        oneLineHash := isKept.oneLineHash
        isDefined }
  have storable : ∀ u ∈ (withoutIncomplete cfg).users, StorableUser u := by
    rw [isCfg]
    intro u member
    exact (editedKept u (List.mem_of_mem_filter member)).1.storable
  have cfgUsers : cfg.users = edited := by
    rw [isCfg]
  constructor
  · rw [accounts_eq_lastAccount, cfgUsers]
  · rw [accounts_reload produced storable decoyHash named, cfgUsers]

/-- A tray whose configuration has no accounts. -/
def withoutAccounts : TrayApp where
  cfg := ServerConfig.parse []
  cfgLoaded := true

/-- An account is added. -/
def firstAccount : List UsersEvent :=
  [.add [{ name := [98], pass1 := [49], pass2 := [49] }], .ok]

/-- The first account of a server is known after the next start. -/
theorem administration_reaches_server_firstAccount :
    (ServerApp.accounts
        (ServerConfig.parse
          (ServerApp.serialize
            (withoutAccounts.onUsers
              (UsersDialog.showUsersDialog UsersDialog.sameHash
                withoutAccounts.cfg.users firstAccount)
              true).cfg))
        []).users [98] =
      some { username := [98], argon2Hash := [36], rights := R_None } := by
  have tidily : HashesTidily UsersDialog.sameHash := by
    rintro password argon2Hash ⟨⟩
    exact ⟨by simp [Csv.lf], rfl⟩
  have fit : ∀ event ∈ firstAccount, NamesFit event := by
    simp [firstAccount, NamesFit, Csv.lf, equalsSign]
  have reached :=
    administration_reaches_server UsersDialog.sameHash tidily withoutAccounts
      rfl [] rfl firstAccount ⟨trivial, trivial, trivial⟩ fit true [] [98]
      (by simp)
  rw [reached.2]
  rfl

end RadminPro
