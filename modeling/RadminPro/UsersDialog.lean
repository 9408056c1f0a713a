import RadminPro.ConfigRoundTrip
import RadminPro.StepRefinement

namespace RadminPro

open ByteCodec ConfigText

/-!
# The users dialog

The dialog edits a working copy of the accounts.  The checkboxes show the rights
of the selected account, and a click on one of them writes all of them back; what
is shown must therefore be what is stored, whatever happens to the list.
-/

/-! ## Checkboxes -/

/-- The checkboxes of the rights. -/
inductive RightBox where
  | all
  | control
  | view
  | telnet
  | file
  | redirect
  | chat
  | voice
  | msg
  | shutdown
  deriving DecidableEq

/-- The right that a checkbox stands for. -/
def RightBox.bit : RightBox → UInt32
  | .all => R_AllAccess
  | .control => R_RemoteScreenControl
  | .view => R_RemoteScreenView
  | .telnet => R_Telnet
  | .file => R_FileTransfer
  | .redirect => R_Redirect
  | .chat => R_Chat
  | .voice => R_VoiceChat
  | .msg => R_SendMessage
  | .shutdown => R_Shutdown

/-- The checkboxes in the order of the table. -/
def kRightChecks : List RightBox :=
  [.all, .control, .view, .telnet, .file, .redirect, .chat, .voice, .msg,
    .shutdown]

/-- Which checkboxes are checked. -/
abbrev Checks := RightBox → Bool

/-- Check the boxes of some rights. -/
def rightsToChecks (rights : UInt32) : Checks :=
  fun box => rights &&& box.bit != 0

/-- The rights of the boxes that are checked. -/
def checksToRights (boxes : Checks) : UInt32 :=
  kRightChecks.foldl (fun r rc => if boxes rc then r ||| rc.bit else r) 0

namespace RightBox

/-- The place of the bit. -/
def place : RightBox → Nat
  | .all => 0
  | .view => 1
  | .control => 2
  | .file => 3
  | .chat => 4
  | .msg => 5
  | .shutdown => 6
  | .redirect => 7
  | .telnet => 8
  | .voice => 9

theorem mem_kRightChecks (box : RightBox) : box ∈ kRightChecks := by
  cases box <;> decide

theorem bit_eq (box : RightBox) :
    box.bit.toBitVec = BitVec.twoPow 32 box.place := by
  cases box <;> rfl

theorem place_lt (box : RightBox) : box.place < 10 := by
  cases box <;> decide

theorem place_inj {box other : RightBox} (same : box.place = other.place) :
    box = other := by
  cases box <;> cases other <;> first | rfl | cases same

/-- Every defined bit has a checkbox. -/
theorem exists_place {i : Nat} (small : i < 10) :
    ∃ box : RightBox, box.place = i := by
  have each : ∀ i < 10, i ∈ kRightChecks.map place := by
    decide
  obtain ⟨box, -, isPlace⟩ := List.mem_map.mp (each i small)
  exact ⟨box, isPlace⟩

end RightBox

/-- A checkbox shows its bit. -/
theorem rightsToChecks_eq (rights : UInt32) (box : RightBox) :
    rightsToChecks rights box = rights.toBitVec.getLsbD box.place := by
  have masked :
      (rights &&& box.bit).toBitVec =
        if rights.toBitVec.getLsbD box.place then
          box.bit.toBitVec
        else
          0#32 := by
    rw [UInt32.toBitVec_and, box.bit_eq, BitVec.and_twoPow]
  unfold rightsToChecks
  cases isSet : rights.toBitVec.getLsbD box.place with
  | false =>
      rw [isSet] at masked
      have none : rights &&& box.bit = 0 := UInt32.toBitVec_inj.mp masked
      simp [none]
  | true =>
      rw [isSet] at masked
      have bit : rights &&& box.bit = box.bit := UInt32.toBitVec_inj.mp masked
      have nonzero : box.bit ≠ 0 := by
        cases box <;> decide
      simp [bit, nonzero]

/-- Bits that are added one by one. -/
theorem getLsbD_foldl
    (boxes : Checks)
    (table : List RightBox)
    (rights : UInt32)
    (i : Nat) :
    (table.foldl (fun r rc => if boxes rc then r ||| rc.bit else r)
        rights).toBitVec.getLsbD i =
      (rights.toBitVec.getLsbD i ||
        table.any fun rc => boxes rc && decide (rc.place = i)) := by
  induction table generalizing rights with
  | nil =>
      simp
  | cons rc rest inductionHypothesis =>
      rw [List.foldl_cons, inductionHypothesis, List.any_cons]
      cases boxes rc with
      | false => simp
      | true =>
          have inRange : rc.place < 32 := rc.place_lt.trans (by decide)
          simp [rc.bit_eq, BitVec.getLsbD_twoPow, inRange, Bool.or_assoc]

/-- The bits of the boxes that are checked, and no others. -/
theorem getLsbD_checksToRights
    (boxes : Checks)
    (i : Nat) :
    (checksToRights boxes).toBitVec.getLsbD i =
      kRightChecks.any fun rc => boxes rc && decide (rc.place = i) := by
  rw [checksToRights, getLsbD_foldl boxes kRightChecks 0 i]
  simp

/-- The boxes are the bits. -/
theorem rightsToChecks_checksToRights (boxes : Checks) :
    rightsToChecks (checksToRights boxes) = boxes := by
  funext box
  rw [rightsToChecks_eq, getLsbD_checksToRights]
  cases isChecked : boxes box with
  | false =>
      rw [List.any_eq_false]
      intro rc member both
      simp only [Bool.and_eq_true, decide_eq_true_eq] at both
      rw [RightBox.place_inj both.2, isChecked] at both
      cases both.1
  | true =>
      rw [List.any_eq_true]
      exact ⟨box, box.mem_kRightChecks, by simp [isChecked]⟩

/-- A mask of defined rights. -/
def IsDefined (rights : UInt32) : Prop :=
  rights &&& definedRights = rights

/-- Defined rights have no bits but those of the checkboxes. -/
theorem isDefined_iff {rights : UInt32} :
    IsDefined rights ↔ ∀ i, 10 ≤ i → rights.toBitVec.getLsbD i = false := by
  have mask : definedRights.toBitVec = BitVec.ofNat 32 (2 ^ 10 - 1) := by
    decide
  have bits (i : Nat) :
      (rights &&& definedRights).toBitVec.getLsbD i =
        (rights.toBitVec.getLsbD i && decide (i < 10)) := by
    simp only [UInt32.toBitVec_and, mask, BitVec.getLsbD_and,
      BitVec.getLsbD_ofNat, Nat.testBit_two_pow_sub_one]
    by_cases small : i < 10
    · simp [small, small.trans (by decide : 10 < 32)]
    · simp [small]
  constructor
  · intro isDefined i high
    have unset := bits i
    rw [isDefined] at unset
    simpa [Nat.not_lt.mpr high] using unset
  · intro high
    apply UInt32.toBitVec_inj.mp
    apply BitVec.eq_of_getLsbD_eq
    intro i inside
    rw [bits]
    by_cases small : i < 10
    · simp [small]
    · simp [high i (Nat.not_lt.mp small)]

/-- Defined rights are known by their checkboxes. -/
theorem IsDefined.ext
    {rights other : UInt32}
    (isDefined : IsDefined rights)
    (otherDefined : IsDefined other)
    (same : rightsToChecks rights = rightsToChecks other) :
    rights = other := by
  apply UInt32.toBitVec_inj.mp
  apply BitVec.eq_of_getLsbD_eq
  intro i inside
  by_cases small : i < 10
  · obtain ⟨box, rfl⟩ := RightBox.exists_place small
    rw [← rightsToChecks_eq, ← rightsToChecks_eq, same]
  · rw [isDefined_iff.mp isDefined i (Nat.not_lt.mp small),
      isDefined_iff.mp otherDefined i (Nat.not_lt.mp small)]

/-- What the checkboxes say is defined. -/
theorem isDefined_checksToRights (boxes : Checks) :
    IsDefined (checksToRights boxes) := by
  rw [isDefined_iff]
  intro i high
  rw [getLsbD_checksToRights, List.any_eq_false]
  intro rc member both
  simp only [Bool.and_eq_true, decide_eq_true_eq] at both
  exact absurd rc.place_lt (Nat.not_lt.mpr (both.2 ▸ high))

/-- A click on a checkbox that shows its bit changes that bit. -/
theorem checksToRights_click
    {rights : UInt32}
    (isDefined : IsDefined rights)
    (box : RightBox) :
    checksToRights
        (Function.update (rightsToChecks rights) box
          (!rightsToChecks rights box)) =
      rights ^^^ box.bit := by
  apply IsDefined.ext (isDefined_checksToRights _)
  · rw [isDefined_iff] at isDefined ⊢
    intro i high
    have place := box.place_lt
    simp [box.bit_eq, BitVec.getLsbD_twoPow, isDefined i high,
      Nat.ne_of_lt (place.trans_le high)]
  · rw [rightsToChecks_checksToRights]
    funext other
    rw [rightsToChecks_eq (rights ^^^ box.bit)]
    simp only [UInt32.toBitVec_xor, BitVec.getLsbD_xor, box.bit_eq,
      BitVec.getLsbD_twoPow, ← rightsToChecks_eq]
    by_cases same : other = box
    · subst same
      simp [other.place_lt.trans (by decide : 10 < 32)]
    · have apart : box.place ≠ other.place :=
        fun isPlace => same (RightBox.place_inj isPlace).symm
      simp [same, apart]

/-! ## The dialog for a new account -/

/-- What has been typed when `OK` is pressed. -/
structure AddForm where
  name : Bytes
  pass1 : Bytes
  pass2 : Bytes

/-- `PasswordStore::hash`, or what the exception says. -/
abbrev PasswordHash := Bytes → Except Bytes Bytes

/-- `OK` in the dialog for a new account: the account, or what the user is told. -/
def addUserProc (hash : PasswordHash) (form : AddForm) : Except Bytes UserRecord :=
  if form.name.isEmpty then
    .error (ascii "Username cannot be empty.")
  else if form.pass1.isEmpty then
    .error (ascii "Password cannot be empty.")
  else if form.pass1 ≠ form.pass2 then
    .error (ascii "Passwords do not match.")
  else
    match hash form.pass1 with
    | .error what => .error (ascii "hash failed: " ++ what)
    | .ok argon2Hash =>
        .ok { username := form.name, argon2Hash, rights := R_None }

/-- The dialog stays open until an account is made or it is cancelled. -/
def showAddUserDialog (hash : PasswordHash) (forms : List AddForm) :
    Option UserRecord :=
  forms.findSome? fun form => (addUserProc hash form).toOption

/-! ## The dialog for all accounts -/

/-- The dialog: its working copy, its controls, and how it was left. -/
structure UsersDialog where
  cfgUsers : List UserRecord
  users : List UserRecord
  selected : Int := -1
  boxes : Checks := rightsToChecks 0
  enabled : Bool := false
  result : Option Bool := none

/-- What reaches the dialog. -/
inductive UsersEvent where
  | itemChanged (item : Int) (state newSelected oldSelected : Bool) (count : Nat)
  | click (box : RightBox)
  | add (forms : List AddForm)
  | remove (confirmed : Bool)
  | ok
  | cancel
  | close

namespace UsersDialog

/-- `WM_INITDIALOG`. -/
def init (cfgUsers : List UserRecord) : UsersDialog where
  cfgUsers := cfgUsers
  users := cfgUsers

/-- The selected account, if there is one. -/
def current (dialog : UsersDialog) : Option UserRecord :=
  if dialog.selected < 0 then
    none
  else
    dialog.users[dialog.selected.toNat]?

/-- Show the rights of the selected account, if there is one. -/
def showSelected (dialog : UsersDialog) : UsersDialog :=
  match dialog.current with
  | some u => { dialog with enabled := true, boxes := rightsToChecks u.rights }
  | none => dialog

/-- The selection of the list changes. -/
def itemChanged
    (dialog : UsersDialog)
    (item : Int)
    (state newSelected oldSelected : Bool)
    (count : Nat) : UsersDialog :=
  if !state then
    dialog
  else if newSelected then
    showSelected { dialog with selected := item }
  else if oldSelected && count == 0 then
    { dialog with selected := -1, enabled := false, boxes := rightsToChecks 0 }
  else
    dialog

/-- A checkbox that can be clicked changes; then all rights are written back. -/
def click (dialog : UsersDialog) (box : RightBox) : UsersDialog :=
  if !dialog.enabled then
    dialog
  else
    let boxes := Function.update dialog.boxes box (!dialog.boxes box)
    match dialog.current with
    | some u =>
        { dialog with
          boxes
          users :=
            dialog.users.set dialog.selected.toNat
              { u with rights := checksToRights boxes } }
    | none => { dialog with boxes }

/-- A new account is put at the end; what is selected stays. -/
def add
    (hash : PasswordHash)
    (dialog : UsersDialog)
    (forms : List AddForm) : UsersDialog :=
  match showAddUserDialog hash forms with
  | some u => { dialog with users := dialog.users ++ [u] }
  | none => dialog

/-- The selected account is removed, if the user confirms it. -/
def remove (dialog : UsersDialog) (confirmed : Bool) : UsersDialog :=
  match dialog.current with
  | none => dialog
  | some _ =>
      if confirmed then
        { dialog with
          users := dialog.users.eraseIdx dialog.selected.toNat
          selected := -1
          enabled := false
          boxes := rightsToChecks 0 }
      else
        dialog

/-- `usersProc`, until the dialog is left. -/
def step
    (hash : PasswordHash)
    (dialog : UsersDialog)
    (event : UsersEvent) : UsersDialog :=
  if dialog.result.isSome then
    dialog
  else
    match event with
    | .itemChanged item state newSelected oldSelected count =>
        dialog.itemChanged item state newSelected oldSelected count
    | .click box => dialog.click box
    | .add forms => dialog.add hash forms
    | .remove confirmed => dialog.remove confirmed
    | .ok => { dialog with cfgUsers := dialog.users, result := some true }
    | .cancel | .close => { dialog with result := some false }

/-- The dialog after some events. -/
def run
    (hash : PasswordHash)
    (cfgUsers : List UserRecord)
    (events : List UsersEvent) : UsersDialog :=
  StepRuns.run (step hash) (init cfgUsers) events

/-- The accounts in the configuration, if the dialog was left with `OK`. -/
def showUsersDialog
    (hash : PasswordHash)
    (cfgUsers : List UserRecord)
    (events : List UsersEvent) : Option (List UserRecord) :=
  if (run hash cfgUsers events).result = some true then
    some (run hash cfgUsers events).cfgUsers
  else
    none

end UsersDialog

/-! ## What the administrator means -/

/-- An edit of a list of accounts. -/
inductive AccountEdit where
  | append (u : UserRecord)
  | toggle (index : Nat) (bit : UInt32)
  | remove (index : Nat)

/-- The accounts after an edit. -/
def AccountEdit.apply (users : List UserRecord) : AccountEdit → List UserRecord
  | .append u => users ++ [u]
  | .toggle index bit =>
      users.modify index fun u => { u with rights := u.rights ^^^ bit }
  | .remove index => users.eraseIdx index

namespace UsersDialog

/-- What an event means for the accounts that are shown. -/
def edits
    (hash : PasswordHash)
    (dialog : UsersDialog)
    (event : UsersEvent) : List AccountEdit :=
  if dialog.result.isSome then
    []
  else
    match event with
    | .click box =>
        if dialog.enabled && dialog.current.isSome then
          [.toggle dialog.selected.toNat box.bit]
        else
          []
    | .add forms => (showAddUserDialog hash forms).toList.map .append
    | .remove confirmed =>
        if confirmed && dialog.current.isSome then
          [.remove dialog.selected.toNat]
        else
          []
    | _ => []

/-- The list tells of items that it has; it has one for each account. -/
def Listed (dialog : UsersDialog) : UsersEvent → Prop
  | .itemChanged item .. => item < dialog.users.length
  | _ => True

/-- What the boxes show is stored, and nothing is written before `OK`. -/
structure Sound (cfgUsers : List UserRecord) (dialog : UsersDialog) : Prop where
  shown :
    ∀ u, dialog.current = some u → dialog.boxes = rightsToChecks u.rights
  areDefined : ∀ u ∈ dialog.users, IsDefined u.rights
  inRange : dialog.selected < dialog.users.length
  written :
    dialog.cfgUsers =
      if dialog.result = some true then dialog.users else cfgUsers

section Runs

variable {hash : PasswordHash}
variable {cfgUsers : List UserRecord}
variable {dialog : UsersDialog}

/-- Where the selected account stands. -/
theorem current_eq_some {u : UserRecord} :
    dialog.current = some u ↔
      0 ≤ dialog.selected ∧ dialog.users[dialog.selected.toNat]? = some u := by
  unfold current
  split
  · next negative => simp [Int.not_le.mpr negative]
  · next nonneg => simp [Int.not_lt.mp nonneg]

/-- A new account may start no session. -/
theorem showAddUserDialog_rights
    {forms : List AddForm}
    {u : UserRecord}
    (added : showAddUserDialog hash forms = some u) :
    u.rights = R_None := by
  obtain ⟨form, -, isUser⟩ := List.exists_of_findSome?_eq_some added
  unfold addUserProc at isUser
  split at isUser
  · cases isUser
  · split at isUser
    · cases isUser
    · split at isUser
      · cases isUser
      · split at isUser
        · cases isUser
        · cases isUser
          rfl

/-- The dialog opens with nothing selected. -/
theorem sound_init (areDefined : ∀ u ∈ cfgUsers, IsDefined u.rights) :
    Sound cfgUsers (init cfgUsers) where
  shown := by
    intro u isCurrent
    cases isCurrent
  areDefined := areDefined
  inRange := by
    have selected : (init cfgUsers).selected = -1 := rfl
    omega
  written := rfl

/-- Nothing is selected and no box is checked. -/
theorem Sound.deselected
    (sound : Sound cfgUsers dialog)
    (unfinished : dialog.result = none)
    {users : List UserRecord}
    (areDefined : ∀ u ∈ users, IsDefined u.rights)
    (enabled : Bool)
    (boxes : Checks) :
    Sound cfgUsers
      { dialog with users, selected := -1, enabled, boxes } where
  shown := by
    intro u isCurrent
    have negative : (-1 : Int) < 0 := by
      decide
    cases (if_pos negative).symm.trans isCurrent
  areDefined := areDefined
  inRange := by
    change (-1 : Int) < users.length
    omega
  written := by
    simpa [unfinished] using sound.written

/-- Selecting an account shows its rights. -/
theorem Sound.itemChanged
    (sound : Sound cfgUsers dialog)
    (unfinished : dialog.result = none)
    {item : Int}
    (listed : item < dialog.users.length)
    (state newSelected oldSelected : Bool)
    (count : Nat) :
    Sound cfgUsers
      (dialog.itemChanged item state newSelected oldSelected count) := by
  unfold UsersDialog.itemChanged
  split
  · exact sound
  · split
    · unfold showSelected
      split
      · next u isCurrent =>
          exact
            { shown := by
                intro v isCurrentToo
                have same : some u = some v := isCurrent.symm.trans isCurrentToo
                cases same
                rfl
              areDefined := sound.areDefined
              inRange := listed
              written := sound.written }
      · next isNone =>
          exact
            { shown := by
                intro v isCurrent
                cases isNone.symm.trans isCurrent
              areDefined := sound.areDefined
              inRange := listed
              written := sound.written }
    · split
      · exact sound.deselected unfinished sound.areDefined false _
      · exact sound

/-- A click changes the bit of the box that was clicked. -/
theorem Sound.click
    (sound : Sound cfgUsers dialog)
    (unfinished : dialog.result = none)
    (box : RightBox) :
    Sound cfgUsers (dialog.click box) ∧
      (dialog.click box).users =
        if dialog.enabled && dialog.current.isSome then
          AccountEdit.apply dialog.users
            (.toggle dialog.selected.toNat box.bit)
        else
          dialog.users := by
  unfold UsersDialog.click
  cases isEnabled : dialog.enabled with
  | false =>
      exact ⟨sound, rfl⟩
  | true =>
      simp only [Bool.not_true, Bool.false_eq_true, if_false, Bool.true_and]
      cases isCurrent : dialog.current with
      | none =>
          have same :
              ({ dialog with
                  boxes :=
                    Function.update dialog.boxes box
                      (!dialog.boxes box) } : UsersDialog).current =
                none := isCurrent
          constructor
          · exact
              { shown := by
                  intro v isCurrentToo
                  cases same.symm.trans isCurrentToo
                areDefined := sound.areDefined
                inRange := sound.inRange
                written := sound.written }
          · rfl
      | some u =>
          obtain ⟨nonneg, place⟩ := current_eq_some.mp isCurrent
          have inside : dialog.selected.toNat < dialog.users.length :=
            (List.getElem?_eq_some_iff.mp place).1
          have isDefined : IsDefined u.rights :=
            sound.areDefined u (List.mem_of_getElem? place)
          have shown := sound.shown u isCurrent
          constructor
          · exact
              { shown := by
                  intro v isCurrentToo
                  have stored :
                      (dialog.users.set dialog.selected.toNat
                        { u with
                          rights :=
                            checksToRights
                              (Function.update dialog.boxes box
                                (!dialog.boxes box)) })[dialog.selected.toNat]? =
                        some v := (current_eq_some.mp isCurrentToo).2
                  rw [List.getElem?_set_self inside] at stored
                  cases stored
                  exact (rightsToChecks_checksToRights _).symm
                areDefined := by
                  intro v member
                  cases List.mem_or_eq_of_mem_set member with
                  | inl before => exact sound.areDefined v before
                  | inr written =>
                      subst written
                      exact isDefined_checksToRights _
                inRange := by
                  simpa using sound.inRange
                written := by
                  simpa [unfinished] using sound.written }
          · have isBit := checksToRights_click isDefined box
            rw [← shown] at isBit
            simp only [isBit]
            simp [AccountEdit.apply, List.modify_eq_set_getElem?, place]

/-- A new account does not change what is selected. -/
theorem Sound.add
    (sound : Sound cfgUsers dialog)
    (unfinished : dialog.result = none)
    (forms : List AddForm) :
    Sound cfgUsers (dialog.add hash forms) := by
  unfold UsersDialog.add
  split
  · next u added =>
      exact
        { shown := by
            intro v isCurrent
            obtain ⟨nonneg, place⟩ := current_eq_some.mp isCurrent
            have inside : dialog.selected.toNat < dialog.users.length := by
              have inRange := sound.inRange
              change 0 ≤ dialog.selected at nonneg
              omega
            change (dialog.users ++ [u])[dialog.selected.toNat]? = some v at place
            rw [List.getElem?_append_left inside] at place
            exact sound.shown v (current_eq_some.mpr ⟨nonneg, place⟩)
          areDefined := by
            intro v member
            cases List.mem_append.mp member with
            | inl before => exact sound.areDefined v before
            | inr new =>
                rw [List.mem_singleton.mp new, IsDefined,
                  showAddUserDialog_rights added]
                decide
          inRange := by
            have inRange := sound.inRange
            simp only [List.length_append, List.length_singleton]
            omega
          written := by
            simpa [unfinished] using sound.written }
  · exact sound

/-- After an account has been removed nothing is selected. -/
theorem Sound.remove
    (sound : Sound cfgUsers dialog)
    (unfinished : dialog.result = none)
    (confirmed : Bool) :
    Sound cfgUsers (dialog.remove confirmed) := by
  unfold UsersDialog.remove
  split
  · exact sound
  · split
    · apply sound.deselected unfinished
      intro u member
      exact sound.areDefined u (List.mem_of_mem_eraseIdx member)
    · exact sound

/-- Selecting an account changes none. -/
theorem users_itemChanged
    (item : Int)
    (state newSelected oldSelected : Bool)
    (count : Nat) :
    (dialog.itemChanged item state newSelected oldSelected count).users =
      dialog.users := by
  unfold UsersDialog.itemChanged
  split
  · rfl
  · split
    · unfold showSelected
      split
      · rfl
      · rfl
    · split
      · rfl
      · rfl

/-- A new account is put behind the others. -/
theorem users_add (forms : List AddForm) :
    (dialog.add hash forms).users =
      StepRuns.run AccountEdit.apply dialog.users
        ((showAddUserDialog hash forms).toList.map .append) := by
  unfold UsersDialog.add
  cases showAddUserDialog hash forms with
  | none => rfl
  | some u => rfl

/-- The account that is removed is the selected one. -/
theorem users_remove (confirmed : Bool) :
    (dialog.remove confirmed).users =
      if confirmed && dialog.current.isSome then
        AccountEdit.apply dialog.users (.remove dialog.selected.toNat)
      else
        dialog.users := by
  unfold UsersDialog.remove
  cases dialog.current with
  | none => simp
  | some u =>
      cases confirmed with
      | false => rfl
      | true => rfl

/-- What an event does is what it means for the accounts that are shown. -/
theorem Sound.step
    (sound : Sound cfgUsers dialog)
    {event : UsersEvent}
    (listed : Listed dialog event) :
    Sound cfgUsers (dialog.step hash event) ∧
      (dialog.step hash event).users =
        StepRuns.run AccountEdit.apply dialog.users
          (dialog.edits hash event) := by
  unfold UsersDialog.step edits
  cases isResult : dialog.result with
  | some saved =>
      exact ⟨sound, rfl⟩
  | none =>
      simp only [Option.isSome_none, Bool.false_eq_true, if_false]
      cases event with
      | itemChanged item state newSelected oldSelected count =>
          constructor
          · exact
              sound.itemChanged isResult listed state newSelected oldSelected
                count
          · exact users_itemChanged item state newSelected oldSelected count
      | click box =>
          obtain ⟨stillSound, users⟩ := sound.click isResult box
          refine ⟨stillSound, ?_⟩
          dsimp only
          rw [users]
          split
          · rfl
          · rfl
      | add forms =>
          exact ⟨sound.add isResult forms, users_add forms⟩
      | remove confirmed =>
          refine ⟨sound.remove isResult confirmed, ?_⟩
          dsimp only
          rw [users_remove]
          split
          · rfl
          · rfl
      | ok =>
          refine ⟨?_, rfl⟩
          exact
            { shown := sound.shown
              areDefined := sound.areDefined
              inRange := sound.inRange
              written := rfl }
      | cancel =>
          refine ⟨?_, rfl⟩
          exact
            { shown := sound.shown
              areDefined := sound.areDefined
              inRange := sound.inRange
              written := by
                simpa [isResult] using sound.written }
      | close =>
          refine ⟨?_, rfl⟩
          exact
            { shown := sound.shown
              areDefined := sound.areDefined
              inRange := sound.inRange
              written := by
                simpa [isResult] using sound.written }

/-- A run keeps what is shown true, and does what its events mean. -/
theorem sound_run
    (areDefined : ∀ u ∈ cfgUsers, IsDefined u.rights)
    {events : List UsersEvent}
    (listed :
      StepRuns.Allowed (step hash) Listed (init cfgUsers) events) :
    Sound cfgUsers (run hash cfgUsers events) ∧
      (run hash cfgUsers events).users =
        StepRuns.run AccountEdit.apply cfgUsers
          (StepRuns.history (step hash) (edits hash) (init cfgUsers)
            events) := by
  have mirrored :
      ∀ dialog event,
        Sound cfgUsers dialog →
        Listed dialog event →
        Sound cfgUsers (step hash dialog event) ∧
          (step hash dialog event).users =
            StepRuns.run AccountEdit.apply dialog.users
              (edits hash dialog event) :=
    fun _ _ sound isListed => sound.step isListed
  exact StepRuns.mirrors_run mirrored (sound_init areDefined) listed

end Runs

/--
Whatever is clicked, the accounts are those that were there before with the edits
that the clicks mean: a click on a checkbox changes its right of the selected
account and no other.  The boxes show the rights of the selected account, and the
configuration gets the accounts when the dialog is left with `OK` and only then.
-/
theorem users_dialog_edits
    (hash : PasswordHash)
    (cfgUsers : List UserRecord)
    (areDefined : ∀ u ∈ cfgUsers, IsDefined u.rights)
    (events : List UsersEvent)
    (listed :
      StepRuns.Allowed (step hash) Listed (init cfgUsers) events) :
    (run hash cfgUsers events).users =
        StepRuns.run AccountEdit.apply cfgUsers
          (StepRuns.history (step hash) (edits hash) (init cfgUsers) events) ∧
      (∀ u,
        (run hash cfgUsers events).current = some u →
        ∀ box,
          (run hash cfgUsers events).boxes box = (u.rights &&& box.bit != 0)) ∧
      (run hash cfgUsers events).cfgUsers =
        if (run hash cfgUsers events).result = some true then
          (run hash cfgUsers events).users
        else
          cfgUsers := by
  obtain ⟨sound, users⟩ := sound_run areDefined listed
  refine ⟨users, ?_, sound.written⟩
  intro u isCurrent box
  rw [sound.shown u isCurrent]
  rfl

/-- A hash that is the same for every password. -/
def sameHash : PasswordHash :=
  fun _ => .ok [36]

/-- An account is selected and may view, another one is added. -/
def grantView : List UsersEvent :=
  [.itemChanged 0 true true false 1, .click .view,
    .add [{ name := [98], pass1 := [49], pass2 := [50] },
      { name := [98], pass1 := [49], pass2 := [49] }], .ok]

/-- The first account may view, the one that was added may do nothing. -/
theorem users_dialog_edits_grantView :
    (run sameHash [{ username := [97], argon2Hash := [48], rights := R_None }]
        grantView).users =
      [{ username := [97], argon2Hash := [48], rights := R_RemoteScreenView },
        { username := [98], argon2Hash := [36], rights := R_None }] :=
  (users_dialog_edits sameHash
    [{ username := [97], argon2Hash := [48], rights := R_None }]
    (List.forall_mem_singleton.mpr rfl) grantView
    ⟨Int.zero_lt_one, trivial, trivial, trivial, trivial⟩).1.trans rfl

end UsersDialog

end RadminPro
