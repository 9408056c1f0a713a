import RadminPro.LoginHistory
import RadminPro.TwoRuns

namespace RadminPro

open ByteCodec

/-!
# Usernames are not enumerable

Two managers with different accounts are driven by the same interleaved calls.
As long as no password fits an account of either, their lockouts move in
lockstep: what the calls return and which of them verify a password is the
same, whatever the decoy hash matches.
-/

/-- What can be seen of the calls from outside. -/
inductive LoginSight where
  | verifies (call : Nat)
  | returns (call : Nat) (outcome : AuthOutcome)
  deriving DecidableEq

namespace LoginSystem

/-- What a section shows that takes a call from one phase to the next. -/
def phaseSights (index : Nat) : CallPhase → CallPhase → List LoginSight
  | .checked .., _ => [.verifies index]
  | .returned _, _ => []
  | .entered, .returned outcome => [.returns index outcome]
  | .verified .., .returned outcome => [.returns index outcome]
  | _, _ => []

/-- What a step shows. -/
def sights
    (argon2idVerify : Bytes → Bytes → Bool)
    (system : LoginSystem) : LoginAction → List LoginSight
  | .tick _ | .enter .. => []
  | .advance index =>
      match system.calls[index]? with
      | none => []
      | some call =>
          phaseSights index call.phase
            (call.advance argon2idVerify system.sec).1.phase

/-- Everything seen of a run. -/
def seen
    (argon2idVerify : Bytes → Bytes → Bool)
    (system : LoginSystem)
    (actions : List LoginAction) : List LoginSight :=
  TwoRuns.seen (step argon2idVerify) (sights argon2idVerify) system actions

/-- The password fits no account of that name. -/
def Hopeless
    (argon2idVerify : Bytes → Bytes → Bool)
    (users : Bytes → Option UserRecord)
    (username password : Bytes) : Prop :=
  ∀ record, users username = some record →
    PasswordStore.verify argon2idVerify password record.argon2Hash = false

variable {argon2idVerify : Bytes → Bytes → Bool}

/-! ## The relation between the two runs -/

/-- Two phases that look the same and lead to the same answers. -/
inductive PhasesAlike
    (argon2idVerify : Bytes → Bytes → Bool)
    (password : Bytes) : CallPhase → CallPhase → Prop where
  | entered : PhasesAlike argon2idVerify password .entered .entered
  | checked
      {known known' : Bool}
      {hashToCheck hashToCheck' : Bytes}
      (rights rights' : UInt32)
      (refused :
        (known && PasswordStore.verify argon2idVerify password hashToCheck) =
          false)
      (refused' :
        (known' && PasswordStore.verify argon2idVerify password hashToCheck') =
          false) :
      PhasesAlike argon2idVerify password
        (.checked known hashToCheck rights)
        (.checked known' hashToCheck' rights')
  | verified (rights rights' : UInt32) :
      PhasesAlike argon2idVerify password
        (.verified false rights) (.verified false rights')
  | returned (outcome : AuthOutcome) :
      PhasesAlike argon2idVerify password
        (.returned outcome) (.returned outcome)

/-- Alike phases show the same. -/
theorem PhasesAlike.sights
    {password password' : Bytes}
    {before before' after after' : CallPhase}
    (alikeBefore : PhasesAlike argon2idVerify password before before')
    (alikeAfter : PhasesAlike argon2idVerify password' after after')
    (index : Nat) :
    phaseSights index before after = phaseSights index before' after' := by
  cases alikeBefore <;> cases alikeAfter <;> rfl

/-- Two calls of the same login, hopeless on either side. -/
structure CallsAlike
    (argon2idVerify : Bytes → Bytes → Bool)
    (users users' : Bytes → Option UserRecord)
    (call call' : AuthCall) : Prop where
  username : call'.username = call.username
  password : call'.password = call.password
  now : call'.now = call.now
  phases : PhasesAlike argon2idVerify call.password call.phase call'.phase
  hopeless : Hopeless argon2idVerify users call.username call.password
  hopeless' : Hopeless argon2idVerify users' call.username call.password

/-- Two managers that differ in their accounts and their decoy only. -/
structure ManagersAlike
    (users users' : Bytes → Option UserRecord)
    (sec sec' : SecurityManager) : Prop where
  policy : sec'.policy = sec.policy
  lockouts : sec'.lockouts = sec.lockouts
  users : sec.users = users
  users' : sec'.users = users'

/-- Two systems that have seen the same calls. -/
structure SystemsAlike
    (argon2idVerify : Bytes → Bytes → Bool)
    (users users' : Bytes → Option UserRecord)
    (system system' : LoginSystem) : Prop where
  clock : system'.clock = system.clock
  managers : ManagersAlike users users' system.sec system'.sec
  calls :
    List.Forall₂ (CallsAlike argon2idVerify users users')
      system.calls system'.calls

/-! ## The two sections in lockstep -/

variable {users users' : Bytes → Option UserRecord}
variable {sec sec' : SecurityManager}

/-- Testing the lock gives the same answer and keeps the managers alike. -/
theorem ManagersAlike.isLocked
    (alike : ManagersAlike users users' sec sec')
    (user : Bytes)
    (now : Int) :
    (sec'.isLocked user now).1 = (sec.isLocked user now).1 ∧
      ManagersAlike users users' (sec.isLocked user now).2
        (sec'.isLocked user now).2 := by
  obtain ⟨policy, lockouts, rfl, rfl⟩ := alike
  unfold SecurityManager.isLocked
  rw [lockouts, policy]
  cases sec.lockouts user with
  | none =>
      exact ⟨rfl, policy, lockouts, rfl, rfl⟩
  | some lk =>
      by_cases ahead : lk.lockedUntil > now
      · simp only [if_pos ahead]
        exact ⟨trivial, policy, lockouts, rfl, rfl⟩
      · simp only [if_neg ahead]
        exact ⟨trivial, rfl, rfl, rfl, rfl⟩

/-- Recording a failure keeps the managers alike. -/
theorem ManagersAlike.recordFailure
    (alike : ManagersAlike users users' sec sec')
    (user : Bytes)
    (now : Int) :
    ManagersAlike users users' (sec.recordFailure user now)
      (sec'.recordFailure user now) where
  policy := alike.policy
  lockouts := by
    simp [SecurityManager.recordFailure, alike.lockouts, alike.policy]
  users := alike.users
  users' := alike.users'

/-- What the lock check hands on never verifies a hopeless password. -/
theorem checkSection_refused
    {username password : Bytes}
    {now : Int}
    (hopeless : Hopeless argon2idVerify sec.users username password)
    (passed : (sec.isLocked username now).1 = false) :
    ∃ known hashToCheck rights,
      sec.checkSection username now =
          (.proceed known hashToCheck rights, (sec.isLocked username now).2) ∧
        (known && PasswordStore.verify argon2idVerify password hashToCheck) =
          false := by
  have unlocked : ¬sec.Locked username now :=
    SecurityManager.isLocked_iff.not.mp (by simp [passed])
  have sameUsers := (SecurityManager.isLocked_records unlocked).users
  unfold SecurityManager.checkSection
  cases check : sec.isLocked username now with
  | mk locked checkedSec =>
      rw [check] at passed sameUsers
      simp only at passed sameUsers
      subst passed
      simp only [sameUsers]
      cases account : sec.users username with
      | none =>
          exact ⟨false, _, _, rfl, Bool.false_and _⟩
      | some record =>
          exact ⟨true, _, _, rfl, hopeless record account⟩

/-- A locked account is refused by the first section. -/
theorem checkSection_locked
    {username : Bytes}
    {now : Int}
    (locked : (sec.isLocked username now).1 = true) :
    sec.checkSection username now = (.lockedOut, sec) := by
  have kept := SecurityManager.isLocked_true locked
  unfold SecurityManager.checkSection
  cases check : sec.isLocked username now with
  | mk isLocked checkedSec =>
      rw [check] at locked kept
      simp only at locked kept
      subst locked kept
      rfl

/-- What the next section of a call comes to in two alike systems. -/
structure StepsAlike
    (argon2idVerify : Bytes → Bytes → Bool)
    (users users' : Bytes → Option UserRecord)
    (sec sec' : SecurityManager)
    (call call' : AuthCall) : Prop where
  calls :
    CallsAlike argon2idVerify users users'
      (call.advance argon2idVerify sec).1 (call'.advance argon2idVerify sec').1
  managers :
    ManagersAlike users users'
      (call.advance argon2idVerify sec).2.1
      (call'.advance argon2idVerify sec').2.1

/-- The next section of alike calls keeps everything alike. -/
theorem CallsAlike.advance
    {call call' : AuthCall}
    (calls : CallsAlike argon2idVerify users users' call call')
    (managers : ManagersAlike users users' sec sec') :
    StepsAlike argon2idVerify users users' sec sec' call call' := by
  obtain ⟨username, password, now, phase⟩ := call
  obtain ⟨username', password', now', phase'⟩ := call'
  obtain ⟨rfl, rfl, rfl, phases, hopeless, hopeless'⟩ := calls
  cases phases with
  | entered =>
      obtain ⟨sameLock, checked⟩ := managers.isLocked username' now'
      cases lock : (sec.isLocked username' now').1 with
      | true =>
          have refused := checkSection_locked lock
          have refused' := checkSection_locked (sameLock.trans lock)
          constructor
          · simp only [AuthCall.advance, refused, refused']
            exact ⟨rfl, rfl, rfl, .returned _, hopeless, hopeless'⟩
          · simp only [AuthCall.advance, refused, refused']
            exact managers
      | false =>
          obtain ⟨known, hash, rights, passed, fails⟩ :=
            checkSection_refused (by rw [managers.users]; exact hopeless) lock
          obtain ⟨known', hash', rights', passed', fails'⟩ :=
            checkSection_refused (by rw [managers.users']; exact hopeless')
              (sameLock.trans lock)
          constructor
          · simp only [AuthCall.advance, passed, passed']
            exact ⟨rfl, rfl, rfl, .checked rights rights' fails fails',
              hopeless, hopeless'⟩
          · simp only [AuthCall.advance, passed, passed']
            exact checked
  | checked rights rights' fails fails' =>
      constructor
      · simp only [AuthCall.advance, fails, fails']
        exact ⟨rfl, rfl, rfl, .verified rights rights', hopeless, hopeless'⟩
      · exact managers
  | verified rights rights' =>
      constructor
      · simp only [AuthCall.advance, SecurityManager.recordSection]
        exact ⟨rfl, rfl, rfl, .returned _, hopeless, hopeless'⟩
      · exact managers.recordFailure username' now'
  | returned outcome =>
      constructor
      · exact ⟨rfl, rfl, rfl, .returned outcome, hopeless, hopeless'⟩
      · exact managers

/-! ## The whole system in lockstep -/

/-- A login that is entered fits no account of either manager. -/
def EntersHopeless
    (argon2idVerify : Bytes → Bytes → Bool)
    (users users' : Bytes → Option UserRecord) : LoginAction → Prop
  | .enter username password =>
      Hopeless argon2idVerify users username password ∧
        Hopeless argon2idVerify users' username password
  | .tick _ | .advance _ => True

/-- Related lists have related entries at every place. -/
theorem forall₂_getElem?
    {α β : Type}
    {related : α → β → Prop}
    {first : List α}
    {second : List β}
    (relatedLists : List.Forall₂ related first second)
    (index : Nat) :
    (first[index]? = none ∧ second[index]? = none) ∨
      ∃ left right,
        first[index]? = some left ∧ second[index]? = some right ∧
          related left right := by
  induction relatedLists generalizing index with
  | nil =>
      exact .inl ⟨rfl, rfl⟩
  | cons head tail inductionHypothesis =>
      cases index with
      | zero => exact .inr ⟨_, _, rfl, rfl, head⟩
      | succ index => simpa using inductionHypothesis index

/-- Replacing related entries keeps lists related. -/
theorem forall₂_set
    {α β : Type}
    {related : α → β → Prop}
    {first : List α}
    {second : List β}
    (relatedLists : List.Forall₂ related first second)
    {left : α}
    {right : β}
    (relatedNew : related left right)
    (index : Nat) :
    List.Forall₂ related (first.set index left) (second.set index right) := by
  induction relatedLists generalizing index with
  | nil =>
      exact .nil
  | cons head tail inductionHypothesis =>
      cases index with
      | zero => exact .cons relatedNew tail
      | succ index => exact .cons head (inductionHypothesis index)

variable {system system' : LoginSystem}

/-- A hopeless step keeps the systems alike. -/
theorem SystemsAlike.step
    (alike : SystemsAlike argon2idVerify users users' system system')
    {action : LoginAction}
    (hopeless : EntersHopeless argon2idVerify users users' action) :
    SystemsAlike argon2idVerify users users'
      (system.step argon2idVerify action)
      (system'.step argon2idVerify action) := by
  cases action with
  | tick elapsed =>
      refine ⟨?_, alike.managers, alike.calls⟩
      simp only [LoginSystem.step, alike.clock]
  | enter username password =>
      refine ⟨alike.clock, alike.managers, ?_⟩
      apply List.rel_append alike.calls
      refine .cons ⟨rfl, rfl, alike.clock, .entered, ?_, ?_⟩ .nil
      · exact hopeless.1
      · exact hopeless.2
  | advance index =>
      rcases forall₂_getElem? alike.calls index
        with ⟨absent, absent'⟩ | ⟨call, call', found, found', calls⟩
      · simp only [LoginSystem.step, absent, absent']
        exact alike
      · have steps := calls.advance alike.managers
        simp only [LoginSystem.step, found, found']
        exact ⟨alike.clock, steps.managers,
          forall₂_set alike.calls steps.calls index⟩

/-- Alike systems show the same. -/
theorem SystemsAlike.sights
    (alike : SystemsAlike argon2idVerify users users' system system')
    (action : LoginAction) :
    LoginSystem.sights argon2idVerify system action =
      LoginSystem.sights argon2idVerify system' action := by
  cases action with
  | tick elapsed => rfl
  | enter username password => rfl
  | advance index =>
      rcases forall₂_getElem? alike.calls index
        with ⟨absent, absent'⟩ | ⟨call, call', found, found', calls⟩
      · simp only [LoginSystem.sights, absent, absent']
      · have steps := (calls.advance alike.managers).calls.phases
        simp only [LoginSystem.sights, found, found']
        exact calls.phases.sights steps index

/-- Managers that no call has reached yet. -/
theorem SystemsAlike.start
    (samePolicy : sec'.policy = sec.policy)
    (sameLockouts : sec'.lockouts = sec.lockouts)
    (clock : Int) :
    SystemsAlike argon2idVerify sec.users sec'.users
      { clock := clock, sec := sec } { clock := clock, sec := sec' } where
  clock := rfl
  managers := ⟨samePolicy, sameLockouts, rfl, rfl⟩
  calls := .nil

/--
Two managers of the same policy and lockouts answer every interleaving of calls
alike, verify on the same calls and lock the same accounts, as long as no
password supplied fits an account of either.
-/
theorem usernames_not_enumerable
    (argon2idVerify : Bytes → Bytes → Bool)
    (sec sec' : SecurityManager)
    (samePolicy : sec'.policy = sec.policy)
    (sameLockouts : sec'.lockouts = sec.lockouts)
    (clock : Int)
    (actions : List LoginAction)
    (hopeless :
      ∀ username password,
        .enter username password ∈ actions →
        Hopeless argon2idVerify sec.users username password ∧
          Hopeless argon2idVerify sec'.users username password) :
    seen argon2idVerify { clock := clock, sec := sec } actions =
        seen argon2idVerify { clock := clock, sec := sec' } actions ∧
      (StepRuns.run (step argon2idVerify) { clock := clock, sec := sec' }
          actions).sec.lockouts =
        (StepRuns.run (step argon2idVerify) { clock := clock, sec := sec }
          actions).sec.lockouts := by
  have permitted :
      ∀ action ∈ actions,
        EntersHopeless argon2idVerify sec.users sec'.users action := by
    intro action member
    cases action with
    | tick elapsed => trivial
    | enter username password => exact hopeless username password member
    | advance index => trivial
  have sameSights :
      ∀ (first second : LoginSystem) (action : LoginAction),
        EntersHopeless argon2idVerify sec.users sec'.users action →
        SystemsAlike argon2idVerify sec.users sec'.users first second →
        sights argon2idVerify first action =
          sights argon2idVerify second action :=
    fun _ _ action _ alike => alike.sights action
  have staysAlike :
      ∀ (first second : LoginSystem) (action : LoginAction),
        EntersHopeless argon2idVerify sec.users sec'.users action →
        SystemsAlike argon2idVerify sec.users sec'.users first second →
        SystemsAlike argon2idVerify sec.users sec'.users
          (step argon2idVerify first action)
          (step argon2idVerify second action) :=
    fun _ _ _ hopeless alike => alike.step hopeless
  obtain ⟨same, alike⟩ :=
    TwoRuns.seen_eq sameSights staysAlike
      (SystemsAlike.start samePolicy sameLockouts clock) permitted
  exact ⟨same, alike.managers.lockouts⟩

/-- A manager with one account, whose password is its hash. -/
def oneAccount : SecurityManager :=
  SecurityManager.addUser { decoyHash := ascii "decoy" }
    { username := ascii "ann", argon2Hash := ascii "secret" }

/-- Two guesses in flight together, one of which matches the decoy hash. -/
def twoGuesses : List LoginAction :=
  [.enter (ascii "ann") (ascii "decoy"), .enter (ascii "bob") (ascii "decoy"),
    .advance 0, .advance 1, .advance 1, .advance 0, .tick 1, .advance 0,
    .advance 1]

theorem usernames_not_enumerable_decoy :
    seen (fun encoded password => encoded = password)
        { clock := 0, sec := oneAccount } twoGuesses =
      seen (fun encoded password => encoded = password)
        { clock := 0, sec := { decoyHash := ascii "decoy" } } twoGuesses := by
  refine (usernames_not_enumerable (fun encoded password => encoded = password)
    oneAccount { decoyHash := ascii "decoy" } rfl rfl 0 twoGuesses ?_).1
  intro username password member
  obtain ⟨isUser, rfl⟩ :
      (username = ascii "ann" ∨ username = ascii "bob") ∧
        password = ascii "decoy" := by
    simpa [twoGuesses, ← or_and_right] using member
  rcases isUser with rfl | rfl
  · constructor
    · intro record account
      cases account
      decide
    · intro record account
      cases account
  · constructor
    · intro record account
      cases account
    · intro record account
      cases account

end LoginSystem

end RadminPro
