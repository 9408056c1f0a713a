import RadminPro.SecurityManager
import RadminPro.StepRuns
import Mathlib.Data.List.Count

namespace RadminPro

open ByteCodec

/-!
# Concurrent logins

Every session thread calls `authenticate` on the one `SecurityManager`.  A call
reads the clock when it is entered; its two critical sections and the
verification between them interleave freely with those of the other calls.
-/

/-- Where a call of `authenticate` stands. -/
inductive CallPhase where
  | entered
  | checked (known : Bool) (hashToCheck : Bytes) (rights : UInt32)
  | verified (ok : Bool) (rights : UInt32)
  | returned (outcome : AuthOutcome)
  deriving DecidableEq

/-- One call of `authenticate`, with the time it read when it was entered. -/
structure AuthCall where
  username : Bytes
  password : Bytes
  now : Int
  phase : CallPhase := .entered
  deriving DecidableEq

/-- What the calls did, in the order in which they did it. -/
inductive AuthEvent where
  | admitted (username : Bytes) (now : Int)
  | verified (username : Bytes) (ok : Bool)
  | accepted (username : Bytes)
  | lockSet (username : Bytes) (lockedUntil : Int)
  deriving DecidableEq

namespace AuthCall

/-- The call is between its two critical sections. -/
def inFlight (call : AuthCall) : Bool :=
  match call.phase with
  | .checked .. | .verified .. => true
  | .entered | .returned _ => false

/-- The call has verified a wrong password and not yet recorded it. -/
def pendingWrong (call : AuthCall) : Bool :=
  match call.phase with
  | .verified ok _ => !ok
  | .entered | .checked .. | .returned _ => false

/-- The lock that a failure recorded now would set. -/
def lockAfter (sec : SecurityManager) (username : Bytes) : Option Int :=
  (sec.lockouts username).bind fun lk =>
    if lk.failures ≥ sec.policy.maxFailedAttempts then
      some lk.lockedUntil
    else
      none

/-- The next section of a call. -/
def advance
    (argon2idVerify : Bytes → Bytes → Bool)
    (sec : SecurityManager)
    (call : AuthCall) : AuthCall × SecurityManager × List AuthEvent :=
  match call.phase with
  | .entered =>
      match sec.checkSection call.username call.now with
      | (.lockedOut, sec) =>
          ({ call with phase := .returned ⟨.known .lockedOut, R_None⟩ },
            sec, [])
      | (.proceed known hashToCheck rights, sec) =>
          ({ call with phase := .checked known hashToCheck rights },
            sec, [.admitted call.username call.now])
  | .checked known hashToCheck rights =>
      let passOk :=
        PasswordStore.verify argon2idVerify call.password hashToCheck
      ({ call with phase := .verified (known && passOk) rights },
        sec, [.verified call.username (known && passOk)])
  | .verified ok rights =>
      match sec.recordSection call.username call.now ok rights with
      | (outcome, sec) =>
          ({ call with phase := .returned outcome }, sec,
            if ok then
              [.accepted call.username]
            else
              (lockAfter sec call.username).toList.map
                (.lockSet call.username ·))
  | .returned _ => (call, sec, [])

end AuthCall

/-- The clock, the shared manager, every call made so far and its events. -/
structure LoginSystem where
  clock : Int
  sec : SecurityManager
  calls : List AuthCall := []
  history : List AuthEvent := []

/-- What may happen next. -/
inductive LoginAction where
  | tick (elapsed : Nat)
  | enter (username password : Bytes)
  | advance (call : Nat)
  deriving DecidableEq

namespace LoginSystem

/-- One step of the system; a call that does not exist does nothing. -/
def step
    (argon2idVerify : Bytes → Bytes → Bool)
    (system : LoginSystem) : LoginAction → LoginSystem
  | .tick elapsed => { system with clock := system.clock + elapsed }
  | .enter username password =>
      { system with
        calls := system.calls ++ [{ username, password, now := system.clock }] }
  | .advance index =>
      match system.calls[index]? with
      | none => system
      | some call =>
          match call.advance argon2idVerify system.sec with
          | (call, sec, events) =>
              { system with
                sec := sec
                calls := system.calls.set index call
                history := system.history ++ events }

/-- The failures on record for a user. -/
def failures (sec : SecurityManager) (user : Bytes) : Nat :=
  ((sec.lockouts user).getD {}).failures.toNat

/-- The calls of a user that are between their two sections. -/
def inFlight (user : Bytes) (calls : List AuthCall) : Nat :=
  calls.countP fun call => call.username = user ∧ call.inFlight

/-- The wrong passwords of a user that are verified and not yet recorded. -/
def pendingWrong (user : Bytes) (calls : List AuthCall) : Nat :=
  calls.countP fun call => call.username = user ∧ call.pendingWrong

end LoginSystem

/--
The streak of guesses against a user: the wrong passwords verified since its
last success, the end of a window of failures or a lock that took hold, and the
first failure recorded in it.  A password that is still to be recorded when a
streak ends belongs to the next one.
-/
structure Streak where
  guesses : Nat := 0
  firstFailure : Option Int := none
  deriving DecidableEq

namespace Streak

/-- No failure of the streak has been recorded within the window before `now`. -/
def Over (policy : Policy) (streak : Streak) (now : Int) : Prop :=
  ∀ first ∈ streak.firstFailure, now - first > policy.lockoutWindow

instance (policy : Policy) (streak : Streak) (now : Int) :
    Decidable (streak.Over policy now) :=
  inferInstanceAs
    (Decidable (∀ first ∈ streak.firstFailure,
      now - first > policy.lockoutWindow))

/-- The streak after a lock check at `now` that let a call through. -/
def checked
    (policy : Policy)
    (waiting : Nat)
    (now : Int)
    (streak : Streak) : Streak :=
  if streak.Over policy now then
    { guesses := waiting }
  else
    streak

/-- The streak after a wrong password has been verified. -/
def guessed (streak : Streak) : Streak :=
  { streak with guesses := streak.guesses + 1 }

/-- The streak after a failure of a call made at `now` has been recorded. -/
def failed
    (policy : Policy)
    (waiting : Nat)
    (now : Int)
    (streak : Streak) : Streak :=
  if streak.Over policy now then
    { guesses := waiting + 1, firstFailure := some now }
  else
    streak

/-- The streak after a lock has been set; one that is over already ends nothing. -/
def locked
    (clock : Int)
    (waiting : Nat)
    (lock : Option Int)
    (streak : Streak) : Streak :=
  if ∃ lockedUntil ∈ lock, clock < lockedUntil then
    { guesses := waiting }
  else
    streak

/-- The streak after a section of one of the user's calls. -/
def afterSection
    (user : Bytes)
    (before after : LoginSystem)
    (call next : AuthCall)
    (streak : Streak) : Streak :=
  let waiting := LoginSystem.pendingWrong user after.calls
  match call.phase, next.phase with
  | .entered, .checked .. =>
      streak.checked before.sec.policy waiting call.now
  | .checked .., .verified false _ =>
      streak.guessed
  | .verified true _, .returned _ =>
      { guesses := waiting }
  | .verified false _, .returned _ =>
      (streak.failed before.sec.policy waiting call.now).locked before.clock
        waiting (AuthCall.lockAfter after.sec user)
  | _, _ => streak

/-- What an action does to the streak against a user. -/
def observe
    (argon2idVerify : Bytes → Bytes → Bool)
    (user : Bytes)
    (system : LoginSystem)
    (action : LoginAction)
    (streak : Streak) : Streak :=
  match action with
  | .advance index =>
      match system.calls[index]? with
      | none => streak
      | some call =>
          if call.username = user then
            streak.afterSection user system
              (system.step argon2idVerify action) call
              (call.advance argon2idVerify system.sec).1
          else
            streak
  | .tick _ | .enter .. => streak

/-- A streak without a recorded failure has no window left. -/
theorem over_of_none
    {streak : Streak}
    (window : streak.firstFailure = none)
    (policy : Policy)
    (now : Int) :
    streak.Over policy now := by
  simp [Over, window]

/-- A lock that is still ahead ends the streak. -/
theorem locked_some
    {clock lockedUntil : Int}
    (streak : Streak)
    (waiting : Nat)
    (ahead : clock < lockedUntil) :
    streak.locked clock waiting (some lockedUntil) = { guesses := waiting } :=
  if_pos ⟨lockedUntil, rfl, ahead⟩

@[simp] theorem locked_none
    (clock : Int)
    (waiting : Nat)
    (streak : Streak) :
    streak.locked clock waiting none = streak := by
  simp [locked]

end Streak

namespace LoginSystem

/-- The streak that a run leaves behind, counted from its first step. -/
def streakAfter
    (argon2idVerify : Bytes → Bytes → Bool)
    (user : Bytes)
    (system : LoginSystem)
    (actions : List LoginAction) : Streak :=
  (StepRuns.run
    (StepRuns.watched (step argon2idVerify) (Streak.observe argon2idVerify user))
    (system, {}) actions).2

/--
At most `maxFailedAttempts` wrong passwords are verified in a streak, and a lock
that was set stands until it runs out.
-/
structure BruteForceBound
    (user : Bytes)
    (system : LoginSystem)
    (streak : Streak) : Prop where
  bounded : streak.guesses ≤ system.sec.policy.maxFailedAttempts.toNat
  lockStands :
    ∀ lockedUntil,
      .lockSet user lockedUntil ∈ system.history →
      system.clock < lockedUntil →
      ∃ lk,
        system.sec.lockouts user = some lk ∧ lockedUntil ≤ lk.lockedUntil

/-- Nobody has called yet and nothing is on record for the user. -/
structure Fresh (user : Bytes) (system : LoginSystem) : Prop where
  history : system.history = []
  calls : system.calls = []
  lockouts : system.sec.lockouts user = none

/-- The failures on record that still count for a call made at `now`. -/
def standing (sec : SecurityManager) (user : Bytes) (now : Int) : Nat :=
  (((sec.lockouts user).getD {}).expire sec.policy now).failures.toNat

/--
A section of a call keeps the guesses against its user bounded.  A call is let
through its lock check only when no other one is in flight, or when the failures
that count and the calls in flight together stay below the limit.  A failure
that reaches the limit is recorded while the lock it sets is still ahead, and
the 32-bit counter of failures does not wrap.
-/
structure LeavesRoomFor
    (user : Bytes)
    (system : LoginSystem)
    (call : AuthCall) : Prop where
  admission :
    call.phase = .entered →
    (system.sec.isLocked user call.now).1 = false →
    inFlight user system.calls = 0 ∨
      standing system.sec user call.now + inFlight user system.calls <
        system.sec.policy.maxFailedAttempts.toNat
  inTime :
    call.pendingWrong = true →
    system.sec.policy.maxFailedAttempts.toNat ≤
      standing system.sec user call.now + 1 →
    system.clock < call.now + system.sec.policy.lockoutDuration
  noWrap :
    call.pendingWrong = true →
    standing system.sec user call.now + 1 < UInt32.size

instance (user : Bytes) (system : LoginSystem) (call : AuthCall) :
    Decidable (LeavesRoomFor user system call) :=
  decidable_of_iff
    ((call.phase = .entered →
        (system.sec.isLocked user call.now).1 = false →
        inFlight user system.calls = 0 ∨
          standing system.sec user call.now + inFlight user system.calls <
            system.sec.policy.maxFailedAttempts.toNat) ∧
      (call.pendingWrong = true →
        system.sec.policy.maxFailedAttempts.toNat ≤
          standing system.sec user call.now + 1 →
        system.clock < call.now + system.sec.policy.lockoutDuration) ∧
      (call.pendingWrong = true →
        standing system.sec user call.now + 1 < UInt32.size))
    ⟨fun ⟨admission, inTime, noWrap⟩ => ⟨admission, inTime, noWrap⟩,
      fun room => ⟨room.admission, room.inTime, room.noWrap⟩⟩

/-- Every section of a call of the user keeps the guesses against it bounded. -/
def LeavesRoom (user : Bytes) (system : LoginSystem) : LoginAction → Prop
  | .advance index =>
      ∀ call ∈ system.calls[index]?,
        call.username = user → LeavesRoomFor user system call
  | .tick _ | .enter .. => True

instance (user : Bytes) (system : LoginSystem) :
    (action : LoginAction) → Decidable (LeavesRoom user system action)
  | .advance index =>
      inferInstanceAs
        (Decidable (∀ call ∈ system.calls[index]?,
          call.username = user → LeavesRoomFor user system call))
  | .tick _ | .enter .. => .isTrue trivial

end LoginSystem

end RadminPro
