import RadminPro.WireProtocol
import Mathlib.Logic.Function.Basic

namespace RadminPro

open ByteCodec

/-!
# Accounts and lockout

The part of `SecurityManager` that looks at credentials.  `authenticate` takes
the mutex twice: once to test the lock and read the account, once to record
the verdict.  The Argon2 verification runs between the two, so both critical
sections are definitions of their own.
-/

/-- A whole number of seconds; points and spans of the clock are nanoseconds. -/
def seconds (count : Int) : Int :=
  count * 1000000000

/-- A local account. -/
structure UserRecord where
  username : Bytes
  argon2Hash : Bytes
  rights : UInt32 := R_None
  deriving DecidableEq

/-- The verdict of one call of `authenticate`. -/
structure AuthOutcome where
  status : AuthStatus := .known .badCredentials
  rights : UInt32 := R_None
  deriving DecidableEq

/-- The limits of the lockout. -/
structure Policy where
  maxFailedAttempts : UInt32 := 5
  lockoutWindow : Int := seconds 300
  lockoutDuration : Int := seconds 300

/-- The failures on record for one username. -/
structure Lockout where
  failures : UInt32 := 0
  firstFailure : Int := 0
  lockedUntil : Int := 0
  deriving DecidableEq

/-- Accounts, lockouts and the hash that unknown usernames are checked against. -/
structure SecurityManager where
  policy : Policy := {}
  users : Bytes → Option UserRecord := fun _ => none
  lockouts : Bytes → Option Lockout := fun _ => none
  decoyHash : Bytes

/-- Check a password against an encoded hash; an empty hash admits nobody. -/
def PasswordStore.verify
    (argon2idVerify : Bytes → Bytes → Bool)
    (password encoded : Bytes) : Bool :=
  if encoded.isEmpty then
    false
  else
    argon2idVerify encoded password

namespace Lockout

/-- The entry after the window of its failures has been tested. -/
def expire (policy : Policy) (now : Int) (lk : Lockout) : Lockout :=
  if now - lk.firstFailure > policy.lockoutWindow then
    { lk with failures := 0 }
  else
    lk

/-- The entry after one more failure has been counted. -/
def count (policy : Policy) (now : Int) (lk : Lockout) : Lockout :=
  let lk :=
    if lk.failures = 0 ∨ now - lk.firstFailure > policy.lockoutWindow then
      { lk with firstFailure := now, failures := 0 }
    else
      lk
  { lk with failures := lk.failures + 1 }

end Lockout

namespace SecurityManager

/-- Add an account, or replace the one of the same name. -/
def addUser (sec : SecurityManager) (rec : UserRecord) : SecurityManager :=
  { sec with users := Function.update sec.users rec.username (some rec) }

/-- Is the account locked?  Failures outside the window are forgotten. -/
def isLocked
    (sec : SecurityManager)
    (user : Bytes)
    (now : Int) : Bool × SecurityManager :=
  match sec.lockouts user with
  | none => (false, sec)
  | some lk =>
      if lk.lockedUntil > now then
        (true, sec)
      else
        (false,
          { sec with
            lockouts :=
              Function.update sec.lockouts user
                (some (lk.expire sec.policy now)) })

/-- Count a failure; enough of them lock the account. -/
def recordFailure
    (sec : SecurityManager)
    (user : Bytes)
    (now : Int) : SecurityManager :=
  let lk := ((sec.lockouts user).getD {}).count sec.policy now
  let lk :=
    if lk.failures ≥ sec.policy.maxFailedAttempts then
      { lk with lockedUntil := now + sec.policy.lockoutDuration }
    else
      lk
  { sec with lockouts := Function.update sec.lockouts user (some lk) }

/-- A success forgets the failures of the account, and its lock. -/
def recordSuccess (sec : SecurityManager) (user : Bytes) : SecurityManager :=
  { sec with lockouts := Function.update sec.lockouts user none }

/-- What the first critical section decides. -/
inductive LockCheck where
  | lockedOut
  | proceed (known : Bool) (hashToCheck : Bytes) (rights : UInt32)
  deriving DecidableEq

/-- The first critical section: test the lock and read the account. -/
def checkSection
    (sec : SecurityManager)
    (username : Bytes)
    (now : Int) : LockCheck × SecurityManager :=
  match sec.isLocked username now with
  | (true, sec) => (.lockedOut, sec)
  | (false, sec) =>
      match sec.users username with
      | some rec => (.proceed true rec.argon2Hash rec.rights, sec)
      | none => (.proceed false sec.decoyHash R_None, sec)

/-- The second critical section: record the verdict of the verification. -/
def recordSection
    (sec : SecurityManager)
    (username : Bytes)
    (now : Int)
    (ok : Bool)
    (rights : UInt32) : AuthOutcome × SecurityManager :=
  if ok then
    (⟨.known .ok, rights⟩, sec.recordSuccess username)
  else
    (⟨.known .badCredentials, R_None⟩, sec.recordFailure username now)

/-- One call with nothing else running between its sections. -/
def authenticate
    (argon2idVerify : Bytes → Bytes → Bool)
    (sec : SecurityManager)
    (username password : Bytes)
    (now : Int) : AuthOutcome × SecurityManager :=
  match sec.checkSection username now with
  | (.lockedOut, sec) => (⟨.known .lockedOut, R_None⟩, sec)
  | (.proceed known hashToCheck rights, sec) =>
      let passOk := PasswordStore.verify argon2idVerify password hashToCheck
      sec.recordSection username now (known && passOk) rights

end SecurityManager

end RadminPro
