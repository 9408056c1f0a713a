import RadminPro.AnchoredWindow
import RadminPro.LockoutBound

namespace RadminPro

open ByteCodec

/-!
# The lockout seen from the login history

Calls of `authenticate` made one after the other, with the answer each of them
got.  The entry of a user is a function of the failures answered since its last
success, and these are counted in anchored windows; what the calls are told is
then a statement about the history alone.
-/

/-- One call of `authenticate` and the clock it read. -/
structure LoginAttempt where
  username : Bytes
  password : Bytes
  now : Int
  deriving DecidableEq

/-- A call and what it returned. -/
structure LoginAnswer where
  username : Bytes
  now : Int
  outcome : AuthOutcome
  deriving DecidableEq

/-- The manager and the answers given so far, in order. -/
structure Logins where
  sec : SecurityManager
  answers : List LoginAnswer := []

namespace Logins

/-- What the next call returns. -/
def outcome
    (argon2idVerify : Bytes → Bytes → Bool)
    (logins : Logins)
    (attempt : LoginAttempt) : AuthOutcome :=
  (logins.sec.authenticate argon2idVerify attempt.username attempt.password
    attempt.now).1

/-- One call, run to its end. -/
def attempt
    (argon2idVerify : Bytes → Bytes → Bool)
    (logins : Logins)
    (attempt : LoginAttempt) : Logins where
  sec :=
    (logins.sec.authenticate argon2idVerify attempt.username attempt.password
      attempt.now).2
  answers :=
    logins.answers ++
      [⟨attempt.username, attempt.now, logins.outcome argon2idVerify attempt⟩]

/-- The state after a list of calls. -/
def after
    (argon2idVerify : Bytes → Bytes → Bool)
    (logins : Logins)
    (attempts : List LoginAttempt) : Logins :=
  StepRuns.run (attempt argon2idVerify) logins attempts

/-- A clock that never runs backwards. -/
def Timely (attempts : List LoginAttempt) : Prop :=
  attempts.Pairwise fun earlier later => earlier.now ≤ later.now

instance (attempts : List LoginAttempt) : Decidable (Timely attempts) :=
  inferInstanceAs (Decidable (List.Pairwise _ _))

end Logins

/-! ## The history of one user -/

namespace LoginAnswer

/-- The user was told that the credentials are wrong. -/
def Failed (user : Bytes) (answer : LoginAnswer) : Prop :=
  answer.username = user ∧ answer.outcome.status = .known .badCredentials

/-- The user was let in. -/
def Succeeded (user : Bytes) (answer : LoginAnswer) : Prop :=
  answer.username = user ∧ answer.outcome.status = .known .ok

instance (user : Bytes) (answer : LoginAnswer) :
    Decidable (answer.Failed user) :=
  inferInstanceAs (Decidable (_ ∧ _))

instance (user : Bytes) (answer : LoginAnswer) :
    Decidable (answer.Succeeded user) :=
  inferInstanceAs (Decidable (_ ∧ _))

end LoginAnswer

/-- The failures since the last success, after one more answer. -/
def noteAnswer
    (user : Bytes)
    (times : List Int)
    (answer : LoginAnswer) : List Int :=
  if answer.Succeeded user then
    []
  else if answer.Failed user then
    times ++ [answer.now]
  else
    times

/-- When the user failed since its last success, in order. -/
def failuresSinceOk (user : Bytes) (answers : List LoginAnswer) : List Int :=
  answers.foldl (noteAnswer user) []

/-- The failures that count when the next one is recorded. -/
def countedFailures
    (policy : Policy)
    (user : Bytes)
    (answers : List LoginAnswer) : List Int :=
  AnchoredWindow.openWindow policy.lockoutWindow (2 ^ 32)
    (failuresSinceOk user answers)

theorem failuresSinceOk_snoc
    (user : Bytes)
    (answers : List LoginAnswer)
    (answer : LoginAnswer) :
    failuresSinceOk user (answers ++ [answer]) =
      noteAnswer user (failuresSinceOk user answers) answer := by
  simp [failuresSinceOk]

/-- Every failure since the last success is an answer of the history. -/
theorem failuresSinceOk_split
    {user : Bytes}
    {answers : List LoginAnswer}
    {earlier later : List Int}
    {time : Int}
    (split : failuresSinceOk user answers = earlier ++ time :: later) :
    ∃ before answer after,
      answers = before ++ answer :: after ∧
        answer.Failed user ∧
        answer.now = time ∧
        failuresSinceOk user before = earlier ∧
        ∀ other ∈ after, ¬other.Succeeded user := by
  induction answers using List.reverseRecOn generalizing later with
  | nil =>
      simp [failuresSinceOk] at split
  | append_singleton answers last inductionHypothesis =>
      rw [failuresSinceOk_snoc, noteAnswer] at split
      split at split
      · simp at split
      · next notOk =>
          split at split
          · next failed =>
              rcases List.eq_nil_or_concat later with rfl | ⟨front, final, rfl⟩
              · obtain ⟨sameEarlier, sameTime⟩ := List.append_inj' split rfl
                refine ⟨answers, last, [], rfl, failed, ?_, sameEarlier, by simp⟩
                simpa using sameTime
              · have shorter :
                    failuresSinceOk user answers = earlier ++ time :: front := by
                  have whole :
                      failuresSinceOk user answers ++ [last.now] =
                        (earlier ++ time :: front) ++ [final] := by
                    simpa using split
                  exact (List.append_inj' whole rfl).1
                obtain ⟨before, answer, after, shape, isFailure, isTime,
                  isEarlier, none⟩ := inductionHypothesis shorter
                refine ⟨before, answer, after ++ [last], by simp [shape],
                  isFailure, isTime, isEarlier, ?_⟩
                intro other member
                rcases List.mem_append.mp member with inAfter | isLast
                · exact none other inAfter
                · rwa [List.mem_singleton.mp isLast]
          · obtain ⟨before, answer, after, shape, isFailure, isTime,
              isEarlier, none⟩ := inductionHypothesis split
            refine ⟨before, answer, after ++ [last], by simp [shape],
              isFailure, isTime, isEarlier, ?_⟩
            intro other member
            rcases List.mem_append.mp member with inAfter | isLast
            · exact none other inAfter
            · rwa [List.mem_singleton.mp isLast]

/-! ## The entry of one user -/

namespace Lockout

/-- The entry after `recordFailure`. -/
def fail (policy : Policy) (now : Int) (entry : Option Lockout) : Lockout :=
  let lk := (entry.getD {}).count policy now
  if lk.failures ≥ policy.maxFailedAttempts then
    { lk with lockedUntil := now + policy.lockoutDuration }
  else
    lk

/-- The entry that a list of failures leaves behind. -/
def ofFailures (policy : Policy) (times : List Int) : Option Lockout :=
  times.foldl (fun entry now => some (fail policy now entry)) none

theorem ofFailures_snoc (policy : Policy) (times : List Int) (now : Int) :
    ofFailures policy (times ++ [now]) =
      some (fail policy now (ofFailures policy times)) := by
  simp [ofFailures]

/-- Forgetting stale failures first does not change how the next one counts. -/
theorem fail_expire
    (policy : Policy)
    (now : Int)
    (entry : Option Lockout) :
    fail policy now (entry.map (expire policy now)) = fail policy now entry := by
  cases entry with
  | none =>
      rfl
  | some lk =>
      by_cases stale : now - lk.firstFailure > policy.lockoutWindow
      · simp [fail, count, expire, stale]
      · simp [expire, stale]

/-- A failure is the first of its window when the record has run out. -/
theorem count_restarts
    {policy : Policy}
    {now : Int}
    {lk : Lockout}
    (restarts :
      lk.failures = 0 ∨ now - lk.firstFailure > policy.lockoutWindow) :
    lk.count policy now = { lk with firstFailure := now, failures := 1 } := by
  simp [count, restarts]

/-- A failure inside the window is counted on top of the record. -/
theorem count_continues
    {policy : Policy}
    {now : Int}
    {lk : Lockout}
    (continues :
      ¬(lk.failures = 0 ∨ now - lk.firstFailure > policy.lockoutWindow)) :
    lk.count policy now = { lk with failures := lk.failures + 1 } := by
  simp only [count, if_neg continues]

/-- Counting a failure leaves the lock alone. -/
@[simp] theorem count_lockedUntil
    (policy : Policy)
    (now : Int)
    (lk : Lockout) :
    (lk.count policy now).lockedUntil = lk.lockedUntil := by
  unfold count
  split
  · rfl
  · rfl

theorem fail_failures (policy : Policy) (now : Int) (entry : Option Lockout) :
    (fail policy now entry).failures =
      ((entry.getD {}).count policy now).failures := by
  simp only [fail]
  split
  · rfl
  · rfl

theorem fail_firstFailure
    (policy : Policy)
    (now : Int)
    (entry : Option Lockout) :
    (fail policy now entry).firstFailure =
      ((entry.getD {}).count policy now).firstFailure := by
  simp only [fail]
  split
  · rfl
  · rfl

/-- Enough failures set the lock; fewer leave it as it was. -/
theorem fail_lockedUntil
    (policy : Policy)
    (now : Int)
    (entry : Option Lockout) :
    (fail policy now entry).lockedUntil =
      if (fail policy now entry).failures ≥ policy.maxFailedAttempts then
        now + policy.lockoutDuration
      else
        (entry.getD {}).lockedUntil := by
  rw [fail_failures]
  unfold fail
  by_cases enough :
      ((entry.getD {}).count policy now).failures ≥ policy.maxFailedAttempts
  · rw [if_pos enough]
    simp [enough]
  · rw [if_neg enough]
    simp [enough]

/-- What the entry counts is the open window, anchored at its first failure. -/
theorem ofFailures_window
    (policy : Policy)
    {times : List Int}
    {lk : Lockout}
    (entry : ofFailures policy times = some lk) :
    ∃ rest,
      AnchoredWindow.openWindow policy.lockoutWindow (2 ^ 32) times =
          lk.firstFailure :: rest ∧
        lk.failures = UInt32.ofNat (rest.length + 1) := by
  induction times using List.reverseRecOn generalizing lk with
  | nil =>
      cases entry
  | append_singleton earlier now inductionHypothesis =>
      rw [ofFailures_snoc, Option.some.injEq] at entry
      subst entry
      rw [AnchoredWindow.openWindow_snoc, fail_firstFailure, fail_failures]
      cases before : ofFailures policy earlier with
      | none =>
          have isFirst : earlier = [] := by
            rcases List.eq_nil_or_concat earlier with rfl | ⟨front, last, rfl⟩
            · rfl
            · simp [ofFailures] at before
          subst isFirst
          refine ⟨[], ?_, ?_⟩
          · simp [AnchoredWindow.enter, count]
          · simp [count]
      | some earlierLk =>
          obtain ⟨rest, window, counted⟩ := inductionHypothesis before
          have bounded : rest.length + 1 ≤ 2 ^ 32 := by
            have capacity :
                (AnchoredWindow.openWindow policy.lockoutWindow (2 ^ 32)
                  earlier).length ≤ 2 ^ 32 :=
              AnchoredWindow.length_openWindow_le (by decide) earlier
            rwa [window, List.length_cons] at capacity
          have restart :
              (earlierLk.failures = 0 ∨
                  now - earlierLk.firstFailure > policy.lockoutWindow) ↔
                (policy.lockoutWindow < now - earlierLk.firstFailure ∨
                  2 ^ 32 ≤ (earlierLk.firstFailure :: rest).length) := by
            rw [or_comm, counted, ← UInt32.toNat_inj, UInt32.toNat_ofNat',
              List.length_cons]
            apply or_congr Iff.rfl
            simp only [UInt32.toNat_zero]
            omega
          by_cases restarts :
              earlierLk.failures = 0 ∨
                now - earlierLk.firstFailure > policy.lockoutWindow
          · refine ⟨[], ?_, ?_⟩
            · simp only [window, AnchoredWindow.enter, if_pos (restart.mp restarts),
                Option.getD_some, count_restarts restarts]
            · simp only [Option.getD_some, count_restarts restarts]
              rfl
          · refine ⟨rest ++ [now], ?_, ?_⟩
            · simp only [window, AnchoredWindow.enter,
                if_neg (restart.not.mp restarts), Option.getD_some,
                count_continues restarts, List.cons_append]
            · simp only [Option.getD_some, count_continues restarts, counted]
              simp

/-- The failures on record are those of the open window, unless it is full. -/
theorem ofFailures_failures
    (policy : Policy)
    {times : List Int}
    {lk : Lockout}
    (entry : ofFailures policy times = some lk) :
    lk.failures =
      UInt32.ofNat
        (AnchoredWindow.openWindow policy.lockoutWindow (2 ^ 32) times).length := by
  obtain ⟨rest, window, counted⟩ := ofFailures_window policy entry
  rw [window, counted, List.length_cons]

/-- A failure that completes the threshold locks from then on. -/
theorem fail_locks
    (policy : Policy)
    (earlier : List Int)
    (now : Int)
    (enough :
      policy.maxFailedAttempts.toNat ≤
        (AnchoredWindow.openWindow policy.lockoutWindow (2 ^ 32)
          (earlier ++ [now])).length)
    (roomy :
      (AnchoredWindow.openWindow policy.lockoutWindow (2 ^ 32)
        (earlier ++ [now])).length < 2 ^ 32) :
    (fail policy now (ofFailures policy earlier)).lockedUntil =
      now + policy.lockoutDuration := by
  have counted := ofFailures_failures policy (ofFailures_snoc policy earlier now)
  rw [fail_lockedUntil, if_pos]
  rw [ge_iff_le, UInt32.le_iff_toNat_le, counted,
    UInt32.toNat_ofNat_of_lt' roomy]
  exact enough

/-- A failure below the threshold leaves the lock as it was. -/
theorem fail_keeps
    (policy : Policy)
    (earlier : List Int)
    (now : Int)
    (few :
      (AnchoredWindow.openWindow policy.lockoutWindow (2 ^ 32)
        (earlier ++ [now])).length < policy.maxFailedAttempts.toNat) :
    (fail policy now (ofFailures policy earlier)).lockedUntil =
      ((ofFailures policy earlier).getD {}).lockedUntil := by
  have counted := ofFailures_failures policy (ofFailures_snoc policy earlier now)
  rw [fail_lockedUntil, if_neg]
  rw [ge_iff_le, UInt32.le_iff_toNat_le, not_le, counted,
    UInt32.toNat_ofNat_of_lt' (few.trans policy.maxFailedAttempts.toNat_lt)]
  exact few

/-- A lock was set by a failure that completed the threshold. -/
theorem ofFailures_lockedUntil
    (policy : Policy)
    {times : List Int}
    {lk : Lockout}
    (entry : ofFailures policy times = some lk) :
    lk.lockedUntil = 0 ∨
      ∃ earlier time later,
        times = earlier ++ time :: later ∧
          lk.lockedUntil = time + policy.lockoutDuration ∧
          policy.maxFailedAttempts.toNat ≤
            (AnchoredWindow.openWindow policy.lockoutWindow (2 ^ 32)
              (earlier ++ [time])).length := by
  induction times using List.reverseRecOn generalizing lk with
  | nil =>
      cases entry
  | append_singleton earlier now inductionHypothesis =>
      have counted := ofFailures_failures policy entry
      rw [ofFailures_snoc, Option.some.injEq] at entry
      rw [← entry, fail_lockedUntil, entry]
      by_cases enough : lk.failures ≥ policy.maxFailedAttempts
      · rw [if_pos enough]
        refine .inr ⟨earlier, now, [], rfl, rfl, ?_⟩
        rw [ge_iff_le, UInt32.le_iff_toNat_le, counted, UInt32.toNat_ofNat']
          at enough
        exact enough.trans (Nat.mod_le _ _)
      · rw [if_neg enough]
        cases before : ofFailures policy earlier with
        | none =>
            exact .inl rfl
        | some earlierLk =>
            rcases inductionHypothesis before
              with unset | ⟨front, time, later, split, isLock, reached⟩
            · exact .inl unset
            · refine .inr ⟨front, time, later ++ [now], ?_, isLock, reached⟩
              simp [split]

end Lockout

/-! ## One call -/

namespace SecurityManager

/-- The account is locked at that time. -/
def Locked (sec : SecurityManager) (user : Bytes) (now : Int) : Prop :=
  ∃ lk, sec.lockouts user = some lk ∧ now < lk.lockedUntil

theorem isLocked_iff
    {sec : SecurityManager}
    {user : Bytes}
    {now : Int} :
    (sec.isLocked user now).1 = true ↔ sec.Locked user now := by
  unfold isLocked Locked
  cases entry : sec.lockouts user with
  | none =>
      simp
  | some lk =>
      by_cases ahead : lk.lockedUntil > now
      · simp [ahead]
      · simp [ahead]

/-- Only the entry of the user changes, to what its history calls for. -/
structure Records
    (before : SecurityManager)
    (user : Bytes)
    (entry : Option Lockout)
    (after : SecurityManager) : Prop where
  policy : after.policy = before.policy
  users : after.users = before.users
  decoyHash : after.decoyHash = before.decoyHash
  own : after.lockouts user = entry
  others : ∀ other, other ≠ user → after.lockouts other = before.lockouts other

/-- What one call returns and records. -/
inductive Authenticates
    (argon2idVerify : Bytes → Bytes → Bool)
    (sec : SecurityManager)
    (attempt : LoginAttempt) : AuthOutcome × SecurityManager → Prop where
  | lockedOut
      (locked : sec.Locked attempt.username attempt.now) :
      Authenticates argon2idVerify sec attempt
        (⟨.known .lockedOut, R_None⟩, sec)
  | ok
      (unlocked : ¬sec.Locked attempt.username attempt.now)
      {record : UserRecord}
      (account : sec.users attempt.username = some record)
      (verified :
        PasswordStore.verify argon2idVerify attempt.password
          record.argon2Hash = true)
      {after : SecurityManager}
      (records : Records sec attempt.username none after) :
      Authenticates argon2idVerify sec attempt
        (⟨.known .ok, record.rights⟩, after)
  | badCredentials
      (unlocked : ¬sec.Locked attempt.username attempt.now)
      (rejected :
        ∀ record, sec.users attempt.username = some record →
          PasswordStore.verify argon2idVerify attempt.password
            record.argon2Hash = false)
      {after : SecurityManager}
      (records :
        Records sec attempt.username
          (some (Lockout.fail sec.policy attempt.now
            (sec.lockouts attempt.username))) after) :
      Authenticates argon2idVerify sec attempt
        (⟨.known .badCredentials, R_None⟩, after)

/-- The manager after the lock check of an unlocked account. -/
theorem isLocked_records
    {sec : SecurityManager}
    {user : Bytes}
    {now : Int}
    (unlocked : ¬sec.Locked user now) :
    Records sec user ((sec.lockouts user).map (Lockout.expire sec.policy now))
      (sec.isLocked user now).2 where
  policy := isLocked_policy user now
  users := by
    unfold isLocked
    split
    · rfl
    · split
      · rfl
      · rfl
  decoyHash := by
    unfold isLocked
    split
    · rfl
    · split
      · rfl
      · rfl
  own := isLocked_entry (by simpa using isLocked_iff.not.mpr unlocked)
  others _ different := isLocked_other now different

/-- A rejected password is recorded on top of the lock check. -/
theorem recordFailure_records
    {sec checked : SecurityManager}
    {user : Bytes}
    (now : Int)
    (records :
      Records sec user
        ((sec.lockouts user).map (Lockout.expire sec.policy now)) checked) :
    Records sec user
      (some (Lockout.fail sec.policy now (sec.lockouts user)))
      (checked.recordFailure user now) where
  policy := records.policy
  users := records.users
  decoyHash := records.decoyHash
  own := by
    have entry :
        (checked.recordFailure user now).lockouts user =
          some (Lockout.fail checked.policy now (checked.lockouts user)) := by
      simp [recordFailure, Lockout.fail]
    rw [entry, records.policy, records.own, Lockout.fail_expire]
  others other different := by
    rw [recordFailure_other now different, records.others other different]

/-- A success is recorded on top of the lock check. -/
theorem recordSuccess_records
    {sec checked : SecurityManager}
    {user : Bytes}
    {entry : Option Lockout}
    (records : Records sec user entry checked) :
    Records sec user none (checked.recordSuccess user) where
  policy := records.policy
  users := records.users
  decoyHash := records.decoyHash
  own := by
    simp [recordSuccess]
  others other different := by
    rw [recordSuccess_other different, records.others other different]

/-- A call does one of the three things. -/
theorem authenticate_authenticates
    (argon2idVerify : Bytes → Bytes → Bool)
    (sec : SecurityManager)
    (attempt : LoginAttempt) :
    Authenticates argon2idVerify sec attempt
      (sec.authenticate argon2idVerify attempt.username attempt.password
        attempt.now) := by
  by_cases locked : sec.Locked attempt.username attempt.now
  · have refused : sec.isLocked attempt.username attempt.now = (true, sec) :=
      Prod.ext (isLocked_iff.mpr locked) (isLocked_true (isLocked_iff.mpr locked))
    simpa [authenticate, checkSection, refused] using
      Authenticates.lockedOut locked
  · have checked := isLocked_records locked
    have passed : (sec.isLocked attempt.username attempt.now).1 = false := by
      simpa using isLocked_iff.not.mpr locked
    cases check : sec.isLocked attempt.username attempt.now with
    | mk isLocked checkedSec =>
        rw [check] at checked passed
        simp only at checked passed
        subst passed
        cases account : checkedSec.users attempt.username with
        | none =>
            have unknown : sec.users attempt.username = none := by
              rw [← checked.users, account]
            simpa [authenticate, checkSection, check, account, recordSection]
              using Authenticates.badCredentials locked (by simp [unknown])
                (recordFailure_records attempt.now checked)
        | some record =>
            have known : sec.users attempt.username = some record := by
              rw [← checked.users, account]
            cases verdict :
                PasswordStore.verify argon2idVerify attempt.password
                  record.argon2Hash with
            | true =>
                simpa [authenticate, checkSection, check, account,
                  recordSection, verdict] using
                  Authenticates.ok locked known verdict
                    (recordSuccess_records checked)
            | false =>
                simpa [authenticate, checkSection, check, account,
                  recordSection, verdict] using
                  Authenticates.badCredentials locked
                    (by simp [known, verdict])
                    (recordFailure_records attempt.now checked)

end SecurityManager

/-! ## Runs -/

namespace Logins

variable {argon2idVerify : Bytes → Bytes → Bool}

/-- A manager that has answered nobody yet. -/
def fresh (sec : SecurityManager) : Logins where
  sec := { sec with lockouts := fun _ => none }

/-- Every entry is the one its history of failures leaves behind. -/
structure Tracks (sec : SecurityManager) (logins : Logins) : Prop where
  policy : logins.sec.policy = sec.policy
  users : logins.sec.users = sec.users
  decoyHash : logins.sec.decoyHash = sec.decoyHash
  entries :
    ∀ user,
      logins.sec.lockouts user =
        Lockout.ofFailures sec.policy (failuresSinceOk user logins.answers)

theorem fresh_tracks (sec : SecurityManager) : Tracks sec (fresh sec) where
  policy := rfl
  users := rfl
  decoyHash := rfl
  entries _ := rfl

/-- An answer for somebody else notes nothing. -/
theorem noteAnswer_other
    {user : Bytes}
    {times : List Int}
    {answer : LoginAnswer}
    (different : answer.username ≠ user) :
    noteAnswer user times answer = times := by
  simp [noteAnswer, LoginAnswer.Succeeded, LoginAnswer.Failed, different]

/-- One call keeps the entries in step with the history. -/
theorem attempt_tracks
    {sec : SecurityManager}
    {logins : Logins}
    (tracks : Tracks sec logins)
    (attempt : LoginAttempt) :
    Tracks sec (logins.attempt argon2idVerify attempt) := by
  have authenticates :=
    logins.sec.authenticate_authenticates argon2idVerify attempt
  simp only [Logins.attempt, Logins.outcome]
  generalize logins.sec.authenticate argon2idVerify attempt.username
    attempt.password attempt.now = result at authenticates ⊢
  have entryOf :
      ∀ {entry : Option Lockout} {after : SecurityManager} {outcome : AuthOutcome},
        logins.sec.Records attempt.username entry after →
        entry =
          Lockout.ofFailures sec.policy
            (noteAnswer attempt.username
              (failuresSinceOk attempt.username logins.answers)
              ⟨attempt.username, attempt.now, outcome⟩) →
        Tracks sec
          ⟨after, logins.answers ++ [⟨attempt.username, attempt.now, outcome⟩]⟩ := by
    intro entry after outcome records own
    refine ⟨records.policy.trans tracks.policy, records.users.trans tracks.users,
      records.decoyHash.trans tracks.decoyHash, ?_⟩
    intro user
    rw [failuresSinceOk_snoc]
    by_cases isOwn : user = attempt.username
    · subst isOwn
      rw [records.own, own]
    · rw [records.others user isOwn, tracks.entries user,
        noteAnswer_other (Ne.symm isOwn)]
  cases authenticates with
  | lockedOut locked =>
      refine entryOf ⟨rfl, rfl, rfl, rfl, fun _ _ => rfl⟩ ?_
      simp [noteAnswer, LoginAnswer.Succeeded, LoginAnswer.Failed,
        tracks.entries]
  | ok unlocked account verified records =>
      refine entryOf records ?_
      simp [noteAnswer, LoginAnswer.Succeeded, Lockout.ofFailures]
  | badCredentials unlocked rejected records =>
      refine entryOf records ?_
      simp [noteAnswer, LoginAnswer.Succeeded, LoginAnswer.Failed,
        tracks.entries, tracks.policy, Lockout.ofFailures_snoc]

/-- Every run keeps the entries in step with the history. -/
theorem after_tracks
    (argon2idVerify : Bytes → Bytes → Bool)
    (sec : SecurityManager)
    (attempts : List LoginAttempt) :
    Tracks sec ((fresh sec).after argon2idVerify attempts) :=
  StepRuns.run_invariant (Tracks sec)
    (fun _ attempt tracks => attempt_tracks tracks attempt)
    (fresh_tracks sec) attempts

/-- A call is refused exactly while the account is locked. -/
theorem outcome_lockedOut_iff
    {logins : Logins}
    {attempt : LoginAttempt} :
    (logins.outcome argon2idVerify attempt).status = .known .lockedOut ↔
      logins.sec.Locked attempt.username attempt.now := by
  have authenticates :=
    logins.sec.authenticate_authenticates argon2idVerify attempt
  unfold outcome
  generalize logins.sec.authenticate argon2idVerify attempt.username
    attempt.password attempt.now = result at authenticates ⊢
  cases authenticates with
  | lockedOut locked => simp [locked]
  | ok unlocked => simp [unlocked]
  | badCredentials unlocked => simp [unlocked]

/-- A refused call leaves the manager as it was. -/
theorem attempt_locked
    {logins : Logins}
    {attempt : LoginAttempt}
    (locked : logins.sec.Locked attempt.username attempt.now) :
    (logins.attempt argon2idVerify attempt).sec = logins.sec := by
  have authenticates :=
    logins.sec.authenticate_authenticates argon2idVerify attempt
  simp only [Logins.attempt]
  generalize logins.sec.authenticate argon2idVerify attempt.username
    attempt.password attempt.now = result at authenticates ⊢
  cases authenticates with
  | lockedOut _ => rfl
  | ok unlocked => exact absurd locked unlocked
  | badCredentials unlocked => exact absurd locked unlocked

/-- A call touches the entry of its own user only. -/
theorem attempt_records
    (argon2idVerify : Bytes → Bytes → Bool)
    (logins : Logins)
    (attempt : LoginAttempt) :
    ∃ entry,
      logins.sec.Records attempt.username entry
        (logins.attempt argon2idVerify attempt).sec := by
  have authenticates :=
    logins.sec.authenticate_authenticates argon2idVerify attempt
  simp only [Logins.attempt]
  generalize logins.sec.authenticate argon2idVerify attempt.username
    attempt.password attempt.now = result at authenticates ⊢
  cases authenticates with
  | lockedOut _ => exact ⟨_, rfl, rfl, rfl, rfl, fun _ _ => rfl⟩
  | ok _ _ _ records => exact ⟨_, records⟩
  | badCredentials _ _ records => exact ⟨_, records⟩

/-- A call leaves the entries of the other users alone. -/
theorem attempt_other
    {logins : Logins}
    {attempt : LoginAttempt}
    {user : Bytes}
    (different : attempt.username ≠ user) :
    (logins.attempt argon2idVerify attempt).sec.lockouts user =
      logins.sec.lockouts user := by
  obtain ⟨entry, records⟩ := attempt_records argon2idVerify logins attempt
  exact records.others user (Ne.symm different)

/-- A call that was told of wrong credentials was not locked, and is counted. -/
theorem attempt_failed
    {logins : Logins}
    {attempt : LoginAttempt}
    (failed :
      (logins.outcome argon2idVerify attempt).status =
        .known .badCredentials) :
    ¬logins.sec.Locked attempt.username attempt.now ∧
      (logins.attempt argon2idVerify attempt).sec.lockouts attempt.username =
        some (Lockout.fail logins.sec.policy attempt.now
          (logins.sec.lockouts attempt.username)) := by
  have authenticates :=
    logins.sec.authenticate_authenticates argon2idVerify attempt
  simp only [Logins.attempt]
  unfold outcome at failed
  generalize logins.sec.authenticate argon2idVerify attempt.username
    attempt.password attempt.now = result at authenticates failed ⊢
  cases authenticates with
  | lockedOut _ => simp at failed
  | ok _ _ _ _ => simp at failed
  | badCredentials unlocked _ records => exact ⟨unlocked, records.own⟩

/-! ## When a lock follows -/

/-- A lock stands through every call made before it runs out. -/
theorem locked_after
    {logins : Logins}
    {user : Bytes}
    {lk : Lockout}
    (entry : logins.sec.lockouts user = some lk)
    {between : List LoginAttempt}
    (soon : ∀ attempt ∈ between, attempt.now < lk.lockedUntil) :
    (logins.after argon2idVerify between).sec.lockouts user = some lk := by
  have allowed :
      StepRuns.Allowed (attempt argon2idVerify)
        (fun _ attempt => attempt.now < lk.lockedUntil) logins between :=
    .of_forall (fun attempt member _ => soon attempt member) logins
  have preserved :
      ∀ (logins : Logins) (attempt : LoginAttempt),
        attempt.now < lk.lockedUntil →
        logins.sec.lockouts user = some lk →
        (logins.attempt argon2idVerify attempt).sec.lockouts user = some lk := by
    intro logins attempt early stands
    by_cases own : attempt.username = user
    · have locked : logins.sec.Locked attempt.username attempt.now :=
        ⟨lk, by rw [own, stands], early⟩
      rw [attempt_locked locked, stands]
    · rw [attempt_other own, stands]
  exact allowed.invariant preserved entry

/-- Calls of other users leave an entry alone. -/
theorem after_others
    {logins : Logins}
    {user : Bytes}
    {between : List LoginAttempt}
    (others : ∀ attempt ∈ between, attempt.username ≠ user) :
    (logins.after argon2idVerify between).sec.lockouts user =
      logins.sec.lockouts user := by
  have allowed :
      StepRuns.Allowed (attempt argon2idVerify)
        (fun _ attempt => attempt.username ≠ user) logins between :=
    .of_forall (fun attempt member _ => others attempt member) logins
  have preserved :
      ∀ (later : Logins) (attempt : LoginAttempt),
        attempt.username ≠ user →
        later.sec.lockouts user = logins.sec.lockouts user →
        (later.attempt argon2idVerify attempt).sec.lockouts user =
          logins.sec.lockouts user := by
    intro later attempt other same
    rw [attempt_other other, same]
  exact allowed.invariant preserved rfl

/-- The entry right after a failure. -/
theorem entry_after_failure
    {sec : SecurityManager}
    {earlier : List LoginAttempt}
    {last : LoginAttempt}
    (failed :
      (((fresh sec).after argon2idVerify earlier).outcome argon2idVerify
        last).status = .known .badCredentials) :
    let before := (fresh sec).after argon2idVerify earlier
    let times := failuresSinceOk last.username before.answers
    failuresSinceOk last.username
        (before.attempt argon2idVerify last).answers = times ++ [last.now] ∧
      ¬before.sec.Locked last.username last.now ∧
      before.sec.lockouts last.username =
        Lockout.ofFailures sec.policy times ∧
      (before.attempt argon2idVerify last).sec.lockouts last.username =
        some (Lockout.fail sec.policy last.now
          (Lockout.ofFailures sec.policy times)) := by
  intro before times
  have tracks := after_tracks argon2idVerify sec earlier
  obtain ⟨unlocked, entry⟩ := attempt_failed failed
  refine ⟨?_, unlocked, tracks.entries last.username, ?_⟩
  · simp only [Logins.attempt]
    rw [failuresSinceOk_snoc]
    simp [noteAnswer, LoginAnswer.Succeeded, LoginAnswer.Failed, failed, times,
      before]
  · rw [entry, tracks.policy, tracks.entries last.username]

/--
A failed call locks the account exactly when the window that is open at it
counts enough failures: every call made within the duration of the lock is
then refused, and otherwise the next call of the user is not.
-/
theorem lockout_follows_window
    (argon2idVerify : Bytes → Bytes → Bool)
    (sec : SecurityManager)
    (earlier between : List LoginAttempt)
    (last next : LoginAttempt)
    (timely : Timely (earlier ++ last :: (between ++ [next])))
    (same : next.username = last.username)
    (failed :
      (((fresh sec).after argon2idVerify earlier).outcome argon2idVerify
        last).status = .known .badCredentials) :
    let atLast := (fresh sec).after argon2idVerify (earlier ++ [last])
    let later := atLast.after argon2idVerify between
    let counted := countedFailures sec.policy last.username atLast.answers
    (sec.policy.maxFailedAttempts.toNat ≤ counted.length →
        counted.length < 2 ^ 32 →
        next.now < last.now + sec.policy.lockoutDuration →
        (later.outcome argon2idVerify next).status = .known .lockedOut) ∧
      (counted.length < sec.policy.maxFailedAttempts.toNat →
        (∀ attempt ∈ between, attempt.username ≠ last.username) →
        0 ≤ next.now →
        (later.outcome argon2idVerify next).status ≠ .known .lockedOut) := by
  intro atLast later counted
  obtain ⟨noted, unlocked, entryBefore, entry⟩ := entry_after_failure failed
  have isLast :
      atLast = ((fresh sec).after argon2idVerify earlier).attempt
        argon2idVerify last :=
    StepRuns.run_snoc _ _ earlier last
  rw [← isLast] at noted entry
  have isCounted : counted = countedFailures sec.policy last.username
      atLast.answers := rfl
  rw [countedFailures, noted] at isCounted
  have ordered := (List.pairwise_append.mp timely).2.1
  have afterLast := (List.pairwise_cons.mp ordered).1
  have beforeNext :
      ∀ attempt ∈ between, attempt.now ≤ next.now := by
    intro attempt member
    exact (List.pairwise_append.mp (List.pairwise_cons.mp ordered).2).2.2
      attempt member next List.mem_cons_self
  constructor
  · intro enough roomy soon
    have lock := Lockout.fail_locks sec.policy _ last.now
      (isCounted ▸ enough) (isCounted ▸ roomy)
    rw [outcome_lockedOut_iff, same]
    refine ⟨_, locked_after entry ?_, ?_⟩
    · intro attempt member
      rw [lock]
      exact (beforeNext attempt member).trans_lt soon
    · rw [lock]
      exact soon
  · intro few others started
    rw [ne_eq, outcome_lockedOut_iff, same]
    rintro ⟨lk, found, ahead⟩
    rw [after_others others, entry, Option.some.injEq] at found
    subst found
    rw [Lockout.fail_keeps sec.policy _ last.now (isCounted ▸ few)] at ahead
    rw [← entryBefore] at ahead
    cases before :
        ((fresh sec).after argon2idVerify earlier).sec.lockouts
          last.username with
    | none =>
        rw [before] at ahead
        exact absurd started (not_le.mpr ahead)
    | some earlierLk =>
        rw [before] at ahead
        have lastFirst : last.now ≤ next.now :=
          afterLast next (by simp)
        exact unlocked ⟨earlierLk, before, lastFirst.trans_lt ahead⟩

/-- A wrong guess for one account at a whole second. -/
def wrongGuess (second : Int) : LoginAttempt :=
  ⟨ascii "ann", [], seconds second⟩

/-- A verification that rejects every password. -/
def rejectAll (_encoded _password : Bytes) : Bool :=
  false

theorem lockout_follows_window_default :
    ((((fresh { decoyHash := [] }).after rejectAll
          ([0, 10, 20, 30].map wrongGuess ++ [wrongGuess 40])).after rejectAll
        []).outcome rejectAll (wrongGuess 339)).status = .known .lockedOut :=
  (lockout_follows_window rejectAll { decoyHash := [] }
    ([0, 10, 20, 30].map wrongGuess) [] (wrongGuess 40) (wrongGuess 339)
    (by decide) rfl (by decide)).1 (by decide) (by decide) (by decide)

/--
Three failures within 102 seconds, straddling the end of the window that the
first failure opened, do not lock an account that three failures lock.
-/
theorem straddling_failures_do_not_lock :
    let policy : Policy := { maxFailedAttempts := 3 }
    let guesses := [0, 200, 301, 302, 303].map wrongGuess
    Timely guesses ∧
      ((fresh { policy := policy, decoyHash := [] }).after rejectAll
          guesses).answers.map (fun answer => answer.outcome.status) =
        List.replicate 5 (.known .badCredentials) ∧
      seconds 302 - seconds 200 ≤ policy.lockoutWindow ∧
      seconds 303 < seconds 302 + policy.lockoutDuration := by
  decide

/-! ## What a refusal means -/

/-- The answers stand in the order of the calls. -/
theorem after_answers_now
    (argon2idVerify : Bytes → Bytes → Bool)
    (logins : Logins)
    (attempts : List LoginAttempt) :
    (logins.after argon2idVerify attempts).answers.map LoginAnswer.now =
      logins.answers.map LoginAnswer.now ++ attempts.map LoginAttempt.now := by
  induction attempts generalizing logins with
  | nil =>
      simp [after]
  | cons attempt rest inductionHypothesis =>
      have stepped := inductionHypothesis (logins.attempt argon2idVerify attempt)
      simpa [after, Logins.attempt] using stepped

/-- The failures of a user are some of the answers. -/
theorem failuresSinceOk_sublist (user : Bytes) (answers : List LoginAnswer) :
    (failuresSinceOk user answers).Sublist (answers.map LoginAnswer.now) := by
  induction answers using List.reverseRecOn with
  | nil =>
      exact List.Sublist.refl _
  | append_singleton answers last inductionHypothesis =>
      rw [failuresSinceOk_snoc, List.map_append]
      unfold noteAnswer
      split
      · exact List.nil_sublist _
      · split
        · exact inductionHypothesis.append (List.Sublist.refl _)
        · exact inductionHypothesis.trans (List.sublist_append_left _ _)

/-- The failures of a user are in the order of the clock. -/
theorem failuresSinceOk_ordered
    {argon2idVerify : Bytes → Bytes → Bool}
    {sec : SecurityManager}
    {attempts : List LoginAttempt}
    (timely : Timely attempts)
    (user : Bytes) :
    (failuresSinceOk user
      ((fresh sec).after argon2idVerify attempts).answers).Pairwise (· ≤ ·) := by
  apply List.Pairwise.sublist (failuresSinceOk_sublist user _)
  rw [after_answers_now]
  exact List.pairwise_map.mpr timely

/-- The failures no more than a window older than the last of them. -/
def recentFailures (policy : Policy) (time : Int) (times : List Int) : List Int :=
  times.filter fun earlier =>
    time - max policy.lockoutWindow 0 ≤ earlier ∧ earlier ≤ time

/-- The open window holds recent failures only. -/
theorem openWindow_length_le_recent
    {policy : Policy}
    {earlier : List Int}
    {time : Int}
    (ordered : (earlier ++ [time]).Pairwise (· ≤ ·)) :
    (AnchoredWindow.openWindow policy.lockoutWindow (2 ^ 32)
        (earlier ++ [time])).length ≤
      (recentFailures policy time (earlier ++ [time])).length := by
  have suffix :=
    AnchoredWindow.openWindow_suffix policy.lockoutWindow (2 ^ 32)
      (earlier ++ [time])
  have recent :
      (AnchoredWindow.openWindow policy.lockoutWindow (2 ^ 32)
          (earlier ++ [time])).filter
          (fun counted =>
            time - max policy.lockoutWindow 0 ≤ counted ∧ counted ≤ time) =
        AnchoredWindow.openWindow policy.lockoutWindow (2 ^ 32)
          (earlier ++ [time]) := by
    apply List.filter_eq_self.mpr
    intro counted member
    exact decide_eq_true (AnchoredWindow.openWindow_within ordered member)
  rw [← recent]
  exact (suffix.sublist.filter _).length_le

/-- Two managers that treat one user alike. -/
structure AlikeFor (user : Bytes) (first second : SecurityManager) : Prop where
  policy : first.policy = second.policy
  users : first.users = second.users
  decoyHash : first.decoyHash = second.decoyHash
  entry : first.lockouts user = second.lockouts user

theorem AlikeFor.locked
    {user : Bytes}
    {first second : SecurityManager}
    (alike : AlikeFor user first second)
    {now : Int} :
    first.Locked user now ↔ second.Locked user now := by
  unfold SecurityManager.Locked
  rw [alike.entry]

/-- What a manager records leaves it alike for the user. -/
theorem AlikeFor.records
    {user : Bytes}
    {first second afterFirst afterSecond : SecurityManager}
    {entry : Option Lockout}
    (alike : AlikeFor user first second)
    (recordsFirst : first.Records user entry afterFirst)
    (recordsSecond : second.Records user entry afterSecond) :
    AlikeFor user afterFirst afterSecond where
  policy := by
    rw [recordsFirst.policy, recordsSecond.policy, alike.policy]
  users := by
    rw [recordsFirst.users, recordsSecond.users, alike.users]
  decoyHash := by
    rw [recordsFirst.decoyHash, recordsSecond.decoyHash, alike.decoyHash]
  entry := by
    rw [recordsFirst.own, recordsSecond.own]

/-- What a call returns depends on the entry of its own user only. -/
theorem AlikeFor.attempt
    {first second : Logins}
    {attempt : LoginAttempt}
    (alike : AlikeFor attempt.username first.sec second.sec) :
    first.outcome argon2idVerify attempt =
        second.outcome argon2idVerify attempt ∧
      AlikeFor attempt.username
        (first.attempt argon2idVerify attempt).sec
        (second.attempt argon2idVerify attempt).sec := by
  have ofFirst := first.sec.authenticate_authenticates argon2idVerify attempt
  have ofSecond := second.sec.authenticate_authenticates argon2idVerify attempt
  simp only [Logins.attempt, outcome]
  generalize first.sec.authenticate argon2idVerify attempt.username
    attempt.password attempt.now = firstResult at ofFirst ⊢
  generalize second.sec.authenticate argon2idVerify attempt.username
    attempt.password attempt.now = secondResult at ofSecond ⊢
  cases ofFirst with
  | lockedOut locked =>
      cases ofSecond with
      | lockedOut _ => exact ⟨rfl, alike⟩
      | ok unlocked => exact absurd (alike.locked.mp locked) unlocked
      | badCredentials unlocked =>
          exact absurd (alike.locked.mp locked) unlocked
  | ok unlocked account verified recordsFirst =>
      cases ofSecond with
      | lockedOut locked => exact absurd (alike.locked.mpr locked) unlocked
      | ok _ otherAccount _ recordsSecond =>
          rw [← alike.users, account, Option.some.injEq] at otherAccount
          subst otherAccount
          exact ⟨rfl, alike.records recordsFirst recordsSecond⟩
      | badCredentials _ rejected =>
          have refused := rejected _ (by rw [← alike.users]; exact account)
          rw [verified] at refused
          cases refused
  | badCredentials unlocked rejected recordsFirst =>
      cases ofSecond with
      | lockedOut locked => exact absurd (alike.locked.mpr locked) unlocked
      | ok _ account verified =>
          have refused := rejected _ (by rw [alike.users]; exact account)
          rw [verified] at refused
          cases refused
      | badCredentials _ _ recordsSecond =>
          rw [← alike.policy, ← alike.entry] at recordsSecond
          exact ⟨rfl, alike.records recordsFirst recordsSecond⟩

/-- A call of another user leaves a manager alike. -/
theorem AlikeFor.other
    {user : Bytes}
    {first second : Logins}
    {attempt : LoginAttempt}
    (alike : AlikeFor user first.sec second.sec)
    (different : attempt.username ≠ user) :
    AlikeFor user (first.attempt argon2idVerify attempt).sec second.sec := by
  obtain ⟨entry, records⟩ := attempt_records argon2idVerify first attempt
  refine ⟨?_, ?_, ?_, ?_⟩
  · rw [records.policy, alike.policy]
  · rw [records.users, alike.users]
  · rw [records.decoyHash, alike.decoyHash]
  · rw [attempt_other different, alike.entry]

/-- The calls of other users can be left out. -/
theorem AlikeFor.after
    {user : Bytes}
    {first second : Logins}
    (alike : AlikeFor user first.sec second.sec)
    (attempts : List LoginAttempt) :
    AlikeFor user (first.after argon2idVerify attempts).sec
      (second.after argon2idVerify
        (attempts.filter fun attempt => attempt.username = user)).sec := by
  induction attempts generalizing first second with
  | nil =>
      exact alike
  | cons attempt rest inductionHypothesis =>
      by_cases own : attempt.username = user
      · subst own
        rw [List.filter_cons_of_pos (by simp)]
        exact inductionHypothesis alike.attempt.2
      · rw [List.filter_cons_of_neg (by simpa using own)]
        exact inductionHypothesis (alike.other own)

/--
A call is refused only while a lock of its user stands: a failure less than
the duration ago, with enough failures in the window up to it, and no success
since.  A refused call changes nothing, and neither do other users.
-/
theorem no_false_lockout
    (argon2idVerify : Bytes → Bytes → Bool)
    (sec : SecurityManager)
    (attempts : List LoginAttempt)
    (next : LoginAttempt)
    (timely : Timely attempts)
    (started : 0 ≤ next.now) :
    let logins := (fresh sec).after argon2idVerify attempts
    let own :=
      (fresh sec).after argon2idVerify
        (attempts.filter fun attempt => attempt.username = next.username)
    ((logins.outcome argon2idVerify next).status = .known .lockedOut →
        ∃ before answer later,
          logins.answers = before ++ answer :: later ∧
            answer.Failed next.username ∧
            next.now < answer.now + sec.policy.lockoutDuration ∧
            (∀ other ∈ later, ¬other.Succeeded next.username) ∧
            sec.policy.maxFailedAttempts.toNat ≤
              (recentFailures sec.policy answer.now
                (failuresSinceOk next.username (before ++ [answer]))).length) ∧
      ((logins.outcome argon2idVerify next).status = .known .lockedOut →
        (logins.attempt argon2idVerify next).sec = logins.sec) ∧
      logins.outcome argon2idVerify next = own.outcome argon2idVerify next := by
  intro logins own
  have tracks := after_tracks argon2idVerify sec attempts
  refine ⟨?_, ?_, ?_⟩
  · intro refused
    obtain ⟨lk, entry, ahead⟩ := outcome_lockedOut_iff.mp refused
    have isEntry := (tracks.entries next.username).symm.trans entry
    rcases Lockout.ofFailures_lockedUntil sec.policy isEntry
      with unset | ⟨earlier, time, later, split, isLock, reached⟩
    · rw [unset] at ahead
      exact absurd started (not_le.mpr ahead)
    · obtain ⟨before, answer, rest, shape, failed, rfl, isEarlier, none⟩ :=
        failuresSinceOk_split split
      refine ⟨before, answer, rest, shape, failed, isLock ▸ ahead, none, ?_⟩
      have noted :
          failuresSinceOk next.username (before ++ [answer]) =
            earlier ++ [answer.now] := by
        have notOk : ¬answer.Succeeded next.username := by
          intro succeeded
          have both := failed.2.symm.trans succeeded.2
          simp at both
        rw [failuresSinceOk_snoc, isEarlier, noteAnswer, if_neg notOk,
          if_pos failed]
      have ordered : (earlier ++ [answer.now]).Pairwise (· ≤ ·) := by
        have all :
            (failuresSinceOk next.username logins.answers).Pairwise (· ≤ ·) :=
          failuresSinceOk_ordered timely next.username
        rw [split] at all
        exact all.sublist (by simp)
      rw [noted]
      exact reached.trans (openWindow_length_le_recent ordered)
  · intro refused
    exact attempt_locked (outcome_lockedOut_iff.mp refused)
  · have alike : AlikeFor next.username (fresh sec).sec (fresh sec).sec :=
      ⟨rfl, rfl, rfl, rfl⟩
    exact (alike.after attempts).attempt.1

theorem no_false_lockout_default :
    ∃ before answer later,
      ((fresh { decoyHash := [] }).after rejectAll
          ([0, 10, 20, 30, 40].map wrongGuess)).answers =
        before ++ answer :: later ∧
        answer.Failed (wrongGuess 339).username ∧
        (wrongGuess 339).now < answer.now + seconds 300 ∧
        (∀ other ∈ later, ¬other.Succeeded (wrongGuess 339).username) ∧
        5 ≤
          (recentFailures {} answer.now
            (failuresSinceOk (wrongGuess 339).username
              (before ++ [answer]))).length :=
  (no_false_lockout rejectAll { decoyHash := [] }
    ([0, 10, 20, 30, 40].map wrongGuess) (wrongGuess 339) (by decide)
    (by decide)).1 (by decide)

/--
With a window of minus one second one failure locks although none lies within
such a window, and a clock that reads before its epoch finds the first failure
of an account locked.
-/
theorem lockout_without_failures :
    let policy : Policy :=
      { maxFailedAttempts := 1, lockoutWindow := seconds (-1) }
    let shrunk :=
      (fresh { policy := policy, decoyHash := [] }).after rejectAll
        [wrongGuess 10]
    let early := (fresh { decoyHash := [] }).after rejectAll [wrongGuess (-20)]
    ((shrunk.outcome rejectAll (wrongGuess 11)).status = .known .lockedOut ∧
        ∀ time ∈ failuresSinceOk (wrongGuess 11).username shrunk.answers,
          ¬(seconds 10 - policy.lockoutWindow ≤ time ∧ time ≤ seconds 10)) ∧
      (early.outcome rejectAll (wrongGuess (-10))).status =
          .known .lockedOut ∧
        failuresSinceOk (wrongGuess (-10)).username early.answers =
          [seconds (-20)] := by
  decide

end Logins

end RadminPro
