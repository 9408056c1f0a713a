import RadminPro.LockoutBound

namespace RadminPro

open ByteCodec

/-!
# Runs of concurrent logins

In a run that leaves room for the calls in flight, the guesses of a streak are
exactly the recorded failures and the wrong passwords about to be recorded, and
a lock is set only when no other call of the user is in flight.  After a lock
that took hold the recorded failures stay at the limit until they expire, and
only the wrong passwords about to be recorded are guesses of the new streak.
-/

namespace LoginSystem

/-- The first of the failures on record for a user. -/
def windowStart (sec : SecurityManager) (user : Bytes) : Option Int :=
  (sec.lockouts user).bind fun lk =>
    if lk.failures = 0 then
      none
    else
      some lk.firstFailure

/-- Every guess is on record or about to be, and the record is below the limit. -/
structure Counted
    (user : Bytes)
    (system : LoginSystem)
    (streak : Streak) : Prop where
  guesses :
    streak.guesses =
      failures system.sec user + pendingWrong user system.calls
  below :
    failures system.sec user < system.sec.policy.maxFailedAttempts.toNat
  window : streak.firstFailure = windowStart system.sec user

/-- The record is at the limit, and its lock has begun a new streak. -/
structure LockedOut
    (user : Bytes)
    (system : LoginSystem)
    (streak : Streak) : Prop where
  guesses : streak.guesses = pendingWrong user system.calls
  reached :
    system.sec.policy.maxFailedAttempts.toNat ≤ failures system.sec user
  window : streak.firstFailure = none

/-- The invariant of the runs that leave room for the calls in flight. -/
structure Guarded
    (user : Bytes)
    (system : LoginSystem)
    (streak : Streak) : Prop where
  positive : 0 < system.sec.policy.maxFailedAttempts.toNat
  timed : ∀ call ∈ system.calls, call.now ≤ system.clock
  room :
    inFlight user system.calls ≤ 1 ∨
      failures system.sec user + inFlight user system.calls ≤
        system.sec.policy.maxFailedAttempts.toNat
  locks :
    ∀ lockedUntil,
      .lockSet user lockedUntil ∈ system.history →
      system.clock < lockedUntil →
      inFlight user system.calls = 0 ∧
        ∃ lk,
          system.sec.lockouts user = some lk ∧ lockedUntil ≤ lk.lockedUntil
  tally : Counted user system streak ∨ LockedOut user system streak

/-- The failures of an entry that is not there. -/
@[simp] theorem failures_none
    {sec : SecurityManager}
    {user : Bytes}
    (entry : sec.lockouts user = none) :
    failures sec user = 0 := by
  simp [failures, entry]

@[simp] theorem failures_some
    {sec : SecurityManager}
    {user : Bytes}
    {lk : Lockout}
    (entry : sec.lockouts user = some lk) :
    failures sec user = lk.failures.toNat := by
  simp [failures, entry]

/-- The failures on record are those of the entry. -/
theorem failures_congr
    {sec other : SecurityManager}
    {user : Bytes}
    (entry : other.lockouts user = sec.lockouts user) :
    failures other user = failures sec user := by
  rw [failures, failures, entry]

/-- So is the first of them. -/
theorem windowStart_congr
    {sec other : SecurityManager}
    {user : Bytes}
    (entry : other.lockouts user = sec.lockouts user) :
    windowStart other user = windowStart sec user := by
  rw [windowStart, windowStart, entry]

/-- A window has started as soon as a failure is on record. -/
theorem windowStart_eq_none
    {sec : SecurityManager}
    {user : Bytes} :
    windowStart sec user = none ↔ failures sec user = 0 := by
  cases entry : sec.lockouts user with
  | none =>
      simp [windowStart, entry]
  | some lk =>
      rw [failures_some entry, ← UInt32.toNat_zero, UInt32.toNat_inj]
      simp [windowStart, entry]

/-- A fresh state is guarded. -/
theorem Fresh.guarded
    {user : Bytes}
    {system : LoginSystem}
    (fresh : Fresh user system)
    (positive : system.sec.policy.maxFailedAttempts ≠ 0) :
    Guarded user system {} := by
  have above : 0 < system.sec.policy.maxFailedAttempts.toNat := by
    have := UInt32.toNat_inj.not.mpr positive
    simp at this
    omega
  have none : failures system.sec user = 0 :=
    failures_none fresh.lockouts
  exact {
    positive := above
    timed := by simp [fresh.calls]
    room := .inl (by simp [fresh.calls, inFlight])
    locks := by simp [fresh.history]
    tally := .inl {
      guesses := by simp [none, fresh.calls, pendingWrong]
      below := by rwa [none]
      window := (windowStart_eq_none.mpr none).symm } }

/-- A guarded state meets the bound. -/
theorem Guarded.bruteForceBound
    {user : Bytes}
    {system : LoginSystem}
    {streak : Streak}
    (guarded : Guarded user system streak) :
    BruteForceBound user system streak where
  bounded := by
    have positive := guarded.positive
    have pendingBelow := pendingWrong_le_inFlight user system.calls
    rcases guarded.tally with counted | lockedOut
    · have below := counted.below
      rw [counted.guesses]
      rcases guarded.room with alone | room <;>
        omega
    · have reached := lockedOut.reached
      rw [lockedOut.guesses]
      rcases guarded.room with alone | room <;>
        omega
  lockStands lockedUntil member ahead :=
    (guarded.locks lockedUntil member ahead).2

section Records

variable {sec : SecurityManager} {user : Bytes} {now : Int}

/-- The failures on record count all or not at all. -/
theorem standing_eq (sec : SecurityManager) (user : Bytes) (now : Int) :
    standing sec user now = 0 ∨
      standing sec user now = failures sec user := by
  unfold standing failures Lockout.expire
  split
  · exact .inl rfl
  · exact .inr rfl

/-- A window that is over leaves no failure standing. -/
theorem standing_of_over
    {streak : Streak}
    (window : streak.firstFailure = windowStart sec user)
    (isOver : streak.Over sec.policy now) :
    standing sec user now = 0 := by
  rcases standing_eq sec user now with none | all
  · exact none
  · rw [all]
    by_contra some
    cases entry : sec.lockouts user with
    | none =>
        exact some (failures_none entry)
    | some lk =>
        have counts : lk.failures ≠ 0 := by
          rintro none
          exact some (by rw [failures_some entry, none]; rfl)
        have start : lk.firstFailure ∈ streak.firstFailure := by
          simp [window, windowStart, entry, counts]
        have expired := isOver _ start
        rw [standing, entry, Option.getD_some, Lockout.expire, if_pos expired,
          failures_some entry] at all
        rw [failures_some entry] at some
        exact some all.symm

/-- A window that is not over keeps the entry as it is. -/
theorem expire_of_not_over
    {streak : Streak}
    (window : streak.firstFailure = windowStart sec user)
    (notOver : ¬streak.Over sec.policy now)
    {lk : Lockout}
    (entry : sec.lockouts user = some lk) :
    lk.expire sec.policy now = lk := by
  unfold Lockout.expire
  split
  · next expired =>
      refine absurd (fun first isFirst => ?_) notOver
      rw [window, windowStart, entry, Option.bind_some] at isFirst
      split at isFirst
      · cases isFirst
      · rw [Option.mem_some_iff] at isFirst
        rwa [← isFirst]
  · rfl

/-- A window that is not over leaves all failures standing. -/
theorem standing_of_not_over
    {streak : Streak}
    (window : streak.firstFailure = windowStart sec user)
    (notOver : ¬streak.Over sec.policy now) :
    standing sec user now = failures sec user := by
  cases entry : sec.lockouts user with
  | none =>
      refine absurd (fun first isFirst => ?_) notOver
      simp [window, windowStart, entry] at isFirst
  | some lk =>
      rw [standing, entry, Option.getD_some,
        expire_of_not_over window notOver entry, failures_some entry]

/-- The lock check leaves the failures that stand. -/
theorem failures_of_checked
    {after : SecurityManager}
    (entry : after.lockouts user =
      (sec.lockouts user).map (Lockout.expire sec.policy now)) :
    failures after user = standing sec user now := by
  rw [failures, standing, entry]
  cases sec.lockouts user with
  | none =>
      rw [Option.map_none, Option.getD_none, Lockout.expire]
      split <;> rfl
  | some lk =>
      rfl

/-- The entry after a failure counts it, and is locked at the limit. -/
theorem recordFailure_entry (sec : SecurityManager) (user : Bytes) (now : Int) :
    ∃ lk,
      (sec.recordFailure user now).lockouts user = some lk ∧
        lk.failures =
          (((sec.lockouts user).getD {}).count sec.policy now).failures ∧
        lk.firstFailure =
          (((sec.lockouts user).getD {}).count sec.policy now).firstFailure ∧
        (lk.failures ≥ sec.policy.maxFailedAttempts →
          lk.lockedUntil = now + sec.policy.lockoutDuration) := by
  refine ⟨_, by simp [SecurityManager.recordFailure]; rfl, ?_, ?_, ?_⟩
  · split <;> rfl
  · split <;> rfl
  · split
    · exact fun _ => rfl
    · next below =>
        exact fun reached => absurd reached below

/-- A failure is counted on top of those that stand. -/
theorem failures_recordFailure
    (noWrap : standing sec user now + 1 < UInt32.size) :
    failures (sec.recordFailure user now) user =
      standing sec user now + 1 := by
  obtain ⟨lk, entry, counted, _⟩ := recordFailure_entry sec user now
  rw [failures_some entry, counted, standing, Lockout.count]
  rw [standing] at noWrap
  generalize (sec.lockouts user).getD {} = record at noWrap ⊢
  unfold Lockout.expire at noWrap ⊢
  by_cases expired : now - record.firstFailure > sec.policy.lockoutWindow
  · simp [expired]
  · by_cases none : record.failures = 0
    · simp [expired, none]
    · simp only [expired, if_false] at noWrap
      simp only [expired, none, or_self, if_false, UInt32.toNat_add]
      exact Nat.mod_eq_of_lt noWrap

/-- A failure opens a window when none stands, and keeps the window otherwise. -/
theorem windowStart_recordFailure
    (noWrap : standing sec user now + 1 < UInt32.size) :
    windowStart (sec.recordFailure user now) user =
      if standing sec user now = 0 then
        some now
      else
        windowStart sec user := by
  have more := failures_recordFailure noWrap
  obtain ⟨lk, entry, _, start, _⟩ := recordFailure_entry sec user now
  have counts : lk.failures ≠ 0 := by
    intro none
    rw [failures_some entry, none] at more
    simp at more
  have isStart :
      windowStart (sec.recordFailure user now) user = some lk.firstFailure := by
    simp [windowStart, entry, counts]
  rw [isStart, start, standing, Lockout.count, windowStart]
  cases sec.lockouts user with
  | none =>
      simp [Lockout.expire]
  | some record =>
      simp only [Option.getD_some, Option.bind_some, Lockout.expire]
      by_cases expired : now - record.firstFailure > sec.policy.lockoutWindow
      · simp [expired]
      · by_cases none : record.failures = 0
        · simp [expired, none]
        · have some : record.failures.toNat ≠ 0 :=
            UInt32.toNat_inj.not.mpr none
          simp [expired, none, some]

/-- A failure that reaches the limit sets a lock. -/
theorem lockAfter_recordFailure (sec : SecurityManager) (user : Bytes) (now : Int) :
    AuthCall.lockAfter (sec.recordFailure user now) user =
      if sec.policy.maxFailedAttempts.toNat ≤
          failures (sec.recordFailure user now) user then
        some (now + sec.policy.lockoutDuration)
      else
        none := by
  obtain ⟨lk, entry, _, _, locks⟩ := recordFailure_entry sec user now
  rw [AuthCall.lockAfter, entry, Option.bind_some, failures_some entry]
  by_cases reached : lk.failures ≥ sec.policy.maxFailedAttempts
  · rw [SecurityManager.recordFailure_policy, if_pos reached,
      if_pos (UInt32.le_iff_toNat_le.mp reached), locks reached]
  · rw [SecurityManager.recordFailure_policy, if_neg reached,
      if_neg (UInt32.le_iff_toNat_le.not.mp reached)]

/-- A lock that was just set stands, and the record has reached the limit. -/
theorem lockAfter_some
    {lockedUntil : Int}
    (isLock : AuthCall.lockAfter sec user = some lockedUntil) :
    sec.policy.maxFailedAttempts.toNat ≤ failures sec user ∧
      ∃ lk, sec.lockouts user = some lk ∧ lockedUntil ≤ lk.lockedUntil := by
  cases entry : sec.lockouts user with
  | none =>
      simp [AuthCall.lockAfter, entry] at isLock
  | some lk =>
      simp only [AuthCall.lockAfter, entry, Option.bind_some] at isLock
      split at isLock
      · next reached =>
          rw [Option.some.injEq] at isLock
          refine ⟨?_, lk, rfl, isLock.ge⟩
          rw [failures_some entry]
          exact UInt32.le_iff_toNat_le.mp reached
      · cases isLock

end Records

section Effects

variable {user : Bytes} {before after : LoginSystem} {events : List AuthEvent}
variable {streak streakAfter : Streak}

/-- The failures that stand are among the failures on record. -/
theorem standing_le (sec : SecurityManager) (user : Bytes) (now : Int) :
    standing sec user now ≤ failures sec user := by
  rcases standing_eq sec user now with none | all
  · exact none ▸ Nat.zero_le _
  · exact all.le

/-- Every effect keeps room for the calls in flight. -/
theorem UserEffect.room
    (effect : UserEffect user before after streak streakAfter events)
    (policy : after.sec.policy = before.sec.policy)
    (room :
      inFlight user before.calls ≤ 1 ∨
        failures before.sec user + inFlight user before.calls ≤
          before.sec.policy.maxFailedAttempts.toNat) :
    inFlight user after.calls ≤ 1 ∨
      failures after.sec user + inFlight user after.calls ≤
        after.sec.policy.maxFailedAttempts.toNat := by
  rw [policy]
  cases effect with
  | quiet entry flying pending others =>
      rwa [flying, failures_congr entry]
  | admitted call member unlocked entry leaves flying pending =>
      rw [failures_of_checked entry]
      omega
  | verified ok entry busy flying pending =>
      rwa [flying, failures_congr entry]
  | accepted entry flying =>
      rw [failures_none entry]
      omega
  | failed call inTime noWrap recorded flying pending =>
      have fewer := standing_le before.sec user call.now
      rw [recorded, failures_recordFailure noWrap]
      omega

/-- Every effect keeps the locks that have not run out. -/
theorem UserEffect.locks
    (effect : UserEffect user before after streak streakAfter events)
    (guarded : Guarded user before streak)
    (clock : after.clock = before.clock)
    (policy : after.sec.policy = before.sec.policy)
    (history : after.history = before.history ++ events)
    {lockedUntil : Int}
    (member : .lockSet user lockedUntil ∈ after.history)
    (ahead : after.clock < lockedUntil) :
    inFlight user after.calls = 0 ∧
      ∃ lk,
        after.sec.lockouts user = some lk ∧ lockedUntil ≤ lk.lockedUntil := by
  rw [clock] at ahead
  rw [history, List.mem_append] at member
  rcases member with earlier | new
  · obtain ⟨idle, lk, standing, covers⟩ :=
      guarded.locks lockedUntil earlier ahead
    cases effect with
    | quiet entry flying pending others =>
        exact ⟨by omega, lk, by rw [entry, standing], covers⟩
    | admitted call member unlocked entry leaves flying pending =>
        have ranOut := SecurityManager.isLocked_false unlocked standing
        have := guarded.timed call member
        omega
    | verified ok entry busy flying pending =>
        omega
    | accepted entry flying =>
        omega
    | failed call inTime noWrap recorded flying pending =>
        omega
  · cases effect with
    | quiet entry flying pending others =>
        exact absurd rfl (others _ new)
    | admitted call member unlocked entry leaves flying pending =>
        simp at new
    | verified ok entry busy flying pending =>
        simp at new
    | accepted entry flying =>
        simp at new
    | failed call inTime noWrap recorded flying pending =>
        have isLock : AuthCall.lockAfter after.sec user = some lockedUntil := by
          simpa using new
        obtain ⟨reached, stands⟩ := lockAfter_some isLock
        have fewer := standing_le before.sec user call.now
        rw [recorded, failures_recordFailure noWrap, ← recorded, policy] at reached
        refine ⟨?_, stands⟩
        rcases guarded.room with alone | room <;>
          omega

/-- What a streak is after a recorded failure, before a lock ends it. -/
theorem tally_failed
    {sec : SecurityManager}
    {now : Int}
    {waiting : Nat}
    (noWrap : standing sec user now + 1 < UInt32.size)
    (guesses : streak.guesses = failures sec user + (waiting + 1))
    (window : streak.firstFailure = windowStart sec user) :
    (streak.failed sec.policy waiting now).guesses =
        failures (sec.recordFailure user now) user + waiting ∧
      (streak.failed sec.policy waiting now).firstFailure =
        windowStart (sec.recordFailure user now) user := by
  rw [failures_recordFailure noWrap, windowStart_recordFailure noWrap,
    Streak.failed]
  by_cases isOver : streak.Over sec.policy now
  · rw [if_pos isOver, standing_of_over window isOver]
    exact ⟨Nat.add_comm waiting 1 ▸ by simp, rfl⟩
  · have all := standing_of_not_over window isOver
    rw [if_neg isOver, all]
    constructor
    · omega
    · rw [if_neg, window]
      intro none
      refine isOver fun first isFirst => ?_
      rw [window, windowStart_eq_none.mpr none] at isFirst
      cases isFirst

/-- Every effect keeps the tally of the guesses. -/
theorem UserEffect.tally
    (effect : UserEffect user before after streak streakAfter events)
    (positive : 0 < before.sec.policy.maxFailedAttempts.toNat)
    (policy : after.sec.policy = before.sec.policy)
    (tally : Counted user before streak ∨ LockedOut user before streak) :
    Counted user after streakAfter ∨ LockedOut user after streakAfter := by
  cases effect with
  | quiet entry flying pending others =>
      have sameFailures := failures_congr entry
      refine tally.imp (fun counted => ?_) fun lockedOut => ?_
      · refine ⟨?_, ?_, ?_⟩
        · rw [counted.guesses, sameFailures, pending]
        · rw [sameFailures, policy]
          exact counted.below
        · rw [counted.window, windowStart_congr entry]
      · refine ⟨?_, ?_, lockedOut.window⟩
        · rw [lockedOut.guesses, pending]
        · rw [sameFailures, policy]
          exact lockedOut.reached
  | admitted call member unlocked entry leaves flying pending =>
      have stands := failures_of_checked entry
      have ofNone :
          standing before.sec user call.now = 0 →
          Counted user after { guesses := pendingWrong user after.calls } := by
        intro none
        rw [none] at stands
        refine ⟨?_, ?_, ?_⟩
        · rw [stands, Nat.zero_add]
        · rwa [stands, policy]
        · exact (windowStart_eq_none.mpr stands).symm
      rw [Streak.checked]
      rcases tally with counted | lockedOut
      · by_cases isOver : streak.Over before.sec.policy call.now
        · rw [if_pos isOver]
          exact .inl (ofNone (standing_of_over counted.window isOver))
        · rw [standing_of_not_over counted.window isOver] at stands
          rw [if_neg isOver]
          refine .inl ⟨?_, ?_, ?_⟩
          · rw [stands, pending, counted.guesses]
          · rw [stands, policy]
            exact counted.below
          · rw [counted.window, windowStart_congr]
            rw [entry]
            cases was : before.sec.lockouts user with
            | none =>
                rfl
            | some lk =>
                rw [Option.map_some,
                  expire_of_not_over counted.window isOver was]
      · rw [if_pos (Streak.over_of_none lockedOut.window _ _)]
        rcases standing_eq before.sec user call.now with none | all
        · exact .inl (ofNone none)
        · refine .inr ⟨rfl, ?_, rfl⟩
          rw [stands, all, policy]
          exact lockedOut.reached
  | verified ok entry busy flying pending =>
      have sameFailures := failures_congr entry
      have guesses :
          (if ok then streak else streak.guessed).guesses =
            streak.guesses + (if ok then 0 else 1) := by
        cases ok <;> rfl
      have window :
          (if ok then streak else streak.guessed).firstFailure =
            streak.firstFailure := by
        cases ok <;> rfl
      refine tally.imp (fun counted => ?_) fun lockedOut => ?_
      · refine ⟨?_, ?_, ?_⟩
        · rw [guesses, counted.guesses, sameFailures, pending, Nat.add_assoc]
        · rw [sameFailures, policy]
          exact counted.below
        · rw [window, counted.window, windowStart_congr entry]
      · refine ⟨?_, ?_, ?_⟩
        · rw [guesses, lockedOut.guesses, pending]
        · rw [sameFailures, policy]
          exact lockedOut.reached
        · rw [window, lockedOut.window]
  | accepted entry flying =>
      have none := failures_none entry
      refine .inl ⟨?_, ?_, ?_⟩
      · rw [none, Nat.zero_add]
      · rwa [none, policy]
      · exact (windowStart_eq_none.mpr none).symm
  | failed call inTime noWrap recorded flying pending =>
      have failuresAfter :
          failures after.sec user = standing before.sec user call.now + 1 := by
        rw [recorded, failures_recordFailure noWrap]
      have lock := lockAfter_recordFailure before.sec user call.now
      rw [← recorded, failuresAfter] at lock
      rw [lock]
      by_cases reached :
          before.sec.policy.maxFailedAttempts.toNat ≤
            standing before.sec user call.now + 1
      · rw [if_pos reached, Streak.locked_some _ _ (inTime reached)]
        exact .inr ⟨rfl, by rwa [failuresAfter, policy], rfl⟩
      · rw [if_neg reached, Streak.locked_none]
        have below :
            failures after.sec user <
              after.sec.policy.maxFailedAttempts.toNat := by
          rw [failuresAfter, policy]
          exact Nat.lt_of_not_le reached
        rcases tally with counted | lockedOut
        · have guesses := counted.guesses
          rw [← pending] at guesses
          obtain ⟨sameGuesses, sameWindow⟩ :=
            tally_failed noWrap guesses counted.window
          rw [← recorded] at sameGuesses sameWindow
          exact .inl ⟨sameGuesses, below, sameWindow⟩
        · have none : standing before.sec user call.now = 0 := by
            rcases standing_eq before.sec user call.now with none | all
            · exact none
            · have := lockedOut.reached
              omega
          rw [Streak.failed, if_pos (Streak.over_of_none lockedOut.window _ _)]
          refine .inl ⟨?_, below, ?_⟩
          · rw [failuresAfter, none, Nat.add_comm]
          · rw [recorded, windowStart_recordFailure noWrap, if_pos none]

end Effects

/-- A section keeps the time of its call and the limits of the lockout. -/
theorem Advances.call
    {argon2idVerify : Bytes → Bytes → Bool}
    {sec secAfter : SecurityManager}
    {call next : AuthCall}
    {events : List AuthEvent}
    (advances : Advances argon2idVerify sec call next secAfter events) :
    next.now = call.now ∧ secAfter.policy = sec.policy := by
  cases advances with
  | refused phase locked =>
      exact ⟨rfl, rfl⟩
  | admitted phase unlocked known hashToCheck rights =>
      exact ⟨rfl, SecurityManager.isLocked_policy _ _⟩
  | verified phase ok =>
      exact ⟨rfl, rfl⟩
  | succeeded phase =>
      exact ⟨rfl, rfl⟩
  | failed phase =>
      exact ⟨rfl, rfl⟩
  | done outcome phase =>
      exact ⟨rfl, rfl⟩

/-- Time passing keeps the invariant. -/
theorem Guarded.tick
    {user : Bytes}
    {system : LoginSystem}
    {streak : Streak}
    (guarded : Guarded user system streak)
    (elapsed : Nat) :
    Guarded user { system with clock := system.clock + elapsed } streak where
  positive := guarded.positive
  timed call member :=
    (guarded.timed call member).trans (by simp)
  room := guarded.room
  locks lockedUntil member ahead :=
    guarded.locks lockedUntil member (by simp at ahead; omega)
  tally :=
    guarded.tally.imp
      (fun counted => ⟨counted.guesses, counted.below, counted.window⟩)
      fun lockedOut => ⟨lockedOut.guesses, lockedOut.reached, lockedOut.window⟩

/-- A call that is entered keeps the invariant. -/
theorem Guarded.enter
    {user : Bytes}
    {system : LoginSystem}
    {streak : Streak}
    (guarded : Guarded user system streak)
    (username password : Bytes) :
    Guarded user
      { system with
        calls :=
          system.calls ++ [{ username, password, now := system.clock }] }
      streak := by
  have flying :
      inFlight user
          (system.calls ++ [{ username, password, now := system.clock }]) =
        inFlight user system.calls := by
    simp [inFlight, AuthCall.inFlight]
  have pending :
      pendingWrong user
          (system.calls ++ [{ username, password, now := system.clock }]) =
        pendingWrong user system.calls := by
    simp [pendingWrong, AuthCall.pendingWrong]
  refine {
    positive := guarded.positive
    timed := ?_
    room := by rw [flying]; exact guarded.room
    locks := by rw [flying]; exact guarded.locks
    tally := ?_ }
  · intro call member
    rcases List.mem_append.mp member with old | new
    · exact guarded.timed call old
    · rw [List.mem_singleton.mp new]
  · refine guarded.tally.imp (fun counted => ?_) fun lockedOut => ?_
    · exact ⟨by rw [pending]; exact counted.guesses, counted.below,
        counted.window⟩
    · exact ⟨by rw [pending]; exact lockedOut.guesses, lockedOut.reached,
        lockedOut.window⟩

/-- A section of a call keeps the invariant if it leaves room. -/
theorem Guarded.advance
    {argon2idVerify : Bytes → Bytes → Bool}
    {user : Bytes}
    {before after : LoginSystem}
    {streak : Streak}
    {index : Nat}
    {call next : AuthCall}
    {secAfter : SecurityManager}
    {events : List AuthEvent}
    (guarded : Guarded user before streak)
    (stood : before.calls[index]? = some call)
    (isAfter : after =
      { before with
        sec := secAfter
        calls := before.calls.set index next
        history := before.history ++ events })
    (advances : Advances argon2idVerify before.sec call next secAfter events)
    (room : call.username = user → LeavesRoomFor user before call) :
    Guarded user after
      (if call.username = user then
        streak.afterSection user before after call next
      else
        streak) := by
  obtain ⟨sameTime, samePolicy⟩ := Advances.call advances
  have effect :
      UserEffect user before after streak
        (if call.username = user then
          streak.afterSection user before after call next
        else
          streak) events := by
    by_cases own : call.username = user
    · rw [if_pos own]
      exact .ofOwn stood (by rw [isAfter]) (by rw [isAfter]) advances own
        (room own) streak
    · rw [if_neg own]
      exact .ofOther stood (by rw [isAfter]) (by rw [isAfter]) advances own
        streak
  have clock : after.clock = before.clock := by
    rw [isAfter]
  have policy : after.sec.policy = before.sec.policy := by
    rw [isAfter]
    exact samePolicy
  have history : after.history = before.history ++ events := by
    rw [isAfter]
  refine {
    positive := by rw [policy]; exact guarded.positive
    timed := ?_
    room := effect.room policy guarded.room
    locks := fun _ => effect.locks guarded clock policy history
    tally := effect.tally guarded.positive policy guarded.tally }
  intro each isCall
  rw [clock]
  simp only [isAfter] at isCall
  rcases List.mem_or_eq_of_mem_set isCall with old | new
  · exact guarded.timed each old
  · rw [new, sameTime]
    exact guarded.timed call (List.mem_of_getElem? stood)

/-- Every step that leaves room keeps the invariant. -/
theorem Guarded.step
    {argon2idVerify : Bytes → Bytes → Bool}
    {user : Bytes}
    {system : LoginSystem}
    {streak : Streak}
    (guarded : Guarded user system streak)
    {action : LoginAction}
    (room : LeavesRoom user system action) :
    Guarded user (system.step argon2idVerify action)
      (streak.observe argon2idVerify user system action) := by
  cases action with
  | tick elapsed =>
      exact guarded.tick elapsed
  | enter username password =>
      exact guarded.enter username password
  | advance index =>
      cases stood : system.calls[index]? with
      | none =>
          simpa [LoginSystem.step, Streak.observe, stood] using guarded
      | some call =>
          have advances := call.advance_advances argon2idVerify system.sec
          simp only [Streak.observe, stood]
          exact
            guarded.advance stood (by simp only [LoginSystem.step, stood])
              advances (room call (by simp [stood]))

end LoginSystem

/--
In every run from the start of the server in which each login leaves room for
the ones in flight, guessing is bounded and locks stand.
-/
theorem lockout_bounds_guessing
    (argon2idVerify : Bytes → Bytes → Bool)
    (user : Bytes)
    (system : LoginSystem)
    (fresh : LoginSystem.Fresh user system)
    (positive : system.sec.policy.maxFailedAttempts ≠ 0)
    (actions : List LoginAction)
    (room :
      StepRuns.Allowed (LoginSystem.step argon2idVerify)
        (LoginSystem.LeavesRoom user) system actions) :
    LoginSystem.BruteForceBound user
      (StepRuns.run (LoginSystem.step argon2idVerify) system actions)
      (LoginSystem.streakAfter argon2idVerify user system actions) :=
  (room.watched_invariant
    (fun _ _ _ leavesRoom guarded => guarded.step leavesRoom)
    (fresh.guarded positive)).bruteForceBound

/-- The account of the sample runs. -/
def adminRecord : UserRecord where
  username := ascii "admin"
  argon2Hash := ascii "$argon2id$v=19$m=65536,t=3,p=1$c2FsdA$aGFzaA"
  rights := R_AllAccess

/-- A verifier that knows the password of the sample account. -/
def adminVerify (encoded password : Bytes) : Bool :=
  encoded = adminRecord.argon2Hash && password = ascii "correct horse"

/-- A server with one account and nobody logging in. -/
def idleLogins : LoginSystem where
  clock := seconds 1000
  sec :=
    { decoyHash := ascii "$argon2id$v=19$m=65536,t=3,p=1$ZGVjb3k$ZGVjb3k" :
      SecurityManager }.addUser adminRecord

/-- A login that runs through all its sections before anything else happens. -/
def loginAlone (password : String) (call : Nat) : List LoginAction :=
  [.enter (ascii "admin") (ascii password), .advance call, .advance call,
    .advance call]

/-- Guesses one after the other, the calls numbered as they are made. -/
def guessesAlone (calls : List Nat) : List LoginAction :=
  calls.flatMap (loginAlone "guess")

/--
Four guesses and a success, four guesses whose window then runs out, five
guesses that lock the account and a sixth that is refused.
-/
def sequentialLogins : List LoginAction :=
  guessesAlone [0, 1, 2, 3] ++ loginAlone "correct horse" 4 ++
    guessesAlone [5, 6, 7, 8] ++ [.tick 300000000001] ++
    guessesAlone [9, 10, 11, 12, 13, 14]

/-- Six guesses that pass the lock check before any of them is recorded. -/
def burstOfGuesses : List LoginAction :=
  List.replicate 6 (.enter (ascii "admin") (ascii "guess")) ++
    (List.range 6).map .advance ++ (List.range 6).map .advance

/-- A right password, verified before five guesses and recorded after them. -/
def lateSuccess : List LoginAction :=
  [.enter (ascii "admin") (ascii "correct horse"), .advance 0, .advance 0] ++
    guessesAlone [1, 2, 3, 4, 5] ++ [.advance 0]

/--
Four guesses, a fifth that is recorded when the lock it sets is over already,
and a sixth that is verified.
-/
def lateLock : List LoginAction :=
  guessesAlone [0, 1, 2, 3] ++
    [.enter (ascii "admin") (ascii "guess"), .advance 4, .advance 4,
      .tick 300000000000, .advance 4,
      .enter (ascii "admin") (ascii "guess"), .advance 5, .advance 5]

/-- The state before the first login is fresh. -/
theorem idleLogins_fresh (user : Bytes) : LoginSystem.Fresh user idleLogins where
  history := rfl
  calls := rfl
  lockouts := rfl

/-- Logins one after the other meet the bound: the last guess is refused. -/
theorem lockout_bounds_guessing_sequential :
    LoginSystem.BruteForceBound (ascii "admin")
        (StepRuns.run (LoginSystem.step adminVerify) idleLogins
          sequentialLogins)
        (LoginSystem.streakAfter adminVerify (ascii "admin") idleLogins
          sequentialLogins) ∧
      (StepRuns.run (LoginSystem.step adminVerify) idleLogins
          sequentialLogins).history.count (.verified (ascii "admin") false) =
        13 ∧
      .lockSet (ascii "admin") (seconds 1600 + 1) ∈
        (StepRuns.run (LoginSystem.step adminVerify) idleLogins
          sequentialLogins).history := by
  refine ⟨?_, by decide +kernel, by decide +kernel⟩
  exact
    lockout_bounds_guessing adminVerify (ascii "admin") idleLogins
      (idleLogins_fresh _) (by decide) _ (by decide +kernel)

/--
Six concurrent guesses are all verified before the account is locked, a success
that was in flight clears a lock that has just been set, and a lock that is over
when it is written lets a sixth guess through.
-/
theorem lockout_bypassed_by_interleaving :
    ¬LoginSystem.BruteForceBound (ascii "admin")
        (StepRuns.run (LoginSystem.step adminVerify) idleLogins burstOfGuesses)
        (LoginSystem.streakAfter adminVerify (ascii "admin") idleLogins
          burstOfGuesses) ∧
      ¬LoginSystem.BruteForceBound (ascii "admin")
        (StepRuns.run (LoginSystem.step adminVerify) idleLogins lateSuccess)
        (LoginSystem.streakAfter adminVerify (ascii "admin") idleLogins
          lateSuccess) ∧
      ¬LoginSystem.BruteForceBound (ascii "admin")
        (StepRuns.run (LoginSystem.step adminVerify) idleLogins lateLock)
        (LoginSystem.streakAfter adminVerify (ascii "admin") idleLogins
          lateLock) := by
  refine ⟨?_, ?_, ?_⟩
  · intro bound
    exact absurd bound.bounded (by decide +kernel)
  · intro bound
    have locked :
        .lockSet (ascii "admin") (seconds 1300) ∈
          (StepRuns.run (LoginSystem.step adminVerify) idleLogins
            lateSuccess).history := by
      decide +kernel
    obtain ⟨lk, standing, _⟩ :=
      bound.lockStands _ locked (by decide +kernel)
    have cleared :
        (StepRuns.run (LoginSystem.step adminVerify) idleLogins
          lateSuccess).sec.lockouts (ascii "admin") = none := by
      decide +kernel
    rw [cleared] at standing
    cases standing
  · intro bound
    exact absurd bound.bounded (by decide +kernel)

end RadminPro
