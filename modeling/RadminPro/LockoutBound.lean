import RadminPro.LockoutInterleaving

namespace RadminPro

open ByteCodec

/-!
# The bound on concurrent guesses

The sections of a call are inverted once into the effects they can have on the
figures of one user: its entry, its calls in flight, its wrong passwords still
to be recorded, the streak of guesses against it and its events.  The invariants
of a run are then kept by every effect that leaves room for the calls in flight.
-/

namespace SecurityManager

variable {sec : SecurityManager}

/-- A locked account is left alone. -/
theorem isLocked_true
    {user : Bytes}
    {now : Int}
    (locked : (sec.isLocked user now).1 = true) :
    (sec.isLocked user now).2 = sec := by
  unfold isLocked at *
  cases entry : sec.lockouts user with
  | none =>
      simp
  | some lk =>
      by_cases ahead : lk.lockedUntil > now
      · simp [ahead]
      · simp [entry, ahead] at locked

/-- A lock of an unlocked account has run out. -/
theorem isLocked_false
    {user : Bytes}
    {now : Int}
    (unlocked : (sec.isLocked user now).1 = false)
    {lk : Lockout}
    (entry : sec.lockouts user = some lk) :
    lk.lockedUntil ≤ now := by
  by_contra ahead
  simp [isLocked, entry, not_le.mp ahead] at unlocked

/-- An unlocked account keeps its entry, with stale failures forgotten. -/
theorem isLocked_entry
    {user : Bytes}
    {now : Int}
    (unlocked : (sec.isLocked user now).1 = false) :
    (sec.isLocked user now).2.lockouts user =
      (sec.lockouts user).map (Lockout.expire sec.policy now) := by
  unfold isLocked at *
  cases entry : sec.lockouts user with
  | none =>
      simp [entry]
  | some lk =>
      by_cases ahead : lk.lockedUntil > now
      · simp [entry, ahead] at unlocked
      · simp [ahead]

/-- Testing a lock touches no other entry. -/
theorem isLocked_other
    {user other : Bytes}
    (now : Int)
    (different : other ≠ user) :
    (sec.isLocked user now).2.lockouts other = sec.lockouts other := by
  unfold isLocked
  cases entry : sec.lockouts user with
  | none =>
      rfl
  | some lk =>
      by_cases ahead : lk.lockedUntil > now <;>
        simp [ahead, Function.update_of_ne different]

@[simp] theorem isLocked_policy
    (user : Bytes)
    (now : Int) :
    (sec.isLocked user now).2.policy = sec.policy := by
  unfold isLocked
  cases entry : sec.lockouts user with
  | none =>
      rfl
  | some lk =>
      by_cases ahead : lk.lockedUntil > now <;> simp [ahead]

@[simp] theorem recordFailure_policy
    (user : Bytes)
    (now : Int) :
    (sec.recordFailure user now).policy = sec.policy :=
  rfl

/-- Recording a failure touches no other entry. -/
theorem recordFailure_other
    {user other : Bytes}
    (now : Int)
    (different : other ≠ user) :
    (sec.recordFailure user now).lockouts other = sec.lockouts other := by
  simp [recordFailure, Function.update_of_ne different]

/-- Recording a success touches no other entry. -/
theorem recordSuccess_other
    {user other : Bytes}
    (different : other ≠ user) :
    (sec.recordSuccess user).lockouts other = sec.lockouts other := by
  simp [recordSuccess, Function.update_of_ne different]

end SecurityManager

/-- What the next section of a call can do. -/
inductive Advances
    (argon2idVerify : Bytes → Bytes → Bool)
    (sec : SecurityManager)
    (call : AuthCall) : AuthCall → SecurityManager → List AuthEvent → Prop where
  | refused
      (phase : call.phase = .entered)
      (locked : (sec.isLocked call.username call.now).1 = true) :
      Advances argon2idVerify sec call
        { call with phase := .returned ⟨.known .lockedOut, R_None⟩ } sec []
  | admitted
      (phase : call.phase = .entered)
      (unlocked : (sec.isLocked call.username call.now).1 = false)
      (known : Bool) (hashToCheck : Bytes) (rights : UInt32) :
      Advances argon2idVerify sec call
        { call with phase := .checked known hashToCheck rights }
        (sec.isLocked call.username call.now).2
        [.admitted call.username call.now]
  | verified
      {known : Bool} {hashToCheck : Bytes} {rights : UInt32}
      (phase : call.phase = .checked known hashToCheck rights)
      (ok : Bool) :
      Advances argon2idVerify sec call
        { call with phase := .verified ok rights } sec
        [.verified call.username ok]
  | succeeded
      {rights : UInt32}
      (phase : call.phase = .verified true rights) :
      Advances argon2idVerify sec call
        { call with phase := .returned ⟨.known .ok, rights⟩ }
        (sec.recordSuccess call.username) [.accepted call.username]
  | failed
      {rights : UInt32}
      (phase : call.phase = .verified false rights) :
      Advances argon2idVerify sec call
        { call with phase := .returned ⟨.known .badCredentials, R_None⟩ }
        (sec.recordFailure call.username call.now)
        ((AuthCall.lockAfter (sec.recordFailure call.username call.now)
            call.username).toList.map (.lockSet call.username ·))
  | done
      (outcome : AuthOutcome)
      (phase : call.phase = .returned outcome) :
      Advances argon2idVerify sec call call sec []

/-- The next section of a call does one of these things. -/
theorem AuthCall.advance_advances
    (argon2idVerify : Bytes → Bytes → Bool)
    (sec : SecurityManager)
    (call : AuthCall) :
    Advances argon2idVerify sec call
      (call.advance argon2idVerify sec).1
      (call.advance argon2idVerify sec).2.1
      (call.advance argon2idVerify sec).2.2 := by
  cases phase : call.phase with
  | entered =>
      cases lock : sec.isLocked call.username call.now with
      | mk locked sec' =>
          cases locked with
          | true =>
              have same : sec' = sec := by
                have kept :
                    (sec.isLocked call.username call.now).2 = sec :=
                  SecurityManager.isLocked_true (by rw [lock])
                rwa [lock] at kept
              subst same
              simpa [AuthCall.advance, phase, SecurityManager.checkSection,
                lock] using Advances.refused phase (by rw [lock])
          | false =>
              have admitted :
                  ∀ known hashToCheck rights,
                    Advances argon2idVerify sec call _
                      (sec.isLocked call.username call.now).2
                      [.admitted call.username call.now] :=
                Advances.admitted phase (by rw [lock])
              rw [lock] at admitted
              cases account : sec'.users call.username with
              | none =>
                  simpa [AuthCall.advance, phase,
                    SecurityManager.checkSection, lock, account] using
                    admitted _ _ _
              | some record =>
                  simpa [AuthCall.advance, phase,
                    SecurityManager.checkSection, lock, account] using
                    admitted _ _ _
  | checked known hashToCheck rights =>
      simpa [AuthCall.advance, phase] using Advances.verified phase _
  | verified ok rights =>
      cases ok with
      | true =>
          simpa [AuthCall.advance, phase, SecurityManager.recordSection]
            using Advances.succeeded phase
      | false =>
          simpa [AuthCall.advance, phase, SecurityManager.recordSection]
            using Advances.failed phase
  | returned outcome =>
      simpa [AuthCall.advance, phase] using Advances.done outcome phase

/-- The user whose call an event belongs to. -/
def AuthEvent.username : AuthEvent → Bytes
  | .admitted username _ => username
  | .verified username _ => username
  | .accepted username => username
  | .lockSet username _ => username

namespace LoginSystem

/-- Replacing one call changes a count by what the two calls count. -/
theorem countP_set
    (counted : AuthCall → Bool)
    {calls : List AuthCall}
    {index : Nat}
    {old : AuthCall}
    (stood : calls[index]? = some old)
    (new : AuthCall) :
    (calls.set index new).countP counted + (if counted old then 1 else 0) =
      calls.countP counted + (if counted new then 1 else 0) := by
  obtain ⟨inside, isOld⟩ := List.getElem?_eq_some_iff.mp stood
  have split : calls = calls.take index ++ old :: calls.drop (index + 1) := by
    rw [← isOld, List.cons_getElem_drop_succ, List.take_append_drop]
  rw [List.set_eq_take_append_cons_drop, if_pos inside]
  conv_rhs => rw [split]
  simp only [List.countP_append, List.countP_cons]
  omega

/-- A wrong password that waits to be recorded belongs to a call in flight. -/
theorem pendingWrong_le_inFlight
    (user : Bytes)
    (calls : List AuthCall) :
    pendingWrong user calls ≤ inFlight user calls := by
  refine List.countP_mono_left fun call _ counts => ?_
  rcases call with ⟨username, password, now, phase⟩
  cases phase <;>
    simp_all [AuthCall.pendingWrong, AuthCall.inFlight]

/-- What a step does to the figures of one user. -/
inductive UserEffect
    (user : Bytes)
    (before after : LoginSystem)
    (streak : Streak) : Streak → List AuthEvent → Prop where
  | quiet
      {events : List AuthEvent}
      (entry : after.sec.lockouts user = before.sec.lockouts user)
      (flying : inFlight user after.calls = inFlight user before.calls)
      (pending : pendingWrong user after.calls = pendingWrong user before.calls)
      (others : ∀ event ∈ events, event.username ≠ user) :
      UserEffect user before after streak streak events
  | admitted
      (call : AuthCall)
      (member : call ∈ before.calls)
      (unlocked : (before.sec.isLocked user call.now).1 = false)
      (entry : after.sec.lockouts user =
        (before.sec.lockouts user).map
          (Lockout.expire before.sec.policy call.now))
      (room : inFlight user before.calls = 0 ∨
        standing before.sec user call.now + inFlight user before.calls <
          before.sec.policy.maxFailedAttempts.toNat)
      (flying : inFlight user after.calls = inFlight user before.calls + 1)
      (pending : pendingWrong user after.calls =
        pendingWrong user before.calls) :
      UserEffect user before after streak
        (streak.checked before.sec.policy (pendingWrong user after.calls)
          call.now)
        [.admitted user call.now]
  | verified
      (ok : Bool)
      (entry : after.sec.lockouts user = before.sec.lockouts user)
      (busy : 0 < inFlight user before.calls)
      (flying : inFlight user after.calls = inFlight user before.calls)
      (pending : pendingWrong user after.calls =
        pendingWrong user before.calls + (if ok then 0 else 1)) :
      UserEffect user before after streak
        (if ok then streak else streak.guessed)
        [.verified user ok]
  | accepted
      (entry : after.sec.lockouts user = none)
      (flying : inFlight user after.calls + 1 = inFlight user before.calls) :
      UserEffect user before after streak
        { guesses := pendingWrong user after.calls }
        [.accepted user]
  | failed
      (call : AuthCall)
      (inTime :
        before.sec.policy.maxFailedAttempts.toNat ≤
          standing before.sec user call.now + 1 →
        before.clock < call.now + before.sec.policy.lockoutDuration)
      (noWrap : standing before.sec user call.now + 1 < UInt32.size)
      (recorded : after.sec = before.sec.recordFailure user call.now)
      (flying : inFlight user after.calls + 1 = inFlight user before.calls)
      (pending : pendingWrong user after.calls + 1 =
        pendingWrong user before.calls) :
      UserEffect user before after streak
        ((streak.failed before.sec.policy (pendingWrong user after.calls)
            call.now).locked before.clock (pendingWrong user after.calls)
          (AuthCall.lockAfter after.sec user))
        ((AuthCall.lockAfter after.sec user).toList.map (.lockSet user ·))

/-- A section of another user's call is quiet. -/
theorem UserEffect.ofOther
    {argon2idVerify : Bytes → Bytes → Bool}
    {user : Bytes}
    {before after : LoginSystem}
    {index : Nat}
    {call next : AuthCall}
    {secAfter : SecurityManager}
    {events : List AuthEvent}
    (stood : before.calls[index]? = some call)
    (calls : after.calls = before.calls.set index next)
    (sections : after.sec = secAfter)
    (advances : Advances argon2idVerify before.sec call next secAfter events)
    (other : call.username ≠ user)
    (streak : Streak) :
    UserEffect user before after streak streak events := by
  have sameName : next.username = call.username := by
    cases advances <;> rfl
  have sameCount : ∀ counted : AuthCall → Bool,
      (before.calls.set index next).countP
          (fun call => call.username = user ∧ counted call) =
        before.calls.countP
          (fun call => call.username = user ∧ counted call) := by
    intro counted
    simpa [sameName, other] using
      countP_set
        (fun call => call.username = user ∧ counted call)
        stood next
  refine .quiet ?_ ?_ ?_ ?_
  · rw [sections]
    cases advances with
    | refused phase locked => rfl
    | admitted phase unlocked known hashToCheck rights =>
        exact SecurityManager.isLocked_other _ (Ne.symm other)
    | verified phase ok => rfl
    | succeeded phase =>
        exact SecurityManager.recordSuccess_other (Ne.symm other)
    | failed phase =>
        exact SecurityManager.recordFailure_other _ (Ne.symm other)
    | done outcome phase => rfl
  · rw [calls]
    exact sameCount AuthCall.inFlight
  · rw [calls]
    exact sameCount AuthCall.pendingWrong
  · intro event member
    cases advances <;>
      simp_all [AuthEvent.username]
    obtain ⟨lockedUntil, _, rfl⟩ := member
    exact other

/-- A section of the user's own call has one of the effects. -/
theorem UserEffect.ofOwn
    {argon2idVerify : Bytes → Bytes → Bool}
    {user : Bytes}
    {before after : LoginSystem}
    {index : Nat}
    {call next : AuthCall}
    {secAfter : SecurityManager}
    {events : List AuthEvent}
    (stood : before.calls[index]? = some call)
    (calls : after.calls = before.calls.set index next)
    (sections : after.sec = secAfter)
    (advances : Advances argon2idVerify before.sec call next secAfter events)
    (own : call.username = user)
    (room : LeavesRoomFor user before call)
    (streak : Streak) :
    UserEffect user before after streak
      (streak.afterSection user before after call next) events := by
  subst own
  have member : call ∈ before.calls :=
    List.mem_of_getElem? stood
  have flyingCount := countP_set
    (fun each => each.username = call.username ∧ each.inFlight)
    stood next
  have pendingCount := countP_set
    (fun each => each.username = call.username ∧ each.pendingWrong)
    stood next
  change inFlight call.username (before.calls.set index next) + _ =
    inFlight call.username before.calls + _ at flyingCount
  change pendingWrong call.username (before.calls.set index next) + _ =
    pendingWrong call.username before.calls + _ at pendingCount
  rw [← calls] at flyingCount pendingCount
  have busyCount :
      call.inFlight = true → 0 < inFlight call.username before.calls := by
    intro busy
    exact List.countP_pos_iff.mpr ⟨call, member, by simpa using busy⟩
  cases advances with
  | refused phase locked =>
      simp only [Streak.afterSection, phase]
      refine .quiet (by rw [sections]) ?_ ?_ (by simp)
      · simpa [AuthCall.inFlight, phase] using flyingCount
      · simpa [AuthCall.pendingWrong, phase] using pendingCount
  | admitted phase unlocked known hashToCheck rights =>
      simp only [Streak.afterSection, phase]
      refine .admitted call member unlocked ?_ ?_ ?_ ?_
      · rw [sections]
        exact SecurityManager.isLocked_entry unlocked
      · exact room.admission phase unlocked
      · simpa [AuthCall.inFlight, phase] using flyingCount
      · simpa [AuthCall.pendingWrong, phase] using pendingCount
  | @verified known hashToCheck rights phase ok =>
      have counted :
          streak.afterSection call.username before after call
              { call with phase := .verified ok rights } =
            if ok then streak else streak.guessed := by
        cases ok <;> simp [Streak.afterSection, phase]
      rw [counted]
      refine .verified ok (by rw [sections]) ?_ ?_ ?_
      · exact busyCount (by simp [AuthCall.inFlight, phase])
      · simpa [AuthCall.inFlight, phase] using flyingCount
      · cases ok <;>
          simpa [AuthCall.pendingWrong, phase] using pendingCount
  | succeeded phase =>
      simp only [Streak.afterSection, phase]
      refine .accepted ?_ ?_
      · rw [sections]
        simp [SecurityManager.recordSuccess]
      · simpa [AuthCall.inFlight, phase] using flyingCount
  | failed phase =>
      have isWrong : call.pendingWrong = true := by
        simp [AuthCall.pendingWrong, phase]
      simp only [Streak.afterSection, phase]
      rw [← sections]
      refine .failed call ?_ ?_ sections ?_ ?_
      · exact room.inTime isWrong
      · exact room.noWrap isWrong
      · simpa [AuthCall.inFlight, phase] using flyingCount
      · simpa [AuthCall.pendingWrong, phase] using pendingCount
  | done outcome phase =>
      simp only [Streak.afterSection, phase]
      refine .quiet (by rw [sections]) ?_ ?_ (by simp)
      · simpa [AuthCall.inFlight, phase] using flyingCount
      · simpa [AuthCall.pendingWrong, phase] using pendingCount

end LoginSystem

end RadminPro
