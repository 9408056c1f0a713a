import RadminPro.ConfiguredAccounts
import RadminPro.SessionCredentials
import RadminPro.AllowList
import RadminPro.LockoutBound
import RadminPro.TrayApp

namespace RadminPro

open ByteCodec ConfigText TracePolicy

/-!
# The server with its accounts

`run` puts the accounts of the configuration into the `SecurityManager`, and
every session thread asks it in `authenticate`.  Here the accept loop, the
session threads and their calls of `authenticate` are one system: a thread that
has read credentials waits until its call returns, while the other threads and
their calls go on.  What any session may do comes from the text that the server
was configured with.
-/

/-- The accounts that `run` sets up: those that have a hash. -/
def ServerApp.accounts (cfg : ServerConfig) (decoyHash : Bytes) : SecurityManager :=
  cfg.users.foldl
    (fun sec u => if u.argon2Hash.isEmpty then sec else sec.addUser u)
    { decoyHash }

/-- A thread that waits for its call of `authenticate`, and its turn. -/
structure PendingLogin where
  connection : Nat
  call : Nat
  turn : Turn

/-- The server, its logins and the threads that wait for them. -/
structure GuardedServer where
  app : ServerApp
  logins : LoginSystem
  pending : List PendingLogin := []

/-- One more action of somebody. -/
inductive GuardedEvent where
  | acceptLoop (answer : AcceptAnswer)
  | session (index : Nat) (turn : Turn)
  | clearRunning
  | closeListener
  | tick (elapsed : Nat)
  | advance (call : Nat)

/-- The credentials that a thread reads in its turn, when it expects them. -/
def SessionThread.credentials? (thread : SessionThread) (turn : Turn) :
    Option AuthRequestMsg :=
  match thread.next?, thread.session.phase, turn.read with
  | none, .auth, .ok m =>
      if m.op = .known .authRequest then
        (AuthRequestMsg.decode m.payload).toOption
      else
        none
  | _, _, _ => none

namespace GuardedServer

/-- The server as `run` finds it. -/
def started (cfg : ServerConfig) (decoyHash : Bytes) (clock : Int) : GuardedServer where
  app := { cfg }
  logins := { clock, sec := ServerApp.accounts cfg decoyHash }

section Steps

variable (sha256 : Bytes → Hash256)
variable (inetPtonA : InetPton)
variable (argon2idVerify : Bytes → Bytes → Bool)

/-- A thread that waits goes on with what its call has returned. -/
def resume
    (server : GuardedServer)
    (index : Nat)
    (waiting : PendingLogin) : GuardedServer :=
  match (server.logins.calls[waiting.call]?).map AuthCall.phase with
  | some (.returned outcome) =>
      let outside := { waiting.turn.outside with authenticate := fun _ _ => outcome }
      { server with
        app :=
          server.app.step sha256 inetPtonA
            (.session index { waiting.turn with outside })
        pending :=
          server.pending.filter fun other =>
            other.connection ≠ waiting.connection }
  | _ => server

/-- A thread that has read credentials calls `authenticate`. -/
def ask
    (server : GuardedServer)
    (thread : SessionThread)
    (turn : Turn)
    (areq : AuthRequestMsg) : GuardedServer :=
  { server with
    logins :=
      server.logins.step argon2idVerify (.enter areq.username areq.password)
    pending :=
      server.pending ++
        [{ connection := thread.connection.number
           call := server.logins.calls.length
           turn }] }

/-- One action of a session thread. -/
def sessionStep (server : GuardedServer) (index : Nat) (turn : Turn) : GuardedServer :=
  match server.app.threads[index]? with
  | none => server
  | some thread =>
      match server.pending.find? fun waiting =>
          waiting.connection = thread.connection.number with
      | some waiting => server.resume sha256 inetPtonA index waiting
      | none =>
          match thread.credentials? turn with
          | some areq => server.ask argon2idVerify thread turn areq
          | none =>
              { server with
                app := server.app.step sha256 inetPtonA (.session index turn) }

/-- One action of somebody, as long as the process lives. -/
def step (server : GuardedServer) (event : GuardedEvent) : GuardedServer :=
  if server.app.terminated then
    server
  else
    match event with
    | .acceptLoop answer =>
        { server with
          app := server.app.step sha256 inetPtonA (.acceptLoop answer) }
    | .session index turn =>
        server.sessionStep sha256 inetPtonA argon2idVerify index turn
    | .clearRunning =>
        { server with app := server.app.step sha256 inetPtonA .clearRunning }
    | .closeListener =>
        { server with app := server.app.step sha256 inetPtonA .closeListener }
    | .tick elapsed =>
        { server with logins := server.logins.step argon2idVerify (.tick elapsed) }
    | .advance call =>
        { server with logins := server.logins.step argon2idVerify (.advance call) }

/-- The server after a run that was started with a configuration text. -/
def run
    (text decoyHash : Bytes)
    (clock : Int)
    (events : List GuardedEvent) : GuardedServer :=
  StepRuns.run (step sha256 inetPtonA argon2idVerify)
    (started (ServerConfig.parse text) decoyHash clock) events

end Steps

end GuardedServer

/-! ## What the text vouches for -/

/-- The text gives the user a hash that the password matches, and these rights. -/
structure TextVouches
    (argon2idVerify : Bytes → Bytes → Bool)
    (text user password : Bytes)
    (rights : UInt32) : Prop where
  hashed : textHash text user ≠ []
  matched : argon2idVerify (textHash text user) password = true
  granted : rights = textRights text user

/-- The ranges that the text lists for peers. -/
def ConfigText.textAllowList (text : Bytes) : Bytes :=
  (lastValue text (ascii "allow_subnets")).getD []

/-- The text lists a range with the address. -/
def PeerListed (inetPtonA : InetPton) (text ip : Bytes) : Prop :=
  ∃ peer range,
    parseText inetPtonA ip = some peer ∧
      SubnetFilter.ListWrites inetPtonA (textAllowList text) range ∧
      range.Contains peer

/--
The session of a thread serves a listed peer, and whatever it has done was
warranted by one login that the text vouches for.
-/
structure ThreadWarranted
    (inetPtonA : InetPton)
    (argon2idVerify : Bytes → Bytes → Bool)
    (text : Bytes)
    (thread : SessionThread) : Prop where
  listed : PeerListed inetPtonA text thread.connection.peer.ip
  warranted :
    ∃ user rights mode,
      Obeys
        (Warranted (TextVouches argon2idVerify text) thread.setup user rights mode)
        thread.done

/-! ## Accounts and calls -/

/-- The accounts are those of the configuration that have a hash. -/
theorem accounts_mem
    {cfg : ServerConfig}
    {decoyHash name : Bytes}
    {u : UserRecord}
    (found : (ServerApp.accounts cfg decoyHash).users name = some u) :
    u ∈ cfg.users ∧ u.argon2Hash ≠ [] ∧ u.username = name := by
  rw [ServerApp.accounts] at found
  generalize cfg.users = users at found ⊢
  induction users using List.reverseRecOn with
  | nil =>
      cases found
  | append_singleton users last inductionHypothesis =>
      rw [List.foldl_concat] at found
      have earlier :
          (users.foldl
              (fun sec u => if u.argon2Hash.isEmpty then sec else sec.addUser u)
              ({ decoyHash } : SecurityManager)).users name = some u →
            u ∈ users ++ [last] ∧ u.argon2Hash ≠ [] ∧ u.username = name := by
        intro wasThere
        obtain ⟨member, rest⟩ := inductionHypothesis wasThere
        exact ⟨List.mem_append_left _ member, rest⟩
      by_cases unhashed : last.argon2Hash.isEmpty
      · rw [if_pos unhashed] at found
        exact earlier found
      · rw [if_neg unhashed, SecurityManager.addUser] at found
        by_cases sameName : name = last.username
        · subst sameName
          dsimp only at found
          rw [Function.update_self] at found
          obtain rfl := Option.some.inj found
          exact ⟨by simp, by simpa using unhashed, rfl⟩
        · dsimp only at found
          rw [Function.update_of_ne sameName] at found
          exact earlier found

/-- An account of the server is one that the text describes. -/
theorem accounts_of_text
    {text decoyHash name : Bytes}
    {u : UserRecord}
    (found :
      (ServerApp.accounts (ServerConfig.parse text) decoyHash).users name =
        some u) :
    u.argon2Hash ≠ [] ∧
      u.argon2Hash = textHash text name ∧
        u.rights = textRights text name := by
  obtain ⟨member, hashed, rfl⟩ := accounts_mem found
  exact ⟨hashed, (mem_users_parse_iff hashed).mp member⟩

/-- What is known of a call in each of its phases. -/
def AuthCall.Vouched
    (argon2idVerify : Bytes → Bytes → Bool)
    (text : Bytes)
    (call : AuthCall) : Prop :=
  match call.phase with
  | .entered => True
  | .checked known hashToCheck rights =>
      known = true →
        textHash text call.username ≠ [] ∧
          hashToCheck = textHash text call.username ∧
            rights = textRights text call.username
  | .verified ok rights =>
      ok = true →
        TextVouches argon2idVerify text call.username call.password rights
  | .returned outcome =>
      outcome.status = .known .ok →
        TextVouches argon2idVerify text call.username call.password
          outcome.rights

/-- The manager has the accounts that the text describes. -/
def AccountsOf (text : Bytes) (sec : SecurityManager) : Prop :=
  ∀ name u,
    sec.users name = some u →
    u.argon2Hash ≠ [] ∧
      u.argon2Hash = textHash text name ∧ u.rights = textRights text name

section Calls

variable {argon2idVerify : Bytes → Bytes → Bool}
variable {text : Bytes}
variable {sec : SecurityManager}

theorem isLocked_users
    (sec : SecurityManager)
    (user : Bytes)
    (now : Int) :
    (sec.isLocked user now).2.users = sec.users := by
  unfold SecurityManager.isLocked
  split
  · rfl
  · split
    · rfl
    · rfl

/-- A section of a call leaves the accounts alone. -/
theorem advance_users
    (argon2idVerify : Bytes → Bytes → Bool)
    (sec : SecurityManager)
    (call : AuthCall) :
    (call.advance argon2idVerify sec).2.1.users = sec.users := by
  have advances := AuthCall.advance_advances argon2idVerify sec call
  generalize call.advance argon2idVerify sec = after at advances ⊢
  obtain ⟨call', sec', events⟩ := after
  dsimp only at advances ⊢
  cases advances with
  | refused phase locked => rfl
  | admitted phase unlocked known hashToCheck rights =>
      exact isLocked_users sec call.username call.now
  | verified phase ok => rfl
  | succeeded phase => rfl
  | failed phase => rfl
  | done outcome phase => rfl

/-- A section of a call keeps its credentials. -/
theorem advance_credentials
    (argon2idVerify : Bytes → Bytes → Bool)
    (sec : SecurityManager)
    (call : AuthCall) :
    (call.advance argon2idVerify sec).1.username = call.username ∧
      (call.advance argon2idVerify sec).1.password = call.password := by
  have advances := AuthCall.advance_advances argon2idVerify sec call
  generalize call.advance argon2idVerify sec = after at advances ⊢
  obtain ⟨call', sec', events⟩ := after
  dsimp only at advances ⊢
  cases advances with
  | refused phase locked => exact ⟨rfl, rfl⟩
  | admitted phase unlocked known hashToCheck rights => exact ⟨rfl, rfl⟩
  | verified phase ok => exact ⟨rfl, rfl⟩
  | succeeded phase => exact ⟨rfl, rfl⟩
  | failed phase => exact ⟨rfl, rfl⟩
  | done outcome phase => exact ⟨rfl, rfl⟩

/-- A section of a call that is vouched for leaves it vouched for. -/
theorem advance_vouched
    (accounts : AccountsOf text sec)
    {call : AuthCall}
    (vouched : call.Vouched argon2idVerify text) :
    (call.advance argon2idVerify sec).1.Vouched argon2idVerify text := by
  rw [AuthCall.Vouched] at vouched
  rw [AuthCall.advance]
  cases phase : call.phase with
  | entered =>
      dsimp only
      unfold SecurityManager.checkSection
      have users := isLocked_users sec call.username call.now
      generalize sec.isLocked call.username call.now = lock at users ⊢
      obtain ⟨locked, sec'⟩ := lock
      dsimp only at users ⊢
      cases locked with
      | true =>
          intro isOk
          cases isOk
      | false =>
          dsimp only
          cases found : sec'.users call.username with
          | none =>
              intro known
              cases known
          | some u =>
              rw [users] at found
              exact fun _ => ⟨(accounts _ u found).2.1 ▸ (accounts _ u found).1,
                (accounts _ u found).2⟩
  | checked known hashToCheck rights =>
      rw [phase] at vouched
      intro ok
      dsimp only at vouched ok ⊢
      obtain ⟨isKnown, passOk⟩ := (Bool.and_eq_true _ _).mp ok
      obtain ⟨hashed, rfl, rfl⟩ := vouched isKnown
      rw [PasswordStore.verify] at passOk
      exact ⟨hashed, by simpa [hashed] using passOk, rfl⟩
  | verified ok rights =>
      rw [phase] at vouched
      cases ok with
      | true =>
          exact fun _ => vouched rfl
      | false =>
          intro isOk
          cases isOk
  | returned outcome =>
      rw [AuthCall.Vouched, phase]
      rw [phase] at vouched
      exact vouched

end Calls

/-! ## The accept loop and its threads -/

/-- What is known of a thread. -/
structure ThreadGuarded
    (inetPtonA : InetPton)
    (argon2idVerify : Bytes → Bytes → Bool)
    (text : Bytes)
    (thread : SessionThread) : Prop where
  listed : PeerListed inetPtonA text thread.connection.peer.ip
  mediates : Mediates thread.setup thread.session
  endorsed : Endorsed (TextVouches argon2idVerify text) thread.setup thread.session

/-- What is known of the accept loop and its threads. -/
structure AppGuarded
    (inetPtonA : InetPton)
    (argon2idVerify : Bytes → Bytes → Bool)
    (text : Bytes)
    (app : ServerApp) : Prop where
  cfg : app.cfg = ServerConfig.parse text
  filter :
    app.point ≠ .starting →
    app.point.hasReturned = false →
    app.filter = (SubnetFilter.addList inetPtonA {} (textAllowList text)).2
  screened : ∀ c ∈ app.point.screened, PeerListed inetPtonA text c.peer.ip
  threads :
    ∀ thread ∈ app.threads, ThreadGuarded inetPtonA argon2idVerify text thread

/-- The list for peers after an assignment. -/
theorem allowSubnets_assign
    (state : Reading)
    (key val : Bytes) :
    (state.assign key val).c.allowSubnets =
      if key = ascii "allow_subnets" then val else state.c.allowSubnets := by
  by_cases isList : key = ascii "allow_subnets"
  · subst isList
    rw [if_pos rfl, Reading.assign, if_neg (by decide +kernel),
      if_neg (by decide +kernel), if_neg (by decide +kernel), if_pos rfl]
  · rw [if_neg isList, Reading.assign, if_neg isList]
    simp only [apply_ite Reading.c, apply_ite ServerConfig.allowSubnets, ite_self]

/-- The server admits the peers that the text lists. -/
theorem allowSubnets_parse
    (text : Bytes) :
    (ServerConfig.parse text).allowSubnets = textAllowList text := by
  rw [parse_eq, textAllowList, lastValue, lastAssigned]
  dsimp only
  generalize getlinesFrom [] text = lines
  induction lines using List.reverseRecOn with
  | nil =>
      rfl
  | append_singleton lines line inductionHypothesis =>
      rw [List.foldl_concat, List.foldl_concat, noteLine, Reading.line]
      cases assignment? line with
      | none =>
          exact inductionHypothesis
      | some parts =>
          dsimp only
          rw [allowSubnets_assign]
          split
          · rfl
          · exact inductionHypothesis

section App

variable {sha256 : Bytes → Hash256}
variable {inetPtonA : InetPton}
variable {argon2idVerify : Bytes → Bytes → Bool}
variable {text : Bytes}
variable {app : ServerApp}

/-- A new thread has done nothing yet. -/
theorem threadGuarded_new
    {c : Accepted}
    (listed : PeerListed inetPtonA text c.peer.ip) :
    ThreadGuarded inetPtonA argon2idVerify text (app.newThread c) where
  listed := listed
  mediates := by
    have start :
        Mediates (app.newThread c).setup
          (Session.run evpSha256 (app.newThread c).setup []) :=
      mediates_run []
    exact start
  endorsed := trivial

/-- What an action of `run` that has been set up changes. -/
structure AcceptMoves
    (inetPtonA : InetPton)
    (app after : ServerApp) : Prop where
  cfg : after.cfg = app.cfg
  filter : after.filter = app.filter
  screened :
    ∀ c ∈ after.point.screened,
      c ∈ app.point.screened ∨ app.isPeerAllowed inetPtonA c.peer.ip = true
  threads :
    ∀ thread ∈ after.threads,
      thread ∈ app.threads ∨ ∃ c ∈ app.point.screened, thread = app.newThread c

/-- An action of `run` after it has been set up. -/
theorem acceptStep_moves
    (inetPtonA : InetPton)
    (app : ServerApp)
    (answer : AcceptAnswer)
    (isStarted : app.point ≠ .starting) :
    AcceptMoves inetPtonA app (app.acceptStep inetPtonA answer) := by
  cases point : app.point with
  | starting =>
      exact absurd point isStarted
  | accepting =>
      rw [ServerApp.acceptStep, point]
      dsimp only
      unfold ServerApp.acceptReturned
      split
      · split
        · exact ⟨rfl, rfl, by simp [AcceptPoint.screened], fun _ => .inl⟩
        · exact ⟨rfl, rfl, by simp [AcceptPoint.screened], fun _ => .inl⟩
      · exact ⟨rfl, rfl, by simp [AcceptPoint.screened], fun _ => .inl⟩
  | spawning c =>
      rw [ServerApp.acceptStep, point]
      refine ⟨rfl, rfl, by simp [AcceptPoint.screened], fun thread member => ?_⟩
      rcases List.mem_append.mp member with wasThere | isNew
      · exact .inl wasThere
      · exact .inr ⟨c, by simp [point, AcceptPoint.screened],
          List.mem_singleton.mp isNew⟩
  | screening c =>
      rw [ServerApp.acceptStep, point]
      dsimp only
      split
      · exact ⟨rfl, rfl, by simp [AcceptPoint.screened], fun _ => .inl⟩
      · next allowed =>
          refine ⟨rfl, rfl, ?_, fun _ => .inl⟩
          simpa [AcceptPoint.screened, point] using allowed
  | returned code =>
      rw [ServerApp.acceptStep, point]
      exact ⟨rfl, rfl, fun _ => .inl, fun _ => .inl⟩
  | _ =>
      rw [ServerApp.acceptStep, point]
      refine ⟨rfl, rfl, ?_, fun _ => .inl⟩
      dsimp only
      try split
      all_goals simp [AcceptPoint.screened, point]

/-- Admitted peers are listed. -/
theorem AppGuarded.allowed
    (guarded : AppGuarded inetPtonA argon2idVerify text app)
    (isStarted : app.point ≠ .starting)
    (notReturned : app.point.hasReturned = false)
    {ip : Bytes}
    (allowed : app.isPeerAllowed inetPtonA ip = true) :
    PeerListed inetPtonA text ip := by
  rw [ServerApp.isPeerAllowed, guarded.filter isStarted notReturned] at allowed
  exact SubnetFilter.isAllowed_addList_iff.mp allowed

/-- Setting up fills the filter from the text, or the server does not start. -/
theorem AppGuarded.startUp
    (guarded : AppGuarded inetPtonA argon2idVerify text app)
    (answer : AcceptAnswer) :
    AppGuarded inetPtonA argon2idVerify text (app.startUp inetPtonA answer) := by
  have returned :
      ∀ (filter : SubnetFilter) (code : Nat),
        AppGuarded inetPtonA argon2idVerify text
          { app with filter, point := .returned code } := by
    intro filter code
    refine ⟨guarded.cfg, fun _ notReturned => ?_, ?_, guarded.threads⟩
    · cases notReturned
    · simp [AcceptPoint.screened]
  have filtered := allowSubnets_parse text
  rw [← guarded.cfg] at filtered
  unfold ServerApp.startUp
  by_cases notReady : !answer.tlsReady
  · rw [if_pos notReady]
    exact returned app.filter 2
  · rw [if_neg notReady, filtered]
    dsimp only
    split
    · exact returned app.filter 3
    · split
      · exact returned _ 4
      · split
        · exact returned _ 5
        · split
          · exact returned _ 6
          · exact ⟨guarded.cfg, fun _ _ => rfl, by simp [AcceptPoint.screened],
              guarded.threads⟩

/-- The accept loop keeps what is known. -/
theorem AppGuarded.acceptStep
    (guarded : AppGuarded inetPtonA argon2idVerify text app)
    (answer : AcceptAnswer) :
    AppGuarded inetPtonA argon2idVerify text (app.acceptStep inetPtonA answer) := by
  by_cases starting : app.point = .starting
  · rw [ServerApp.acceptStep, starting]
    exact guarded.startUp answer
  · have moves := acceptStep_moves inetPtonA app answer starting
    have still :
        (app.acceptStep inetPtonA answer).point.hasReturned = false →
          app.point.hasReturned = false := by
      intro notReturned
      cases point : app.point with
      | returned code =>
          rw [ServerApp.acceptStep, point] at notReturned
          dsimp only at notReturned
          rwa [point] at notReturned
      | _ =>
          rfl
    refine ⟨moves.cfg.trans guarded.cfg, ?_, ?_, ?_⟩
    · intro _ notReturned
      exact moves.filter.trans (guarded.filter starting (still notReturned))
    · intro c member
      have notReturned :
          (app.acceptStep inetPtonA answer).point.hasReturned = false := by
        cases point : (app.acceptStep inetPtonA answer).point with
        | returned code =>
            rw [point] at member
            cases member
        | _ =>
            rfl
      rcases moves.screened c member with wasScreened | allowed
      · exact guarded.screened c wasScreened
      · exact guarded.allowed starting (still notReturned) allowed
    · intro thread member
      rcases moves.threads thread member with wasThere | ⟨c, screened, rfl⟩
      · exact guarded.threads thread wasThere
      · exact threadGuarded_new (guarded.screened c screened)

/-- A session thread keeps what is known, if its answers are vouched for. -/
theorem AppGuarded.sessionStep
    (guarded : AppGuarded inetPtonA argon2idVerify text app)
    (index : Nat)
    (turn : Turn)
    (vouched :
      ∀ thread,
        app.threads[index]? = some thread →
        thread.next? = none →
        AnswersVouched (TextVouches argon2idVerify text) thread.session turn) :
    AppGuarded inetPtonA argon2idVerify text
      (app.sessionStep sha256 index turn) := by
  have replaced :
      ∀ (thread : SessionThread) (slots : SlotCounter Nat),
        ThreadGuarded inetPtonA argon2idVerify text thread →
        AppGuarded inetPtonA argon2idVerify text
          { app with
            threads := app.threads.set index thread
            activeSessions := slots } := by
    intro thread slots isGuarded
    refine ⟨guarded.cfg, guarded.filter, guarded.screened, ?_⟩
    intro other member
    rcases List.mem_or_eq_of_mem_set member with wasThere | rfl
    · exact guarded.threads other wasThere
    · exact isGuarded
  unfold ServerApp.sessionStep
  cases found : app.threads[index]? with
  | none =>
      exact guarded
  | some thread =>
      obtain ⟨listed, mediates, endorsed⟩ :=
        guarded.threads thread (List.mem_of_getElem? found)
      dsimp only
      cases next : thread.next? with
      | some effect =>
          exact replaced _ _ ⟨listed, mediates, endorsed⟩
      | none =>
          have answers := vouched thread found next
          split
          · next isSome =>
              cases isSome
          · refine ⟨guarded.cfg, guarded.filter, guarded.screened, ?_⟩
            intro other member
            exact guarded.threads other (List.mem_of_mem_eraseIdx member)
          · refine replaced _ _ ⟨listed, mediates_step _ _ mediates, ?_⟩
            exact endorsed_step answers mediates endorsed

/-- Every action of the server keeps what is known, if its answers are vouched for. -/
theorem AppGuarded.step
    (guarded : AppGuarded inetPtonA argon2idVerify text app)
    (event : ServerEvent)
    (vouched :
      ∀ index turn,
        event = .session index turn →
        ∀ thread,
          app.threads[index]? = some thread →
          thread.next? = none →
          AnswersVouched (TextVouches argon2idVerify text) thread.session turn) :
    AppGuarded inetPtonA argon2idVerify text
      (app.step sha256 inetPtonA event) := by
  unfold ServerApp.step
  split
  · exact guarded
  · cases event with
    | acceptLoop answer =>
        exact guarded.acceptStep answer
    | session index turn =>
        exact guarded.sessionStep index turn (vouched index turn rfl)
    | clearRunning =>
        exact ⟨guarded.cfg, guarded.filter, guarded.screened, guarded.threads⟩
    | closeListener =>
        exact ⟨guarded.cfg, guarded.filter, guarded.screened, guarded.threads⟩

end App

/-! ## The whole server -/

/-- A waiting thread has read the credentials that its call was made with. -/
def PendingLogin.Waits (calls : List AuthCall) (waiting : PendingLogin) : Prop :=
  ∃ m areq call,
    waiting.turn.read = .ok m ∧
      AuthRequestMsg.decode m.payload = .ok areq ∧
      calls[waiting.call]? = some call ∧
      call.username = areq.username ∧
      call.password = areq.password

/-- What is known of the server between any two actions. -/
structure ServerGuarded
    (inetPtonA : InetPton)
    (argon2idVerify : Bytes → Bytes → Bool)
    (text : Bytes)
    (server : GuardedServer) : Prop where
  app : AppGuarded inetPtonA argon2idVerify text server.app
  accounts : AccountsOf text server.logins.sec
  calls : ∀ call ∈ server.logins.calls, call.Vouched argon2idVerify text
  pending : ∀ waiting ∈ server.pending, waiting.Waits server.logins.calls

section Server

variable {sha256 : Bytes → Hash256}
variable {inetPtonA : InetPton}
variable {argon2idVerify : Bytes → Bytes → Bool}
variable {text : Bytes}
variable {server : GuardedServer}

/-- What is known of a server that starts. -/
theorem serverGuarded_started
    (decoyHash : Bytes)
    (clock : Int) :
    ServerGuarded inetPtonA argon2idVerify text
      (GuardedServer.started (ServerConfig.parse text) decoyHash clock) where
  app :=
    { cfg := rfl
      filter := fun isStarted => absurd rfl isStarted
      screened := by simp [GuardedServer.started, AcceptPoint.screened]
      threads := by simp [GuardedServer.started] }
  accounts := fun _ _ found => accounts_of_text found
  calls := by simp [GuardedServer.started]
  pending := by simp [GuardedServer.started]

/-- A section of a call keeps what is known. -/
theorem ServerGuarded.advance
    (guarded : ServerGuarded inetPtonA argon2idVerify text server)
    (index : Nat) :
    ServerGuarded inetPtonA argon2idVerify text
      { server with
        logins := server.logins.step argon2idVerify (.advance index) } := by
  rw [LoginSystem.step]
  cases found : server.logins.calls[index]? with
  | none =>
      exact guarded
  | some call =>
      dsimp only
      have users := advance_users argon2idVerify server.logins.sec call
      have credentials :=
        advance_credentials argon2idVerify server.logins.sec call
      have vouched :=
        advance_vouched guarded.accounts
          (guarded.calls call (List.mem_of_getElem? found))
      generalize call.advance argon2idVerify server.logins.sec = after
        at users credentials vouched ⊢
      obtain ⟨call', sec', events⟩ := after
      dsimp only at users credentials vouched ⊢
      refine ⟨guarded.app, ?_, ?_, ?_⟩
      · intro name u foundUser
        rw [users] at foundUser
        exact guarded.accounts name u foundUser
      · intro other member
        rcases List.mem_or_eq_of_mem_set member with wasThere | rfl
        · exact guarded.calls other wasThere
        · exact vouched
      · intro waiting member
        obtain ⟨m, areq, old, read, decoded, isOld, sameName, samePassword⟩ :=
          guarded.pending waiting member
        by_cases same : waiting.call = index
        · rw [same, found] at isOld
          obtain rfl := Option.some.inj isOld
          refine ⟨m, areq, call', read, decoded, ?_,
            credentials.1.trans sameName, credentials.2.trans samePassword⟩
          rw [same]
          exact List.getElem?_set_self (List.getElem?_eq_some_iff.mp found).1
        · refine ⟨m, areq, old, read, decoded, ?_, sameName, samePassword⟩
          exact (List.getElem?_set_ne (Ne.symm same)).trans isOld

/-- Credentials that are read were in a message. -/
theorem reads_credentials
    {thread : SessionThread}
    {turn : Turn}
    {areq : AuthRequestMsg}
    (reads : thread.credentials? turn = some areq) :
    ∃ m, turn.read = .ok m ∧ AuthRequestMsg.decode m.payload = .ok areq := by
  rw [SessionThread.credentials?] at reads
  cases read : turn.read with
  | ok m =>
      rw [read] at reads
      split at reads
      · next isMessage =>
          obtain rfl := ReadResult.ok.inj isMessage
          split at reads
          · cases decoded : AuthRequestMsg.decode m.payload with
            | error error =>
                rw [decoded] at reads
                cases reads
            | ok found =>
                rw [decoded] at reads
                obtain rfl := Option.some.inj reads
                exact ⟨m, rfl, decoded⟩
          · cases reads
      · cases reads
  | _ =>
      rw [read] at reads
      split at reads
      · next isMessage =>
          cases isMessage
      · cases reads

/-- A call that is made keeps what is known. -/
theorem ServerGuarded.ask
    (guarded : ServerGuarded inetPtonA argon2idVerify text server)
    {thread : SessionThread}
    {turn : Turn}
    {areq : AuthRequestMsg}
    (reads : thread.credentials? turn = some areq) :
    ServerGuarded inetPtonA argon2idVerify text
      (server.ask argon2idVerify thread turn areq) := by
  obtain ⟨m, read, decoded⟩ := reads_credentials reads
  refine ⟨guarded.app, guarded.accounts, ?_, ?_⟩
  · intro call member
    rcases List.mem_append.mp member with wasThere | isNew
    · exact guarded.calls call wasThere
    · rw [List.mem_singleton.mp isNew]
      trivial
  · intro waiting member
    rcases List.mem_append.mp member with wasThere | isNew
    · obtain ⟨m, areq, call, read, decoded, isCall, same⟩ :=
        guarded.pending waiting wasThere
      refine ⟨m, areq, call, read, decoded, ?_, same⟩
      exact (List.getElem?_append_left
        (List.getElem?_eq_some_iff.mp isCall).1).trans isCall
    · rw [List.mem_singleton.mp isNew]
      exact ⟨m, areq, _, read, decoded, List.getElem?_concat_length, rfl, rfl⟩

/-- A thread that goes on after its call keeps what is known. -/
theorem ServerGuarded.resume
    (guarded : ServerGuarded inetPtonA argon2idVerify text server)
    (index : Nat)
    {waiting : PendingLogin}
    (isPending : waiting ∈ server.pending) :
    ServerGuarded inetPtonA argon2idVerify text
      (server.resume sha256 inetPtonA index waiting) := by
  obtain ⟨m, areq, call, read, decoded, isCall, sameName, samePassword⟩ :=
    guarded.pending waiting isPending
  unfold GuardedServer.resume
  rw [isCall, Option.map_some]
  cases phase : call.phase with
  | returned outcome =>
      dsimp only
      have vouched := guarded.calls call (List.mem_of_getElem? isCall)
      rw [AuthCall.Vouched, phase, sameName, samePassword] at vouched
      refine ⟨?_, guarded.accounts, guarded.calls, ?_⟩
      · dsimp only
        apply guarded.app.step
        rintro _ _ event thread _ _ _ other asked isRead _ isDecoded
        obtain ⟨_, rfl⟩ := ServerEvent.session.inj event
        dsimp only at isRead ⊢
        rw [read] at isRead
        obtain rfl := ReadResult.ok.inj isRead
        rw [decoded] at isDecoded
        obtain rfl := Except.ok.inj isDecoded
        exact vouched
      · intro other member
        exact guarded.pending other (List.mem_of_mem_filter member)
  | _ =>
      exact guarded

/-- Every action keeps what is known. -/
theorem ServerGuarded.step
    (server : GuardedServer)
    (event : GuardedEvent)
    (guarded : ServerGuarded inetPtonA argon2idVerify text server) :
    ServerGuarded inetPtonA argon2idVerify text
      (server.step sha256 inetPtonA argon2idVerify event) := by
  have unasked :
      ∀ other : ServerEvent,
        (∀ index turn,
          other = .session index turn →
          ∀ thread,
            server.app.threads[index]? = some thread →
            thread.credentials? turn = none) →
        ServerGuarded inetPtonA argon2idVerify text
          { server with app := server.app.step sha256 inetPtonA other } := by
    intro other unread
    refine ⟨guarded.app.step other ?_, guarded.accounts, guarded.calls,
      guarded.pending⟩
    intro index turn isSession thread found next inAuth m areq read op decoded _
    have nothing := unread index turn isSession thread found
    rw [SessionThread.credentials?, next, inAuth, read] at nothing
    dsimp only at nothing
    rw [if_pos op, decoded] at nothing
    cases nothing
  unfold GuardedServer.step
  split
  · exact guarded
  · cases event with
    | acceptLoop answer =>
        exact unasked _ (by simp)
    | clearRunning =>
        exact unasked _ (by simp)
    | closeListener =>
        exact unasked _ (by simp)
    | tick elapsed =>
        exact ⟨guarded.app, guarded.accounts, guarded.calls, guarded.pending⟩
    | advance call =>
        exact guarded.advance call
    | session index turn =>
        dsimp only
        unfold GuardedServer.sessionStep
        split
        · exact guarded
        · next thread found =>
            split
            · next waiting isFound =>
                exact guarded.resume index (List.mem_of_find?_eq_some isFound)
            · split
              · next areq reads =>
                  exact guarded.ask reads
              · next unread =>
                  refine unasked _ ?_
                  rintro _ _ isSession other isOther
                  obtain ⟨rfl, rfl⟩ := ServerEvent.session.inj isSession
                  rw [found] at isOther
                  obtain rfl := Option.some.inj isOther
                  exact unread

/-- What a thread has done was warranted. -/
theorem ThreadGuarded.warranted
    {thread : SessionThread}
    (guarded : ThreadGuarded inetPtonA argon2idVerify text thread) :
    ThreadWarranted inetPtonA argon2idVerify text thread where
  listed := guarded.listed
  warranted := by
    obtain ⟨user, rights, mode, obeys⟩ :=
      guarded.endorsed.warranted guarded.mediates
    refine ⟨user, rights, mode, ?_⟩
    rw [← List.take_append_drop thread.performed thread.session.trace,
      obeys_append] at obeys
    exact obeys.1

/--
Authority comes from the text alone.  In every run of the accept loop, the
session threads and their calls of `authenticate`, in any order, every thread
serves a peer that the text lists, and whatever it has done that rights guard
came after credentials of one user whose hash in the text matched them, and is
permitted by the rights that the text gives that user.
-/
theorem authority_from_text
    (sha256 : Bytes → Hash256)
    (inetPtonA : InetPton)
    (argon2idVerify : Bytes → Bytes → Bool)
    (text decoyHash : Bytes)
    (clock : Int)
    (events : List GuardedEvent) :
    (GuardedServer.run sha256 inetPtonA argon2idVerify text decoyHash clock
        events).app.threads.Forall
      (ThreadWarranted inetPtonA argon2idVerify text) := by
  have guarded :
      ServerGuarded inetPtonA argon2idVerify text
        (GuardedServer.run sha256 inetPtonA argon2idVerify text decoyHash clock
          events) :=
    StepRuns.run_invariant _ ServerGuarded.step
      (serverGuarded_started decoyHash clock) events
  exact List.forall_iff_forall_mem.mpr fun thread member =>
    (guarded.app.threads thread member).warranted

end Server

end RadminPro
