import RadminPro.TrayApp

namespace RadminPro

open ByteCodec

/-!
# Servers and the sessions they started

A server that is destroyed while one of its sessions runs leaves that session
with members that are gone, and with an audit log that the next server opens.
Nothing in `stopServer` rules this out; it does not happen in the runs in which
the accept loop returns only when no session runs.
-/

/-! ## Sessions that have exited stay so -/

section Exited

variable {sha256 : Bytes → Hash256}
variable {inetPtonA : InetPton}
variable {app : ServerApp}

/-- A thread that has done more has not returned to its session. -/
theorem exited_of_prefix
    {thread later : SessionThread}
    (more : thread.done ⊆ later.done)
    (exited : thread.exited = true) :
    later.exited = true := by
  have released : .releaseSlot ∈ thread.done := by
    simpa [SessionThread.exited] using exited
  simpa [SessionThread.exited] using more released

/-- Where no session runs, every thread has exited. -/
theorem runningSessions_eq_nil_iff :
    app.runningSessions = [] ↔
      ∀ thread ∈ app.threads, thread.exited = true := by
  simp [ServerApp.runningSessions, List.filter_eq_nil_iff]

/-- An action of a thread starts no session. -/
theorem sessionStep_idle
    (idle : app.runningSessions = [])
    (index : Nat)
    (turn : Turn) :
    (app.sessionStep sha256 index turn).runningSessions = [] := by
  rw [runningSessions_eq_nil_iff] at idle ⊢
  unfold ServerApp.sessionStep
  cases found : app.threads[index]? with
  | none =>
      exact idle
  | some thread =>
      have exited : thread.exited = true :=
        idle thread (List.mem_of_getElem? found)
      dsimp only
      split
      · intro other member
        rcases List.mem_or_eq_of_mem_set member with before | rfl
        · exact idle other before
        · apply exited_of_prefix _ exited
          exact (List.take_sublist_take_left (Nat.le_succ _)).subset
      · intro other member
        exact idle other (List.mem_of_mem_eraseIdx member)
      · intro other member
        rcases List.mem_or_eq_of_mem_set member with before | rfl
        · exact idle other before
        · apply exited_of_prefix _ exited
          intro effect isDone
          obtain ⟨effects, shape⟩ :
              ∃ effects,
                (thread.session.step sha256 thread.setup
                    { turn with running := app.running }).trace =
                  thread.session.trace ++ effects :=
            ⟨_, rfl⟩
          rw [SessionThread.done] at isDone ⊢
          dsimp only
          rw [shape, List.take_append]
          exact List.mem_append_left _ isDone

/-- The threads do not move the accept loop. -/
@[simp] theorem sessionStep_point
    (index : Nat)
    (turn : Turn) :
    (app.sessionStep sha256 index turn).point = app.point := by
  unfold ServerApp.sessionStep
  split
  · rfl
  · split
    · rfl
    · rfl
    · rfl

end Exited

/-! ## What one action does to the server -/

/-- `accept` returns fresh handles. -/
def TrayFresh (tray : TrayApp) : TrayEvent → Prop
  | .acceptLoop answer =>
      ∀ app ∈ tray.server, FreshHandle app (.acceptLoop answer)
  | .command _ | .proceed | .session .. | .orphan .. => True

/-- The accept loop returns only when no session of its server runs. -/
def ReturnsLast (tray : TrayApp) : TrayEvent → Prop
  | .acceptLoop _ =>
      ∀ app ∈ tray.server,
        app.terminated = false →
        app.point = .closing →
        app.runningSessions = []
  | .command _ | .proceed | .session .. | .orphan .. => True

instance (tray : TrayApp) : (event : TrayEvent) → Decidable (TrayFresh tray event)
  | .acceptLoop answer =>
      inferInstanceAs
        (Decidable (∀ app ∈ tray.server, FreshHandle app (.acceptLoop answer)))
  | .command _ | .proceed | .session .. | .orphan .. =>
      inferInstanceAs (Decidable True)

instance (tray : TrayApp) : (event : TrayEvent) → Decidable (ReturnsLast tray event)
  | .acceptLoop _ =>
      inferInstanceAs
        (Decidable
          (∀ app ∈ tray.server,
            app.terminated = false →
            app.point = .closing →
            app.runningSessions = []))
  | .command _ | .proceed | .session .. | .orphan .. =>
      inferInstanceAs (Decidable True)

/-- A server in order, that has no running session once `run` has returned. -/
structure Serves (inetPtonA : InetPton) (app : ServerApp) : Prop where
  orderly : Orderly inetPtonA app
  returned : app.point.hasReturned = true → app.runningSessions = []

/--
Every server that was destroyed had no session then, no session takes a step
after that, and at most one server can append to an audit file.
-/
structure OutlivesSessions (tray : TrayApp) : Prop where
  noneLive :
    ∀ app ∈ tray.destroyed,
      app.runningSessions = [] ∧ app.activeSessions.value = 0
  noStray : tray.strayed = []
  oneWriter :
    ∀ path g h, tray.MayAppend path g → tray.MayAppend path h → g = h

section Served

variable {sha256 : Bytes → Hash256}
variable {inetPtonA : InetPton}
variable {app : ServerApp}

/-- The accept loop returns from its start, without a thread, or from its end. -/
theorem acceptStep_returned
    (orderly : Orderly inetPtonA app)
    (answer : AcceptAnswer)
    (returned : (app.acceptStep inetPtonA answer).point.hasReturned = true) :
    (app.point.hasReturned = true ∨ app.point = .closing ∨ app.threads = []) ∧
      (app.acceptStep inetPtonA answer).threads = app.threads := by
  cases here : app.point with
  | starting =>
      refine ⟨.inr (.inr (orderly.unstarted here)), ?_⟩
      simp only [ServerApp.acceptStep, here, ServerApp.startUp]
      split_ifs
      all_goals rfl
  | testing =>
      simp only [ServerApp.acceptStep, here] at returned
      cases running : app.running
      all_goals simp [running, AcceptPoint.hasReturned] at returned
  | accepting =>
      simp only [ServerApp.acceptStep, here, ServerApp.acceptReturned] at returned
      split at returned
      · split at returned
        · cases returned
        · cases returned
      · cases returned
  | failed =>
      simp only [ServerApp.acceptStep, here] at returned
      cases running : app.running
      all_goals simp [running, AcceptPoint.hasReturned] at returned
  | screening c =>
      simp only [ServerApp.acceptStep, here] at returned
      split at returned
      · cases returned
      · cases returned
  | refused c detail =>
      simp [ServerApp.acceptStep, here, AcceptPoint.hasReturned] at returned
  | claiming c =>
      simp only [ServerApp.acceptStep, here] at returned
      split at returned
      · cases returned
      · cases returned
  | overCap c =>
      simp [ServerApp.acceptStep, here, AcceptPoint.hasReturned] at returned
  | admitted c =>
      simp [ServerApp.acceptStep, here, AcceptPoint.hasReturned] at returned
  | wrapping c =>
      simp only [ServerApp.acceptStep, here] at returned
      split at returned
      · cases returned
      · cases returned
  | unwrapped c =>
      simp [ServerApp.acceptStep, here, AcceptPoint.hasReturned] at returned
  | spawning c =>
      simp [ServerApp.acceptStep, here, AcceptPoint.hasReturned] at returned
  | closing =>
      exact ⟨.inr (.inl rfl), by simp [ServerApp.acceptStep, here]⟩
  | returned code =>
      exact ⟨.inl rfl, by simp [ServerApp.acceptStep, here]⟩

/-- What a constructed server has to be. -/
theorem serves_constructed
    (inetPtonA : InetPton)
    (cfg : ServerConfig) :
    Serves inetPtonA { cfg } where
  orderly := orderly_constructed inetPtonA cfg
  returned := fun _ => rfl

/-- A server that returns last serves on after an action of its accept loop. -/
theorem Serves.acceptLoop
    (serves : Serves inetPtonA app)
    {answer : AcceptAnswer}
    (fresh : FreshHandle app (.acceptLoop answer))
    (returnsLast :
      app.terminated = false → app.point = .closing → app.runningSessions = []) :
    Serves inetPtonA (app.step sha256 inetPtonA (.acceptLoop answer)) := by
  refine ⟨serves.orderly.step fresh, fun returned => ?_⟩
  unfold ServerApp.step at returned ⊢
  split
  · next ended =>
      rw [if_pos ended] at returned
      exact serves.returned returned
  · next lives =>
      rw [if_neg lives] at returned
      obtain ⟨cause, sameThreads⟩ :=
        acceptStep_returned serves.orderly answer returned
      have sameRunning :
          (app.acceptStep inetPtonA answer).runningSessions =
            app.runningSessions := by
        rw [ServerApp.runningSessions, ServerApp.runningSessions, sameThreads]
      dsimp only
      rw [sameRunning]
      rcases cause with before | closing | noThread
      · exact serves.returned before
      · exact returnsLast (by simpa using lives) closing
      · simp [ServerApp.runningSessions, noThread]

/-- A server serves on after an action that leaves its accept loop alone. -/
theorem Serves.others
    (serves : Serves inetPtonA app)
    {event : ServerEvent}
    (other : ∀ answer, event ≠ .acceptLoop answer) :
    Serves inetPtonA (app.step sha256 inetPtonA event) := by
  have fresh : FreshHandle app event := by
    cases event with
    | acceptLoop answer => exact (other answer rfl).elim
    | session index turn => trivial
    | clearRunning => trivial
    | closeListener => trivial
  refine ⟨serves.orderly.step fresh, fun returned => ?_⟩
  unfold ServerApp.step at returned ⊢
  split
  · next ended =>
      rw [if_pos ended] at returned
      exact serves.returned returned
  · next lives =>
      rw [if_neg lives] at returned
      cases event with
      | acceptLoop answer =>
          exact (other answer rfl).elim
      | session index turn =>
          dsimp only at returned ⊢
          rw [sessionStep_point] at returned
          exact sessionStep_idle (serves.returned returned) index turn
      | clearRunning =>
          exact serves.returned returned
      | closeListener =>
          exact serves.returned returned

/-- A server that has returned and has no session counts none. -/
theorem Serves.counter_zero
    (serves : Serves inetPtonA app)
    (returned : app.point.hasReturned = true) :
    app.activeSessions.value = 0 := by
  have idle : app.point.connections = [] := by
    cases here : app.point with
    | returned code => rfl
    | _ =>
        rw [here] at returned
        cases returned
  have counted := serves.orderly.keepsCap.counted idle
  rw [serves.returned returned] at counted
  exact UInt32.toNat_inj.mp counted

end Served

/-! ## Runs of the tray -/

/-- What holds between any two actions. -/
structure InService (inetPtonA : InetPton) (tray : TrayApp) : Prop where
  serves : ∀ app, tray.server = some app → Serves inetPtonA app
  joined :
    ∀ restart app,
      tray.point = .resetting restart →
      tray.server = some app →
      app.point.hasReturned = true
  noneLive :
    ∀ app ∈ tray.destroyed,
      app.runningSessions = [] ∧ app.activeSessions.value = 0
  noStray : tray.strayed = []

section Kept

variable {sha256 : Bytes → Hash256}
variable {inetPtonA : InetPton}
variable {tray : TrayApp}

/-- A server that has returned stays where it is. -/
theorem hasReturned_step
    {app : ServerApp}
    (returned : app.point.hasReturned = true)
    (event : ServerEvent) :
    (app.step sha256 inetPtonA event).point.hasReturned = true := by
  unfold ServerApp.step
  split
  · exact returned
  · cases event with
    | acceptLoop answer =>
        cases here : app.point with
        | returned code =>
            simp [ServerApp.acceptStep, here, AcceptPoint.hasReturned]
        | _ =>
            rw [here] at returned
            cases returned
    | session index turn =>
        dsimp only
        rwa [sessionStep_point]
    | clearRunning =>
        exact returned
    | closeListener =>
        exact returned

/-- The tray before its first action. -/
theorem inService_initial
    (inetPtonA : InetPton)
    (cfg : ServerConfig)
    (cfgLoaded : Bool) :
    InService inetPtonA { cfg, cfgLoaded } where
  serves := by
    simp
  joined := by
    simp
  noneLive := by
    simp
  noStray := rfl

/-- Going on with the same server. -/
theorem InService.moveTo
    (inService : InService inetPtonA tray)
    {later : TrayApp}
    (server : later.server = tray.server)
    (point : ∀ restart, later.point ≠ .resetting restart)
    (destroyed : later.destroyed = tray.destroyed)
    (strayed : later.strayed = tray.strayed) :
    InService inetPtonA later where
  serves := by
    rw [server]
    exact inService.serves
  joined := fun restart _ here => (point restart here).elim
  noneLive := by
    rw [destroyed]
    exact inService.noneLive
  noStray := strayed.trans inService.noStray

/-- A command of the message loop keeps the server. -/
theorem InService.obey
    (inService : InService inetPtonA tray)
    (command : TrayCommand) :
    InService inetPtonA (tray.obey command) := by
  cases here : tray.point with
  | idle =>
      cases command with
      | start =>
          simp only [TrayApp.obey, here]
          exact inService.moveTo rfl (by simp) rfl rfl
      | stop =>
          simp only [TrayApp.obey, here]
          exact inService.moveTo rfl (by simp) rfl rfl
      | options edited saved =>
          simp only [TrayApp.obey, here, TrayApp.onOptions]
          cases tray.cfgLoaded
          all_goals cases edited
          all_goals cases saved
          all_goals exact inService.moveTo rfl (by simp [here]) rfl rfl
      | users edited saved =>
          simp only [TrayApp.obey, here, TrayApp.onUsers]
          cases tray.cfgLoaded
          all_goals cases edited
          all_goals cases saved
          all_goals exact inService.moveTo rfl (by simp [here]) rfl rfl
  | stopping restart => simpa [TrayApp.obey, here] using inService
  | closingListener restart => simpa [TrayApp.obey, here] using inService
  | joining restart => simpa [TrayApp.obey, here] using inService
  | resetting restart => simpa [TrayApp.obey, here] using inService
  | starting => simpa [TrayApp.obey, here] using inService

/-- `startServer` constructs a server or leaves the one there is. -/
theorem InService.startServer
    (inService : InService inetPtonA tray) :
    InService inetPtonA { tray.startServer with point := .idle } := by
  unfold TrayApp.startServer
  split
  · exact inService.moveTo rfl (by simp) rfl rfl
  · split
    · exact inService.moveTo rfl (by simp) rfl rfl
    · exact
        { serves := fun app isServer => by
            cases isServer
            exact serves_constructed inetPtonA tray.cfg
          joined := by
            simp
          noneLive := inService.noneLive
          noStray := inService.noStray }

/-- An action on the server, at whatever point of the tray. -/
theorem InService.onServer
    (inService : InService inetPtonA tray)
    {app : ServerApp}
    (isServer : tray.server = some app)
    {event : ServerEvent}
    (serves : Serves inetPtonA (app.step sha256 inetPtonA event))
    {point : TrayPoint}
    (resets : ∀ restart, point = .resetting restart → tray.point = point) :
    InService inetPtonA
      { tray with
        server := some (app.step sha256 inetPtonA event)
        point } where
  serves := fun other isOther => by
    cases isOther
    exact serves
  joined := fun restart other here isOther => by
    cases isOther
    have before : tray.point = .resetting restart :=
      (resets restart here).trans here
    exact hasReturned_step (inService.joined restart app before isServer) event
  noneLive := inService.noneLive
  noStray := inService.noStray

/-- An action of the user-interface thread destroys no server too early. -/
theorem InService.proceed
    (inService : InService inetPtonA tray) :
    InService inetPtonA (tray.proceed sha256 inetPtonA) := by
  have notReset : ∀ again restart, TrayApp.afterStop again ≠ .resetting restart := by
    intro again restart
    cases again
    all_goals simp [TrayApp.afterStop]
  cases here : tray.point with
  | idle =>
      simpa [TrayApp.proceed, here] using inService
  | starting =>
      simpa [TrayApp.proceed, here] using inService.startServer
  | stopping restart =>
      cases isServer : tray.server with
      | none =>
          simp only [TrayApp.proceed, here, isServer]
          exact inService.moveTo isServer.symm (notReset restart) rfl rfl
      | some app =>
          simp only [TrayApp.proceed, here, isServer]
          apply inService.onServer isServer
          · exact (inService.serves app isServer).others (by simp)
          · simp
  | closingListener restart =>
      cases isServer : tray.server with
      | none =>
          simpa [TrayApp.proceed, here, isServer] using inService
      | some app =>
          simp only [TrayApp.proceed, here, isServer]
          apply inService.onServer isServer
          · exact (inService.serves app isServer).others (by simp)
          · simp
  | joining restart =>
      cases isServer : tray.server with
      | none =>
          simpa [TrayApp.proceed, here, isServer] using inService
      | some app =>
          simp only [TrayApp.proceed, here, isServer]
          split
          · next returned =>
              exact
                { serves := fun other isOther => by
                    rw [← isServer] at isOther
                    exact inService.serves other isOther
                  joined := fun _ other _ isOther => by
                    cases isOther
                    exact returned
                  noneLive := inService.noneLive
                  noStray := inService.noStray }
          · exact inService
  | resetting restart =>
      cases isServer : tray.server with
      | none =>
          simpa [TrayApp.proceed, here, isServer] using inService
      | some app =>
          simp only [TrayApp.proceed, here, isServer]
          have returned : app.point.hasReturned = true :=
            inService.joined restart app here isServer
          have serves : Serves inetPtonA app := inService.serves app isServer
          exact
            { serves := by
                simp
              joined := by
                simp
              noneLive := fun other member => by
                rcases List.mem_append.mp member with before | isLast
                · exact inService.noneLive other before
                · rw [List.mem_singleton.mp isLast]
                  exact ⟨serves.returned returned, serves.counter_zero returned⟩
              noStray := inService.noStray }

/-- An action of the server. -/
theorem InService.serve
    (inService : InService inetPtonA tray)
    {event : ServerEvent}
    (serves :
      ∀ app,
        tray.server = some app →
        Serves inetPtonA (app.step sha256 inetPtonA event)) :
    InService inetPtonA (tray.serve sha256 inetPtonA event) := by
  unfold TrayApp.serve
  cases isServer : tray.server with
  | none =>
      exact
        { serves := by
            simp
          joined := by
            simp
          noneLive := inService.noneLive
          noStray := inService.noStray }
  | some app =>
      exact inService.onServer isServer (serves app isServer)
        fun restart here => rfl

/-- No session of a destroyed server is left to take a step. -/
theorem InService.stray
    (inService : InService inetPtonA tray)
    (generation index : Nat) :
    InService inetPtonA (tray.stray generation index) := by
  unfold TrayApp.stray
  split
  · exact inService
  · next app isDestroyed =>
      have idle : app.runningSessions = [] :=
        (inService.noneLive app (List.mem_of_getElem? isDestroyed)).1
      split
      · exact inService
      · next thread isThread =>
          have exited : thread.exited = true :=
            runningSessions_eq_nil_iff.mp idle thread
              (List.mem_of_getElem? isThread)
          rw [if_pos exited]
          exact inService

/-- Every action of a run whose accept loops return last keeps the service. -/
theorem InService.step
    (inService : InService inetPtonA tray)
    {event : TrayEvent}
    (fresh : TrayFresh tray event)
    (returnsLast : ReturnsLast tray event) :
    InService inetPtonA (tray.step sha256 inetPtonA event) := by
  unfold TrayApp.step
  split
  · exact inService
  · cases event with
    | command command =>
        exact inService.obey command
    | proceed =>
        exact inService.proceed
    | acceptLoop answer =>
        apply inService.serve
        intro app isServer
        exact (inService.serves app isServer).acceptLoop
          (fresh app isServer) (returnsLast app isServer)
    | session index turn =>
        apply inService.serve
        intro app isServer
        exact (inService.serves app isServer).others (by simp)
    | orphan generation index =>
        exact inService.stray generation index

/-- Servers in service outlive their sessions. -/
theorem InService.outlives
    (inService : InService inetPtonA tray) :
    OutlivesSessions tray where
  noneLive := inService.noneLive
  noStray := inService.noStray
  oneWriter := by
    have current :
        ∀ path generation,
          tray.MayAppend path generation → generation = tray.destroyed.length := by
      rintro path generation ⟨app, isHere, -, isLast | running⟩
      · exact isLast
      · by_cases before : generation < tray.destroyed.length
        · rw [TrayApp.generations, List.getElem?_append_left before] at isHere
          exact (running
            (inService.noneLive app (List.mem_of_getElem? isHere)).1).elim
        · obtain ⟨inside, -⟩ := List.getElem?_eq_some_iff.mp isHere
          rw [TrayApp.generations, List.length_append] at inside
          have atMostOne : tray.server.toList.length ≤ 1 := by
            cases tray.server
            all_goals simp
          omega
    intro path g h first second
    exact (current path g first).trans (current path h second).symm

end Kept

/-! ## After an early return -/

section Early

variable {sha256 : Bytes → Hash256}
variable {inetPtonA : InetPton}

/-- The tray has a way to destroy its server with the threads it has. -/
def CanReset
    (sha256 : Bytes → Hash256)
    (inetPtonA : InetPton)
    (tray : TrayApp)
    (threads : List SessionThread) : Prop :=
  ∃ more app,
    app ∈ (StepRuns.run (TrayApp.step sha256 inetPtonA) tray more).destroyed ∧
      app.threads = threads

/-- What can be reset after an action can be reset before it. -/
theorem CanReset.before
    {tray : TrayApp}
    {threads : List SessionThread}
    (event : TrayEvent)
    (after :
      CanReset sha256 inetPtonA (tray.step sha256 inetPtonA event) threads) :
    CanReset sha256 inetPtonA tray threads := by
  obtain ⟨more, app, member, sameThreads⟩ := after
  exact ⟨event :: more, app, member, sameThreads⟩

/-- `stop` leaves the threads and the accept loop where they are. -/
theorem step_flag
    {app : ServerApp}
    {event : ServerEvent}
    (isFlag : event = .clearRunning ∨ event = .closeListener) :
    (app.step sha256 inetPtonA event).threads = app.threads ∧
      (app.step sha256 inetPtonA event).point = app.point := by
  unfold ServerApp.step
  split
  · exact ⟨rfl, rfl⟩
  · rcases isFlag with rfl | rfl
    · exact ⟨rfl, rfl⟩
    · exact ⟨rfl, rfl⟩

variable {tray : TrayApp}
variable {app : ServerApp}

/-- The last action of `stopServer` destroys the server. -/
theorem canReset_resetting
    {restart : Bool}
    (lives : app.terminated = false)
    (isServer : tray.server = some app)
    (here : tray.point = .resetting restart) :
    CanReset sha256 inetPtonA tray app.threads := by
  refine ⟨[.proceed], app, ?_, rfl⟩
  simp [TrayApp.step, TrayApp.terminated, isServer, lives, TrayApp.proceed, here]

/-- Once `run` has returned, the join ends. -/
theorem canReset_joining
    {restart : Bool}
    (lives : app.terminated = false)
    (returned : app.point.hasReturned = true)
    (isServer : tray.server = some app)
    (here : tray.point = .joining restart) :
    CanReset sha256 inetPtonA tray app.threads := by
  have next :
      tray.step sha256 inetPtonA .proceed =
        { tray with point := .resetting restart } := by
    simp [TrayApp.step, TrayApp.terminated, isServer, lives, TrayApp.proceed,
      here, returned]
  apply CanReset.before .proceed
  rw [next]
  exact canReset_resetting lives isServer rfl

/-- `stop` closes the listener and joins. -/
theorem canReset_closingListener
    {restart : Bool}
    (lives : app.terminated = false)
    (returned : app.point.hasReturned = true)
    (isServer : tray.server = some app)
    (here : tray.point = .closingListener restart) :
    CanReset sha256 inetPtonA tray app.threads := by
  obtain ⟨threads, point⟩ :
      (app.step sha256 inetPtonA .closeListener).threads = app.threads ∧
        (app.step sha256 inetPtonA .closeListener).point = app.point :=
    step_flag (.inr rfl)
  have next :
      tray.step sha256 inetPtonA .proceed =
        { tray with
          server := some (app.step sha256 inetPtonA .closeListener)
          point := .joining restart } := by
    simp [TrayApp.step, TrayApp.terminated, isServer, lives, TrayApp.proceed,
      here]
  apply CanReset.before .proceed
  rw [next, ← threads]
  apply canReset_joining _ _ rfl rfl
  · rwa [ServerApp.terminated, threads]
  · rwa [point]

/-- `stop` clears the flag first. -/
theorem canReset_stopping
    {restart : Bool}
    (lives : app.terminated = false)
    (returned : app.point.hasReturned = true)
    (isServer : tray.server = some app)
    (here : tray.point = .stopping restart) :
    CanReset sha256 inetPtonA tray app.threads := by
  obtain ⟨threads, point⟩ :
      (app.step sha256 inetPtonA .clearRunning).threads = app.threads ∧
        (app.step sha256 inetPtonA .clearRunning).point = app.point :=
    step_flag (.inl rfl)
  have next :
      tray.step sha256 inetPtonA .proceed =
        { tray with
          server := some (app.step sha256 inetPtonA .clearRunning)
          point := .closingListener restart } := by
    simp [TrayApp.step, TrayApp.terminated, isServer, lives, TrayApp.proceed,
      here]
  apply CanReset.before .proceed
  rw [next, ← threads]
  apply canReset_closingListener _ _ rfl rfl
  · rwa [ServerApp.terminated, threads]
  · rwa [point]

/-- In the message loop, `stop` is a command away. -/
theorem canReset_idle
    (lives : app.terminated = false)
    (returned : app.point.hasReturned = true)
    (isServer : tray.server = some app)
    (here : tray.point = .idle) :
    CanReset sha256 inetPtonA tray app.threads := by
  have next :
      tray.step sha256 inetPtonA (.command .stop) =
        { tray with point := .stopping false } := by
    simp [TrayApp.step, TrayApp.terminated, isServer, lives, TrayApp.obey, here]
  apply CanReset.before (.command .stop)
  rw [next]
  exact canReset_stopping lives returned isServer rfl

/-- A server that has returned can be destroyed with the threads it has. -/
theorem canReset
    (lives : app.terminated = false)
    (returned : app.point.hasReturned = true)
    (isServer : tray.server = some app) :
    CanReset sha256 inetPtonA tray app.threads := by
  cases here : tray.point with
  | idle => exact canReset_idle lives returned isServer here
  | stopping restart => exact canReset_stopping lives returned isServer here
  | closingListener restart =>
      exact canReset_closingListener lives returned isServer here
  | joining restart => exact canReset_joining lives returned isServer here
  | resetting restart => exact canReset_resetting lives isServer here
  | starting =>
      have next :
          tray.step sha256 inetPtonA .proceed = { tray with point := .idle } := by
        simp [TrayApp.step, TrayApp.terminated, isServer, lives,
          TrayApp.proceed, here, TrayApp.startServer]
      apply CanReset.before .proceed
      rw [next]
      exact canReset_idle lives returned isServer rfl

/-- A return under a running session can end in the loss of its server. -/
theorem lost_after_early_return
    {answer : AcceptAnswer}
    (early : ¬ReturnsLast tray (.acceptLoop answer)) :
    ∃ more,
      ¬OutlivesSessions
        (StepRuns.run (TrayApp.step sha256 inetPtonA) tray
          (.acceptLoop answer :: more)) := by
  cases isServer : tray.server with
  | none =>
      simp [ReturnsLast, isServer] at early
  | some app =>
      simp only [ReturnsLast, isServer] at early
      push Not at early
      obtain ⟨_, ⟨⟩, lives, closing, running⟩ := early
      have next :
          tray.step sha256 inetPtonA (.acceptLoop answer) =
            { tray with
              server :=
                some { app with listening := false, point := .returned 0 } } := by
        simp [TrayApp.step, TrayApp.terminated, isServer, lives, TrayApp.serve,
          ServerApp.step, ServerApp.acceptStep, closing]
      obtain ⟨more, lost, member, threads⟩ :
          CanReset sha256 inetPtonA
            (tray.step sha256 inetPtonA (.acceptLoop answer)) app.threads := by
        have isServer :
            (tray.step sha256 inetPtonA (.acceptLoop answer)).server =
              some { app with listening := false, point := .returned 0 } := by
          rw [next]
        have reset :
            CanReset sha256 inetPtonA
              (tray.step sha256 inetPtonA (.acceptLoop answer))
              ({ app with
                listening := false
                point := .returned 0 } : ServerApp).threads :=
          canReset lives rfl isServer
        exact reset
      refine ⟨more, fun outlives => running ?_⟩
      have idle : lost.runningSessions = [] :=
        (outlives.noneLive lost member).1
      rwa [ServerApp.runningSessions, threads] at idle

end Early

/--
In every run in which accept loops return only when no session runs, a server
outlives its sessions.  A run in which one returns earlier can go on to destroy
a server under its session.
-/
theorem server_outlives_sessions
    (sha256 : Bytes → Hash256)
    (inetPtonA : InetPton)
    (cfg : ServerConfig)
    (cfgLoaded : Bool) :
    (∀ events,
      StepRuns.Allowed (TrayApp.step sha256 inetPtonA)
        (fun tray event => TrayFresh tray event ∧ ReturnsLast tray event)
        { cfg, cfgLoaded } events →
      OutlivesSessions
        (StepRuns.run (TrayApp.step sha256 inetPtonA) { cfg, cfgLoaded }
          events)) ∧
      ∀ events answer,
        ¬ReturnsLast
          (StepRuns.run (TrayApp.step sha256 inetPtonA) { cfg, cfgLoaded } events)
          (.acceptLoop answer) →
        ∃ more,
          ¬OutlivesSessions
            (StepRuns.run (TrayApp.step sha256 inetPtonA) { cfg, cfgLoaded }
              (events ++ .acceptLoop answer :: more)) := by
  refine ⟨fun events allowed => ?_, fun events answer early => ?_⟩
  · have inService :
        InService inetPtonA
          (StepRuns.run (TrayApp.step sha256 inetPtonA) { cfg, cfgLoaded }
            events) :=
      allowed.invariant (fun _ _ meets before => before.step meets.1 meets.2)
        (inService_initial inetPtonA cfg cfgLoaded)
    exact inService.outlives
  · obtain ⟨more, lost⟩ :
        ∃ more,
          ¬OutlivesSessions
            (StepRuns.run (TrayApp.step sha256 inetPtonA)
              (StepRuns.run (TrayApp.step sha256 inetPtonA) { cfg, cfgLoaded }
                events)
              (.acceptLoop answer :: more)) :=
      lost_after_early_return early
    refine ⟨more, ?_⟩
    rwa [StepRuns.run_append]

/-- Start a server, admit a connection, stop. -/
def stopDuringHandshake : List TrayEvent :=
  [.command .start, .proceed, .acceptLoop {}, .acceptLoop {},
    .acceptLoop
      { connection := some (4, { ip := ascii "127.0.0.1", port := 50000 }) },
    .acceptLoop {}, .acceptLoop {}, .acceptLoop {}, .acceptLoop {},
    .acceptLoop {}, .command .stop, .proceed, .proceed, .acceptLoop {},
    .acceptLoop {}, .proceed, .proceed]

/-- The same, with the session gone before the accept loop returns. -/
def stopAfterHandshake : List TrayEvent :=
  [.command .start, .proceed, .acceptLoop {}, .acceptLoop {},
    .acceptLoop
      { connection := some (4, { ip := ascii "127.0.0.1", port := 50000 }) },
    .acceptLoop {}, .acceptLoop {}, .acceptLoop {}, .acceptLoop {},
    .acceptLoop {}, .session 0 { handshake := false }, .session 0 {},
    .session 0 {}, .session 0 {}, .command .stop, .proceed, .proceed,
    .acceptLoop {}, .acceptLoop {}, .proceed, .proceed]

/-- The tray after a list of events. -/
def trayAfter (events : List TrayEvent) : TrayApp :=
  StepRuns.run (TrayApp.step evpSha256 loopbackPton)
    { cfg := loopbackConfig, cfgLoaded := true } events

theorem server_outlives_sessions_stopAfterHandshake :
    (trayAfter stopAfterHandshake).destroyed.length = 1 ∧
      OutlivesSessions (trayAfter stopAfterHandshake) :=
  ⟨by decide +kernel,
    (server_outlives_sessions evpSha256 loopbackPton loopbackConfig true).1
      stopAfterHandshake (by decide +kernel)⟩

/-- The server that is stopped during a handshake is destroyed under it. -/
theorem destroyed_during_handshake :
    StepRuns.Allowed (TrayApp.step evpSha256 loopbackPton) TrayFresh
        { cfg := loopbackConfig, cfgLoaded := true } stopDuringHandshake ∧
      ¬OutlivesSessions (trayAfter stopDuringHandshake) := by
  refine ⟨by decide +kernel, fun outlives => ?_⟩
  have oneLive :
      (trayAfter stopDuringHandshake).destroyed.map
          (fun app => app.activeSessions.value) = [1] := by
    decide +kernel
  obtain ⟨app, member, counts⟩ :
      ∃ app ∈ (trayAfter stopDuringHandshake).destroyed,
        app.activeSessions.value = 1 := by
    have inMap : (1 : UInt32) ∈ (trayAfter stopDuringHandshake).destroyed.map
        (fun app => app.activeSessions.value) := by
      simp [oneLive]
    exact List.mem_map.mp inMap
  have zero : app.activeSessions.value = 0 :=
    (outlives.noneLive app member).2
  exact absurd (counts.symm.trans zero) (by decide)

end RadminPro
