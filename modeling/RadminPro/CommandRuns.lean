import RadminPro.LoginExchange
import RadminPro.ServedRequests

namespace RadminPro

open ByteCodec

/-!
# File commands from end to end

From the arguments of the program to its exit code: the client logs in, makes
its call and hangs up, and the session ends with it.
-/

section Commands

variable {sha256 : Bytes → Hash256}
variable {setup : SessionSetup}
variable {early : EarlyAnswers}
variable {ctx : SessionContext}
variable {answers : Nat → Outside}
variable {localAnswers : Nat → LocalAnswer}
variable {cfg : ClientConfig}
variable {call : ClientCall}

/-! ## The call within the process -/

/-- The process with its call at some point. -/
def ClientProcess.during
    (cfg : ClientConfig)
    (call : ClientCall)
    (localFiles : Files)
    (state : CallState) : ClientProcess where
  cfg := cfg
  call := call
  files := localFiles
  point := .calling state

/-- What a call writes is written by the process. -/
theorem action_during_go
    (cfg : ClientConfig)
    (call : ClientCall)
    {state next : CallState}
    {sent : List Message}
    (going : state.verdict? = none)
    (act : state.action sha256 localAnswers = .go sent next)
    (localFiles : Files) :
    ClientProcess.action sha256 localAnswers
        (.during cfg call localFiles state) =
      .go (sent.map some) (.during cfg call localFiles next) := by
  simp only [ClientProcess.action, ClientProcess.during, going, act]

/-- What a call reads is read by the process. -/
theorem action_during_wait
    (cfg : ClientConfig)
    (call : ClientCall)
    {state : CallState}
    {receive : Message → CallState}
    (going : state.verdict? = none)
    (act : state.action sha256 localAnswers = .wait receive)
    (localFiles : Files) :
    ClientProcess.action sha256 localAnswers
        (.during cfg call localFiles state) =
      .wait fun read =>
        .during cfg call localFiles
          (ClientProcess.received sha256 localAnswers state receive read) := by
  simp only [ClientProcess.action, ClientProcess.during, going, act]

/-! ## A transfer within the process -/

/-- The event loop has been entered. -/
def SessionPhase.entered : SessionPhase → Bool
  | .live .. | .closed _ | .terminated _ | .stuck => true
  | .handshake | .hello | .auth | .mode .. => false

/-- The session is in the event loop. -/
def SessionPhase.looping : SessionPhase → Bool
  | .live .. => true
  | _ => false

/-- Whatever a turn of the event loop does, it has been entered. -/
theorem entered_liveTurn
    (ctx : SessionContext)
    (loop : LoopState)
    (turn : Turn) :
    (liveTurn sha256 setup ctx loop turn).1.entered = true := by
  generalize turned : liveTurn sha256 setup ctx loop turn = result
  have inverted := liveTurn_liveTurn sha256 setup ctx loop turn
  rw [turned] at inverted
  cases inverted with
  | unread streams =>
      cases streams <;> rfl
  | handled running read handles streams =>
      cases streams <;> rfl
  | threw running read failed =>
      rfl

/-- The event loop is entered once; where it has been left it stays so. -/
theorem turn_entered
    {phase : SessionPhase}
    (entered : phase.entered = true)
    (turn : Turn) :
    (phase.turn sha256 setup turn).1.entered = true ∧
      ((phase.turn sha256 setup turn).1.looping = true →
        phase.looping = true) := by
  cases phase with
  | live ctx loop =>
      exact ⟨entered_liveTurn ctx loop turn, fun _ => rfl⟩
  | closed unfinished | terminated error | stuck =>
      exact ⟨rfl, id⟩
  | handshake | hello | auth | mode user rights =>
      cases entered

/-- The same of a message that the session takes. -/
theorem receive_entered
    {server : ServerEnd}
    (entered : server.session.phase.entered = true)
    (m : Message) :
    let after := server.receive sha256 setup answers m
    after.session.phase.entered = true ∧
      (after.session.phase.looping = true →
        server.session.phase.looping = true) :=
  turn_entered entered _

/-- A transfer as a state of the process and its session. -/
def Connection.within
    (cfg : ClientConfig)
    (call : ClientCall)
    (localFiles : Files)
    (link : Connection) : CommandLink where
  left := .during cfg call localFiles (.transfer link.left)
  right := { server := link.right }
  toRight := link.toRight.map some
  toLeft := link.toLeft.map some

/-- A transfer that acts has not returned. -/
theorem transfer_acts
    {app : ClientApp}
    (acts : app.action sha256 localAnswers ≠ .stop) :
    (CallState.transfer app).verdict? = none := by
  cases returned : app.phase with
  | returned ok =>
      exact absurd (by simp [ClientApp.action, returned]) acts
  | _ =>
      simp [CallState.verdict?, returned]

/-- The client's moves of a transfer are moves of the process. -/
theorem within_left
    {link next : Connection}
    (moved :
      FifoLink.move (ClientApp.action sha256 localAnswers)
          (ServerEnd.action sha256 setup answers) link .left =
        some next)
    (localFiles : Files) :
    FifoLink.move (ClientProcess.action sha256 localAnswers)
        (SessionSide.action sha256 setup early answers)
        (link.within cfg call localFiles) .left =
      some (next.within cfg call localFiles) := by
  obtain ⟨app, server, toRight, toLeft⟩ := link
  cases act : app.action sha256 localAnswers with
  | stop =>
      simp [FifoLink.move, FifoLink.advance, act] at moved
  | go sent after =>
      have going := transfer_acts (by rw [act]; simp)
      have callActs :
          (CallState.transfer app).action sha256 localAnswers =
            .go sent (.transfer after) := by
        simp only [CallState.action, act, FifoLink.Action.map]
      have processActs := action_during_go cfg call going callActs localFiles
      simp only [FifoLink.move, FifoLink.advance, act, Option.some.injEq] at moved
      subst moved
      simp [FifoLink.move, FifoLink.advance, Connection.within, processActs]
  | wait receive =>
      have going := transfer_acts (by rw [act]; simp)
      have callActs :
          (CallState.transfer app).action sha256 localAnswers =
            .wait fun m => .transfer (receive m) := by
        simp only [CallState.action, act, FifoLink.Action.map]
      have processActs := action_during_wait cfg call going callActs localFiles
      cases toLeft with
      | nil =>
          simp [FifoLink.move, FifoLink.advance, act] at moved
      | cons m rest =>
          simp only [FifoLink.move, FifoLink.advance, act, Option.some.injEq]
            at moved
          subst moved
          simp [FifoLink.move, FifoLink.advance, Connection.within, processActs,
            ClientProcess.received]

/-- So are those of the session while it is in the event loop. -/
theorem within_right
    {link next : Connection}
    (moved :
      FifoLink.move (ClientApp.action sha256 localAnswers)
          (ServerEnd.action sha256 setup answers) link .right =
        some next)
    (entered : link.right.session.phase.entered = true)
    (looping : next.right.session.phase.looping = true)
    (localFiles : Files) :
    link.right.session.phase.looping = true ∧
      FifoLink.move (ClientProcess.action sha256 localAnswers)
          (SessionSide.action sha256 setup early answers)
          (link.within cfg call localFiles) .right =
        some (next.within cfg call localFiles) := by
  obtain ⟨app, ⟨session, files, outbox, handled⟩, toRight, toLeft⟩ := link
  cases outbox with
  | cons m rest =>
      simp only [FifoLink.move, FifoLink.advance, ServerEnd.action,
        Option.some.injEq] at moved
      subst moved
      refine ⟨looping, ?_⟩
      simp [FifoLink.move, FifoLink.advance, Connection.within,
        SessionSide.action]
  | nil =>
      cases toRight with
      | nil =>
          simp [FifoLink.move, FifoLink.advance, ServerEnd.action] at moved
      | cons m rest =>
          simp only [FifoLink.move, FifoLink.advance, ServerEnd.action,
            Option.some.injEq] at moved
          subst moved
          have stillLooping := (receive_entered entered m).2 looping
          refine ⟨stillLooping, ?_⟩
          dsimp only at stillLooping
          cases live : session.phase with
          | live ctx loop =>
              simp [FifoLink.move, FifoLink.advance, Connection.within,
                SessionSide.action, live]
          | _ =>
              rw [live] at stillLooping
              cases stillLooping

/-- The moves of a transfer do not lead back before the event loop. -/
theorem move_entered
    {link next : Connection}
    (side : FifoLink.Side)
    (moved :
      FifoLink.move (ClientApp.action sha256 localAnswers)
          (ServerEnd.action sha256 setup answers) link side =
        some next)
    (entered : link.right.session.phase.entered = true) :
    next.right.session.phase.entered = true := by
  obtain ⟨app, ⟨session, files, outbox, handled⟩, toRight, toLeft⟩ := link
  cases side with
  | left =>
      simp only [FifoLink.move] at moved
      split at moved
      · cases moved
      · rw [Option.some.injEq] at moved
        subst moved
        exact entered
  | right =>
      cases outbox with
      | cons m rest =>
          simp only [FifoLink.move, FifoLink.advance, ServerEnd.action,
            Option.some.injEq] at moved
          subst moved
          exact entered
      | nil =>
          cases toRight with
          | nil =>
              simp [FifoLink.move, FifoLink.advance, ServerEnd.action] at moved
          | cons m rest =>
              simp only [FifoLink.move, FifoLink.advance, ServerEnd.action,
                Option.some.injEq] at moved
              subst moved
              exact (receive_entered entered m).1

/-- A transfer in the event loop runs the same within the process. -/
theorem reaches_within
    {count : Nat}
    {link final : Connection}
    (moves : Moves sha256 setup answers localAnswers count link final)
    (entered : link.right.session.phase.entered = true)
    (looping : final.right.session.phase.looping = true)
    (localFiles : Files) :
    CommandReaches sha256 setup early answers localAnswers
      (link.within cfg call localFiles) (final.within cfg call localFiles) := by
  have simulates :
      ∀ (link : Connection) (side : FifoLink.Side) (next : Connection),
        FifoLink.move (ClientApp.action sha256 localAnswers)
            (ServerEnd.action sha256 setup answers) link side =
          some next →
        link.right.session.phase.entered = true →
        next.right.session.phase.looping = true →
        link.right.session.phase.looping = true ∧
          FifoLink.move (ClientProcess.action sha256 localAnswers)
              (SessionSide.action sha256 setup early answers)
              (link.within cfg call localFiles) side =
            some (next.within cfg call localFiles) := by
    intro link side next moved before after
    cases side with
    | left =>
        have sameSession : next.right = link.right := by
          simp only [FifoLink.move] at moved
          split at moved
          · cases moved
          · rw [Option.some.injEq] at moved
            subst moved
            rfl
        rw [sameSession] at after
        exact ⟨after, within_left moved localFiles⟩
    | right =>
        exact within_right moved before after localFiles
  have embedded :=
    FifoLink.Leads.embed (Connection.within cfg call localFiles)
      (fun _ side _ moved => move_entered side moved) simulates moves entered
      looping
  exact embedded.2.reaches

/-! ## The end -/

/-- A process whose call has returned hangs up. -/
theorem reaches_left
    (cfg : ClientConfig)
    (call : ClientCall)
    {state : CallState}
    {app : ClientApp}
    {ok : Bool}
    (returned : state.verdict? = some (app, ok))
    (localFiles : Files)
    (side : SessionSide)
    (toRight toLeft : List Arrival) :
    CommandReaches sha256 setup early answers localAnswers
      ⟨.during cfg call localFiles state, side, toRight, toLeft⟩
      ⟨⟨cfg, call, app.files, .exited (if ok then 0 else 1)⟩, side,
        toRight ++ [none], toLeft⟩ := by
  have leaves :
      ClientProcess.action sha256 localAnswers
          (.during cfg call localFiles state) =
        .go [] ⟨cfg, call, app.files, .leaving (if ok then 0 else 1)⟩ := by
    simp only [ClientProcess.action, ClientProcess.during, returned]
  have left :
      CommandReaches sha256 setup early answers localAnswers
        ⟨.during cfg call localFiles state, side, toRight, toLeft⟩
        ⟨⟨cfg, call, app.files, .leaving (if ok then 0 else 1)⟩, side,
          toRight ++ [], toLeft⟩ :=
    (FifoLink.leads_left_go leaves).reaches
  rw [List.append_nil] at left
  exact left.trans
    (reaches_exited sha256 setup answers localAnswers call app.files early cfg _
      side toRight toLeft)

/-- A table without an entry is empty. -/
theorem toList_of_noUploads
    {loop : LoopState}
    (noUploads : NoUploads loop) :
    loop.uploads.toList = [] := by
  apply List.eq_nil_iff_forall_not_mem.mpr
  intro entry member
  obtain ⟨id, st⟩ := entry
  have found := Std.TreeMap.mem_toList_iff_getElem?_eq_some.mp member
  rw [noUploads id] at found
  cases found

/-- A session without uploads ends with the connection and touches no file. -/
theorem reaches_closed
    {process : ClientProcess}
    {loop : LoopState}
    (noUploads : NoUploads loop)
    (trace : List Effect)
    (files : Files)
    (handled : Nat)
    (toLeft : List Arrival) :
    ∃ trace',
      CommandReaches sha256 setup early answers localAnswers
        ⟨process, ⟨⟨⟨.live ctx loop, trace⟩, files, [], handled⟩, false⟩, [none],
          toLeft⟩
        ⟨process, ⟨⟨⟨.closed loop.uploads, trace'⟩, files, [], handled⟩, true⟩,
          [], toLeft ++ [none]⟩ := by
  have turned :
      SessionPhase.turn sha256 setup (.live ctx loop)
          { read := .closed, outside := answers handled } =
        (.closed loop.uploads,
          [.audit (.session ctx.user setup.peerStr false []), .overlayHide,
            .releaseSlot]) := by
    simp [SessionPhase.turn, liveTurn, finishSession,
      toList_of_noUploads noUploads]
  let ended : Session :=
    ⟨.closed loop.uploads,
      trace ++
        [.audit (.session ctx.user setup.peerStr false []), .overlayHide,
          .releaseSlot]⟩
  have taken :
      SessionSide.takes sha256 setup
          ⟨⟨⟨.live ctx loop, trace⟩, files, [], handled⟩, false⟩
          { read := .closed, outside := answers handled } =
        ⟨⟨ended, files, [], handled⟩, false⟩ :=
    takes_turn turned (by simp [Effect.change?])
  have moved :
      FifoLink.move (ClientProcess.action sha256 localAnswers)
          (SessionSide.action sha256 setup early answers)
          ⟨process, ⟨⟨⟨.live ctx loop, trace⟩, files, [], handled⟩, false⟩,
            [none], toLeft⟩ .right =
        some ⟨process, ⟨⟨ended, files, [], handled⟩, false⟩, [], toLeft⟩ := by
    rw [← taken]
    simp [FifoLink.move, FifoLink.advance, SessionSide.action,
      SessionSide.reading]
  have closes :
      CommandReaches sha256 setup early answers localAnswers
        ⟨process, ⟨⟨⟨.live ctx loop, trace⟩, files, [], handled⟩, false⟩, [none],
          toLeft⟩
        ⟨process, ⟨⟨ended, files, [], handled⟩, false⟩, [], toLeft⟩ :=
    ⟨1, .onward .right moved (.refl _)⟩
  have hangsUp :
      CommandReaches sha256 setup early answers localAnswers
        ⟨process, ⟨⟨ended, files, [], handled⟩, false⟩, [], toLeft⟩
        ⟨process, ⟨⟨ended, files, [], handled⟩, true⟩, [],
          toLeft ++ List.map some [] ++ [none]⟩ :=
    reaches_hangup [] [] toLeft
  rw [List.map_nil, List.append_nil] at hangsUp
  exact ⟨_, closes.trans hangsUp⟩

/-- A process within its call and a session in the event loop, all queues empty. -/
def serving
    (cfg : ClientConfig)
    (call : ClientCall)
    (localFiles : Files)
    (state : CallState)
    (server : ServerEnd) : CommandLink where
  left := .during cfg call localFiles state
  right := { server }

/-- A call that has returned in a session without uploads lets both end. -/
theorem reaches_ended
    {state : CallState}
    {app : ClientApp}
    {ok : Bool}
    {loop : LoopState}
    (returned : state.verdict? = some (app, ok))
    (noUploads : NoUploads loop)
    (localFiles : Files)
    (trace : List Effect)
    (files : Files)
    (handled : Nat) :
    ∃ final,
      CommandReaches sha256 setup early answers localAnswers
          (serving cfg call localFiles state
            ⟨⟨.live ctx loop, trace⟩, files, [], handled⟩)
          final ∧
        BothEnded cfg call (if ok then 0 else 1) app.files files final := by
  have left :
      CommandReaches sha256 setup early answers localAnswers
        (serving cfg call localFiles state
          ⟨⟨.live ctx loop, trace⟩, files, [], handled⟩)
        ⟨⟨cfg, call, app.files, .exited (if ok then 0 else 1)⟩,
          ⟨⟨⟨.live ctx loop, trace⟩, files, [], handled⟩, false⟩, [none], []⟩ :=
    reaches_left cfg call returned localFiles _ [] []
  obtain ⟨trace', closed⟩ := reaches_closed noUploads trace files handled []
  exact ⟨_, left.trans closed, rfl, rfl, rfl, ⟨_, rfl⟩, rfl⟩

end Commands

end RadminPro
