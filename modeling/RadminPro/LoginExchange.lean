import RadminPro.ClientProcess

namespace RadminPro

open ByteCodec

/-!
# Logging in over the wire

The client process and its session from the greeting to the first request.  How
it goes on is decided by what `authenticate` answers and by the mode.
-/

section Exchange

variable {sha256 : Bytes → Hash256}
variable {setup : SessionSetup}
variable {early : EarlyAnswers}
variable {answers : Nat → Outside}
variable {localAnswers : Nat → LocalAnswer}

/-- Some moves of the two lead from one state to another. -/
abbrev CommandReaches
    (sha256 : Bytes → Hash256)
    (setup : SessionSetup)
    (early : EarlyAnswers)
    (answers : Nat → Outside)
    (localAnswers : Nat → LocalAnswer) :
    CommandLink → CommandLink → Prop :=
  FifoLink.Reaches (ClientProcess.action sha256 localAnswers)
    (SessionSide.action sha256 setup early answers)

/-! ## The outbox -/

/-- The session puts its answers on the wire. -/
theorem reaches_outbox
    {process : ClientProcess}
    {session : Session}
    {files : Files}
    {handled : Nat}
    {hungUp : Bool}
    (outbox : List Message)
    (toRight toLeft : List Arrival) :
    CommandReaches sha256 setup early answers localAnswers
      ⟨process, ⟨⟨session, files, outbox, handled⟩, hungUp⟩, toRight, toLeft⟩
      ⟨process, ⟨⟨session, files, [], handled⟩, hungUp⟩, toRight,
        toLeft ++ outbox.map some⟩ := by
  induction outbox generalizing toLeft with
  | nil =>
      rw [List.map_nil, List.append_nil]
      exact .refl _
  | cons m rest inductionHypothesis =>
      have act :
          SessionSide.action sha256 setup early answers
              ⟨⟨session, files, m :: rest, handled⟩, hungUp⟩ =
            .go [some m] ⟨⟨session, files, rest, handled⟩, hungUp⟩ :=
        rfl
      have sends :
          CommandReaches sha256 setup early answers localAnswers
            ⟨process, ⟨⟨session, files, m :: rest, handled⟩, hungUp⟩, toRight,
              toLeft⟩
            ⟨process, ⟨⟨session, files, rest, handled⟩, hungUp⟩, toRight,
              toLeft ++ [some m]⟩ :=
        (FifoLink.leads_right_go act).reaches
      have all := sends.trans (inductionHypothesis (toLeft ++ [some m]))
      rw [List.append_assoc] at all
      exact all

/-- A session that has been left hangs up. -/
theorem reaches_hangup
    {process : ClientProcess}
    {trace : List Effect}
    {unfinished : Uploads}
    {files : Files}
    {handled : Nat}
    (outbox : List Message)
    (toRight toLeft : List Arrival) :
    CommandReaches sha256 setup early answers localAnswers
      ⟨process, ⟨⟨⟨.closed unfinished, trace⟩, files, outbox, handled⟩, false⟩,
        toRight, toLeft⟩
      ⟨process, ⟨⟨⟨.closed unfinished, trace⟩, files, [], handled⟩, true⟩,
        toRight, toLeft ++ outbox.map some ++ [none]⟩ := by
  have act :
      SessionSide.action sha256 setup early answers
          ⟨⟨⟨.closed unfinished, trace⟩, files, [], handled⟩, false⟩ =
        .go [none] ⟨⟨⟨.closed unfinished, trace⟩, files, [], handled⟩, true⟩ :=
    rfl
  have hangs :
      CommandReaches sha256 setup early answers localAnswers
        ⟨process, ⟨⟨⟨.closed unfinished, trace⟩, files, [], handled⟩, false⟩,
          toRight, toLeft ++ outbox.map some⟩
        ⟨process, ⟨⟨⟨.closed unfinished, trace⟩, files, [], handled⟩, true⟩,
          toRight, toLeft ++ outbox.map some ++ [none]⟩ :=
    (FifoLink.leads_right_go act).reaches
  exact (reaches_outbox outbox toRight toLeft).trans hangs

/-! ## The turns of the session -/

/-- A turn that touches no file leaves its messages in the outbox. -/
theorem takes_turn
    {phase after : SessionPhase}
    {effects trace : List Effect}
    {files : Files}
    {handled : Nat}
    {hungUp : Bool}
    {turn : Turn}
    (turned : phase.turn sha256 setup turn = (after, effects))
    (untouched : ∀ effect ∈ effects, effect.change? = none) :
    SessionSide.takes sha256 setup ⟨⟨⟨phase, trace⟩, files, [], handled⟩, hungUp⟩
        turn =
      ⟨⟨⟨after, trace ++ effects⟩, files, sentMessages effects, handled⟩,
        hungUp⟩ := by
  simp only [SessionSide.takes, turnEffects, Session.step, turned]
  rw [filesAfter_unchanged files untouched]

/-- The greeting of the server. -/
def serverHelloMessage : Message where
  op := .known .serverHello
  payload := ServerHelloMsg.encode { serverName := ascii "radminpro" }

/-- The greeting is answered. -/
theorem turn_hello
    {out : Outside}
    (written : out.replies 0 = true) :
    SessionPhase.turn sha256 setup .hello
        { read := .ok ClientApp.helloMessage, outside := out } =
      (.auth,
        [.received ClientApp.helloMessage,
          .send serverHelloMessage.op serverHelloMessage.payload true]) := by
  have decoded :
      HelloMsg.decode ClientApp.helloMessage.payload =
        .ok { clientName := ascii "radminpro-client" } := by
    apply HelloMsg.decode_ok_iff.mpr
    exact ⟨by decide +kernel, [], by simp [ClientApp.helloMessage]⟩
  have fits : withinCap serverHelloMessage.payload = true := by
    decide +kernel
  have isHello : ClientApp.helloMessage.op = .known .hello :=
    rfl
  simp only [SessionPhase.turn, helloTurn, isHello, ne_eq, not_true_eq_false,
    ↓reduceIte, decoded, reply_eq, written, Bool.and_true]
  rw [← fits]
  rfl

/-- The verdict on the credentials. -/
def authResultMessage (out : Outside) (outcome : AuthOutcome) : Message where
  op := .known .authResult
  payload :=
    AuthResultMsg.encode
      { status := outcome.status
        grantedRights := outcome.rights
        sessionId := if outcome.status = .known .ok then out.sessionId else 0 }

/-- The verdict on the credentials fits a frame. -/
theorem withinCap_authResult
    (out : Outside)
    (outcome : AuthOutcome) :
    withinCap (authResultMessage out outcome).payload = true := by
  simp only [withinCap, authResultMessage, AuthResultMsg.encode,
    List.length_append, length_putU8, length_putU32, length_putU64]
  decide

/-- The credentials of a client that fit a frame are read. -/
theorem decode_authMessage
    {cfg : ClientConfig}
    (fits : withinCap (ClientApp.authMessage cfg).payload = true) :
    AuthRequestMsg.decode (ClientApp.authMessage cfg).payload =
      .ok { username := cfg.username, password := cfg.password } := by
  apply AuthRequestMsg.decode_ok_iff.mpr
  simp only [withinCap, ClientApp.authMessage, AuthRequestMsg.encode,
    List.length_append, length_putString, decide_eq_true_eq] at fits
  unfold kMaxMessageSize at fits
  dsimp only
  exact ⟨by omega, by omega, [], by simp [ClientApp.authMessage]⟩

section Verdicts

variable {out : Outside}
variable {cfg : ClientConfig}
variable {outcome : AuthOutcome}

/-- Good credentials are answered with the rights. -/
theorem turn_auth_ok
    (fits : withinCap (ClientApp.authMessage cfg).payload = true)
    (written : out.replies 0 = true)
    (answered : out.authenticate cfg.username cfg.password = outcome)
    (ok : outcome.status = .known .ok) :
    ∃ row,
      SessionPhase.turn sha256 setup .auth
          { read := .ok (ClientApp.authMessage cfg), outside := out } =
        (.mode cfg.username outcome.rights,
          [.received (ClientApp.authMessage cfg),
            .send (authResultMessage out outcome).op
              (authResultMessage out outcome).payload true,
            .audit row]) := by
  have isAuth : (ClientApp.authMessage cfg).op = .known .authRequest :=
    rfl
  have sent := withinCap_authResult out outcome
  rw [authResultMessage] at sent
  refine ⟨.auth cfg.username setup.peerStr true (rightsToString outcome.rights),
    ?_⟩
  simp only [SessionPhase.turn, authTurn, isAuth, ne_eq, not_true_eq_false,
    ↓reduceIte, decode_authMessage fits, answered, ok, decide_true, reply_eq,
    written, Bool.and_true, authResultMessage]
  simp only [ok, ↓reduceIte] at sent
  rw [sent]
  rfl

/-- Other credentials are refused, and the session is left. -/
theorem turn_auth_refused
    (fits : withinCap (ClientApp.authMessage cfg).payload = true)
    (written : out.replies 0 = true)
    (answered : out.authenticate cfg.username cfg.password = outcome)
    (refused : outcome.status ≠ .known .ok) :
    ∃ row,
      SessionPhase.turn sha256 setup .auth
          { read := .ok (ClientApp.authMessage cfg), outside := out } =
        (.closed ∅,
          [.received (ClientApp.authMessage cfg),
            .send (authResultMessage out outcome).op
              (authResultMessage out outcome).payload true,
            .audit row, .releaseSlot]) := by
  have isAuth : (ClientApp.authMessage cfg).op = .known .authRequest :=
    rfl
  have sent := withinCap_authResult out outcome
  rw [authResultMessage] at sent
  refine ⟨.auth cfg.username setup.peerStr false
    (ascii "status=" ++ decimal outcome.status.toByte.toNat), ?_⟩
  simp only [SessionPhase.turn, authTurn, isAuth, ne_eq, not_true_eq_false,
    ↓reduceIte, decode_authMessage fits, answered, refused, decide_false,
    reply_eq, written, Bool.and_true, authResultMessage, leave]
  simp only [refused, ↓reduceIte] at sent
  rw [sent]
  rfl

end Verdicts

/-- The refusal of a mode. -/
def modeRefusedMessage : Message where
  op := .known .error
  payload := ErrorMsg.encode ⟨2, ascii "not authorized for requested mode"⟩

/-- The mode of a client is read. -/
theorem decode_startMessage
    (cfg : ClientConfig) :
    SessionStartMsg.decode (ClientApp.startMessage cfg).payload =
      .ok { mode := cfg.mode } :=
  SessionStartMsg.decode_ok_iff.mpr ⟨[], by simp [ClientApp.startMessage]⟩

section Modes

variable (out : Outside)
variable {cfg : ClientConfig}
variable (user : Bytes)
variable {rights : UInt32}

/-- An authorised mode starts the event loop. -/
theorem turn_mode_authorized
    (authorized : SessionContext.authorized rights cfg.mode = true) :
    ∃ text row,
      SessionPhase.turn sha256 setup (.mode user rights)
          { read := .ok (ClientApp.startMessage cfg), outside := out } =
        (.live { user, rights, mode := cfg.mode } { captureOk := out.captureReady },
          [.received (ClientApp.startMessage cfg), .setRecvTimeoutMs 0,
            .overlayShow text, .audit row,
            .captureInitialize setup.monitor out.captureReady]) := by
  have isStart : (ClientApp.startMessage cfg).op = .known .sessionStart :=
    rfl
  refine ⟨ascii "Remote session active  -  " ++ user ++ ascii "  from  " ++
      setup.peerIp ++ ascii "   (" ++ SessionContext.modeStr cfg.mode ++ ascii ")",
    .session user setup.peerStr true
      (ascii "mode=" ++ SessionContext.modeStr cfg.mode), ?_⟩
  simp only [SessionPhase.turn, modeTurn, isStart, ne_eq, not_true_eq_false,
    ↓reduceIte, decode_startMessage, authorized, Bool.not_true, Bool.false_eq_true]

/-- Any other mode is refused, and the session is left. -/
theorem turn_mode_refused
    (written : out.replies 0 = true)
    (refused : SessionContext.authorized rights cfg.mode = false) :
    ∃ row,
      SessionPhase.turn sha256 setup (.mode user rights)
          { read := .ok (ClientApp.startMessage cfg), outside := out } =
        (.closed ∅,
          [.received (ClientApp.startMessage cfg),
            .send modeRefusedMessage.op modeRefusedMessage.payload true,
            .audit row, .releaseSlot]) := by
  have isStart : (ClientApp.startMessage cfg).op = .known .sessionStart :=
    rfl
  have fits : withinCap modeRefusedMessage.payload = true := by
    decide +kernel
  refine ⟨.fileOp .permissionDenied user setup.peerStr [] (ascii "DENIED")
    (ascii "session mode=" ++ SessionContext.modeStr cfg.mode), ?_⟩
  simp only [SessionPhase.turn, modeTurn, isStart, ne_eq, not_true_eq_false,
    ↓reduceIte, decode_startMessage, refused, Bool.not_false, reply_eq, written,
    Bool.and_true, leave]
  rw [← fits]
  rfl

end Modes

/-! ## The exchange -/

/-- The transport takes the answers that come before the event loop. -/
structure EarlyAnswers.Reliable (early : EarlyAnswers) : Prop where
  hello : early.hello.replies 0 = true
  auth : early.auth.replies 0 = true
  mode : early.mode.replies 0 = true

/-- A process that begins and a session after the TLS handshake. -/
def commandStart
    (cfg : ClientConfig)
    (call : ClientCall)
    (localFiles files : Files) : CommandLink where
  left := { cfg, call, files := localFiles }
  right := .shaken files

/-- A process that makes its call. -/
def ClientProcess.calls
    (cfg : ClientConfig)
    (call : ClientCall)
    (localFiles : Files) : ClientProcess where
  cfg := cfg
  call := call
  files := localFiles
  point :=
    .calling (call.begin { phase := .returned false, files := localFiles })

/-- A process and a session that have both ended. -/
structure BothEnded
    (cfg : ClientConfig)
    (call : ClientCall)
    (code : Nat)
    (localFiles files : Files)
    (final : CommandLink) : Prop where
  left : final.left = { cfg, call, files := localFiles, point := .exited code }
  hungUp : final.right.hungUp = true
  outbox : final.right.server.outbox = []
  closed : ∃ unfinished, final.right.server.session.phase = .closed unfinished
  files : final.right.server.files = files

/-- Nothing happens any more then. -/
theorem BothEnded.quiet
    {cfg : ClientConfig}
    {call : ClientCall}
    {code : Nat}
    {localFiles files : Files}
    {final : CommandLink}
    (ended : BothEnded cfg call code localFiles files final) :
    FifoLink.Quiet (ClientProcess.action sha256 localAnswers)
      (SessionSide.action sha256 setup early answers) final := by
  obtain ⟨left, ⟨server, hungUp⟩, toRight, toLeft⟩ := final
  obtain ⟨isLeft, isHungUp, isEmpty, ⟨unfinished, isClosed⟩, _⟩ := ended
  dsimp only at isLeft isHungUp isEmpty isClosed
  apply FifoLink.quiet_stopped
  · rw [isLeft]
    rfl
  · simp only [SessionSide.action, isEmpty, isClosed, isHungUp, ↓reduceIte]

section Login

variable (sha256) (setup) (answers) (localAnswers)
variable {cfg : ClientConfig}
variable (call : ClientCall)
variable (localFiles files : Files)

/-- The session takes a message before the event loop. -/
theorem reaches_taken
    {process : ClientProcess}
    {phase after : SessionPhase}
    {effects trace : List Effect}
    {outside : Outside}
    {m : Message}
    (act :
      SessionSide.action sha256 setup early answers
          ⟨⟨⟨phase, trace⟩, files, [], 0⟩, false⟩ =
        .wait fun read =>
          SessionSide.takes sha256 setup ⟨⟨⟨phase, trace⟩, files, [], 0⟩, false⟩
            { read := SessionSide.reading read, outside })
    (turned :
      phase.turn sha256 setup { read := .ok m, outside } = (after, effects))
    (untouched : ∀ effect ∈ effects, effect.change? = none)
    (toRight toLeft : List Arrival) :
    ∃ trace',
      CommandReaches sha256 setup early answers localAnswers
        ⟨process, ⟨⟨⟨phase, trace⟩, files, [], 0⟩, false⟩, some m :: toRight,
          toLeft⟩
        ⟨process, ⟨⟨⟨after, trace'⟩, files, sentMessages effects, 0⟩, false⟩,
          toRight, toLeft⟩ := by
  have taken :
      SessionSide.takes sha256 setup ⟨⟨⟨phase, trace⟩, files, [], 0⟩, false⟩
          { read := SessionSide.reading (some m), outside } =
        ⟨⟨⟨after, trace ++ effects⟩, files, sentMessages effects, 0⟩, false⟩ :=
    takes_turn turned untouched
  refine ⟨trace ++ effects, ?_⟩
  rw [← taken]
  exact (FifoLink.leads_right_wait act (some m)).reaches

/-- The greetings are exchanged and the credentials are sent. -/
theorem reaches_credentials
    (reliable : early.Reliable)
    (fits : withinCap (ClientApp.authMessage cfg).payload = true) :
    ∃ trace,
      CommandReaches sha256 setup early answers localAnswers
        (commandStart cfg call localFiles files)
        ⟨⟨cfg, call, localFiles, .credentialsSent⟩,
          ⟨⟨⟨.auth, trace⟩, files, [], 0⟩, false⟩,
          [some (ClientApp.authMessage cfg)], []⟩ := by
  have helloFits : onWire ClientApp.helloMessage = [some ClientApp.helloMessage] := by
    decide +kernel
  have greets :
      ClientProcess.action sha256 localAnswers ⟨cfg, call, localFiles, .greeting⟩ =
        .go [some ClientApp.helloMessage]
          ⟨cfg, call, localFiles, .greetingSent⟩ := by
    rw [← helloFits]
    rfl
  have reads :
      ClientProcess.action sha256 localAnswers
          ⟨cfg, call, localFiles, .greetingSent⟩ =
        .wait fun read =>
          ⟨cfg, call, localFiles, ClientProcess.greeted read⟩ :=
    rfl
  have authFits :
      onWire (ClientApp.authMessage cfg) = [some (ClientApp.authMessage cfg)] := by
    rw [onWire, if_pos fits]
  have authenticates :
      ClientProcess.action sha256 localAnswers
          ⟨cfg, call, localFiles, .credentials⟩ =
        .go [some (ClientApp.authMessage cfg)]
          ⟨cfg, call, localFiles, .credentialsSent⟩ := by
    rw [← authFits]
    rfl
  obtain ⟨trace, helloTaken⟩ :=
    reaches_taken sha256 setup answers localAnswers files rfl
      (turn_hello reliable.hello) (by simp [Effect.change?]) [] []
  have helloSent :
      CommandReaches sha256 setup early answers localAnswers
        (commandStart cfg call localFiles files)
        ⟨⟨cfg, call, localFiles, .greetingSent⟩, .shaken files,
          [some ClientApp.helloMessage], []⟩ :=
    (FifoLink.leads_left_go greets).reaches
  have greetingRead :
      CommandReaches sha256 setup early answers localAnswers
        ⟨⟨cfg, call, localFiles, .greetingSent⟩,
          ⟨⟨⟨.auth, trace⟩, files, [], 0⟩, false⟩, [], [some serverHelloMessage]⟩
        ⟨⟨cfg, call, localFiles, .credentials⟩,
          ⟨⟨⟨.auth, trace⟩, files, [], 0⟩, false⟩, [], []⟩ :=
    (FifoLink.leads_left_wait reads (some serverHelloMessage)).reaches
  have credentialsSent :
      CommandReaches sha256 setup early answers localAnswers
        ⟨⟨cfg, call, localFiles, .credentials⟩,
          ⟨⟨⟨.auth, trace⟩, files, [], 0⟩, false⟩, [], []⟩
        ⟨⟨cfg, call, localFiles, .credentialsSent⟩,
          ⟨⟨⟨.auth, trace⟩, files, [], 0⟩, false⟩,
          [some (ClientApp.authMessage cfg)], []⟩ :=
    (FifoLink.leads_left_go authenticates).reaches
  exact ⟨trace,
    (((helloSent.trans helloTaken).trans
      (reaches_outbox [serverHelloMessage] [] [])).trans greetingRead).trans
      credentialsSent⟩

/-- What the client makes of the verdict on its credentials. -/
theorem answered_authResult
    (out : Outside)
    (outcome : AuthOutcome) :
    ClientProcess.answered ⟨cfg, call, localFiles, .credentialsSent⟩
        (some (authResultMessage out outcome)) =
      if outcome.status = .known .ok then .starting else .leaving 2 := by
  have decoded :
      AuthResultMsg.decode (authResultMessage out outcome).payload =
        .ok
          { status := outcome.status
            grantedRights := outcome.rights
            sessionId :=
              if outcome.status = .known .ok then out.sessionId else 0 } :=
    AuthResultMsg.decode_ok_iff.mpr ⟨[], by simp [authResultMessage]⟩
  have isResult : (authResultMessage out outcome).op = .known .authResult :=
    rfl
  simp only [ClientProcess.answered, ClientApp.authAnswered, isResult, ne_eq,
    not_true_eq_false, ↓reduceIte, decoded]
  by_cases ok : outcome.status = .known .ok
  · simp only [ok, not_true_eq_false, ↓reduceIte]
  · simp only [ok, not_false_eq_true, ↓reduceIte]

/-- The verdict on the credentials is read. -/
theorem reads_verdict
    (early : EarlyAnswers)
    (cfg : ClientConfig)
    (out : Outside)
    (outcome : AuthOutcome)
    (side : SessionSide)
    (toRight toLeft : List Arrival) :
    CommandReaches sha256 setup early answers localAnswers
      ⟨⟨cfg, call, localFiles, .credentialsSent⟩, side, toRight,
        some (authResultMessage out outcome) :: toLeft⟩
      ⟨⟨cfg, call, localFiles,
          if outcome.status = .known .ok then .starting else .leaving 2⟩,
        side, toRight, toLeft⟩ := by
  have reads :
      ClientProcess.action sha256 localAnswers
          ⟨cfg, call, localFiles, .credentialsSent⟩ =
        .wait fun read =>
          ⟨cfg, call, localFiles,
            ClientProcess.answered ⟨cfg, call, localFiles, .credentialsSent⟩
              read⟩ :=
    rfl
  rw [← answered_authResult call localFiles out outcome]
  exact (FifoLink.leads_left_wait reads _).reaches

/-- A process that leaves hangs up. -/
theorem reaches_exited
    (early : EarlyAnswers)
    (cfg : ClientConfig)
    (code : Nat)
    (side : SessionSide)
    (toRight toLeft : List Arrival) :
    CommandReaches sha256 setup early answers localAnswers
      ⟨⟨cfg, call, localFiles, .leaving code⟩, side, toRight, toLeft⟩
      ⟨⟨cfg, call, localFiles, .exited code⟩, side, toRight ++ [none], toLeft⟩ := by
  have leaves :
      ClientProcess.action sha256 localAnswers
          ⟨cfg, call, localFiles, .leaving code⟩ =
        .go [none] ⟨cfg, call, localFiles, .exited code⟩ :=
    rfl
  exact (FifoLink.leads_left_go leaves).reaches

/-- A login that is refused ends both; the client exits with 2. -/
theorem reaches_refused
    (reliable : early.Reliable)
    (fits : withinCap (ClientApp.authMessage cfg).payload = true)
    {outcome : AuthOutcome}
    (answered : early.auth.authenticate cfg.username cfg.password = outcome)
    (refused : outcome.status ≠ .known .ok) :
    ∃ final,
      CommandReaches sha256 setup early answers localAnswers
          (commandStart cfg call localFiles files) final ∧
        BothEnded cfg call 2 localFiles files final := by
  obtain ⟨trace, asked⟩ :=
    reaches_credentials sha256 setup answers localAnswers call localFiles files
      reliable fits
  obtain ⟨row, turned⟩ := turn_auth_refused fits reliable.auth answered refused
  obtain ⟨trace', taken⟩ :=
    reaches_taken sha256 setup answers localAnswers files rfl turned
      (by simp [Effect.change?]) [] []
  have read :=
    reads_verdict sha256 setup answers localAnswers call localFiles early cfg
      early.auth outcome ⟨⟨⟨.closed ∅, trace'⟩, files, [], 0⟩, true⟩ [] [none]
  rw [if_neg refused] at read
  have exited :=
    reaches_exited sha256 setup answers localAnswers call localFiles early cfg 2
      ⟨⟨⟨.closed ∅, trace'⟩, files, [], 0⟩, true⟩ [] [none]
  have hungUp :=
    (asked.trans taken).trans
      (reaches_hangup [authResultMessage early.auth outcome] [] [])
  exact ⟨_, (hungUp.trans read).trans exited, rfl, rfl, rfl, ⟨∅, rfl⟩, rfl⟩

/-- A login that is granted lets the client choose its mode. -/
theorem reaches_granted
    (reliable : early.Reliable)
    (fits : withinCap (ClientApp.authMessage cfg).payload = true)
    {outcome : AuthOutcome}
    (answered : early.auth.authenticate cfg.username cfg.password = outcome)
    (ok : outcome.status = .known .ok) :
    ∃ trace,
      CommandReaches sha256 setup early answers localAnswers
        (commandStart cfg call localFiles files)
        ⟨.calls cfg call localFiles,
          ⟨⟨⟨.mode cfg.username outcome.rights, trace⟩, files, [], 0⟩, false⟩,
          [some (ClientApp.startMessage cfg)], []⟩ := by
  obtain ⟨trace, asked⟩ :=
    reaches_credentials sha256 setup answers localAnswers call localFiles files
      reliable fits
  obtain ⟨row, turned⟩ := turn_auth_ok fits reliable.auth answered ok
  obtain ⟨trace', taken⟩ :=
    reaches_taken sha256 setup answers localAnswers files rfl turned
      (by simp [Effect.change?]) [] []
  have sent :=
    (asked.trans taken).trans
      (reaches_outbox [authResultMessage early.auth outcome] [] [])
  have read :=
    reads_verdict sha256 setup answers localAnswers call localFiles early cfg
      early.auth outcome
      ⟨⟨⟨.mode cfg.username outcome.rights, trace'⟩, files, [], 0⟩, false⟩ [] []
  rw [if_pos ok] at read
  have startFits :
      onWire (ClientApp.startMessage cfg) = [some (ClientApp.startMessage cfg)] := by
    have small : withinCap (ClientApp.startMessage cfg).payload = true := by
      apply decide_eq_true
      simp only [ClientApp.startMessage, SessionStartMsg.encode, length_putU8]
      exact Nat.le_of_ble_eq_true rfl
    rw [onWire, if_pos small]
  have starts :
      ClientProcess.action sha256 localAnswers ⟨cfg, call, localFiles, .starting⟩ =
        .go [some (ClientApp.startMessage cfg)]
          (.calls cfg call localFiles) := by
    rw [← startFits]
    rfl
  have started :
      CommandReaches sha256 setup early answers localAnswers
        ⟨⟨cfg, call, localFiles, .starting⟩,
          ⟨⟨⟨.mode cfg.username outcome.rights, trace'⟩, files, [], 0⟩, false⟩,
          [], []⟩
        ⟨.calls cfg call localFiles,
          ⟨⟨⟨.mode cfg.username outcome.rights, trace'⟩, files, [], 0⟩, false⟩,
          [some (ClientApp.startMessage cfg)], []⟩ :=
    (FifoLink.leads_left_go starts).reaches
  exact ⟨trace', (sent.trans read).trans started⟩

/-- An authorised mode lets the session serve the call. -/
theorem reaches_serving
    (reliable : early.Reliable)
    (fits : withinCap (ClientApp.authMessage cfg).payload = true)
    {outcome : AuthOutcome}
    (answered : early.auth.authenticate cfg.username cfg.password = outcome)
    (ok : outcome.status = .known .ok)
    (authorized : SessionContext.authorized outcome.rights cfg.mode = true) :
    ∃ trace,
      CommandReaches sha256 setup early answers localAnswers
        (commandStart cfg call localFiles files)
        ⟨.calls cfg call localFiles,
          ⟨⟨⟨.live
                { user := cfg.username, rights := outcome.rights, mode := cfg.mode }
                { captureOk := early.mode.captureReady },
              trace⟩,
            files, [], 0⟩, false⟩,
          [], []⟩ := by
  obtain ⟨trace, granted⟩ :=
    reaches_granted sha256 setup answers localAnswers call localFiles files
      reliable fits answered ok
  obtain ⟨text, row, turned⟩ :=
    turn_mode_authorized early.mode cfg.username authorized
  obtain ⟨trace', taken⟩ :=
    reaches_taken sha256 setup answers localAnswers files rfl turned
      (by simp [Effect.change?]) [] []
  exact ⟨trace', granted.trans taken⟩

/-- Any other mode is refused; the refusal is what the call reads. -/
theorem reaches_unauthorized
    (reliable : early.Reliable)
    (fits : withinCap (ClientApp.authMessage cfg).payload = true)
    {outcome : AuthOutcome}
    (answered : early.auth.authenticate cfg.username cfg.password = outcome)
    (ok : outcome.status = .known .ok)
    (refused : SessionContext.authorized outcome.rights cfg.mode = false) :
    ∃ trace,
      CommandReaches sha256 setup early answers localAnswers
        (commandStart cfg call localFiles files)
        ⟨.calls cfg call localFiles,
          ⟨⟨⟨.closed ∅, trace⟩, files, [], 0⟩, true⟩,
          [], [some modeRefusedMessage, none]⟩ := by
  obtain ⟨trace, granted⟩ :=
    reaches_granted sha256 setup answers localAnswers call localFiles files
      reliable fits answered ok
  obtain ⟨row, turned⟩ :=
    turn_mode_refused early.mode cfg.username reliable.mode refused
  obtain ⟨trace', taken⟩ :=
    reaches_taken sha256 setup answers localAnswers files rfl turned
      (by simp [Effect.change?]) [] []
  exact ⟨trace',
    (granted.trans taken).trans (reaches_hangup [modeRefusedMessage] [] [])⟩

end Login

end Exchange

end RadminPro
