import RadminPro.SessionSteps
import RadminPro.WireCodecExact

namespace RadminPro

open ByteCodec

/-!
# Where decoding errors go

Nothing between a decoder and the thread of a session catches what the decoder
throws.  A session comes to its regular end exactly when every frame that one of
its phases parses is well formed; then its unfinished uploads are discarded, its
log rows are paired and its slot is released.
-/

/-! ## The property -/

/-- The number of log rows of an action. -/
def auditRows (action : AuditAction) (trace : List Effect) : Nat :=
  trace.countP fun effect =>
    match effect with
    | .audit event => event.action = action
    | _ => false

/--
The session never throws and never hangs.  Once it has ended, the temporary file
of every unfinished upload was removed and not opened again, the end of the
session was logged if its start was, and its slot was released once.
-/
structure Contained (session : Session) : Prop where
  returns : ∀ error, session.phase ≠ .terminated error
  ends : session.phase ≠ .stuck
  discards :
    ∀ unfinished,
      session.phase = .closed unfinished →
      ∀ (id : UInt32) (st : UploadState),
        unfinished[id]? = some st →
        ∃ before after ok,
          session.trace = before ++ .remove st.tempPath ok :: after ∧
            ∀ opened, .openTrunc st.tempPath opened ∉ after
  audited :
    ∀ unfinished,
      session.phase = .closed unfinished →
      auditRows .sessionEnd session.trace =
        auditRows .sessionStart session.trace
  released :
    ∀ unfinished,
      session.phase = .closed unfinished →
      session.trace.count .releaseSlot = 1

/-! ## The condition -/

/-- The payload of a message is well formed: its fields, and then any tail. -/
def WellFormed : OpName → Bytes → Prop
  | .hello, payload =>
      ∃ m : HelloMsg,
        m.clientName.length < 2 ^ 32 ∧ ∃ tail, payload = m.encode ++ tail
  | .authRequest, payload =>
      ∃ m : AuthRequestMsg,
        m.username.length < 2 ^ 32 ∧
          m.password.length < 2 ^ 32 ∧
          ∃ tail, payload = m.encode ++ tail
  | .sessionStart, payload =>
      ∃ m : SessionStartMsg, ∃ tail, payload = m.encode ++ tail
  | .inputMouse, payload =>
      ∃ x y action tail,
        payload = putU16 x ++ putU16 y ++ putU32 action ++ tail
  | .inputKey, payload =>
      ∃ down vk tail, payload = putU8 down ++ putU16 vk ++ tail
  | .fileUploadReq, payload =>
      ∃ m : FileUploadReqMsg,
        m.remotePath.length < 2 ^ 32 ∧ ∃ tail, payload = m.encode ++ tail
  | .fileBlock, payload =>
      ∃ m : FileBlockMsg,
        m.data.length < 2 ^ 32 ∧ ∃ tail, payload = m.encode ++ tail
  | .fileComplete, payload => ∃ id tail, payload = putU32 id ++ tail
  | .fileDelete, payload =>
      ∃ m : FileDeleteMsg,
        m.path.length < 2 ^ 32 ∧ ∃ tail, payload = m.encode ++ tail
  | .fileMove, payload =>
      ∃ m : FileMoveMsg,
        m.srcPath.length < 2 ^ 32 ∧
          m.dstPath.length < 2 ^ 32 ∧
          ∃ tail, payload = m.encode ++ tail
  | .fileDownloadReq, payload =>
      ∃ path, path.length < 2 ^ 32 ∧ ∃ tail, payload = putString path ++ tail
  | .fileVerify, payload =>
      ∃ m : FileVerifyMsg, ∃ tail, payload = m.encode ++ tail
  | _, _ => True

/-- The messages whose payload the event loop parses. -/
def SessionContext.parses (ctx : SessionContext) : OpName → Bool
  | .inputMouse | .inputKey => ctx.canControl
  | .fileUploadReq | .fileDelete | .fileMove | .fileDownloadReq =>
      ctx.canTransfer
  | .fileBlock | .fileComplete | .fileVerify => true
  | _ => false

/-- The messages whose payload a phase parses. -/
def SessionPhase.parses (phase : SessionPhase) (running : Bool) : OpName → Bool :=
  match phase with
  | .hello => fun name => name = .hello
  | .auth => fun name => name = .authRequest
  | .mode .. => fun name => name = .sessionStart
  | .live ctx _ => fun name => running && ctx.parses name
  | .handshake | .closed _ | .terminated _ | .stuck => fun _ => false

/-- A frame that is parsed where the session stands is well formed. -/
def ParsesWell (session : Session) (turn : Turn) : Prop :=
  ∀ m name,
    turn.read = .ok m →
    m.op = .known name →
    session.phase.parses turn.running name = true →
    WellFormed name m.payload

/-! ## Which frames throw -/

section Throwing

variable {sha256 : Bytes → Hash256}
variable {setup : SessionSetup}
variable {ctx : SessionContext}
variable {out : Outside}
variable {loop : LoopState}

/-- A parse followed by steps that do not throw succeeds when the parse does. -/
theorem bind_ok_iff
    {ε α β : Type}
    {first : Except ε α}
    {next : α → Except ε β}
    (total : ∀ middle, ∃ value, next middle = .ok value) :
    (∃ value, (first >>= next) = .ok value) ↔
      ∃ middle, first = .ok middle := by
  constructor
  · rintro ⟨value, succeeded⟩
    obtain ⟨middle, isMiddle, _⟩ := bind_eq_ok succeeded
    exact ⟨middle, isMiddle⟩
  · rintro ⟨middle, rfl⟩
    exact total middle

/-- A guarded request throws only where the guard lets it through. -/
theorem guarded_ok_iff
    {guard : Bool}
    {refused : Outcome}
    {permitted : Except DeserializeError Outcome}
    {wellFormed : Prop}
    (parses : (∃ outcome, permitted = .ok outcome) ↔ wellFormed) :
    (∃ outcome,
        (if !guard then .ok refused else permitted) = .ok outcome) ↔
      (guard = true → wellFormed) := by
  cases guard with
  | false =>
      simp
  | true =>
      simpa using parses

/-- The fields of a mouse event parse exactly when they are there. -/
theorem parseMouse_ok_iff
    (payload : Bytes) :
    (∃ fields,
        parseAll
            (do
              let x ← ByteReader.u16
              let y ← ByteReader.u16
              let action ← ByteReader.u32
              pure (x, y, action))
            payload =
          .ok fields) ↔
      WellFormed .inputMouse payload := by
  rw [Prod.exists]
  refine exists_congr fun x => ?_
  rw [Prod.exists]
  refine exists_congr fun y => exists_congr fun action => ?_
  rw [parseAll_ok_iff
    (ByteReader.u16_reads.bind fun x =>
      ByteReader.u16_reads.bind fun y =>
      ByteReader.u32_reads.bind fun action =>
      ByteCodec.Reads.pure (x, y, action))]
  simp

/-- The fields of a key event parse exactly when they are there. -/
theorem parseKey_ok_iff
    (payload : Bytes) :
    (∃ fields,
        parseAll
            (do
              let down ← ByteReader.u8
              let vk ← ByteReader.u16
              pure (down, vk))
            payload =
          .ok fields) ↔
      WellFormed .inputKey payload := by
  rw [Prod.exists]
  refine exists_congr fun down => exists_congr fun vk => ?_
  rw [parseAll_ok_iff
    (ByteReader.u8_reads.bind fun down =>
      ByteReader.u16_reads.bind fun vk =>
      ByteCodec.Reads.pure (down, vk))]
  simp

/-- A transfer id parses exactly when it is there. -/
theorem parseId_ok_iff
    (payload : Bytes) :
    (∃ id, parseAll ByteReader.u32 payload = .ok id) ↔
      WellFormed .fileComplete payload := by
  refine exists_congr fun id => ?_
  rw [parseAll_ok_iff ByteReader.u32_reads]
  simp

/-- A path parses exactly when it is there. -/
theorem parsePath_ok_iff
    (payload : Bytes) :
    (∃ path, parseAll ByteReader.str payload = .ok path) ↔
      WellFormed .fileDownloadReq payload := by
  refine exists_congr fun path => ?_
  rw [parseAll_ok_iff ByteReader.str_reads]
  simp

/-- The handler does not throw exactly on well-formed payloads. -/
theorem handle_known_ok_iff
    (name : OpName)
    (payload : Bytes) :
    (∃ outcome,
        handle sha256 setup ctx out loop ⟨.known name, payload⟩ =
          .ok outcome) ↔
      (ctx.parses name = true → WellFormed name payload) := by
  have always :
      ∀ {decoded wellFormed : Prop},
        (decoded ↔ wellFormed) → (decoded ↔ (true = true → wellFormed)) := by
    intro decoded wellFormed parses
    simpa using parses
  cases name with
  | inputMouse =>
      exact guarded_ok_iff
        ((bind_ok_iff fun _ => ⟨_, rfl⟩).trans (parseMouse_ok_iff payload))
  | inputKey =>
      exact guarded_ok_iff
        ((bind_ok_iff fun _ => ⟨_, rfl⟩).trans (parseKey_ok_iff payload))
  | fileUploadReq =>
      refine guarded_ok_iff ((bind_ok_iff fun req => ?_).trans ?_)
      · cases resolveInRoot out setup.fileRoot req.remotePath <;>
          exact ⟨_, rfl⟩
      · exact exists_congr fun _ => FileUploadReqMsg.decode_ok_iff
  | fileBlock =>
      refine always ((bind_ok_iff fun blk => ?_).trans ?_)
      · cases loop.uploads[blk.transferId]? <;> exact ⟨_, rfl⟩
      · exact exists_congr fun _ => FileBlockMsg.decode_ok_iff
  | fileComplete =>
      refine always ((bind_ok_iff fun id => ?_).trans (parseId_ok_iff payload))
      cases loop.uploads[id]? <;> exact ⟨_, rfl⟩
  | fileDelete =>
      refine guarded_ok_iff ((bind_ok_iff fun del => ?_).trans ?_)
      · cases resolveInRoot out setup.fileRoot del.path <;> exact ⟨_, rfl⟩
      · exact exists_congr fun _ => FileDeleteMsg.decode_ok_iff
  | fileMove =>
      refine guarded_ok_iff ((bind_ok_iff fun mv => ?_).trans ?_)
      · cases resolveInRoot out setup.fileRoot mv.srcPath <;>
          cases resolveInRoot out setup.fileRoot mv.dstPath <;>
          exact ⟨_, rfl⟩
      · exact exists_congr fun _ => FileMoveMsg.decode_ok_iff
  | fileDownloadReq =>
      refine guarded_ok_iff
        ((bind_ok_iff fun relPath => ?_).trans (parsePath_ok_iff payload))
      cases resolveInRoot out setup.fileRoot relPath with
      | none => exact ⟨_, rfl⟩
      | some src => cases out.content <;> exact ⟨_, rfl⟩
  | fileVerify =>
      refine always ((bind_ok_iff fun v => ?_).trans ?_)
      · by_cases accepted : v.status = .known .ok
        · exact ⟨_, if_neg (not_not.mpr accepted)⟩
        · exact ⟨_, if_pos accepted⟩
      · exact exists_congr fun _ => FileVerifyMsg.decode_ok_iff
  | hello | serverHello | authRequest | authResult | sessionStart | frameInfo
  | frameData | frameEnd | frameRect | fileAccept | fileReject | fileOpResult
  | error | ping | bye =>
      exact ⟨fun _ parsed => absurd parsed (by simp [SessionContext.parses]),
        fun _ => ⟨_, rfl⟩⟩

/-- The handler does not throw exactly when what it parses is well formed. -/
theorem handle_ok_iff
    (m : Message) :
    (∃ outcome, handle sha256 setup ctx out loop m = .ok outcome) ↔
      ∀ name, m.op = .known name → ctx.parses name = true →
        WellFormed name m.payload := by
  obtain ⟨op, payload⟩ := m
  cases op with
  | known name =>
      rw [handle_known_ok_iff]
      constructor
      · rintro parses other same
        rw [EnumByte.known.injEq] at same
        rw [← same]
        exact parses
      · exact fun parses => parses name rfl
  | other byte unnamed =>
      exact ⟨fun _ name same => (nomatch same), fun _ => ⟨_, rfl⟩⟩

/-- A read parsed by a decoder throws exactly when it is not well formed. -/
theorem terminated_iff_not_ok
    {α : Type}
    (parsed : Except DeserializeError α)
    {phase : SessionPhase}
    (threw : ∀ error, parsed = .error error → phase = .terminated error)
    (returned :
      ∀ value, parsed = .ok value → ∀ error, phase ≠ .terminated error) :
    (∀ error, phase ≠ .terminated error) ↔ ∃ value, parsed = .ok value := by
  cases result : parsed with
  | error error =>
      simp [threw error result]
  | ok value =>
      simpa using returned value result

/-- What a phase before the event loop reads. -/
theorem readTurn_iff
    (expected : OpName)
    {session : Session}
    {turn : Turn}
    {next : SessionPhase}
    (parses :
      session.phase.parses turn.running = fun name => decide (name = expected))
    (silent :
      (∀ m, turn.read = .ok m → m.op ≠ .known expected) →
        ∀ error, next ≠ .terminated error)
    (reads :
      ∀ m, turn.read = .ok m → m.op = .known expected →
        ((∀ error, next ≠ .terminated error) ↔
          WellFormed expected m.payload)) :
    (∀ error, next ≠ .terminated error) ↔ ParsesWell session turn := by
  unfold ParsesWell
  rw [parses]
  by_cases isRead : ∃ m, turn.read = .ok m ∧ m.op = .known expected
  · obtain ⟨m, read, op⟩ := isRead
    rw [reads m read op]
    constructor
    · rintro wellFormed other name readOther opOther isExpected
      rw [of_decide_eq_true isExpected]
      rw [read, ReadResult.ok.injEq] at readOther
      rwa [← readOther]
    · exact fun wellFormed => wellFormed m expected read op (by simp)
  · have nothing :
        ∀ m, turn.read = .ok m → m.op ≠ .known expected :=
      fun m read op => isRead ⟨m, read, op⟩
    refine ⟨fun _ m name read op isExpected => ?_, fun _ => silent nothing⟩
    rw [of_decide_eq_true isExpected] at op
    exact absurd op (nothing m read)

/-- The greeting ends the process exactly when it is malformed. -/
theorem helloTurn_iff
    {session : Session}
    (phase : session.phase = .hello)
    (turn : Turn) :
    (∀ error, (helloTurn turn).1 ≠ .terminated error) ↔
      ParsesWell session turn := by
  refine readTurn_iff .hello (by rw [phase]; rfl) ?_ ?_
  · intro nothing
    unfold helloTurn
    cases read : turn.read with
    | ok m => simp [nothing m read, leave]
    | timeout => simp [leave]
    | closed => simp [leave]
  · intro m read op
    rw [terminated_iff_not_ok (HelloMsg.decode m.payload)]
    · exact exists_congr fun _ => HelloMsg.decode_ok_iff
    · intro error failed
      simp [helloTurn, read, op, failed]
    · intro hello decoded
      by_cases version : hello.version ≠ kProtocolVersion <;>
        simp [helloTurn, read, op, decoded, version, leave]

/-- The credentials end the process exactly when they are malformed. -/
theorem authTurn_iff
    {session : Session}
    (phase : session.phase = .auth)
    (turn : Turn) :
    (∀ error, (authTurn setup turn).1 ≠ .terminated error) ↔
      ParsesWell session turn := by
  refine readTurn_iff .authRequest (by rw [phase]; rfl) ?_ ?_
  · intro nothing
    unfold authTurn
    cases read : turn.read with
    | ok m => simp [nothing m read, leave]
    | timeout => simp [leave]
    | closed => simp [leave]
  · intro m read op
    rw [terminated_iff_not_ok (AuthRequestMsg.decode m.payload)]
    · exact exists_congr fun _ => AuthRequestMsg.decode_ok_iff
    · intro error failed
      simp [authTurn, read, op, failed]
    · intro areq decoded
      by_cases ok :
          (turn.outside.authenticate areq.username areq.password).status =
            .known .ok <;>
        simp [authTurn, read, op, decoded, ok, leave]

/-- The mode ends the process exactly when it is malformed. -/
theorem modeTurn_iff
    {session : Session}
    {user : Bytes}
    {rights : UInt32}
    (phase : session.phase = .mode user rights)
    (turn : Turn) :
    (∀ error, (modeTurn setup user rights turn).1 ≠ .terminated error) ↔
      ParsesWell session turn := by
  refine readTurn_iff .sessionStart (by rw [phase]; rfl) ?_ ?_
  · intro nothing
    unfold modeTurn
    cases read : turn.read with
    | ok m => simp [nothing m read, leave]
    | timeout => simp [leave]
    | closed => simp [leave]
  · intro m read op
    rw [terminated_iff_not_ok (SessionStartMsg.decode m.payload)]
    · exact exists_congr fun _ => SessionStartMsg.decode_ok_iff
    · intro error failed
      simp [modeTurn, read, op, failed]
    · intro start decoded
      cases authorized : SessionContext.authorized rights start.mode <;>
        simp [modeTurn, read, op, decoded, authorized, leave]

/-- Streaming does not end the process. -/
theorem Streams.not_terminated
    {effects : List Effect}
    {result : SessionPhase × List Effect}
    (streams : Streams setup ctx out loop effects result)
    (error : DeserializeError) :
    result.1 ≠ .terminated error := by
  cases streams <;>
    simp [finishSession]

/-- A turn of the event loop ends the process exactly on malformed input. -/
theorem liveTurn_iff
    {session : Session}
    (phase : session.phase = .live ctx loop)
    (turn : Turn) :
    (∀ error, (liveTurn sha256 setup ctx loop turn).1 ≠ .terminated error) ↔
      ParsesWell session turn := by
  have parses :
      ParsesWell session turn ↔
        (turn.running = true → ∀ m, turn.read = .ok m →
          ∃ outcome,
            handle sha256 setup ctx turn.outside loop m = .ok outcome) := by
    simp only [ParsesWell, phase, SessionPhase.parses, Bool.and_eq_true,
      handle_ok_iff]
    constructor
    · exact fun wellFormed running m read name op isParsed =>
        wellFormed m name read op ⟨running, isParsed⟩
    · exact fun wellFormed m name read op isParsed =>
        wellFormed isParsed.1 m read name op isParsed.2
  rw [parses]
  constructor
  · intro returned running m read
    cases handled : handle sha256 setup ctx turn.outside loop m with
    | ok outcome =>
        exact ⟨outcome, rfl⟩
    | error error =>
        refine absurd ?_ (returned error)
        simp [liveTurn, running, read, handled]
  · intro handled error
    have inverted := liveTurn_liveTurn sha256 setup ctx loop turn
    generalize liveTurn sha256 setup ctx loop turn = result at inverted
    cases inverted with
    | unread streams => exact streams.not_terminated error
    | handled running read handles streams => exact streams.not_terminated error
    | threw running read failed =>
        obtain ⟨outcome, ok⟩ := handled running _ read
        rw [failed] at ok
        cases ok

/-- A step ends the process exactly when it parses a malformed frame. -/
theorem step_iff
    {session : Session}
    (alive : ∀ error, session.phase ≠ .terminated error)
    (turn : Turn) :
    (∀ error, (session.step sha256 setup turn).phase ≠ .terminated error) ↔
      ParsesWell session turn := by
  have quiet :
      (∀ name, session.phase.parses turn.running name = false) →
        ParsesWell session turn := by
    intro nothing m name _ _ isParsed
    rw [nothing name] at isParsed
    cases isParsed
  cases phase : session.phase with
  | handshake =>
      refine iff_of_true (fun error => ?_) (quiet (by simp [phase,
        SessionPhase.parses]))
      cases shaken : turn.handshake <;>
        simp [Session.step, SessionPhase.turn, phase, shaken, leave]
  | hello =>
      simpa [Session.step, SessionPhase.turn, phase] using
        helloTurn_iff phase turn
  | auth =>
      simpa [Session.step, SessionPhase.turn, phase] using
        authTurn_iff phase turn
  | mode user rights =>
      simpa [Session.step, SessionPhase.turn, phase] using
        modeTurn_iff phase turn
  | live ctx loop =>
      simpa [Session.step, SessionPhase.turn, phase] using
        liveTurn_iff phase turn
  | closed unfinished =>
      exact iff_of_true
        (by simp [Session.step, SessionPhase.turn, phase])
        (quiet (by simp [phase, SessionPhase.parses]))
  | terminated error =>
      exact absurd phase (alive error)
  | stuck =>
      exact iff_of_true
        (by simp [Session.step, SessionPhase.turn, phase])
        (quiet (by simp [phase, SessionPhase.parses]))

/-- A process that has ended stays so. -/
theorem run_terminated
    {session : Session}
    {error : DeserializeError}
    (phase : session.phase = .terminated error)
    (turns : List Turn) :
    (StepRuns.run (Session.step sha256 setup) session turns).phase =
      .terminated error :=
  StepRuns.run_invariant
    (fun session : Session => session.phase = .terminated error)
    (fun _ _ ended => by simp [Session.step, SessionPhase.turn, ended])
    phase turns

/-- A run ends the process exactly when it parses a malformed frame. -/
theorem run_iff
    {session : Session}
    (alive : ∀ error, session.phase ≠ .terminated error)
    (turns : List Turn) :
    (∀ error,
        (StepRuns.run (Session.step sha256 setup) session turns).phase ≠
          .terminated error) ↔
      StepRuns.Allowed (Session.step sha256 setup) ParsesWell session
        turns := by
  induction turns generalizing session with
  | nil =>
      exact iff_of_true alive trivial
  | cons turn rest inductionHypothesis =>
      rw [StepRuns.Allowed, ← step_iff alive turn, StepRuns.run_cons]
      constructor
      · intro returned
        have stepAlive :
            ∀ error,
              (session.step sha256 setup turn).phase ≠ .terminated error :=
          fun error ended => returned error (run_terminated ended rest)
        exact ⟨stepAlive, (inductionHypothesis stepAlive).mp returned⟩
      · rintro ⟨stepAlive, restParses⟩
        exact (inductionHypothesis stepAlive).mpr restParses

end Throwing

/-! ## The books of a session -/

section Accounting

variable {sha256 : Bytes → Hash256}
variable {setup : SessionSetup}
variable {ctx : SessionContext}
variable {out : Outside}
variable {loop : LoopState}

/-- Neither the slot nor the rows about the session itself are touched. -/
def Quiet (effect : Effect) : Prop :=
  effect ≠ .releaseSlot ∧
    ∀ event,
      effect = .audit event →
      event.action ≠ .sessionStart ∧ event.action ≠ .sessionEnd

theorem MayDo.quiet
    {m : Message}
    {effect : Effect}
    (mayDo : MayDo setup ctx out loop m effect) :
    Quiet effect := by
  cases mayDo with
  | log action target result detail fileAction =>
      exact ⟨by simp [auditFileOp], by
        rintro event same
        cases same
        exact fileAction⟩
  | _ =>
      exact ⟨by simp, by simp⟩

theorem Shown.quiet
    {effect : Effect}
    (shown : Shown setup ctx effect) :
    Quiet effect := by
  rcases shown with ⟨_, op, payload, ok, rfl, _⟩ | ⟨ok, rfl⟩ <;>
    exact ⟨by simp, by simp⟩

/-- What a trace says about the session itself. -/
structure Books (trace : List Effect) (starts finishes slots : Nat) : Prop where
  starts : auditRows .sessionStart trace = starts
  finishes : auditRows .sessionEnd trace = finishes
  slots : trace.count .releaseSlot = slots

/-- Quiet effects leave the books alone. -/
theorem Books.quiet
    {trace effects : List Effect}
    {starts finishes slots : Nat}
    (books : Books trace starts finishes slots)
    (quiet : ∀ effect ∈ effects, Quiet effect) :
    Books (trace ++ effects) starts finishes slots := by
  have noRow :
      ∀ action,
        action = .sessionStart ∨ action = .sessionEnd →
        auditRows action effects = 0 := by
    intro action isSession
    refine List.countP_eq_zero.mpr fun effect member => ?_
    have rows := (quiet effect member).2
    cases effect with
    | audit event =>
        have isQuiet := rows event rfl
        rcases isSession with rfl | rfl <;>
          simp [isQuiet]
    | _ =>
        simp
  have noSlot : effects.count .releaseSlot = 0 :=
    List.count_eq_zero.mpr fun member => (quiet _ member).1 rfl
  constructor
  · rw [auditRows, List.countP_append]
    have none := noRow .sessionStart (.inl rfl)
    rw [auditRows] at none
    rw [none]
    exact books.starts
  · rw [auditRows, List.countP_append]
    have none := noRow .sessionEnd (.inr rfl)
    rw [auditRows] at none
    rw [none]
    exact books.finishes
  · rw [List.count_append, noSlot]
    exact books.slots

/-- The upload with this id is discarded at the end of the trace. -/
def Discarded (unfinished : Uploads) (trace : List Effect) : Prop :=
  ∀ (id : UInt32) (st : UploadState),
    unfinished[id]? = some st →
    ∃ before after ok,
      trace = before ++ .remove st.tempPath ok :: after ∧
        ∀ opened, .openTrunc st.tempPath opened ∉ after

/-- The books that belong to each phase. -/
def Accounted (session : Session) : Prop :=
  match session.phase with
  | .handshake | .hello | .auth | .mode .. => Books session.trace 0 0 0
  | .live .. => Books session.trace 1 0 0
  | .closed unfinished =>
      (Books session.trace 0 0 1 ∨ Books session.trace 1 1 1) ∧
        Discarded unfinished session.trace
  | .terminated _ => True
  | .stuck => False

/-- Leaving before the event loop balances the books. -/
theorem accounted_leave
    {trace effects : List Effect}
    (books : Books trace 0 0 0)
    (quiet : ∀ effect ∈ effects, Quiet effect) :
    Accounted ⟨(leave effects).1, trace ++ (leave effects).2⟩ := by
  refine ⟨.inl ?_, fun id st found => ?_⟩
  · have kept := books.quiet quiet
    rw [leave, ← List.append_assoc]
    constructor
    · rw [auditRows, List.countP_append]
      exact kept.starts
    · rw [auditRows, List.countP_append]
      exact kept.finishes
    · rw [List.count_append, kept.slots]
      rfl
  · simp at found

/-- What the end of the event loop does about one unfinished upload. -/
def discard (out : Outside) (entry : UInt32 × UploadState) : List Effect :=
  entry.2.out.close (out.cleanup entry.1).1 ++
    [.remove entry.2.tempPath (out.cleanup entry.1).2]

/-- Discarding an upload is quiet and opens nothing. -/
theorem discard_quiet
    {entry : UInt32 × UploadState}
    {effect : Effect}
    (member : effect ∈ discard out entry) :
    Quiet effect ∧ ∀ path opened, effect ≠ .openTrunc path opened := by
  simp only [discard, OfStream.close, List.cons_append, List.nil_append,
    List.mem_cons, List.not_mem_nil, or_false] at member
  rcases member with rfl | rfl | rfl <;>
    exact ⟨⟨by simp, by simp⟩, by simp⟩

/-- The end of the event loop. -/
theorem finishSession_effects
    (effects : List Effect) :
    (finishSession setup ctx out loop effects).2 =
      effects ++ (loop.uploads.toList.flatMap (discard out) ++
        [.audit (.session ctx.user setup.peerStr false []), .overlayHide,
          .releaseSlot]) := by
  rw [← List.append_assoc]
  rfl

/-- The end of the event loop discards what is unfinished. -/
theorem discarded_finishSession
    (trace effects : List Effect) :
    Discarded loop.uploads
      (trace ++ (finishSession setup ctx out loop effects).2) := by
  intro id st found
  have listed : (id, st) ∈ loop.uploads.toList :=
    Std.TreeMap.mem_toList_iff_getElem?_eq_some.mpr found
  obtain ⟨before, after, split⟩ := List.append_of_mem listed
  refine ⟨trace ++ effects ++ before.flatMap (discard out) ++
      st.out.close (out.cleanup id).1,
    after.flatMap (discard out) ++
      [.audit (.session ctx.user setup.peerStr false []), .overlayHide,
        .releaseSlot],
    (out.cleanup id).2, ?_, ?_⟩
  · rw [finishSession_effects, split]
    simp [discard]
  · intro opened member
    rcases List.mem_append.mp member with isDiscard | isEnd
    · obtain ⟨entry, _, isEffect⟩ := List.mem_flatMap.mp isDiscard
      exact (discard_quiet isEffect).2 _ _ rfl
    · simp at isEnd

/-- Leaving the event loop balances the books. -/
theorem accounted_finishSession
    {trace effects : List Effect}
    (books : Books (trace ++ effects) 1 0 0) :
    Accounted
      ⟨(finishSession setup ctx out loop effects).1,
        trace ++ (finishSession setup ctx out loop effects).2⟩ := by
  refine ⟨.inr ?_, discarded_finishSession trace effects⟩
  have kept :
      Books (trace ++ effects ++ loop.uploads.toList.flatMap (discard out))
        1 0 0 := by
    refine books.quiet fun effect member => ?_
    obtain ⟨entry, _, isEffect⟩ := List.mem_flatMap.mp member
    exact (discard_quiet isEffect).1
  have shape :
      trace ++ (finishSession setup ctx out loop effects).2 =
        trace ++ effects ++ loop.uploads.toList.flatMap (discard out) ++
          [.audit (.session ctx.user setup.peerStr false []), .overlayHide,
            .releaseSlot] := by
    rw [finishSession_effects]
    simp only [List.append_assoc]
  rw [shape]
  constructor
  · have starts := kept.starts
    rw [auditRows] at starts
    rw [auditRows, List.countP_append, starts]
    rfl
  · have finishes := kept.finishes
    rw [auditRows] at finishes
    rw [auditRows, List.countP_append, finishes]
    rfl
  · rw [List.count_append, kept.slots]
    rfl

/-- However a turn of the event loop ends, its books are kept. -/
theorem accounted_streams
    {trace effects : List Effect}
    {result : SessionPhase × List Effect}
    (books : Books (trace ++ effects) 1 0 0)
    (streams : Streams setup ctx out loop effects result) :
    Accounted ⟨result.1, trace ++ result.2⟩ := by
  cases streams with
  | live next uploads ids only =>
      have kept := books.quiet fun effect member => (only effect member).quiet
      rw [List.append_assoc] at kept
      exact kept
  | finished next uploads only =>
      have kept := books.quiet fun effect member => (only effect member).quiet
      rw [List.append_assoc] at kept
      exact accounted_finishSession kept

/-- A turn of the event loop keeps the books. -/
theorem accounted_liveTurn
    {trace : List Effect}
    (books : Books trace 1 0 0)
    (turn : Turn) :
    Accounted
      ⟨(liveTurn sha256 setup ctx loop turn).1,
        trace ++ (liveTurn sha256 setup ctx loop turn).2⟩ := by
  have inverted := liveTurn_liveTurn sha256 setup ctx loop turn
  generalize liveTurn sha256 setup ctx loop turn = result at inverted
  cases inverted with
  | unread streams =>
      refine accounted_streams ?_ streams
      rwa [List.append_nil]
  | handled running read handles streams =>
      refine accounted_streams (books.quiet fun effect member => ?_) streams
      rcases List.mem_cons.mp member with rfl | isHandled
      · exact ⟨by simp, by simp⟩
      · exact (handles.mayDo effect isHandled).quiet
  | threw running read failed =>
      exact trivial

theorem Preliminary.quiet
    {effect : Effect}
    (preliminary : Preliminary effect) :
    Quiet effect := by
  cases preliminary with
  | received m => exact ⟨by simp, by simp⟩
  | talk op payload ok greeting => exact ⟨by simp, by simp⟩
  | log event noSession =>
      exact ⟨by simp, by
        rintro other same
        cases same
        exact noSession⟩

/-- A turn before the event loop keeps the books. -/
theorem accounted_enters
    {trace : List Effect}
    {turn : Turn}
    {phase : SessionPhase}
    {result : SessionPhase × List Effect}
    (books : Books trace 0 0 0)
    (enters : Enters setup turn phase result) :
    Accounted ⟨result.1, trace ++ result.2⟩ := by
  cases enters with
  | left early only =>
      exact accounted_leave books fun effect member => (only effect member).quiet
  | shaken =>
      rwa [List.append_nil]
  | greeted only =>
      exact books.quiet fun effect member => (only effect member).quiet
  | authenticated m user payload detail rights sessionId ok isResult =>
      refine books.quiet fun effect member => ?_
      simp only [List.mem_cons, List.not_mem_nil, or_false] at member
      rcases member with rfl | rfl | rfl
      · exact ⟨by simp, by simp⟩
      · exact ⟨by simp, by simp⟩
      · exact ⟨by simp, by simp [AuditEvent.auth]⟩
  | started m text detail authorized op decoded =>
      constructor
      · have starts := books.starts
        rw [auditRows] at starts
        rw [auditRows, List.countP_append, starts]
        rfl
      · have finishes := books.finishes
        rw [auditRows] at finishes
        rw [auditRows, List.countP_append, finishes]
        rfl
      · rw [List.count_append, books.slots]
        rfl
  | threw early =>
      exact trivial

/-- The books of a session are kept in every phase. -/
theorem accounted_step
    (session : Session)
    (turn : Turn)
    (accounted : Accounted session) :
    Accounted (session.step sha256 setup turn) := by
  obtain ⟨phase, trace⟩ := session
  cases phase with
  | handshake =>
      have early : SessionPhase.handshake.early := trivial
      exact accounted_enters accounted (turn_enters sha256 setup early turn)
  | hello => exact accounted_enters accounted (helloTurn_enters setup turn)
  | auth => exact accounted_enters accounted (authTurn_enters setup turn)
  | mode user rights =>
      exact accounted_enters accounted (modeTurn_enters setup user rights turn)
  | live ctx loop => exact accounted_liveTurn accounted turn
  | closed unfinished =>
      rw [Session.step]
      dsimp only [SessionPhase.turn]
      rwa [List.append_nil]
  | terminated error => exact trivial
  | stuck => exact accounted.elim

/-- The books of every run are kept. -/
theorem accounted_run
    (turns : List Turn) :
    Accounted (Session.run sha256 setup turns) := by
  refine StepRuns.run_invariant Accounted accounted_step ?_ turns
  exact ⟨rfl, rfl, rfl⟩

/-- A session whose books are kept is contained unless it threw. -/
theorem Accounted.contained_iff
    {session : Session}
    (accounted : Accounted session) :
    Contained session ↔ ∀ error, session.phase ≠ .terminated error := by
  refine ⟨Contained.returns, fun returns => ?_⟩
  have closing :
      ∀ unfinished,
        session.phase = .closed unfinished →
        (Books session.trace 0 0 1 ∨ Books session.trace 1 1 1) ∧
          Discarded unfinished session.trace := by
    intro unfinished closed
    rw [Accounted, closed] at accounted
    exact accounted
  constructor
  · exact returns
  · intro stuck
    rw [Accounted, stuck] at accounted
    exact accounted
  · exact fun unfinished closed => (closing unfinished closed).2
  · intro unfinished closed
    rcases (closing unfinished closed).1 with books | books <;>
      rw [books.starts, books.finishes]
  · intro unfinished closed
    rcases (closing unfinished closed).1 with books | books <;>
      exact books.slots

end Accounting

/--
A session is contained exactly when every frame that it parses is well formed.
-/
theorem session_contained_iff
    (sha256 : Bytes → Hash256)
    (setup : SessionSetup)
    (turns : List Turn) :
    Contained (Session.run sha256 setup turns) ↔
      StepRuns.Allowed (Session.step sha256 setup) ParsesWell {} turns :=
  (accounted_run turns).contained_iff.trans (run_iff (by simp) turns)

/-- An empty greeting ends the process. -/
theorem empty_hello_terminates :
    ¬Contained
      (Session.run evpSha256 ⟨[], [], [], 0⟩
        [{}, { read := .ok ⟨.known .hello, []⟩ }]) := by
  intro contained
  exact contained.returns _ rfl

end RadminPro
