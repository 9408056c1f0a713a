import RadminPro.ClientCalls
import RadminPro.ReaderThread
import RadminPro.ServerIdentity
import RadminPro.WireContract

namespace RadminPro

open ByteCodec

/-!
# What a hostile server can do to the client

Nothing in the client catches an exception.  A payload that does not carry the
fields of its message is thrown out of `connectAndAuth`, of a file operation or
of the reader thread, wherever it is parsed; a keyframe may also announce a
buffer that cannot be had.  Every other message is taken or ends the call.
-/

/-- A payload starts with the fields that the client reads of such a message. -/
def Carries : OpName → Bytes → Prop
  | .authResult, payload =>
      ∃ m : AuthResultMsg, ∃ tail, payload = m.encode ++ tail
  | .error, payload =>
      ∃ m : ErrorMsg,
        m.message.length < 2 ^ 32 ∧ ∃ tail, payload = m.encode ++ tail
  | .fileOpResult, payload =>
      ∃ m : FileOpResultMsg,
        m.message.length < 2 ^ 32 ∧ ∃ tail, payload = m.encode ++ tail
  | .fileAccept, payload =>
      ∃ m : FileAcceptMsg, ∃ tail, payload = m.encode ++ tail
  | .fileVerify, payload =>
      ∃ m : FileVerifyMsg, ∃ tail, payload = m.encode ++ tail
  | .fileBlock, payload =>
      ∃ m : FileBlockMsg,
        m.data.length < 2 ^ 32 ∧ ∃ tail, payload = m.encode ++ tail
  | .frameInfo, payload =>
      ∃ m : FrameInfoMsg, ∃ flag tail, payload = m.header ++ flag :: tail
  | .frameData, payload =>
      ∃ m : FrameDataMsg,
        m.data.length < 2 ^ 32 ∧ ∃ tail, payload = m.encode ++ tail
  | .frameRect, payload =>
      ∃ m : FrameRectMsg,
        m.pixels.length < 2 ^ 32 ∧ ∃ tail, payload = m.encode ++ tail
  | _, _ => True

/-- A message carries its fields if it is one of those that are parsed. -/
def Legible (parsed : List OpName) (m : Message) : Prop :=
  ∀ op ∈ parsed, m.op = .known op → Carries op m.payload

/-- So does what a read returned, if it returned a message. -/
def LegibleRead (parsed : List OpName) (read : Option Message) : Prop :=
  ∀ m, read = some m → Legible parsed m

@[simp] theorem legibleRead_none (parsed : List OpName) :
    LegibleRead parsed none := by
  simp [LegibleRead]

@[simp] theorem legibleRead_some (parsed : List OpName) (m : Message) :
    LegibleRead parsed (some m) ↔ Legible parsed m := by
  simp [LegibleRead]

/-! ## What is parsed -/

section Parsed

attribute [local simp] Carries

variable {payload : Bytes}

theorem authResult_carries_iff :
    Carries .authResult payload ↔ ∃ m, AuthResultMsg.decode payload = .ok m := by
  simp only [Carries, AuthResultMsg.decode_ok_iff]

theorem error_carries_iff :
    Carries .error payload ↔ ∃ m, ErrorMsg.decode payload = .ok m := by
  simp only [Carries, ErrorMsg.decode_ok_iff]

theorem fileOpResult_carries_iff :
    Carries .fileOpResult payload ↔
      ∃ m, FileOpResultMsg.decode payload = .ok m := by
  simp only [Carries, FileOpResultMsg.decode_ok_iff]

theorem fileAccept_carries_iff :
    Carries .fileAccept payload ↔ ∃ m, FileAcceptMsg.decode payload = .ok m := by
  simp only [Carries, FileAcceptMsg.decode_ok_iff]

theorem fileVerify_carries_iff :
    Carries .fileVerify payload ↔ ∃ m, FileVerifyMsg.decode payload = .ok m := by
  simp only [Carries, FileVerifyMsg.decode_ok_iff]

theorem fileBlock_carries_iff :
    Carries .fileBlock payload ↔ ∃ m, FileBlockMsg.decode payload = .ok m := by
  simp only [Carries, FileBlockMsg.decode_ok_iff]

theorem frameData_carries_iff :
    Carries .frameData payload ↔ ∃ m, FrameDataMsg.decode payload = .ok m := by
  simp only [Carries, FrameDataMsg.decode_ok_iff]

theorem frameRect_carries_iff :
    Carries .frameRect payload ↔ ∃ m, FrameRectMsg.decode payload = .ok m := by
  simp only [Carries, FrameRectMsg.decode_ok_iff]

/-- Any keyframe byte will do. -/
theorem frameInfo_carries_iff :
    Carries .frameInfo payload ↔ ∃ m, FrameInfoMsg.decode payload = .ok m := by
  constructor
  · rintro ⟨m, flag, tail, rfl⟩
    refine ⟨{ m with keyframe := flag != 0 }, ?_⟩
    refine FrameInfoMsg.decode_ok_iff.mpr ⟨flag, tail, rfl, ?_⟩
    simp [FrameInfoMsg.header, putU8]
  · rintro ⟨m, decoded⟩
    obtain ⟨flag, tail, -, shape⟩ := FrameInfoMsg.decode_ok_iff.mp decoded
    refine ⟨m, flag, tail, ?_⟩
    simpa [FrameInfoMsg.header, putU8] using shape

end Parsed

/-! ## The file operations -/

namespace ClientApp

/-- A phase that is not left by an exception. -/
def NoThrow (phase : TransferPhase) : Prop :=
  ∀ error, phase ≠ .threw error

@[simp] theorem noThrow_returned (ok : Bool) : NoThrow (.returned ok) := by
  simp [NoThrow]

theorem rejected_noThrow_iff
    {payload : Bytes} :
    NoThrow (rejected payload) ↔ Carries .fileOpResult payload := by
  rw [fileOpResult_carries_iff]
  cases decoded : FileOpResultMsg.decode payload with
  | error error =>
      simp [rejected, decoded, NoThrow]
  | ok result =>
      simp [rejected, decoded, NoThrow]

theorem uploadAnswered_noThrow_iff
    (data : Bytes)
    (read : Option Message) :
    NoThrow (uploadAnswered data read) ↔
      LegibleRead [.fileOpResult, .fileAccept] read := by
  cases read with
  | none =>
      simp [uploadAnswered, NoThrow]
  | some m =>
      by_cases isResult : m.op = .known .fileOpResult
      · simp [uploadAnswered, Legible, isResult, rejected_noThrow_iff]
      · by_cases isAccept : m.op = .known .fileAccept
        · cases decoded : FileAcceptMsg.decode m.payload with
          | error error =>
              simp [uploadAnswered, Legible, isAccept, decoded, NoThrow,
                fileAccept_carries_iff]
          | ok acc =>
              simp [uploadAnswered, Legible, isAccept, decoded, NoThrow,
                fileAccept_carries_iff]
        · simp [uploadAnswered, Legible, isResult, isAccept, NoThrow]

theorem uploadVerified_noThrow_iff
    (read : Option Message) :
    NoThrow (uploadVerified read) ↔ LegibleRead [.fileVerify] read := by
  cases read with
  | none =>
      simp [uploadVerified, NoThrow]
  | some m =>
      by_cases isVerify : m.op = .known .fileVerify
      · cases decoded : FileVerifyMsg.decode m.payload with
        | error error =>
            simp [uploadVerified, Legible, isVerify, decoded, NoThrow,
              fileVerify_carries_iff]
        | ok v =>
            simp [uploadVerified, Legible, isVerify, decoded, NoThrow,
              fileVerify_carries_iff]
      · simp [uploadVerified, Legible, isVerify, NoThrow]

theorem opResultReceived_noThrow_iff
    (read : Option Message) :
    NoThrow (opResultReceived read) ↔ LegibleRead [.fileOpResult] read := by
  cases read with
  | none =>
      simp [opResultReceived, NoThrow]
  | some m =>
      by_cases isResult : m.op = .known .fileOpResult
      · cases decoded : FileOpResultMsg.decode m.payload with
        | error error =>
            simp [opResultReceived, Legible, isResult, decoded, NoThrow,
              fileOpResult_carries_iff]
        | ok result =>
            simp [opResultReceived, Legible, isResult, decoded, NoThrow,
              fileOpResult_carries_iff]
      · simp [opResultReceived, Legible, isResult, NoThrow]

theorem downloadAnswered_noThrow_iff
    (app : ClientApp)
    (answer : LocalAnswer)
    (localPath : Path)
    (read : Option Message) :
    NoThrow (app.downloadAnswered answer localPath read).phase ↔
      LegibleRead [.fileOpResult, .fileAccept] read := by
  cases read with
  | none =>
      simp [downloadAnswered, NoThrow]
  | some m =>
      by_cases isResult : m.op = .known .fileOpResult
      · simp [downloadAnswered, Legible, isResult, rejected_noThrow_iff]
      · by_cases isAccept : m.op = .known .fileAccept
        · cases decoded : FileAcceptMsg.decode m.payload with
          | error error =>
              simp [downloadAnswered, Legible, isAccept, decoded, NoThrow,
                fileAccept_carries_iff]
          | ok acc =>
              cases created : answer.created <;>
                simp [downloadAnswered, Legible, isAccept, decoded, created,
                  NoThrow, fileAccept_carries_iff]
        · simp [downloadAnswered, Legible, isResult, isAccept, NoThrow]

theorem blockReceived_noThrow_iff
    (sha256 : Bytes → Hash256)
    {app : ClientApp}
    (sound : NoThrow app.phase)
    (answer : LocalAnswer)
    (acc : FileAcceptMsg)
    (out : OfStream)
    (hasher : Sha256)
    (got : UInt64)
    (read : Option Message) :
    NoThrow
        (app.blockReceived sha256 answer acc out hasher got read).phase ↔
      LegibleRead [.fileBlock] read := by
  cases read with
  | none =>
      simp [blockReceived, leaveStream, NoThrow]
  | some m =>
      by_cases isBlock : m.op = .known .fileBlock
      · cases decoded : FileBlockMsg.decode m.payload with
        | error error =>
            simp [blockReceived, leaveStream, Legible, isBlock, decoded,
              NoThrow, fileBlock_carries_iff]
        | ok b =>
            by_cases same : b.transferId = acc.transferId
            · simp [blockReceived, Legible, isBlock, decoded, same, NoThrow,
                fileBlock_carries_iff]
            · simp [blockReceived, Legible, isBlock, decoded, same, sound,
                fileBlock_carries_iff]
      · have legible : Legible [.fileBlock] m := by
          simp [Legible, isBlock]
        rw [legibleRead_some, iff_true_right legible]
        simp only [blockReceived, if_neg isBlock]
        split
        · simp [leaveStream, NoThrow]
        · split
          · simp [leaveStream, NoThrow]
          · exact sound

end ClientApp

/-- The messages that are parsed where a transfer stands. -/
def TransferPhase.parsed : TransferPhase → List OpName
  | .uploadRequested _ | .downloadRequested _ => [.fileOpResult, .fileAccept]
  | .uploadSent => [.fileVerify]
  | .receivingBlocks .. => [.fileBlock]
  | _ => []

namespace CallState

/-- The messages that are parsed where a call stands. -/
def parsed : CallState → List OpName
  | .transfer app => app.phase.parsed
  | .requesting .. => []
  | .resultAwaited _ => [.fileOpResult]

/-- A turn in which a message that is parsed carries its fields. -/
def LegibleTurn (state : CallState) (turn : CallTurn) : Prop :=
  LegibleRead state.parsed turn.read

/-- A call is not left by an exception. -/
def Sound (state : CallState) : Prop :=
  ¬state.Threw

@[simp] theorem sound_transfer (app : ClientApp) :
    Sound (.transfer app) ↔ ClientApp.NoThrow app.phase := by
  simp [Sound, Threw, ClientApp.NoThrow]

/-- A call stays sound in the turns that are legible, and only in these. -/
theorem step_sound_iff
    (sha256 : Bytes → Hash256)
    (state : CallState)
    (turn : CallTurn)
    (sound : state.Sound) :
    (state.step sha256 turn).Sound ↔ state.LegibleTurn turn := by
  have nothingParsed : LegibleRead [] turn.read := by
    simp [LegibleRead, Legible]
  cases state with
  | requesting app op payload =>
      exact iff_of_true id nothingParsed
  | resultAwaited app =>
      rw [step, sound_transfer]
      exact ClientApp.opResultReceived_noThrow_iff turn.read
  | transfer app =>
      obtain ⟨phase, files, answered⟩ := app
      rw [sound_transfer] at sound
      rw [step, sound_transfer]
      cases phase with
      | returned ok =>
          exact iff_of_true sound nothingParsed
      | threw error =>
          exact (sound error rfl).elim
      | requestingUpload data remotePath | requestingDownload remotePath localPath
        | sendingReceipt id ok =>
          exact iff_of_true (by simp [ClientApp.step, ClientApp.NoThrow]) nothingParsed
      | uploadRequested data =>
          exact ClientApp.uploadAnswered_noThrow_iff data turn.read
      | uploadSent =>
          exact ClientApp.uploadVerified_noThrow_iff turn.read
      | downloadRequested localPath =>
          exact ClientApp.downloadAnswered_noThrow_iff _ _ _ turn.read
      | receivingBlocks acc out hasher got =>
          exact ClientApp.blockReceived_noThrow_iff sha256 sound _ _ _ _ _ _
      | sendingBlocks id data off =>
          refine iff_of_true ?_ nothingParsed
          simp only [ClientApp.step]
          split
          · split
            · simp [ClientApp.NoThrow]
            · simp
          · simp [ClientApp.NoThrow]

/-- An exception that has left a call is not taken back. -/
theorem step_threw
    (sha256 : Bytes → Hash256)
    (state : CallState)
    (turn : CallTurn)
    (threw : ¬state.Sound) :
    ¬(state.step sha256 turn).Sound := by
  cases state with
  | requesting app op payload | resultAwaited app =>
      exact (threw id).elim
  | transfer app =>
      obtain ⟨error, isThrow⟩ := Classical.not_not.mp threw
      have same : app.step sha256 turn = app := by
        simp only [ClientApp.step, isThrow]
      rw [step, same]
      exact threw

/-- A call begins without an exception. -/
theorem begin_sound
    (app : ClientApp)
    (call : ClientCall) :
    (call.begin app).Sound := by
  cases call with
  | uploadFile localPath remotePath =>
      rw [ClientCall.begin, sound_transfer]
      simp only [ClientApp.uploadFile]
      split
      · simp
      · simp [ClientApp.NoThrow]
  | downloadFile remotePath localPath =>
      rw [ClientCall.begin, sound_transfer]
      simp [ClientApp.downloadFile, ClientApp.NoThrow]
  | deleteRemote remotePath | moveRemote src dst =>
      exact id

end CallState

/-! ## The login -/

section Login

variable {Certificate : Type}
variable {ssl : OpenSsl Certificate}
variable {certificate : Option Certificate}

/-- The login gets as far as reading the server's verdict. -/
structure AwaitsVerdict
    (sha256 : Bytes → Hash256)
    (cfg : ClientConfig)
    (answers : LoginAnswers ssl certificate) : Prop where
  tunnel :
    ∃ ctx,
      TlsContext.makeClient answers.setup
          { caPath := cfg.caPath, pinnedSha256Hex := cfg.pinSha256Hex } =
        .ok ctx ∧
        ClientApp.handshake sha256 ctx answers = true
  connected : answers.connected = true
  wrapped : answers.wrapped = true
  greeted : ∃ m, answers.greeting = some m ∧ m.op = .known .serverHello

/-- The login returns. -/
def LoginEnd.Returns (ended : LoginEnd) : Prop :=
  ∃ ok, ended = .returned ok

/-- The verdict is what the login may fall over. -/
theorem authAnswered_returns_iff
    {run : LoginRun}
    (going : run.ended = .returned false)
    (verdict : Option Message) :
    (ClientApp.authAnswered run verdict).ended.Returns ↔
      LegibleRead [.authResult, .error] verdict := by
  have returns : run.ended.Returns :=
    ⟨false, going⟩
  cases verdict with
  | none =>
      simpa [ClientApp.authAnswered] using returns
  | some m =>
      by_cases isResult : m.op = .known .authResult
      · cases decoded : AuthResultMsg.decode m.payload with
        | error error =>
            simp [ClientApp.authAnswered, Legible, isResult, decoded,
              LoginEnd.Returns, authResult_carries_iff]
        | ok ares =>
            by_cases good : ares.status = .known .ok
            · simp [ClientApp.authAnswered, Legible, isResult, decoded, good,
                LoginEnd.Returns, authResult_carries_iff]
            · simp [ClientApp.authAnswered, Legible, isResult, decoded, good,
                returns, authResult_carries_iff]
      · by_cases isError : m.op = .known .error
        · cases decoded : ErrorMsg.decode m.payload with
          | error error =>
              simp [ClientApp.authAnswered, Legible, isError, decoded,
                LoginEnd.Returns, error_carries_iff]
          | ok reason =>
              simp [ClientApp.authAnswered, Legible, isError, decoded, returns,
                error_carries_iff]
        · simp [ClientApp.authAnswered, Legible, isResult, isError, returns]

/-- The login returns unless it reads a verdict that does not carry its fields. -/
theorem connectAndAuth_returns_iff
    (sha256 : Bytes → Hash256)
    (cfg : ClientConfig)
    (answers : LoginAnswers ssl certificate) :
    (ClientApp.connectAndAuth sha256 cfg answers).ended.Returns ↔
      (AwaitsVerdict sha256 cfg answers →
        LegibleRead [.authResult, .error] answers.verdict) := by
  have failed : (LoginEnd.returned false).Returns :=
    ⟨false, rfl⟩
  by_cases awaits : AwaitsVerdict sha256 cfg answers
  · obtain ⟨⟨ctx, made, through⟩, connected, wrapped, greeting, greets,
      isHello⟩ := awaits
    simp only [ClientApp.connectAndAuth, made, connected, wrapped, through,
      ClientApp.logIn, greets, isHello, Bool.not_true, Bool.and_self,
      Bool.false_eq_true, ↓reduceIte, ne_eq, not_true_eq_false]
    rw [authAnswered_returns_iff rfl, forall_prop_of_true]
    exact ⟨⟨ctx, made, through⟩, connected, wrapped, greeting, greets, isHello⟩
  · refine iff_of_true ?_ fun reached => (awaits reached).elim
    unfold ClientApp.connectAndAuth
    split
    · exact failed
    · next ctx made =>
        split
        · exact failed
        · next connected =>
            split
            · exact failed
            · next shaken =>
                simp only [Bool.not_eq_true', Bool.not_eq_false,
                  Bool.and_eq_true] at connected shaken
                unfold ClientApp.logIn
                dsimp only
                split
                · exact failed
                · next greeting greets =>
                    split
                    · exact failed
                    · next isHello =>
                        exact (awaits
                          ⟨⟨ctx, made, shaken.2⟩, connected, shaken.1,
                            greeting, greets, Classical.not_not.mp isHello⟩).elim

end Login

/-! ## The reader thread -/

/-- A buffer can be had when a vector can be that long and the heap has it. -/
theorem assignZeros_ok_iff
    {heap : Nat → Bool}
    {size : Nat} :
    (∃ bytes, assignZeros heap size = .ok bytes) ↔
      size ≤ vectorMaxSize ∧ heap size = true := by
  unfold assignZeros
  split
  · next tooLong =>
      simp [Nat.not_le_of_lt tooLong]
  · next fits =>
      rw [and_iff_right (Nat.le_of_not_lt fits)]
      split
      · next granted => simp [granted]
      · next refused => simp [refused]

/-- A keyframe is begun when its buffer can be had. -/
theorem frameInfo_ok_iff
    {heap : Nat → Bool}
    {st : ViewerState}
    {fi : FrameInfoMsg} :
    (∃ next, st.frameInfo heap fi = .ok next) ↔
      ReaderThread.Affordable heap fi := by
  have begun :
      (∃ next, st.frameInfo heap fi = .ok next) ↔
        ∃ pending,
          assignZeros heap
              (sizeT (sizeOfInt (intOfU32 fi.stride) *
                sizeOfInt fi.height.toNat)) =
            .ok pending := by
    unfold ViewerState.frameInfo
    dsimp only
    cases assignZeros heap _ with
    | error exception => simp [bind, Except.bind]
    | ok pending => simp [bind, Except.bind, pure, Except.pure]
  rw [begun, assignZeros_ok_iff]
  by_cases fine : fi.height = 0 ∨ fi.stride.toNat < 2 ^ 31
  · rw [ReaderThread.keyframe_size fine, ReaderThread.Affordable,
      and_iff_right fine, and_iff_right (ReaderThread.keyframe_fits fine)]
  · refine iff_of_false ?_ fun affordable => fine affordable.1
    rw [not_or, Nat.not_lt] at fine
    exact fun both =>
      Nat.not_le_of_lt (ReaderThread.keyframe_too_long fine.1 fine.2) both.1

/-- The messages that the loop parses. -/
def readerParsed : List OpName :=
  [.frameInfo, .frameData, .frameRect]

/-- A message leaves the loop by an exception or not. -/
theorem readerStep_ok_iff
    {heap : Nat → Bool}
    {st : ViewerState}
    {m : Message} :
    (∃ next, readerStep heap st m = .ok next) ↔
      Legible readerParsed m ∧
        (m.op = .known .frameInfo →
          ∀ fi,
            FrameInfoMsg.decode m.payload = .ok fi →
            ReaderThread.Affordable heap fi) := by
  cases isOp : m.op with
  | other byte unnamed =>
      simp [readerStep, isOp, Legible]
  | known name =>
      cases name with
      | frameInfo =>
          cases decoded : FrameInfoMsg.decode m.payload with
          | error error =>
              simp [readerStep, isOp, Legible, readerParsed, decoded, throwing,
                frameInfo_carries_iff, bind, Except.bind]
          | ok fi =>
              have begun :
                  (∃ next, readerStep heap st m = .ok next) ↔
                    ∃ next, st.frameInfo heap fi = .ok next := by
                simp only [readerStep, isOp, decoded, throwing, bind,
                  Except.bind]
                cases st.frameInfo heap fi with
                | error exception => simp
                | ok next => simp [pure, Except.pure]
              rw [begun, frameInfo_ok_iff]
              simp [isOp, Legible, readerParsed, decoded,
                frameInfo_carries_iff]
      | frameData =>
          cases decoded : FrameDataMsg.decode m.payload with
          | error error =>
              simp [readerStep, isOp, Legible, readerParsed, decoded, throwing,
                frameData_carries_iff, bind, Except.bind]
          | ok fd =>
              simp [readerStep, isOp, Legible, readerParsed, decoded, throwing,
                frameData_carries_iff, bind, Except.bind, pure, Except.pure]
      | frameRect =>
          cases decoded : FrameRectMsg.decode m.payload with
          | error error =>
              simp [readerStep, isOp, Legible, readerParsed, decoded, throwing,
                frameRect_carries_iff, bind, Except.bind]
          | ok fr =>
              simp [readerStep, isOp, Legible, readerParsed, decoded, throwing,
                frameRect_carries_iff, bind, Except.bind, pure, Except.pure]
      | _ =>
          simp [readerStep, isOp, Legible, readerParsed]

namespace ReaderThread

/-- The message can be borne in the loop. -/
structure Borne
    (heap : Nat → Bool)
    (st : ViewerState)
    (m : Message) : Prop where
  legible : Legible readerParsed m
  affordable :
    m.op = .known .frameInfo →
    ∀ fi, FrameInfoMsg.decode m.payload = .ok fi → Affordable heap fi
  copied : m.op = .known .frameEnd → frameCopied heap st = true

/-- A pass of the loop in which a message that comes in can be borne. -/
def BearableTurn (thread : ReaderThread) (turn : ReaderTurn) : Prop :=
  ∀ st m,
    thread.reader = .running st →
    turn.closing = false → turn.read = some m → Borne turn.heap st m

/-- Whoever leaves the loop in order says so. -/
theorem finish_orderly
    (thread : ReaderThread)
    (st : ViewerState) :
    (thread.finish st).Orderly :=
  ⟨rfl, List.mem_append_right _ List.mem_cons_self⟩

/-- A message is taken in order exactly when it can be borne. -/
theorem receive_orderly_iff
    (thread : ReaderThread)
    (heap : Nat → Bool)
    (st : ViewerState)
    (m : Message) :
    (thread.receive heap st m).Orderly ↔ Borne heap st m := by
  by_cases uncopied : m.op = .known .frameEnd ∧ frameCopied heap st = false
  · refine iff_of_false ?_ ?_
    · rw [receive, if_pos uncopied]
      exact id
    · intro borne
      have copied := borne.copied uncopied.1
      rw [uncopied.2] at copied
      cases copied
  · have copied : m.op = .known .frameEnd → frameCopied heap st = true :=
      fun isEnd => Bool.of_not_eq_false fun isFalse => uncopied ⟨isEnd, isFalse⟩
    have borne : Borne heap st m ↔ ∃ next, readerStep heap st m = .ok next := by
      rw [readerStep_ok_iff]
      exact
        ⟨fun borne => ⟨borne.legible, borne.affordable⟩,
          fun both => ⟨both.1, both.2, copied⟩⟩
    rw [borne, receive, if_neg uncopied]
    cases readerStep heap st m with
    | error exception =>
        exact iff_of_false id (by simp)
    | ok next =>
        refine iff_of_true ?_ ⟨next, rfl⟩
        cases next with
        | running after => exact trivial
        | stopped after | escaped exception => exact thread.finish_orderly st

/-- The thread stays in order in the passes it can bear, and only in these. -/
theorem step_orderly_iff
    (thread : ReaderThread)
    (turn : ReaderTurn)
    (orderly : thread.Orderly) :
    (thread.step turn).Orderly ↔ thread.BearableTurn turn := by
  cases isReader : thread.reader with
  | escaped exception =>
      simp only [Orderly, isReader] at orderly
  | stopped st =>
      have same : thread.step turn = thread := by
        simp only [step, isReader]
      rw [same]
      refine iff_of_true orderly ?_
      intro other m isRunning
      rw [isReader] at isRunning
      cases isRunning
  | running st =>
      have bearable :
          thread.BearableTurn turn ↔
            (turn.closing = false →
              ∀ m, turn.read = some m → Borne turn.heap st m) := by
        simp only [BearableTurn, isReader, Reader.running.injEq]
        exact
          ⟨fun each closing m read => each st m rfl closing read,
            fun each other m same closing read => same ▸ each closing m read⟩
      rw [bearable]
      simp only [step, isReader]
      cases closing : turn.closing with
      | true =>
          exact iff_of_true (thread.finish_orderly st) (by simp)
      | false =>
          cases read : turn.read with
          | none =>
              exact iff_of_true (thread.finish_orderly st) (by simp)
          | some m =>
              simpa using thread.receive_orderly_iff turn.heap st m

/-- A thread that an exception has ended stays ended. -/
theorem step_disorderly
    (thread : ReaderThread)
    (turn : ReaderTurn)
    (disorderly : ¬thread.Orderly) :
    ¬(thread.step turn).Orderly := by
  cases isReader : thread.reader with
  | running st =>
      simp [Orderly, isReader] at disorderly
  | stopped st | escaped exception =>
      have same : thread.step turn = thread := by
        simp only [step, isReader]
      rw [same]
      exact disorderly

end ReaderThread

/-! ## The client under any server -/

/--
A login returns, a file operation is not left by an exception and the reader
thread ends in order exactly when everything that they parse carries its fields
and the reader can have its buffers.
-/
theorem client_robustness
    (sha256 : Bytes → Hash256)
    {Certificate : Type}
    {ssl : OpenSsl Certificate}
    {certificate : Option Certificate}
    (cfg : ClientConfig)
    (answers : LoginAnswers ssl certificate)
    (app : ClientApp)
    (call : ClientCall)
    (turns : List CallTurn)
    (passes : List ReaderTurn) :
    ((ClientApp.connectAndAuth sha256 cfg answers).ended.Returns ↔
        (AwaitsVerdict sha256 cfg answers →
          LegibleRead [.authResult, .error] answers.verdict)) ∧
      ((StepRuns.run (CallState.step sha256) (call.begin app) turns).Sound ↔
        StepRuns.Allowed (CallState.step sha256) CallState.LegibleTurn
          (call.begin app) turns) ∧
      ((StepRuns.run ReaderThread.step {} passes).Orderly ↔
        StepRuns.Allowed ReaderThread.step ReaderThread.BearableTurn {}
          passes) := by
  have starts : ReaderThread.Orderly {} :=
    trivial
  refine ⟨connectAndAuth_returns_iff sha256 cfg answers, ?_, ?_⟩
  · exact
      StepRuns.sound_iff_allowed (CallState.step_threw sha256)
        (CallState.step_sound_iff sha256) (CallState.begin_sound app call) turns
  · exact
      StepRuns.sound_iff_allowed ReaderThread.step_disorderly
        ReaderThread.step_orderly_iff starts passes

/-- A stride that is negative as an `int`. -/
def hostileFrameInfo : FrameInfoMsg where
  width := 1
  height := 1
  stride := 0x80000000

/-- An empty verdict on a deletion, and a keyframe of a hostile geometry. -/
theorem thrown_by_server :
    ¬(StepRuns.run (CallState.step evpSha256)
        (ClientCall.begin { phase := .returned true, files := fun _ => none }
          (.deleteRemote (ascii "a")))
        [{}, { read := some ⟨.known .fileOpResult, []⟩ }]).Sound ∧
      ¬(StepRuns.run ReaderThread.step {}
        [{ read := some ⟨.known .frameInfo, hostileFrameInfo.encode⟩ }]).Orderly := by
  constructor
  · intro sound
    exact sound ⟨_, rfl⟩
  · have tooLong :
        readerStep (fun _ => true) {}
            ⟨.known .frameInfo, hostileFrameInfo.encode⟩ =
          .error .lengthError := by
      decide +kernel
    simp [ReaderThread.step, ReaderThread.receive, tooLong, ReaderThread.Orderly]

end RadminPro
