import RadminPro.SessionEffects
import RadminPro.StepRuns

namespace RadminPro

open ByteCodec

/-!
# The server session

`ServerApp::session`, the body of the thread that serves one connection.  Every
turn reads at most one message.  In the first turns the connection is taken
through handshake, greeting, login and choice of mode; after that each turn is
one pass of the event loop.  A decoding error that leaves the function ends the
process.
-/

/-- What a session is started with. -/
structure SessionSetup where
  peerIp : Bytes
  peerStr : Bytes
  fileRoot : Path
  monitor : UInt32 := 0

/-- What is fixed once the mode has been authorised. -/
structure SessionContext where
  user : Bytes
  rights : UInt32
  mode : ConnectionMode
  deriving DecidableEq

/-- The variables of the event loop. -/
structure LoopState where
  captureOk : Bool
  streamer : VideoStreamer := {}
  uploads : Uploads := ∅
  nextTransferId : UInt32 := 1

/-- What one message does: whether to go on, and the state and effects after it. -/
structure Outcome where
  goOn : Bool := true
  loop : LoopState
  effects : List Effect := []

namespace SessionContext

/-- The right to control the screen. -/
def hasControl (rights : UInt32) : Bool :=
  hasRight rights R_RemoteScreenControl

/-- Control implies view. -/
def hasViewRight (rights : UInt32) : Bool :=
  hasControl rights || hasRight rights R_RemoteScreenView

/-- The name of a mode in the log; unnamed modes have none. -/
def modeStr : ConnectionMode → Bytes
  | .known .fullControl => ascii "Full Control"
  | .known .viewOnly => ascii "View Only"
  | .known .fileOnly => ascii "File Transfer"
  | .other .. => []

/-- May a user with these rights start a session of this mode? -/
def authorized (rights : UInt32) : ConnectionMode → Bool
  | .known .fullControl => hasControl rights
  | .known .viewOnly => hasViewRight rights
  | .known .fileOnly => hasRight rights R_FileTransfer
  | .other .. => false

/-- Input is injected. -/
def canControl (ctx : SessionContext) : Bool :=
  ctx.mode = .known .fullControl && hasControl ctx.rights

/-- The screen is streamed. -/
def canView (ctx : SessionContext) : Bool :=
  ctx.mode ≠ .known .fileOnly && hasViewRight ctx.rights

/-- Files may be transferred. -/
def canTransfer (ctx : SessionContext) : Bool :=
  hasRight ctx.rights R_FileTransfer

end SessionContext

section Handlers

variable (sha256 : Bytes → Hash256)
variable (setup : SessionSetup)
variable (ctx : SessionContext)
variable (out : Outside)
variable (loop : LoopState)

/-- One message to the client. -/
def reply (op : Op) (payload : Bytes) : List Effect :=
  (writeMessage out.replies [] op payload).2

/-- The verdict on a file operation. -/
def sendOpResult (status : FileOpStatus) (text : Bytes) : List Effect :=
  reply out (.known .fileOpResult) (FileOpResultMsg.encode ⟨status, text⟩)

/-- An audit row about a file operation of this session. -/
def auditFileOp
    (action : AuditAction)
    (target result detail : Bytes) : Effect :=
  .audit (.fileOp action ctx.user setup.peerStr target result detail)

/-- The answer to a request that the rights do not cover. -/
def notPermitted (operation text : Bytes) : Outcome where
  loop := loop
  effects :=
    auditFileOp setup ctx .permissionDenied [] (ascii "DENIED") operation ::
      sendOpResult out (.known .denied) text

/-- The answer to a request whose path leaves the sandbox. -/
def pathRejected (action : AuditAction) (target : Bytes) : Outcome where
  loop := loop
  effects :=
    auditFileOp setup ctx action target (ascii "DENIED")
        (ascii "path outside sandbox") ::
      sendOpResult out (.known .badPath) (ascii "path rejected")

/-- `InputMouse`: silently ignored without control. -/
def handleInputMouse (payload : Bytes) : Except DeserializeError Outcome :=
  if !ctx.canControl then
    .ok { loop }
  else do
    let (x, y, action) ←
      parseAll
        (do
          let x ← ByteReader.u16
          let y ← ByteReader.u16
          let action ← ByteReader.u32
          pure (x, y, action))
        payload
    return { loop, effects := [.injectMouse x y action] }

/-- `InputKey`: silently ignored without control. -/
def handleInputKey (payload : Bytes) : Except DeserializeError Outcome :=
  if !ctx.canControl then
    .ok { loop }
  else do
    let (down, vk) ←
      parseAll
        (do
          let down ← ByteReader.u8
          let vk ← ByteReader.u16
          pure (down, vk))
        payload
    return { loop, effects := [.injectKey (down != 0) vk] }

/-- The state of an upload when it begins. -/
def UploadState.requested (req : FileUploadReqMsg) (dest : Path) :
    UploadState where
  finalPath := dest
  tempPath := dest ++ ascii ".part"
  out := { path := dest ++ ascii ".part" }
  expected := req.size
  declared := req.sha256

/-- Open the temporary file of an upload request and accept it. -/
def beginUpload (req : FileUploadReqMsg) (dest : Path) : Outcome :=
  let st := UploadState.requested req dest
  let directories :=
    ((PathText.parentDirectories dest).filter out.creates).map
      Effect.createDirectory
  let opening := directories ++ [.openTrunc st.tempPath out.opened]
  if !out.opened then
    { loop
      effects :=
        opening ++
          sendOpResult out (.known .ioError) (ascii "cannot create file") }
  else
    let id := loop.nextTransferId
    let replaced :=
      match loop.uploads[id]? with
      | some old => old.out.close out.flushedAtReplace
      | none => []
    { loop :=
        { loop with
          uploads := loop.uploads.insert id st
          nextTransferId := id + 1 }
      effects :=
        opening ++ replaced ++
          reply out (.known .fileAccept)
            (FileAcceptMsg.encode { transferId := id }) }

/-- `FileUploadReq`. -/
def handleFileUploadReq (payload : Bytes) : Except DeserializeError Outcome :=
  if !ctx.canTransfer then
    .ok (notPermitted setup ctx out loop (ascii "upload")
      (ascii "file transfer not permitted"))
  else do
    let req ← FileUploadReqMsg.decode payload
    match resolveInRoot out setup.fileRoot req.remotePath with
    | none => return pathRejected setup ctx out loop .fileUpload req.remotePath
    | some dest => return beginUpload out loop req dest

/-- `FileBlock`: unknown transfers are ignored. -/
def handleFileBlock (payload : Bytes) : Except DeserializeError Outcome := do
  let blk ← FileBlockMsg.decode payload
  match loop.uploads[blk.transferId]? with
  | none => return { loop }
  | some st =>
      let (stream, written) := st.out.write blk.data out.flush
      let st :=
        { st with
          out := stream
          hasher := st.hasher.update blk.data
          received := st.received + UInt64.ofNat blk.data.length }
      return {
        loop :=
          { loop with uploads := loop.uploads.insert blk.transferId st }
        effects := written }

/-- The message and the audit row that close an upload. -/
def uploadVerdict
    (id : UInt32)
    (status : FileOpStatus)
    (action : AuditAction)
    (target result detail : Bytes) : List Effect :=
  reply out (.known .fileVerify) (FileVerifyMsg.encode ⟨id, status⟩) ++
    [auditFileOp setup ctx action target result detail]

/-- Verify a completed upload and move it to its place. -/
def finishUpload (id : UInt32) (st : UploadState) : List Effect :=
  let actual := st.hasher.finish sha256
  let sizeOk := st.received = st.expected
  let hashOk := actual = st.declared
  st.out.close out.flushedAtClose ++
    if sizeOk ∧ hashOk then
      .rename st.tempPath st.finalPath out.renamed ::
        if out.renamed then
          uploadVerdict setup ctx out id (.known .ok) .fileUpload st.finalPath
            (ascii "OK") (ascii "sha256=" ++ toHex actual.bytes)
        else
          .remove st.tempPath out.removed ::
            uploadVerdict setup ctx out id (.known .ioError) .fileUpload
              st.finalPath (ascii "IO_ERROR") (ascii "rename failed")
    else
      .remove st.tempPath out.removed ::
        uploadVerdict setup ctx out id (.known .hashMismatch) .integrityFail
          st.finalPath (ascii "MISMATCH")
          (if sizeOk then ascii "hash differs" else ascii "size differs")

/-- `FileComplete`: unknown transfers are ignored. -/
def handleFileComplete (payload : Bytes) : Except DeserializeError Outcome := do
  let id ← parseAll ByteReader.u32 payload
  match loop.uploads[id]? with
  | none => return { loop }
  | some st =>
      return {
        loop := { loop with uploads := loop.uploads.erase id }
        effects := finishUpload sha256 setup ctx out id st }

/-- `FileDelete`. -/
def handleFileDelete (payload : Bytes) : Except DeserializeError Outcome :=
  if !ctx.canTransfer then
    .ok (notPermitted setup ctx out loop (ascii "delete")
      (ascii "not permitted"))
  else do
    let del ← FileDeleteMsg.decode payload
    match resolveInRoot out setup.fileRoot del.path with
    | none => return pathRejected setup ctx out loop .fileDelete del.path
    | some target =>
        return {
          loop
          effects :=
            [.remove target out.removed,
              auditFileOp setup ctx .fileDelete target
                (if out.removed then ascii "OK" else ascii "FAIL")
                out.errorText] ++
              sendOpResult out
                (if out.removed then .known .ok else .known .notFound)
                out.errorText }

/-- `FileMove`. -/
def handleFileMove (payload : Bytes) : Except DeserializeError Outcome :=
  if !ctx.canTransfer then
    .ok (notPermitted setup ctx out loop (ascii "move") (ascii "not permitted"))
  else do
    let mv ← FileMoveMsg.decode payload
    match resolveInRoot out setup.fileRoot mv.srcPath,
        resolveInRoot out setup.fileRoot mv.dstPath with
    | some src, some dst =>
        return {
          loop
          effects :=
            [.rename src dst out.renamed,
              auditFileOp setup ctx .fileMove (src ++ ascii " -> " ++ dst)
                (if out.renamed then ascii "OK" else ascii "FAIL")
                out.errorText] ++
              sendOpResult out
                (if out.renamed then .known .ok else .known .ioError)
                out.errorText }
    | _, _ =>
        return pathRejected setup ctx out loop .fileMove
          (mv.srcPath ++ ascii " -> " ++ mv.dstPath)

/-- The blocks of a download. -/
def downloadBlocks (id : UInt32) (data : Bytes) : List (Op × Bytes) :=
  (List.range ((data.length + kFileBlockSize - 1) / kFileBlockSize)).map
    fun index =>
      (.known .fileBlock,
        FileBlockMsg.encode
          { transferId := id
            sequence := UInt32.ofNat index
            data :=
              BufferWindow.window data (index * kFileBlockSize)
                kFileBlockSize })

/-- Announce a download, send its blocks until one fails, and end it. -/
def sendDownload (id : UInt32) (data : Bytes) (hash : Hash256) : List Effect :=
  let announced :=
    (writeMessage out.replies [] (.known .fileAccept)
      (FileAcceptMsg.encode
        { transferId := id
          size := UInt64.ofNat data.length
          sha256 := hash })).2
  let blocks :=
    (sendAll (writeMessage out.replies) announced (downloadBlocks id data)).2
  (writeMessage out.replies blocks (.known .fileComplete) (putU32 id)).2

/-- `FileDownloadReq`. -/
def handleFileDownloadReq (payload : Bytes) : Except DeserializeError Outcome :=
  if !ctx.canTransfer then
    .ok (notPermitted setup ctx out loop (ascii "download")
      (ascii "not permitted"))
  else do
    let relPath ← parseAll ByteReader.str payload
    match resolveInRoot out setup.fileRoot relPath with
    | none => return pathRejected setup ctx out loop .fileDownload relPath
    | some src =>
        match out.content with
        | none =>
            return {
              loop
              effects :=
                .readFile src none ::
                  sendOpResult out (.known .notFound)
                    (ascii "no such file") }
        | some data =>
            let hash := sha256 data
            let id := loop.nextTransferId
            return {
              loop := { loop with nextTransferId := id + 1 }
              effects :=
                .readFile src (some data) :: sendDownload out id data hash ++
                  [auditFileOp setup ctx .fileDownload src (ascii "OK")
                    (ascii "sha256=" ++ toHex hash.bytes)] }

/-- `FileVerify`: the client's receipt of a download. -/
def handleFileVerify (payload : Bytes) : Except DeserializeError Outcome := do
  let v ← FileVerifyMsg.decode payload
  if v.status ≠ .known .ok then
    return {
      loop
      effects :=
        [auditFileOp setup ctx .integrityFail [] (ascii "MISMATCH")
          (ascii "client reported download hash mismatch")] }
  else
    return { loop }

/-- What a message of the event loop does. -/
def handle (m : Message) : Except DeserializeError Outcome :=
  match m.op with
  | .known .bye => .ok { goOn := false, loop }
  | .known .inputMouse => handleInputMouse ctx loop m.payload
  | .known .inputKey => handleInputKey ctx loop m.payload
  | .known .fileUploadReq => handleFileUploadReq setup ctx out loop m.payload
  | .known .fileBlock => handleFileBlock out loop m.payload
  | .known .fileComplete =>
      handleFileComplete sha256 setup ctx out loop m.payload
  | .known .fileDelete => handleFileDelete setup ctx out loop m.payload
  | .known .fileMove => handleFileMove setup ctx out loop m.payload
  | .known .fileDownloadReq =>
      handleFileDownloadReq sha256 setup ctx out loop m.payload
  | .known .fileVerify => handleFileVerify setup ctx loop m.payload
  | _ => .ok { loop }

end Handlers

/-! ## The turns of a session -/

/-- Where a session stands. -/
inductive SessionPhase where
  | handshake
  | hello
  | auth
  | mode (user : Bytes) (rights : UInt32)
  | live (ctx : SessionContext) (loop : LoopState)
  | closed (unfinished : Uploads)
  | terminated (error : DeserializeError)
  | stuck

/-- A session and everything it has done. -/
structure Session where
  phase : SessionPhase := .handshake
  trace : List Effect := [.setRecvTimeoutMs 15000]

/-- What a read returned. -/
inductive ReadResult where
  | ok (m : Message)
  | timeout
  | closed
  deriving DecidableEq

/-- One turn: the server's run flag, what was read and what was answered. -/
structure Turn where
  running : Bool := true
  handshake : Bool := true
  read : ReadResult := .timeout
  outside : Outside := {}

section Turns

variable (sha256 : Bytes → Hash256)
variable (setup : SessionSetup)

/-- Leave before the event loop. -/
def leave (effects : List Effect) : SessionPhase × List Effect :=
  (.closed ∅, effects ++ [.releaseSlot])

/-- Read the greeting. -/
def helloTurn (turn : Turn) : SessionPhase × List Effect :=
  match turn.read with
  | .ok m =>
      if m.op ≠ .known .hello then
        leave [.received m]
      else
        match HelloMsg.decode m.payload with
        | .error error => (.terminated error, [.received m])
        | .ok hello =>
            if hello.version ≠ kProtocolVersion then
              leave (.received m ::
                reply turn.outside (.known .error)
                  (ErrorMsg.encode ⟨1, ascii "protocol version mismatch"⟩))
            else
              (.auth,
                .received m ::
                  reply turn.outside (.known .serverHello)
                    (ServerHelloMsg.encode
                      { serverName := ascii "radminpro" }))
  | .timeout | .closed => leave []

/-- Read the credentials and answer them. -/
def authTurn (turn : Turn) : SessionPhase × List Effect :=
  match turn.read with
  | .ok m =>
      if m.op ≠ .known .authRequest then
        leave [.received m]
      else
        match AuthRequestMsg.decode m.payload with
        | .error error => (.terminated error, [.received m])
        | .ok areq =>
            let ao := turn.outside.authenticate areq.username areq.password
            let ok := ao.status = .known .ok
            let answered :=
              .received m ::
                reply turn.outside (.known .authResult)
                  (AuthResultMsg.encode
                    { status := ao.status
                      grantedRights := ao.rights
                      sessionId :=
                        if ok then turn.outside.sessionId else 0 }) ++
                [.audit (.auth areq.username setup.peerStr ok
                  (if ok then
                    rightsToString ao.rights
                  else
                    ascii "status=" ++ decimal ao.status.toByte.toNat))]
            if ok then
              (.mode areq.username ao.rights, answered)
            else
              leave answered
  | .timeout | .closed => leave []

/-- Read the mode and start the session if it is authorised. -/
def modeTurn
    (user : Bytes)
    (rights : UInt32)
    (turn : Turn) : SessionPhase × List Effect :=
  match turn.read with
  | .ok m =>
      if m.op ≠ .known .sessionStart then
        leave [.received m]
      else
        match SessionStartMsg.decode m.payload with
        | .error error => (.terminated error, [.received m])
        | .ok start =>
            let modeStr := SessionContext.modeStr start.mode
            if !SessionContext.authorized rights start.mode then
              leave (.received m ::
                reply turn.outside (.known .error)
                    (ErrorMsg.encode
                      ⟨2, ascii "not authorized for requested mode"⟩) ++
                  [.audit (.fileOp .permissionDenied user setup.peerStr []
                    (ascii "DENIED") (ascii "session mode=" ++ modeStr))])
            else
              (.live { user, rights, mode := start.mode }
                { captureOk := turn.outside.captureReady },
                [.received m,
                  .setRecvTimeoutMs 0,
                  .overlayShow
                    (ascii "Remote session active  -  " ++ user ++
                      ascii "  from  " ++ setup.peerIp ++ ascii "   (" ++
                      modeStr ++ ascii ")"),
                  .audit (.session user setup.peerStr true
                    (ascii "mode=" ++ modeStr)),
                  .captureInitialize setup.monitor turn.outside.captureReady])
  | .timeout | .closed => leave []

/-- Leave the event loop: discard unfinished uploads and say goodbye. -/
def finishSession
    (ctx : SessionContext)
    (out : Outside)
    (loop : LoopState)
    (effects : List Effect) : SessionPhase × List Effect :=
  let discarded :=
    loop.uploads.toList.flatMap fun entry =>
      entry.2.out.close (out.cleanup entry.1).1 ++
        [.remove entry.2.tempPath (out.cleanup entry.1).2]
  (.closed loop.uploads,
    effects ++ discarded ++
      [.audit (.session ctx.user setup.peerStr false []),
        .overlayHide,
        .releaseSlot])

/-- Stream a frame if the mode allows it. -/
def streamTurn
    (ctx : SessionContext)
    (out : Outside)
    (loop : LoopState)
    (effects : List Effect) : SessionPhase × List Effect :=
  if ctx.canView && loop.captureOk then
    match loop.streamer.streamOnce (writeMessage out.frames) []
        out.captured.1 with
    | none => (.stuck, effects)
    | some (.error, streamer, sent) =>
        finishSession setup ctx out { loop with streamer } (effects ++ sent)
    | some (.lost, streamer, sent) =>
        (.live ctx { loop with streamer, captureOk := out.captureReady },
          effects ++ sent ++
            [.captureInitialize setup.monitor out.captureReady])
    | some (_, streamer, sent) =>
        (.live ctx { loop with streamer }, effects ++ sent)
  else
    (.live ctx loop, effects)

/-- One pass of the event loop. -/
def liveTurn
    (ctx : SessionContext)
    (loop : LoopState)
    (turn : Turn) : SessionPhase × List Effect :=
  if !turn.running then
    finishSession setup ctx turn.outside loop []
  else
    match turn.read with
    | .closed => finishSession setup ctx turn.outside loop []
    | .timeout => streamTurn setup ctx turn.outside loop []
    | .ok m =>
        match handle sha256 setup ctx turn.outside loop m with
        | .error error => (.terminated error, [.received m])
        | .ok outcome =>
            let effects := .received m :: outcome.effects
            if !outcome.goOn then
              finishSession setup ctx turn.outside outcome.loop effects
            else
              streamTurn setup ctx turn.outside outcome.loop effects

/-- What one turn does in each phase. -/
def SessionPhase.turn (phase : SessionPhase) (turn : Turn) :
    SessionPhase × List Effect :=
  match phase with
  | .handshake =>
      if turn.handshake then
        (.hello, [])
      else
        leave [.audit (.auth (ascii "-") setup.peerStr false
          (ascii "tls_handshake_failed"))]
  | .hello => helloTurn turn
  | .auth => authTurn setup turn
  | .mode user rights => modeTurn setup user rights turn
  | .live ctx loop => liveTurn sha256 setup ctx loop turn
  | .closed unfinished => (.closed unfinished, [])
  | .terminated error => (.terminated error, [])
  | .stuck => (.stuck, [])

/-- What one turn does. -/
def turnEffects (session : Session) (turn : Turn) : List Effect :=
  (session.phase.turn sha256 setup turn).2

/-- The session after one more turn. -/
def Session.step (session : Session) (turn : Turn) : Session :=
  match session.phase.turn sha256 setup turn with
  | (phase, effects) => { phase, trace := session.trace ++ effects }

/-- The session after a run of turns. -/
def Session.run (turns : List Turn) : Session :=
  StepRuns.run (Session.step sha256 setup) {} turns

end Turns

end RadminPro
