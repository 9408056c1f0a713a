import RadminPro.CommandRuns

namespace RadminPro

open ByteCodec

/-!
# What becomes of a file command

The call of a client that has been let in is done and returns true, or it is
refused, returns false and leaves both disks as they were.
-/

/-! ## What the user asked for -/

namespace ClientCall

/-- The answers to the call's first request let it be done. -/
def Doable
    (out : Outside)
    (root : Path)
    (localFiles files : Files) : ClientCall → Prop
  | .uploadFile localPath remotePath =>
      (localFiles localPath).isSome ∧
        (resolveInRoot out root remotePath).isSome
  | .downloadFile remotePath _ =>
      ∃ src, resolveInRoot out root remotePath = some src ∧ (files src).isSome
  | .deleteRemote path =>
      (resolveInRoot out root path).isSome ∧ out.removed = true
  | .moveRemote src dst =>
      (resolveInRoot out root src).isSome ∧
        (resolveInRoot out root dst).isSome ∧ out.renamed = true

/-- What has become of the two disks when it has been done. -/
def Done
    (out : Outside)
    (root : Path)
    (localFiles files localFiles' files' : Files) : ClientCall → Prop
  | .uploadFile localPath remotePath =>
      localFiles' = localFiles ∧
        ∃ dest content,
          resolveInRoot out root remotePath = some dest ∧
            localFiles localPath = some content ∧
            files' dest = some content ∧
            ∀ path,
              path ≠ dest →
              path ≠ dest ++ ascii ".part" → files' path = files path
  | .downloadFile remotePath localPath =>
      files' = files ∧
        ∃ src content,
          resolveInRoot out root remotePath = some src ∧
            files src = some content ∧
            localFiles' localPath = some content ∧
            ∀ path, path ≠ localPath → localFiles' path = localFiles path
  | .deleteRemote path =>
      localFiles' = localFiles ∧
        ∃ target,
          resolveInRoot out root path = some target ∧
            files' = FileStore.apply files (.remove target)
  | .moveRemote src dst =>
      localFiles' = localFiles ∧
        ∃ source target content,
          resolveInRoot out root src = some source ∧
            resolveInRoot out root dst = some target ∧
            files source = some content ∧
            files' =
              Function.update (Function.update files source none) target
                (some content)

/-- The request of the call fits a frame, and so does the verdict on it. -/
def Fits
    (sha256 : Bytes → Hash256)
    (out : Outside)
    (localFiles : Files) : ClientCall → Prop
  | .uploadFile localPath remotePath =>
      ∀ content,
        localFiles localPath = some content →
        withinCap (uploadRequest sha256 remotePath content).encode = true
  | .downloadFile remotePath _ => withinCap (putString remotePath) = true
  | .deleteRemote path =>
      withinCap (FileDeleteMsg.encode ⟨path⟩) = true ∧
        withinCap (FileOpResultMsg.encode ⟨.known .ok, out.errorText⟩) = true
  | .moveRemote src dst =>
      withinCap (FileMoveMsg.encode ⟨src, dst⟩) = true ∧
        withinCap (FileOpResultMsg.encode ⟨.known .ok, out.errorText⟩) = true

/-- The disks do what a transfer asks of them, and what is moved is a file. -/
def Unhindered
    (answers : Nat → Outside)
    (localAnswers : Nat → LocalAnswer)
    (root : Path)
    (localFiles files : Files) : ClientCall → Prop
  | .uploadFile localPath _ =>
      ∀ content,
        localFiles localPath = some content →
        ∀ n, Unfailing content.length (answers n)
  | .downloadFile remotePath _ =>
      ∀ src content,
        resolveInRoot (answers 0) root remotePath = some src →
        files src = some content →
        ∀ n,
          Unfailing content.length (answers n) ∧
            (localAnswers n).Unfailing content.length
  | .deleteRemote _ => True
  | .moveRemote src _ =>
      (answers 0).renamed = true →
      ∀ source,
        resolveInRoot (answers 0) root src = some source →
        (files source).isSome = true

end ClientCall

/-- What a call has come to. -/
structure ClientCall.Concludes
    (out : Outside)
    (root : Path)
    (localFiles files : Files)
    (call : ClientCall)
    (ok : Bool)
    (localFiles' files' : Files) : Prop where
  ok_iff : ok = true ↔ call.Doable out root localFiles files
  done : ok = true → call.Done out root localFiles files localFiles' files'
  untouched : ok = false → localFiles' = localFiles ∧ files' = files

section Calls

variable {sha256 : Bytes → Hash256}
variable {setup : SessionSetup}
variable {early : EarlyAnswers}
variable {ctx : SessionContext}
variable {answers : Nat → Outside}
variable {localAnswers : Nat → LocalAnswer}
variable {cfg : ClientConfig}
variable {call : ClientCall}

/-- A request is answered by one message. -/
theorem reaches_answered
    {state next : CallState}
    {m answer : Message}
    {receive : Message → CallState}
    {loop : LoopState}
    {files : Files}
    {handled : Nat}
    {outcome : Outcome}
    (unseen : ctx.canView = false)
    (going : state.verdict? = none)
    (writes : state.action sha256 localAnswers = .go [m] next)
    (result :
      handle sha256 setup ctx ((answers handled).onDisk setup.fileRoot files m)
          loop m =
        .ok outcome)
    (goOn : outcome.goOn = true)
    (sent : sentMessages outcome.effects = [answer])
    (waiting : next.verdict? = none)
    (reads : next.action sha256 localAnswers = .wait receive)
    (localFiles : Files)
    (trace : List Effect) :
    CommandReaches sha256 setup early answers localAnswers
      (serving cfg call localFiles state
        ⟨⟨.live ctx loop, trace⟩, files, [], handled⟩)
      (serving cfg call localFiles (receive answer)
        ⟨⟨.live ctx outcome.loop, trace ++ .received m :: outcome.effects⟩,
          filesAfter files outcome.effects, [], handled + 1⟩) := by
  let server : ServerEnd := ⟨⟨.live ctx loop, trace⟩, files, [], handled⟩
  let after : ServerEnd :=
    ⟨⟨.live ctx outcome.loop, trace ++ .received m :: outcome.effects⟩,
      filesAfter files outcome.effects, [], handled + 1⟩
  have written :
      CommandReaches sha256 setup early answers localAnswers
        (serving cfg call localFiles state server)
        ⟨.during cfg call localFiles next, { server }, [some m], []⟩ :=
    (FifoLink.leads_left_go
      (action_during_go cfg call going writes localFiles)).reaches
  have taken :
      FifoLink.move (ClientProcess.action sha256 localAnswers)
          (SessionSide.action sha256 setup early answers)
          ⟨.during cfg call localFiles next, { server }, [some m], []⟩ .right =
        some
          ⟨.during cfg call localFiles next,
            { server := { after with outbox := [answer] } }, [], []⟩ := by
    have receives :
        server.receive sha256 setup answers m =
          { after with outbox := sentMessages outcome.effects } :=
      receive_handled unseen result goOn
    rw [sent] at receives
    simp only [FifoLink.move, FifoLink.advance, SessionSide.action, server]
    rw [← receives]
    rfl
  have answered :
      CommandReaches sha256 setup early answers localAnswers
        ⟨.during cfg call localFiles next,
          { server := { after with outbox := [answer] } }, [], []⟩
        ⟨.during cfg call localFiles next, { server := after }, [],
          [some answer]⟩ :=
    reaches_outbox [answer] [] []
  have received :
      CommandReaches sha256 setup early answers localAnswers
        ⟨.during cfg call localFiles next, { server := after }, [],
          [some answer]⟩
        (serving cfg call localFiles (receive answer) after) :=
    (FifoLink.leads_left_wait
      (action_during_wait cfg call waiting reads localFiles)
      (some answer)).reaches
  exact ((written.trans ⟨1, .onward .right taken (.refl _)⟩).trans
    answered).trans received

/-- From here on the call is concluded and both end. -/
def CallConcluded
    (sha256 : Bytes → Hash256)
    (setup : SessionSetup)
    (early : EarlyAnswers)
    (answers : Nat → Outside)
    (localAnswers : Nat → LocalAnswer)
    (cfg : ClientConfig)
    (call : ClientCall)
    (localFiles files : Files)
    (start : CommandLink) : Prop :=
  ∃ ok localFiles' files' final,
    CommandReaches sha256 setup early answers localAnswers start final ∧
      BothEnded cfg call (if ok then 0 else 1) localFiles' files' final ∧
      call.Concludes (answers 0) setup.fileRoot localFiles files ok localFiles'
        files'

/-- It is when the call has returned. -/
theorem CallConcluded.of_returned
    {localFiles files files' : Files}
    {start : CommandLink}
    {state : CallState}
    {app : ClientApp}
    {ok : Bool}
    {loop : LoopState}
    {trace : List Effect}
    {handled : Nat}
    (reaches :
      CommandReaches sha256 setup early answers localAnswers start
        (serving cfg call localFiles state
          ⟨⟨.live ctx loop, trace⟩, files', [], handled⟩))
    (returned : state.verdict? = some (app, ok))
    (noUploads : NoUploads loop)
    (concludes :
      call.Concludes (answers 0) setup.fileRoot localFiles files ok app.files
        files') :
    CallConcluded sha256 setup early answers localAnswers cfg call localFiles files
      start := by
  obtain ⟨final, further, ended⟩ :=
    reaches_ended returned noUploads localFiles trace files' handled
  exact ⟨ok, app.files, files', final, reaches.trans further, ended, concludes⟩

/-! ## Verdicts -/

/-- The verdict on an operation. -/
def opResult (status : FileOpStatus) (text : Bytes) : Message where
  op := .known .fileOpResult
  payload := FileOpResultMsg.encode ⟨status, text⟩

/-- A verdict that fits a frame is read. -/
theorem decode_opResult
    {status : FileOpStatus}
    {text : Bytes}
    (fits : withinCap (opResult status text).payload = true) :
    FileOpResultMsg.decode (opResult status text).payload =
      .ok ⟨status, text⟩ := by
  have short := length_lt_of_withinCap fits
  apply FileOpResultMsg.decode_ok_iff.mpr
  simp only [opResult, FileOpResultMsg.encode, List.length_append,
    length_putString] at short
  exact ⟨by dsimp only; omega, [], by simp [opResult]⟩

/-- An upload that is refused returns false. -/
theorem uploadAnswered_opResult
    {status : FileOpStatus}
    {text : Bytes}
    (fits : withinCap (opResult status text).payload = true)
    (content : Bytes) :
    ClientApp.uploadAnswered content (some (opResult status text)) =
      .returned false := by
  have isResult : (opResult status text).op = .known .fileOpResult :=
    rfl
  simp only [ClientApp.uploadAnswered, isResult, ↓reduceIte, ClientApp.rejected,
    decode_opResult fits]

/-- So does a download. -/
theorem downloadAnswered_opResult
    {status : FileOpStatus}
    {text : Bytes}
    (fits : withinCap (opResult status text).payload = true)
    (app : ClientApp)
    (answer : LocalAnswer)
    (localPath : Path) :
    app.downloadAnswered answer localPath (some (opResult status text)) =
      { app with phase := .returned false } := by
  have isResult : (opResult status text).op = .known .fileOpResult :=
    rfl
  simp only [ClientApp.downloadAnswered, isResult, ↓reduceIte,
    ClientApp.rejected, decode_opResult fits]

/-- A deletion and a move return what the verdict says. -/
theorem opResultReceived_opResult
    {status : FileOpStatus}
    {text : Bytes}
    (fits : withinCap (opResult status text).payload = true) :
    ClientApp.opResultReceived (some (opResult status text)) =
      .returned (status = .known .ok) := by
  have isResult : (opResult status text).op = .known .fileOpResult :=
    rfl
  simp only [ClientApp.opResultReceived, isResult, ne_eq, not_true_eq_false,
    ↓reduceIte, decode_opResult fits]

/-- The verdict is put on the wire. -/
theorem sent_opResult
    {out : Outside}
    (reliable : out.replies 0 = true)
    {status : FileOpStatus}
    {text : Bytes}
    (fits : withinCap (opResult status text).payload = true) :
    sentMessages (sendOpResult out status text) = [opResult status text] := by
  have payload :
      (opResult status text).payload = FileOpResultMsg.encode ⟨status, text⟩ :=
    rfl
  rw [payload] at fits
  rw [sendOpResult, reply_eq, fits, reliable]
  rfl

/-- It touches no file. -/
theorem untouched_opResult
    (out : Outside)
    (status : FileOpStatus)
    (text : Bytes) :
    ∀ effect ∈ sendOpResult out status text, effect.change? = none := by
  intro effect member
  obtain ⟨ok, rfl⟩ := mem_reply member
  rfl

/-- The length of a verdict does not depend on its status. -/
theorem withinCap_opResult
    (status other : FileOpStatus)
    (text : Bytes) :
    withinCap (opResult status text).payload =
      withinCap (opResult other text).payload := by
  simp only [withinCap, opResult, FileOpResultMsg.encode, List.length_append,
    length_putU8]

/-! ## The four calls -/

section Serving

variable {loop : LoopState}
variable {files localFiles : Files}

/-- The text of a rejected path fits a frame. -/
theorem withinCap_pathRejected :
    withinCap (opResult (.known .badPath) (ascii "path rejected")).payload =
      true := by
  decide +kernel

/-- A request that is refused is answered and leaves the server as it is. -/
theorem reaches_refusal
    {state next : CallState}
    {m : Message}
    {receive : Message → CallState}
    {effects : List Effect}
    {status : FileOpStatus}
    {text : Bytes}
    (ready : Ready ctx loop)
    (going : state.verdict? = none)
    (writes : state.action sha256 localAnswers = .go [m] next)
    (result :
      handle sha256 setup ctx ((answers 0).onDisk setup.fileRoot files m) loop m =
        .ok { loop, effects })
    (sent : sentMessages effects = [opResult status text])
    (untouched : ∀ effect ∈ effects, effect.change? = none)
    (waiting : next.verdict? = none)
    (reads : next.action sha256 localAnswers = .wait receive)
    (trace : List Effect) :
    ∃ trace',
      CommandReaches sha256 setup early answers localAnswers
        (serving cfg call localFiles state
          ⟨⟨.live ctx loop, trace⟩, files, [], 0⟩)
        (serving cfg call localFiles (receive (opResult status text))
          ⟨⟨.live ctx loop, trace'⟩, files, [], 1⟩) := by
  have answered :
      CommandReaches sha256 setup early answers localAnswers
        (serving cfg call localFiles state
          ⟨⟨.live ctx loop, trace⟩, files, [], 0⟩)
        (serving cfg call localFiles (receive (opResult status text))
          ⟨⟨.live ctx loop, trace ++ .received m :: effects⟩,
            filesAfter files effects, [], 1⟩) :=
    reaches_answered ready.unseen going writes result rfl sent waiting reads
      localFiles trace
  rw [filesAfter_unchanged files untouched] at answered
  exact ⟨_, answered⟩

/-- So is one for a path that is rejected. -/
theorem reaches_rejected
    {state next : CallState}
    {m : Message}
    {receive : Message → CallState}
    {action : AuditAction}
    {target : Bytes}
    (ready : Ready ctx loop)
    (reliable : (answers 0).replies 0 = true)
    (going : state.verdict? = none)
    (writes : state.action sha256 localAnswers = .go [m] next)
    (result :
      handle sha256 setup ctx ((answers 0).onDisk setup.fileRoot files m) loop m =
        .ok
          (pathRejected setup ctx
            ((answers 0).onDisk setup.fileRoot files m) loop action target))
    (waiting : next.verdict? = none)
    (reads : next.action sha256 localAnswers = .wait receive)
    (trace : List Effect) :
    ∃ trace',
      CommandReaches sha256 setup early answers localAnswers
        (serving cfg call localFiles state
          ⟨⟨.live ctx loop, trace⟩, files, [], 0⟩)
        (serving cfg call localFiles
          (receive (opResult (.known .badPath) (ascii "path rejected")))
          ⟨⟨.live ctx loop, trace'⟩, files, [], 1⟩) :=
  reaches_refusal ready going writes result
    (sent_opResult reliable withinCap_pathRejected)
    (List.forall_mem_cons.mpr ⟨rfl, untouched_opResult _ _ _⟩) waiting reads trace

/-- What a transfer writes if it fits a frame. -/
theorem writes_transmit
    {app : ClientApp}
    {op : OpName}
    {payload : Bytes}
    (next : Bool → TransferPhase)
    (act : app.action sha256 localAnswers = app.transmit op payload next)
    (fits : withinCap payload = true) :
    (CallState.transfer app).action sha256 localAnswers =
      .go [⟨.known op, payload⟩]
        (.transfer { app with phase := next true }) := by
  simp [CallState.action, act, ClientApp.transmit, fits, FifoLink.Action.map]

/-! ### Requests for paths outside the sandbox -/

section Rejections

variable {out : Outside}

/-- An upload to such a path is rejected. -/
theorem handle_upload_rejected
    {remotePath content : Bytes}
    (permitted : ctx.canTransfer = true)
    (fits : withinCap (uploadRequest sha256 remotePath content).encode = true)
    (resolved : resolveInRoot out setup.fileRoot remotePath = none) :
    handle sha256 setup ctx out loop
        ⟨.known .fileUploadReq,
          (uploadRequest sha256 remotePath content).encode⟩ =
      .ok (pathRejected setup ctx out loop .fileUpload remotePath) := by
  let req := uploadRequest sha256 remotePath content
  have short := length_lt_of_withinCap fits
  have decoded : FileUploadReqMsg.decode req.encode = .ok req := by
    refine FileUploadReqMsg.decode_ok_iff.mpr ⟨?_, [], by simp⟩
    simp only [FileUploadReqMsg.encode, List.length_append, length_putString]
      at short
    change remotePath.length < 2 ^ 32
    change 4 + remotePath.length + _ + _ < _ at short
    omega
  have rejected : resolveInRoot out setup.fileRoot req.remotePath = none :=
    resolved
  simp only [handle, handleFileUploadReq, permitted, bind, Except.bind,
    Bool.not_true, Bool.false_eq_true, ↓reduceIte]
  rw [decoded]
  dsimp only
  rw [rejected]
  rfl

/-- The path of a download that fits a frame is read. -/
theorem decode_downloadReq
    {remotePath : Bytes}
    (fits : withinCap (putString remotePath) = true) :
    parseAll ByteReader.str (putString remotePath) = .ok remotePath := by
  have short := length_lt_of_withinCap fits
  apply (parseAll_ok_iff ByteReader.str_reads).mpr
  refine ⟨_, ⟨rfl, ?_⟩, [], by simp⟩
  rw [length_putString] at short
  exact Nat.lt_of_le_of_lt (Nat.le_add_left _ _) short

/-- A download from such a path is rejected. -/
theorem handle_download_rejected
    {remotePath : Bytes}
    (permitted : ctx.canTransfer = true)
    (fits : withinCap (putString remotePath) = true)
    (resolved : resolveInRoot out setup.fileRoot remotePath = none) :
    handle sha256 setup ctx out loop
        ⟨.known .fileDownloadReq, putString remotePath⟩ =
      .ok (pathRejected setup ctx out loop .fileDownload remotePath) := by
  simp [handle, handleFileDownloadReq, permitted, decode_downloadReq fits,
    resolved, bind, Except.bind, pure, Except.pure]

/-- One of a file that is not there is refused. -/
theorem handle_download_missing
    {remotePath : Bytes}
    {src : Path}
    (permitted : ctx.canTransfer = true)
    (fits : withinCap (putString remotePath) = true)
    (resolved : resolveInRoot out setup.fileRoot remotePath = some src)
    (missing : out.content = none) :
    handle sha256 setup ctx out loop
        ⟨.known .fileDownloadReq, putString remotePath⟩ =
      .ok
        { loop
          effects :=
            .readFile src none ::
              sendOpResult out (.known .notFound) (ascii "no such file") } := by
  simp [handle, handleFileDownloadReq, permitted, decode_downloadReq fits,
    resolved, missing, bind, Except.bind, pure, Except.pure]

/-- The paths of a deletion and of a move that fit a frame are read. -/
theorem decode_deleteReq
    {path : Bytes}
    (fits : withinCap (FileDeleteMsg.encode ⟨path⟩) = true) :
    FileDeleteMsg.decode (FileDeleteMsg.encode ⟨path⟩) = .ok ⟨path⟩ := by
  have short := length_lt_of_withinCap fits
  refine FileDeleteMsg.decode_ok_iff.mpr ⟨?_, [], by simp⟩
  simp only [FileDeleteMsg.encode, length_putString] at short
  exact Nat.lt_of_le_of_lt (Nat.le_add_left _ _) short

theorem decode_moveReq
    {src dst : Bytes}
    (fits : withinCap (FileMoveMsg.encode ⟨src, dst⟩) = true) :
    FileMoveMsg.decode (FileMoveMsg.encode ⟨src, dst⟩) = .ok ⟨src, dst⟩ := by
  have short := length_lt_of_withinCap fits
  simp only [FileMoveMsg.encode, List.length_append, length_putString] at short
  refine FileMoveMsg.decode_ok_iff.mpr ⟨?_, ?_, [], by simp⟩
  · dsimp only
    omega
  · dsimp only
    omega

/-- A deletion outside the sandbox is rejected. -/
theorem handle_delete_rejected
    {path : Bytes}
    (permitted : ctx.canTransfer = true)
    (fits : withinCap (FileDeleteMsg.encode ⟨path⟩) = true)
    (resolved : resolveInRoot out setup.fileRoot path = none) :
    handle sha256 setup ctx out loop
        ⟨.known .fileDelete, FileDeleteMsg.encode ⟨path⟩⟩ =
      .ok (pathRejected setup ctx out loop .fileDelete path) := by
  simp [handle, handleFileDelete, permitted, decode_deleteReq fits, resolved,
    bind, Except.bind, pure, Except.pure]

/-- One within the sandbox is tried. -/
theorem handle_delete_tried
    (sha256 : Bytes → Hash256)
    (out : Outside)
    (loop : LoopState)
    {path : Bytes}
    {target : Path}
    (permitted : ctx.canTransfer = true)
    (fits : withinCap (FileDeleteMsg.encode ⟨path⟩) = true)
    (resolved : resolveInRoot out setup.fileRoot path = some target) :
    ∃ row,
      handle sha256 setup ctx out loop
          ⟨.known .fileDelete, FileDeleteMsg.encode ⟨path⟩⟩ =
        .ok
          { loop
            effects :=
              .remove target out.removed ::
                .audit row ::
                  sendOpResult out
                    (if out.removed then .known .ok else .known .notFound)
                    out.errorText } := by
  refine ⟨.fileOp .fileDelete ctx.user setup.peerStr target
    (if out.removed then ascii "OK" else ascii "FAIL") out.errorText, ?_⟩
  simp [handle, handleFileDelete, permitted, decode_deleteReq fits, resolved,
    bind, Except.bind, pure, Except.pure, auditFileOp]

/-- A move from or to outside the sandbox is rejected. -/
theorem handle_move_rejected
    {src dst : Bytes}
    (permitted : ctx.canTransfer = true)
    (fits : withinCap (FileMoveMsg.encode ⟨src, dst⟩) = true)
    (resolved :
      ¬((resolveInRoot out setup.fileRoot src).isSome ∧
        (resolveInRoot out setup.fileRoot dst).isSome)) :
    handle sha256 setup ctx out loop
        ⟨.known .fileMove, FileMoveMsg.encode ⟨src, dst⟩⟩ =
      .ok
        (pathRejected setup ctx out loop .fileMove
          (src ++ ascii " -> " ++ dst)) := by
  simp only [handle, handleFileMove, permitted, decode_moveReq fits,
    Bool.not_true, Bool.false_eq_true, ↓reduceIte, bind, Except.bind]
  split
  · next source target isSource isTarget =>
      exact (resolved ⟨by rw [isSource]; rfl, by rw [isTarget]; rfl⟩).elim
  · rfl

/-- One within the sandbox is tried. -/
theorem handle_move_tried
    (sha256 : Bytes → Hash256)
    (out : Outside)
    (loop : LoopState)
    {src dst : Bytes}
    {source target : Path}
    (permitted : ctx.canTransfer = true)
    (fits : withinCap (FileMoveMsg.encode ⟨src, dst⟩) = true)
    (isSource : resolveInRoot out setup.fileRoot src = some source)
    (isTarget : resolveInRoot out setup.fileRoot dst = some target) :
    ∃ row,
      handle sha256 setup ctx out loop
          ⟨.known .fileMove, FileMoveMsg.encode ⟨src, dst⟩⟩ =
        .ok
          { loop
            effects :=
              .rename source target out.renamed ::
                .audit row ::
                  sendOpResult out
                    (if out.renamed then .known .ok else .known .ioError)
                    out.errorText } := by
  refine ⟨.fileOp .fileMove ctx.user setup.peerStr
    (source ++ ascii " -> " ++ target)
    (if out.renamed then ascii "OK" else ascii "FAIL") out.errorText, ?_⟩
  simp [handle, handleFileMove, permitted, decode_moveReq fits, isSource,
    isTarget, bind, Except.bind, pure, Except.pure, auditFileOp]

end Rejections

/-- An upload is concluded. -/
theorem concluded_upload
    {localPath : Path}
    {remotePath : Bytes}
    (ready : Ready ctx loop)
    (noUploads : NoUploads loop)
    (reliable : ∀ n k, (answers n).replies k = true)
    (trace : List Effect)
    (isUpload : call = .uploadFile localPath remotePath)
    (fits : call.Fits sha256 (answers 0) localFiles)
    (unhindered :
      call.Unhindered answers localAnswers setup.fileRoot localFiles files) :
    CallConcluded sha256 setup early answers localAnswers cfg call localFiles files
      (serving cfg call localFiles
        (call.begin { phase := .returned false, files := localFiles })
        ⟨⟨.live ctx loop, trace⟩, files, [], 0⟩) := by
  subst isUpload
  cases present : localFiles localPath with
  | none =>
      -- The local file is not there; nothing is asked of the server.
      have returned :
          (ClientCall.begin { phase := .returned false, files := localFiles }
              (.uploadFile localPath remotePath)).verdict? =
            some
              ({ phase := .returned false, files := localFiles }, false) := by
        simp [ClientCall.begin, ClientApp.uploadFile, present,
          CallState.verdict?]
      refine .of_returned (.refl _) returned noUploads
        ⟨iff_of_false (by simp) ?_, by simp, fun _ => ⟨rfl, rfl⟩⟩
      simp [ClientCall.Doable, present]
  | some content =>
      have requestFits := fits content present
      have starts :
          ClientCall.begin { phase := .returned false, files := localFiles }
              (.uploadFile localPath remotePath) =
            .transfer ⟨.requestingUpload content remotePath, localFiles, 0⟩ := by
        simp [ClientCall.begin, ClientApp.uploadFile, present]
      cases resolved : resolveInRoot (answers 0) setup.fileRoot remotePath with
      | none =>
          have writes :
              (CallState.transfer
                    ⟨.requestingUpload content remotePath, localFiles, 0⟩).action
                  sha256 localAnswers =
                .go
                  [⟨.known .fileUploadReq,
                    (uploadRequest sha256 remotePath content).encode⟩]
                  (.transfer ⟨.uploadRequested content, localFiles, 0⟩) :=
            writes_transmit (fun _ => .uploadRequested content) rfl requestFits
          have reads :
              (CallState.transfer
                    ⟨.uploadRequested content, localFiles, 0⟩).action
                  sha256 localAnswers =
                .wait fun m =>
                  .transfer
                    ⟨ClientApp.uploadAnswered content (some m), localFiles, 0⟩ :=
            rfl
          obtain ⟨trace', refused⟩ :=
            reaches_rejected ready (reliable 0 0) rfl writes
              (handle_upload_rejected ready.permitted requestFits resolved)
              rfl reads trace
          rw [uploadAnswered_opResult withinCap_pathRejected] at refused
          rw [starts]
          refine .of_returned refused rfl noUploads
            ⟨iff_of_false (by simp) ?_, by simp, fun _ => ⟨rfl, rfl⟩⟩
          simp [ClientCall.Doable, resolved]
      | some dest =>
          obtain ⟨moves, _, answered, loop', trace', files', handled', leads, _,
            uploads, stored, spared⟩ :=
            upload_leads localAnswers trace ready (unhindered content present)
              resolved requestFits present
          have within :
              CommandReaches sha256 setup early answers localAnswers
                (Connection.within cfg (.uploadFile localPath remotePath)
                  localFiles
                  ⟨.uploadFile localFiles localPath remotePath,
                    ⟨⟨.live ctx loop, trace⟩, files, [], 0⟩, [], []⟩)
                (Connection.within cfg (.uploadFile localPath remotePath)
                  localFiles
                  ⟨⟨.returned true, localFiles, answered⟩,
                    ⟨⟨.live ctx loop', trace'⟩, files', [], handled'⟩, [], []⟩) :=
            reaches_within leads rfl rfl localFiles
          have noneLeft : NoUploads loop' := by
            intro id
            rw [uploads id]
            exact noUploads id
          refine .of_returned within rfl noneLeft
            ⟨iff_of_true rfl ?_, fun _ => ?_, by simp⟩
          · simp [ClientCall.Doable, present, resolved]
          · exact ⟨rfl, dest, content, resolved, present, stored, spared⟩

/-- So is a download. -/
theorem concluded_download
    {remotePath : Bytes}
    {localPath : Path}
    (ready : Ready ctx loop)
    (noUploads : NoUploads loop)
    (reliable : ∀ n k, (answers n).replies k = true)
    (trace : List Effect)
    (isDownload : call = .downloadFile remotePath localPath)
    (fits : call.Fits sha256 (answers 0) localFiles)
    (unhindered :
      call.Unhindered answers localAnswers setup.fileRoot localFiles files) :
    CallConcluded sha256 setup early answers localAnswers cfg call localFiles files
      (serving cfg call localFiles
        (call.begin { phase := .returned false, files := localFiles })
        ⟨⟨.live ctx loop, trace⟩, files, [], 0⟩) := by
  subst isDownload
  have requestFits : withinCap (putString remotePath) = true :=
    fits
  let asked : ClientApp := ⟨.downloadRequested localPath, localFiles, 0⟩
  have writes :
      (CallState.transfer
            ⟨.requestingDownload remotePath localPath, localFiles, 0⟩).action
          sha256 localAnswers =
        .go [⟨.known .fileDownloadReq, putString remotePath⟩]
          (.transfer asked) :=
    writes_transmit (fun _ => .downloadRequested localPath) rfl requestFits
  have reads :
      (CallState.transfer asked).action sha256 localAnswers =
        .wait fun m =>
          .transfer
            (asked.downloadAnswered (localAnswers 0) localPath (some m)) :=
    rfl
  let out :=
    (answers 0).onDisk setup.fileRoot files
      ⟨.known .fileDownloadReq, putString remotePath⟩
  cases resolved : resolveInRoot (answers 0) setup.fileRoot remotePath with
  | none =>
      obtain ⟨trace', refused⟩ :=
        reaches_rejected ready (reliable 0 0) rfl writes
          (handle_download_rejected ready.permitted requestFits resolved) rfl
          reads trace
      rw [downloadAnswered_opResult withinCap_pathRejected] at refused
      refine .of_returned refused rfl noUploads
        ⟨iff_of_false (by simp) ?_, by simp, fun _ => ⟨rfl, rfl⟩⟩
      simp [ClientCall.Doable, resolved]
  | some src =>
      have requested :
          requestedPaths (answers 0) setup.fileRoot
              ⟨.known .fileDownloadReq, putString remotePath⟩ =
            [src] := by
        simp [requestedPaths, decode_downloadReq requestFits, resolved]
      cases present : files src with
      | none =>
          have missing : out.content = none := by
            simp [out, Outside.onDisk, requested, present]
          have textFits :
              withinCap
                  (opResult (.known .notFound) (ascii "no such file")).payload =
                true := by
            decide +kernel
          have sent :
              sentMessages
                  (.readFile src none ::
                    sendOpResult out (.known .notFound) (ascii "no such file")) =
                [opResult (.known .notFound) (ascii "no such file")] :=
            sent_opResult (reliable 0 0) textFits
          obtain ⟨trace', refused⟩ :=
            reaches_refusal ready rfl writes
              (handle_download_missing ready.permitted requestFits resolved
                missing)
              sent
              (List.forall_mem_cons.mpr ⟨rfl, untouched_opResult _ _ _⟩) rfl
              reads trace
          rw [downloadAnswered_opResult textFits] at refused
          refine .of_returned refused rfl noUploads
            ⟨iff_of_false (by simp) ?_, by simp, fun _ => ⟨rfl, rfl⟩⟩
          simp [ClientCall.Doable, resolved, present]
      | some content =>
          have unfailing := unhindered src content resolved present
          obtain ⟨moves, _, localFiles', answered, loop', trace', handled',
            leads, _, uploads, stored, spared⟩ :=
            download_leads sha256 trace ready (fun n => (unfailing n).1)
              (fun n => (unfailing n).2) resolved requestFits present
          have within :
              CommandReaches sha256 setup early answers localAnswers
                (Connection.within cfg (.downloadFile remotePath localPath)
                  localFiles
                  ⟨.downloadFile localFiles remotePath localPath,
                    ⟨⟨.live ctx loop, trace⟩, files, [], 0⟩, [], []⟩)
                (Connection.within cfg (.downloadFile remotePath localPath)
                  localFiles
                  ⟨⟨.returned true, localFiles', answered⟩,
                    ⟨⟨.live ctx loop', trace'⟩, files, [], handled'⟩, [], []⟩) :=
            reaches_within leads rfl rfl localFiles
          have noneLeft : NoUploads loop' := by
            intro id
            rw [uploads id]
            exact noUploads id
          refine .of_returned within rfl noneLeft
            ⟨iff_of_true rfl ⟨src, resolved, by simp [present]⟩, fun _ => ?_,
              by simp⟩
          exact ⟨rfl, src, content, resolved, present, stored, spared⟩

/-- What a deletion or a move reads is its verdict. -/
theorem reads_opResult
    (app : ClientApp) :
    (CallState.resultAwaited app).action sha256 localAnswers =
      .wait fun m =>
        .transfer { app with phase := ClientApp.opResultReceived (some m) } :=
  rfl

/-- A deletion or a move that is rejected is concluded. -/
theorem concluded_rejected
    {op : OpName}
    {payload target : Bytes}
    {action : AuditAction}
    (ready : Ready ctx loop)
    (noUploads : NoUploads loop)
    (reliable : ∀ n k, (answers n).replies k = true)
    (trace : List Effect)
    (begins :
      call.begin { phase := .returned false, files := localFiles } =
        .requesting { phase := .returned false, files := localFiles } op payload)
    (fits : withinCap payload = true)
    (result :
      handle sha256 setup ctx
          ((answers 0).onDisk setup.fileRoot files ⟨.known op, payload⟩) loop
          ⟨.known op, payload⟩ =
        .ok
          (pathRejected setup ctx
            ((answers 0).onDisk setup.fileRoot files ⟨.known op, payload⟩) loop
            action target))
    (notDoable : ¬call.Doable (answers 0) setup.fileRoot localFiles files) :
    CallConcluded sha256 setup early answers localAnswers cfg call localFiles files
      (serving cfg call localFiles
        (call.begin { phase := .returned false, files := localFiles })
        ⟨⟨.live ctx loop, trace⟩, files, [], 0⟩) := by
  let app : ClientApp := { phase := .returned false, files := localFiles }
  have writes :
      (CallState.requesting app op payload).action sha256 localAnswers =
        .go [⟨.known op, payload⟩] (.resultAwaited app) := by
    simp [CallState.action, fits]
  rw [begins]
  obtain ⟨trace', refused⟩ :=
    reaches_rejected ready (reliable 0 0) rfl writes result rfl
      (reads_opResult app) trace
  rw [opResultReceived_opResult withinCap_pathRejected] at refused
  exact .of_returned refused rfl noUploads
    ⟨iff_of_false (by simp) notDoable, by simp, fun _ => ⟨rfl, rfl⟩⟩

/-- So is one that is tried, with whatever it has come to. -/
theorem concluded_tried
    {op : OpName}
    {payload : Bytes}
    {effect : Effect}
    {row : AuditEvent}
    {status : FileOpStatus}
    (ready : Ready ctx loop)
    (noUploads : NoUploads loop)
    (reliable : ∀ n k, (answers n).replies k = true)
    (trace : List Effect)
    (begins :
      call.begin { phase := .returned false, files := localFiles } =
        .requesting { phase := .returned false, files := localFiles } op payload)
    (fits : withinCap payload = true)
    (textFits :
      withinCap (FileOpResultMsg.encode ⟨.known .ok, (answers 0).errorText⟩) =
        true)
    (result :
      handle sha256 setup ctx
          ((answers 0).onDisk setup.fileRoot files ⟨.known op, payload⟩) loop
          ⟨.known op, payload⟩ =
        .ok
          { loop
            effects :=
              effect ::
                .audit row ::
                  sendOpResult
                    ((answers 0).onDisk setup.fileRoot files
                      ⟨.known op, payload⟩)
                    status (answers 0).errorText })
    (silent : sentMessages [effect] = [])
    (concludes :
      call.Concludes (answers 0) setup.fileRoot localFiles files
        (decide (status = .known .ok)) localFiles (filesAfter files [effect])) :
    CallConcluded sha256 setup early answers localAnswers cfg call localFiles files
      (serving cfg call localFiles
        (call.begin { phase := .returned false, files := localFiles })
        ⟨⟨.live ctx loop, trace⟩, files, [], 0⟩) := by
  let app : ClientApp := { phase := .returned false, files := localFiles }
  let out := (answers 0).onDisk setup.fileRoot files ⟨.known op, payload⟩
  let text := (answers 0).errorText
  have writes :
      (CallState.requesting app op payload).action sha256 localAnswers =
        .go [⟨.known op, payload⟩] (.resultAwaited app) := by
    simp [CallState.action, fits]
  have verdictFits : withinCap (opResult status text).payload = true := by
    rw [withinCap_opResult status (.known .ok) text]
    exact textFits
  have replies : out.replies 0 = true :=
    reliable 0 0
  have sent :
      sentMessages (effect :: .audit row :: sendOpResult out status text) =
        [opResult status text] := by
    have apart :=
      sentMessages_append [effect] (.audit row :: sendOpResult out status text)
    rw [silent, List.nil_append, sentMessages_audit,
      sent_opResult replies verdictFits] at apart
    exact apart
  have changed :
      filesAfter files (effect :: .audit row :: sendOpResult out status text) =
        filesAfter files [effect] := by
    have apart :=
      filesAfter_append files [effect]
        (.audit row :: sendOpResult out status text)
    rw [filesAfter_unchanged (filesAfter files [effect])
      (List.forall_mem_cons.mpr ⟨rfl, untouched_opResult _ _ _⟩)] at apart
    exact apart
  rw [begins]
  have answered :
      CommandReaches sha256 setup early answers localAnswers
        (serving cfg call localFiles (.requesting app op payload)
          ⟨⟨.live ctx loop, trace⟩, files, [], 0⟩)
        (serving cfg call localFiles
          (.transfer
            { app with
              phase :=
                ClientApp.opResultReceived (some (opResult status text)) })
          ⟨⟨.live ctx loop,
              trace ++
                .received ⟨.known op, payload⟩ ::
                  effect :: .audit row :: sendOpResult out status text⟩,
            filesAfter files
              (effect :: .audit row :: sendOpResult out status text), [], 1⟩) :=
    reaches_answered ready.unseen rfl writes result rfl sent rfl
      (reads_opResult app) localFiles trace
  rw [opResultReceived_opResult verdictFits, changed] at answered
  exact .of_returned answered rfl noUploads concludes

/-- A deletion is concluded. -/
theorem concluded_delete
    {path : Bytes}
    (ready : Ready ctx loop)
    (noUploads : NoUploads loop)
    (reliable : ∀ n k, (answers n).replies k = true)
    (trace : List Effect)
    (isDelete : call = .deleteRemote path)
    (fits : call.Fits sha256 (answers 0) localFiles) :
    CallConcluded sha256 setup early answers localAnswers cfg call localFiles files
      (serving cfg call localFiles
        (call.begin { phase := .returned false, files := localFiles })
        ⟨⟨.live ctx loop, trace⟩, files, [], 0⟩) := by
  subst isDelete
  obtain ⟨requestFits, textFits⟩ := fits
  cases resolved : resolveInRoot (answers 0) setup.fileRoot path with
  | none =>
      apply concluded_rejected ready noUploads reliable trace rfl requestFits
        (handle_delete_rejected ready.permitted requestFits resolved)
      simp [ClientCall.Doable, resolved]
  | some target =>
      obtain ⟨row, tried⟩ :=
        handle_delete_tried sha256
          ((answers 0).onDisk setup.fileRoot files
            ⟨.known .fileDelete, FileDeleteMsg.encode ⟨path⟩⟩)
          loop ready.permitted requestFits resolved
      apply concluded_tried ready noUploads reliable trace rfl requestFits
        textFits tried rfl
      cases removed : (answers 0).removed with
      | true =>
          refine ⟨iff_of_true ?_ ⟨by simp [resolved], removed⟩, fun _ => ?_, ?_⟩
          · simp [Outside.onDisk, removed]
          · refine ⟨rfl, target, resolved, ?_⟩
            simp [Outside.onDisk, removed, filesAfter, Effect.change?]
          · simp [Outside.onDisk, removed]
      | false =>
          refine ⟨iff_of_false ?_ ?_, ?_, fun _ => ⟨rfl, ?_⟩⟩
          · simp [Outside.onDisk, removed]
          · simp [ClientCall.Doable, removed]
          · simp [Outside.onDisk, removed]
          · apply filesAfter_unchanged
            simp [Outside.onDisk, removed, Effect.change?]

/-- So is a move. -/
theorem concluded_move
    {src dst : Bytes}
    (ready : Ready ctx loop)
    (noUploads : NoUploads loop)
    (reliable : ∀ n k, (answers n).replies k = true)
    (trace : List Effect)
    (isMove : call = .moveRemote src dst)
    (fits : call.Fits sha256 (answers 0) localFiles)
    (unhindered :
      call.Unhindered answers localAnswers setup.fileRoot localFiles files) :
    CallConcluded sha256 setup early answers localAnswers cfg call localFiles files
      (serving cfg call localFiles
        (call.begin { phase := .returned false, files := localFiles })
        ⟨⟨.live ctx loop, trace⟩, files, [], 0⟩) := by
  subst isMove
  obtain ⟨requestFits, textFits⟩ := fits
  by_cases resolved :
      (resolveInRoot (answers 0) setup.fileRoot src).isSome ∧
        (resolveInRoot (answers 0) setup.fileRoot dst).isSome
  · obtain ⟨source, isSource⟩ := Option.isSome_iff_exists.mp resolved.1
    obtain ⟨target, isTarget⟩ := Option.isSome_iff_exists.mp resolved.2
    obtain ⟨row, tried⟩ :=
      handle_move_tried sha256
        ((answers 0).onDisk setup.fileRoot files
          ⟨.known .fileMove, FileMoveMsg.encode ⟨src, dst⟩⟩)
        loop ready.permitted requestFits isSource isTarget
    apply concluded_tried ready noUploads reliable trace rfl requestFits textFits
      tried rfl
    cases renamed : (answers 0).renamed with
    | true =>
        refine ⟨iff_of_true ?_ ⟨resolved.1, resolved.2, renamed⟩, fun _ => ?_,
          ?_⟩
        · simp [Outside.onDisk, renamed]
        · obtain ⟨content, isFile⟩ :=
            Option.isSome_iff_exists.mp (unhindered renamed source isSource)
          refine ⟨rfl, source, target, content, isSource, isTarget, isFile, ?_⟩
          simp [Outside.onDisk, renamed, filesAfter, Effect.change?,
            FileStore.apply, isFile]
        · simp [Outside.onDisk, renamed]
    | false =>
        refine ⟨iff_of_false ?_ ?_, ?_, fun _ => ⟨rfl, ?_⟩⟩
        · simp [Outside.onDisk, renamed]
        · simp [ClientCall.Doable, renamed]
        · simp [Outside.onDisk, renamed]
        · apply filesAfter_unchanged
          simp [Outside.onDisk, renamed, Effect.change?]
  · apply concluded_rejected ready noUploads reliable trace rfl requestFits
      (handle_move_rejected ready.permitted requestFits resolved)
    exact fun doable => resolved ⟨doable.1, doable.2.1⟩

end Serving

/-! ## A mode that is not authorised -/

/-- A call whose session has been left reads the refusal and returns false. -/
theorem reaches_turned_away
    {state next : CallState}
    {app : ClientApp}
    {sent : List Message}
    (receive : Message → CallState)
    (going : state.verdict? = none)
    (writes : state.action sha256 localAnswers = .go sent next)
    (waiting : next.verdict? = none)
    (reads : next.action sha256 localAnswers = .wait receive)
    (returned : (receive modeRefusedMessage).verdict? = some (app, false))
    (localFiles files : Files)
    (trace : List Effect) :
    ∃ final,
      CommandReaches sha256 setup early answers localAnswers
          ⟨.during cfg call localFiles state,
            ⟨⟨⟨.closed ∅, trace⟩, files, [], 0⟩, true⟩, [],
            [some modeRefusedMessage, none]⟩
          final ∧
        BothEnded cfg call 1 app.files files final := by
  let side : SessionSide := ⟨⟨⟨.closed ∅, trace⟩, files, [], 0⟩, true⟩
  have written :
      CommandReaches sha256 setup early answers localAnswers
        ⟨.during cfg call localFiles state, side, [],
          [some modeRefusedMessage, none]⟩
        ⟨.during cfg call localFiles next, side, sent.map some,
          [some modeRefusedMessage, none]⟩ :=
    (FifoLink.leads_left_go
      (action_during_go cfg call going writes localFiles)).reaches
  have received :
      CommandReaches sha256 setup early answers localAnswers
        ⟨.during cfg call localFiles next, side, sent.map some,
          [some modeRefusedMessage, none]⟩
        ⟨.during cfg call localFiles (receive modeRefusedMessage), side,
          sent.map some, [none]⟩ :=
    (FifoLink.leads_left_wait
      (action_during_wait cfg call waiting reads localFiles)
      (some modeRefusedMessage)).reaches
  have left :
      CommandReaches sha256 setup early answers localAnswers
        ⟨.during cfg call localFiles (receive modeRefusedMessage), side,
          sent.map some, [none]⟩
        ⟨⟨cfg, call, app.files, .exited 1⟩, side, sent.map some ++ [none],
          [none]⟩ :=
    reaches_left cfg call returned localFiles side (sent.map some) [none]
  exact ⟨_, (written.trans received).trans left, rfl, rfl, rfl, ⟨∅, rfl⟩, rfl⟩

/-- So every call returns false there, and no disk is touched. -/
theorem reaches_unserved
    (localFiles files : Files)
    (trace : List Effect) :
    ∃ final,
      CommandReaches sha256 setup early answers localAnswers
          ⟨.calls cfg call localFiles,
            ⟨⟨⟨.closed ∅, trace⟩, files, [], 0⟩, true⟩, [],
            [some modeRefusedMessage, none]⟩
          final ∧
        BothEnded cfg call 1 localFiles files final := by
  let idle : ClientApp := { phase := .returned false, files := localFiles }
  have isError : modeRefusedMessage.op = .known .error :=
    rfl
  cases call with
  | uploadFile localPath remotePath =>
      cases present : localFiles localPath with
      | none =>
          have returned :
              (ClientCall.begin idle
                  (.uploadFile localPath remotePath)).verdict? =
                some (idle, false) := by
            simp [ClientCall.begin, ClientApp.uploadFile, present, idle,
              CallState.verdict?]
          have left :
              CommandReaches sha256 setup early answers localAnswers
                ⟨.calls cfg (.uploadFile localPath remotePath) localFiles,
                  ⟨⟨⟨.closed ∅, trace⟩, files, [], 0⟩, true⟩, [],
                  [some modeRefusedMessage, none]⟩
                ⟨⟨cfg, .uploadFile localPath remotePath, localFiles,
                    .exited 1⟩,
                  ⟨⟨⟨.closed ∅, trace⟩, files, [], 0⟩, true⟩, [none],
                  [some modeRefusedMessage, none]⟩ :=
            reaches_left cfg _ returned localFiles _ [] _
          exact ⟨_, left, rfl, rfl, rfl, ⟨∅, rfl⟩, rfl⟩
      | some content =>
          have starts :
              ClientProcess.calls cfg (.uploadFile localPath remotePath)
                  localFiles =
                .during cfg (.uploadFile localPath remotePath) localFiles
                  (.transfer
                    ⟨.requestingUpload content remotePath, localFiles, 0⟩) := by
            simp [ClientProcess.calls, ClientProcess.during, ClientCall.begin,
              ClientApp.uploadFile, present]
          rw [starts]
          let receive (m : Message) : CallState :=
            .transfer
              ⟨ClientApp.uploadAnswered content (some m), localFiles, 0⟩
          have returned :
              (receive modeRefusedMessage).verdict? = some (idle, false) := by
            simp [receive, ClientApp.uploadAnswered, isError,
              CallState.verdict?, idle]
          exact reaches_turned_away receive rfl rfl rfl rfl returned localFiles
            files trace
  | downloadFile remotePath localPath =>
      let asked : ClientApp := ⟨.downloadRequested localPath, localFiles, 0⟩
      let receive (m : Message) : CallState :=
        .transfer (asked.downloadAnswered (localAnswers 0) localPath (some m))
      have returned :
          (receive modeRefusedMessage).verdict? = some (idle, false) := by
        simp [receive, ClientApp.downloadAnswered, isError, CallState.verdict?,
          idle, asked]
      exact reaches_turned_away receive rfl rfl rfl rfl returned localFiles
        files trace
  | deleteRemote path | moveRemote src dst =>
      let receive (m : Message) : CallState :=
        .transfer { idle with phase := ClientApp.opResultReceived (some m) }
      have returned :
          (receive modeRefusedMessage).verdict? = some (idle, false) := by
        simp [receive, ClientApp.opResultReceived, isError, CallState.verdict?,
          idle]
      exact reaches_turned_away receive rfl rfl rfl rfl returned localFiles
        files trace

/-! ## From the arguments to the exit code -/

/-- Every call is concluded in a session for files. -/
theorem call_concluded
    {loop : LoopState}
    {localFiles files : Files}
    (ready : Ready ctx loop)
    (noUploads : NoUploads loop)
    (reliable : ∀ n k, (answers n).replies k = true)
    (trace : List Effect)
    (fits : call.Fits sha256 (answers 0) localFiles)
    (unhindered :
      call.Unhindered answers localAnswers setup.fileRoot localFiles files) :
    CallConcluded sha256 setup early answers localAnswers cfg call localFiles files
      (serving cfg call localFiles
        (call.begin { phase := .returned false, files := localFiles })
        ⟨⟨.live ctx loop, trace⟩, files, [], 0⟩) := by
  cases isCall : call with
  | uploadFile localPath remotePath =>
      rw [isCall] at fits unhindered
      exact concluded_upload ready noUploads reliable trace rfl fits unhindered
  | downloadFile remotePath localPath =>
      rw [isCall] at fits unhindered
      exact concluded_download ready noUploads reliable trace rfl fits unhindered
  | deleteRemote path =>
      rw [isCall] at fits
      exact concluded_delete ready noUploads reliable trace rfl fits
  | moveRemote src dst =>
      rw [isCall] at fits unhindered
      exact concluded_move ready noUploads reliable trace rfl fits unhindered

/-- The exit code says what has become of the command. -/
structure ExitCode
    (out : Outside)
    (root : Path)
    (outcome : AuthOutcome)
    (call : ClientCall)
    (localFiles files : Files)
    (code : Nat)
    (localFiles' files' : Files) : Prop where
  refused : code = 2 ↔ outcome.status ≠ .known .ok
  done_iff :
    code = 0 ↔
      outcome.status = .known .ok ∧
        SessionContext.authorized outcome.rights (.known .fileOnly) = true ∧
        call.Doable out root localFiles files
  done : code = 0 → call.Done out root localFiles files localFiles' files'
  untouched : code ≠ 0 → localFiles' = localFiles ∧ files' = files

/--
Whatever the schedule, a file command whose disks do what is asked of them ends
with an exit code: 2 if the login is refused, 0 if what was asked for has been
done, and otherwise 1 with both disks as they were.
-/
theorem file_command_exits
    (sha256 : Bytes → Hash256)
    (setup : SessionSetup)
    (early : EarlyAnswers)
    (answers : Nat → Outside)
    (localAnswers : Nat → LocalAnswer)
    (localFiles files : Files)
    {argv : List Bytes}
    {prompted : Bytes}
    {cfg : ClientConfig}
    {call : ClientCall}
    (isCall : ClientCommand.ofArgs argv prompted = .call cfg call)
    (greeted : early.Reliable)
    (credentialsFit : withinCap (ClientApp.authMessage cfg).payload = true)
    (reliable : ∀ n k, (answers n).replies k = true)
    (fits : call.Fits sha256 (answers 0) localFiles)
    (unhindered :
      call.Unhindered answers localAnswers setup.fileRoot localFiles files) :
    ∃ code localFiles' files' count final,
      FifoLink.Settles (ClientProcess.action sha256 localAnswers)
          (SessionSide.action sha256 setup early answers)
          (commandStart cfg call localFiles files) final count ∧
        BothEnded cfg call code localFiles' files' final ∧
        ExitCode (answers 0) setup.fileRoot
          (early.auth.authenticate cfg.username cfg.password) call localFiles
          files code localFiles' files' := by
  have mode := (ClientCommand.ofArgs_call isCall).1
  generalize answered :
    early.auth.authenticate cfg.username cfg.password = outcome
  by_cases ok : outcome.status = .known .ok
  · cases authorized :
        SessionContext.authorized outcome.rights (.known .fileOnly) with
    | true =>
        have modeAuthorized :
            SessionContext.authorized outcome.rights cfg.mode = true := by
          rw [mode]
          exact authorized
        obtain ⟨trace, served⟩ :=
          reaches_serving sha256 setup answers localAnswers call localFiles files
            greeted credentialsFit answered ok modeAuthorized
        rw [mode] at served
        obtain ⟨done, localFiles', files', final, further, ended, concludes⟩ :=
          call_concluded
            (ready_login cfg.username authorized early.mode.captureReady)
            (fun _ => Std.TreeMap.getElem?_emptyc) reliable trace fits unhindered
        obtain ⟨count, leads⟩ := served.trans further
        refine ⟨_, localFiles', files', count, final,
          leads.settles ended.quiet, ended, ?_⟩
        cases done with
        | true =>
            have doable := concludes.ok_iff.mp rfl
            exact ⟨by simp [ok], by simp [ok, doable, authorized],
              fun _ => concludes.done rfl, by simp⟩
        | false =>
            have notDoable := mt concludes.ok_iff.mpr (by simp)
            exact ⟨by simp [ok], by simp [notDoable], by simp,
              fun _ => concludes.untouched rfl⟩
    | false =>
        have modeRefused :
            SessionContext.authorized outcome.rights cfg.mode = false := by
          rw [mode]
          exact authorized
        obtain ⟨trace, left⟩ :=
          reaches_unauthorized sha256 setup answers localAnswers call localFiles
            files greeted credentialsFit answered ok modeRefused
        obtain ⟨final, further, ended⟩ :=
          reaches_unserved localFiles files trace
        obtain ⟨count, leads⟩ := left.trans further
        exact ⟨1, localFiles, files, count, final, leads.settles ended.quiet,
          ended, by simp [ok], by simp [authorized], by simp,
          fun _ => ⟨rfl, rfl⟩⟩
  · obtain ⟨final, reaches, ended⟩ :=
      reaches_refused sha256 setup answers localAnswers call localFiles files
        greeted credentialsFit answered ok
    obtain ⟨count, leads⟩ := reaches
    exact ⟨2, localFiles, files, count, final, leads.settles ended.quiet, ended,
      by simp [ok], by simp [ok], by simp, fun _ => ⟨rfl, rfl⟩⟩

/-- `radminpro-client upload h b a --user u --pass p`. -/
def uploadCommand : List Bytes :=
  [ascii "radminpro-client", ascii "upload", ascii "h", ascii "b", ascii "a",
    ascii "--user", ascii "u", ascii "--pass", ascii "p"]

/-- The configuration that it makes. -/
def uploadConfig : ClientConfig where
  host := ascii "h"
  port := 4899
  username := ascii "u"
  password := ascii "p"
  mode := .known .fileOnly

theorem file_command_exits_upload :
    let early : EarlyAnswers :=
      { auth := { authenticate := fun _ _ => ⟨.known .ok, R_FileTransfer⟩ } }
    let answers : Nat → Outside := fun _ => { flushedAtClose := 1 }
    let localFiles := oneFile (ascii "b") [7]
    let call : ClientCall := .uploadFile (ascii "b") (ascii "a")
    ∃ localFiles' files' count final,
      FifoLink.Settles (ClientProcess.action evpSha256 fun _ => {})
          (SessionSide.action evpSha256 folderSetup early answers)
          (commandStart uploadConfig call localFiles fun _ => none) final
          count ∧
        BothEnded uploadConfig call 0 localFiles' files' final ∧
        files' (ascii "C:\\share\\a") = some [7] := by
  intro early answers localFiles call
  have isCall :
      ClientCommand.ofArgs uploadCommand [] = .call uploadConfig call :=
    rfl
  have resolved :
      resolveInRoot (answers 0) folderSetup.fileRoot (ascii "a") =
        some (ascii "C:\\share\\a") := by
    decide
  have present : localFiles (ascii "b") = some [7] :=
    Function.update_self ..
  have credentialsFit :
      withinCap (ClientApp.authMessage uploadConfig).payload = true := by
    decide +kernel
  have fits : call.Fits evpSha256 (answers 0) localFiles := by
    intro content isContent
    rw [present, Option.some.injEq] at isContent
    subst isContent
    have short : (ascii "a").length = 1 := by
      decide
    simp [withinCap, uploadRequest, FileUploadReqMsg.encode, short,
      (evpSha256 [7]).size, kMaxMessageSize]
  have unhindered :
      call.Unhindered answers (fun _ => {}) folderSetup.fileRoot localFiles
        fun _ => none := by
    intro content isContent n
    rw [present, Option.some.injEq] at isContent
    subst isContent
    exact ⟨fun _ => rfl, rfl, rfl, Nat.le_refl 1, rfl⟩
  obtain ⟨code, localFiles', files', count, final, settles, ended, exits⟩ :=
    file_command_exits evpSha256 folderSetup early answers (fun _ => {})
      localFiles (fun _ => none) isCall ⟨rfl, rfl, rfl⟩ credentialsFit
      (fun _ _ => rfl) fits unhindered
  have isZero : code = 0 :=
    exits.done_iff.mpr
      ⟨rfl, by decide, by rw [present]; rfl, by rw [resolved]; rfl⟩
  subst isZero
  obtain ⟨_, dest, content, isDest, isContent, stored, _⟩ := exits.done rfl
  rw [resolved, Option.some.injEq] at isDest
  rw [present, Option.some.injEq] at isContent
  subst isDest isContent
  exact ⟨localFiles', files', count, final, settles, ended, stored⟩

end Calls

end RadminPro
