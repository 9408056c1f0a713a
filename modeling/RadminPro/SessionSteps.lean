import RadminPro.ServerSession

namespace RadminPro

open ByteCodec

/-!
# What a turn can do

The handler is inverted once into its branches, with what each of them checked.
The invariants of a session are then case analyses over these branches.
-/

/-! ## Sending -/

/-- The opcodes of the picture. -/
def isFrameOp (op : Op) : Prop :=
  op = .known .frameInfo ∨ op = .known .frameData ∨ op = .known .frameRect ∨
    op = .known .frameEnd

section Sending

variable {Channel : Type} {send : SendFn Channel}
variable (invariant : Channel → Prop)

/-- What every send keeps is kept by sending a list. -/
theorem sendAll_keeps
    {messages : List (Op × Bytes)}
    (keeps :
      ∀ channel, ∀ m ∈ messages,
        invariant channel → invariant (send channel m.1 m.2).2)
    {channel : Channel}
    (holds : invariant channel) :
    invariant (sendAll send channel messages).2 := by
  induction messages generalizing channel with
  | nil =>
      exact holds
  | cons m rest inductionHypothesis =>
      obtain ⟨op, payload⟩ := m
      have afterHead :=
        keeps channel (op, payload) List.mem_cons_self holds
      rw [sendAll]
      cases sent : send channel op payload with
      | mk ok next =>
          rw [sent] at afterHead
          cases ok with
          | false =>
              exact afterHead
          | true =>
              exact inductionHypothesis
                (fun channel m member =>
                  keeps channel m (List.mem_cons_of_mem _ member))
                afterHead

/-- What every frame message keeps is kept by sending tiles. -/
theorem sendRects_keeps
    (keeps :
      ∀ channel op payload,
        isFrameOp op → invariant channel →
          invariant (send channel op payload).2)
    (seq : UInt32)
    (frame : Frame)
    (rects : List RectU)
    (prevFrame : Bytes)
    {channel : Channel}
    (holds : invariant channel) :
    invariant (sendRects send seq frame prevFrame channel rects).2.2 := by
  induction rects generalizing prevFrame channel with
  | nil =>
      exact holds
  | cons rc rest inductionHypothesis =>
      have afterHead :=
        keeps channel (.known .frameRect) (rectMessage seq frame rc).encode
          (.inr (.inr (.inl rfl))) holds
      rw [sendRects]
      cases sent :
          send channel (.known .frameRect)
            (rectMessage seq frame rc).encode with
      | mk ok next =>
          rw [sent] at afterHead
          cases ok with
          | false =>
              simpa [sent] using afterHead
          | true =>
              simpa [sent] using inductionHypothesis _ afterHead

/-- A streamer sends only messages of the picture. -/
theorem streamOnce_keeps
    (keeps :
      ∀ channel op payload,
        isFrameOp op → invariant channel →
          invariant (send channel op payload).2)
    {streamer next : VideoStreamer}
    {channel after : Channel}
    {result : CaptureResult}
    {step : StreamStep}
    (streamed :
      streamer.streamOnce send channel result = some (step, next, after))
    (holds : invariant channel) :
    invariant after := by
  cases result with
  | timeout =>
      cases streamed
      exact holds
  | lost =>
      cases streamed
      exact holds
  | error =>
      cases streamed
      exact holds
  | ok frame =>
      simp only [VideoStreamer.streamOnce] at streamed
      split at streamed
      · rw [Option.some.injEq] at streamed
        have kept :
            invariant
              (sendAll send channel
                (keyframeMessages (streamer.seq + 1) frame)).2 := by
          refine sendAll_keeps invariant (fun channel m member holds => ?_)
            holds
          refine keeps channel m.1 m.2 ?_ holds
          rcases mem_keyframeMessages member with
            isInfo | ⟨off, isChunk⟩ | isEnd
          · exact .inl (by rw [isInfo])
          · exact .inr (.inl (by rw [isChunk]))
          · exact .inr (.inr (.inr (by rw [isEnd])))
        rw [VideoStreamer.sendKeyframe] at streamed
        cases sent :
            sendAll send channel
              (keyframeMessages (streamer.seq + 1) frame) with
        | mk ok last =>
            rw [sent] at kept streamed
            cases ok <;>
              · cases streamed
                exact kept
      · simp only [VideoStreamer.sendDelta, Option.bind_eq_bind,
          Option.bind_eq_some_iff] at streamed
        obtain ⟨rects, _, streamed⟩ := streamed
        split at streamed
        · cases streamed
          exact holds
        · have kept :=
            sendRects_keeps invariant keeps (streamer.seq + 1) frame rects
              streamer.prevFrame holds
          cases sent :
              sendRects send (streamer.seq + 1) frame streamer.prevFrame
                channel rects with
          | mk ok rest =>
              obtain ⟨prevFrame, last⟩ := rest
              rw [sent] at kept
              simp only [sent] at streamed
              cases ok with
              | false =>
                  cases streamed
                  exact kept
              | true =>
                  have afterEnd :=
                    keeps last (.known .frameEnd) (putU32 (streamer.seq + 1))
                      (.inr (.inr (.inr rfl))) kept
                  cases ended :
                      send last (.known .frameEnd)
                        (putU32 (streamer.seq + 1)) with
                  | mk ok final =>
                      rw [ended] at afterEnd
                      simp only [ended] at streamed
                      cases ok <;>
                        · cases streamed
                          exact afterEnd

end Sending

/-- A batch of messages appends sends of these messages and nothing else. -/
theorem sendAll_writeMessage
    (answers : Nat → Bool)
    (messages : List (Op × Bytes))
    (sent : List Effect) :
    ∃ attempted,
      (sendAll (writeMessage answers) sent messages).2 = sent ++ attempted ∧
        ∀ effect ∈ attempted,
          ∃ m ∈ messages, ∃ ok, effect = .send m.1 m.2 ok := by
  refine sendAll_keeps
    (fun channel => ∃ attempted,
      channel = sent ++ attempted ∧
        ∀ effect ∈ attempted,
          ∃ m ∈ messages, ∃ ok, effect = .send m.1 m.2 ok)
    (fun channel m member kept => ?_) ⟨[], by simp, by simp⟩
  obtain ⟨attempted, rfl, only⟩ := kept
  have appended :
      (writeMessage answers (sent ++ attempted) m.1 m.2).2 =
        sent ++ (attempted ++
          [.send m.1 m.2
            (withinCap m.2 && answers (sent ++ attempted).length)]) := by
    simp [writeMessage]
  refine ⟨_, appended, ?_⟩
  intro effect isEffect
  rcases List.mem_append.mp isEffect with earlier | new
  · exact only effect earlier
  · exact ⟨m, member, _, List.mem_singleton.mp new⟩

/-- Streaming sends messages of the picture and nothing else. -/
theorem streamOnce_writeMessage
    {answers : Nat → Bool}
    {streamer next : VideoStreamer}
    {sent : List Effect}
    {result : CaptureResult}
    {step : StreamStep}
    (streamed :
      streamer.streamOnce (writeMessage answers) [] result =
        some (step, next, sent)) :
    ∀ effect ∈ sent,
      ∃ op payload ok, effect = .send op payload ok ∧ isFrameOp op := by
  refine streamOnce_keeps
    (fun channel => ∀ effect ∈ channel,
      ∃ op payload ok, effect = .send op payload ok ∧ isFrameOp op)
    (fun channel op payload isFrame kept => ?_) streamed (by simp)
  intro effect member
  rcases List.mem_append.mp member with earlier | new
  · exact kept effect earlier
  · exact ⟨op, payload, _, List.mem_singleton.mp new, isFrame⟩

/-- A reply is one send. -/
theorem reply_eq
    (out : Outside)
    (op : Op)
    (payload : Bytes) :
    reply out op payload =
      [.send op payload (withinCap payload && out.replies 0)] :=
  rfl

section Inversion

variable {sha256 : Bytes → Hash256}
variable {setup : SessionSetup}
variable {ctx : SessionContext}
variable {out : Outside}
variable {loop : LoopState}

/-- The message is no block of an upload under way. -/
def Unblocked (loop : LoopState) (m : Message) : Prop :=
  ∀ blk,
    m.op = .known .fileBlock →
    FileBlockMsg.decode m.payload = .ok blk →
    loop.uploads[blk.transferId]? = none

/-- The branches of the handler, with what each of them has checked. -/
inductive Handles
    (sha256 : Bytes → Hash256)
    (setup : SessionSetup)
    (ctx : SessionContext)
    (out : Outside)
    (loop : LoopState)
    (m : Message) : Outcome → Prop where
  | bye (op : m.op = .known .bye) :
      Handles sha256 setup ctx out loop m { goOn := false, loop }
  | ignored (unblocked : Unblocked loop m) :
      Handles sha256 setup ctx out loop m { loop }
  | mouse
      (op : m.op = .known .inputMouse)
      (permitted : ctx.canControl = true)
      (x y : UInt16) (action : UInt32) :
      Handles sha256 setup ctx out loop m
        { loop, effects := [.injectMouse x y action] }
  | key
      (op : m.op = .known .inputKey)
      (permitted : ctx.canControl = true)
      (down : Bool) (vk : UInt16) :
      Handles sha256 setup ctx out loop m
        { loop, effects := [.injectKey down vk] }
  | notPermitted
      (unblocked : m.op ≠ .known .fileBlock)
      (refused : ctx.canTransfer = false)
      (operation text : Bytes) :
      Handles sha256 setup ctx out loop m
        (RadminPro.notPermitted setup ctx out loop operation text)
  | pathRejected
      (unblocked : m.op ≠ .known .fileBlock)
      (action : AuditAction) (target : Bytes)
      (fileAction : action ∈
        [.fileUpload, .fileDelete, .fileMove, .fileDownload]) :
      Handles sha256 setup ctx out loop m
        (RadminPro.pathRejected setup ctx out loop action target)
  | upload
      {req : FileUploadReqMsg} {dest : Path}
      (permitted : ctx.canTransfer = true)
      (op : m.op = .known .fileUploadReq)
      (decoded : FileUploadReqMsg.decode m.payload = .ok req)
      (resolved : resolveInRoot out setup.fileRoot req.remotePath = some dest) :
      Handles sha256 setup ctx out loop m (beginUpload out loop req dest)
  | block
      {blk : FileBlockMsg} {st : UploadState}
      (op : m.op = .known .fileBlock)
      (decoded : FileBlockMsg.decode m.payload = .ok blk)
      (found : loop.uploads[blk.transferId]? = some st) :
      Handles sha256 setup ctx out loop m
        { loop :=
            { loop with
              uploads :=
                loop.uploads.insert blk.transferId
                  { st with
                    out := (st.out.write blk.data out.flush).1
                    hasher := st.hasher.update blk.data
                    received :=
                      st.received + UInt64.ofNat blk.data.length } }
          effects := (st.out.write blk.data out.flush).2 }
  | complete
      {id : UInt32} {st : UploadState}
      (op : m.op = .known .fileComplete)
      (decoded : parseAll ByteReader.u32 m.payload = .ok id)
      (found : loop.uploads[id]? = some st) :
      Handles sha256 setup ctx out loop m
        { loop := { loop with uploads := loop.uploads.erase id }
          effects := finishUpload sha256 setup ctx out id st }
  | delete
      {del : FileDeleteMsg} {target : Path}
      (permitted : ctx.canTransfer = true)
      (op : m.op = .known .fileDelete)
      (decoded : FileDeleteMsg.decode m.payload = .ok del)
      (resolved : resolveInRoot out setup.fileRoot del.path = some target) :
      Handles sha256 setup ctx out loop m
        { loop
          effects :=
            [.remove target out.removed,
              auditFileOp setup ctx .fileDelete target
                (if out.removed then ascii "OK" else ascii "FAIL")
                out.errorText] ++
              sendOpResult out
                (if out.removed then .known .ok else .known .notFound)
                out.errorText }
  | move
      {mv : FileMoveMsg} {src dst : Path}
      (permitted : ctx.canTransfer = true)
      (op : m.op = .known .fileMove)
      (decoded : FileMoveMsg.decode m.payload = .ok mv)
      (srcResolved : resolveInRoot out setup.fileRoot mv.srcPath = some src)
      (dstResolved : resolveInRoot out setup.fileRoot mv.dstPath = some dst) :
      Handles sha256 setup ctx out loop m
        { loop
          effects :=
            [.rename src dst out.renamed,
              auditFileOp setup ctx .fileMove (src ++ ascii " -> " ++ dst)
                (if out.renamed then ascii "OK" else ascii "FAIL")
                out.errorText] ++
              sendOpResult out
                (if out.renamed then .known .ok else .known .ioError)
                out.errorText }
  | missing
      {relPath src : Path}
      (permitted : ctx.canTransfer = true)
      (op : m.op = .known .fileDownloadReq)
      (decoded : parseAll ByteReader.str m.payload = .ok relPath)
      (resolved : resolveInRoot out setup.fileRoot relPath = some src) :
      Handles sha256 setup ctx out loop m
        { loop
          effects :=
            .readFile src none ::
              sendOpResult out (.known .notFound) (ascii "no such file") }
  | download
      {relPath src : Path} {data : Bytes}
      (permitted : ctx.canTransfer = true)
      (op : m.op = .known .fileDownloadReq)
      (decoded : parseAll ByteReader.str m.payload = .ok relPath)
      (resolved : resolveInRoot out setup.fileRoot relPath = some src) :
      Handles sha256 setup ctx out loop m
        { loop :=
            { loop with nextTransferId := loop.nextTransferId + 1 }
          effects :=
            .readFile src (some data) ::
                sendDownload out loop.nextTransferId data (sha256 data) ++
              [auditFileOp setup ctx .fileDownload src (ascii "OK")
                (ascii "sha256=" ++ toHex (sha256 data).bytes)] }
  | receipt (op : m.op = .known .fileVerify) :
      Handles sha256 setup ctx out loop m
        { loop
          effects :=
            [auditFileOp setup ctx .integrityFail [] (ascii "MISMATCH")
              (ascii "client reported download hash mismatch")] }

/-- A successful bind had a successful first part. -/
theorem bind_eq_ok
    {ε α β : Type}
    {first : Except ε α}
    {next : α → Except ε β}
    {value : β}
    (succeeded : (first >>= next) = .ok value) :
    ∃ middle, first = .ok middle ∧ next middle = .ok value := by
  cases first with
  | error error =>
      cases succeeded
  | ok middle =>
      exact ⟨middle, rfl, succeeded⟩

/-- Without the transfer right a request is refused, else it is carried out. -/
theorem handles_of_transfer
    {m : Message}
    (unblocked : m.op ≠ .known .fileBlock)
    {operation text : Bytes}
    {permitted : Except DeserializeError Outcome}
    {outcome : Outcome}
    (handled :
      (if !ctx.canTransfer then
        .ok (notPermitted setup ctx out loop operation text)
      else
        permitted) = .ok outcome)
    (carriedOut :
      ctx.canTransfer = true → permitted = .ok outcome →
        Handles sha256 setup ctx out loop m outcome) :
    Handles sha256 setup ctx out loop m outcome := by
  cases isPermitted : ctx.canTransfer with
  | false =>
      simp only [isPermitted, Bool.not_false, if_true, Except.ok.injEq]
        at handled
      rw [← handled]
      exact .notPermitted unblocked isPermitted operation text
  | true =>
      exact carriedOut isPermitted (by simpa [isPermitted] using handled)

/-- The handler takes one of its branches. -/
theorem handle_handles
    {m : Message}
    {outcome : Outcome}
    (handled : handle sha256 setup ctx out loop m = .ok outcome) :
    Handles sha256 setup ctx out loop m outcome := by
  unfold handle at handled
  split at handled
  · next op =>
      cases handled
      exact .bye op
  · next op =>
      unfold handleInputMouse at handled
      split at handled
      · cases handled
        exact .ignored (by simp [Unblocked, op])
      · next controls =>
          obtain ⟨⟨x, y, action⟩, _, result⟩ := bind_eq_ok handled
          cases result
          exact .mouse op (by simpa using controls) x y action
  · next op =>
      unfold handleInputKey at handled
      split at handled
      · cases handled
        exact .ignored (by simp [Unblocked, op])
      · next controls =>
          obtain ⟨⟨down, vk⟩, _, result⟩ := bind_eq_ok handled
          cases result
          exact .key op (by simpa using controls) _ vk
  · next op =>
      refine handles_of_transfer (by simp [op]) handled fun permitted carriedOut => ?_
      obtain ⟨req, decoded, result⟩ := bind_eq_ok carriedOut
      split at result
      · cases result
        exact .pathRejected (by simp [op]) _ _ (by decide)
      · next dest resolved =>
          cases result
          exact .upload permitted op decoded resolved
  · next op =>
      obtain ⟨blk, decoded, result⟩ := bind_eq_ok handled
      split at result
      · next unknown =>
          cases result
          refine .ignored fun other _ isBlock => ?_
          rw [decoded] at isBlock
          cases isBlock
          exact unknown
      · next st found =>
          cases result
          exact .block op decoded found
  · next op =>
      obtain ⟨id, decoded, result⟩ := bind_eq_ok handled
      split at result
      · cases result
        exact .ignored (by simp [Unblocked, op])
      · next st found =>
          cases result
          exact .complete op decoded found
  · next op =>
      refine handles_of_transfer (by simp [op]) handled fun permitted carriedOut => ?_
      obtain ⟨del, decoded, result⟩ := bind_eq_ok carriedOut
      split at result
      · cases result
        exact .pathRejected (by simp [op]) _ _ (by decide)
      · next target resolved =>
          cases result
          exact .delete permitted op decoded resolved
  · next op =>
      refine handles_of_transfer (by simp [op]) handled fun permitted carriedOut => ?_
      obtain ⟨mv, decoded, result⟩ := bind_eq_ok carriedOut
      split at result
      · next src dst srcResolved dstResolved =>
          cases result
          exact .move permitted op decoded srcResolved dstResolved
      · cases result
        exact .pathRejected (by simp [op]) _ _ (by decide)
  · next op =>
      refine handles_of_transfer (by simp [op]) handled fun permitted carriedOut => ?_
      obtain ⟨relPath, decoded, result⟩ := bind_eq_ok carriedOut
      split at result
      · cases result
        exact .pathRejected (by simp [op]) _ _ (by decide)
      · next src resolved =>
          split at result
          · cases result
            exact .missing permitted op decoded resolved
          · cases result
            exact .download permitted op decoded resolved
  · next op =>
      obtain ⟨v, decoded, result⟩ := bind_eq_ok handled
      split at result
      · cases result
        exact .receipt op
      · cases result
        exact .ignored (by simp [Unblocked, op])
  · next notBlock _ _ _ _ _ =>
      cases handled
      exact .ignored fun blk isBlock => absurd isBlock notBlock

/-- The paths that a request makes the session act on. -/
def requestedPaths (out : Outside) (root : Path) (m : Message) : List Path :=
  match m.op with
  | .known .fileUploadReq =>
      match FileUploadReqMsg.decode m.payload with
      | .ok req => (resolveInRoot out root req.remotePath).toList
      | .error _ => []
  | .known .fileDelete =>
      match FileDeleteMsg.decode m.payload with
      | .ok del => (resolveInRoot out root del.path).toList
      | .error _ => []
  | .known .fileMove =>
      match FileMoveMsg.decode m.payload with
      | .ok mv =>
          match resolveInRoot out root mv.srcPath,
              resolveInRoot out root mv.dstPath with
          | some src, some dst => [src, dst]
          | _, _ => []
      | .error _ => []
  | .known .fileDownloadReq =>
      match parseAll ByteReader.str m.payload with
      | .ok relPath => (resolveInRoot out root relPath).toList
      | .error _ => []
  | _ => []

/-- The effects that the handler may have, with what stands behind each. -/
inductive MayDo
    (setup : SessionSetup)
    (ctx : SessionContext)
    (out : Outside)
    (loop : LoopState)
    (m : Message) : Effect → Prop where
  | mouse
      (permitted : ctx.canControl = true)
      (x y : UInt16) (action : UInt32) :
      MayDo setup ctx out loop m (.injectMouse x y action)
  | key (permitted : ctx.canControl = true) (down : Bool) (vk : UInt16) :
      MayDo setup ctx out loop m (.injectKey down vk)
  | talk (op : Op) (payload : Bytes) (ok : Bool) (noFrame : ¬isFrameOp op) :
      MayDo setup ctx out loop m (.send op payload ok)
  | log
      (action : AuditAction)
      (target result detail : Bytes)
      (fileAction : action ≠ .sessionStart ∧ action ≠ .sessionEnd) :
      MayDo setup ctx out loop m
        (auditFileOp setup ctx action target result detail)
  | createDirectory
      {dest directory : Path}
      (permitted : ctx.canTransfer = true)
      (op : m.op = .known .fileUploadReq)
      (requested : dest ∈ requestedPaths out setup.fileRoot m)
      (above : directory ∈ PathText.parentDirectories dest)
      (missing : out.creates directory = true) :
      MayDo setup ctx out loop m (.createDirectory directory)
  | openTemp
      {dest : Path}
      (permitted : ctx.canTransfer = true)
      (requested : dest ∈ requestedPaths out setup.fileRoot m)
      (ok : Bool) :
      MayDo setup ctx out loop m (.openTrunc (dest ++ ascii ".part") ok)
  | write
      {id : UInt32} {st : UploadState}
      (found : loop.uploads[id]? = some st)
      (position : Nat) (data : Bytes) :
      MayDo setup ctx out loop m (.write st.out.path position data)
  | close
      {id : UInt32} {st : UploadState}
      (found : loop.uploads[id]? = some st) :
      MayDo setup ctx out loop m (.close st.out.path)
  | renameTemp
      {id : UInt32} {st : UploadState}
      (found : loop.uploads[id]? = some st)
      (ok : Bool) :
      MayDo setup ctx out loop m (.rename st.tempPath st.finalPath ok)
  | removeTemp
      {id : UInt32} {st : UploadState}
      (found : loop.uploads[id]? = some st)
      (ok : Bool) :
      MayDo setup ctx out loop m (.remove st.tempPath ok)
  | remove
      {target : Path}
      (permitted : ctx.canTransfer = true)
      (requested : target ∈ requestedPaths out setup.fileRoot m)
      (ok : Bool) :
      MayDo setup ctx out loop m (.remove target ok)
  | rename
      {src dst : Path}
      (permitted : ctx.canTransfer = true)
      (srcRequested : src ∈ requestedPaths out setup.fileRoot m)
      (dstRequested : dst ∈ requestedPaths out setup.fileRoot m)
      (ok : Bool) :
      MayDo setup ctx out loop m (.rename src dst ok)
  | readFile
      {src : Path}
      (permitted : ctx.canTransfer = true)
      (requested : src ∈ requestedPaths out setup.fileRoot m)
      (content : Option Bytes) :
      MayDo setup ctx out loop m (.readFile src content)

variable {m : Message}

/-- A reply that is no message of the picture. -/
theorem mayDo_reply
    {op : Op}
    {payload : Bytes}
    (noFrame : ¬isFrameOp op) :
    ∀ effect ∈ reply out op payload, MayDo setup ctx out loop m effect := by
  intro effect member
  rw [reply_eq, List.mem_singleton] at member
  rw [member]
  exact .talk op payload _ noFrame

/-- The verdict on a file operation. -/
theorem mayDo_sendOpResult
    (status : FileOpStatus)
    (text : Bytes) :
    ∀ effect ∈ sendOpResult out status text,
      MayDo setup ctx out loop m effect :=
  mayDo_reply (by simp [isFrameOp])

/-- Closing the stream of an upload. -/
theorem mayDo_close
    {id : UInt32}
    {st : UploadState}
    (found : loop.uploads[id]? = some st)
    (flushed : Nat) :
    ∀ effect ∈ st.out.close flushed, MayDo setup ctx out loop m effect := by
  intro effect member
  simp only [OfStream.close, List.mem_cons, List.not_mem_nil, or_false]
    at member
  rcases member with rfl | rfl
  · exact .write found _ _
  · exact .close found

/-- The effects of an accepted or failed upload request. -/
theorem mayDo_beginUpload
    {req : FileUploadReqMsg}
    {dest : Path}
    (permitted : ctx.canTransfer = true)
    (op : m.op = .known .fileUploadReq)
    (requested : dest ∈ requestedPaths out setup.fileRoot m) :
    ∀ effect ∈ (beginUpload out loop req dest).effects,
      MayDo setup ctx out loop m effect := by
  have opening :
      ∀ effect ∈
          ((PathText.parentDirectories dest).filter out.creates).map
              Effect.createDirectory ++
            [.openTrunc (dest ++ ascii ".part") out.opened],
        MayDo setup ctx out loop m effect := by
    intro effect member
    rcases List.mem_append.mp member with isDirectory | isOpen
    · obtain ⟨directory, isMissing, rfl⟩ := List.mem_map.mp isDirectory
      obtain ⟨above, missing⟩ := List.mem_filter.mp isMissing
      exact .createDirectory permitted op requested above missing
    · rw [List.mem_singleton.mp isOpen]
      exact .openTemp permitted requested _
  intro effect member
  unfold beginUpload at member
  dsimp only at member
  split at member
  · rcases List.mem_append.mp member with isOpening | isReply
    · exact opening effect isOpening
    · exact mayDo_sendOpResult _ _ effect isReply
  · rcases List.mem_append.mp member with isFirst | isReply
    · rcases List.mem_append.mp isFirst with isOpening | isReplaced
      · exact opening effect isOpening
      · cases found : loop.uploads[loop.nextTransferId]? with
        | none =>
            simp [found] at isReplaced
        | some old =>
            rw [found] at isReplaced
            exact mayDo_close found _ effect isReplaced
    · exact mayDo_reply (by simp [isFrameOp]) effect isReply

/-- The effects of a completed upload. -/
theorem mayDo_finishUpload
    {id : UInt32}
    {st : UploadState}
    (found : loop.uploads[id]? = some st) :
    ∀ effect ∈ finishUpload sha256 setup ctx out id st,
      MayDo setup ctx out loop m effect := by
  have verdict :
      ∀ status action target result detail,
        action ≠ .sessionStart ∧ action ≠ .sessionEnd →
        ∀ effect ∈
            uploadVerdict setup ctx out id status action target result detail,
          MayDo setup ctx out loop m effect := by
    intro status action target result detail fileAction effect member
    rcases List.mem_append.mp member with isReply | isRow
    · exact mayDo_reply (by simp [isFrameOp]) effect isReply
    · rw [List.mem_singleton.mp isRow]
      exact .log _ _ _ _ fileAction
  intro effect member
  rcases List.mem_append.mp member with isClose | rest
  · exact mayDo_close found _ effect isClose
  · split at rest
    · rcases List.mem_cons.mp rest with rfl | rest
      · exact .renameTemp found _
      · split at rest
        · exact verdict _ _ _ _ _ (by decide) effect rest
        · rcases List.mem_cons.mp rest with rfl | rest
          · exact .removeTemp found _
          · exact verdict _ _ _ _ _ (by decide) effect rest
    · rcases List.mem_cons.mp rest with rfl | rest
      · exact .removeTemp found _
      · exact verdict _ _ _ _ _ (by decide) effect rest

/-- The messages of a download. -/
theorem mayDo_sendDownload
    (id : UInt32)
    (data : Bytes)
    (hash : Hash256) :
    ∀ effect ∈ sendDownload out id data hash,
      MayDo setup ctx out loop m effect := by
  intro effect member
  unfold sendDownload at member
  dsimp only at member
  obtain ⟨attempted, shape, only⟩ :=
    sendAll_writeMessage out.replies (downloadBlocks id data)
      (writeMessage out.replies [] (.known .fileAccept)
        (FileAcceptMsg.encode
          { transferId := id
            size := UInt64.ofNat data.length
            sha256 := hash })).2
  rw [shape] at member
  rcases List.mem_append.mp member with isFirst | isEnd
  · rcases List.mem_append.mp isFirst with isAccept | isBlock
    · rw [List.mem_singleton.mp isAccept]
      exact .talk _ _ _ (by simp [isFrameOp])
    · obtain ⟨m, isMessage, ok, rfl⟩ := only effect isBlock
      obtain ⟨index, _, rfl⟩ := List.mem_map.mp isMessage
      exact .talk _ _ _ (by simp [isFrameOp])
  · rw [List.mem_singleton.mp isEnd]
    exact .talk _ _ _ (by simp [isFrameOp])

/-- Every effect of the handler is one that it may have. -/
theorem Handles.mayDo
    {outcome : Outcome}
    (handles : Handles sha256 setup ctx out loop m outcome) :
    ∀ effect ∈ outcome.effects, MayDo setup ctx out loop m effect := by
  intro effect member
  cases handles with
  | bye op =>
      cases member
  | ignored unblocked =>
      cases member
  | mouse op permitted x y action =>
      rw [List.mem_singleton.mp member]
      exact .mouse permitted x y action
  | key op permitted down vk =>
      rw [List.mem_singleton.mp member]
      exact .key permitted down vk
  | notPermitted unblocked refused operation text =>
      rcases List.mem_cons.mp member with rfl | isReply
      · exact .log _ _ _ _ (by decide)
      · exact mayDo_sendOpResult _ _ effect isReply
  | pathRejected unblocked action target fileAction =>
      rcases List.mem_cons.mp member with rfl | isReply
      · refine .log _ _ _ _ ?_
        simp only [List.mem_cons, List.not_mem_nil, or_false] at fileAction
        rcases fileAction with rfl | rfl | rfl | rfl <;> decide
      · exact mayDo_sendOpResult _ _ effect isReply
  | upload permitted op decoded resolved =>
      refine mayDo_beginUpload permitted op ?_ effect member
      simp [requestedPaths, op, decoded, resolved]
  | block op decoded found =>
      simp only [OfStream.write] at member
      split at member
      · rw [List.mem_singleton.mp member]
        exact .write found _ _
      · cases member
  | complete op decoded found =>
      exact mayDo_finishUpload found effect member
  | delete permitted op decoded resolved =>
      rcases List.mem_append.mp member with isFirst | isReply
      · simp only [List.mem_cons, List.not_mem_nil, or_false] at isFirst
        rcases isFirst with rfl | rfl
        · exact .remove permitted
            (by simp [requestedPaths, op, decoded, resolved]) _
        · exact .log _ _ _ _ (by decide)
      · exact mayDo_sendOpResult _ _ effect isReply
  | move permitted op decoded srcResolved dstResolved =>
      rcases List.mem_append.mp member with isFirst | isReply
      · simp only [List.mem_cons, List.not_mem_nil, or_false] at isFirst
        rcases isFirst with rfl | rfl
        · exact .rename permitted
            (by simp [requestedPaths, op, decoded, srcResolved, dstResolved])
            (by simp [requestedPaths, op, decoded, srcResolved, dstResolved]) _
        · exact .log _ _ _ _ (by decide)
      · exact mayDo_sendOpResult _ _ effect isReply
  | missing permitted op decoded resolved =>
      rcases List.mem_cons.mp member with rfl | isReply
      · exact .readFile permitted
            (by simp [requestedPaths, op, decoded, resolved]) _
      · exact mayDo_sendOpResult _ _ effect isReply
  | download permitted op decoded resolved =>
      rcases List.mem_append.mp member with isFirst | isRow
      · rcases List.mem_cons.mp isFirst with rfl | isSend
        · exact .readFile permitted
            (by simp [requestedPaths, op, decoded, resolved]) _
        · exact mayDo_sendDownload _ _ _ effect isSend
      · rw [List.mem_singleton.mp isRow]
        exact .log _ _ _ _ (by decide)
  | receipt op =>
      rw [List.mem_singleton.mp member]
      exact .log _ _ _ _ (by decide)

/-- What streaming may add to a turn. -/
def Shown (setup : SessionSetup) (ctx : SessionContext) (effect : Effect) :
    Prop :=
  (ctx.canView = true ∧
      ∃ op payload ok, effect = .send op payload ok ∧ isFrameOp op) ∨
    ∃ ok, effect = .captureInitialize setup.monitor ok

/-- How a turn of the event loop ends once its message has been handled. -/
inductive Streams
    (setup : SessionSetup)
    (ctx : SessionContext)
    (out : Outside)
    (loop : LoopState)
    (effects : List Effect) : SessionPhase × List Effect → Prop where
  | live
      (next : LoopState)
      (uploads : next.uploads = loop.uploads)
      (ids : next.nextTransferId = loop.nextTransferId)
      {shown : List Effect}
      (only : ∀ effect ∈ shown, Shown setup ctx effect) :
      Streams setup ctx out loop effects (.live ctx next, effects ++ shown)
  | finished
      (next : LoopState)
      (uploads : next.uploads = loop.uploads)
      {shown : List Effect}
      (only : ∀ effect ∈ shown, Shown setup ctx effect) :
      Streams setup ctx out loop effects
        (finishSession setup ctx out next (effects ++ shown))

/-- Streaming a frame that the capture can produce comes to an end. -/
theorem streamOnce_ends
    {Channel : Type}
    (send : SendFn Channel)
    (streamer : VideoStreamer)
    (channel : Channel)
    (captured : Captured) :
    ∃ step next after,
      streamer.streamOnce send channel captured.1 =
        some (step, next, after) := by
  obtain ⟨result, acquired⟩ := captured
  cases result with
  | timeout => exact ⟨_, _, _, rfl⟩
  | lost => exact ⟨_, _, _, rfl⟩
  | error => exact ⟨_, _, _, rfl⟩
  | ok frame =>
      simp only [VideoStreamer.streamOnce]
      split
      · exact ⟨_, _, _, rfl⟩
      · next delta =>
          have isAcquired := acquired frame rfl
          have widthLimit := isAcquired.widthLimit
          have heightLimit := isAcquired.heightLimit
          have sameLength :
              streamer.prevFrame.length = frame.pixels.length := by
            simp only [not_or, not_not] at delta
            exact delta.2.2.2.2
          obtain ⟨rects, changed, _⟩ :=
            mem_changedTiles frame.width frame.height frame.stride
              kDefaultTile sameLength (by decide)
              (by unfold kDefaultTile; omega) (by unfold kDefaultTile; omega)
          rw [VideoStreamer.sendDelta, changed, Option.bind_eq_bind,
            Option.bind_some]
          split
          · exact ⟨_, _, _, rfl⟩
          · dsimp only
            split
            · exact ⟨_, _, _, rfl⟩
            · split <;> exact ⟨_, _, _, rfl⟩

/-- A turn streams at most messages of the picture, and only where it may. -/
theorem streamTurn_streams
    (effects : List Effect) :
    Streams setup ctx out loop effects
      (streamTurn setup ctx out loop effects) := by
  unfold streamTurn
  split
  · next canShow =>
      have canView : ctx.canView = true := by
        simp only [Bool.and_eq_true] at canShow
        exact canShow.1
      obtain ⟨step, streamer, sent, streamed⟩ :=
        streamOnce_ends (writeMessage out.frames) loop.streamer [] out.captured
      have frames := streamOnce_writeMessage streamed
      have only : ∀ effect ∈ sent, Shown setup ctx effect :=
        fun effect member => .inl ⟨canView, frames effect member⟩
      rw [streamed]
      cases step with
      | sent =>
          have live :
              Streams setup ctx out loop effects
                (.live ctx { loop with streamer := streamer },
                  effects ++ sent) := by
            refine .live _ ?_ ?_ only <;> rfl
          exact live
      | skipped =>
          have live :
              Streams setup ctx out loop effects
                (.live ctx { loop with streamer := streamer },
                  effects ++ sent) := by
            refine .live _ ?_ ?_ only <;> rfl
          exact live
      | lost =>
          have live :
              Streams setup ctx out loop effects
                (.live ctx
                    { loop with
                      streamer := streamer
                      captureOk := out.captureReady },
                  effects ++
                    (sent ++
                      [.captureInitialize setup.monitor
                        out.captureReady])) := by
            refine .live _ ?_ ?_ fun effect member => ?_
            · rfl
            · rfl
            rcases List.mem_append.mp member with isSent | isReset
            · exact only effect isSent
            · exact .inr ⟨_, List.mem_singleton.mp isReset⟩
          rw [← List.append_assoc] at live
          exact live
      | error =>
          have finished :
              Streams setup ctx out loop effects
                (finishSession setup ctx out
                  { loop with streamer := streamer } (effects ++ sent)) :=
            .finished _ rfl only
          exact finished
  · have idle :
        Streams setup ctx out loop effects (.live ctx loop, effects ++ []) :=
      .live loop rfl rfl (by simp)
    rwa [List.append_nil] at idle

/-- Whatever follows, the effects of the message come first. -/
theorem Streams.extends
    {effects : List Effect}
    {result : SessionPhase × List Effect}
    (streams : Streams setup ctx out loop effects result) :
    ∃ more, result.2 = effects ++ more := by
  cases streams with
  | live next uploads ids only => exact ⟨_, rfl⟩
  | finished next uploads only =>
      rw [finishSession, List.append_assoc, List.append_assoc]
      exact ⟨_, rfl⟩

/-- What a turn of the event loop can do. -/
inductive LiveTurn
    (sha256 : Bytes → Hash256)
    (setup : SessionSetup)
    (ctx : SessionContext)
    (loop : LoopState)
    (turn : Turn) : SessionPhase × List Effect → Prop where
  | unread
      {result : SessionPhase × List Effect}
      (streams : Streams setup ctx turn.outside loop [] result) :
      LiveTurn sha256 setup ctx loop turn result
  | handled
      {m : Message} {outcome : Outcome} {result : SessionPhase × List Effect}
      (running : turn.running = true)
      (read : turn.read = .ok m)
      (handles : Handles sha256 setup ctx turn.outside loop m outcome)
      (streams :
        Streams setup ctx turn.outside outcome.loop
          (.received m :: outcome.effects) result) :
      LiveTurn sha256 setup ctx loop turn result
  | threw
      {m : Message} {error : DeserializeError}
      (running : turn.running = true)
      (read : turn.read = .ok m)
      (failed :
        handle sha256 setup ctx turn.outside loop m = .error error) :
      LiveTurn sha256 setup ctx loop turn (.terminated error, [.received m])

/-- Leaving the loop is one way in which a turn ends. -/
theorem finishSession_streams
    (effects : List Effect) :
    Streams setup ctx out loop effects
      (finishSession setup ctx out loop effects) := by
  have finished :
      Streams setup ctx out loop effects
        (finishSession setup ctx out loop (effects ++ [])) :=
    .finished loop rfl (by simp)
  rwa [List.append_nil] at finished

/-- A turn of the event loop does one of these things. -/
theorem liveTurn_liveTurn
    (sha256 : Bytes → Hash256)
    (setup : SessionSetup)
    (ctx : SessionContext)
    (loop : LoopState)
    (turn : Turn) :
    LiveTurn sha256 setup ctx loop turn
      (liveTurn sha256 setup ctx loop turn) := by
  unfold liveTurn
  split
  · exact .unread (finishSession_streams [])
  · next isRunning =>
      have running : turn.running = true := by
        simpa using isRunning
      split
      · exact .unread (finishSession_streams [])
      · exact .unread (streamTurn_streams [])
      · next m read =>
          split
          · next error failed =>
              exact .threw running read failed
          · next outcome handled =>
              refine .handled running read (handle_handles handled) ?_
              split
              · exact finishSession_streams _
              · exact streamTurn_streams _

/-! ## Before the event loop -/

/-- The opcodes of the answers before the event loop. -/
def isGreetingOp (op : Op) : Prop :=
  op = .known .serverHello ∨ op = .known .authResult ∨ op = .known .error

/-- What a session may do before its mode is authorised. -/
inductive Preliminary : Effect → Prop where
  | received (m : Message) : Preliminary (.received m)
  | talk (op : Op) (payload : Bytes) (ok : Bool) (greeting : isGreetingOp op) :
      Preliminary (.send op payload ok)
  | log
      (event : AuditEvent)
      (noSession :
        event.action ≠ .sessionStart ∧ event.action ≠ .sessionEnd) :
      Preliminary (.audit event)

/-- The phases before the event loop. -/
def SessionPhase.early : SessionPhase → Prop
  | .handshake | .hello | .auth | .mode .. => True
  | .live .. | .closed _ | .terminated _ | .stuck => False

/-- How a turn before the event loop ends. -/
inductive Enters (setup : SessionSetup) (turn : Turn) :
    SessionPhase → SessionPhase × List Effect → Prop where
  | left
      {phase : SessionPhase} {effects : List Effect}
      (early : phase.early)
      (only : ∀ effect ∈ effects, Preliminary effect) :
      Enters setup turn phase (leave effects)
  | shaken : Enters setup turn .handshake (.hello, [])
  | greeted
      {effects : List Effect}
      (only : ∀ effect ∈ effects, Preliminary effect) :
      Enters setup turn .hello (.auth, effects)
  | authenticated
      (m : Message) (user payload detail : Bytes) (rights : UInt32)
      (sessionId : UInt64) (ok : Bool)
      (isResult :
        payload = AuthResultMsg.encode
          { status := .known .ok, grantedRights := rights, sessionId }) :
      Enters setup turn .auth
        (.mode user rights,
          [.received m,
            .send (.known .authResult) payload ok,
            .audit (.auth user setup.peerStr true detail)])
  | started
      {user : Bytes} {rights : UInt32} {mode : ConnectionMode}
      (m : Message) (text detail : Bytes)
      (authorized : SessionContext.authorized rights mode = true)
      (op : m.op = .known .sessionStart)
      (decoded : SessionStartMsg.decode m.payload = .ok { mode }) :
      Enters setup turn (.mode user rights)
        (.live { user, rights, mode }
            { captureOk := turn.outside.captureReady },
          [.received m,
            .setRecvTimeoutMs 0,
            .overlayShow text,
            .audit (.session user setup.peerStr true detail),
            .captureInitialize setup.monitor turn.outside.captureReady])
  | threw
      {phase : SessionPhase} {m : Message} {error : DeserializeError}
      (early : phase.early) :
      Enters setup turn phase (.terminated error, [.received m])

/-- Receiving a message and answering it is preliminary. -/
theorem preliminary_exchange
    {m : Message}
    {op : Op}
    {payload : Bytes}
    (greeting : isGreetingOp op) :
    ∀ effect ∈ .received m :: reply out op payload, Preliminary effect := by
  intro effect member
  rw [reply_eq] at member
  rcases List.mem_cons.mp member with rfl | isReply
  · exact .received m
  · rw [List.mem_singleton.mp isReply]
    exact .talk _ _ _ greeting

/-- An exchange with a log row is preliminary. -/
theorem preliminary_logged
    {m : Message}
    {op : Op}
    {payload : Bytes}
    {event : AuditEvent}
    (greeting : isGreetingOp op)
    (noSession :
      event.action ≠ .sessionStart ∧ event.action ≠ .sessionEnd) :
    ∀ effect ∈ .received m :: reply out op payload ++ [.audit event],
      Preliminary effect := by
  intro effect member
  rcases List.mem_append.mp member with isExchange | isRow
  · exact preliminary_exchange greeting effect isExchange
  · rw [List.mem_singleton.mp isRow]
    exact .log event noSession

/-- Receiving a message is preliminary. -/
theorem preliminary_received
    (m : Message) :
    ∀ effect ∈ [Effect.received m], Preliminary effect := by
  intro effect member
  rw [List.mem_singleton.mp member]
  exact .received m

/-- The greeting is read and answered. -/
theorem helloTurn_enters
    (setup : SessionSetup)
    (turn : Turn) :
    Enters setup turn .hello (helloTurn turn) := by
  unfold helloTurn
  split
  · next m read =>
      split
      · exact .left trivial (preliminary_received m)
      · split
        · exact .threw trivial
        · split
          · exact .left trivial (preliminary_exchange (by simp [isGreetingOp]))
          · exact .greeted (preliminary_exchange (by simp [isGreetingOp]))
  · exact .left trivial (by simp)
  · exact .left trivial (by simp)

/-- The credentials are read and answered. -/
theorem authTurn_enters
    (setup : SessionSetup)
    (turn : Turn) :
    Enters setup turn .auth (authTurn setup turn) := by
  unfold authTurn
  split
  · next m read =>
      split
      · exact .left trivial (preliminary_received m)
      · split
        · exact .threw trivial
        · dsimp only
          split
          · next granted =>
              simp only [granted, decide_true]
              exact .authenticated m _ _ _ _ _ _ rfl
          · next refused =>
              refine .left trivial
                (preliminary_logged (by simp [isGreetingOp]) ?_)
              simp [refused, AuditEvent.auth]
  · exact .left trivial (by simp)
  · exact .left trivial (by simp)

/-- The mode is read and the session is started in it. -/
theorem modeTurn_enters
    (setup : SessionSetup)
    (user : Bytes)
    (rights : UInt32)
    (turn : Turn) :
    Enters setup turn (.mode user rights)
      (modeTurn setup user rights turn) := by
  unfold modeTurn
  split
  · next m read =>
      split
      · exact .left trivial (preliminary_received m)
      · next isStart =>
          split
          · exact .threw trivial
          · next start decoded =>
              dsimp only
              split
              · exact .left trivial
                  (preliminary_logged (by simp [isGreetingOp])
                    (by simp [AuditEvent.fileOp]))
              · next authorized =>
                  exact .started m _ _ (by simpa using authorized)
                    (by simpa using isStart) decoded
  · exact .left trivial (by simp)
  · exact .left trivial (by simp)

/-- A turn before the event loop ends in one of these ways. -/
theorem turn_enters
    (sha256 : Bytes → Hash256)
    (setup : SessionSetup)
    {phase : SessionPhase}
    (early : phase.early)
    (turn : Turn) :
    Enters setup turn phase (phase.turn sha256 setup turn) := by
  cases phase with
  | handshake =>
      dsimp only [SessionPhase.turn]
      split
      · exact .shaken
      · refine .left trivial fun effect member => ?_
        rw [List.mem_singleton.mp member]
        exact .log _ (by simp [AuditEvent.auth])
  | hello => exact helloTurn_enters setup turn
  | auth => exact authTurn_enters setup turn
  | mode user rights => exact modeTurn_enters setup user rights turn
  | live ctx loop => exact early.elim
  | closed unfinished => exact early.elim
  | terminated error => exact early.elim
  | stuck => exact early.elim

end Inversion

end RadminPro
