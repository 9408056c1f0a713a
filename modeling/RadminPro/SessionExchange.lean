import RadminPro.SessionSteps
import RadminPro.WireCodecExact

namespace RadminPro

open ByteCodec

/-!
# Exchanges in the event loop

What the handler does with a request that its guards let through.  In a session
without a view a turn is its message and nothing else, so that a run can be
followed message by message.
-/

/-- A message that arrives while nothing else happens. -/
def messageTurn (name : OpName) (payload : Bytes) : Turn where
  read := .ok ⟨.known name, payload⟩

section Exchanges

variable {sha256 : Bytes → Hash256}
variable {setup : SessionSetup}
variable {ctx : SessionContext}
variable {out : Outside}
variable {loop : LoopState}
variable {payload : Bytes}

/-- Without a view nothing is streamed. -/
theorem streamTurn_unseen
    (unseen : ctx.canView = false)
    (effects : List Effect) :
    streamTurn setup ctx out loop effects = (.live ctx loop, effects) := by
  simp [streamTurn, unseen]

/-- A message that the handler takes without a view is all of its turn. -/
theorem step_handled
    {trace : List Effect}
    {turn : Turn}
    {m : Message}
    {outcome : Outcome}
    (unseen : ctx.canView = false)
    (running : turn.running = true)
    (read : turn.read = .ok m)
    (handled : handle sha256 setup ctx turn.outside loop m = .ok outcome)
    (goOn : outcome.goOn = true) :
    Session.step sha256 setup ⟨.live ctx loop, trace⟩ turn =
      ⟨.live ctx outcome.loop,
        trace ++ .received m :: outcome.effects⟩ := by
  simp [Session.step, SessionPhase.turn, liveTurn, running, read, handled, goOn,
    streamTurn_unseen unseen]

/-- So is a message that arrives while nothing else happens. -/
theorem step_messageTurn
    (unseen : ctx.canView = false)
    (name : OpName)
    (trace : List Effect)
    {outcome : Outcome}
    (handled :
      handle sha256 setup ctx {} loop ⟨.known name, payload⟩ = .ok outcome)
    (goOn : outcome.goOn = true) :
    Session.step sha256 setup ⟨.live ctx loop, trace⟩
        (messageTurn name payload) =
      ⟨.live ctx outcome.loop,
        trace ++ .received ⟨.known name, payload⟩ :: outcome.effects⟩ :=
  step_handled unseen rfl rfl handled goOn

/-- An upload request to a path of the sandbox begins an upload. -/
theorem handle_fileUploadReq
    {req : FileUploadReqMsg}
    {dest : Path}
    (permitted : ctx.canTransfer = true)
    (decoded : FileUploadReqMsg.decode payload = .ok req)
    (resolved : resolveInRoot out setup.fileRoot req.remotePath = some dest) :
    handle sha256 setup ctx out loop ⟨.known .fileUploadReq, payload⟩ =
      .ok (beginUpload out loop req dest) := by
  have begun :
      handleFileUploadReq setup ctx out loop payload =
        .ok (beginUpload out loop req dest) := by
    simp only [handleFileUploadReq, permitted, decoded, Bool.not_true,
      Bool.false_eq_true, if_false, bind, Except.bind, resolved]
    rfl
  exact begun

/-- An upload whose file can be opened begins under the next id. -/
theorem beginUpload_opened
    {req : FileUploadReqMsg}
    {dest : Path}
    (opened : out.opened = true)
    (unused : loop.uploads[loop.nextTransferId]? = none) :
    beginUpload out loop req dest =
      { loop :=
          { loop with
            uploads :=
              loop.uploads.insert loop.nextTransferId (.requested req dest)
            nextTransferId := loop.nextTransferId + 1 }
        effects :=
          ((PathText.parentDirectories dest).filter out.creates).map
              Effect.createDirectory ++
            [.openTrunc (dest ++ ascii ".part") true] ++
            reply out (.known .fileAccept)
              (FileAcceptMsg.encode { transferId := loop.nextTransferId }) } := by
  simp [beginUpload, opened, unused, UploadState.requested]

/-- A block of an upload under way is written, hashed and counted. -/
theorem handle_fileBlock
    {blk : FileBlockMsg}
    {st : UploadState}
    (decoded : FileBlockMsg.decode payload = .ok blk)
    (found : loop.uploads[blk.transferId]? = some st) :
    handle sha256 setup ctx out loop ⟨.known .fileBlock, payload⟩ =
      .ok
        { loop :=
            { loop with
              uploads :=
                loop.uploads.insert blk.transferId
                  { st with
                    out := (st.out.write blk.data out.flush).1
                    hasher := st.hasher.update blk.data
                    received :=
                      st.received + UInt64.ofNat blk.data.length } }
          effects := (st.out.write blk.data out.flush).2 } := by
  have written :
      handleFileBlock out loop payload =
        .ok
          { loop :=
              { loop with
                uploads :=
                  loop.uploads.insert blk.transferId
                    { st with
                      out := (st.out.write blk.data out.flush).1
                      hasher := st.hasher.update blk.data
                      received :=
                        st.received + UInt64.ofNat blk.data.length } }
            effects := (st.out.write blk.data out.flush).2 } := by
    simp only [handleFileBlock, decoded, bind, Except.bind, found]
    rfl
  exact written

/-- The completion of an upload under way is verified and answered. -/
theorem handle_fileComplete
    {id : UInt32}
    {st : UploadState}
    (decoded : parseAll ByteReader.u32 payload = .ok id)
    (found : loop.uploads[id]? = some st) :
    handle sha256 setup ctx out loop ⟨.known .fileComplete, payload⟩ =
      .ok
        { loop := { loop with uploads := loop.uploads.erase id }
          effects := finishUpload sha256 setup ctx out id st } := by
  have finished :
      handleFileComplete sha256 setup ctx out loop payload =
        .ok
          { loop := { loop with uploads := loop.uploads.erase id }
            effects := finishUpload sha256 setup ctx out id st } := by
    simp only [handleFileComplete, decoded, bind, Except.bind, found]
    rfl
  exact finished

/-- A readable file of the sandbox is sent. -/
theorem handle_fileDownloadReq
    {relPath src : Path}
    {data : Bytes}
    (permitted : ctx.canTransfer = true)
    (decoded : parseAll ByteReader.str payload = .ok relPath)
    (resolved : resolveInRoot out setup.fileRoot relPath = some src)
    (content : out.content = some data) :
    handle sha256 setup ctx out loop ⟨.known .fileDownloadReq, payload⟩ =
      .ok
        { loop := { loop with nextTransferId := loop.nextTransferId + 1 }
          effects :=
            .readFile src (some data) ::
                sendDownload out loop.nextTransferId data (sha256 data) ++
              [auditFileOp setup ctx .fileDownload src (ascii "OK")
                (ascii "sha256=" ++ toHex (sha256 data).bytes)] } := by
  have sent :
      handleFileDownloadReq sha256 setup ctx out loop payload =
        .ok
          { loop := { loop with nextTransferId := loop.nextTransferId + 1 }
            effects :=
              .readFile src (some data) ::
                  sendDownload out loop.nextTransferId data (sha256 data) ++
                [auditFileOp setup ctx .fileDownload src (ascii "OK")
                  (ascii "sha256=" ++ toHex (sha256 data).bytes)] } := by
    simp only [handleFileDownloadReq, permitted, decoded, Bool.not_true,
      Bool.false_eq_true, if_false, bind, Except.bind, resolved, content]
    rfl
  exact sent

/-! ## A download on the wire -/

/-- A batch whose messages are all written. -/
theorem sendAll_written
    {answers : Nat → Bool}
    {messages : List (Op × Bytes)}
    (small : ∀ m ∈ messages, withinCap m.2 = true)
    (sent : List Effect)
    (written : ∀ n < messages.length, answers (sent.length + n) = true) :
    (sendAll (writeMessage answers) sent messages).2 =
      sent ++ messages.map fun m => .send m.1 m.2 true := by
  induction messages generalizing sent with
  | nil =>
      simp [sendAll]
  | cons m rest inductionHypothesis =>
      obtain ⟨op, payload⟩ := m
      rw [List.forall_mem_cons] at small
      have first : answers sent.length = true := by
        simpa using written 0 (by simp)
      have head :
          writeMessage answers sent op payload =
            (true, sent ++ [.send op payload true]) := by
        have fits : withinCap payload = true := small.1
        simp [writeMessage, fits, first]
      have restWritten :
          ∀ n < rest.length,
            answers ((sent ++ [Effect.send op payload true]).length + n) =
              true := by
        intro n inside
        have later := written (n + 1) (by simpa using inside)
        rw [List.length_append, List.length_singleton, Nat.add_assoc,
          Nat.add_comm 1]
        exact later
      rw [sendAll, head]
      simp [inductionHypothesis small.2 _ restWritten]

/-- The messages of a download fit the frame cap. -/
theorem downloadBlocks_withinCap
    (id : UInt32)
    (data : Bytes) :
    ∀ m ∈ downloadBlocks id data, withinCap m.2 = true := by
  intro m member
  obtain ⟨index, _, rfl⟩ := List.mem_map.mp member
  have short :
      (BufferWindow.window data (index * kFileBlockSize)
        kFileBlockSize).length ≤ kFileBlockSize :=
    List.length_take_le _ _
  simp only [withinCap, FileBlockMsg.encode, List.length_append,
    length_putU32, length_putBlob, decide_eq_true_eq]
  unfold kMaxMessageSize
  unfold kFileBlockSize at short ⊢
  omega

/-- A batch between two messages, when all of it is written. -/
theorem batch_written
    {first last : Op}
    {announcement ending : Bytes}
    {messages : List (Op × Bytes)}
    (fits : withinCap announcement = true)
    (small : ∀ m ∈ messages, withinCap m.2 = true)
    (endFits : withinCap ending = true)
    (written : ∀ n < messages.length + 2, out.replies n = true) :
    (writeMessage out.replies
        (sendAll (writeMessage out.replies)
          (writeMessage out.replies [] first announcement).2 messages).2
        last ending).2 =
      .send first announcement true ::
        (messages.map fun m => .send m.1 m.2 true) ++
          [.send last ending true] := by
  have batch :
      (sendAll (writeMessage out.replies) [.send first announcement true]
          messages).2 =
        [.send first announcement true] ++
          messages.map fun m => .send m.1 m.2 true := by
    apply sendAll_written small
    intro n inside
    apply written
    simp only [List.length_singleton]
    omega
  have ends : out.replies (messages.length + 1) = true :=
    written _ (by omega)
  simp only [writeMessage, List.length_nil, List.nil_append, fits,
    written 0 (by omega), Bool.and_true]
  rw [batch]
  simp [endFits, ends]

/-- What the transport takes of a download when it takes everything. -/
theorem sendDownload_written
    (id : UInt32)
    (data : Bytes)
    (hash : Hash256)
    (written :
      ∀ n < (downloadBlocks id data).length + 2, out.replies n = true) :
    sendDownload out id data hash =
      .send (.known .fileAccept)
          (FileAcceptMsg.encode
            { transferId := id
              size := UInt64.ofNat data.length
              sha256 := hash }) true ::
        ((downloadBlocks id data).map fun m => .send m.1 m.2 true) ++
          [.send (.known .fileComplete) (putU32 id) true] := by
  have fits :
      withinCap
          (FileAcceptMsg.encode
            { transferId := id
              size := UInt64.ofNat data.length
              sha256 := hash }) = true := by
    simp [withinCap, FileAcceptMsg.encode, kMaxMessageSize, hash.size]
  have endFits : withinCap (putU32 id) = true := by
    simp [withinCap, kMaxMessageSize]
  exact batch_written fits (downloadBlocks_withinCap id data) endFits written

end Exchanges

end RadminPro
