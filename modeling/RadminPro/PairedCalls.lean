import RadminPro.RequestPairing

namespace RadminPro

open ByteCodec

/-!
# The calls of a connection, one by one

From every point of every call the connection comes back in tune, whatever the
disks answer, but for one: a download that has been accepted and whose local
file cannot be created.
-/

/-! ## Answers -/

/-- A verdict that is sent is awaited. -/
theorem AwaitsResult.of_transmitted
    {done : Prop}
    {status : FileOpStatus}
    {text : Bytes}
    (verdict : status = .known .ok ↔ done) :
    AwaitsResult done
      (transmitted (.known .fileOpResult)
        (FileOpResultMsg.encode ⟨status, text⟩)) := by
  unfold transmitted
  by_cases fits : withinCap (FileOpResultMsg.encode ⟨status, text⟩) = true
  · have short := length_lt_of_withinCap fits
    rw [if_pos fits]
    refine .inr ⟨status, text, verdict, ?_, rfl⟩
    simp only [FileOpResultMsg.encode, List.length_append, length_putString]
      at short
    omega
  · rw [if_neg fits]
    exact .inl rfl

/-- The verdict that arrives is the awaited one, and the last message. -/
theorem AwaitsResult.arrived
    {done : Prop}
    {m : Message}
    {rest : List Message}
    (awaits : AwaitsResult done (m :: rest)) :
    ∃ status text,
      (status = .known .ok ↔ done) ∧
        m.op = .known .fileOpResult ∧
        FileOpResultMsg.decode m.payload = .ok ⟨status, text⟩ ∧
        rest = [] := by
  rcases awaits with none | ⟨status, text, verdict, short, single⟩
  · cases none
  · rw [List.cons.injEq] at single
    obtain ⟨rfl, rfl⟩ := single
    exact ⟨status, text, verdict, rfl,
      FileOpResultMsg.decode_ok_iff.mpr ⟨short, [], by simp⟩, rfl⟩

/-- The message itself is neither a removal nor a renaming. -/
@[simp] theorem removes_received
    (m : Message)
    (effects : List Effect) :
    Removes (.received m :: effects) ↔ Removes effects := by
  simp [Removes]

@[simp] theorem renames_received
    (m : Message)
    (effects : List Effect) :
    Renames (.received m :: effects) ↔ Renames effects := by
  simp [Renames]

/-- Renamings are among the effects of one part or the other. -/
theorem renames_append
    {earlier later : List Effect}
    (notEarlier : ¬Renames earlier) :
    Renames (earlier ++ later) ↔ Renames later := by
  constructor
  · rintro ⟨src, dst, member⟩
    rcases List.mem_append.mp member with isEarlier | isLater
    · exact (notEarlier ⟨src, dst, isEarlier⟩).elim
    · exact ⟨src, dst, isLater⟩
  · rintro ⟨src, dst, member⟩
    exact ⟨src, dst, List.mem_append_right _ member⟩

/-- What is put in place is put there by a renaming. -/
theorem PutsInPlace.renames
    {effects : List Effect}
    (inPlace : PutsInPlace effects) :
    Renames effects := by
  obtain ⟨dest, member⟩ := inPlace
  exact ⟨_, _, member⟩

/-- What is put in place after effects without a renaming. -/
theorem putsInPlace_append
    {earlier later : List Effect}
    {m : Message}
    (notEarlier : ¬Renames earlier) :
    PutsInPlace (earlier ++ .received m :: later) ↔ PutsInPlace later := by
  constructor
  · rintro ⟨dest, member⟩
    rcases List.mem_append.mp member with isEarlier | isLater
    · exact (notEarlier ⟨_, _, isEarlier⟩).elim
    · rw [List.mem_cons] at isLater
      rcases isLater with same | isLater
      · cases same
      · exact ⟨dest, isLater⟩
  · rintro ⟨dest, member⟩
    exact ⟨dest, List.mem_append_right _ (List.mem_cons_of_mem _ member)⟩

/-- Without a receipt nothing counts as delivered. -/
theorem not_delivered
    {sha256 : Bytes → Hash256}
    {effects : List Effect}
    (requests :
      ∀ m, Effect.received m ∈ effects → m.op = .known .fileDownloadReq) :
    ¬Delivered sha256 effects := by
  rintro ⟨src, content, id, _, _, receipt⟩
  have other := requests _ receipt
  simp at other

/-- The effects of a handler that sends take nothing from the wire. -/
theorem Sends.not_received
    {effects : List Effect}
    {messages : List Message}
    (sends : Sends effects messages)
    (m : Message) :
    Effect.received m ∉ effects := by
  intro member
  have unread := List.filterMap_eq_nil_iff.mp sends.unread _ member
  cases unread

section Calls

variable {sha256 : Bytes → Hash256}
variable {setup : SessionSetup}
variable {ctx : SessionContext}
variable {answers : Nat → Outside}
variable {localAnswers : Nat → LocalAnswer}
variable {disk : Nat → Files}
variable {before : List Effect}
variable {c : Conversation}
variable {app : ClientApp}

/-- The transport loses nothing of what the server replies. -/
theorem reliably_replies
    (out : Outside)
    (n : Nat) :
    out.reliably.replies n = true :=
  rfl

/-! ## Deletions and moves -/

/-- A request of a deletion or a move is answered with a verdict on it. -/
theorem handle_requested
    {op : OpName}
    {payload : Bytes}
    {call : ClientCall}
    (setup : SessionSetup)
    (ctx : SessionContext)
    (out : Outside)
    (loop : LoopState)
    (requests : call.Requests sha256 ⟨.known op, payload⟩)
    (either : op = .fileDelete ∨ op = .fileMove)
    (fits : withinCap payload = true) :
    ∃ outcome,
      handle sha256 setup ctx out.reliably loop ⟨.known op, payload⟩ =
          .ok outcome ∧
        Verdict
          (fun effects =>
            call.Completed sha256 (.received ⟨.known op, payload⟩ :: effects))
          loop outcome := by
  cases call with
  | uploadFile localPath remotePath =>
      obtain ⟨content, same⟩ := requests
      rcases either with rfl | rfl <;> simp at same
  | downloadFile remotePath localPath =>
      rcases either with rfl | rfl <;> simp [ClientCall.Requests] at requests
  | deleteRemote path =>
      rw [ClientCall.Requests, Message.mk.injEq] at requests
      obtain ⟨isOp, rfl⟩ := requests
      rw [isOp]
      simp only [ClientCall.Completed, removes_received]
      exact handle_fileDelete (reliably_replies out) path fits
  | moveRemote src dst =>
      rw [ClientCall.Requests, Message.mk.injEq] at requests
      obtain ⟨isOp, rfl⟩ := requests
      rw [isOp]
      simp only [ClientCall.Completed, renames_received]
      exact handle_fileMove (reliably_replies out) src dst fits

/-- The request of a deletion or a move is written. -/
theorem regains_requesting
    {op : OpName}
    {payload : Bytes}
    (unseen : ctx.canView = false)
    (kept : c.Kept sha256)
    (atState : c.state = .requesting app op payload)
    (stands : c.Stands sha256) :
    Regains sha256 setup ctx answers localAnswers disk before
      (c.link ctx before) := by
  rw [Conversation.Stands, atState] at stands
  obtain ⟨noUploads, empty, nothing, requests, either⟩ := stands
  have going : c.state.verdict? = none := by
    rw [atState]
    rfl
  cases fits : withinCap payload with
  | false =>
      have act :
          c.state.action sha256 localAnswers = .go [] (.resultAwaited app) := by
        simp [atState, CallState.action, fits]
      exact regains_silent kept going act ⟨noUploads, .inl empty⟩
  | true =>
      have act :
          c.state.action sha256 localAnswers =
            .go [⟨.known op, payload⟩] (.resultAwaited app) := by
        simp [atState, CallState.action, fits]
      obtain ⟨outcome, taken, goOn, sameLoop, status, text, verdict, sends⟩ :=
        handle_requested setup ctx (answers c.handled) c.loop requests either fits
      refine regains_written unseen kept going act (fun _ => requests) taken goOn
        sends ?_
      rw [empty, nothing, sameLoop]
      exact ⟨noUploads, .of_transmitted verdict⟩

/-- The verdict on a deletion or a move is read. -/
theorem regains_resultAwaited
    (kept : c.Kept sha256)
    (atState : c.state = .resultAwaited app)
    (stands : c.Stands sha256) :
    Regains sha256 setup ctx answers localAnswers disk before
      (c.link ctx before) := by
  rw [Conversation.Stands, atState] at stands
  obtain ⟨noUploads, awaits⟩ := stands
  refine regains_read kept (by rw [atState]; rfl) (by rw [atState]; rfl) ?_
  intro m rest waiting
  rw [waiting] at awaits
  obtain ⟨status, text, verdict, isResult, decoded, rfl⟩ := awaits.arrived
  have received :
      ClientApp.opResultReceived (some m) =
        .returned (status = .known .ok) := by
    simp [ClientApp.opResultReceived, isResult, decoded]
  simp only [Standing]
  rw [received]
  exact ⟨noUploads, rfl, by rw [decide_eq_true_eq]; exact verdict⟩

/-! ## Transfers -/

/-- A transfer that has not returned goes on. -/
theorem transfer_going
    (atState : c.state = .transfer app)
    (goesOn : ∀ ok, app.phase ≠ .returned ok) :
    c.state.verdict? = none := by
  rw [atState]
  simp only [CallState.verdict?]

/-- What a transfer writes is written if it fits a frame. -/
theorem transfer_writes
    {op : OpName}
    {payload : Bytes}
    {next : Bool → TransferPhase}
    (atState : c.state = .transfer app)
    (act :
      app.action sha256 localAnswers = app.transmit op payload next)
    (fits : withinCap payload = true) :
    c.state.action sha256 localAnswers =
      .go [⟨.known op, payload⟩]
        (.transfer { app with phase := next true }) := by
  simp [atState, CallState.action, act, ClientApp.transmit, fits,
    FifoLink.Action.map]

/-- Otherwise the transfer goes on without it. -/
theorem transfer_withholds
    {op : OpName}
    {payload : Bytes}
    {next : Bool → TransferPhase}
    (atState : c.state = .transfer app)
    (act :
      app.action sha256 localAnswers = app.transmit op payload next)
    (tooLong : withinCap payload = false) :
    c.state.action sha256 localAnswers =
      .go [] (.transfer { app with phase := next false }) := by
  simp [atState, CallState.action, act, ClientApp.transmit, tooLong,
    FifoLink.Action.map]

/-- A refusal ends a transfer. -/
theorem rejected_of_decode
    {payload : Bytes}
    {result : FileOpResultMsg}
    (decoded : FileOpResultMsg.decode payload = .ok result) :
    ClientApp.rejected payload = .returned false := by
  rw [ClientApp.rejected, decoded]

/-- An upload request is written. -/
theorem regains_requestingUpload
    {content remotePath : Bytes}
    (unseen : ctx.canView = false)
    (kept : c.Kept sha256)
    (atState : c.state = .transfer app)
    (atPhase : app.phase = .requestingUpload content remotePath)
    (stands : c.Stands sha256) :
    Regains sha256 setup ctx answers localAnswers disk before
      (c.link ctx before) := by
  simp only [Conversation.Stands, atState, Standing, atPhase] at stands
  obtain ⟨noUploads, empty, nothing, localPath, isCall⟩ := stands
  have isUpload : c.call.IsUpload := ⟨localPath, remotePath, isCall⟩
  have notRenamed : ¬Renames c.effects := by
    rw [nothing]
    rintro ⟨src, dst, member⟩
    cases member
  let payload := (uploadRequest sha256 remotePath content).encode
  have going := transfer_going atState (by simp [atPhase])
  have act :
      app.action sha256 localAnswers =
        app.transmit .fileUploadReq payload
          fun _ => .uploadRequested content := by
    simp only [ClientApp.action, atPhase]
    rfl
  cases fits : withinCap payload with
  | false =>
      exact regains_silent kept going (transfer_withholds atState act fits)
        ⟨isUpload, notRenamed, .inl ⟨noUploads, .inl empty⟩⟩
  | true =>
      obtain ⟨outcome, taken, answered⟩ :=
        handle_uploadRequest setup ctx sha256
          (reliably_replies (answers c.handled)) noUploads remotePath content fits
      have begins :
          c.effects = [] →
            c.call.Requests sha256 ⟨.known .fileUploadReq, payload⟩ := by
        intro _
        rw [isCall]
        exact ⟨content, rfl⟩
      have written := transfer_writes atState act fits
      rcases answered with refusal | accepts
      · obtain ⟨status, text, bad, sends⟩ := refusal.answer
        refine regains_written unseen kept going written begins taken refusal.goOn
          sends ?_
        rw [empty, nothing, refusal.loop]
        refine ⟨isUpload, ?_, .inl ⟨noUploads, .of_transmitted ?_⟩⟩
        · rw [List.nil_append, renames_received]
          exact not_renames _ refusal.untouched
        · exact iff_of_false bad id
      · refine regains_written unseen kept going written begins taken accepts.goOn
          accepts.sends ?_
        rw [empty, nothing]
        let acc : FileAcceptMsg := { transferId := c.loop.nextTransferId }
        refine ⟨isUpload, ?_, .inr ⟨by simp, acc, accepts.isOpen, rfl⟩⟩
        rw [List.nil_append, renames_received]
        exact accepts.notRenamed

/-- The answer to an upload request is read. -/
theorem regains_uploadRequested
    {content : Bytes}
    (kept : c.Kept sha256)
    (atState : c.state = .transfer app)
    (atPhase : app.phase = .uploadRequested content)
    (stands : c.Stands sha256) :
    Regains sha256 setup ctx answers localAnswers disk before
      (c.link ctx before) := by
  simp only [Conversation.Stands, atState, Standing, atPhase] at stands
  obtain ⟨isUpload, notRenamed, answered⟩ := stands
  have act :
      c.state.action sha256 localAnswers =
        .wait fun m =>
          .transfer
            { app with phase := ClientApp.uploadAnswered content (some m) } := by
    simp [atState, CallState.action, ClientApp.action, atPhase,
      FifoLink.Action.map]
  refine regains_read kept (transfer_going atState (by simp [atPhase])) act ?_
  intro m rest waiting
  rw [waiting] at answered
  rcases answered with ⟨noUploads, awaits⟩ | ⟨begun, acc, isOpen, single⟩
  · obtain ⟨status, text, verdict, isResult, decoded, rfl⟩ := awaits.arrived
    have received :
        ClientApp.uploadAnswered content (some m) = .returned false := by
      simp [ClientApp.uploadAnswered, isResult, rejected_of_decode decoded]
    obtain ⟨localPath, remotePath, isCall⟩ := isUpload
    simp only [Standing]
    rw [received, isCall]
    refine ⟨noUploads, rfl, iff_of_false (by simp) ?_⟩
    exact fun inPlace => notRenamed (PutsInPlace.renames inPlace)
  · rw [List.cons.injEq] at single
    obtain ⟨rfl, rfl⟩ := single
    have received :
        ClientApp.uploadAnswered content
            (some ⟨.known .fileAccept, acc.encode⟩) =
          .sendingBlocks acc.transferId content 0 := by
      have decoded : FileAcceptMsg.decode acc.encode = .ok acc :=
        FileAcceptMsg.decode_ok_iff.mpr ⟨[], by simp⟩
      simp only [ClientApp.uploadAnswered, decoded]
      rfl
    simp only [Standing]
    rw [received]
    exact ⟨isUpload, notRenamed, rfl, begun, by simpa using isOpen⟩

/-- A block of an upload is written, or the end of it. -/
theorem regains_sendingBlocks
    {id : UInt32}
    {content : Bytes}
    {off : Nat}
    (unseen : ctx.canView = false)
    (kept : c.Kept sha256)
    (atState : c.state = .transfer app)
    (atPhase : app.phase = .sendingBlocks id content off)
    (stands : c.Stands sha256) :
    Regains sha256 setup ctx answers localAnswers disk before
      (c.link ctx before) := by
  simp only [Conversation.Stands, atState, Standing, atPhase] at stands
  obtain ⟨isUpload, notRenamed, empty, begun, isOpen⟩ := stands
  have going := transfer_going atState (by simp [atPhase])
  by_cases more : off < content.length
  · let blk : FileBlockMsg :=
      { transferId := id
        sequence := UInt32.ofNat (off / kFileBlockSize)
        data := BufferWindow.window content off kFileBlockSize }
    have act :
        app.action sha256 localAnswers =
          app.transmit .fileBlock blk.encode fun sent =>
            if sent then
              .sendingBlocks id content (off + kFileBlockSize)
            else
              .returned false := by
      simp only [ClientApp.action, atPhase]
      exact if_pos more
    have fits : withinCap blk.encode = true :=
      ClientApp.block_withinCap id _ content off
    have decoded : FileBlockMsg.decode blk.encode = .ok blk := by
      have short : blk.data.length ≤ kFileBlockSize := List.length_take_le _ _
      exact FileBlockMsg.decode_ok_iff.mpr
        ⟨Nat.lt_of_le_of_lt short (by decide), [], by simp⟩
    obtain ⟨outcome, taken, goOn, sends, keepsName, nextOpen⟩ :=
      isOpen.block setup ctx (answers c.handled).reliably
        (rfl : blk.transferId = id) decoded
    have longer :
        content.take off ++ blk.data = content.take (off + kFileBlockSize) := by
      simp only [blk, BufferWindow.window]
      exact (List.take_add).symm
    rw [longer] at nextOpen
    refine regains_written unseen kept going (transfer_writes atState act fits)
      (fun none => absurd none begun) taken goOn sends ?_
    rw [empty]
    refine ⟨isUpload, ?_, rfl, by simp, nextOpen⟩
    rw [renames_append notRenamed, renames_received]
    exact keepsName
  · have act :
        app.action sha256 localAnswers =
          app.transmit .fileComplete (putU32 id) fun _ => .uploadSent := by
      simp only [ClientApp.action, atPhase]
      exact if_neg more
    have fits : withinCap (putU32 id) = true := by
      simp [withinCap, kMaxMessageSize]
    rw [List.take_of_length_le (Nat.le_of_not_lt more)] at isOpen
    obtain ⟨outcome, status, taken, goOn, sends, noUploads, verdict⟩ :=
      isOpen.complete setup ctx (reliably_replies (answers c.handled))
    refine regains_written unseen kept going (transfer_writes atState act fits)
      (fun none => absurd none begun) taken goOn sends ?_
    rw [empty]
    refine ⟨isUpload, noUploads, id, status, ?_, rfl⟩
    rw [putsInPlace_append notRenamed]
    exact verdict

/-- The verdict on an upload is read. -/
theorem regains_uploadSent
    (kept : c.Kept sha256)
    (atState : c.state = .transfer app)
    (atPhase : app.phase = .uploadSent)
    (stands : c.Stands sha256) :
    Regains sha256 setup ctx answers localAnswers disk before
      (c.link ctx before) := by
  simp only [Conversation.Stands, atState, Standing, atPhase] at stands
  obtain ⟨⟨localPath, remotePath, isCall⟩, noUploads, id, status, verdict,
    single⟩ := stands
  have act :
      c.state.action sha256 localAnswers =
        .wait fun m =>
          .transfer
            { app with phase := ClientApp.uploadVerified (some m) } := by
    simp [atState, CallState.action, ClientApp.action, atPhase,
      FifoLink.Action.map]
  refine regains_read kept (transfer_going atState (by simp [atPhase])) act ?_
  intro m rest waiting
  rw [waiting, List.cons.injEq] at single
  obtain ⟨rfl, rfl⟩ := single
  have decoded :
      FileVerifyMsg.decode (FileVerifyMsg.encode ⟨id, status⟩) =
        .ok ⟨id, status⟩ :=
    FileVerifyMsg.decode_ok_iff.mpr ⟨[], by simp⟩
  have received :
      ClientApp.uploadVerified
          (some ⟨.known .fileVerify, FileVerifyMsg.encode ⟨id, status⟩⟩) =
        .returned (status = .known .ok) := by
    simp only [ClientApp.uploadVerified, decoded]
    rfl
  simp only [Standing]
  rw [received, isCall]
  refine ⟨noUploads, rfl, ?_⟩
  rw [decide_eq_true_eq]
  exact verdict

/-- A download request is written. -/
theorem regains_requestingDownload
    {remotePath : Bytes}
    {localPath : Path}
    (unseen : ctx.canView = false)
    (kept : c.Kept sha256)
    (atState : c.state = .transfer app)
    (atPhase : app.phase = .requestingDownload remotePath localPath)
    (stands : c.Stands sha256) :
    Regains sha256 setup ctx answers localAnswers disk before
      (c.link ctx before) := by
  simp only [Conversation.Stands, atState, Standing, atPhase] at stands
  obtain ⟨noUploads, empty, nothing, isCall⟩ := stands
  have isDownload : c.call.IsDownload := ⟨remotePath, localPath, isCall⟩
  have going := transfer_going atState (by simp [atPhase])
  have act :
      app.action sha256 localAnswers =
        app.transmit .fileDownloadReq (putString remotePath)
          fun _ => .downloadRequested localPath := by
    simp only [ClientApp.action, atPhase]
  cases fits : withinCap (putString remotePath) with
  | false =>
      refine regains_silent kept going (transfer_withholds atState act fits)
        ⟨isDownload, noUploads, .inl ⟨?_, .inl empty⟩⟩
      intro m member
      rw [nothing] at member
      cases member
  | true =>
      obtain ⟨outcome, taken, answered⟩ :=
        handle_downloadRequest setup ctx c.loop sha256
          (reliably_replies (answers c.handled)) remotePath fits
      have begins :
          c.effects = [] →
            c.call.Requests sha256
              ⟨.known .fileDownloadReq, putString remotePath⟩ := by
        intro _
        rw [isCall]
        rfl
      have written := transfer_writes atState act fits
      rcases answered with refusal | served
      · obtain ⟨status, text, bad, sends⟩ := refusal.answer
        refine regains_written unseen kept going written begins taken refusal.goOn
          sends ?_
        rw [empty, nothing, refusal.loop]
        refine ⟨isDownload, noUploads, .inl ⟨?_, .of_transmitted ?_⟩⟩
        · intro m member
          rw [List.nil_append, List.mem_cons, Effect.received.injEq] at member
          rcases member with rfl | member
          · rfl
          · exact (sends.not_received m member).elim
        · exact iff_of_false bad id
      · obtain ⟨src, content, isRead, sends⟩ := served.served
        refine regains_written unseen kept going written begins taken served.goOn
          sends ?_
        rw [empty, nothing]
        refine ⟨isDownload, ?_, .inr ⟨_, content, ⟨⟨src, ?_⟩, ?_⟩, rfl⟩⟩
        · intro id
          rw [served.uploads]
          exact noUploads id
        · exact List.mem_cons_of_mem _ isRead
        · exact sends.sent

/-- The answer to a download request is read, and the local file created. -/
theorem regains_downloadRequested
    {localPath : Path}
    (kept : c.Kept sha256)
    (atState : c.state = .transfer app)
    (atPhase : app.phase = .downloadRequested localPath)
    (created :
      ∀ m rest,
        c.inbox = m :: rest →
        m.op = .known .fileAccept →
        (localAnswers app.answered).created = true)
    (stands : c.Stands sha256) :
    Regains sha256 setup ctx answers localAnswers disk before
      (c.link ctx before) := by
  simp only [Conversation.Stands, atState, Standing, atPhase] at stands
  obtain ⟨isDownload, noUploads, answered⟩ := stands
  have act :
      c.state.action sha256 localAnswers =
        .wait fun m =>
          .transfer
            (app.downloadAnswered (localAnswers app.answered) localPath
              (some m)) := by
    simp [atState, CallState.action, ClientApp.action, atPhase,
      FifoLink.Action.map]
  refine regains_read kept (transfer_going atState (by simp [atPhase])) act ?_
  intro m rest waiting
  rw [waiting] at answered
  rcases answered with ⟨requests, awaits⟩ | ⟨id, content, served, whole⟩
  · obtain ⟨status, text, verdict, isResult, decoded, rfl⟩ := awaits.arrived
    have received :
        (app.downloadAnswered (localAnswers app.answered) localPath
            (some m)).phase = .returned false := by
      simp [ClientApp.downloadAnswered, isResult, rejected_of_decode decoded]
    obtain ⟨remotePath, localPath, isCall⟩ := isDownload
    simp only [Standing]
    rw [received, isCall]
    exact ⟨noUploads, rfl, iff_of_false (by simp) (not_delivered requests)⟩
  · rw [servedMessages, List.cons.injEq] at whole
    obtain ⟨rfl, rfl⟩ := whole
    let acc : FileAcceptMsg :=
      { transferId := id
        size := UInt64.ofNat content.length
        sha256 := sha256 content }
    have isCreated := created _ _ waiting rfl
    have received :
        (app.downloadAnswered (localAnswers app.answered) localPath
            (some ⟨.known .fileAccept, acc.encode⟩)).phase =
          .receivingBlocks acc { path := localPath } .empty 0 := by
      have decoded : FileAcceptMsg.decode acc.encode = .ok acc :=
        FileAcceptMsg.decode_ok_iff.mpr ⟨[], by simp⟩
      simp [ClientApp.downloadAnswered, decoded, isCreated]
    simp only [Standing]
    rw [received]
    refine ⟨isDownload, noUploads, content,
      List.range ((content.length + kFileBlockSize - 1) / kFileBlockSize), served,
      rfl, rfl, ?_, ?_, rfl⟩
    · rw [downloadBlocks, List.map_map]
      rfl
    · exact BufferWindow.flatten_windows content (by decide)

/-- A block of a download is read, or the end of it. -/
theorem regains_receivingBlocks
    {acc : FileAcceptMsg}
    {out : OfStream}
    {hasher : Sha256}
    {got : UInt64}
    (kept : c.Kept sha256)
    (atState : c.state = .transfer app)
    (atPhase : app.phase = .receivingBlocks acc out hasher got)
    (stands : c.Stands sha256) :
    Regains sha256 setup ctx answers localAnswers disk before
      (c.link ctx before) := by
  simp only [Conversation.Stands, atState, Standing, atPhase] at stands
  obtain ⟨isDownload, noUploads, content, indices, served, size, declared,
    wire, together, counted⟩ := stands
  have act :
      c.state.action sha256 localAnswers =
        .wait fun m =>
          .transfer
            (app.blockReceived sha256 (localAnswers app.answered) acc out hasher
              got (some m)) := by
    simp [atState, CallState.action, ClientApp.action, atPhase,
      FifoLink.Action.map]
  refine regains_read kept (transfer_going atState (by simp [atPhase])) act ?_
  intro m rest waiting
  rw [waiting] at wire
  cases indices with
  | nil =>
      -- All blocks have come; what was hashed is the file.
      rw [windowsOf, List.map_nil, List.flatten_nil, List.append_nil] at together
      rw [blockMessages, List.map_nil, List.nil_append, List.cons.injEq] at wire
      obtain ⟨rfl, rfl⟩ := wire
      have agrees :
          got = acc.size ∧ hasher.finish sha256 = acc.sha256 :=
        ⟨by rw [counted, size, together],
          by rw [Sha256.finish, together, declared]⟩
      have received :
          (app.blockReceived sha256 (localAnswers app.answered) acc out hasher got
              (some ⟨.known .fileComplete, putU32 acc.transferId⟩)).phase =
            .sendingReceipt acc.transferId true := by
        simp [ClientApp.blockReceived, ClientApp.leaveStream, agrees]
      simp only [Standing]
      rw [received]
      exact ⟨isDownload, noUploads, rfl, rfl, content, served⟩
  | cons index others =>
      rw [windowsOf, List.map_cons, List.flatten_cons, ← List.append_assoc]
        at together
      rw [blockMessages, List.map_cons, List.cons_append, List.cons.injEq] at wire
      obtain ⟨rfl, rfl⟩ := wire
      let blk : FileBlockMsg :=
        { transferId := acc.transferId
          sequence := UInt32.ofNat index
          data :=
            BufferWindow.window content (index * kFileBlockSize) kFileBlockSize }
      have decoded : FileBlockMsg.decode blk.encode = .ok blk := by
        have short : blk.data.length ≤ kFileBlockSize := List.length_take_le _ _
        exact FileBlockMsg.decode_ok_iff.mpr
          ⟨Nat.lt_of_le_of_lt short (by decide), [], by simp⟩
      have received :
          (app.blockReceived sha256 (localAnswers app.answered) acc out hasher got
              (some ⟨.known .fileBlock, blk.encode⟩)).phase =
            .receivingBlocks acc
              (out.write blk.data (localAnswers app.answered).flush).1
              (hasher.update blk.data) (got + UInt64.ofNat blk.data.length) := by
        have same : blk.transferId = acc.transferId := rfl
        simp [ClientApp.blockReceived, decoded, same]
      simp only [Standing]
      rw [received]
      refine ⟨isDownload, noUploads, content, others, served, size, declared, rfl,
        together, ?_⟩
      rw [counted, Sha256.update, List.length_append, UInt64.ofNat_add]

/-- The receipt of a download is written. -/
theorem regains_sendingReceipt
    {id : UInt32}
    {ok : Bool}
    (unseen : ctx.canView = false)
    (kept : c.Kept sha256)
    (atState : c.state = .transfer app)
    (atPhase : app.phase = .sendingReceipt id ok)
    (stands : c.Stands sha256) :
    Regains sha256 setup ctx answers localAnswers disk before
      (c.link ctx before) := by
  simp only [Conversation.Stands, atState, Standing, atPhase] at stands
  obtain ⟨⟨remotePath, localPath, isCall⟩, noUploads, empty, rfl, content,
    ⟨src, isRead⟩, sent⟩ := stands
  let payload := FileVerifyMsg.encode ⟨id, .known .ok⟩
  let outcome : Outcome := { loop := c.loop }
  have act :
      app.action sha256 localAnswers =
        app.transmit .fileVerify payload fun _ => .returned true := by
    simp only [ClientApp.action, atPhase]
    rfl
  have fits : withinCap payload = true := by
    simp [withinCap, payload, FileVerifyMsg.encode, kMaxMessageSize]
  have taken :
      handle sha256 setup ctx (answers c.handled).reliably c.loop
          ⟨.known .fileVerify, payload⟩ =
        .ok outcome :=
    handle_fileVerify id
  have begun : c.effects ≠ [] := List.ne_nil_of_mem isRead
  have silent : Sends outcome.effects [] :=
    ⟨rfl, rfl⟩
  refine regains_written unseen kept (transfer_going atState (by simp [atPhase]))
    (transfer_writes atState act fits) (fun none => absurd none begun) taken rfl
    silent ?_
  rw [empty, isCall]
  refine ⟨noUploads, rfl, iff_of_true rfl ?_⟩
  refine ⟨src, content, id, List.mem_append_left _ isRead, ?_,
    List.mem_append_right _ List.mem_cons_self⟩
  rw [sentMessages_append, sent]
  exact List.append_nil _

end Calls

end RadminPro
