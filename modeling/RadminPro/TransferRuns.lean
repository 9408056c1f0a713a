import RadminPro.ClientTransfer
import RadminPro.UploadVerdicts

namespace RadminPro

open ByteCodec

/-!
# A transfer from end to end

The client's transfer and the server's session face each other over a reliable
transport.  The session takes its messages one by one and puts its answers on
the wire one by one; both work on their own disks.
-/

/-- The server's end of the connection, with the disk behind it. -/
structure ServerEnd where
  session : Session
  files : Files
  outbox : List Message := []
  handled : Nat := 0

/-- The messages that have reached the transport. -/
def sentMessages (effects : List Effect) : List Message :=
  effects.filterMap fun effect =>
    match effect with
    | .send op payload true => some ⟨op, payload⟩
    | _ => none

/-- A download reads the file that is on disk. -/
def Outside.onDisk
    (out : Outside)
    (root : Path)
    (files : Files)
    (m : Message) : Outside :=
  { out with content := (requestedPaths out root m).head?.bind files }

namespace ServerEnd

/-- The session takes a message. -/
def receive
    (sha256 : Bytes → Hash256)
    (setup : SessionSetup)
    (answers : Nat → Outside)
    (server : ServerEnd)
    (m : Message) : ServerEnd :=
  let turn : Turn :=
    { read := .ok m
      outside :=
        (answers server.handled).onDisk setup.fileRoot server.files m }
  let effects := turnEffects sha256 setup server.session turn
  { session := server.session.step sha256 setup turn
    files := filesAfter server.files effects
    outbox := sentMessages effects
    handled := server.handled + 1 }

/-- What the server does next. -/
def action
    (sha256 : Bytes → Hash256)
    (setup : SessionSetup)
    (answers : Nat → Outside)
    (server : ServerEnd) : FifoLink.Action ServerEnd Message Message :=
  match server.outbox with
  | m :: rest => .go [m] { server with outbox := rest }
  | [] => .wait (server.receive sha256 setup answers)

end ServerEnd

/-- The operations of a turn do not fail; a close hands over up to `size` bytes. -/
structure Unfailing (size : Nat) (out : Outside) : Prop where
  replies : ∀ n, out.replies n = true
  opened : out.opened = true
  flush : out.flush.ok = true
  close : size ≤ out.flushedAtClose
  renamed : out.renamed = true

/-- Neither do those of the client. -/
structure LocalAnswer.Unfailing (size : Nat) (answer : LocalAnswer) : Prop where
  created : answer.created = true
  flush : answer.flush.ok = true
  close : size ≤ answer.flushedAtClose

/-- The client and the server of one connection. -/
abbrev Connection := FifoLink.Link ClientApp ServerEnd Message Message

/-- So many moves of the two lead from one state of a connection to another. -/
abbrev Moves
    (sha256 : Bytes → Hash256)
    (setup : SessionSetup)
    (answers : Nat → Outside)
    (localAnswers : Nat → LocalAnswer) :
    Nat → Connection → Connection → Prop :=
  FifoLink.Leads (ClientApp.action sha256 localAnswers)
    (ServerEnd.action sha256 setup answers)

section Transfers

variable {sha256 : Bytes → Hash256}
variable {setup : SessionSetup}
variable {ctx : SessionContext}
variable {answers : Nat → Outside}
variable {localAnswers : Nat → LocalAnswer}


/-- What a message that the handler takes leaves of the server. -/
theorem receive_handled
    {loop : LoopState}
    {trace : List Effect}
    {files : Files}
    {handled : Nat}
    {m : Message}
    {outcome : Outcome}
    (unseen : ctx.canView = false)
    (result :
      handle sha256 setup ctx
          ((answers handled).onDisk setup.fileRoot files m) loop m =
        .ok outcome)
    (goOn : outcome.goOn = true) :
    ServerEnd.receive sha256 setup answers
        ⟨⟨.live ctx loop, trace⟩, files, [], handled⟩ m =
      { session :=
          ⟨.live ctx outcome.loop, trace ++ .received m :: outcome.effects⟩
        files := filesAfter files outcome.effects
        outbox := sentMessages outcome.effects
        handled := handled + 1 } := by
  have effects :
      turnEffects sha256 setup ⟨.live ctx loop, trace⟩
          { read := .ok m
            outside := (answers handled).onDisk setup.fileRoot files m } =
        .received m :: outcome.effects := by
    simp [turnEffects, SessionPhase.turn, liveTurn, result, goOn,
      streamTurn_unseen unseen]
  let turn : Turn :=
    { read := .ok m
      outside := (answers handled).onDisk setup.fileRoot files m }
  have stepped :
      Session.step sha256 setup ⟨.live ctx loop, trace⟩ turn =
        ⟨.live ctx outcome.loop, trace ++ .received m :: outcome.effects⟩ :=
    step_handled unseen rfl rfl result goOn
  simp only [ServerEnd.receive, effects, stepped, turn]
  rw [filesAfter_cons_unchanged rfl]
  rfl

/-! ## Single moves -/

/-- The server takes a message. -/
theorem leads_receive
    {app : ClientApp}
    {session : Session}
    {files : Files}
    {handled : Nat}
    (m : Message)
    (toRight toLeft : List Message) :
    Moves sha256 setup answers localAnswers 1
      ⟨app, ⟨session, files, [], handled⟩, m :: toRight, toLeft⟩
      ⟨app, ServerEnd.receive sha256 setup answers ⟨session, files, [], handled⟩ m,
        toRight, toLeft⟩ :=
  FifoLink.leads_right_wait rfl m

/-- The server puts its answers on the wire. -/
theorem leads_outbox
    {app : ClientApp}
    {session : Session}
    {files : Files}
    {handled : Nat}
    (outbox toRight toLeft : List Message) :
    Moves sha256 setup answers localAnswers outbox.length
      ⟨app, ⟨session, files, outbox, handled⟩, toRight, toLeft⟩
      ⟨app, ⟨session, files, [], handled⟩, toRight, toLeft ++ outbox⟩ := by
  induction outbox generalizing toLeft with
  | nil =>
      rw [List.append_nil]
      exact .refl _
  | cons m rest inductionHypothesis =>
      have sends :
          Moves sha256 setup answers localAnswers 1
            ⟨app, ⟨session, files, m :: rest, handled⟩, toRight, toLeft⟩
            ⟨app, ⟨session, files, rest, handled⟩, toRight, toLeft ++ [m]⟩ :=
        FifoLink.leads_right_go rfl
      have all := sends.trans (inductionHypothesis (toLeft ++ [m]))
      rw [List.append_assoc, List.singleton_append, Nat.add_comm] at all
      exact all

/-- The client writes a message that the frame cap allows. -/
theorem leads_transmit
    {app : ClientApp}
    {server : ServerEnd}
    {op : OpName}
    {payload : Bytes}
    {next : Bool → TransferPhase}
    (act :
      app.action sha256 localAnswers = app.transmit op payload next)
    (fits : withinCap payload = true)
    (toRight toLeft : List Message) :
    Moves sha256 setup answers localAnswers 1
      ⟨app, server, toRight, toLeft⟩
      ⟨{ app with phase := next true }, server,
        toRight ++ [⟨.known op, payload⟩], toLeft⟩ := by
  apply FifoLink.leads_left_go
  rw [act]
  simp [ClientApp.transmit, fits]

/-- The client writes a message and the session takes it. -/
theorem leads_exchange
    (trace : List Effect)
    {app : ClientApp}
    {loop : LoopState}
    {files : Files}
    {handled : Nat}
    {op : OpName}
    {payload : Bytes}
    {next : Bool → TransferPhase}
    {outcome : Outcome}
    (act :
      app.action sha256 localAnswers = app.transmit op payload next)
    (fits : withinCap payload = true)
    (unseen : ctx.canView = false)
    (result :
      handle sha256 setup ctx
          ((answers handled).onDisk setup.fileRoot files ⟨.known op, payload⟩)
          loop ⟨.known op, payload⟩ =
        .ok outcome)
    (goOn : outcome.goOn = true) :
    Moves sha256 setup answers localAnswers
      (2 + (sentMessages outcome.effects).length)
      ⟨app, ⟨⟨.live ctx loop, trace⟩, files, [], handled⟩, [], []⟩
      ⟨{ app with phase := next true },
        ⟨⟨.live ctx outcome.loop,
            trace ++ .received ⟨.known op, payload⟩ :: outcome.effects⟩,
          filesAfter files outcome.effects, [], handled + 1⟩,
        [], sentMessages outcome.effects⟩ := by
  let server : ServerEnd := ⟨⟨.live ctx loop, trace⟩, files, [], handled⟩
  let after : ServerEnd :=
    ⟨⟨.live ctx outcome.loop,
        trace ++ .received ⟨.known op, payload⟩ :: outcome.effects⟩,
      filesAfter files outcome.effects, [], handled + 1⟩
  have written :
      Moves sha256 setup answers localAnswers 1 ⟨app, server, [], []⟩
        ⟨{ app with phase := next true }, server, [⟨.known op, payload⟩], []⟩ :=
    leads_transmit act fits [] []
  have taken :
      Moves sha256 setup answers localAnswers 1
        ⟨{ app with phase := next true }, server, [⟨.known op, payload⟩], []⟩
        ⟨{ app with phase := next true },
          { after with outbox := sentMessages outcome.effects }, [], []⟩ := by
    have receives :
        Moves sha256 setup answers localAnswers 1
          ⟨{ app with phase := next true }, server, [⟨.known op, payload⟩], []⟩
          ⟨{ app with phase := next true },
            server.receive sha256 setup answers ⟨.known op, payload⟩, [], []⟩ :=
      leads_receive _ [] []
    rw [receive_handled unseen result goOn] at receives
    exact receives
  have answered :
      Moves sha256 setup answers localAnswers
        (sentMessages outcome.effects).length
        ⟨{ app with phase := next true },
          { after with outbox := sentMessages outcome.effects }, [], []⟩
        ⟨{ app with phase := next true }, after, [],
          sentMessages outcome.effects⟩ :=
    leads_outbox _ [] []
  exact (written.trans taken).trans answered

/-! ## An upload -/

@[simp] theorem sentMessages_nil : sentMessages [] = [] :=
  rfl

@[simp] theorem sentMessages_send
    (op : Op)
    (payload : Bytes)
    (rest : List Effect) :
    sentMessages (.send op payload true :: rest) =
      ⟨op, payload⟩ :: sentMessages rest :=
  rfl

@[simp] theorem sentMessages_readFile
    (path : Path)
    (content : Option Bytes)
    (rest : List Effect) :
    sentMessages (.readFile path content :: rest) = sentMessages rest :=
  rfl

@[simp] theorem sentMessages_audit (event : AuditEvent) (rest : List Effect) :
    sentMessages (.audit event :: rest) = sentMessages rest :=
  rfl

theorem sentMessages_append (first second : List Effect) :
    sentMessages (first ++ second) = sentMessages first ++ sentMessages second :=
  List.filterMap_append

/-- A reply that the transport takes. -/
theorem sentMessages_reply
    {out : Outside}
    {op : Op}
    {payload : Bytes}
    (fits : withinCap payload = true)
    (written : out.replies 0 = true) :
    sentMessages (reply out op payload) = [⟨op, payload⟩] := by
  rw [reply_eq, fits, written]
  rfl

/--
The session has accepted an upload of `content` to `dest` and has taken `sofar`
of it; other uploads and other files are as they were.
-/
structure Underway
    (sha256 : Bytes → Hash256)
    (dest : Path)
    (content : Bytes)
    (before : LoopState)
    (stored : Files)
    (sofar : Bytes)
    (loop : LoopState)
    (files : Files) : Prop where
  ids : loop.nextTransferId = before.nextTransferId + 1
  others :
    ∀ other : UInt32,
      other ≠ before.nextTransferId →
      loop.uploads[other]? = before.uploads[other]?
  spared : ∀ path, path ≠ dest ++ ascii ".part" → files path = stored path
  upload :
    ∃ st,
      loop.uploads[before.nextTransferId]? = some st ∧
        st.finalPath = dest ∧
        st.tempPath = dest ++ ascii ".part" ∧
        st.out.path = dest ++ ascii ".part" ∧
        st.expected = UInt64.ofNat content.length ∧
        st.declared = sha256 content ∧
        st.received = UInt64.ofNat sofar.length ∧
        st.hasher.fed = sofar ∧
        st.out.Holds files sofar

/-- An entry of the map leaves the others alone. -/
theorem uploads_insert_other
    (uploads : Uploads)
    {id other : UInt32}
    (different : other ≠ id)
    (st : UploadState) :
    (uploads.insert id st)[other]? = uploads[other]? := by
  rw [Std.TreeMap.getElem?_insert, if_neg]
  intro same
  exact different (Std.compare_eq_iff_eq.mp same).symm

/-- So does the end of one. -/
theorem uploads_erase
    (uploads : Uploads)
    (id other : UInt32) :
    (uploads.erase id)[other]? =
      if other = id then none else uploads[other]? := by
  rw [Std.TreeMap.getElem?_erase]
  by_cases same : other = id
  · rw [if_pos same, if_pos (Std.compare_eq_iff_eq.mpr same.symm)]
  · rw [if_neg same, if_neg]
    exact fun isSame => same (Std.compare_eq_iff_eq.mp isSame).symm

/-- An accepted request has taken nothing yet. -/
theorem underway_begun
    {loop : LoopState}
    {files : Files}
    {out : Outside}
    {req : FileUploadReqMsg}
    {dest : Path}
    {content : Bytes}
    (unfailing : Unfailing content.length out)
    (unused : loop.uploads[loop.nextTransferId]? = none)
    (size : req.size = UInt64.ofNat content.length)
    (declared : req.sha256 = sha256 content) :
    ∃ outcome,
      beginUpload out loop req dest = outcome ∧
        outcome.goOn = true ∧
        sentMessages outcome.effects =
          [⟨.known .fileAccept,
            FileAcceptMsg.encode { transferId := loop.nextTransferId }⟩] ∧
        Underway sha256 dest content loop files [] outcome.loop
          (filesAfter files outcome.effects) := by
  let directories :=
    ((PathText.parentDirectories dest).filter out.creates).map
      Effect.createDirectory
  have onlyDirectories :
      ∀ effect ∈ directories, ∃ directory, effect = .createDirectory directory := by
    intro effect member
    obtain ⟨directory, _, rfl⟩ := List.mem_map.mp member
    exact ⟨directory, rfl⟩
  have noMessages : sentMessages directories = [] := by
    apply List.filterMap_eq_nil_iff.mpr
    intro effect member
    obtain ⟨directory, rfl⟩ := onlyDirectories effect member
    rfl
  have accepted :
      withinCap (FileAcceptMsg.encode { transferId := loop.nextTransferId }) =
        true := by
    simp [withinCap, FileAcceptMsg.encode, kMaxMessageSize]
  have stored :
      filesAfter files
          (directories ++ [.openTrunc (dest ++ ascii ".part") true] ++
            reply out (.known .fileAccept)
              (FileAcceptMsg.encode { transferId := loop.nextTransferId })) =
        FileStore.apply files (.truncate (dest ++ ascii ".part")) := by
    rw [filesAfter_append, filesAfter_append, filesAfter_unchanged files]
    · rfl
    · intro effect member
      obtain ⟨directory, rfl⟩ := onlyDirectories effect member
      rfl
  refine ⟨_, beginUpload_opened unfailing.opened unused, rfl, ?_, ?_⟩
  · dsimp only
    rw [sentMessages_append, sentMessages_append, noMessages,
      sentMessages_reply accepted (unfailing.replies 0)]
    rfl
  · rw [stored]
    refine ⟨rfl, ?_, ?_, ?_⟩
    · intro other different
      exact uploads_insert_other _ different _
    · intro path different
      exact FileStore.apply_other files (by simpa [FileStore.Change.paths])
    · refine ⟨_, Std.TreeMap.getElem?_insert_self, rfl, rfl, rfl, size, declared,
        rfl, rfl, ?_⟩
      exact OfStream.holds_opened (FileStore.apply_truncate _ _)

/-- A block is taken. -/
theorem Underway.block
    (setup : SessionSetup)
    (ctx : SessionContext)
    {out : Outside}
    {before loop : LoopState}
    {stored files : Files}
    {dest : Path}
    {content sofar : Bytes}
    {blk : FileBlockMsg}
    (underway : Underway sha256 dest content before stored sofar loop files)
    (id : blk.transferId = before.nextTransferId)
    (flushed : out.flush.ok = true)
    (decoded : FileBlockMsg.decode blk.encode = .ok blk) :
    ∃ outcome,
      handle sha256 setup ctx out loop ⟨.known .fileBlock, blk.encode⟩ =
          .ok outcome ∧
        outcome.goOn = true ∧
        sentMessages outcome.effects = [] ∧
        Underway sha256 dest content before stored (sofar ++ blk.data)
          outcome.loop (filesAfter files outcome.effects) := by
  obtain ⟨st, found, finalPath, tempPath, path, expected, declared, received,
    fed, holds⟩ := underway.upload
  rw [← id] at found
  have noMessages :
      sentMessages (st.out.write blk.data out.flush).2 = [] := by
    unfold OfStream.write
    split <;> rfl
  have samePath : (st.out.write blk.data out.flush).1.path = st.out.path := by
    unfold OfStream.write
    split <;> rfl
  refine ⟨_, handle_fileBlock decoded found, rfl, noMessages, underway.ids, ?_,
    ?_, ?_⟩
  · intro other different
    rw [← underway.others other different]
    exact uploads_insert_other _ (by rwa [id]) _
  · intro other different
    rw [← underway.spared other different]
    exact filesAfter_spared files
      (st.out.write_spares blk.data out.flush (by rwa [path]))
  · rw [← id]
    refine ⟨_, Std.TreeMap.getElem?_insert_self, finalPath, tempPath,
      samePath.trans path, expected, declared, ?_, ?_,
      holds.write blk.data flushed⟩
    · rw [received, List.length_append, UInt64.ofNat_add]
    · rw [Sha256.update, fed]

/-- A complete upload is verified and put in its place. -/
theorem Underway.complete
    (setup : SessionSetup)
    (ctx : SessionContext)
    {out : Outside}
    {before loop : LoopState}
    {stored files : Files}
    {dest : Path}
    {content : Bytes}
    (underway : Underway sha256 dest content before stored content loop files)
    (unfailing : Unfailing content.length out) :
    ∃ outcome,
      handle sha256 setup ctx out loop
            ⟨.known .fileComplete, putU32 before.nextTransferId⟩ =
          .ok outcome ∧
        outcome.goOn = true ∧
        sentMessages outcome.effects =
          [⟨.known .fileVerify,
            FileVerifyMsg.encode ⟨before.nextTransferId, .known .ok⟩⟩] ∧
        outcome.loop.nextTransferId = before.nextTransferId + 1 ∧
        (∀ other : UInt32,
          outcome.loop.uploads[other]? =
            if other = before.nextTransferId then
              none
            else
              before.uploads[other]?) ∧
        filesAfter files outcome.effects dest = some content ∧
        ∀ path,
          path ≠ dest →
          path ≠ dest ++ ascii ".part" →
          filesAfter files outcome.effects path = stored path := by
  obtain ⟨st, found, finalPath, tempPath, path, expected, declared, received,
    fed, holds⟩ := underway.upload
  have decoded :
      parseAll ByteReader.u32 (putU32 before.nextTransferId) =
        .ok before.nextTransferId :=
    (parseAll_ok_iff ByteReader.u32_reads).mpr ⟨_, rfl, [], by simp⟩
  have agrees :
      st.received = st.expected ∧ st.hasher.finish sha256 = st.declared :=
    ⟨received.trans expected.symm, by rw [Sha256.finish, fed, declared]⟩
  have fits :
      withinCap
          (FileVerifyMsg.encode ⟨before.nextTransferId, .known .ok⟩) = true := by
    simp [withinCap, FileVerifyMsg.encode, kMaxMessageSize]
  let detail := ascii "sha256=" ++ toHex (st.hasher.finish sha256).bytes
  have effects :
      finishUpload sha256 setup ctx out before.nextTransferId st =
        st.out.close out.flushedAtClose ++
          (.rename (dest ++ ascii ".part") dest true ::
            uploadVerdict setup ctx out before.nextTransferId (.known .ok)
              .fileUpload dest (ascii "OK") detail) := by
    rw [finishUpload, if_pos agrees, unfailing.renamed, if_pos rfl, tempPath,
      finalPath]
  have onDisk :
      filesAfter files (st.out.close out.flushedAtClose)
          (dest ++ ascii ".part") =
        some content := by
    rw [← path]
    exact holds.close (Nat.le_trans holds.buffered_le unfailing.close)
  have stored :
      filesAfter files
          (finishUpload sha256 setup ctx out before.nextTransferId st) =
        FileStore.apply (filesAfter files (st.out.close out.flushedAtClose))
          (.rename (dest ++ ascii ".part") dest) := by
    rw [effects, filesAfter_append, filesAfter_cons_change rfl,
      filesAfter_unchanged]
    intro effect member
    rcases List.mem_append.mp member with isReply | isRow
    · rw [reply_eq] at isReply
      rw [List.mem_singleton.mp isReply]
      rfl
    · rw [List.mem_singleton.mp isRow]
      rfl
  refine ⟨_, handle_fileComplete decoded found, rfl, ?_, underway.ids, ?_, ?_,
    ?_⟩
  · dsimp only
    have closed : sentMessages (st.out.close out.flushedAtClose) = [] :=
      rfl
    have verdict :
        sentMessages
            (.rename (dest ++ ascii ".part") dest true ::
              uploadVerdict setup ctx out before.nextTransferId (.known .ok)
                .fileUpload dest (ascii "OK") detail) =
          sentMessages
            (reply out (.known .fileVerify)
              (FileVerifyMsg.encode ⟨before.nextTransferId, .known .ok⟩)) := by
      rw [uploadVerdict, ← List.singleton_append, sentMessages_append,
        sentMessages_append]
      exact List.append_nil _
    rw [effects, sentMessages_append, closed, verdict,
      sentMessages_reply fits (unfailing.replies 0)]
    rfl
  · intro other
    rw [uploads_erase]
    split
    · rfl
    · next different =>
        exact underway.others other different
  · rw [stored]
    exact FileStore.apply_rename onDisk dest
  · intro other notDest notTemp
    rw [stored, FileStore.apply_other _ (by
      simp [FileStore.Change.paths, notDest, notTemp])]
    rw [← underway.spared other notTemp]
    exact filesAfter_spared files
      (st.out.close_spares _ (by rwa [path]))

/-- The blocks of an upload, as the client cuts them. -/
theorem leads_blocks
    (setup : SessionSetup)
    (localAnswers : Nat → LocalAnswer)
    (trace : List Effect)
    (handled : Nat)
    {app : ClientApp}
    {before loop : LoopState}
    {stored files : Files}
    {dest : Path}
    {content : Bytes}
    {off : Nat}
    (unseen : ctx.canView = false)
    (unfailing : ∀ n, Unfailing content.length (answers n))
    (sending :
      app.phase = .sendingBlocks before.nextTransferId content off)
    (underway :
      Underway sha256 dest content before stored (content.take off) loop files)
    {count : Nat}
    (enough : content.length ≤ off + count * kFileBlockSize) :
    ∃ moves ≤ 2 * count, ∃ past loop' trace' files' handled',
      content.length ≤ past ∧
        Underway sha256 dest content before stored content loop' files' ∧
        Moves sha256 setup answers localAnswers moves
          ⟨app, ⟨⟨.live ctx loop, trace⟩, files, [], handled⟩, [], []⟩
          ⟨{ app with
              phase := .sendingBlocks before.nextTransferId content past },
            ⟨⟨.live ctx loop', trace'⟩, files', [], handled'⟩, [], []⟩ := by
  induction count generalizing off app loop trace files handled with
  | zero =>
      have past : content.length ≤ off := by
        simpa using enough
      rw [List.take_of_length_le past] at underway
      refine ⟨0, Nat.le_refl 0, off, loop, trace, files, handled, past, underway,
        ?_⟩
      rw [← sending]
      exact .refl _
  | succ count inductionHypothesis =>
      by_cases past : content.length ≤ off
      · rw [List.take_of_length_le past] at underway
        refine ⟨0, Nat.zero_le _, off, loop, trace, files, handled, past,
          underway, ?_⟩
        rw [← sending]
        exact .refl _
      · -- One block more: the client cuts it, the session takes it.
        let blk : FileBlockMsg :=
          { transferId := before.nextTransferId
            sequence := UInt32.ofNat (off / kFileBlockSize)
            data := BufferWindow.window content off kFileBlockSize }
        have short : blk.data.length ≤ kFileBlockSize :=
          List.length_take_le _ _
        have act :
            app.action sha256 localAnswers =
              app.transmit .fileBlock blk.encode fun sent =>
                if sent then
                  .sendingBlocks before.nextTransferId content
                    (off + kFileBlockSize)
                else
                  .returned false := by
          simp only [ClientApp.action, sending]
          exact if_pos (Nat.lt_of_not_le past)
        have fits : withinCap blk.encode = true := by
          simp only [withinCap, FileBlockMsg.encode, List.length_append,
            length_putU32, length_putBlob, decide_eq_true_eq]
          unfold kMaxMessageSize
          unfold kFileBlockSize at short
          omega
        have decoded : FileBlockMsg.decode blk.encode = .ok blk := by
          apply FileBlockMsg.decode_ok_iff.mpr
          refine ⟨Nat.lt_of_le_of_lt short (by decide), [], by simp⟩
        have taken :
            content.take off ++ blk.data = content.take (off + kFileBlockSize) :=
          List.take_add.symm
        let out :=
          (answers handled).onDisk setup.fileRoot files
            ⟨.known .fileBlock, blk.encode⟩
        have flushed : out.flush.ok = true :=
          (unfailing handled).flush
        obtain ⟨outcome, result, goOn, noMessages, further⟩ :=
          underway.block setup ctx rfl flushed decoded
        rw [taken] at further
        have exchange :=
          leads_exchange trace act fits unseen result goOn
        rw [noMessages] at exchange
        have restEnough :
            content.length ≤
              off + kFileBlockSize + count * kFileBlockSize := by
          rw [Nat.succ_mul] at enough
          omega
        let next : ClientApp :=
          { app with
            phase :=
              .sendingBlocks before.nextTransferId content
                (off + kFileBlockSize) }
        have stillSending :
            next.phase =
              .sendingBlocks before.nextTransferId content
                (off + kFileBlockSize) :=
          rfl
        obtain ⟨moves, few, last, loop', trace', files', handled', past',
          finished, rest⟩ :=
          inductionHypothesis _ _ stillSending further restEnough
        refine ⟨2 + moves, by omega, last, loop', trace', files', handled',
          past', finished, ?_⟩
        exact exchange.trans rest

/-- The blocks that a content is cut into. -/
def blockCount (content : Bytes) : Nat :=
  (content.length + kFileBlockSize - 1) / kFileBlockSize

theorem length_le_blockCount (content : Bytes) :
    content.length ≤ blockCount content * kFileBlockSize := by
  have rounded :=
    Nat.lt_div_mul_add (a := content.length + kFileBlockSize - 1)
      (b := kFileBlockSize) (by decide)
  unfold blockCount
  omega

/-- The session before a transfer: in the event loop, and the next id is free. -/
structure Ready (ctx : SessionContext) (loop : LoopState) : Prop where
  mode : ctx.mode = .known .fileOnly
  permitted : ctx.canTransfer = true
  unused : loop.uploads[loop.nextTransferId]? = none

/-- In a session for files nothing is streamed. -/
theorem Ready.unseen
    {loop : LoopState}
    (ready : Ready ctx loop) :
    ctx.canView = false := by
  simp [SessionContext.canView, ready.mode]

/-- An acceptance lets the client send its blocks. -/
theorem uploadAnswered_accept
    (content : Bytes)
    (acc : FileAcceptMsg) :
    ClientApp.uploadAnswered content (some ⟨.known .fileAccept, acc.encode⟩) =
      .sendingBlocks acc.transferId content 0 := by
  have decoded : FileAcceptMsg.decode acc.encode = .ok acc :=
    FileAcceptMsg.decode_ok_iff.mpr ⟨[], by simp⟩
  simp [ClientApp.uploadAnswered, decoded]

/-- A good verdict ends an upload well. -/
theorem uploadVerified_ok (id : UInt32) :
    ClientApp.uploadVerified
        (some ⟨.known .fileVerify, FileVerifyMsg.encode ⟨id, .known .ok⟩⟩) =
      .returned true := by
  have decoded :
      FileVerifyMsg.decode (FileVerifyMsg.encode ⟨id, .known .ok⟩) =
        .ok ⟨id, .known .ok⟩ :=
    FileVerifyMsg.decode_ok_iff.mpr ⟨[], by simp⟩
  simp [ClientApp.uploadVerified, decoded]

/-- An accepted upload runs to its end. -/
theorem upload_leads
    (localAnswers : Nat → LocalAnswer)
    {loop : LoopState}
    {files localFiles : Files}
    {content remotePath : Bytes}
    {localPath dest : Path}
    (trace : List Effect)
    (ready : Ready ctx loop)
    (unfailing : ∀ n, Unfailing content.length (answers n))
    (accepted :
      resolveInRoot (answers 0) setup.fileRoot remotePath = some dest)
    (fits :
      withinCap
          (FileUploadReqMsg.encode
            { remotePath
              size := UInt64.ofNat content.length
              sha256 := sha256 content }) = true)
    (present : localFiles localPath = some content) :
    ∃ moves ≤ 2 * blockCount content + 8, ∃ answered loop' trace' files' handled',
      Moves sha256 setup answers localAnswers moves
          ⟨.uploadFile localFiles localPath remotePath,
            ⟨⟨.live ctx loop, trace⟩, files, [], 0⟩, [], []⟩
          ⟨⟨.returned true, localFiles, answered⟩,
            ⟨⟨.live ctx loop', trace'⟩, files', [], handled'⟩, [], []⟩ ∧
        loop'.nextTransferId = loop.nextTransferId + 1 ∧
        (∀ id : UInt32, loop'.uploads[id]? = loop.uploads[id]?) ∧
        files' dest = some content ∧
        ∀ path,
          path ≠ dest →
          path ≠ dest ++ ascii ".part" → files' path = files path := by
  let req : FileUploadReqMsg :=
    { remotePath
      size := UInt64.ofNat content.length
      sha256 := sha256 content }
  let m : Message := ⟨.known .fileUploadReq, req.encode⟩
  have starts :
      ClientApp.uploadFile localFiles localPath remotePath =
        ⟨.requestingUpload content remotePath, localFiles, 0⟩ := by
    simp [ClientApp.uploadFile, present]
  -- The request is sent, taken and answered.
  have decoded : FileUploadReqMsg.decode req.encode = .ok req := by
    apply FileUploadReqMsg.decode_ok_iff.mpr
    refine ⟨?_, [], by simp⟩
    simp only [withinCap, FileUploadReqMsg.encode, List.length_append,
      length_putString, decide_eq_true_eq] at fits
    unfold kMaxMessageSize at fits
    change remotePath.length < 2 ^ 32
    omega
  have handled :
      handle sha256 setup ctx ((answers 0).onDisk setup.fileRoot files m) loop m =
        .ok
          (beginUpload ((answers 0).onDisk setup.fileRoot files m) loop req
            dest) :=
    handle_fileUploadReq ready.permitted decoded accepted
  have stillUnfailing :
      Unfailing content.length ((answers 0).onDisk setup.fileRoot files m) :=
    ⟨(unfailing 0).replies, (unfailing 0).opened, (unfailing 0).flush,
      (unfailing 0).close, (unfailing 0).renamed⟩
  have size : req.size = UInt64.ofNat content.length :=
    rfl
  have declared : req.sha256 = sha256 content :=
    rfl
  obtain ⟨outcome, begun, goOn, answer, underway⟩ :=
    underway_begun stillUnfailing ready.unused size declared
  rw [begun] at handled
  have act :
      (⟨.requestingUpload content remotePath, localFiles, 0⟩ :
          ClientApp).action sha256 localAnswers =
        ClientApp.transmit ⟨.requestingUpload content remotePath, localFiles, 0⟩
          .fileUploadReq req.encode fun _ => .uploadRequested content :=
    rfl
  have requested := leads_exchange trace act fits ready.unseen handled goOn
  rw [answer] at requested
  -- The client takes the answer and sends its blocks.
  let server : ServerEnd :=
    ⟨⟨.live ctx outcome.loop, trace ++ .received m :: outcome.effects⟩,
      filesAfter files outcome.effects, [], 1⟩
  let sending : ClientApp :=
    ⟨.sendingBlocks loop.nextTransferId content 0, localFiles, 0⟩
  have proceeds :
      Moves sha256 setup answers localAnswers 1
        ⟨⟨.uploadRequested content, localFiles, 0⟩, server, [],
          [⟨.known .fileAccept,
            FileAcceptMsg.encode { transferId := loop.nextTransferId }⟩]⟩
        ⟨sending, server, [], []⟩ := by
    have waits :
        (⟨.uploadRequested content, localFiles, 0⟩ : ClientApp).action sha256
            localAnswers =
          .wait fun m =>
            ⟨ClientApp.uploadAnswered content (some m), localFiles, 0⟩ :=
      rfl
    have receives :
        Moves sha256 setup answers localAnswers 1
          ⟨⟨.uploadRequested content, localFiles, 0⟩, server, [],
            [⟨.known .fileAccept,
              FileAcceptMsg.encode { transferId := loop.nextTransferId }⟩]⟩
          ⟨⟨ClientApp.uploadAnswered content
                (some ⟨.known .fileAccept,
                  FileAcceptMsg.encode { transferId := loop.nextTransferId }⟩),
              localFiles, 0⟩, server, [], []⟩ :=
      FifoLink.leads_left_wait waits _
    rw [uploadAnswered_accept] at receives
    exact receives
  have nothingYet :
      Underway sha256 dest content loop files (content.take 0) outcome.loop
        (filesAfter files outcome.effects) := by
    rw [List.take_zero]
    exact underway
  have allBlocks : content.length ≤ 0 + blockCount content * kFileBlockSize := by
    rw [Nat.zero_add]
    exact length_le_blockCount content
  have isSending : sending.phase = .sendingBlocks loop.nextTransferId content 0 :=
    rfl
  obtain ⟨moves, few, past, sentLoop, sentTrace, sentFiles, sentHandled, isPast,
    sentAll, blocks⟩ :=
    leads_blocks setup localAnswers (trace ++ .received m :: outcome.effects) 1
      ready.unseen unfailing isSending nothingYet allBlocks
  -- The client ends the upload and gets its verdict.
  let finishing : ClientApp :=
    ⟨.sendingBlocks loop.nextTransferId content past, localFiles, 0⟩
  let complete : Message := ⟨.known .fileComplete, putU32 loop.nextTransferId⟩
  have completeUnfailing :
      Unfailing content.length
        ((answers sentHandled).onDisk setup.fileRoot sentFiles complete) :=
    ⟨(unfailing _).replies, (unfailing _).opened, (unfailing _).flush,
      (unfailing _).close, (unfailing _).renamed⟩
  obtain ⟨last, isComplete, lastGoOn, verdict, ids, uploads, stored, spared⟩ :=
    sentAll.complete setup ctx completeUnfailing
  have ends :
      finishing.action sha256 localAnswers =
        finishing.transmit .fileComplete (putU32 loop.nextTransferId)
          fun _ => .uploadSent :=
    if_neg (Nat.not_lt_of_le isPast)
  have endFits : withinCap (putU32 loop.nextTransferId) = true := by
    simp [withinCap, kMaxMessageSize]
  have completed :=
    leads_exchange sentTrace ends endFits ready.unseen isComplete lastGoOn
  rw [verdict] at completed
  have waits :
      (⟨.uploadSent, localFiles, 0⟩ : ClientApp).action sha256 localAnswers =
        .wait fun m => ⟨ClientApp.uploadVerified (some m), localFiles, 0⟩ :=
    rfl
  let final : ServerEnd :=
    ⟨⟨.live ctx last.loop,
        sentTrace ++ .received complete :: last.effects⟩,
      filesAfter sentFiles last.effects, [], sentHandled + 1⟩
  have returns :
      Moves sha256 setup answers localAnswers 1
        ⟨⟨.uploadSent, localFiles, 0⟩, final, [],
          [⟨.known .fileVerify,
            FileVerifyMsg.encode ⟨loop.nextTransferId, .known .ok⟩⟩]⟩
        ⟨⟨ClientApp.uploadVerified
              (some ⟨.known .fileVerify,
                FileVerifyMsg.encode ⟨loop.nextTransferId, .known .ok⟩⟩),
            localFiles, 0⟩, final, [], []⟩ :=
    FifoLink.leads_left_wait waits _
  rw [uploadVerified_ok] at returns
  refine ⟨3 + 1 + moves + 3 + 1, by omega, 0, last.loop,
    sentTrace ++ .received complete :: last.effects,
    filesAfter sentFiles last.effects, sentHandled + 1, ?_, ids, ?_, stored,
    spared⟩
  · rw [starts]
    exact (((requested.trans proceeds).trans blocks).trans completed).trans
      returns
  · intro id
    rw [uploads]
    split
    · next isNew =>
        rw [isNew, ready.unused]
    · rfl

/-! ## A download -/

/-- The client has written `sofar` of a download to its file, and nothing else. -/
structure Receiving
    (acc : FileAcceptMsg)
    (localPath : Path)
    (stored : Files)
    (sofar : Bytes)
    (app : ClientApp) : Prop where
  stream :
    ∃ out hasher got,
      app.phase = .receivingBlocks acc out hasher got ∧
        out.path = localPath ∧
        hasher.fed = sofar ∧
        got = UInt64.ofNat sofar.length ∧
        out.Holds app.files sofar
  spared : ∀ path, path ≠ localPath → app.files path = stored path

/-- An accepted download opens its file. -/
theorem receiving_begun
    (app : ClientApp)
    {answer : LocalAnswer}
    (created : answer.created = true)
    (localPath : Path)
    (acc : FileAcceptMsg) :
    Receiving acc localPath app.files []
      (app.downloadAnswered answer localPath
        (some ⟨.known .fileAccept, acc.encode⟩)) := by
  have decoded : FileAcceptMsg.decode acc.encode = .ok acc :=
    FileAcceptMsg.decode_ok_iff.mpr ⟨[], by simp⟩
  have opened :
      app.downloadAnswered answer localPath
          (some ⟨.known .fileAccept, acc.encode⟩) =
        { phase := .receivingBlocks acc { path := localPath } .empty 0
          files := FileStore.apply app.files (.truncate localPath)
          answered := app.answered + 1 } := by
    simp only [ClientApp.downloadAnswered, decoded, created]
    rfl
  rw [opened]
  constructor
  · refine ⟨_, _, _, rfl, rfl, rfl, rfl, ?_⟩
    exact OfStream.holds_opened (FileStore.apply_truncate _ _)
  · intro path other
    have untouched :
        path ∉ (FileStore.Change.truncate localPath :
          FileStore.Change Path UInt8).paths := by
      simpa [FileStore.Change.paths] using other
    exact FileStore.apply_other _ untouched

/-- A block is written behind what is there. -/
theorem Receiving.block
    (sha256 : Bytes → Hash256)
    (setup : SessionSetup)
    (answers : Nat → Outside)
    {acc : FileAcceptMsg}
    {localPath : Path}
    {stored : Files}
    {sofar : Bytes}
    {app : ClientApp}
    (receiving : Receiving acc localPath stored sofar app)
    (localUnfailing : ∀ n, (localAnswers n).flush.ok = true)
    {blk : FileBlockMsg}
    (id : blk.transferId = acc.transferId)
    (decoded : FileBlockMsg.decode blk.encode = .ok blk)
    (server : ServerEnd)
    (toRight toLeft : List Message) :
    ∃ next,
      Receiving acc localPath stored (sofar ++ blk.data) next ∧
        Moves sha256 setup answers localAnswers 1
          ⟨app, server, toRight, ⟨.known .fileBlock, blk.encode⟩ :: toLeft⟩
          ⟨next, server, toRight, toLeft⟩ := by
  obtain ⟨out, hasher, got, phase, path, fed, counted, holds⟩ :=
    receiving.stream
  have waits :
      app.action sha256 localAnswers =
        .wait fun m =>
          app.blockReceived sha256 (localAnswers app.answered) acc out hasher got
            (some m) := by
    simp [ClientApp.action, phase]
  refine ⟨_, ?_, FifoLink.leads_left_wait waits _⟩
  have taken :
      app.blockReceived sha256 (localAnswers app.answered) acc out hasher got
          (some ⟨.known .fileBlock, blk.encode⟩) =
        { phase :=
            .receivingBlocks acc
              (out.write blk.data (localAnswers app.answered).flush).1
              (hasher.update blk.data)
              (got + UInt64.ofNat blk.data.length)
          files :=
            filesAfter app.files
              (out.write blk.data (localAnswers app.answered).flush).2
          answered := app.answered + 1 } := by
    simp [ClientApp.blockReceived, decoded, id]
  have samePath :
      (out.write blk.data (localAnswers app.answered).flush).1.path =
        out.path := by
    unfold OfStream.write
    split <;> rfl
  rw [taken]
  constructor
  · refine ⟨_, _, _, rfl, samePath.trans path, ?_, ?_,
      holds.write blk.data (localUnfailing app.answered)⟩
    · rw [Sha256.update, fed]
    · rw [counted, List.length_append, UInt64.ofNat_add]
  · intro other different
    rw [← receiving.spared other different]
    exact filesAfter_spared _ (out.write_spares _ _ (by rwa [path]))

/-- All blocks of a download are written one behind the other. -/
theorem Receiving.blocks
    (sha256 : Bytes → Hash256)
    (setup : SessionSetup)
    (answers : Nat → Outside)
    {acc : FileAcceptMsg}
    {localPath : Path}
    {stored : Files}
    {sofar : Bytes}
    {app : ClientApp}
    (receiving : Receiving acc localPath stored sofar app)
    (localUnfailing : ∀ n, (localAnswers n).flush.ok = true)
    (content : Bytes)
    (indices : List Nat)
    (server : ServerEnd)
    (toLeft : List Message) :
    ∃ next,
      Receiving acc localPath stored
          (sofar ++
            (indices.map fun index =>
              BufferWindow.window content (index * kFileBlockSize)
                kFileBlockSize).flatten)
          next ∧
        Moves sha256 setup answers localAnswers indices.length
          ⟨app, server, [],
            (indices.map fun index =>
                (⟨.known .fileBlock,
                  FileBlockMsg.encode
                    { transferId := acc.transferId
                      sequence := UInt32.ofNat index
                      data :=
                        BufferWindow.window content (index * kFileBlockSize)
                          kFileBlockSize }⟩ : Message)) ++
              toLeft⟩
          ⟨next, server, [], toLeft⟩ := by
  induction indices generalizing sofar app with
  | nil =>
      refine ⟨app, ?_, .refl _⟩
      simpa using receiving
  | cons index rest inductionHypothesis =>
      let blk : FileBlockMsg :=
        { transferId := acc.transferId
          sequence := UInt32.ofNat index
          data :=
            BufferWindow.window content (index * kFileBlockSize)
              kFileBlockSize }
      have decoded : FileBlockMsg.decode blk.encode = .ok blk := by
        apply FileBlockMsg.decode_ok_iff.mpr
        have short : blk.data.length ≤ kFileBlockSize :=
          List.length_take_le _ _
        exact ⟨Nat.lt_of_le_of_lt short (by decide), [], by simp⟩
      have sameId : blk.transferId = acc.transferId :=
        rfl
      obtain ⟨middle, taken, first⟩ :=
        receiving.block sha256 setup answers localUnfailing sameId decoded
          server []
          ((rest.map fun index =>
              (⟨.known .fileBlock,
                FileBlockMsg.encode
                  { transferId := acc.transferId
                    sequence := UInt32.ofNat index
                    data :=
                      BufferWindow.window content (index * kFileBlockSize)
                        kFileBlockSize }⟩ : Message)) ++
            toLeft)
      obtain ⟨next, finished, others⟩ := inductionHypothesis taken
      refine ⟨next, ?_, ?_⟩
      · simpa [blk] using finished
      · have all := first.trans others
        rw [Nat.add_comm] at all
        exact all

/-- The end of a download verifies it. -/
theorem Receiving.complete
    (setup : SessionSetup)
    (answers : Nat → Outside)
    {acc : FileAcceptMsg}
    {localPath : Path}
    {stored : Files}
    {content : Bytes}
    {app : ClientApp}
    (receiving : Receiving acc localPath stored content app)
    (localUnfailing : ∀ n, (localAnswers n).Unfailing content.length)
    (size : acc.size = UInt64.ofNat content.length)
    (declared : acc.sha256 = sha256 content)
    (server : ServerEnd)
    (payload : Bytes) :
    ∃ files answered,
      files localPath = some content ∧
        (∀ path, path ≠ localPath → files path = stored path) ∧
        Moves sha256 setup answers localAnswers 1
          ⟨app, server, [], [⟨.known .fileComplete, payload⟩]⟩
          ⟨⟨.sendingReceipt acc.transferId true, files, answered⟩, server, [],
            []⟩ := by
  obtain ⟨out, hasher, got, phase, path, fed, counted, holds⟩ :=
    receiving.stream
  have waits :
      app.action sha256 localAnswers =
        .wait fun m =>
          app.blockReceived sha256 (localAnswers app.answered) acc out hasher got
            (some m) := by
    simp [ClientApp.action, phase]
  have agrees : got = acc.size ∧ hasher.finish sha256 = acc.sha256 :=
    ⟨counted.trans size.symm, by rw [Sha256.finish, fed, declared]⟩
  have finished :
      app.blockReceived sha256 (localAnswers app.answered) acc out hasher got
          (some ⟨.known .fileComplete, payload⟩) =
        ⟨.sendingReceipt acc.transferId true,
          filesAfter app.files
            (out.close (localAnswers app.answered).flushedAtClose),
          app.answered + 1⟩ := by
    simp [ClientApp.blockReceived, ClientApp.leaveStream, agrees]
  refine ⟨filesAfter app.files
      (out.close (localAnswers app.answered).flushedAtClose),
    app.answered + 1, ?_, ?_, ?_⟩
  · rw [← path]
    exact holds.close
      (Nat.le_trans holds.buffered_le (localUnfailing app.answered).close)
  · intro other different
    rw [← receiving.spared other different]
    exact filesAfter_spared _ (out.close_spares _ (by rwa [path]))
  · rw [← finished]
    exact FifoLink.leads_left_wait waits _

/-- A good receipt changes nothing at the server. -/
theorem handle_fileVerify
    {out : Outside}
    {loop : LoopState}
    (id : UInt32) :
    handle sha256 setup ctx out loop
        ⟨.known .fileVerify, FileVerifyMsg.encode ⟨id, .known .ok⟩⟩ =
      .ok { loop } := by
  have decoded :
      FileVerifyMsg.decode (FileVerifyMsg.encode ⟨id, .known .ok⟩) =
        .ok ⟨id, .known .ok⟩ :=
    FileVerifyMsg.decode_ok_iff.mpr ⟨[], by simp⟩
  have received :
      handleFileVerify setup ctx loop (FileVerifyMsg.encode ⟨id, .known .ok⟩) =
        .ok { loop } := by
    simp only [handleFileVerify, decoded, bind, Except.bind]
    rfl
  exact received

/-- Messages that are all written reach the transport. -/
theorem sentMessages_written (messages : List (Op × Bytes)) :
    sentMessages (messages.map fun m => .send m.1 m.2 true) =
      messages.map fun m => ⟨m.1, m.2⟩ := by
  induction messages with
  | nil =>
      rfl
  | cons m rest inductionHypothesis =>
      rw [List.map_cons, List.map_cons, ← inductionHypothesis]
      rfl

/-- A download that is written out: what is on the wire, and no file changed. -/
theorem served_effects
    (files : Files)
    (src : Path)
    (content announcement ending : Bytes)
    (messages : List (Op × Bytes))
    (row : AuditEvent) :
    let effects : List Effect :=
      .readFile src (some content) ::
          (.send (.known .fileAccept) announcement true ::
            (messages.map fun m => .send m.1 m.2 true) ++
              [.send (.known .fileComplete) ending true]) ++
        [.audit row]
    sentMessages effects =
        ⟨.known .fileAccept, announcement⟩ ::
          ((messages.map fun m => ⟨m.1, m.2⟩) ++
            [⟨.known .fileComplete, ending⟩]) ∧
      filesAfter files effects = files := by
  intro effects
  constructor
  · simp only [effects, List.cons_append, sentMessages_readFile,
      sentMessages_append, sentMessages_send, sentMessages_audit,
      sentMessages_nil, sentMessages_written, List.append_nil]
  · apply filesAfter_unchanged
    intro effect member
    simp only [effects, List.cons_append, List.mem_cons, List.mem_append,
      List.mem_map, List.not_mem_nil, or_false] at member
    rcases member with rfl | rfl | (⟨m, _, rfl⟩ | rfl) | rfl
    · rfl
    · rfl
    · rfl
    · rfl
    · rfl

/-- A request for a file that is there is served in full. -/
theorem handle_served
    (loop : LoopState)
    {out : Outside}
    {remotePath : Bytes}
    {src : Path}
    {content : Bytes}
    (permitted : ctx.canTransfer = true)
    (decoded : parseAll ByteReader.str (putString remotePath) = .ok remotePath)
    (resolved : resolveInRoot out setup.fileRoot remotePath = some src)
    (onDisk : out.content = some content)
    (written : ∀ n, out.replies n = true)
    (files : Files) :
    ∃ outcome,
      handle sha256 setup ctx out loop
            ⟨.known .fileDownloadReq, putString remotePath⟩ =
          .ok outcome ∧
        outcome.goOn = true ∧
        outcome.loop =
          { loop with nextTransferId := loop.nextTransferId + 1 } ∧
        sentMessages outcome.effects =
          ⟨.known .fileAccept,
              FileAcceptMsg.encode
                { transferId := loop.nextTransferId
                  size := UInt64.ofNat content.length
                  sha256 := sha256 content }⟩ ::
            (((downloadBlocks loop.nextTransferId content).map fun m =>
                ⟨m.1, m.2⟩) ++
              [⟨.known .fileComplete, putU32 loop.nextTransferId⟩]) ∧
        filesAfter files outcome.effects = files := by
  refine ⟨_, handle_fileDownloadReq permitted decoded resolved onDisk, rfl, rfl,
    ?_⟩
  dsimp only
  rw [sendDownload_written _ _ _ fun n _ => written n]
  exact served_effects files src content _ _ _ _

/-- What is on the wire of a served download is taken, written and verified. -/
theorem receiving_all
    (setup : SessionSetup)
    (answers : Nat → Outside)
    {localFiles : Files}
    {content : Bytes}
    {acc : FileAcceptMsg}
    (localUnfailing : ∀ n, (localAnswers n).Unfailing content.length)
    (size : acc.size = UInt64.ofNat content.length)
    (declared : acc.sha256 = sha256 content)
    (localPath : Path)
    (server : ServerEnd)
    (ending : Bytes) :
    ∃ files answered,
      files localPath = some content ∧
        (∀ path, path ≠ localPath → files path = localFiles path) ∧
        Moves sha256 setup answers localAnswers (blockCount content + 2)
          ⟨⟨.downloadRequested localPath, localFiles, 0⟩, server, [],
            ⟨.known .fileAccept, acc.encode⟩ ::
              (((downloadBlocks acc.transferId content).map fun m =>
                  ⟨m.1, m.2⟩) ++
                [⟨.known .fileComplete, ending⟩])⟩
          ⟨⟨.sendingReceipt acc.transferId true, files, answered⟩, server, [],
            []⟩ := by
  let asking : ClientApp := ⟨.downloadRequested localPath, localFiles, 0⟩
  have waits :
      asking.action sha256 localAnswers =
        .wait fun m =>
          asking.downloadAnswered (localAnswers 0) localPath (some m) :=
    rfl
  have begun :
      Receiving acc localPath localFiles []
        (asking.downloadAnswered (localAnswers 0) localPath
          (some ⟨.known .fileAccept, acc.encode⟩)) :=
    receiving_begun asking (localUnfailing 0).created localPath acc
  obtain ⟨filled, holdsAll, blocks⟩ :=
    begun.blocks sha256 setup answers (fun n => (localUnfailing n).flush)
      content (List.range (blockCount content)) server
      [⟨.known .fileComplete, ending⟩]
  rw [List.nil_append, blockCount,
    BufferWindow.flatten_windows content (by decide)] at holdsAll
  obtain ⟨files, answered, stored, spared, finishes⟩ :=
    holdsAll.complete setup answers localUnfailing size declared server ending
  refine ⟨files, answered, stored, spared, ?_⟩
  rw [List.length_range] at blocks
  have wire :
      ((downloadBlocks acc.transferId content).map fun m =>
          (⟨m.1, m.2⟩ : Message)) =
        (List.range (blockCount content)).map fun index =>
          ⟨.known .fileBlock,
            FileBlockMsg.encode
              { transferId := acc.transferId
                sequence := UInt32.ofNat index
                data :=
                  BufferWindow.window content (index * kFileBlockSize)
                    kFileBlockSize }⟩ := by
    rw [downloadBlocks, List.map_map]
    rfl
  have first :
      Moves sha256 setup answers localAnswers 1
        ⟨asking, server, [],
          ⟨.known .fileAccept, acc.encode⟩ ::
            (((downloadBlocks acc.transferId content).map fun m =>
                ⟨m.1, m.2⟩) ++
              [⟨.known .fileComplete, ending⟩])⟩
        ⟨asking.downloadAnswered (localAnswers 0) localPath
            (some ⟨.known .fileAccept, acc.encode⟩), server, [],
          ((downloadBlocks acc.transferId content).map fun m => ⟨m.1, m.2⟩) ++
            [⟨.known .fileComplete, ending⟩]⟩ :=
    FifoLink.leads_left_wait waits _
  rw [wire] at first ⊢
  have all := (first.trans blocks).trans finishes
  rw [Nat.add_comm 1] at all
  exact all

/-- The receipt of a good download is sent and taken. -/
theorem leads_receipt
    (setup : SessionSetup)
    (answers : Nat → Outside)
    (localAnswers : Nat → LocalAnswer)
    (unseen : ctx.canView = false)
    (id : UInt32)
    (localFiles files : Files)
    (answered handled : Nat)
    (loop : LoopState)
    (trace : List Effect) :
    Moves sha256 setup answers localAnswers 2
      ⟨⟨.sendingReceipt id true, localFiles, answered⟩,
        ⟨⟨.live ctx loop, trace⟩, files, [], handled⟩, [], []⟩
      ⟨⟨.returned true, localFiles, answered⟩,
        ⟨⟨.live ctx loop,
            trace ++
              [.received
                ⟨.known .fileVerify, FileVerifyMsg.encode ⟨id, .known .ok⟩⟩]⟩,
          files, [], handled + 1⟩, [], []⟩ := by
  let verified : ClientApp := ⟨.sendingReceipt id true, localFiles, answered⟩
  let outcome : Outcome := { loop }
  have act :
      verified.action sha256 localAnswers =
        verified.transmit .fileVerify
          (FileVerifyMsg.encode ⟨id, .known .ok⟩) fun _ => .returned true :=
    rfl
  have fits : withinCap (FileVerifyMsg.encode ⟨id, .known .ok⟩) = true := by
    simp [withinCap, FileVerifyMsg.encode, kMaxMessageSize]
  have taken :
      handle sha256 setup ctx
          ((answers handled).onDisk setup.fileRoot files
            ⟨.known .fileVerify, FileVerifyMsg.encode ⟨id, .known .ok⟩⟩)
          loop ⟨.known .fileVerify, FileVerifyMsg.encode ⟨id, .known .ok⟩⟩ =
        .ok outcome :=
    handle_fileVerify id
  exact leads_exchange trace act fits unseen taken rfl

/-- An accepted download runs to its end. -/
theorem download_leads
    (sha256 : Bytes → Hash256)
    {loop : LoopState}
    {files localFiles : Files}
    {content remotePath : Bytes}
    {localPath src : Path}
    (trace : List Effect)
    (ready : Ready ctx loop)
    (unfailing : ∀ n, Unfailing content.length (answers n))
    (localUnfailing : ∀ n, (localAnswers n).Unfailing content.length)
    (accepted :
      resolveInRoot (answers 0) setup.fileRoot remotePath = some src)
    (fits : withinCap (putString remotePath) = true)
    (present : files src = some content) :
    ∃ moves ≤ 2 * blockCount content + 8,
      ∃ localFiles' answered loop' trace' handled',
        Moves sha256 setup answers localAnswers moves
            ⟨.downloadFile localFiles remotePath localPath,
              ⟨⟨.live ctx loop, trace⟩, files, [], 0⟩, [], []⟩
            ⟨⟨.returned true, localFiles', answered⟩,
              ⟨⟨.live ctx loop', trace'⟩, files, [], handled'⟩, [], []⟩ ∧
          loop'.nextTransferId = loop.nextTransferId + 1 ∧
          (∀ id : UInt32, loop'.uploads[id]? = loop.uploads[id]?) ∧
          localFiles' localPath = some content ∧
          ∀ path, path ≠ localPath → localFiles' path = localFiles path := by
  let m : Message := ⟨.known .fileDownloadReq, putString remotePath⟩
  let out := (answers 0).onDisk setup.fileRoot files m
  let id := loop.nextTransferId
  have decoded :
      parseAll ByteReader.str (putString remotePath) = .ok remotePath := by
    apply (parseAll_ok_iff ByteReader.str_reads).mpr
    refine ⟨_, ⟨rfl, ?_⟩, [], by simp⟩
    simp only [withinCap, length_putString, decide_eq_true_eq] at fits
    unfold kMaxMessageSize at fits
    omega
  have requested : requestedPaths (answers 0) setup.fileRoot m = [src] := by
    simp [requestedPaths, m, decoded, accepted]
  have onDisk : out.content = some content := by
    simp [out, Outside.onDisk, requested, present]
  have resolved : resolveInRoot out setup.fileRoot remotePath = some src :=
    accepted
  obtain ⟨outcome, handled, goOn, after, sent, unchanged⟩ :=
    handle_served loop ready.permitted decoded resolved onDisk
      (unfailing 0).replies files
  -- The request is sent and everything comes back.
  have act :
      (ClientApp.downloadFile localFiles remotePath localPath).action sha256
          localAnswers =
        (ClientApp.downloadFile localFiles remotePath localPath).transmit
          .fileDownloadReq (putString remotePath)
          fun _ => .downloadRequested localPath :=
    rfl
  have requests := leads_exchange trace act fits ready.unseen handled goOn
  rw [unchanged, after, sent] at requests
  -- The client takes the announcement, the blocks and the end.
  let acc : FileAcceptMsg :=
    { transferId := loop.nextTransferId
      size := UInt64.ofNat content.length
      sha256 := sha256 content }
  let server : ServerEnd :=
    ⟨⟨.live ctx { loop with nextTransferId := loop.nextTransferId + 1 },
        trace ++ .received m :: outcome.effects⟩, files, [], 1⟩
  have size : acc.size = UInt64.ofNat content.length :=
    rfl
  have declared : acc.sha256 = sha256 content :=
    rfl
  obtain ⟨localFiles', answered, stored, spared, takes⟩ :=
    receiving_all setup answers localUnfailing size declared localPath server
      (putU32 loop.nextTransferId)
  have receipt :
      Moves sha256 setup answers localAnswers 2
        ⟨⟨.sendingReceipt loop.nextTransferId true, localFiles', answered⟩,
          server, [], []⟩
        ⟨⟨.returned true, localFiles', answered⟩,
          ⟨⟨.live ctx { loop with nextTransferId := loop.nextTransferId + 1 },
              trace ++ .received m :: outcome.effects ++
                [.received
                  ⟨.known .fileVerify,
                    FileVerifyMsg.encode
                      ⟨loop.nextTransferId, .known .ok⟩⟩]⟩,
            files, [], 2⟩, [], []⟩ :=
    leads_receipt setup answers localAnswers ready.unseen _ _ _ _ _ _ _
  have count : (downloadBlocks loop.nextTransferId content).length =
      blockCount content := by
    simp [downloadBlocks, blockCount]
  refine ⟨_, ?_, localFiles', answered, _, _, _,
    (requests.trans takes).trans receipt, rfl, fun _ => rfl, stored, spared⟩
  simp only [List.length_cons, List.length_append, List.length_map, count,
    List.length_nil]
  omega

/-! ## Both directions -/

/--
The transfer has returned true and nothing of it is under way any more; the
session is as before except that the id is used.
-/
structure Transferred
    (ctx : SessionContext)
    (loop : LoopState)
    (final : Connection) : Prop where
  returned : final.left.phase = .returned true
  toServer : final.toRight = []
  toClient : final.toLeft = []
  outbox : final.right.outbox = []
  session :
    ∃ next,
      final.right.session.phase = .live ctx next ∧
        next.nextTransferId = loop.nextTransferId + 1 ∧
        ∀ id : UInt32, next.uploads[id]? = loop.uploads[id]?

/-- Once a transfer has returned, nobody moves. -/
theorem quiet_returned
    {ok : Bool}
    {localFiles files : Files}
    {answered handled : Nat}
    {session : Session} :
    FifoLink.Quiet (ClientApp.action sha256 localAnswers)
      (ServerEnd.action sha256 setup answers)
      ⟨⟨.returned ok, localFiles, answered⟩, ⟨session, files, [], handled⟩, [],
        []⟩ :=
  FifoLink.quiet_stopped_waiting rfl rfl

/-- A session for files is ready for its first transfer. -/
theorem ready_login
    (user : Bytes)
    {rights : UInt32}
    (authorized :
      SessionContext.authorized rights (.known .fileOnly) = true)
    (captureOk : Bool) :
    Ready { user, rights, mode := .known .fileOnly } { captureOk } where
  mode := rfl
  permitted := authorized
  unused := Std.TreeMap.getElem?_emptyc

/--
Whatever the schedule, an upload and a download of any content to and from any
accepted path return true, leave the content where it belongs and leave nothing
under way.
-/
theorem transfers_end_to_end
    (sha256 : Bytes → Hash256)
    (setup : SessionSetup)
    (answers : Nat → Outside)
    (localAnswers : Nat → LocalAnswer)
    {ctx : SessionContext}
    {loop : LoopState}
    (ready : Ready ctx loop)
    (trace : List Effect)
    (files localFiles : Files)
    (content remotePath : Bytes)
    (localPath path : Path)
    (unfailing : ∀ n, Unfailing content.length (answers n))
    (localUnfailing : ∀ n, (localAnswers n).Unfailing content.length)
    (accepted :
      resolveInRoot (answers 0) setup.fileRoot remotePath = some path) :
    (withinCap
          (FileUploadReqMsg.encode
            { remotePath
              size := UInt64.ofNat content.length
              sha256 := sha256 content }) = true →
        localFiles localPath = some content →
        ∃ final : Connection,
          FifoLink.Settles (ClientApp.action sha256 localAnswers)
              (ServerEnd.action sha256 setup answers)
              ⟨.uploadFile localFiles localPath remotePath,
                ⟨⟨.live ctx loop, trace⟩, files, [], 0⟩, [], []⟩
              final (2 * blockCount content + 8) ∧
            Transferred ctx loop final ∧
            final.right.files path = some content) ∧
      (withinCap (putString remotePath) = true →
        files path = some content →
        ∃ final : Connection,
          FifoLink.Settles (ClientApp.action sha256 localAnswers)
              (ServerEnd.action sha256 setup answers)
              ⟨.downloadFile localFiles remotePath localPath,
                ⟨⟨.live ctx loop, trace⟩, files, [], 0⟩, [], []⟩
              final (2 * blockCount content + 8) ∧
            Transferred ctx loop final ∧
            final.left.files localPath = some content) := by
  constructor
  · intro fits present
    obtain ⟨moves, few, answered, loop', trace', files', handled', leads, ids,
      uploads, stored, _⟩ :=
      upload_leads localAnswers trace ready unfailing accepted fits present
    refine ⟨_, (leads.settles quiet_returned).mono few, ?_, stored⟩
    exact ⟨rfl, rfl, rfl, rfl, loop', rfl, ids, uploads⟩
  · intro fits present
    obtain ⟨moves, few, localFiles', answered, loop', trace', handled', leads,
      ids, uploads, stored, _⟩ :=
      download_leads sha256 trace ready unfailing localUnfailing accepted fits present
    refine ⟨_, (leads.settles quiet_returned).mono few, ?_, stored⟩
    exact ⟨rfl, rfl, rfl, rfl, loop', rfl, ids, uploads⟩

/-- A disk with one file. -/
def oneFile (path : Path) (content : Bytes) : Files :=
  Function.update (fun _ => none) path (some content)

theorem transfers_end_to_end_one_byte :
    let answers : Nat → Outside := fun _ => { flushedAtClose := 1 }
    let localAnswers : Nat → LocalAnswer := fun _ => { flushedAtClose := 1 }
    let server : Files → ServerEnd := fun files =>
      ⟨⟨.live transferContext { captureOk := true }, []⟩, files, [], 0⟩
    (∃ final : Connection,
        FifoLink.Settles (ClientApp.action evpSha256 localAnswers)
            (ServerEnd.action evpSha256 folderSetup answers)
            ⟨.uploadFile (oneFile (ascii "b") [7]) (ascii "b") (ascii "a"),
              server fun _ => none, [], []⟩
            final (2 * blockCount [7] + 8) ∧
          Transferred transferContext { captureOk := true } final ∧
          final.right.files (ascii "C:\\share\\a") = some [7]) ∧
      ∃ final : Connection,
        FifoLink.Settles (ClientApp.action evpSha256 localAnswers)
            (ServerEnd.action evpSha256 folderSetup answers)
            ⟨.downloadFile (oneFile (ascii "b") [7]) (ascii "a") (ascii "c"),
              server (oneFile (ascii "C:\\share\\a") [7]), [], []⟩
            final (2 * blockCount [7] + 8) ∧
          Transferred transferContext { captureOk := true } final ∧
          final.left.files (ascii "c") = some [7] := by
  intro answers localAnswers server
  have ready : Ready transferContext { captureOk := true } :=
    ready_login [] (by decide) true
  have unfailing : ∀ n, Unfailing [(7 : UInt8)].length (answers n) :=
    fun _ => ⟨fun _ => rfl, rfl, rfl, Nat.le_refl 1, rfl⟩
  have localUnfailing :
      ∀ n, (localAnswers n).Unfailing [(7 : UInt8)].length :=
    fun _ => ⟨rfl, rfl, Nat.le_refl 1⟩
  have accepted :
      resolveInRoot (answers 0) folderSetup.fileRoot (ascii "a") =
        some (ascii "C:\\share\\a") := by
    decide
  have fits :
      withinCap
          (FileUploadReqMsg.encode
            { remotePath := ascii "a"
              size := UInt64.ofNat [(7 : UInt8)].length
              sha256 := evpSha256 [7] }) = true := by
    have short : (ascii "a").length = 1 := by
      decide
    simp [withinCap, FileUploadReqMsg.encode, short, (evpSha256 [7]).size,
      kMaxMessageSize]
  constructor
  · exact
      (transfers_end_to_end evpSha256 folderSetup answers localAnswers ready []
        (fun _ => none) (oneFile (ascii "b") [7]) [7] (ascii "a") (ascii "b")
        (ascii "C:\\share\\a") unfailing localUnfailing accepted).1 fits
        (Function.update_self ..)
  · exact
      (transfers_end_to_end evpSha256 folderSetup answers localAnswers ready []
        (oneFile (ascii "C:\\share\\a") [7]) (oneFile (ascii "b") [7]) [7]
        (ascii "a") (ascii "c") (ascii "C:\\share\\a") unfailing localUnfailing
        accepted).2 (by decide) (Function.update_self ..)

end Transfers

end RadminPro
