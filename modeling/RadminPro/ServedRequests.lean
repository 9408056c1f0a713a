import RadminPro.TransferRuns

namespace RadminPro

open ByteCodec

/-!
# What the server makes of each request

The handler, message by message, for every outcome of its file operations and a
transport that loses nothing.  Of its effects only those count here that a
client learns of or asks for: what is put on the wire, and what has been
removed, renamed or read.
-/

/-- What of a message reaches a transport that loses nothing. -/
def transmitted (op : Op) (payload : Bytes) : List Message :=
  if withinCap payload then [⟨op, payload⟩] else []

/-- Effects that take nothing from the wire and put these messages on it. -/
structure Sends (effects : List Effect) (messages : List Message) : Prop where
  unread : effects.filterMap receivedMessage = []
  sent : sentMessages effects = messages

/-- A file has been removed. -/
def Removes (effects : List Effect) : Prop :=
  ∃ target, Effect.remove target true ∈ effects

/-- A file has been renamed. -/
def Renames (effects : List Effect) : Prop :=
  ∃ src dst, Effect.rename src dst true ∈ effects

/-- No upload is open. -/
def NoUploads (loop : LoopState) : Prop :=
  ∀ id : UInt32, loop.uploads[id]? = none

/-- One upload of `content` is open, and `sofar` of it has come. -/
structure UploadOpen
    (sha256 : Bytes → Hash256)
    (id : UInt32)
    (content sofar : Bytes)
    (loop : LoopState) : Prop where
  others : ∀ other : UInt32, other ≠ id → loop.uploads[other]? = none
  upload :
    ∃ st,
      loop.uploads[id]? = some st ∧
        st.tempPath = st.finalPath ++ ascii ".part" ∧
        st.expected = UInt64.ofNat content.length ∧
        st.declared = sha256 content ∧
        st.received = UInt64.ofNat sofar.length ∧
        st.hasher.fed = sofar

/-- The announcement, the blocks and the end of a download. -/
def servedMessages
    (sha256 : Bytes → Hash256)
    (id : UInt32)
    (content : Bytes) : List Message :=
  ⟨.known .fileAccept,
      FileAcceptMsg.encode
        { transferId := id
          size := UInt64.ofNat content.length
          sha256 := sha256 content }⟩ ::
    (((downloadBlocks id content).map fun m => ⟨m.1, m.2⟩) ++
      [⟨.known .fileComplete, putU32 id⟩])

namespace Sends

theorem append
    {first second : List Effect}
    {earlier later : List Message}
    (sendsFirst : Sends first earlier)
    (sendsSecond : Sends second later) :
    Sends (first ++ second) (earlier ++ later) where
  unread := by
    rw [List.filterMap_append, sendsFirst.unread, sendsSecond.unread]
    rfl
  sent := by
    rw [sentMessages_append, sendsFirst.sent, sendsSecond.sent]

/-- An effect that is no message. -/
theorem cons
    {effect : Effect}
    {rest : List Effect}
    {messages : List Message}
    (silent : receivedMessage effect = none ∧ sentMessages [effect] = [])
    (sends : Sends rest messages) :
    Sends (effect :: rest) messages := by
  have single : Sends [effect] [] :=
    ⟨by simp [silent.1], silent.2⟩
  exact single.append sends

/-- Effects that are all no messages. -/
theorem nothing
    {effects : List Effect}
    (silent : ∀ effect ∈ effects,
      receivedMessage effect = none ∧ sentMessages [effect] = []) :
    Sends effects [] := by
  induction effects with
  | nil =>
      exact ⟨rfl, rfl⟩
  | cons effect rest inductionHypothesis =>
      rw [List.forall_mem_cons] at silent
      exact cons silent.1 (inductionHypothesis silent.2)

end Sends

section Requests

variable {sha256 : Bytes → Hash256}
variable {setup : SessionSetup}
variable {ctx : SessionContext}
variable {out : Outside}
variable {loop : LoopState}

/-! ## Replies and refusals -/

/-- A reply is on the wire if it fits a frame. -/
theorem sends_reply
    (reliable : ∀ n, out.replies n = true)
    (op : Op)
    (payload : Bytes) :
    Sends (reply out op payload) (transmitted op payload) := by
  rw [reply_eq, reliable 0, Bool.and_true, transmitted]
  cases withinCap payload <;> exact ⟨rfl, rfl⟩

/-- A verdict on an operation is one. -/
theorem sends_opResult
    (reliable : ∀ n, out.replies n = true)
    (status : FileOpStatus)
    (text : Bytes) :
    Sends (sendOpResult out status text)
      (transmitted (.known .fileOpResult)
        (FileOpResultMsg.encode ⟨status, text⟩)) :=
  sends_reply reliable _ _

/-- A row of the log before it is not on the wire. -/
theorem sends_audited
    (reliable : ∀ n, out.replies n = true)
    (row : AuditEvent)
    (status : FileOpStatus)
    (text : Bytes) :
    Sends (.audit row :: sendOpResult out status text)
      (transmitted (.known .fileOpResult)
        (FileOpResultMsg.encode ⟨status, text⟩)) :=
  .cons ⟨rfl, rfl⟩ (sends_opResult reliable status text)

/-- A reply renames nothing and removes nothing. -/
theorem mem_reply
    {op : Op}
    {payload : Bytes}
    {effect : Effect}
    (member : effect ∈ reply out op payload) :
    ∃ ok, effect = .send op payload ok := by
  rw [reply_eq, List.mem_singleton] at member
  exact ⟨_, member⟩

/-- A refusal says so and touches no file. -/
structure Refusal (loop : LoopState) (outcome : Outcome) : Prop where
  goOn : outcome.goOn = true
  loop : outcome.loop = loop
  answer :
    ∃ status text,
      status ≠ .known .ok ∧
        Sends outcome.effects
          (transmitted (.known .fileOpResult)
            (FileOpResultMsg.encode ⟨status, text⟩))
  untouched : ∀ effect ∈ outcome.effects, effect.change? = none

/-- A verdict says whether what was to be done has been done. -/
structure Verdict
    (done : List Effect → Prop)
    (loop : LoopState)
    (outcome : Outcome) : Prop where
  goOn : outcome.goOn = true
  loop : outcome.loop = loop
  answer :
    ∃ status text,
      (status = .known .ok ↔ done outcome.effects) ∧
        Sends outcome.effects
          (transmitted (.known .fileOpResult)
            (FileOpResultMsg.encode ⟨status, text⟩))

namespace Refusal

variable {outcome : Outcome}

/-- Nothing has been done then. -/
theorem verdict
    {done : List Effect → Prop}
    (refusal : Refusal loop outcome)
    (notDone : ∀ effects,
      (∀ effect ∈ effects, Effect.change? effect = none) → ¬done effects) :
    Verdict done loop outcome := by
  obtain ⟨status, text, bad, sends⟩ := refusal.answer
  exact
    ⟨refusal.goOn, refusal.loop, status, text,
      iff_of_false bad (notDone _ refusal.untouched), sends⟩

/-- A row of the log before a bad verdict is a refusal. -/
theorem audited
    (reliable : ∀ n, out.replies n = true)
    (row : AuditEvent)
    {status : FileOpStatus}
    (bad : status ≠ .known .ok)
    (text : Bytes) :
    Refusal loop
      { loop, effects := .audit row :: sendOpResult out status text } where
  goOn := rfl
  loop := rfl
  answer := ⟨status, text, bad, sends_audited reliable row status text⟩
  untouched := by
    intro effect member
    rcases List.mem_cons.mp member with rfl | isReply
    · rfl
    · obtain ⟨ok, rfl⟩ := mem_reply isReply
      rfl

/-- Without the right to transfer files a request is refused. -/
theorem notPermitted
    (reliable : ∀ n, out.replies n = true)
    (operation text : Bytes) :
    Refusal loop (notPermitted setup ctx out loop operation text) :=
  audited reliable _ (by simp) text

/-- So is one for a path outside the sandbox. -/
theorem pathRejected
    (reliable : ∀ n, out.replies n = true)
    (action : AuditAction)
    (target : Bytes) :
    Refusal loop (pathRejected setup ctx out loop action target) :=
  audited reliable _ (by simp) _

end Refusal

/-- Effects that change no file remove and rename none. -/
theorem not_removes
    (effects : List Effect)
    (untouched : ∀ effect ∈ effects, Effect.change? effect = none) :
    ¬Removes effects := by
  rintro ⟨target, member⟩
  cases untouched _ member

theorem not_renames
    (effects : List Effect)
    (untouched : ∀ effect ∈ effects, Effect.change? effect = none) :
    ¬Renames effects := by
  rintro ⟨src, dst, member⟩
  cases untouched _ member

/-! ## Deletions and moves -/

/-- A payload that fits a frame is shorter than a length field can say. -/
theorem length_lt_of_withinCap
    {payload : Bytes}
    (fits : withinCap payload = true) :
    payload.length < 2 ^ 32 := by
  simp only [withinCap, decide_eq_true_eq] at fits
  unfold kMaxMessageSize at fits
  omega

/-- A deletion is answered with what has become of it. -/
theorem handle_fileDelete
    (reliable : ∀ n, out.replies n = true)
    (path : Bytes)
    (fits : withinCap (FileDeleteMsg.encode ⟨path⟩) = true) :
    ∃ outcome,
      handle sha256 setup ctx out loop
          ⟨.known .fileDelete, FileDeleteMsg.encode ⟨path⟩⟩ =
        .ok outcome ∧
        Verdict Removes loop outcome := by
  have short := length_lt_of_withinCap fits
  have decoded :
      FileDeleteMsg.decode (FileDeleteMsg.encode ⟨path⟩) = .ok ⟨path⟩ := by
    refine FileDeleteMsg.decode_ok_iff.mpr ⟨?_, [], by simp⟩
    simp only [FileDeleteMsg.encode, length_putString] at short
    exact Nat.lt_of_le_of_lt (Nat.le_add_left _ _) short
  cases permitted : ctx.canTransfer with
  | false =>
      refine ⟨notPermitted setup ctx out loop (ascii "delete")
        (ascii "not permitted"), ?_, ?_⟩
      · simp [handle, handleFileDelete, permitted]
      · exact (Refusal.notPermitted reliable _ _).verdict not_removes
  | true =>
      cases resolved : resolveInRoot out setup.fileRoot path with
      | none =>
          refine ⟨pathRejected setup ctx out loop .fileDelete path, ?_, ?_⟩
          · simp [handle, handleFileDelete, permitted, decoded, resolved, bind,
              Except.bind, pure, Except.pure]
          · exact (Refusal.pathRejected reliable _ _).verdict not_removes
      | some target =>
          let row :=
            AuditEvent.fileOp .fileDelete ctx.user setup.peerStr target
              (if out.removed then ascii "OK" else ascii "FAIL") out.errorText
          let status : FileOpStatus :=
            if out.removed then .known .ok else .known .notFound
          let effects : List Effect :=
            .remove target out.removed ::
              .audit row :: sendOpResult out status out.errorText
          refine ⟨{ loop, effects }, ?_, rfl, rfl, status, out.errorText, ?_,
            .cons ⟨rfl, rfl⟩ (sends_audited reliable row status _)⟩
          · simp [handle, handleFileDelete, permitted, decoded, resolved, bind,
              Except.bind, pure, Except.pure, effects, row, status, auditFileOp]
          · cases removed : out.removed with
            | true => simp [status, effects, removed, Removes]
            | false =>
                simp [status, effects, removed, Removes, sendOpResult, reply_eq]

/-- So is a move. -/
theorem handle_fileMove
    (reliable : ∀ n, out.replies n = true)
    (src dst : Bytes)
    (fits : withinCap (FileMoveMsg.encode ⟨src, dst⟩) = true) :
    ∃ outcome,
      handle sha256 setup ctx out loop
          ⟨.known .fileMove, FileMoveMsg.encode ⟨src, dst⟩⟩ =
        .ok outcome ∧
        Verdict Renames loop outcome := by
  have short := length_lt_of_withinCap fits
  have decoded :
      FileMoveMsg.decode (FileMoveMsg.encode ⟨src, dst⟩) = .ok ⟨src, dst⟩ := by
    refine FileMoveMsg.decode_ok_iff.mpr ⟨?_, ?_, [], by simp⟩
    · simp only [FileMoveMsg.encode, List.length_append, length_putString]
        at short
      dsimp only
      omega
    · simp only [FileMoveMsg.encode, List.length_append, length_putString]
        at short
      dsimp only
      omega
  cases permitted : ctx.canTransfer with
  | false =>
      refine ⟨notPermitted setup ctx out loop (ascii "move")
        (ascii "not permitted"), ?_, ?_⟩
      · simp [handle, handleFileMove, permitted]
      · exact (Refusal.notPermitted reliable _ _).verdict not_renames
  | true =>
      by_cases resolved :
          ∃ source target,
            resolveInRoot out setup.fileRoot src = some source ∧
              resolveInRoot out setup.fileRoot dst = some target
      · obtain ⟨source, target, isSource, isTarget⟩ := resolved
        let row :=
          AuditEvent.fileOp .fileMove ctx.user setup.peerStr
            (source ++ ascii " -> " ++ target)
            (if out.renamed then ascii "OK" else ascii "FAIL") out.errorText
        let status : FileOpStatus :=
          if out.renamed then .known .ok else .known .ioError
        let effects : List Effect :=
          .rename source target out.renamed ::
            .audit row :: sendOpResult out status out.errorText
        refine ⟨{ loop, effects }, ?_, rfl, rfl, status, out.errorText, ?_,
          .cons ⟨rfl, rfl⟩ (sends_audited reliable row status _)⟩
        · simp [handle, handleFileMove, permitted, decoded, isSource, isTarget,
            bind, Except.bind, pure, Except.pure, effects, row, status,
            auditFileOp]
        · cases renamed : out.renamed with
          | true =>
              refine iff_of_true (by simp [status, renamed]) ?_
              exact ⟨source, target, by simp [effects, renamed]⟩
          | false =>
              simp [status, effects, renamed, Renames, sendOpResult, reply_eq]
      · refine ⟨pathRejected setup ctx out loop .fileMove
          (src ++ ascii " -> " ++ dst), ?_, ?_⟩
        · simp only [handle, handleFileMove, permitted, decoded, Bool.not_true,
            Bool.false_eq_true, ↓reduceIte, bind, Except.bind]
          split
          · next source target isSource isTarget =>
              exact (resolved ⟨source, target, isSource, isTarget⟩).elim
          · rfl
        · exact (Refusal.pathRejected reliable _ _).verdict not_renames

/-! ## Uploads -/

/-- An upload is accepted under the next id and nothing of it has come. -/
structure Accepts
    (sha256 : Bytes → Hash256)
    (content : Bytes)
    (loop : LoopState)
    (outcome : Outcome) : Prop where
  goOn : outcome.goOn = true
  sends :
    Sends outcome.effects
      [⟨.known .fileAccept,
        FileAcceptMsg.encode { transferId := loop.nextTransferId }⟩]
  isOpen : UploadOpen sha256 loop.nextTransferId content [] outcome.loop
  notRenamed : ¬Renames outcome.effects

/-- The request of an upload. -/
def uploadRequest
    (sha256 : Bytes → Hash256)
    (remotePath content : Bytes) : FileUploadReqMsg where
  remotePath := remotePath
  size := UInt64.ofNat content.length
  sha256 := sha256 content

/-- Before its answer an upload only makes directories and opens its file. -/
theorem beginUpload_answered
    (sha256 : Bytes → Hash256)
    (reliable : ∀ n, out.replies n = true)
    (noUploads : NoUploads loop)
    (remotePath content : Bytes)
    (dest : Path) :
    let outcome :=
      beginUpload out loop (uploadRequest sha256 remotePath content) dest
    Refusal loop outcome ∨ Accepts sha256 content loop outcome := by
  intro outcome
  let opening : List Effect :=
    ((PathText.parentDirectories dest).filter out.creates).map
        Effect.createDirectory ++
      [.openTrunc (dest ++ ascii ".part") out.opened]
  have isOpening :
      ∀ effect ∈ opening,
        (∃ path, effect = .createDirectory path) ∨
          effect = .openTrunc (dest ++ ascii ".part") out.opened := by
    intro effect member
    rcases List.mem_append.mp member with isDirectory | isOpen
    · obtain ⟨path, _, rfl⟩ := List.mem_map.mp isDirectory
      exact .inl ⟨path, rfl⟩
    · exact .inr (List.mem_singleton.mp isOpen)
  have silent : Sends opening [] := by
    apply Sends.nothing
    intro effect member
    rcases isOpening effect member with ⟨path, rfl⟩ | rfl
    · exact ⟨rfl, rfl⟩
    · exact ⟨rfl, rfl⟩
  cases opened : out.opened with
  | false =>
      left
      have refused :
          outcome =
            { loop
              effects :=
                opening ++
                  sendOpResult out (.known .ioError)
                    (ascii "cannot create file") } := by
        simp [outcome, beginUpload, opened, opening, UploadState.requested]
      rw [refused]
      let text := ascii "cannot create file"
      have sends := silent.append (sends_opResult reliable (.known .ioError) text)
      rw [List.nil_append] at sends
      refine ⟨rfl, rfl, ⟨.known .ioError, text, by simp, sends⟩, ?_⟩
      intro effect member
      rcases List.mem_append.mp member with isOpen | isReply
      · rcases isOpening effect isOpen with ⟨path, rfl⟩ | rfl
        · rfl
        · rw [opened]
          rfl
      · obtain ⟨ok, rfl⟩ := mem_reply isReply
        rfl
  | true =>
      right
      let id := loop.nextTransferId
      let payload := FileAcceptMsg.encode { transferId := id }
      have accepted :
          outcome =
            { loop :=
                { loop with
                  uploads :=
                    loop.uploads.insert id
                      (.requested (uploadRequest sha256 remotePath content) dest)
                  nextTransferId := id + 1 }
              effects := opening ++ reply out (.known .fileAccept) payload } := by
        simp only [opening, opened]
        exact beginUpload_opened opened (noUploads id)
      have fits : withinCap payload = true := by
        simp [withinCap, payload, FileAcceptMsg.encode, kMaxMessageSize]
      have sends := silent.append (sends_reply reliable (.known .fileAccept) payload)
      rw [List.nil_append, transmitted, if_pos fits] at sends
      rw [accepted]
      refine ⟨rfl, sends, ⟨?_, _, Std.TreeMap.getElem?_insert_self, rfl, rfl, rfl,
        rfl, rfl⟩, ?_⟩
      · intro other different
        dsimp only
        rw [uploads_insert_other _ different]
        exact noUploads other
      · rintro ⟨src, dst, member⟩
        rcases List.mem_append.mp member with isOpen | isReply
        · rcases isOpening _ isOpen with ⟨path, same⟩ | same
          · cases same
          · cases same
        · obtain ⟨ok, same⟩ := mem_reply isReply
          cases same

/-- An upload request is refused or begins an upload. -/
theorem handle_uploadRequest
    (setup : SessionSetup)
    (ctx : SessionContext)
    (sha256 : Bytes → Hash256)
    (reliable : ∀ n, out.replies n = true)
    (noUploads : NoUploads loop)
    (remotePath content : Bytes)
    (fits :
      withinCap (uploadRequest sha256 remotePath content).encode = true) :
    ∃ outcome,
      handle sha256 setup ctx out loop
          ⟨.known .fileUploadReq,
            (uploadRequest sha256 remotePath content).encode⟩ =
        .ok outcome ∧
        (Refusal loop outcome ∨ Accepts sha256 content loop outcome) := by
  let req := uploadRequest sha256 remotePath content
  have short := length_lt_of_withinCap fits
  have decoded : FileUploadReqMsg.decode req.encode = .ok req := by
    refine FileUploadReqMsg.decode_ok_iff.mpr ⟨?_, [], by simp⟩
    simp only [FileUploadReqMsg.encode, List.length_append, length_putString]
      at short
    change remotePath.length < 2 ^ 32
    change 4 + remotePath.length + _ + _ < _ at short
    omega
  cases permitted : ctx.canTransfer with
  | false =>
      refine ⟨notPermitted setup ctx out loop (ascii "upload")
        (ascii "file transfer not permitted"), ?_,
        .inl (.notPermitted reliable _ _)⟩
      simp [handle, handleFileUploadReq, permitted]
  | true =>
      cases resolved : resolveInRoot out setup.fileRoot req.remotePath with
      | none =>
          refine ⟨pathRejected setup ctx out loop .fileUpload req.remotePath, ?_,
            .inl (.pathRejected reliable _ _)⟩
          simp only [handle, handleFileUploadReq, permitted, bind, Except.bind,
            Bool.not_true, Bool.false_eq_true, ↓reduceIte]
          rw [decoded]
          dsimp only
          rw [resolved]
          rfl
      | some dest =>
          exact
            ⟨_, handle_fileUploadReq permitted decoded resolved,
              beginUpload_answered sha256 reliable noUploads remotePath content
                dest⟩

/-- A block is taken in silence. -/
theorem UploadOpen.block
    (setup : SessionSetup)
    (ctx : SessionContext)
    (out : Outside)
    {id : UInt32}
    {content sofar : Bytes}
    {blk : FileBlockMsg}
    (isOpen : UploadOpen sha256 id content sofar loop)
    (sameId : blk.transferId = id)
    (decoded : FileBlockMsg.decode blk.encode = .ok blk) :
    ∃ outcome,
      handle sha256 setup ctx out loop ⟨.known .fileBlock, blk.encode⟩ =
          .ok outcome ∧
        outcome.goOn = true ∧
        Sends outcome.effects [] ∧
        ¬Renames outcome.effects ∧
        UploadOpen sha256 id content (sofar ++ blk.data) outcome.loop := by
  obtain ⟨st, found, tempPath, expected, declared, received, fed⟩ :=
    isOpen.upload
  subst sameId
  have isWrite :
      ∀ effect ∈ (st.out.write blk.data out.flush).2,
        ∃ path position data, effect = .write path position data := by
    intro effect member
    unfold OfStream.write at member
    split at member
    · exact ⟨_, _, _, List.mem_singleton.mp member⟩
    · cases member
  refine ⟨_, handle_fileBlock decoded found, rfl, .nothing ?_, ?_, ?_, ?_⟩
  · intro effect member
    obtain ⟨path, position, data, rfl⟩ := isWrite effect member
    exact ⟨rfl, rfl⟩
  · rintro ⟨src, dst, member⟩
    obtain ⟨path, position, data, same⟩ := isWrite _ member
    cases same
  · intro other different
    dsimp only
    rw [uploads_insert_other _ different]
    exact isOpen.others other different
  · refine ⟨_, Std.TreeMap.getElem?_insert_self, tempPath, expected, declared, ?_,
      ?_⟩
    · rw [received, List.length_append, UInt64.ofNat_add]
    · rw [Sha256.update, fed]

/-- A verified upload has been renamed to where it belongs. -/
def PutsInPlace (effects : List Effect) : Prop :=
  ∃ dest, Effect.rename (dest ++ ascii ".part") dest true ∈ effects

/-- A verdict on an upload is on the wire, its row in the log. -/
theorem sends_uploadVerdict
    (reliable : ∀ n, out.replies n = true)
    (id : UInt32)
    (status : FileOpStatus)
    (action : AuditAction)
    (target result detail : Bytes) :
    Sends (uploadVerdict setup ctx out id status action target result detail)
      [⟨.known .fileVerify, FileVerifyMsg.encode ⟨id, status⟩⟩] := by
  have fits : withinCap (FileVerifyMsg.encode ⟨id, status⟩) = true := by
    simp [withinCap, FileVerifyMsg.encode, kMaxMessageSize]
  have sends :=
    sends_reply reliable (.known .fileVerify) (FileVerifyMsg.encode ⟨id, status⟩)
  rw [transmitted, if_pos fits] at sends
  have row :
      Sends [auditFileOp setup ctx action target result detail] [] :=
    .nothing (by simp [auditFileOp, receivedMessage])
  exact sends.append row

/-- A complete upload is put in place, and the verdict says whether it was. -/
theorem UploadOpen.complete
    (setup : SessionSetup)
    (ctx : SessionContext)
    (reliable : ∀ n, out.replies n = true)
    {id : UInt32}
    {content : Bytes}
    (isOpen : UploadOpen sha256 id content content loop) :
    ∃ outcome status,
      handle sha256 setup ctx out loop ⟨.known .fileComplete, putU32 id⟩ =
          .ok outcome ∧
        outcome.goOn = true ∧
        Sends outcome.effects
          [⟨.known .fileVerify, FileVerifyMsg.encode ⟨id, status⟩⟩] ∧
        NoUploads outcome.loop ∧
        (status = .known .ok ↔ PutsInPlace outcome.effects) := by
  obtain ⟨st, found, tempPath, expected, declared, received, fed⟩ :=
    isOpen.upload
  have decoded : parseAll ByteReader.u32 (putU32 id) = .ok id :=
    (parseAll_ok_iff ByteReader.u32_reads).mpr ⟨_, rfl, [], by simp⟩
  have agrees :
      st.received = st.expected ∧ st.hasher.finish sha256 = st.declared :=
    ⟨received.trans expected.symm, by rw [Sha256.finish, fed, declared]⟩
  have closes : Sends (st.out.close out.flushedAtClose) [] :=
    ⟨rfl, rfl⟩
  have closeMember :
      ∀ {effect},
        effect ∈ st.out.close out.flushedAtClose →
        ∀ src dst ok, effect ≠ .rename src dst ok := by
    intro effect member src dst ok same
    subst same
    simp [OfStream.close] at member
  have noUploads : NoUploads { loop with uploads := loop.uploads.erase id } := by
    intro other
    dsimp only
    rw [uploads_erase]
    split
    · rfl
    · next different => exact isOpen.others other different
  cases renamed : out.renamed with
  | true =>
      let verdict :=
        uploadVerdict setup ctx out id (.known .ok) .fileUpload st.finalPath
          (ascii "OK")
          (ascii "sha256=" ++ toHex (st.hasher.finish sha256).bytes)
      have effects :
          finishUpload sha256 setup ctx out id st =
            st.out.close out.flushedAtClose ++
              .rename st.tempPath st.finalPath true :: verdict := by
        rw [finishUpload, if_pos agrees, renamed, if_pos rfl]
      refine ⟨_, .known .ok, handle_fileComplete decoded found, rfl, ?_,
        noUploads, iff_of_true rfl ⟨st.finalPath, ?_⟩⟩
      · dsimp only
        rw [effects]
        exact closes.append
          (.cons ⟨rfl, rfl⟩ (sends_uploadVerdict reliable _ _ _ _ _ _))
      · dsimp only
        rw [effects, ← tempPath]
        exact List.mem_append_right _ List.mem_cons_self
  | false =>
      let verdict :=
        uploadVerdict setup ctx out id (.known .ioError) .fileUpload
          st.finalPath (ascii "IO_ERROR") (ascii "rename failed")
      have effects :
          finishUpload sha256 setup ctx out id st =
            st.out.close out.flushedAtClose ++
              .rename st.tempPath st.finalPath false ::
                .remove st.tempPath out.removed :: verdict := by
        rw [finishUpload, if_pos agrees, renamed]
        rfl
      refine ⟨_, .known .ioError, handle_fileComplete decoded found, rfl, ?_,
        noUploads, iff_of_false (by simp) ?_⟩
      · dsimp only
        rw [effects]
        exact closes.append
          (.cons ⟨rfl, rfl⟩
            (.cons ⟨rfl, rfl⟩ (sends_uploadVerdict reliable _ _ _ _ _ _)))
      · rintro ⟨dest, member⟩
        dsimp only at member
        rw [effects] at member
        rcases List.mem_append.mp member with isClose | isVerdict
        · exact closeMember isClose _ _ _ rfl
        · simp [verdict, uploadVerdict, reply_eq, auditFileOp] at isVerdict

/-! ## Downloads -/

/-- A download is served: a file is read and all of it sent. -/
structure ServesDownload
    (sha256 : Bytes → Hash256)
    (loop : LoopState)
    (outcome : Outcome) : Prop where
  goOn : outcome.goOn = true
  uploads : outcome.loop.uploads = loop.uploads
  served :
    ∃ src content,
      Effect.readFile src (some content) ∈ outcome.effects ∧
        Sends outcome.effects
          (servedMessages sha256 loop.nextTransferId content)

/-- A download request is refused or served. -/
theorem handle_downloadRequest
    (setup : SessionSetup)
    (ctx : SessionContext)
    (loop : LoopState)
    (sha256 : Bytes → Hash256)
    (reliable : ∀ n, out.replies n = true)
    (remotePath : Bytes)
    (fits : withinCap (putString remotePath) = true) :
    ∃ outcome,
      handle sha256 setup ctx out loop
          ⟨.known .fileDownloadReq, putString remotePath⟩ =
        .ok outcome ∧
        (Refusal loop outcome ∨ ServesDownload sha256 loop outcome) := by
  have short := length_lt_of_withinCap fits
  have decoded :
      parseAll ByteReader.str (putString remotePath) = .ok remotePath := by
    apply (parseAll_ok_iff ByteReader.str_reads).mpr
    refine ⟨_, ⟨rfl, ?_⟩, [], by simp⟩
    rw [length_putString] at short
    exact Nat.lt_of_le_of_lt (Nat.le_add_left _ _) short
  cases permitted : ctx.canTransfer with
  | false =>
      refine ⟨notPermitted setup ctx out loop (ascii "download")
        (ascii "not permitted"), ?_, .inl (.notPermitted reliable _ _)⟩
      simp [handle, handleFileDownloadReq, permitted]
  | true =>
      cases resolved : resolveInRoot out setup.fileRoot remotePath with
      | none =>
          refine ⟨pathRejected setup ctx out loop .fileDownload remotePath, ?_,
            .inl (.pathRejected reliable _ _)⟩
          simp [handle, handleFileDownloadReq, permitted, decoded, resolved,
            bind, Except.bind, pure, Except.pure]
      | some src =>
          cases content : out.content with
          | none =>
              let text := ascii "no such file"
              let effects : List Effect :=
                .readFile src none :: sendOpResult out (.known .notFound) text
              refine ⟨{ loop, effects }, ?_, .inl ⟨rfl, rfl, ?_, ?_⟩⟩
              · simp [handle, handleFileDownloadReq, permitted, decoded,
                  resolved, content, bind, Except.bind, pure, Except.pure,
                  effects, text]
              · exact
                  ⟨.known .notFound, text, by simp,
                    .cons ⟨rfl, rfl⟩ (sends_opResult reliable _ _)⟩
              · intro effect member
                rcases List.mem_cons.mp member with rfl | isReply
                · rfl
                · obtain ⟨ok, rfl⟩ := mem_reply isReply
                  rfl
          | some data =>
              refine ⟨_, handle_fileDownloadReq permitted decoded resolved content,
                .inr ⟨rfl, rfl, src, data, ?_, ?_, ?_⟩⟩
              · exact List.mem_append_left _ List.mem_cons_self
              · dsimp only
                rw [sendDownload_written _ _ _ fun n _ => reliable n]
                apply List.filterMap_eq_nil_iff.mpr
                intro effect member
                simp only [List.cons_append, List.mem_cons, List.mem_append,
                  List.mem_map, List.not_mem_nil, or_false] at member
                rcases member with rfl | rfl | (⟨m, _, rfl⟩ | rfl) | rfl <;>
                  rfl
              · dsimp only
                rw [sendDownload_written _ _ _ fun n _ => reliable n]
                exact (served_effects (fun _ => none) src data _ _ _ _).1

end Requests

end RadminPro
