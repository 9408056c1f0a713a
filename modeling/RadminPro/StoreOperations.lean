import RadminPro.AtomicStore
import RadminPro.AuditTruth
import RadminPro.UploadIsolation

namespace RadminPro

open ByteCodec
open AtomicStore

/-!
# File operations as operations of a store

What a client asks for and is granted are operations of an atomic store: an
upload that is verified puts its blocks, a delete or a move that is answered with
`Ok` deletes or moves, a download gets what it is sent.  The temporary files of
uploads are hidden.
-/

/-- An operation on the files of the server. -/
abbrev StoreOperation := Operation Path UInt8

/-- A temporary file. -/
def IsPart (path : Path) : Prop :=
  ascii ".part" <:+ path

instance : DecidablePred IsPart :=
  fun path => inferInstanceAs (Decidable (_ <:+ path))

/-- The status that a file operation is answered with. -/
def opStatus : Effect → Option FileOpStatus
  | .send (.known .fileOpResult) payload _ =>
      payload.head?.map (EnumByte.ofByte FileOpStatusName)
  | _ => none

/-- One of the answers is `Ok`. -/
def answersOk (answers : List Effect) : Bool :=
  answers.any fun effect => opStatus effect = some (.known .ok)

/-- One of the answers says that an upload is in place. -/
def verifiesOk (id : UInt32) (answers : List Effect) : Bool :=
  answers.any fun effect => verdictOf effect = some ⟨id, .known .ok⟩

/-- A file that is read for a download. -/
def readOperation : Effect → Option StoreOperation
  | .readFile src (some data) => some (.get src data)
  | _ => none

/-- What a message and its answers mean to the store. -/
def operationsOf
    (setup : SessionSetup)
    (out : Outside)
    (loop : LoopState)
    (trace : List Effect)
    (m : Message)
    (answers : List Effect) : List StoreOperation :=
  match m.op with
  | .known .fileComplete =>
      match parseAll ByteReader.u32 m.payload with
      | .ok id =>
          match loop.uploads[id]?, ownUpload id trace with
          | some st, some (_, data) =>
              if verifiesOk id answers then [.put st.finalPath data] else []
          | _, _ => []
      | .error _ => []
  | .known .fileDelete =>
      if answersOk answers then
        (requestedPaths out setup.fileRoot m).map .delete
      else
        []
  | .known .fileMove =>
      match requestedPaths out setup.fileRoot m with
      | [src, dst] => if answersOk answers then [.move src dst] else []
      | _ => []
  | .known .fileDownloadReq => answers.filterMap readOperation
  | _ => []

section Handling

variable {sha256 : Bytes → Hash256}
variable {setup : SessionSetup}
variable {ctx : SessionContext}
variable {out : Outside}
variable {loop : LoopState}
variable {trace : List Effect}
variable {m : Message}
variable {outcome : Outcome}

/-! ## Answers -/

@[simp] theorem answersOk_nil : answersOk [] = false :=
  rfl

@[simp] theorem answersOk_cons
    (effect : Effect)
    (rest : List Effect) :
    answersOk (effect :: rest) =
      (decide (opStatus effect = some (.known .ok)) || answersOk rest) :=
  rfl

/-- A file operation is granted or not. -/
@[simp] theorem answersOk_sendOpResult
    (status : FileOpStatus)
    (text : Bytes) :
    answersOk (sendOpResult out status text) = decide (status = .known .ok) := by
  simp [sendOpResult, reply_eq, opStatus, FileOpResultMsg.encode, putU8]

@[simp] theorem opStatus_auditFileOp
    (action : AuditAction)
    (target result detail : Bytes) :
    opStatus (auditFileOp setup ctx action target result detail) = none :=
  rfl

@[simp] theorem opStatus_remove (path : Path) (ok : Bool) :
    opStatus (.remove path ok) = none :=
  rfl

@[simp] theorem opStatus_rename (src dst : Path) (ok : Bool) :
    opStatus (.rename src dst ok) = none :=
  rfl

/-- An audited answer does nothing to the files. -/
theorem filesAfter_answer
    (files : Files)
    (action : AuditAction)
    (target result detail : Bytes)
    (status : FileOpStatus)
    (text : Bytes) :
    filesAfter files
        (auditFileOp setup ctx action target result detail ::
          sendOpResult out status text) =
      files := by
  apply filesAfter_unchanged
  intro effect member
  rcases List.mem_cons.mp member with rfl | isResult
  · rfl
  · exact (aside_sendOpResult _ _ effect isResult).change

/-- Without an answer nothing is granted. -/
theorem operationsOf_nil :
    operationsOf setup out loop trace m [] = [] := by
  unfold operationsOf
  split
  · split
    · split
      · rfl
      · rfl
    · rfl
  · rfl
  · split
    · rfl
    · rfl
  · rfl
  · rfl

/-- A refusal grants nothing. -/
theorem operationsOf_refused
    (action : AuditAction)
    (target result detail text : Bytes)
    {status : FileOpStatus}
    (bad : status ≠ .known .ok) :
    operationsOf setup out loop trace m
        (auditFileOp setup ctx action target result detail ::
          sendOpResult out status text) =
      [] := by
  unfold operationsOf
  split
  · split
    · split
      · rfl
      · rfl
    · rfl
  · simp [bad]
  · split
    · simp [bad]
    · rfl
  · rfl
  · rfl

/-! ## Deletes, moves and downloads -/

/-- A delete does to the files what its answer says. -/
theorem delete_performs
    {del : FileDeleteMsg}
    {target : Path}
    (files : Files)
    (trace : List Effect)
    (op : m.op = .known .fileDelete)
    (decoded : FileDeleteMsg.decode m.payload = .ok del)
    (resolved : resolveInRoot out setup.fileRoot del.path = some target)
    (result text : Bytes) :
    let answers :=
      [.remove target out.removed,
        auditFileOp setup ctx .fileDelete target result text] ++
        sendOpResult out
          (if out.removed then .known .ok else .known .notFound) text
    filesAfter files answers =
      StepRuns.run perform files
        (operationsOf setup out loop trace m answers) := by
  intro answers
  have rest :
      filesAfter files answers =
        filesAfter files [.remove target out.removed] := by
    rw [← filesAfter_answer (filesAfter files [.remove target out.removed]),
      ← filesAfter_append]
    rfl
  rw [rest]
  cases removed : out.removed with
  | false =>
      have untouched : filesAfter files [.remove target false] = files :=
        rfl
      simp [operationsOf, op, answers, removed, untouched]
  | true =>
      simp [operationsOf, op, answers, removed, requestedPaths, decoded,
        resolved, filesAfter, Effect.change?, FileStore.apply, perform]

/-- A move that is answered with `Ok` is a move. -/
theorem move_granted
    {mv : FileMoveMsg}
    {src dst : Path}
    (trace : List Effect)
    (op : m.op = .known .fileMove)
    (decoded : FileMoveMsg.decode m.payload = .ok mv)
    (srcResolved : resolveInRoot out setup.fileRoot mv.srcPath = some src)
    (dstResolved : resolveInRoot out setup.fileRoot mv.dstPath = some dst)
    (target result text : Bytes) :
    operationsOf setup out loop trace m
        ([.rename src dst out.renamed,
            auditFileOp setup ctx .fileMove target result text] ++
          sendOpResult out
            (if out.renamed then .known .ok else .known .ioError) text) =
      if out.renamed then [.move src dst] else [] := by
  have requested : requestedPaths out setup.fileRoot m = [src, dst] := by
    simp [requestedPaths, op, decoded, srcResolved, dstResolved]
  cases renamed : out.renamed <;>
    simp [operationsOf, op, requested]

/-- It does to the files what its answer says. -/
theorem move_performs
    {mv : FileMoveMsg}
    {src dst : Path}
    (files : Files)
    (trace : List Effect)
    (op : m.op = .known .fileMove)
    (decoded : FileMoveMsg.decode m.payload = .ok mv)
    (srcResolved : resolveInRoot out setup.fileRoot mv.srcPath = some src)
    (dstResolved : resolveInRoot out setup.fileRoot mv.dstPath = some dst)
    (target result text : Bytes) :
    let answers :=
      [.rename src dst out.renamed,
        auditFileOp setup ctx .fileMove target result text] ++
        sendOpResult out
          (if out.renamed then .known .ok else .known .ioError) text
    filesAfter files answers =
      StepRuns.run perform files
        (operationsOf setup out loop trace m answers) := by
  intro answers
  have rest :
      filesAfter files answers =
        filesAfter files [.rename src dst out.renamed] := by
    rw [← filesAfter_answer (filesAfter files [.rename src dst out.renamed]),
      ← filesAfter_append]
    rfl
  have granted :
      operationsOf setup out loop trace m answers =
        if out.renamed then [.move src dst] else [] :=
    move_granted trace op decoded srcResolved dstResolved target result text
  rw [rest, granted]
  cases out.renamed with
  | false =>
      rfl
  | true =>
      rfl

/-- A download is sent with messages only. -/
theorem sendDownload_sends
    (out : Outside)
    (id : UInt32)
    (data : Bytes)
    (hash : Hash256) :
    ∀ effect ∈ sendDownload out id data hash,
      ∃ op payload ok, effect = .send op payload ok := by
  intro effect member
  rcases List.mem_append.mp member with isAnnounced | isEnd
  · obtain ⟨op, payload, ok, rfl, _⟩ :=
      announced_noEnd _ _ _ _ effect isAnnounced
    exact ⟨op, payload, ok, rfl⟩
  · exact ⟨_, _, _, List.mem_singleton.mp isEnd⟩

/-- A download reads its file once and changes none. -/
theorem download_reads
    (setup : SessionSetup)
    (ctx : SessionContext)
    (out : Outside)
    (src : Path)
    (data : Bytes)
    (hash : Hash256)
    (id : UInt32)
    (files : Files)
    (action : AuditAction)
    (result detail : Bytes) :
    let answers :=
      .readFile src (some data) :: sendDownload out id data hash ++
        [auditFileOp setup ctx action src result detail]
    answers.filterMap readOperation = [.get src data] ∧
      filesAfter files answers = files := by
  intro answers
  have sends := sendDownload_sends out id data hash
  constructor
  · have unread :
        (sendDownload out id data hash).filterMap readOperation = [] := by
      rw [List.filterMap_eq_nil_iff]
      intro effect member
      obtain ⟨op, payload, ok, rfl⟩ := sends effect member
      rfl
    have isGet :
        readOperation (.readFile src (some data)) = some (.get src data) :=
      rfl
    dsimp only [answers]
    rw [List.cons_append, List.filterMap_cons_some isGet,
      List.filterMap_append, unread]
    rfl
  · apply filesAfter_unchanged
    intro effect member
    rcases List.mem_append.mp member with isSent | isRow
    · rcases List.mem_cons.mp isSent with rfl | isSent
      · rfl
      · obtain ⟨op, payload, ok, rfl⟩ := sends effect isSent
        rfl
    · rw [List.mem_singleton.mp isRow]
      rfl

/-- What is downloaded is what the file holds. -/
theorem download_content
    {relPath src : Path}
    {data : Bytes}
    (permitted : ctx.canTransfer = true)
    (op : m.op = .known .fileDownloadReq)
    (decoded : parseAll ByteReader.str m.payload = .ok relPath)
    (resolved : resolveInRoot out setup.fileRoot relPath = some src)
    (isHandled : handle sha256 setup ctx out loop m = .ok outcome)
    (isRead : .get src data ∈ outcome.effects.filterMap readOperation) :
    out.content = some data := by
  obtain ⟨name, payload⟩ := m
  cases op
  cases content : out.content with
  | none =>
      have missing :
          handle sha256 setup ctx out loop ⟨.known .fileDownloadReq, payload⟩ =
            .ok
              { loop
                effects :=
                  .readFile src none ::
                    sendOpResult out (.known .notFound)
                      (ascii "no such file") } := by
        simp only [handle, handleFileDownloadReq, permitted, decoded,
          Bool.not_true, Bool.false_eq_true, if_false, bind, Except.bind,
          resolved, content]
        rfl
      rw [missing] at isHandled
      cases isHandled
      simp [readOperation, sendOpResult, reply_eq] at isRead
  | some held =>
      rw [handle_fileDownloadReq permitted decoded resolved content]
        at isHandled
      cases isHandled
      dsimp only at isRead
      rw [(download_reads setup ctx out src held (sha256 held)
        loop.nextTransferId (fun _ => none) _ _ _).1, List.mem_singleton]
        at isRead
      cases isRead
      rfl

/-! ## Uploads -/

/-- What is not hidden after an upload has been opened is as it was. -/
theorem beginUpload_hidden
    (files : Files)
    (loop : LoopState)
    (req : FileUploadReqMsg)
    (dest : Path)
    (opened : out.opened = true)
    (hides :
      ∀ (id : UInt32) (st : UploadState),
        loop.uploads[id]? = some st → IsPart st.out.path) :
    visible IsPart (filesAfter files (beginUpload out loop req dest).effects) =
      visible IsPart files := by
  apply visible_congr
  intro path plain
  rw [beginUpload_files files loop req dest opened]
  · rw [if_neg]
    rintro rfl
    exact plain (List.suffix_append dest _)
  · rintro old found rfl
    exact plain (hides _ old found)

/-- A block of an upload is hidden. -/
theorem block_hidden
    (files : Files)
    {st : UploadState}
    (hides : IsPart st.out.path)
    (data : Bytes)
    (flush : Flush) :
    visible IsPart (filesAfter files (st.out.write data flush).2) =
      visible IsPart files := by
  apply visible_congr
  intro path plain
  apply filesAfter_spared files
  apply st.out.write_spares
  rintro rfl
  exact plain hides

/-- The end of a turn is hidden. -/
theorem Ends.hidden
    {map : Uploads}
    {phase : SessionPhase}
    {rest : List Effect}
    (ends : Ends ctx out map phase rest)
    (files : Files)
    (hides :
      ∀ (id : UInt32) (st : UploadState),
        map[id]? = some st → IsPart st.out.path ∧ IsPart st.tempPath) :
    visible IsPart (filesAfter files rest) = visible IsPart files := by
  apply visible_congr
  intro path plain
  apply ends.spares
  intro id st found
  obtain ⟨hidesStream, hidesTemp⟩ := hides id st found
  constructor
  · rintro rfl
    exact plain hidesStream
  · rintro rfl
    exact plain hidesTemp

/-- What an upload has, and where, when it is closed. -/
structure Closing
    (out : Outside)
    (files : Files)
    (trace : List Effect)
    (id : UInt32)
    (st : UploadState) : Prop where
  onDisk : st.OnDisk files
  plain : ¬IsPart st.finalPath
  good : st.out.good = true
  lands : st.out.buffered.length ≤ out.flushedAtClose
  recorded :
    ∃ entry, ownUpload id trace = some entry ∧ st.Follows entry

/-- An upload that is completed puts its blocks or nothing. -/
theorem complete_performs
    {files : Files}
    {id : UInt32}
    {st : UploadState}
    (op : m.op = .known .fileComplete)
    (decoded : parseAll ByteReader.u32 m.payload = .ok id)
    (found : loop.uploads[id]? = some st)
    (closing : Closing out files trace id st) :
    visible IsPart
        (filesAfter files (finishUpload sha256 setup ctx out id st)) =
      StepRuns.run perform (visible IsPart files)
        (operationsOf setup out loop trace m
          (finishUpload sha256 setup ctx out id st)) := by
  obtain ⟨⟨req, data⟩, own, follows⟩ := closing.recorded
  have isTemp : IsPart st.tempPath := by
    rw [closing.onDisk.tempPath]
    exact List.suffix_append st.finalPath _
  by_cases placed : st.Agrees sha256 ∧ out.renamed = true
  · have verified :
        verifiesOk id (finishUpload sha256 setup ctx out id st) = true := by
      obtain ⟨ok, detail, shape⟩ :=
        finishUpload_placed setup ctx id placed.1 placed.2
      rw [shape]
      simp [verifiesOk, verdictOf_send]
    have put :
        operationsOf setup out loop trace m
            (finishUpload sha256 setup ctx out id st) =
          [.put st.finalPath data] := by
      simp [operationsOf, op, decoded, found, own, verified]
    obtain ⟨inPlace, -, others⟩ :=
      finishUpload_files_placed setup ctx id closing.onDisk placed.1 placed.2
    have whole : st.stored out.flushedAtClose = data := by
      rw [UploadState.stored,
        closing.onDisk.landed_all closing.good closing.lands, List.take_length,
        follows.fed]
    rw [whole] at inPlace
    rw [put, StepRuns.run_cons, StepRuns.run_nil]
    apply visible_put closing.plain inPlace
    intro path plain other
    apply others path ?_ other
    rintro rfl
    exact plain isTemp
  · have unverified :
        verifiesOk id (finishUpload sha256 setup ctx out id st) = false := by
      obtain ⟨tried, verdict, shape, isTried, isVerdict⟩ :=
        finishUpload_discarded setup ctx id placed
      rw [shape, verifiesOk, List.any_eq_false]
      intro effect member
      rw [decide_eq_true_iff]
      intro isOk
      rcases List.mem_append.mp member with isFirst | isRest
      · rcases List.mem_append.mp isFirst with isClose | isRename
        · simp only [OfStream.close, List.mem_cons, List.not_mem_nil, or_false]
            at isClose
          rcases isClose with rfl | rfl
          · cases isOk
          · cases isOk
        · rw [isTried effect isRename] at isOk
          cases isOk
      · rcases List.mem_cons.mp isRest with rfl | isReport
        · cases isOk
        · exact (isVerdict effect isReport).2.1 _ isOk rfl
    have nothing :
        operationsOf setup out loop trace m
            (finishUpload sha256 setup ctx out id st) =
          [] := by
      simp [operationsOf, op, decoded, found, own, unverified]
    rw [nothing]
    apply visible_congr
    intro path plain
    apply (finishUpload_files_discarded setup ctx id closing.onDisk placed).2
    rintro rfl
    exact plain isTemp

/-! ## Messages -/

/-- What a message relies on to be an operation of the store. -/
structure Reliable
    (setup : SessionSetup)
    (out : Outside)
    (loop : LoopState)
    (trace : List Effect)
    (files : Files)
    (m : Message) : Prop where
  closing :
    ∀ (id : UInt32) (st : UploadState),
      loop.uploads[id]? = some st → Closing out files trace id st
  plain : ∀ path ∈ requestedPaths out setup.fileRoot m, ¬IsPart path
  moves :
    m.op = .known .fileMove →
    out.renamed = true →
    ∀ src ∈ (requestedPaths out setup.fileRoot m).head?,
      (files src).isSome = true
  reads :
    m.op = .known .fileDownloadReq →
    out.content = (requestedPaths out setup.fileRoot m).head?.bind files

/-- The streams and the temporary files of open uploads are hidden. -/
theorem Reliable.hides
    {files : Files}
    (reliable : Reliable setup out loop trace files m)
    (id : UInt32)
    (st : UploadState)
    (found : loop.uploads[id]? = some st) :
    IsPart st.out.path ∧ IsPart st.tempPath := by
  have onDisk := (reliable.closing id st found).onDisk
  have isTemp : IsPart st.tempPath := by
    rw [onDisk.tempPath]
    exact List.suffix_append st.finalPath _
  exact ⟨onDisk.path ▸ isTemp, isTemp⟩

/-- Only moves and downloads depend on what the store holds. -/
theorem legal_of_put_or_delete
    (store : FileStore.Store Path UInt8)
    (op : m.op = .known .fileComplete ∨ m.op = .known .fileDelete)
    (answers : List Effect) :
    Legal store (operationsOf setup out loop trace m answers) := by
  apply StepRuns.Allowed.of_forall
  intro operation member state
  rcases op with isComplete | isDelete
  · simp only [operationsOf, isComplete] at member
    split at member
    · split at member
      · split at member
        · rw [List.mem_singleton.mp member]
          trivial
        · cases member
      · cases member
    · cases member
  · simp only [operationsOf, isDelete] at member
    split at member
    · obtain ⟨target, _, rfl⟩ := List.mem_map.mp member
      trivial
    · cases member

/-- A delete or a move is about the paths that were asked for. -/
theorem operationsOf_requested
    (op : m.op = .known .fileDelete ∨ m.op = .known .fileMove)
    (answers : List Effect) :
    ∀ operation ∈ operationsOf setup out loop trace m answers,
      ∀ path ∈ operation.paths, path ∈ requestedPaths out setup.fileRoot m := by
  intro operation member path isPath
  rcases op with isDelete | isMove
  · simp only [operationsOf, isDelete] at member
    split at member
    · obtain ⟨target, requested, rfl⟩ := List.mem_map.mp member
      rw [Operation.paths, List.mem_singleton] at isPath
      exact isPath ▸ requested
    · cases member
  · simp only [operationsOf, isMove] at member
    split at member
    · next src dst requested =>
        split at member
        · rw [List.mem_singleton.mp member] at isPath
          rw [requested]
          exact isPath
        · cases member
    · cases member

/-- What a message does is what its operations do to the store. -/
theorem handle_performs
    {files : Files}
    (isHandled : handle sha256 setup ctx out loop m = .ok outcome)
    (reliable : Reliable setup out loop trace files m) :
    Legal (visible IsPart files)
        (operationsOf setup out loop trace m outcome.effects) ∧
      visible IsPart (filesAfter files outcome.effects) =
        StepRuns.run perform (visible IsPart files)
          (operationsOf setup out loop trace m outcome.effects) := by
  have handles := handle_handles isHandled
  -- What neither touches a file nor is granted means nothing to the store.
  have idle
      {effects : List Effect}
      (nothing : operationsOf setup out loop trace m effects = [])
      (same :
        visible IsPart (filesAfter files effects) = visible IsPart files) :
      Legal (visible IsPart files)
          (operationsOf setup out loop trace m effects) ∧
        visible IsPart (filesAfter files effects) =
          StepRuns.run perform (visible IsPart files)
            (operationsOf setup out loop trace m effects) := by
    rw [nothing, same]
    exact ⟨trivial, rfl⟩
  cases handles with
  | bye op => exact idle operationsOf_nil rfl
  | ignored unblocked => exact idle operationsOf_nil rfl
  | mouse op permitted x y action =>
      exact idle (by simp [operationsOf, op]) rfl
  | key op permitted down vk =>
      exact idle (by simp [operationsOf, op]) rfl
  | notPermitted unblocked refused operation text =>
      apply idle
      · exact operationsOf_refused _ _ _ _ _ (by decide)
      · exact congrArg (visible IsPart) (filesAfter_answer files _ _ _ _ _ _)
  | pathRejected unblocked action target fileAction =>
      apply idle
      · exact operationsOf_refused _ _ _ _ _ (by decide)
      · exact congrArg (visible IsPart) (filesAfter_answer files _ _ _ _ _ _)
  | @upload req dest permitted op decoded resolved =>
      apply idle
      · simp [operationsOf, op]
      · cases opened : out.opened with
        | false =>
            obtain ⟨effects, refused, only, -⟩ :=
              beginUpload_refused loop req dest opened
            rw [refused]
            exact congrArg (visible IsPart) (filesAfter_aside files only)
        | true =>
            exact beginUpload_hidden files loop req dest opened
              fun id st found => (reliable.hides id st found).1
  | @block blk st op decoded found =>
      apply idle
      · simp [operationsOf, op]
      · exact block_hidden files (reliable.hides _ st found).1 _ _
  | @complete id st op decoded found =>
      constructor
      · exact legal_of_put_or_delete _ (.inl op) _
      · exact complete_performs op decoded found (reliable.closing id st found)
  | delete permitted op decoded resolved =>
      constructor
      · exact legal_of_put_or_delete _ (.inr op) _
      · rw [delete_performs files trace op decoded resolved]
        apply visible_run
        intro operation member path isPath
        apply reliable.plain
        exact operationsOf_requested (.inl op) _ operation member path isPath
  | @move mv src dst permitted op decoded srcResolved dstResolved =>
      constructor
      · rw [move_granted trace op decoded srcResolved dstResolved]
        cases renamed : out.renamed with
        | false =>
            trivial
        | true =>
            have requested : requestedPaths out setup.fileRoot m = [src, dst] := by
              simp [requestedPaths, op, decoded, srcResolved, dstResolved]
            have isFile : (visible IsPart files src).isSome = true := by
              rw [visible_of_not files (reliable.plain src (by simp [requested]))]
              exact reliable.moves op renamed src (by simp [requested])
            exact ⟨isFile, trivial⟩
      · rw [move_performs files trace op decoded srcResolved dstResolved]
        apply visible_run
        intro operation member path isPath
        apply reliable.plain
        exact operationsOf_requested (.inr op) _ operation member path isPath
  | missing permitted op decoded resolved =>
      apply idle
      · simp [operationsOf, op, readOperation, sendOpResult, reply_eq]
      · exact congrArg (visible IsPart) (filesAfter_unchanged files (by
          simp [Effect.change?, sendOpResult, reply_eq]))
  | @download relPath src data permitted op decoded resolved =>
      obtain ⟨isGet, untouched⟩ :=
        download_reads setup ctx out src data (sha256 data)
          loop.nextTransferId files .fileDownload (ascii "OK")
          (ascii "sha256=" ++ toHex (sha256 data).bytes)
      have content : out.content = some data := by
        apply download_content permitted op decoded resolved isHandled
        rw [isGet]
        exact List.mem_singleton_self _
      have requested : requestedPaths out setup.fileRoot m = [src] := by
        simp [requestedPaths, op, decoded, resolved]
      have stored : visible IsPart files src = some data := by
        have reads := reliable.reads op
        rw [content, requested] at reads
        rw [visible_of_not files (reliable.plain src (by simp [requested]))]
        exact reads.symm
      have granted :
          operationsOf setup out loop trace m
              (.readFile src (some data) ::
                  sendDownload out loop.nextTransferId data (sha256 data) ++
                [auditFileOp setup ctx .fileDownload src (ascii "OK")
                  (ascii "sha256=" ++ toHex (sha256 data).bytes)]) =
            [.get src data] := by
        simp only [operationsOf, op, isGet]
      rw [granted, untouched]
      exact ⟨⟨stored, trivial⟩, rfl⟩
  | receipt op =>
      exact idle (by simp [operationsOf, op]) rfl

end Handling

end RadminPro
