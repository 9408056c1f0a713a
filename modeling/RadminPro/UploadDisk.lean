import RadminPro.StreamLanding
import RadminPro.TransferRuns

namespace RadminPro

open ByteCodec

/-!
# Uploads on disk

An upload is hashed and counted in memory, and written to a temporary file of
its own through a stream that may fail.  What the file then holds begins what
was hashed; how much of it there is depends on the writes and the close.
-/

/-- The upload that is open under an id where a session stands. -/
def SessionPhase.upload? (phase : SessionPhase) (id : UInt32) :
    Option UploadState :=
  match phase with
  | .live _ loop => loop.uploads[id]?
  | _ => none

/-- Size and hash of what has come are those that were declared. -/
def UploadState.Agrees (sha256 : Bytes → Hash256) (st : UploadState) : Prop :=
  st.received = st.expected ∧ st.hasher.finish sha256 = st.declared

instance UploadState.decidableAgrees (sha256 : Bytes → Hash256) (st : UploadState) :
    Decidable (st.Agrees sha256) :=
  inferInstanceAs (Decidable (_ ∧ _))

/-- How much has reached the file when the close hands over so many bytes. -/
def UploadState.landed (st : UploadState) (flushed : Nat) : Nat :=
  st.out.position + min flushed st.out.buffered.length

/-- What has reached the file then. -/
def UploadState.stored (st : UploadState) (flushed : Nat) : Bytes :=
  st.hasher.fed.take (st.landed flushed)

/-- The content is as declared for the upload. -/
def UploadState.Declares
    (sha256 : Bytes → Hash256)
    (st : UploadState)
    (content : Bytes) : Prop :=
  content.length = st.expected.toNat ∧ sha256 content = st.declared

instance
    (sha256 : Bytes → Hash256)
    (st : UploadState)
    (content : Bytes) :
    Decidable (st.Declares sha256 content) :=
  inferInstanceAs (Decidable (_ ∧ _))

/-- An upload after one of its blocks. -/
def UploadState.block
    (st : UploadState)
    (data : Bytes)
    (flush : Flush) : UploadState :=
  { st with
    out := (st.out.write data flush).1
    hasher := st.hasher.update data
    received := st.received + UInt64.ofNat data.length }

/-- The row of the log that says that an upload was put in place. -/
def PlacedRow (target : Path) (effect : Effect) : Prop :=
  ∃ event,
    effect = .audit event ∧
      event.action = .fileUpload ∧
      event.target = target ∧
      event.result = ascii "OK"

/-- An effect that changes no file, decides no upload and takes in no message. -/
structure Aside (effect : Effect) : Prop where
  change : effect.change? = none
  verdict : verdictOf effect = none
  row : ∀ target, ¬PlacedRow target effect
  unreceived : receivedMessage effect = none

namespace UploadState

/-- What is on disk of an upload begins what was hashed of it. -/
structure OnDisk (files : Files) (st : UploadState) : Prop where
  tempPath : st.tempPath = st.finalPath ++ ascii ".part"
  path : st.out.path = st.tempPath
  stored :
    ∃ content,
      st.out.Trails files content ∧
        content ++ st.out.buffered <+: st.hasher.fed ∧
        (st.out.good = true → content ++ st.out.buffered = st.hasher.fed)

section Disk

variable {files : Files}
variable {st : UploadState}

/-- The temporary file is not the file itself. -/
theorem OnDisk.temp_ne_final
    (onDisk : st.OnDisk files) :
    st.tempPath ≠ st.finalPath := by
  intro same
  have lengths := congrArg List.length same
  rw [onDisk.tempPath, List.length_append] at lengths
  have suffix : (ascii ".part").length = 5 := rfl
  omega

/-- An upload that has just been opened has an empty file. -/
theorem onDisk_requested
    (req : FileUploadReqMsg)
    (dest : Path)
    (empty : files (dest ++ ascii ".part") = some []) :
    (UploadState.requested req dest).OnDisk files where
  tempPath := rfl
  path := rfl
  stored := ⟨[], OfStream.trails_opened empty, List.prefix_rfl, fun _ => rfl⟩

/-- Only its own file matters to an upload. -/
theorem OnDisk.congr
    {other : Files}
    (onDisk : st.OnDisk files)
    (same : other st.tempPath = files st.tempPath) :
    st.OnDisk other where
  tempPath := onDisk.tempPath
  path := onDisk.path
  stored := by
    obtain ⟨content, trails, begins, whole⟩ := onDisk.stored
    refine ⟨content, ⟨?_, trails.position⟩, begins, whole⟩
    rw [onDisk.path, same, ← onDisk.path]
    exact trails.onDisk

/-- A block goes to the file as far as the write gets, and to the hash. -/
theorem OnDisk.block
    (onDisk : st.OnDisk files)
    (data : Bytes)
    (flush : Flush) :
    (st.block data flush).OnDisk
      (filesAfter files (st.out.write data flush).2) where
  tempPath := onDisk.tempPath
  path := (OfStream.write_path data flush).trans onDisk.path
  stored := by
    obtain ⟨content, trails, begins, whole⟩ := onDisk.stored
    refine ⟨_, trails.write data flush, ?_, ?_⟩
    · cases good : st.out.good with
      | false =>
          have lost : st.out.handed data flush = [] := by
            simp [OfStream.handed, good]
          simp only [UploadState.block, OfStream.write_failed good, lost,
            List.append_nil]
          exact begins.trans (List.prefix_append _ _)
      | true =>
          rw [List.append_assoc]
          simp only [UploadState.block, Sha256.update]
          rw [← whole good, List.append_assoc]
          exact (List.prefix_append_right_inj _).mpr
            (OfStream.handed_append_buffered_begins good data flush)
    · intro stillGood
      cases good : st.out.good with
      | false =>
          simp only [UploadState.block, OfStream.write_failed good, good]
            at stillGood
          cases stillGood
      | true =>
          have ok : flush.ok = true := by
            simpa [UploadState.block, OfStream.write_good good] using stillGood
          rw [List.append_assoc]
          simp only [UploadState.block, Sha256.update]
          rw [← whole good, List.append_assoc,
            OfStream.handed_append_buffered good data ok]

/-- The closed file holds as much of what was hashed as has reached it. -/
theorem OnDisk.close
    (onDisk : st.OnDisk files)
    (flushed : Nat) :
    filesAfter files (st.out.close flushed) st.tempPath =
      some (st.stored flushed) := by
  obtain ⟨content, trails, begins, _⟩ := onDisk.stored
  have stored := trails.close flushed
  rw [onDisk.path] at stored
  have begun : content ++ st.out.buffered.take flushed <+: st.hasher.fed :=
    ((List.prefix_append_right_inj _).mpr (List.take_prefix _ _)).trans begins
  have length :
      (content ++ st.out.buffered.take flushed).length = st.landed flushed := by
    rw [List.length_append, List.length_take, UploadState.landed,
      trails.position]
  rw [stored, List.prefix_iff_eq_take.mp begun, length]
  rfl

/-- No more lands than was hashed. -/
theorem OnDisk.landed_le
    (onDisk : st.OnDisk files)
    (flushed : Nat) :
    st.landed flushed ≤ st.hasher.fed.length := by
  obtain ⟨content, trails, begins, _⟩ := onDisk.stored
  have length := begins.length_le
  rw [List.length_append, ← trails.position] at length
  have most : min flushed st.out.buffered.length ≤ st.out.buffered.length :=
    Nat.min_le_right _ _
  exact (Nat.add_le_add_left most _).trans length

/-- The file holds what was hashed when all of it has landed. -/
theorem OnDisk.stored_eq_iff
    (onDisk : st.OnDisk files)
    (flushed : Nat) :
    st.stored flushed = st.hasher.fed ↔
      st.landed flushed = st.hasher.fed.length := by
  constructor
  · intro whole
    have length := congrArg List.length whole
    rwa [UploadState.stored, List.length_take,
      Nat.min_eq_left (onDisk.landed_le flushed)] at length
  · intro all
    rw [UploadState.stored, all, List.take_length]

/-- What lands of a stream that never failed and is flushed is everything. -/
theorem OnDisk.landed_all
    (onDisk : st.OnDisk files)
    {flushed : Nat}
    (good : st.out.good = true)
    (all : st.out.buffered.length ≤ flushed) :
    st.landed flushed = st.hasher.fed.length := by
  obtain ⟨content, trails, _, whole⟩ := onDisk.stored
  rw [← whole good, List.length_append, UploadState.landed, trails.position,
    Nat.min_eq_right all]

end Disk

end UploadState

section Dealing

variable {sha256 : Bytes → Hash256}
variable {setup : SessionSetup}
variable {ctx : SessionContext}
variable {out : Outside}
variable {loop : LoopState}
variable {m : Message}

/-! ## What a message does to uploads and files -/

/-- An effect that has nothing to do with uploads or the log is aside. -/
theorem aside_unlogged
    {effect : Effect}
    (change : effect.change? = none)
    (verdict : verdictOf effect = none)
    (unreceived : receivedMessage effect = none)
    (unlogged : ∀ event, effect ≠ .audit event) :
    Aside effect where
  change := change
  verdict := verdict
  row := by
    rintro target ⟨event, same, _⟩
    exact unlogged event same
  unreceived := unreceived

/-- A message to the client that is no verdict is aside. -/
theorem aside_send
    {op : Op}
    (payload : Bytes)
    (ok : Bool)
    (noVerify : op ≠ .known .fileVerify) :
    Aside (.send op payload ok) := by
  apply aside_unlogged rfl ?_ rfl (by simp)
  unfold verdictOf
  split
  · next same =>
      cases same
      exact absurd rfl noVerify
  · rfl

/-- A row of the log is aside unless it says that an upload was put in place. -/
theorem aside_auditFileOp
    {action : AuditAction}
    {result : Bytes}
    (other : action ≠ .fileUpload ∨ result ≠ ascii "OK")
    (target detail : Bytes) :
    Aside (auditFileOp setup ctx action target result detail) where
  change := rfl
  verdict := rfl
  row := by
    rintro target ⟨event, same, isUpload, _, isOk⟩
    rw [auditFileOp, Effect.audit.injEq] at same
    subst same
    rcases other with otherAction | otherResult
    · exact otherAction isUpload
    · exact otherResult isOk
  unreceived := rfl

/-- The answer to a file operation is aside. -/
theorem aside_sendOpResult
    (status : FileOpStatus)
    (text : Bytes) :
    ∀ effect ∈ sendOpResult out status text, Aside effect := by
  intro effect member
  rw [sendOpResult, reply_eq, List.mem_singleton] at member
  rw [member]
  exact aside_send _ _ (by simp)

/-- A row of the log and the answer to a file operation. -/
theorem aside_auditedResult
    {action : AuditAction}
    {result : Bytes}
    (other : action ≠ .fileUpload ∨ result ≠ ascii "OK")
    (target detail : Bytes)
    (status : FileOpStatus)
    (text : Bytes) :
    ∀ effect ∈
        auditFileOp setup ctx action target result detail ::
          sendOpResult out status text,
      Aside effect := by
  intro effect member
  rcases List.mem_cons.mp member with rfl | isResult
  · exact aside_auditFileOp other target detail
  · exact aside_sendOpResult _ _ effect isResult

/-- The messages of a download are aside. -/
theorem aside_sendDownload
    (id : UInt32)
    (data : Bytes)
    (hash : Hash256) :
    ∀ effect ∈ sendDownload out id data hash, Aside effect := by
  intro effect member
  unfold sendDownload at member
  dsimp only at member
  obtain ⟨attempted, shape, only⟩ :=
    sendAll_writeMessage out.replies (downloadBlocks id data)
      (writeMessage out.replies [] (.known .fileAccept)
        (FileAcceptMsg.encode
          { transferId := id
            size := UInt64.ofNat data.length
            sha256 := hash })).2
  rw [shape] at member
  rcases List.mem_append.mp member with isFirst | isEnd
  · rcases List.mem_append.mp isFirst with isAccept | isBlock
    · rw [List.mem_singleton.mp isAccept]
      exact aside_send _ _ (by simp)
    · obtain ⟨message, isMessage, ok, rfl⟩ := only effect isBlock
      obtain ⟨index, _, rfl⟩ := List.mem_map.mp isMessage
      exact aside_send _ _ (by simp)
  · rw [List.mem_singleton.mp isEnd]
    exact aside_send _ _ (by simp)

/-- What is streamed is aside. -/
theorem Shown.aside
    {effect : Effect}
    (shown : Shown setup ctx effect) :
    Aside effect := by
  rcases shown with ⟨_, op, payload, ok, rfl, isFrame⟩ | ⟨ok, rfl⟩
  · apply aside_send
    rcases isFrame with rfl | rfl | rfl | rfl <;> simp
  · exact aside_unlogged rfl rfl rfl (by simp)

/-- The message completes no upload under way. -/
def Uncompleted (loop : LoopState) (m : Message) : Prop :=
  ∀ id,
    m.op = .known .fileComplete →
    parseAll ByteReader.u32 m.payload = .ok id →
    loop.uploads[id]? = none

/-- What a message does to the uploads of its session and to the files. -/
inductive Deals
    (sha256 : Bytes → Hash256)
    (setup : SessionSetup)
    (ctx : SessionContext)
    (out : Outside)
    (loop : LoopState)
    (m : Message) : Outcome → Prop where
  | aside
      {outcome : Outcome}
      (uploads : outcome.loop.uploads = loop.uploads)
      (only : ∀ effect ∈ outcome.effects, Aside effect)
      (accepts :
        ∀ effect ∈ outcome.effects,
          acceptedId effect = none ∨ m.op ≠ .known .fileUploadReq)
      (unblocked : Unblocked loop m)
      (uncompleted : Uncompleted loop m) :
      Deals sha256 setup ctx out loop m outcome
  | begun
      {req : FileUploadReqMsg} {dest : Path}
      (permitted : ctx.canTransfer = true)
      (op : m.op = .known .fileUploadReq)
      (decoded : FileUploadReqMsg.decode m.payload = .ok req)
      (resolved : resolveInRoot out setup.fileRoot req.remotePath = some dest)
      (opened : out.opened = true) :
      Deals sha256 setup ctx out loop m (beginUpload out loop req dest)
  | block
      {blk : FileBlockMsg} {st : UploadState}
      (op : m.op = .known .fileBlock)
      (decoded : FileBlockMsg.decode m.payload = .ok blk)
      (found : loop.uploads[blk.transferId]? = some st) :
      Deals sha256 setup ctx out loop m
        { loop :=
            { loop with
              uploads :=
                loop.uploads.insert blk.transferId (st.block blk.data out.flush) }
          effects := (st.out.write blk.data out.flush).2 }
  | complete
      {id : UInt32} {st : UploadState}
      (op : m.op = .known .fileComplete)
      (decoded : parseAll ByteReader.u32 m.payload = .ok id)
      (found : loop.uploads[id]? = some st) :
      Deals sha256 setup ctx out loop m
        { loop := { loop with uploads := loop.uploads.erase id }
          effects := finishUpload sha256 setup ctx out id st }
  | deleted
      {target : Path} {rest : List Effect}
      (op : m.op = .known .fileDelete)
      (permitted : ctx.canTransfer = true)
      (requested : target ∈ requestedPaths out setup.fileRoot m)
      (only : ∀ effect ∈ rest, Aside effect ∧ acceptedId effect = none) :
      Deals sha256 setup ctx out loop m
        { loop, effects := .remove target out.removed :: rest }
  | moved
      {src dst : Path} {rest : List Effect}
      (op : m.op = .known .fileMove)
      (permitted : ctx.canTransfer = true)
      (srcRequested : src ∈ requestedPaths out setup.fileRoot m)
      (dstRequested : dst ∈ requestedPaths out setup.fileRoot m)
      (only : ∀ effect ∈ rest, Aside effect ∧ acceptedId effect = none) :
      Deals sha256 setup ctx out loop m
        { loop, effects := .rename src dst out.renamed :: rest }

/-- A request whose file cannot be opened is refused. -/
theorem beginUpload_refused
    (loop : LoopState)
    (req : FileUploadReqMsg)
    (dest : Path)
    (refused : out.opened = false) :
    ∃ effects,
      beginUpload out loop req dest = { loop, effects } ∧
        (∀ effect ∈ effects, Aside effect) ∧
        ∀ effect ∈ effects, acceptedId effect = none := by
  refine ⟨_, by rw [beginUpload, refused]; rfl, ?_, ?_⟩
  · intro effect member
    rcases List.mem_append.mp member with isOpening | isReply
    · rcases List.mem_append.mp isOpening with isDirectory | isOpen
      · obtain ⟨directory, _, rfl⟩ := List.mem_map.mp isDirectory
        exact aside_unlogged rfl rfl rfl (by simp)
      · rw [List.mem_singleton.mp isOpen]
        exact aside_unlogged rfl rfl rfl (by simp)
    · exact aside_sendOpResult _ _ effect isReply
  · intro effect member
    rcases List.mem_append.mp member with isOpening | isReply
    · rcases List.mem_append.mp isOpening with isDirectory | isOpen
      · obtain ⟨directory, _, rfl⟩ := List.mem_map.mp isDirectory
        rfl
      · rw [List.mem_singleton.mp isOpen]
        rfl
    · exact (inert_sendOpResult _ _ effect isReply).1.1

/-- Each other branch of the handler is one of these. -/
theorem Handles.deals
    {outcome : Outcome}
    (handles : Handles sha256 setup ctx out loop m outcome)
    (other : m.op ≠ .known .fileComplete) :
    Deals sha256 setup ctx out loop m outcome := by
  have uncompleted : Uncompleted loop m :=
    fun _ isComplete => absurd isComplete other
  cases handles with
  | bye op =>
      exact .aside rfl (by simp) (by simp) (by simp [Unblocked, op]) uncompleted
  | ignored unblocked =>
      exact .aside rfl (by simp) (by simp) unblocked uncompleted
  | mouse op permitted x y action =>
      refine .aside rfl ?_ ?_ (by simp [Unblocked, op]) uncompleted
      · intro effect member
        rw [List.mem_singleton.mp member]
        exact aside_unlogged rfl rfl rfl (by simp)
      · intro effect member
        exact .inr (by simp [op])
  | key op permitted down vk =>
      refine .aside rfl ?_ ?_ (by simp [Unblocked, op]) uncompleted
      · intro effect member
        rw [List.mem_singleton.mp member]
        exact aside_unlogged rfl rfl rfl (by simp)
      · intro effect member
        exact .inr (by simp [op])
  | notPermitted unblocked refused operation text =>
      refine .aside rfl ?_ ?_ (fun blk isBlock => absurd isBlock unblocked)
        uncompleted
      · exact aside_auditedResult (.inl (by simp)) _ _ _ _
      · intro effect member
        exact .inl (inert_auditedResult _ _ _ _ _ _ effect member).1.1
  | pathRejected unblocked action target fileAction =>
      refine .aside rfl ?_ ?_ (fun blk isBlock => absurd isBlock unblocked)
        uncompleted
      · exact aside_auditedResult (.inr (by decide)) _ _ _ _
      · intro effect member
        exact .inl (inert_auditedResult _ _ _ _ _ _ effect member).1.1
  | @upload req dest permitted op decoded resolved =>
      cases opened : out.opened with
      | true =>
          exact .begun permitted op decoded resolved opened
      | false =>
          obtain ⟨effects, shape, only, accepts⟩ :=
            beginUpload_refused loop req dest opened
          rw [shape]
          exact .aside rfl only
            (fun effect member => .inl (accepts effect member))
            (by simp [Unblocked, op]) uncompleted
  | block op decoded found =>
      exact .block op decoded found
  | complete op decoded found =>
      exact (other op).elim
  | @delete del target permitted op decoded resolved =>
      refine .deleted op permitted ?_ fun effect member => ⟨?_, ?_⟩
      · simp [requestedPaths, op, decoded, resolved]
      · exact aside_auditedResult (.inl (by simp)) _ _ _ _ effect member
      · exact (inert_auditedResult _ _ _ _ _ _ effect member).1.1
  | @move mv src dst permitted op decoded srcResolved dstResolved =>
      refine .moved op permitted ?_ ?_ fun effect member => ⟨?_, ?_⟩
      · simp [requestedPaths, op, decoded, srcResolved, dstResolved]
      · simp [requestedPaths, op, decoded, srcResolved, dstResolved]
      · exact aside_auditedResult (.inl (by simp)) _ _ _ _ effect member
      · exact (inert_auditedResult _ _ _ _ _ _ effect member).1.1
  | missing permitted op decoded resolved =>
      refine .aside rfl ?_ ?_ (by simp [Unblocked, op]) uncompleted
      · intro effect member
        rcases List.mem_cons.mp member with rfl | isResult
        · exact aside_unlogged rfl rfl rfl (by simp)
        · exact aside_sendOpResult _ _ effect isResult
      · intro effect member
        exact .inr (by simp [op])
  | download permitted op decoded resolved =>
      refine .aside rfl ?_ ?_ (by simp [Unblocked, op]) uncompleted
      · intro effect member
        rcases List.mem_append.mp member with isSent | isRow
        · rcases List.mem_cons.mp isSent with rfl | isSent
          · exact aside_unlogged rfl rfl rfl (by simp)
          · exact aside_sendDownload _ _ _ effect isSent
        · rw [List.mem_singleton.mp isRow]
          exact aside_auditFileOp (.inl (by simp)) _ _
      · intro effect member
        exact .inr (by simp [op])
  | receipt op =>
      refine .aside rfl ?_ ?_ (by simp [Unblocked, op]) uncompleted
      · intro effect member
        rw [List.mem_singleton.mp member]
        exact aside_auditFileOp (.inl (by simp)) _ _
      · intro effect member
        exact .inr (by simp [op])

/-- A message that completes an open upload finishes it. -/
theorem handle_complete
    {id : UInt32}
    {st : UploadState}
    (op : m.op = .known .fileComplete)
    (decoded : parseAll ByteReader.u32 m.payload = .ok id)
    (found : loop.uploads[id]? = some st) :
    handle sha256 setup ctx out loop m =
      .ok
        { loop := { loop with uploads := loop.uploads.erase id }
          effects := finishUpload sha256 setup ctx out id st } := by
  simp only [handle, op, handleFileComplete, decoded, bind, Except.bind, found]
  rfl

/-- What the handler does with a message is one of these. -/
theorem handle_deals
    {outcome : Outcome}
    (handled : handle sha256 setup ctx out loop m = .ok outcome) :
    Deals sha256 setup ctx out loop m outcome := by
  by_cases op : m.op = .known .fileComplete
  · rw [handle, op] at handled
    obtain ⟨id, decoded, handled⟩ := bind_eq_ok handled
    cases found : loop.uploads[id]? with
    | none =>
        simp only [found] at handled
        cases handled
        refine .aside rfl (by simp) (by simp) (by simp [Unblocked, op]) ?_
        intro other _ isOther
        rw [decoded, Except.ok.injEq] at isOther
        rw [← isOther, found]
    | some st =>
        simp only [found] at handled
        cases handled
        exact .complete op decoded found
  · exact (handle_handles handled).deals op

/-! ## The end of an upload -/

/-- An effect that changes no file leaves all of them alone. -/
theorem filesAfter_aside
    (files : Files)
    {effects : List Effect}
    (only : ∀ effect ∈ effects, Aside effect) :
    filesAfter files effects = files :=
  filesAfter_unchanged files fun effect member => (only effect member).change

/-- A verdict other than `Ok` is aside but for the message that says it. -/
theorem uploadVerdict_bad
    {status : FileOpStatus}
    {action : AuditAction}
    {result : Bytes}
    (bad : status ≠ .known .ok)
    (other : action ≠ .fileUpload ∨ result ≠ ascii "OK")
    (id : UInt32)
    (target detail : Bytes) :
    ∀ effect ∈
        uploadVerdict setup ctx out id status action target result detail,
      effect.change? = none ∧
        (∀ v, verdictOf effect = some v → v.status ≠ .known .ok) ∧
        ∀ path, ¬PlacedRow path effect := by
  intro effect member
  rcases List.mem_append.mp member with isReply | isRow
  · rw [reply_eq, List.mem_singleton] at isReply
    subst isReply
    refine ⟨rfl, ?_, ?_⟩
    · intro v isVerdict
      rw [verdictOf_send, Option.some.injEq] at isVerdict
      rw [← isVerdict]
      exact bad
    · rintro path ⟨event, same, _⟩
      cases same
  · rw [List.mem_singleton.mp isRow]
    have aside : Aside (auditFileOp setup ctx action target result detail) :=
      aside_auditFileOp other target detail
    refine ⟨aside.change, ?_, aside.row⟩
    intro v isVerdict
    rw [aside.verdict] at isVerdict
    cases isVerdict

/-- An upload that agrees and is renamed is put in place and said to be. -/
theorem finishUpload_placed
    {st : UploadState}
    (setup : SessionSetup)
    (ctx : SessionContext)
    (id : UInt32)
    (agrees : st.Agrees sha256)
    (renamed : out.renamed = true) :
    ∃ ok detail,
      finishUpload sha256 setup ctx out id st =
        st.out.close out.flushedAtClose ++
          [.rename st.tempPath st.finalPath true,
            .send (.known .fileVerify) (FileVerifyMsg.encode ⟨id, .known .ok⟩) ok,
            auditFileOp setup ctx .fileUpload st.finalPath (ascii "OK")
              detail] := by
  have verified :
      st.received = st.expected ∧ st.hasher.finish sha256 = st.declared :=
    agrees
  let payload := FileVerifyMsg.encode ⟨id, .known .ok⟩
  refine ⟨withinCap payload && out.replies 0,
    ascii "sha256=" ++ toHex (st.hasher.finish sha256).bytes, ?_⟩
  rw [finishUpload, if_pos verified, renamed, if_pos rfl]
  rfl

/-- Any other upload is removed, and nothing says that it was put in place. -/
theorem finishUpload_discarded
    {st : UploadState}
    (setup : SessionSetup)
    (ctx : SessionContext)
    (id : UInt32)
    (failed : ¬(st.Agrees sha256 ∧ out.renamed = true)) :
    ∃ tried verdict,
      finishUpload sha256 setup ctx out id st =
          st.out.close out.flushedAtClose ++ tried ++
            .remove st.tempPath out.removed :: verdict ∧
        (∀ effect ∈ tried, effect = .rename st.tempPath st.finalPath false) ∧
        ∀ effect ∈ verdict,
          effect.change? = none ∧
            (∀ v, verdictOf effect = some v → v.status ≠ .known .ok) ∧
            ∀ path, ¬PlacedRow path effect := by
  by_cases agrees :
      st.received = st.expected ∧ st.hasher.finish sha256 = st.declared
  · have notRenamed : out.renamed = false := by
      cases renamed : out.renamed with
      | true => exact absurd ⟨agrees, renamed⟩ failed
      | false => rfl
    refine ⟨[.rename st.tempPath st.finalPath false],
      uploadVerdict setup ctx out id (.known .ioError) .fileUpload st.finalPath
        (ascii "IO_ERROR") (ascii "rename failed"), ?_, ?_, ?_⟩
    · rw [finishUpload, if_pos agrees, notRenamed, List.append_assoc]
      rfl
    · exact fun effect member => List.mem_singleton.mp member
    · exact uploadVerdict_bad (by simp) (.inr (by decide)) _ _ _
  · refine ⟨[],
      uploadVerdict setup ctx out id (.known .hashMismatch) .integrityFail
        st.finalPath (ascii "MISMATCH")
        (if st.received = st.expected then
          ascii "hash differs"
        else
          ascii "size differs"), ?_, by simp, ?_⟩
    · rw [finishUpload, if_neg agrees, List.append_nil]
    · exact uploadVerdict_bad (by simp) (.inl (by simp)) _ _ _

/-- Closing an upload touches its temporary file only. -/
theorem UploadState.OnDisk.close_other
    {files : Files}
    {st : UploadState}
    (onDisk : st.OnDisk files)
    (flushed : Nat)
    {path : Path}
    (other : path ≠ st.tempPath) :
    filesAfter files (st.out.close flushed) path = files path := by
  rw [← onDisk.path] at other
  exact filesAfter_spared files (st.out.close_spares flushed other)

/-- The end of an upload touches its temporary file and its own place only. -/
theorem finishUpload_files_other
    {files : Files}
    {st : UploadState}
    (setup : SessionSetup)
    (ctx : SessionContext)
    (id : UInt32)
    (isTemp : st.out.path = st.tempPath)
    {path : Path}
    (notTemp : path ≠ st.tempPath)
    (notFinal : st.Agrees sha256 ∧ out.renamed = true → path ≠ st.finalPath) :
    filesAfter files (finishUpload sha256 setup ctx out id st) path =
      files path := by
  have notStream : path ≠ st.out.path := isTemp ▸ notTemp
  apply filesAfter_spared files
  intro effect member change changed
  by_cases placed : st.Agrees sha256 ∧ out.renamed = true
  · obtain ⟨ok, detail, effects⟩ :=
      finishUpload_placed setup ctx id placed.1 placed.2
    rw [effects] at member
    rcases List.mem_append.mp member with isClose | isReport
    · exact st.out.close_spares out.flushedAtClose notStream effect isClose
        change changed
    · simp only [List.mem_cons, List.not_mem_nil, or_false] at isReport
      rcases isReport with rfl | rfl | rfl
      · rw [Effect.change?, Option.some.injEq] at changed
        simp [← changed, FileStore.Change.paths, notTemp, notFinal placed]
      · cases changed
      · cases changed
  · obtain ⟨tried, verdict, effects, isTried, isVerdict⟩ :=
      finishUpload_discarded setup ctx id placed
    rw [effects] at member
    rcases List.mem_append.mp member with isFirst | isRest
    · rcases List.mem_append.mp isFirst with isClose | isRename
      · exact st.out.close_spares out.flushedAtClose notStream effect isClose
          change changed
      · rw [isTried effect isRename] at changed
        cases changed
    · rcases List.mem_cons.mp isRest with rfl | isReport
      · cases removed : out.removed with
        | false =>
            rw [removed] at changed
            cases changed
        | true =>
            rw [removed, Effect.change?, Option.some.injEq] at changed
            simp [← changed, FileStore.Change.paths, notTemp]
      · rw [(isVerdict effect isReport).1] at changed
        cases changed

/-- An upload that is put in place: its file, its temporary file, the others. -/
theorem finishUpload_files_placed
    {files : Files}
    {st : UploadState}
    (setup : SessionSetup)
    (ctx : SessionContext)
    (id : UInt32)
    (onDisk : st.OnDisk files)
    (agrees : st.Agrees sha256)
    (renamed : out.renamed = true) :
    filesAfter files (finishUpload sha256 setup ctx out id st) st.finalPath =
        some (st.stored out.flushedAtClose) ∧
      filesAfter files (finishUpload sha256 setup ctx out id st) st.tempPath =
        none ∧
      ∀ path,
        path ≠ st.tempPath →
        path ≠ st.finalPath →
        filesAfter files (finishUpload sha256 setup ctx out id st) path =
          files path := by
  obtain ⟨ok, detail, effects⟩ :=
    finishUpload_placed setup ctx id agrees renamed
  let closed := filesAfter files (st.out.close out.flushedAtClose)
  have stored : closed st.tempPath =
      some (st.stored out.flushedAtClose) :=
    onDisk.close out.flushedAtClose
  have after :
      filesAfter files (finishUpload sha256 setup ctx out id st) =
        FileStore.apply closed (.rename st.tempPath st.finalPath) := by
    rw [effects, filesAfter_append]
    rfl
  refine ⟨?_, ?_, ?_⟩
  · rw [after]
    exact FileStore.apply_rename stored _
  · simp [after, FileStore.apply, stored, onDisk.temp_ne_final]
  · intro path notTemp notFinal
    exact finishUpload_files_other setup ctx id onDisk.path notTemp
      fun _ => notFinal

/-- An upload that is not: its temporary file and the others. -/
theorem finishUpload_files_discarded
    {files : Files}
    {st : UploadState}
    (setup : SessionSetup)
    (ctx : SessionContext)
    (id : UInt32)
    (onDisk : st.OnDisk files)
    (failed : ¬(st.Agrees sha256 ∧ out.renamed = true)) :
    filesAfter files (finishUpload sha256 setup ctx out id st) st.tempPath =
        (if out.removed then
          none
        else
          some (st.stored out.flushedAtClose)) ∧
      ∀ path,
        path ≠ st.tempPath →
        filesAfter files (finishUpload sha256 setup ctx out id st) path =
          files path := by
  obtain ⟨tried, verdict, effects, isTried, isVerdict⟩ :=
    finishUpload_discarded setup ctx id failed
  let closed := filesAfter files (st.out.close out.flushedAtClose)
  have stored : closed st.tempPath =
      some (st.stored out.flushedAtClose) :=
    onDisk.close out.flushedAtClose
  have after :
      filesAfter files (finishUpload sha256 setup ctx out id st) =
        filesAfter closed [.remove st.tempPath out.removed] := by
    have triedNothing : filesAfter closed tried = closed := by
      apply filesAfter_unchanged
      intro effect member
      rw [isTried effect member]
      rfl
    calc
      filesAfter files (finishUpload sha256 setup ctx out id st)
        = filesAfter (filesAfter closed tried)
            ([.remove st.tempPath out.removed] ++ verdict) := by
          rw [effects, filesAfter_append, filesAfter_append]
          rfl
      _ = filesAfter (filesAfter closed [.remove st.tempPath out.removed])
            verdict := by
          rw [triedNothing, filesAfter_append]
      _ = filesAfter closed [.remove st.tempPath out.removed] :=
          filesAfter_unchanged _ fun effect member =>
            (isVerdict effect member).1
  refine ⟨?_, fun path notTemp =>
    finishUpload_files_other setup ctx id onDisk.path notTemp
      fun placed => absurd placed failed⟩
  rw [after]
  cases removed : out.removed with
  | true =>
      simp [filesAfter, Effect.change?, FileStore.apply]
  | false =>
      exact stored

/-! ## The end of a turn -/

/-- What a session that ends does to the uploads that it has not finished. -/
def discarded (out : Outside) (uploads : Uploads) : List Effect :=
  uploads.toList.flatMap fun entry =>
    entry.2.out.close (out.cleanup entry.1).1 ++
      [.remove entry.2.tempPath (out.cleanup entry.1).2]

/-- How a turn ends: the session goes on, or discards its uploads and closes. -/
inductive Ends
    (ctx : SessionContext)
    (out : Outside)
    (uploads : Uploads) : SessionPhase → List Effect → Prop where
  | live
      {next : LoopState} {rest : List Effect}
      (kept : next.uploads = uploads)
      (only : ∀ effect ∈ rest, Aside effect ∧ acceptedId effect = none) :
      Ends ctx out uploads (.live ctx next) rest
  | closed
      {shown ending : List Effect}
      (onlyShown : ∀ effect ∈ shown, Aside effect ∧ acceptedId effect = none)
      (onlyEnding : ∀ effect ∈ ending, Aside effect ∧ acceptedId effect = none) :
      Ends ctx out uploads (.closed uploads)
        (shown ++ discarded out uploads ++ ending)

/-- A turn ends in one of these ways once its message has been handled. -/
theorem Streams.ends
    {effects : List Effect}
    {result : SessionPhase × List Effect}
    (streams : Streams setup ctx out loop effects result) :
    ∃ rest,
      result.2 = effects ++ rest ∧ Ends ctx out loop.uploads result.1 rest := by
  cases streams with
  | live next uploads ids only =>
      refine ⟨_, rfl, .live uploads ?_⟩
      exact fun effect member =>
        ⟨(only effect member).aside, (only effect member).inert.1.1⟩
  | @finished next uploads shown only =>
      let ending : List Effect :=
        [.audit (.session ctx.user setup.peerStr false []), .overlayHide,
          .releaseSlot]
      refine ⟨shown ++ discarded out loop.uploads ++ ending, ?_, ?_⟩
      · rw [← uploads]
        simp only [finishSession, discarded, ending, List.append_assoc]
      · rw [← uploads]
        refine .closed ?_ ?_
        · exact fun effect member =>
            ⟨(only effect member).aside, (only effect member).inert.1.1⟩
        · intro effect member
          refine ⟨?_, ?_⟩
          · simp only [ending, List.mem_cons, List.not_mem_nil, or_false]
              at member
            rcases member with rfl | rfl | rfl
            · refine ⟨rfl, rfl, ?_, rfl⟩
              rintro target ⟨event, same, isUpload, _⟩
              rw [Effect.audit.injEq] at same
              rw [← same] at isUpload
              cases isUpload
            · exact aside_unlogged rfl rfl rfl (by simp)
            · exact aside_unlogged rfl rfl rfl (by simp)
          · simp only [ending, List.mem_cons, List.not_mem_nil, or_false]
              at member
            rcases member with rfl | rfl | rfl <;> rfl

end Dealing

end RadminPro
