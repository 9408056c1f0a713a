import RadminPro.UploadLedger
import RadminPro.SessionExchange

namespace RadminPro

open ByteCodec
open TracePolicy

/-!
# Verdicts against an arbitrary client

The handler keeps the ledger, whatever the client sends, so every verdict of a
session is fair.  The byte counter of an upload has 64 bits: sizes are compared
modulo 2⁶⁴.
-/

/-- The effect is neither received nor about a transfer. -/
def Inert (effect : Effect) : Prop :=
  Silent effect ∧ receivedMessage effect = none

section Handling

variable {sha256 : Bytes → Hash256}
variable {setup : SessionSetup}
variable {ctx : SessionContext}
variable {out : Outside}
variable {trace effects : List Effect}
variable {loop : LoopState}
variable {m : Message}

/-! ## Inert effects -/

theorem inert_append
    {earlier later : List Effect}
    (first : ∀ effect ∈ earlier, Inert effect)
    (second : ∀ effect ∈ later, Inert effect) :
    ∀ effect ∈ earlier ++ later, Inert effect := by
  intro effect member
  rcases List.mem_append.mp member with isFirst | isSecond
  · exact first effect isFirst
  · exact second effect isSecond

/-- A message about something else than a transfer is inert. -/
theorem inert_send
    {op : Op}
    (payload : Bytes)
    (ok : Bool)
    (noAccept : op ≠ .known .fileAccept)
    (noVerify : op ≠ .known .fileVerify) :
    Inert (.send op payload ok) := by
  refine ⟨⟨?_, ?_⟩, rfl⟩
  · unfold acceptedId
    split
    · next same =>
        cases same
        exact absurd rfl noAccept
    · rfl
  · unfold verdictOf
    split
    · next same =>
        cases same
        exact absurd rfl noVerify
    · rfl

theorem inert_sendOpResult
    (status : FileOpStatus)
    (text : Bytes) :
    ∀ effect ∈ sendOpResult out status text, Inert effect := by
  intro effect member
  rw [sendOpResult, reply_eq, List.mem_singleton] at member
  rw [member]
  exact inert_send _ _ (by simp) (by simp)

/-- A log row and an operation result are inert. -/
theorem inert_auditedResult
    (action : AuditAction)
    (target result detail : Bytes)
    (status : FileOpStatus)
    (text : Bytes) :
    ∀ effect ∈
        auditFileOp setup ctx action target result detail ::
          sendOpResult out status text,
      Inert effect := by
  intro effect member
  rcases List.mem_cons.mp member with rfl | isResult
  · exact ⟨⟨rfl, rfl⟩, rfl⟩
  · exact inert_sendOpResult _ _ effect isResult

theorem inert_close
    (stream : OfStream)
    (flushed : Nat) :
    ∀ effect ∈ stream.close flushed, Inert effect := by
  intro effect member
  simp only [OfStream.close, List.mem_cons, List.not_mem_nil, or_false]
    at member
  rcases member with rfl | rfl <;>
    exact ⟨⟨rfl, rfl⟩, rfl⟩

theorem inert_write
    (stream : OfStream)
    (data : Bytes)
    (flush : Flush) :
    ∀ effect ∈ (stream.write data flush).2, Inert effect := by
  intro effect member
  unfold OfStream.write at member
  split at member
  · rw [List.mem_singleton.mp member]
    exact ⟨⟨rfl, rfl⟩, rfl⟩
  · cases member

theorem Shown.inert
    {effect : Effect}
    (shown : Shown setup ctx effect) :
    Inert effect := by
  rcases shown with ⟨_, op, payload, ok, rfl, isFrame⟩ | ⟨ok, rfl⟩
  · rcases isFrame with rfl | rfl | rfl | rfl <;>
      exact inert_send _ _ (by simp) (by simp)
  · exact ⟨⟨rfl, rfl⟩, rfl⟩

theorem inert_discard
    {entry : UInt32 × UploadState} :
    ∀ effect ∈
        entry.2.out.close (out.cleanup entry.1).1 ++
          [.remove entry.2.tempPath (out.cleanup entry.1).2],
      Inert effect :=
  inert_append (inert_close _ _) (by simp [Inert, Silent, acceptedId,
    verdictOf, receivedMessage])

/-- The end of the event loop is inert after what came before it. -/
theorem finishSession_inert
    (setup : SessionSetup)
    (ctx : SessionContext)
    (out : Outside)
    (loop : LoopState)
    (effects : List Effect) :
    ∃ ending,
      (finishSession setup ctx out loop effects).2 = effects ++ ending ∧
        ∀ effect ∈ ending, Inert effect := by
  refine ⟨_, List.append_assoc .., inert_append ?_ ?_⟩
  · intro effect member
    obtain ⟨entry, _, isEffect⟩ := List.mem_flatMap.mp member
    exact inert_discard effect isEffect
  · simp [Inert, Silent, acceptedId, verdictOf, receivedMessage]

/-! ## The handler keeps the ledger -/

/-- The ledger stays true through inert effects. -/
theorem Ledger.appendInert
    (ledger : Ledger sha256 trace loop)
    (inert : ∀ effect ∈ effects, Inert effect) :
    Ledger sha256 (trace ++ effects) loop :=
  ledger.inert (fun effect member => (inert effect member).1)
    fun effect member => (inert effect member).2

/-- A message that is no block of an upload adds nothing to the ledger. -/
theorem Ledger.receive
    (ledger : Ledger sha256 trace loop)
    (unblocked : Unblocked loop m) :
    Ledger sha256 (trace ++ [.received m]) loop := by
  refine ledger.silent (by simp [Silent, acceptedId, verdictOf]) ?_
  intro id st found
  simp only [blockData_cons, blockData_nil, List.append_nil, blockOf]
  split
  · next op =>
      split
      · next blk decoded =>
          split
          · next same =>
              have unknown := unblocked blk op decoded
              rw [same, found] at unknown
              cases unknown
          · rfl
      · rfl
  · rfl

/-- A message that is no block at all adds nothing to the ledger. -/
theorem Ledger.receiveOther
    (ledger : Ledger sha256 trace loop)
    (noBlock : m.op ≠ .known .fileBlock) :
    Ledger sha256 (trace ++ [.received m]) loop :=
  ledger.receive fun _ op => absurd op noBlock

/-- A request stays the last message through inert effects. -/
theorem requested_append
    {req : FileUploadReqMsg}
    (op : m.op = .known .fileUploadReq)
    (decoded : FileUploadReqMsg.decode m.payload = .ok req)
    (inert : ∀ effect ∈ effects, Inert effect) :
    Requested req (trace ++ [.received m] ++ effects) := by
  have nothing : effects.filterMap receivedMessage = [] :=
    List.filterMap_eq_nil_iff.mpr fun effect member => (inert effect member).2
  exact ⟨m, by simp [nothing, receivedMessage], op, decoded⟩

/-- The announcement of an upload. -/
theorem acceptedId_send
    (acc : FileAcceptMsg)
    (ok : Bool) :
    acceptedId (.send (.known .fileAccept) acc.encode ok) =
      some acc.transferId := by
  have decoded : FileAcceptMsg.decode acc.encode = .ok acc :=
    FileAcceptMsg.decode_ok_iff.mpr ⟨[], by simp⟩
  simp [acceptedId, decoded]

/-- An announcement counts once. -/
theorem accepts_announced
    {accept : Effect}
    {id : UInt32}
    (accepted : acceptedId accept = some id) :
    accepts [accept] = 1 := by
  simp [accepts, accepted]

theorem verdictOf_send
    (v : FileVerifyMsg)
    (ok : Bool) :
    verdictOf (.send (.known .fileVerify) v.encode ok) = some v := by
  have decoded : FileVerifyMsg.decode v.encode = .ok v :=
    FileVerifyMsg.decode_ok_iff.mpr ⟨[], by simp⟩
  simp [verdictOf, decoded]

/-- A request is refused, or its upload begins with an announcement. -/
theorem beginUpload_cases
    (out : Outside)
    (loop : LoopState)
    (req : FileUploadReqMsg)
    (dest : Path) :
    (∃ effects,
        beginUpload out loop req dest = { loop, effects } ∧
          ∀ effect ∈ effects, Inert effect) ∨
      ∃ opening ok,
        beginUpload out loop req dest =
            { loop :=
                { loop with
                  uploads :=
                    loop.uploads.insert loop.nextTransferId
                      (.requested req dest)
                  nextTransferId := loop.nextTransferId + 1 }
              effects :=
                opening ++
                  [.send (.known .fileAccept)
                    (FileAcceptMsg.encode { transferId := loop.nextTransferId })
                    ok] } ∧
          ∀ effect ∈ opening, Inert effect := by
  have directories :
      ∀ effect ∈
          ((PathText.parentDirectories dest).filter out.creates).map
            Effect.createDirectory,
        Inert effect := by
    intro effect member
    obtain ⟨directory, _, rfl⟩ := List.mem_map.mp member
    exact ⟨⟨rfl, rfl⟩, rfl⟩
  have opening :
      ∀ effect ∈
          ((PathText.parentDirectories dest).filter out.creates).map
              Effect.createDirectory ++
            [.openTrunc (dest ++ ascii ".part") out.opened],
        Inert effect :=
    inert_append directories (by
      simp [Inert, Silent, acceptedId, verdictOf, receivedMessage])
  unfold beginUpload
  dsimp only
  split
  · exact .inl ⟨_, rfl, inert_append opening (inert_sendOpResult _ _)⟩
  · refine .inr ⟨_, _, rfl, inert_append opening ?_⟩
    cases loop.uploads[loop.nextTransferId]? with
    | none => simp
    | some old => exact inert_close _ _

/-- An upload request is entered under the next id, or refused. -/
theorem Ledger.beginUpload
    {req : FileUploadReqMsg}
    {dest : Path}
    (ledger : Ledger sha256 trace loop)
    (op : m.op = .known .fileUploadReq)
    (decoded : FileUploadReqMsg.decode m.payload = .ok req)
    (bounded :
      accepts
          (trace ++ .received m ::
            (RadminPro.beginUpload out loop req dest).effects) < 2 ^ 32) :
    Ledger sha256
      (trace ++ .received m ::
        (RadminPro.beginUpload out loop req dest).effects)
      (RadminPro.beginUpload out loop req dest).loop := by
  have asked : Ledger sha256 (trace ++ [.received m]) loop :=
    ledger.receiveOther (by simp [op])
  rcases beginUpload_cases out loop req dest with
    ⟨effects, isRefused, inert⟩ | ⟨opening, ok, isAccepted, inert⟩
  · rw [isRefused, List.append_cons]
    exact asked.appendInert inert
  · rw [isAccepted] at bounded ⊢
    rw [List.append_cons, ← List.append_assoc] at bounded ⊢
    have ready := asked.appendInert inert
    have accepted :=
      acceptedId_send { transferId := loop.nextTransferId } ok
    have room : accepts (trace ++ [.received m] ++ opening) + 1 < 2 ^ 32 := by
      rwa [accepts_append, accepts_announced accepted] at bounded
    have announced := ready.accept room accepted rfl rfl
    exact announced.insert
      (ready.opened room (requested_append op decoded inert) accepted rfl)
      rfl rfl rfl

/-- A verdict is one answer and one log row. -/
theorem uploadVerdict_eq
    (setup : SessionSetup)
    (ctx : SessionContext)
    (out : Outside)
    (id : UInt32)
    (status : FileOpStatus)
    (action : AuditAction)
    (target result detail : Bytes) :
    ∃ ok,
      uploadVerdict setup ctx out id status action target result detail =
        [.send (.known .fileVerify) (FileVerifyMsg.encode ⟨id, status⟩) ok] ++
          [auditFileOp setup ctx action target result detail] :=
  ⟨_, rfl⟩

/-- A completed upload is answered once, by its size and its hash. -/
theorem finishUpload_cases
    (sha256 : Bytes → Hash256)
    (setup : SessionSetup)
    (ctx : SessionContext)
    (out : Outside)
    (id : UInt32)
    (st : UploadState) :
    ∃ before status action target result detail,
      finishUpload sha256 setup ctx out id st =
          before ++
            uploadVerdict setup ctx out id status action target result detail ∧
        (∀ effect ∈ before, Inert effect) ∧
        (status = .known .ok →
          st.received = st.expected ∧ sha256 st.hasher.fed = st.declared) ∧
        (status = .known .hashMismatch →
          st.received ≠ st.expected ∨ sha256 st.hasher.fed ≠ st.declared) := by
  have renamed : ∀ src dst ok, Inert (.rename src dst ok) :=
    fun _ _ _ => ⟨⟨rfl, rfl⟩, rfl⟩
  have removed : ∀ path ok, Inert (.remove path ok) :=
    fun _ _ => ⟨⟨rfl, rfl⟩, rfl⟩
  unfold finishUpload
  dsimp only
  split
  · next agrees =>
      split
      · exact ⟨st.out.close out.flushedAtClose ++
            [.rename st.tempPath st.finalPath out.renamed],
          _, _, _, _, _, List.append_cons ..,
          inert_append (inert_close _ _) (by simp [renamed]),
          fun _ => agrees, by simp⟩
      · exact ⟨st.out.close out.flushedAtClose ++
            [.rename st.tempPath st.finalPath out.renamed] ++
            [.remove st.tempPath out.removed],
          .known .ioError, _, _, _, _,
          (List.append_cons ..).trans (List.append_cons ..),
          inert_append
            (inert_append (inert_close _ _) (by simp [renamed]))
            (by simp [removed]),
          by simp, by simp⟩
  · next disagrees =>
      refine ⟨st.out.close out.flushedAtClose ++
          [.remove st.tempPath out.removed],
        .known .hashMismatch, _, _, _, _, List.append_cons ..,
        inert_append (inert_close _ _) (by simp [removed]), by simp,
        fun _ => ?_⟩
      rwa [not_and_or] at disagrees

/-- A completed upload leaves the map with its answer. -/
theorem Ledger.finishUpload
    {id : UInt32}
    {st : UploadState}
    (ledger : Ledger sha256 trace loop)
    (op : m.op = .known .fileComplete)
    (found : loop.uploads[id]? = some st) :
    Ledger sha256
      (trace ++ .received m ::
        RadminPro.finishUpload sha256 setup ctx out id st)
      { loop with uploads := loop.uploads.erase id } := by
  obtain ⟨before, status, action, target, result, detail, shape, inert, isOk,
    isMismatch⟩ := finishUpload_cases sha256 setup ctx out id st
  obtain ⟨ok, verdict⟩ :=
    uploadVerdict_eq setup ctx out id status action target result detail
  have asked : Ledger sha256 (trace ++ [.received m]) loop :=
    ledger.receiveOther (by simp [op])
  have answered :=
    (asked.appendInert inert).answer found (verdictOf_send ⟨id, status⟩ ok) rfl
      rfl isOk isMismatch
  have row :
      ∀ effect ∈ [auditFileOp setup ctx action target result detail],
        Inert effect := by
    intro effect member
    rw [List.mem_singleton.mp member]
    exact ⟨⟨rfl, rfl⟩, rfl⟩
  have logged := answered.appendInert row
  rw [shape, verdict]
  simpa using logged

/-- A download is announced under the next id and sends inert messages. -/
theorem sendDownload_cases
    (out : Outside)
    (id : UInt32)
    (data : Bytes)
    (hash : Hash256) :
    ∃ acc ok rest,
      sendDownload out id data hash =
          .send (.known .fileAccept) (FileAcceptMsg.encode acc) ok :: rest ∧
        acc.transferId = id ∧
        ∀ effect ∈ rest, Inert effect := by
  unfold sendDownload
  dsimp only
  obtain ⟨attempted, shape, only⟩ :=
    sendAll_writeMessage out.replies (downloadBlocks id data)
      (writeMessage out.replies [] (.known .fileAccept)
        (FileAcceptMsg.encode
          { transferId := id
            size := UInt64.ofNat data.length
            sha256 := hash })).2
  rw [shape]
  refine ⟨_, _, _, rfl, rfl, inert_append (fun effect member => ?_) ?_⟩
  · obtain ⟨message, isMessage, ok, rfl⟩ := only effect member
    obtain ⟨index, _, rfl⟩ := List.mem_map.mp isMessage
    exact inert_send _ _ (by simp) (by simp)
  · intro effect member
    rw [List.mem_singleton.mp member]
    exact inert_send _ _ (by simp) (by simp)

/-- A download takes the next id. -/
theorem Ledger.download
    {src : Path}
    {data : Bytes}
    {hash : Hash256}
    {row : Effect}
    (ledger : Ledger sha256 trace loop)
    (op : m.op = .known .fileDownloadReq)
    (inertRow : Inert row)
    (bounded :
      accepts
          (trace ++ .received m ::
            (.readFile src (some data) ::
                sendDownload out loop.nextTransferId data hash ++
              [row])) < 2 ^ 32) :
    Ledger sha256
      (trace ++ .received m ::
        (.readFile src (some data) ::
            sendDownload out loop.nextTransferId data hash ++
          [row]))
      { loop with nextTransferId := loop.nextTransferId + 1 } := by
  obtain ⟨acc, ok, rest, shape, sameId, inert⟩ :=
    sendDownload_cases out loop.nextTransferId data hash
  have asked : Ledger sha256 (trace ++ [.received m]) loop :=
    ledger.receiveOther (by simp [op])
  have read :
      Ledger sha256 (trace ++ [.received m] ++ [.readFile src (some data)])
        loop :=
    asked.appendInert
      (by simp [Inert, Silent, acceptedId, verdictOf, receivedMessage])
  have accepted := acceptedId_send acc ok
  rw [sameId] at accepted
  have split :
      trace ++ .received m ::
          (.readFile src (some data) ::
              sendDownload out loop.nextTransferId data hash ++
            [row]) =
        trace ++ [.received m] ++ [.readFile src (some data)] ++
            [.send (.known .fileAccept) (FileAcceptMsg.encode acc) ok] ++
          (rest ++ [row]) := by
    simp [shape]
  rw [split] at bounded ⊢
  have room :
      accepts (trace ++ [.received m] ++ [.readFile src (some data)]) + 1 <
        2 ^ 32 := by
    rw [accepts_append, accepts_append, accepts_announced accepted] at bounded
    omega
  exact (read.accept room accepted rfl rfl).appendInert
    (inert_append inert (by simpa using inertRow))

/-- The handler keeps the ledger. -/
theorem Handles.ledger
    {outcome : Outcome}
    (ledger : Ledger sha256 trace loop)
    (handles : Handles sha256 setup ctx out loop m outcome)
    (bounded : accepts (trace ++ .received m :: outcome.effects) < 2 ^ 32) :
    Ledger sha256 (trace ++ .received m :: outcome.effects) outcome.loop := by
  -- Most branches are inert once the message has been taken in.
  have quiet :
      ∀ {effects : List Effect},
        Unblocked loop m →
        (∀ effect ∈ effects, Inert effect) →
        Ledger sha256 (trace ++ .received m :: effects) loop := by
    intro effects unblocked inert
    rw [List.append_cons]
    exact (ledger.receive unblocked).appendInert inert
  have unblockedBy :
      ∀ {op : Op},
        m.op = op → op ≠ .known .fileBlock → Unblocked loop m :=
    fun isOp noBlock _ isBlock => absurd (isOp.symm.trans isBlock) noBlock
  have row :
      ∀ action target result detail,
        Inert (auditFileOp setup ctx action target result detail) :=
    fun _ _ _ _ => ⟨⟨rfl, rfl⟩, rfl⟩
  have acted :
      ∀ {first : Effect} {action : AuditAction} {target result detail : Bytes},
        Inert first →
        ∀ effect ∈ [first, auditFileOp setup ctx action target result detail],
          Inert effect := by
    intro first action target result detail inert
    simp [inert, row]
  cases handles with
  | bye op => exact quiet (unblockedBy op (by simp)) (by simp)
  | ignored unblocked => exact quiet unblocked (by simp)
  | mouse op permitted x y action =>
      exact quiet (unblockedBy op (by simp))
        (by simp [Inert, Silent, acceptedId, verdictOf, receivedMessage])
  | key op permitted down vk =>
      exact quiet (unblockedBy op (by simp))
        (by simp [Inert, Silent, acceptedId, verdictOf, receivedMessage])
  | notPermitted noBlock refused operation text =>
      exact quiet (unblockedBy rfl noBlock)
        (inert_auditedResult _ _ _ _ _ _)
  | pathRejected noBlock action target fileAction =>
      exact quiet (unblockedBy rfl noBlock)
        (inert_auditedResult _ _ _ _ _ _)
  | upload permitted op decoded resolved =>
      exact ledger.beginUpload op decoded bounded
  | block op decoded found =>
      rw [List.append_cons]
      refine Ledger.appendInert (ledger.block op decoded found ?_ ?_ ?_ ?_)
        (inert_write _ _ _) <;>
        rfl
  | complete op decoded found =>
      exact ledger.finishUpload op found
  | delete permitted op decoded resolved =>
      exact quiet (unblockedBy op (by simp))
        (inert_append (acted ⟨⟨rfl, rfl⟩, rfl⟩) (inert_sendOpResult _ _))
  | move permitted op decoded srcResolved dstResolved =>
      exact quiet (unblockedBy op (by simp))
        (inert_append (acted ⟨⟨rfl, rfl⟩, rfl⟩) (inert_sendOpResult _ _))
  | missing permitted op decoded resolved =>
      refine quiet (unblockedBy op (by simp)) fun effect member => ?_
      rcases List.mem_cons.mp member with rfl | isResult
      · exact ⟨⟨rfl, rfl⟩, rfl⟩
      · exact inert_sendOpResult _ _ effect isResult
  | download permitted op decoded resolved =>
      exact ledger.download op (row _ _ _ _) bounded
  | receipt op =>
      exact quiet (unblockedBy op (by simp)) (by simp [row])

/-! ## Runs -/

/-- What the ledger of a session says in each phase. -/
def Ledgered (sha256 : Bytes → Hash256) (session : Session) : Prop :=
  match session.phase with
  | .handshake | .hello | .auth | .mode .. =>
      ∀ effect ∈ session.trace, Silent effect
  | .live _ loop => Ledger sha256 session.trace loop
  | .closed _ | .terminated _ | .stuck =>
      Obeys (VerdictFair sha256 (· % 2 ^ 64)) session.trace

theorem Preliminary.silent
    {effect : Effect}
    (preliminary : Preliminary effect) :
    Silent effect := by
  cases preliminary with
  | received m => exact ⟨rfl, rfl⟩
  | talk op payload ok greeting =>
      rcases greeting with rfl | rfl | rfl <;>
        exact ⟨rfl, rfl⟩
  | log event noSession => exact ⟨rfl, rfl⟩

/-- A ledger without entries, at the start of the event loop. -/
theorem Ledger.start
    (silent : ∀ effect ∈ trace, Silent effect)
    (captureOk : Bool) :
    Ledger sha256 trace { captureOk } := by
  constructor
  · rw [accepts_of_silent silent]
    rfl
  · intro effect member id accepted
    rw [(silent effect member).1] at accepted
    cases accepted
  · intro effect member v isVerdict
    rw [(silent effect member).2] at isVerdict
    cases isVerdict
  · intro id st found
    simp at found
  · exact obeys_of_forall fun effect member before v isVerdict => by
      rw [(silent effect member).2] at isVerdict
      cases isVerdict

/-- However a turn of the event loop ends, the ledger was kept. -/
theorem ledgered_streams
    {result : SessionPhase × List Effect}
    (ledger : Ledger sha256 (trace ++ effects) loop)
    (streams : Streams setup ctx out loop effects result) :
    Ledgered sha256 ⟨result.1, trace ++ result.2⟩ := by
  cases streams with
  | @live next uploads ids shown only =>
      have kept := ledger.appendInert fun effect member =>
        (only effect member).inert
      rw [List.append_assoc] at kept
      have live : Ledger sha256 (trace ++ (effects ++ shown)) next := by
        refine ⟨?_, kept.issued, kept.answered, ?_, kept.fair⟩
        · rw [ids]
          exact kept.counted
        · rw [uploads]
          exact kept.uploads
      exact live
  | @finished next uploads shown only =>
      obtain ⟨ending, shape, inert⟩ :=
        finishSession_inert setup ctx out next (effects ++ shown)
      have ended :=
        (ledger.appendInert fun effect member => (only effect member).inert)
          |>.appendInert inert
      rw [List.append_assoc, List.append_assoc, ← List.append_assoc effects,
        ← shape] at ended
      exact ended.fair

/-- The effects of a turn before the event loop are silent. -/
theorem ledgered_enters
    {phase : SessionPhase}
    {turn : Turn}
    {result : SessionPhase × List Effect}
    (silent : ∀ effect ∈ trace, Silent effect)
    (enters : Enters setup turn phase result) :
    Ledgered sha256 ⟨result.1, trace ++ result.2⟩ := by
  have grown :
      ∀ {effects : List Effect},
        (∀ effect ∈ effects, Silent effect) →
        ∀ effect ∈ trace ++ effects, Silent effect := by
    intro effects more effect member
    rcases List.mem_append.mp member with earlier | isNew
    · exact silent effect earlier
    · exact more effect isNew
  have fair :
      ∀ {trace : List Effect},
        (∀ effect ∈ trace, Silent effect) →
        Obeys (VerdictFair sha256 (· % 2 ^ 64)) trace :=
    fun isSilent => (Ledger.start isSilent true).fair
  cases enters with
  | left early only =>
      refine fair (grown fun effect member => ?_)
      rcases List.mem_append.mp member with isOnly | isSlot
      · exact (only effect isOnly).silent
      · rw [List.mem_singleton.mp isSlot]
        exact ⟨rfl, rfl⟩
  | shaken => exact grown (by simp)
  | greeted only => exact grown fun effect member => (only effect member).silent
  | authenticated m user payload detail rights sessionId ok isResult =>
      exact grown (by simp [Silent, acceptedId, verdictOf])
  | started m text detail authorized op decoded =>
      exact Ledger.start (grown (by simp [Silent, acceptedId, verdictOf])) _
  | threw early => exact fair (grown (by simp [Silent, acceptedId, verdictOf]))

/-- Every turn keeps the ledger while fewer than 2³² transfers are accepted. -/
theorem ledgered_step
    (session : Session)
    (turn : Turn)
    (ledgered : accepts session.trace < 2 ^ 32 → Ledgered sha256 session)
    (bounded : accepts (session.step sha256 setup turn).trace < 2 ^ 32) :
    Ledgered sha256 (session.step sha256 setup turn) := by
  obtain ⟨phase, trace⟩ := session
  have before : accepts trace < 2 ^ 32 := by
    rw [Session.step, accepts_append] at bounded
    dsimp only at bounded
    omega
  have known := ledgered before
  by_cases early : phase.early
  · have silent : ∀ effect ∈ trace, Silent effect := by
      cases phase with
      | handshake => exact known
      | hello => exact known
      | auth => exact known
      | mode user rights => exact known
      | _ => exact early.elim
    exact ledgered_enters silent (turn_enters sha256 setup early turn)
  · cases phase with
    | live ctx loop =>
        have ledger : Ledger sha256 trace loop := known
        have inverted := liveTurn_liveTurn sha256 setup ctx loop turn
        rw [Session.step] at bounded ⊢
        dsimp only [SessionPhase.turn] at bounded ⊢
        generalize liveTurn sha256 setup ctx loop turn = result
          at inverted bounded ⊢
        cases inverted with
        | unread streams =>
            exact ledgered_streams (by rwa [List.append_nil]) streams
        | handled running read handles streams =>
            refine ledgered_streams (handles.ledger ledger ?_) streams
            obtain ⟨more, shape⟩ := streams.extends
            rw [shape, ← List.append_assoc, accepts_append] at bounded
            omega
        | threw running read failed =>
            exact obeys_append.mpr ⟨ledger.fair,
              obeys_of_silent (by simp [Silent, acceptedId, verdictOf])⟩
    | closed unfinished =>
        simpa [Session.step, SessionPhase.turn] using known
    | terminated error =>
        simpa [Session.step, SessionPhase.turn] using known
    | stuck =>
        simpa [Session.step, SessionPhase.turn] using known
    | _ => exact absurd trivial early

end Handling

/--
Every verdict of a session with fewer than 2³² transfers answers an open upload
for the first time, by the blocks that carried its id: `Ok` only if they have the
declared size modulo 2⁶⁴ and the declared hash, `HashMismatch` only if they lack
one of the two.
-/
theorem verdicts_fair
    (sha256 : Bytes → Hash256)
    (setup : SessionSetup)
    (turns : List Turn)
    (bounded : accepts (Session.run sha256 setup turns).trace < 2 ^ 32) :
    Obeys (VerdictFair sha256 (· % 2 ^ 64))
      (Session.run sha256 setup turns).trace := by
  have ledgered :
      accepts (Session.run sha256 setup turns).trace < 2 ^ 32 →
        Ledgered sha256 (Session.run sha256 setup turns) :=
    StepRuns.run_invariant
      (fun session : Session =>
        accepts session.trace < 2 ^ 32 → Ledgered sha256 session)
      ledgered_step
      (fun _ => by simp [Ledgered, Silent, acceptedId, verdictOf]) turns
  have known := ledgered bounded
  unfold Ledgered at known
  cases phase : (Session.run sha256 setup turns).phase with
  | live ctx loop =>
      rw [phase] at known
      exact known.fair
  | handshake =>
      rw [phase] at known
      exact (Ledger.start known true).fair
  | hello =>
      rw [phase] at known
      exact (Ledger.start known true).fair
  | auth =>
      rw [phase] at known
      exact (Ledger.start known true).fair
  | mode user rights =>
      rw [phase] at known
      exact (Ledger.start known true).fair
  | _ =>
      rw [phase] at known
      exact known

/-- A file in two blocks, and one whose block is not what was declared. -/
def twoUploads : List Turn :=
  loginTurns {} [] R_FileTransfer (.known .fileOnly) ++
    [messageTurn .fileUploadReq
        (FileUploadReqMsg.encode
          { remotePath := ascii "a", size := 3, sha256 := evpSha256 [1, 2, 3] }),
      messageTurn .fileUploadReq
        (FileUploadReqMsg.encode
          { remotePath := ascii "b", size := 1, sha256 := evpSha256 [9] }),
      messageTurn .fileBlock (FileBlockMsg.encode ⟨1, 0, [1, 2]⟩),
      messageTurn .fileBlock (FileBlockMsg.encode ⟨2, 0, [8]⟩),
      messageTurn .fileBlock (FileBlockMsg.encode ⟨1, 1, [3]⟩),
      messageTurn .fileComplete (putU32 1),
      messageTurn .fileComplete (putU32 2)]

/-- The first of them is in place, the second is refused. -/
theorem verdicts_fair_twoUploads :
    Obeys (VerdictFair evpSha256 (· % 2 ^ 64))
        (Session.run evpSha256 ⟨[], [], ascii "C:\\share", 0⟩
          twoUploads).trace ∧
      (Session.run evpSha256 ⟨[], [], ascii "C:\\share", 0⟩
          twoUploads).trace.filterMap verdictOf =
        [⟨1, .known .ok⟩, ⟨2, .known .hashMismatch⟩] := by
  constructor
  · exact verdicts_fair _ _ _ (by decide +kernel)
  · decide +kernel

/-! ## The counter wraps -/

/-- A block for the first transfer. -/
def firstTransferBlock (block : Bytes) : Turn :=
  messageTurn .fileBlock
    (FileBlockMsg.encode { transferId := 1, sequence := 0, data := block })

section Wrapping

variable {ctx : SessionContext}

/-- Blocks for the first transfer add up. -/
theorem run_firstTransferBlocks
    (sha256 : Bytes → Hash256)
    (setup : SessionSetup)
    (unseen : ctx.canView = false)
    {block : Bytes}
    (fits : block.length < 2 ^ 32)
    (count : Nat)
    (trace : List Effect)
    {loop : LoopState}
    {st : UploadState}
    (found : loop.uploads[(1 : UInt32)]? = some st) :
    ∃ next effects last,
      StepRuns.run (Session.step sha256 setup) ⟨.live ctx loop, trace⟩
          (List.replicate count (firstTransferBlock block)) =
        ⟨.live ctx next, trace ++ effects⟩ ∧
      next.uploads[(1 : UInt32)]? = some last ∧
      last.expected = st.expected ∧
      last.declared = st.declared ∧
      last.received = st.received + UInt64.ofNat (count * block.length) ∧
      last.hasher.fed =
        st.hasher.fed ++ (List.replicate count block).flatten ∧
      (∀ effect ∈ effects, Silent effect) ∧
      blockData 1 effects = (List.replicate count block).flatten := by
  induction count generalizing loop trace st with
  | zero =>
      exact ⟨loop, [], st, by simp, found, rfl, rfl, by simp, by simp, by simp,
        rfl⟩
  | succ count inductionHypothesis =>
      have decoded :
          FileBlockMsg.decode
              (FileBlockMsg.encode
                { transferId := 1, sequence := 0, data := block }) =
            .ok { transferId := 1, sequence := 0, data := block } :=
        FileBlockMsg.decode_ok_iff.mpr ⟨fits, [], by simp⟩
      -- The entry after one more block.
      let blocked : UploadState :=
        { st with
          out := (st.out.write block ({} : Outside).flush).1
          hasher := st.hasher.update block
          received := st.received + UInt64.ofNat block.length }
      let nextLoop : LoopState :=
        { loop with uploads := loop.uploads.insert 1 blocked }
      let taken : List Effect :=
        .received
            ⟨.known .fileBlock,
              FileBlockMsg.encode
                { transferId := 1, sequence := 0, data := block }⟩ ::
          (st.out.write block ({} : Outside).flush).2
      have stepped :
          Session.step sha256 setup ⟨.live ctx loop, trace⟩
              (firstTransferBlock block) =
            ⟨.live ctx nextLoop, trace ++ taken⟩ :=
        step_handled unseen rfl rfl (handle_fileBlock decoded found) rfl
      have foundNext : nextLoop.uploads[(1 : UInt32)]? = some blocked := by
        simp [nextLoop]
      rw [List.replicate_succ, StepRuns.run_cons, stepped]
      obtain ⟨next, effects, last, isRun, isLast, expected, declared, received,
        fed, silent, data⟩ :=
        inductionHypothesis (trace ++ taken) foundNext
      refine ⟨next, taken ++ effects, last, by rw [isRun, List.append_assoc],
        isLast, expected, declared, ?_, ?_, ?_, ?_⟩
      · rw [received, Nat.succ_mul, Nat.add_comm (count * block.length),
          UInt64.ofNat_add, ← UInt64.add_assoc]
      · rw [fed, List.replicate_succ, List.flatten_cons, ← List.append_assoc]
        rfl
      · intro effect member
        rcases List.mem_append.mp member with isFirst | isLater
        · rcases List.mem_cons.mp isFirst with rfl | isWrite
          · exact ⟨rfl, rfl⟩
          · exact (inert_write _ _ _ effect isWrite).1
        · exact silent effect isLater
      · have brought :
            blockOf 1
                (.received
                  ⟨.known .fileBlock,
                    FileBlockMsg.encode
                      { transferId := 1, sequence := 0, data := block }⟩) =
              block := by
          simp [blockOf, decoded]
        have noData :=
          blockData_of_unreceived
            (fun effect member => (inert_write st.out block
              ({} : Outside).flush effect member).2) 1
        rw [blockData_append, data, blockData_cons, brought, noData,
          List.append_nil, List.replicate_succ, List.flatten_cons]

end Wrapping

/-- Files are uploaded to a folder `C:\\share`. -/
def folderSetup : SessionSetup where
  peerIp := []
  peerStr := []
  fileRoot := ascii "C:\\share"

/-- A user who may only transfer files. -/
def transferContext : SessionContext where
  user := []
  rights := R_FileTransfer
  mode := .known .fileOnly

/-- A request for an empty file with a declared hash. -/
def emptyFileRequest (hash : Hash256) : FileUploadReqMsg where
  remotePath := ascii "a"
  size := 0
  sha256 := hash

/--
A login, a request for an empty file, a number of equal blocks with the declared
hash, and the completion.
-/
def overflowTurns (count : Nat) (block : Bytes) : List Turn :=
  loginTurns {} [] R_FileTransfer (.known .fileOnly) ++
    (messageTurn .fileUploadReq
        (emptyFileRequest
          (evpSha256 (List.replicate count block).flatten)).encode ::
      (List.replicate count (firstTransferBlock block) ++
        [messageTurn .fileComplete (putU32 1)]))

/-- The request of this run is accepted under id 1. -/
theorem step_emptyFileRequest
    (hash : Hash256)
    (trace : List Effect) :
    ∃ taken accept loop,
      Session.step evpSha256 folderSetup
          ⟨.live transferContext { captureOk := true }, trace⟩
          (messageTurn .fileUploadReq (emptyFileRequest hash).encode) =
        ⟨.live transferContext loop, trace ++ taken ++ [accept]⟩ ∧
      loop.uploads[(1 : UInt32)]? =
        some (.requested (emptyFileRequest hash) (ascii "C:\\share\\a")) ∧
      acceptedId accept = some 1 ∧
      verdictOf accept = none ∧
      (∀ effect ∈ taken, Silent effect) ∧
      Requested (emptyFileRequest hash) (trace ++ taken) := by
  have short : (ascii "a").length < 2 ^ 32 := by
    decide
  have decoded :
      FileUploadReqMsg.decode (emptyFileRequest hash).encode =
        .ok (emptyFileRequest hash) :=
    FileUploadReqMsg.decode_ok_iff.mpr ⟨short, [], by simp⟩
  have resolved :
      resolveInRoot {} (ascii "C:\\share") (ascii "a") =
        some (ascii "C:\\share\\a") := by
    decide
  let start : LoopState := { captureOk := true }
  let m : Message := ⟨.known .fileUploadReq, (emptyFileRequest hash).encode⟩
  let dest : Path := ascii "C:\\share\\a"
  let begun : LoopState :=
    { start with
      uploads := start.uploads.insert 1 (.requested (emptyFileRequest hash) dest)
      nextTransferId := 2 }
  let accept : Effect :=
    .send (.known .fileAccept) (FileAcceptMsg.encode { transferId := 1 }) true
  have handled :
      handle evpSha256 folderSetup transferContext {} start m =
        .ok
          { loop := begun
            effects := [.openTrunc (dest ++ ascii ".part") true, accept] } := by
    have unused : start.uploads[start.nextTransferId]? = none := by
      simp [start]
    have began :
        handle evpSha256 folderSetup transferContext {} start m =
          .ok (beginUpload {} start (emptyFileRequest hash) dest) :=
      handle_fileUploadReq (by decide) decoded resolved
    have noDirectories :
        (PathText.parentDirectories dest).filter ({} : Outside).creates = [] :=
      List.filter_eq_nil_iff.mpr (by simp)
    rw [began, beginUpload_opened rfl unused, noDirectories, reply_eq]
    rfl
  have unseen : transferContext.canView = false := by
    decide
  refine ⟨[.received m, .openTrunc (dest ++ ascii ".part") true], accept, begun,
    ?_, ?_, acceptedId_send { transferId := 1 } true, rfl, ?_, ?_⟩
  · rw [List.append_assoc]
    exact step_messageTurn unseen .fileUploadReq trace handled rfl
  · simp [begun, dest]
  · simp [Silent, acceptedId, verdictOf]
  · refine ⟨m, ?_, rfl, decoded⟩
    rw [List.filterMap_append]
    exact List.getLast?_concat

/-- A completed upload that agrees with its request is renamed and answered. -/
theorem finishUpload_agrees
    {sha256 : Bytes → Hash256}
    {st : UploadState}
    (setup : SessionSetup)
    (ctx : SessionContext)
    (id : UInt32)
    (agrees :
      st.received = st.expected ∧ st.hasher.finish sha256 = st.declared) :
    ∃ before ok row,
      finishUpload sha256 setup ctx {} id st =
          before ++
            [.send (.known .fileVerify) (FileVerifyMsg.encode ⟨id, .known .ok⟩)
                ok,
              row] ∧
        (∀ effect ∈ before, Inert effect) ∧
        Inert row := by
  obtain ⟨ok, verdict⟩ :=
    uploadVerdict_eq setup ctx {} id (.known .ok) .fileUpload st.finalPath
      (ascii "OK") (ascii "sha256=" ++ toHex (st.hasher.finish sha256).bytes)
  refine ⟨st.out.close 0 ++ [.rename st.tempPath st.finalPath true], ok,
    auditFileOp setup ctx .fileUpload st.finalPath (ascii "OK")
      (ascii "sha256=" ++ toHex (st.hasher.finish sha256).bytes),
    ?_, inert_append (inert_close _ _) ?_, ⟨⟨rfl, rfl⟩, rfl⟩⟩
  · rw [finishUpload, if_pos agrees, if_pos rfl, verdict]
    exact List.append_cons ..
  · intro effect member
    rw [List.mem_singleton.mp member]
    exact ⟨⟨rfl, rfl⟩, rfl⟩

/-- The history of such a run, when the blocks bring the counter back to zero. -/
theorem run_overflowTurns
    {count : Nat}
    {block : Bytes}
    (fits : block.length < 2 ^ 32)
    (wraps : count * block.length = 2 ^ 64) :
    ∃ start accept between ok row,
      (Session.run evpSha256 folderSetup (overflowTurns count block)).trace =
          start ++ accept :: between ++
            .send (.known .fileVerify) (FileVerifyMsg.encode ⟨1, .known .ok⟩)
                ok ::
              [row] ∧
        (∀ effect ∈ start, Silent effect) ∧
        Requested
          (emptyFileRequest (evpSha256 (List.replicate count block).flatten))
          start ∧
        acceptedId accept = some 1 ∧
        (∀ effect ∈ between, Silent effect) ∧
        blockData 1 between = (List.replicate count block).flatten ∧
        Inert row := by
  let hash := evpSha256 (List.replicate count block).flatten
  let loginEffects :=
    loginTrace folderSetup {} [] R_FileTransfer (.known .fileOnly)
  have loginSilent : ∀ effect ∈ loginEffects, Silent effect := by
    unfold Silent
    decide +kernel
  have login :
      StepRuns.run (Session.step evpSha256 folderSetup) {}
          (loginTurns {} [] R_FileTransfer (.known .fileOnly)) =
        ⟨.live transferContext { captureOk := true }, loginEffects⟩ :=
    run_loginTurns _ _ _ (by simp) (by decide)
  have unseen : transferContext.canView = false := by
    decide
  obtain ⟨taken, accept, loop, requestStep, found, accepted, noVerdict,
    takenSilent, requested⟩ := step_emptyFileRequest hash loginEffects
  obtain ⟨next, effects, last, blockRun, isLast, expected, declared, received,
    fed, silent, data⟩ :=
    run_firstTransferBlocks evpSha256 folderSetup unseen fits count
      (loginEffects ++ taken ++ [accept]) found
  -- The counter is back at zero and the hash is the declared one.
  have agrees :
      last.received = last.expected ∧
        last.hasher.finish evpSha256 = last.declared := by
    constructor
    · rw [received, expected, wraps]
      rfl
    · rw [Sha256.finish, fed, declared]
      rfl
  obtain ⟨before, ok, row, finished, inert, inertRow⟩ :=
    finishUpload_agrees folderSetup transferContext 1 agrees
  let m : Message := ⟨.known .fileComplete, putU32 1⟩
  have completed :
      parseAll ByteReader.u32 (putU32 1) = .ok (1 : UInt32) := by
    decide
  have handled :
      handle evpSha256 folderSetup transferContext {} next m =
        .ok
          { loop := { next with uploads := next.uploads.erase 1 }
            effects :=
              finishUpload evpSha256 folderSetup transferContext {} 1 last } :=
    handle_fileComplete completed isLast
  have completeStep :=
    step_messageTurn unseen .fileComplete
      (loginEffects ++ taken ++ [accept] ++ effects) handled rfl
  refine ⟨loginEffects ++ taken, accept, effects ++ .received m :: before, ok,
    row, ?_, ?_, requested, accepted, ?_, ?_, inertRow⟩
  · rw [Session.run, overflowTurns, StepRuns.run_append, login,
      StepRuns.run_cons, requestStep, StepRuns.run_append, blockRun,
      StepRuns.run_cons, StepRuns.run_nil, completeStep]
    simp [finished, m]
  · intro effect member
    rcases List.mem_append.mp member with isLogin | isTaken
    · exact loginSilent effect isLogin
    · exact takenSilent effect isTaken
  · intro effect member
    rcases List.mem_append.mp member with isBlock | isEnd
    · exact silent effect isBlock
    · rcases List.mem_cons.mp isEnd with rfl | isBefore
      · exact ⟨rfl, rfl⟩
      · exact (inert effect isBefore).1
  · have noData :=
      blockData_of_unreceived (fun effect member => (inert effect member).2) 1
    rw [blockData_append, data, blockData_cons, noData]
    simp [blockOf, m]

/-- Blocks of 2⁶⁴ bytes in all are accepted as an empty file. -/
theorem overflow_accepted
    {count : Nat}
    {block : Bytes}
    (fits : block.length < 2 ^ 32)
    (wraps : count * block.length = 2 ^ 64) :
    accepts
        (Session.run evpSha256 folderSetup (overflowTurns count block)).trace =
      1 ∧
      ¬Obeys (VerdictFair evpSha256 id)
        (Session.run evpSha256 folderSetup
          (overflowTurns count block)).trace := by
  obtain ⟨start, accept, between, ok, row, shape, startSilent, requested,
    accepted, betweenSilent, data, inertRow⟩ := run_overflowTurns fits wraps
  rw [shape]
  constructor
  · have rowSilent : ∀ effect ∈ [row], Silent effect := by
      simpa using inertRow.1
    have noAccept :
        accepts
            [.send (.known .fileVerify) (FileVerifyMsg.encode ⟨1, .known .ok⟩)
              ok] =
          0 :=
      rfl
    rw [List.append_cons start, List.append_cons _ _ [row]]
    simp only [accepts_append, accepts_of_silent startSilent,
      accepts_of_silent betweenSilent, accepts_announced accepted, noAccept,
      accepts_of_silent rowSilent]
  · intro obeys
    obtain ⟨req, claimed, isOpen, isOk, _⟩ :=
      obeys _ _ [row] rfl ⟨1, .known .ok⟩ (verdictOf_send _ ok)
    obtain ⟨earlier, other, after, split, isOther, asked, isData, _, _⟩ :=
      isOpen.accepted
    have absent :
        ∀ effects : List Effect,
          (∀ effect ∈ effects, Silent effect) → other ∉ effects := by
      intro effects silent member
      rw [(silent other member).1] at isOther
      cases isOther
    -- There is only one announcement that the verdict can be about.
    obtain ⟨rfl, _, rfl⟩ :=
      (List.append_cons_inj_of_notMem (absent start startSilent)
        (absent between betweenSilent)).mp split
    have sameRequest :
        req =
          emptyFileRequest
            (evpSha256 (List.replicate count block).flatten) := by
      obtain ⟨m, isLast, _, decoded⟩ := asked
      obtain ⟨other, otherLast, _, otherDecoded⟩ := requested
      rw [isLast] at otherLast
      cases otherLast
      rw [decoded] at otherDecoded
      cases otherDecoded
      rfl
    have size := (isOk rfl).1
    rw [isData, data, sameRequest] at size
    simp [emptyFileRequest, wraps] at size

/-- Two to the 41 blocks of 8 MiB each wrap the counter. -/
theorem verdict_wraps :
    accepts
          (Session.run evpSha256 folderSetup
            (overflowTurns (2 ^ 41) (List.replicate (2 ^ 23) 0))).trace <
        2 ^ 32 ∧
      ¬Obeys (VerdictFair evpSha256 id)
        (Session.run evpSha256 folderSetup
          (overflowTurns (2 ^ 41) (List.replicate (2 ^ 23) 0))).trace := by
  have fits : (List.replicate (2 ^ 23) (0 : UInt8)).length < 2 ^ 32 := by
    rw [List.length_replicate]
    norm_num
  have wraps :
      2 ^ 41 * (List.replicate (2 ^ 23) (0 : UInt8)).length = 2 ^ 64 := by
    rw [List.length_replicate]
    norm_num
  obtain ⟨one, unfair⟩ := overflow_accepted fits wraps
  exact ⟨by rw [one]; norm_num, unfair⟩

end RadminPro
