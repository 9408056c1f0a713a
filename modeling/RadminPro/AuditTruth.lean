import RadminPro.Transducer
import RadminPro.TwoRuns
import RadminPro.SessionContainment
import RadminPro.UploadVerdicts
import RadminPro.SessionMediation

namespace RadminPro

open ByteCodec

/-!
# What the audit trail says about file operations

What a session really did is read off its effects without the audit rows: a
rename or a removal that succeeded, a download that was written out in full.
The rows with result OK are compared with that, and a request that was refused
or failed is to leave one row with another result.
-/

/-! ## What was completed -/

/-- A file operation: its action in the log, and what it was applied to. -/
abbrev FileOperation := AuditAction × Path

/-- What the last message was after, as far as the effects have shown. -/
inductive Pursuit where
  | nothing
  | upload
  | move
  | delete
  | download
  /-- The file was read; its announcement is outstanding. -/
  | reading (src : Path) (data : Bytes)
  /-- So much of the file has been written to the transport. -/
  | sending (src : Path) (data sent : Bytes)

namespace Pursuit

/-- What a message is after; an upload is carried out when it is complete. -/
def of (m : Message) : Pursuit :=
  match m.op with
  | .known .fileComplete => .upload
  | .known .fileMove => .move
  | .known .fileDelete => .delete
  | .known .fileDownloadReq => .download
  | _ => .nothing

/-- A message to the client: a download is announced, sent and ended. -/
def send (op : Op) (payload : Bytes) (ok : Bool) :
    Pursuit → Pursuit × List FileOperation
  | .reading src data =>
      if ok = true ∧ op = .known .fileAccept then
        (.sending src data [], [])
      else
        (.nothing, [])
  | .sending src data sent =>
      if ok = false then
        (.nothing, [])
      else if op = .known .fileBlock then
        match FileBlockMsg.decode payload with
        | .ok blk => (.sending src data (sent ++ blk.data), [])
        | .error _ => (.nothing, [])
      else if op = .known .fileComplete ∧ sent = data then
        (.nothing, [(.fileDownload, src)])
      else
        (.nothing, [])
  | pursuit => (pursuit, [])

/-- A successful rename completes an upload or a move. -/
def rename (src dst : Path) (ok : Bool) :
    Pursuit → Pursuit × List FileOperation
  | .upload => (.nothing, if ok then [(.fileUpload, dst)] else [])
  | .move =>
      (.nothing, if ok then [(.fileMove, src ++ ascii " -> " ++ dst)] else [])
  | pursuit => (pursuit, [])

/-- A successful removal completes a delete. -/
def remove (path : Path) (ok : Bool) : Pursuit → Pursuit × List FileOperation
  | .delete => (.nothing, if ok then [(.fileDelete, path)] else [])
  | pursuit => (pursuit, [])

/-- A download reads its file. -/
def readFile (src : Path) (content : Option Bytes) :
    Pursuit → Pursuit × List FileOperation
  | .download =>
      match content with
      | some data => (.reading src data, [])
      | none => (.nothing, [])
  | pursuit => (pursuit, [])

/-- One effect more: the pursuit after it, and what it completed. -/
def step (pursuit : Pursuit) : Effect → Pursuit × List FileOperation
  | .received m => (.of m, [])
  | .audit _ => (.nothing, [])
  | .send op payload ok => pursuit.send op payload ok
  | .rename src dst ok => pursuit.rename src dst ok
  | .remove path ok => pursuit.remove path ok
  | .readFile src content => pursuit.readFile src content
  | _ => (pursuit, [])

end Pursuit

/-- The file operations that the effects of a turn completed, in order. -/
def completions (effects : List Effect) : List FileOperation :=
  (Transducer.feed Pursuit.step .nothing effects).2

/-! ## What is on record -/

/-- The actions of the four file operations. -/
def fileActions : List AuditAction :=
  [.fileUpload, .fileDownload, .fileMove, .fileDelete]

/-- A row that reports a file operation as done. -/
def okRow : Effect → Option FileOperation
  | .audit event =>
      if event.action ∈ fileActions ∧ event.result = ascii "OK" then
        some (event.action, event.target)
      else
        none
  | _ => none

/-- The file operations on record as done, in order. -/
def okRows (effects : List Effect) : List FileOperation :=
  effects.filterMap okRow

/-- A row with another result than OK. -/
def isFailRow : Effect → Bool
  | .audit event => event.result ≠ ascii "OK"
  | _ => false

/-- The number of rows with another result than OK. -/
def failRows (effects : List Effect) : Nat :=
  effects.countP isFailRow

/-! ## What was refused or failed -/

/--
The message asked for a file operation and nothing is pending: an upload request
did not get its file, or a completed upload was answered with a verdict.
-/
def Concluded (m : Message) (effects : List Effect) : Prop :=
  match m.op with
  | .known .fileUploadReq => ∀ path, .openTrunc path true ∉ effects
  | .known .fileComplete =>
      ∃ payload ok, .send (.known .fileVerify) payload ok ∈ effects
  | .known .fileDelete => True
  | .known .fileMove => True
  | .known .fileDownloadReq => True
  | _ => False

/-- The request was refused, or it failed. -/
def RequestFailed (m : Message) (effects : List Effect) : Prop :=
  completions effects = [] ∧ Concluded m effects

section Trail

variable (sha256 : Bytes → Hash256)
variable (setup : SessionSetup)

/-- What a session completed over its turns. -/
def completedOperations (turns : List Turn) : List FileOperation :=
  TwoRuns.seen (Session.step sha256 setup)
    (fun session turn => completions (turnEffects sha256 setup session turn))
    {} turns

/--
The rows with result OK are what was completed, in order, and every message of
the event loop whose request was refused or failed leaves one other row.
-/
structure TruthfulTrail (turns : List Turn) : Prop where
  completed :
    okRows (Session.run sha256 setup turns).trace =
      completedOperations sha256 setup turns
  failed :
    ∀ earlier turn later ctx loop m,
      turns = earlier ++ turn :: later →
      (Session.run sha256 setup earlier).phase = .live ctx loop →
      turn.running = true →
      turn.read = .ok m →
      RequestFailed m
          (turnEffects sha256 setup (Session.run sha256 setup earlier) turn) →
      failRows
          (turnEffects sha256 setup (Session.run sha256 setup earlier) turn) = 1

end Trail

/-! ## When it is truthful -/

/--
The file that a request needs can be opened, and a download is written out: the
transport takes its announcement, all its blocks and its end.
-/
def Provided (root : Path) (out : Outside) (m : Message) : Prop :=
  requestedPaths out root m ≠ [] →
    (m.op = .known .fileUploadReq → out.opened = true) ∧
      (m.op = .known .fileDownloadReq →
        ∃ data, out.content = some data ∧
          ∀ n < (downloadBlocks 0 data).length + 2, out.replies n = true)

/-- A permitted request that a turn of the event loop reads is provided for. -/
def ProvidedFor (setup : SessionSetup) (session : Session) (turn : Turn) : Prop :=
  ∀ ctx loop m,
    session.phase = .live ctx loop →
    turn.running = true →
    turn.read = .ok m →
    ctx.canTransfer = true →
    Provided setup.fileRoot turn.outside m

/-! ## Effects that finish a turn -/

/-- What a turn may do once its message has been handled. -/
inductive Aftermath : Effect → Prop where
  | frame (op : Op) (payload : Bytes) (ok : Bool) (isFrame : isFrameOp op) :
      Aftermath (.send op payload ok)
  | capture (monitor : UInt32) (ok : Bool) :
      Aftermath (.captureInitialize monitor ok)
  | write (path : Path) (position : Nat) (data : Bytes) :
      Aftermath (.write path position data)
  | close (path : Path) : Aftermath (.close path)
  | remove (path : Path) (ok : Bool) : Aftermath (.remove path ok)
  | ended (user peer detail : Bytes) :
      Aftermath (.audit (.session user peer false detail))
  | overlayHide : Aftermath .overlayHide
  | releaseSlot : Aftermath .releaseSlot

/-- A pursuit that only a request can change. -/
def Pursuit.Resting (pursuit : Pursuit) : Prop :=
  pursuit = .nothing ∨ pursuit = .upload ∨ pursuit = .download

/-- The end of a turn completes nothing. -/
theorem Aftermath.step
    {effect : Effect}
    (aftermath : Aftermath effect)
    {pursuit : Pursuit}
    (resting : pursuit.Resting) :
    (pursuit.step effect).2 = [] ∧ (pursuit.step effect).1.Resting := by
  cases aftermath with
  | ended user peer detail =>
      exact ⟨rfl, .inl rfl⟩
  | _ =>
      rcases resting with rfl | rfl | rfl <;>
        simp [Pursuit.step, Pursuit.send, Pursuit.remove, Pursuit.Resting]

/-- Neither does a sequence of such effects. -/
theorem feed_aftermath
    {tail : List Effect}
    (aftermath : ∀ effect ∈ tail, Aftermath effect)
    {pursuit : Pursuit}
    (resting : pursuit.Resting) :
    (Transducer.feed Pursuit.step pursuit tail).2 = [] := by
  induction tail generalizing pursuit with
  | nil =>
      rfl
  | cons effect rest inductionHypothesis =>
      rw [List.forall_mem_cons] at aftermath
      obtain ⟨silent, stillResting⟩ := aftermath.1.step resting
      simp [silent, inductionHypothesis aftermath.2 stillResting]

/-- The end of a turn puts nothing about files on record. -/
theorem Aftermath.unrecorded
    {effect : Effect}
    (aftermath : Aftermath effect) :
    okRow effect = none ∧ isFailRow effect = false := by
  cases aftermath with
  | ended user peer detail =>
      simp [okRow, isFailRow, AuditEvent.session, fileActions]
  | _ =>
      exact ⟨rfl, rfl⟩

theorem records_aftermath
    {tail : List Effect}
    (aftermath : ∀ effect ∈ tail, Aftermath effect) :
    okRows tail = [] ∧ failRows tail = 0 := by
  constructor
  · apply List.filterMap_eq_nil_iff.mpr
    intro effect member
    exact (aftermath effect member).unrecorded.1
  · apply List.countP_eq_zero.mpr
    intro effect member
    simp [(aftermath effect member).unrecorded.2]

/-- The end of a turn does not conclude a request. -/
theorem concluded_append
    {m : Message}
    {effects tail : List Effect}
    (aftermath : ∀ effect ∈ tail, Aftermath effect) :
    Concluded m (effects ++ tail) ↔ Concluded m effects := by
  have noOpen : ∀ path, .openTrunc path true ∉ tail := by
    intro path member
    cases aftermath _ member
  have noVerdict : ∀ payload ok,
      .send (.known .fileVerify) payload ok ∉ tail := by
    intro payload ok member
    cases aftermath _ member with
    | frame op payload ok isFrame =>
        simp [isFrameOp] at isFrame
  unfold Concluded
  split
  · simp [noOpen]
  · simp [noVerdict]
  · rfl
  · rfl
  · rfl
  · rfl

section Ends

variable {setup : SessionSetup} {ctx : SessionContext} {out : Outside}
variable {loop : LoopState}

/-- What a turn shows belongs to its end. -/
theorem Shown.aftermath
    {effect : Effect}
    (shown : Shown setup ctx effect) :
    Aftermath effect := by
  rcases shown with ⟨_, op, payload, ok, rfl, isFrame⟩ | ⟨ok, rfl⟩
  · exact .frame op payload ok isFrame
  · exact .capture _ ok

/-- Whatever the handler did, the rest of the turn is its end. -/
theorem Streams.aftermath
    {effects : List Effect}
    {result : SessionPhase × List Effect}
    (streams : Streams setup ctx out loop effects result) :
    ∃ tail,
      result.2 = effects ++ tail ∧ ∀ effect ∈ tail, Aftermath effect := by
  cases streams with
  | live next uploads ids only =>
      exact ⟨_, rfl, fun effect member => (only effect member).aftermath⟩
  | finished next uploads only =>
      refine ⟨_, (finishSession_effects _).trans (List.append_assoc ..), ?_⟩
      intro effect member
      rcases List.mem_append.mp member with isShown | isEnd
      · exact (only effect isShown).aftermath
      · rcases List.mem_append.mp isEnd with isDiscard | isLast
        · obtain ⟨entry, _, inEntry⟩ := List.mem_flatMap.mp isDiscard
          simp only [discard, OfStream.close, List.cons_append,
            List.nil_append, List.mem_cons, List.not_mem_nil, or_false]
            at inEntry
          rcases inEntry with rfl | rfl | rfl
          · exact .write _ _ _
          · exact .close _
          · exact .remove _ _
        · simp only [List.mem_cons, List.not_mem_nil, or_false] at isLast
          rcases isLast with rfl | rfl | rfl
          · exact .ended _ _ _
          · exact .overlayHide
          · exact .releaseSlot

end Ends

/-! ## What the handler puts on record -/

/-- How the record of a handled message stands to what happened. -/
inductive Accounts (m : Message) (effects : List Effect) : Prop where
  | completed
      (operation : FileOperation)
      (feeds :
        Transducer.feed Pursuit.step (.of m) effects = (.nothing, [operation]))
      (rows : okRows effects = [operation])
  | failed
      {pursuit : Pursuit}
      (resting : pursuit.Resting)
      (feeds : Transducer.feed Pursuit.step (.of m) effects = (pursuit, []))
      (rows : okRows effects = [])
      (one : failRows effects = 1)
  | pending
      {pursuit : Pursuit}
      (resting : pursuit.Resting)
      (feeds : Transducer.feed Pursuit.step (.of m) effects = (pursuit, []))
      (rows : okRows effects = [])
      (unconcluded : ¬Concluded m effects)

/-- A request was refused or failed, and no row says so. -/
structure Unaccounted (m : Message) (effects : List Effect) : Prop where
  feeds :
    ∃ pursuit : Pursuit,
      pursuit.Resting ∧
        Transducer.feed Pursuit.step (.of m) effects = (pursuit, [])
  concluded : Concluded m effects
  rows : failRows effects = 0

/-- An effect that is no row and no new message. -/
def Unlogged (effect : Effect) : Prop :=
  (∀ m, effect ≠ .received m) ∧ ∀ event, effect ≠ .audit event

/-- Effects that are no rows leave no record. -/
theorem records_unlogged
    {effects : List Effect}
    (unlogged : ∀ effect ∈ effects, Unlogged effect) :
    okRows effects = [] ∧ failRows effects = 0 := by
  constructor
  · apply List.filterMap_eq_nil_iff.mpr
    intro effect member
    have noRow := (unlogged effect member).2
    cases effect with
    | audit event =>
        exact absurd rfl (noRow event)
    | _ =>
        rfl
  · apply List.countP_eq_zero.mpr
    intro effect member
    have noRow := (unlogged effect member).2
    cases effect with
    | audit event =>
        exact absurd rfl (noRow event)
    | _ =>
        simp [isFailRow]

/-- Once nothing is pursued, only a new message changes that. -/
theorem feed_nothing
    {effects : List Effect}
    (noMessage : ∀ effect ∈ effects, ∀ m, effect ≠ .received m) :
    Transducer.feed Pursuit.step .nothing effects = (.nothing, []) := by
  apply Transducer.feed_ignored
  intro effect member
  have isOther := noMessage effect member
  cases effect with
  | received m =>
      exact absurd rfl (isOther m)
  | _ =>
      rfl

theorem unlogged_append
    {first second : List Effect}
    (firstUnlogged : ∀ effect ∈ first, Unlogged effect)
    (secondUnlogged : ∀ effect ∈ second, Unlogged effect) :
    ∀ effect ∈ first ++ second, Unlogged effect := by
  intro effect member
  rcases List.mem_append.mp member with isFirst | isSecond
  · exact firstUnlogged effect isFirst
  · exact secondUnlogged effect isSecond

section Handled

variable {sha256 : Bytes → Hash256}
variable {setup : SessionSetup}
variable {ctx : SessionContext}
variable {out : Outside}
variable {loop : LoopState}
variable {m : Message}

theorem unlogged_sendOpResult
    (status : FileOpStatus)
    (text : Bytes) :
    ∀ effect ∈ sendOpResult out status text, Unlogged effect := by
  intro effect member
  rw [sendOpResult, reply_eq, List.mem_singleton] at member
  rw [member]
  exact ⟨by simp, by simp⟩

theorem unlogged_close
    (stream : OfStream)
    (flushed : Nat) :
    ∀ effect ∈ stream.close flushed, Unlogged effect := by
  intro effect member
  simp only [OfStream.close, List.mem_cons, List.not_mem_nil, or_false]
    at member
  rcases member with rfl | rfl
  · exact ⟨by simp, by simp⟩
  · exact ⟨by simp, by simp⟩

theorem unlogged_write
    (stream : OfStream)
    (data : Bytes)
    (flush : Flush) :
    ∀ effect ∈ (stream.write data flush).2, Unlogged effect := by
  intro effect member
  unfold OfStream.write at member
  split at member
  · rw [List.mem_singleton.mp member]
    exact ⟨by simp, by simp⟩
  · cases member

/-- A refusal is one row and one answer. -/
theorem accounts_refused
    (action : AuditAction)
    (target : Bytes)
    {result : Bytes}
    (notOk : result ≠ ascii "OK")
    (detail : Bytes)
    (status : FileOpStatus)
    (text : Bytes) :
    Accounts m
      (auditFileOp setup ctx action target result detail ::
        sendOpResult out status text) := by
  refine .failed (.inl rfl) ?_ ?_ ?_
  · simp [auditFileOp, sendOpResult, reply_eq, Pursuit.step, Pursuit.send]
  · simp [okRows, okRow, auditFileOp, AuditEvent.fileOp, sendOpResult,
      reply_eq, notOk]
  · simp [failRows, isFailRow, auditFileOp, AuditEvent.fileOp, sendOpResult,
      reply_eq, notOk]

/-- The results a row can name differ from OK. -/
theorem results_differ :
    ascii "DENIED" ≠ ascii "OK" ∧ ascii "FAIL" ≠ ascii "OK" ∧
      ascii "IO_ERROR" ≠ ascii "OK" ∧ ascii "MISMATCH" ≠ ascii "OK" := by
  decide

theorem accounts_notPermitted
    (operation text : Bytes) :
    Accounts m (notPermitted setup ctx out loop operation text).effects :=
  accounts_refused _ _ results_differ.1 _ _ _

theorem accounts_pathRejected
    (action : AuditAction)
    (target : Bytes) :
    Accounts m (pathRejected setup ctx out loop action target).effects :=
  accounts_refused _ _ results_differ.1 _ _ _

/-- A delete is on record as it went. -/
theorem accounts_delete
    (op : m.op = .known .fileDelete)
    (target : Path) :
    Accounts m
      ([.remove target out.removed,
          auditFileOp setup ctx .fileDelete target
            (if out.removed then ascii "OK" else ascii "FAIL")
            out.errorText] ++
        sendOpResult out
          (if out.removed then .known .ok else .known .notFound)
          out.errorText) := by
  have after : Pursuit.of m = .delete := by
    simp [Pursuit.of, op]
  cases removed : out.removed with
  | true =>
      refine .completed (.fileDelete, target) ?_ ?_
      · simp [after, auditFileOp, sendOpResult, reply_eq, Pursuit.step,
          Pursuit.remove, Pursuit.send]
      · simp [okRows, List.filterMap_cons, okRow, auditFileOp,
          AuditEvent.fileOp, sendOpResult, reply_eq, fileActions]
  | false =>
      refine .failed (.inl rfl) ?_ ?_ ?_
      · simp [after, auditFileOp, sendOpResult, reply_eq, Pursuit.step,
          Pursuit.remove, Pursuit.send]
      · simp [okRows, okRow, auditFileOp, AuditEvent.fileOp, sendOpResult,
          reply_eq, results_differ]
      · simp [failRows, isFailRow, auditFileOp, AuditEvent.fileOp,
          sendOpResult, reply_eq, results_differ]

/-- A move is on record as it went. -/
theorem accounts_move
    (op : m.op = .known .fileMove)
    (src dst : Path) :
    Accounts m
      ([.rename src dst out.renamed,
          auditFileOp setup ctx .fileMove (src ++ ascii " -> " ++ dst)
            (if out.renamed then ascii "OK" else ascii "FAIL")
            out.errorText] ++
        sendOpResult out
          (if out.renamed then .known .ok else .known .ioError)
          out.errorText) := by
  have after : Pursuit.of m = .move := by
    simp [Pursuit.of, op]
  cases renamed : out.renamed with
  | true =>
      refine .completed (.fileMove, src ++ ascii " -> " ++ dst) ?_ ?_
      · simp [after, auditFileOp, sendOpResult, reply_eq, Pursuit.step,
          Pursuit.rename, Pursuit.send]
      · simp [okRows, List.filterMap_cons, okRow, auditFileOp,
          AuditEvent.fileOp, sendOpResult, reply_eq, fileActions]
  | false =>
      refine .failed (.inl rfl) ?_ ?_ ?_
      · simp [after, auditFileOp, sendOpResult, reply_eq, Pursuit.step,
          Pursuit.rename, Pursuit.send]
      · simp [okRows, okRow, auditFileOp, AuditEvent.fileOp, sendOpResult,
          reply_eq, results_differ]
      · simp [failRows, isFailRow, auditFileOp, AuditEvent.fileOp,
          sendOpResult, reply_eq, results_differ]

/-- A completed upload is on record with its verdict. -/
theorem accounts_finishUpload
    (op : m.op = .known .fileComplete)
    (id : UInt32)
    (st : UploadState) :
    Accounts m (finishUpload sha256 setup ctx out id st) := by
  have after : Pursuit.of m = .upload := by
    simp [Pursuit.of, op]
  unfold finishUpload
  dsimp only
  split
  · cases renamed : out.renamed with
    | true =>
        refine .completed (.fileUpload, st.finalPath) ?_ ?_
        · simp [after, OfStream.close, uploadVerdict, auditFileOp, reply_eq,
            Pursuit.step, Pursuit.rename, Pursuit.send]
        · simp [okRows, List.filterMap_cons, okRow, OfStream.close,
            uploadVerdict, auditFileOp, AuditEvent.fileOp, reply_eq,
            fileActions]
    | false =>
        refine .failed (.inl rfl) ?_ ?_ ?_
        · simp [after, OfStream.close, uploadVerdict, auditFileOp, reply_eq,
            Pursuit.step, Pursuit.rename, Pursuit.remove, Pursuit.send]
        · simp [okRows, okRow, OfStream.close, uploadVerdict, auditFileOp,
            AuditEvent.fileOp, reply_eq, results_differ]
        · simp [failRows, isFailRow, OfStream.close, uploadVerdict,
            auditFileOp, AuditEvent.fileOp, reply_eq, results_differ]
  · refine .failed (.inl rfl) ?_ ?_ ?_
    · simp [after, OfStream.close, uploadVerdict, auditFileOp, reply_eq,
        Pursuit.step, Pursuit.remove, Pursuit.send]
    · simp [okRows, okRow, OfStream.close, uploadVerdict, auditFileOp,
        AuditEvent.fileOp, reply_eq, results_differ]
    · simp [failRows, isFailRow, OfStream.close, uploadVerdict, auditFileOp,
        AuditEvent.fileOp, reply_eq, results_differ]

/-- An upload request that gets its file is pending, and else it is lost. -/
theorem accounts_beginUpload
    (op : m.op = .known .fileUploadReq)
    (req : FileUploadReqMsg)
    (dest : Path) :
    (out.opened = true → Accounts m (beginUpload out loop req dest).effects) ∧
      (out.opened = false →
        Unaccounted m (beginUpload out loop req dest).effects) := by
  have after : Pursuit.of m = .nothing := by
    simp [Pursuit.of, op]
  let directories :=
    ((PathText.parentDirectories dest).filter out.creates).map
      Effect.createDirectory
  have unloggedOpening :
      ∀ effect ∈
          directories ++ [.openTrunc (dest ++ ascii ".part") out.opened],
        Unlogged effect := by
    apply unlogged_append
    · intro effect member
      obtain ⟨directory, _, rfl⟩ := List.mem_map.mp member
      exact ⟨by simp, by simp⟩
    · simp [Unlogged]
  constructor
  · intro opened
    have shape :
        ∃ rest,
          (beginUpload out loop req dest).effects =
              (directories ++
                [.openTrunc (dest ++ ascii ".part") out.opened]) ++ rest ∧
            ∀ effect ∈ rest, Unlogged effect := by
      simp only [beginUpload, UploadState.requested, opened, Bool.not_true,
        Bool.false_eq_true, if_false, List.append_assoc]
      refine ⟨_, rfl, unlogged_append ?_ (by simp [reply_eq, Unlogged])⟩
      cases loop.uploads[loop.nextTransferId]? with
      | none =>
          simp
      | some old =>
          exact unlogged_close _ _
    obtain ⟨rest, effects, unloggedRest⟩ := shape
    have unlogged := unlogged_append unloggedOpening unloggedRest
    rw [effects]
    refine .pending (.inl rfl) ?_ (records_unlogged unlogged).1 ?_
    · rw [after]
      exact feed_nothing fun effect member => (unlogged effect member).1
    · simp only [Concluded, op, opened, not_forall, not_not]
      exact ⟨dest ++ ascii ".part", by simp⟩
  · intro refused
    have effects :
        (beginUpload out loop req dest).effects =
          (directories ++
              [.openTrunc (dest ++ ascii ".part") out.opened]) ++
            sendOpResult out (.known .ioError) (ascii "cannot create file") := by
      simp [beginUpload, UploadState.requested, refused, directories]
    have unloggedAnswer :
        ∀ effect ∈
            sendOpResult out (.known .ioError) (ascii "cannot create file"),
          Unlogged effect :=
      unlogged_sendOpResult _ _
    have unlogged := unlogged_append unloggedOpening unloggedAnswer
    rw [effects]
    refine ⟨⟨.nothing, .inl rfl, ?_⟩, ?_, (records_unlogged unlogged).2⟩
    · rw [after]
      exact feed_nothing fun effect member => (unlogged effect member).1
    · simp [Concluded, op, refused, directories, sendOpResult, reply_eq]

/-- A download whose file cannot be opened leaves no row. -/
theorem unaccounted_missing
    (op : m.op = .known .fileDownloadReq)
    (src : Path) :
    Unaccounted m
      (.readFile src none ::
        sendOpResult out (.known .notFound) (ascii "no such file")) := by
  have after : Pursuit.of m = .download := by
    simp [Pursuit.of, op]
  refine ⟨⟨.nothing, .inl rfl, ?_⟩, by simp [Concluded, op], ?_⟩
  · simp [after, Pursuit.step, Pursuit.readFile, sendOpResult, reply_eq,
      Pursuit.send]
  · simp [failRows, isFailRow, sendOpResult, reply_eq]

/-! ### A download on the wire -/

/-- A batch that the transport refuses somewhere ends with that message. -/
theorem sendAll_refused
    {answers : Nat → Bool}
    {messages : List (Op × Bytes)}
    (sent : List Effect)
    {n : Nat}
    (inside : n < messages.length)
    (refused : answers (sent.length + n) = false) :
    ∃ front op payload,
      (sendAll (writeMessage answers) sent messages).2 =
        sent ++ (front ++ [.send op payload false]) := by
  induction messages generalizing sent n with
  | nil =>
      simp at inside
  | cons m rest inductionHypothesis =>
      obtain ⟨op, payload⟩ := m
      cases head : withinCap payload && answers sent.length with
      | false =>
          exact ⟨[], op, payload, by simp [sendAll, writeMessage, head]⟩
      | true =>
          cases n with
          | zero =>
              simp only [Nat.add_zero] at refused
              simp [refused] at head
          | succ n =>
              have restRefused :
                  answers ((sent ++ [Effect.send op payload true]).length + n) =
                    false := by
                rw [List.length_append, List.length_singleton, Nat.add_assoc,
                  Nat.add_comm 1]
                exact refused
              obtain ⟨front, lastOp, lastPayload, shape⟩ :=
                inductionHypothesis (sent ++ [.send op payload true])
                  (by simpa using inside) restRefused
              refine ⟨.send op payload true :: front, lastOp, lastPayload, ?_⟩
              simp [sendAll, writeMessage, head, shape]

/-- A download under way, or given up. -/
def Pursuit.Downloads (pursuit : Pursuit) : Prop :=
  (∃ src data, pursuit = .reading src data) ∨
    (∃ src data sent, pursuit = .sending src data sent) ∨ pursuit = .nothing

/-- A message that does not end a download completes nothing. -/
theorem send_downloads
    {pursuit : Pursuit}
    (downloads : pursuit.Downloads)
    {op : Op}
    {ok : Bool}
    (noEnd : ¬(op = .known .fileComplete ∧ ok = true))
    (payload : Bytes) :
    (pursuit.send op payload ok).1.Downloads ∧
      (pursuit.send op payload ok).2 = [] := by
  have given : Pursuit.nothing.Downloads := .inr (.inr rfl)
  rcases downloads with ⟨src, data, rfl⟩ | ⟨src, data, sent, rfl⟩ | rfl
  · simp only [Pursuit.send]
    split
    · exact ⟨.inr (.inl ⟨_, _, _, rfl⟩), rfl⟩
    · exact ⟨given, rfl⟩
  · simp only [Pursuit.send]
    split
    · exact ⟨given, rfl⟩
    · next written =>
        split
        · split
          · exact ⟨.inr (.inl ⟨_, _, _, rfl⟩), rfl⟩
          · exact ⟨given, rfl⟩
        · split
          · next isEnd =>
              exact absurd ⟨isEnd.1, by simpa using written⟩ noEnd
          · exact ⟨given, rfl⟩
  · exact ⟨given, rfl⟩

/-- A message that is not written ends the pursuit of a download. -/
theorem send_refused
    {pursuit : Pursuit}
    (downloads : pursuit.Downloads)
    (op : Op)
    (payload : Bytes) :
    pursuit.send op payload false = (.nothing, []) := by
  rcases downloads with ⟨src, data, rfl⟩ | ⟨src, data, sent, rfl⟩ | rfl <;>
    simp [Pursuit.send]

/-- Messages other than the end of a download. -/
def NoEnd (effect : Effect) : Prop :=
  ∃ op payload ok, effect = .send op payload ok ∧ op ≠ .known .fileComplete

/-- Such messages complete nothing. -/
theorem feed_noEnd
    {effects : List Effect}
    (noEnd : ∀ effect ∈ effects, NoEnd effect)
    {pursuit : Pursuit}
    (downloads : pursuit.Downloads) :
    (Transducer.feed Pursuit.step pursuit effects).1.Downloads ∧
      (Transducer.feed Pursuit.step pursuit effects).2 = [] := by
  induction effects generalizing pursuit with
  | nil =>
      exact ⟨downloads, rfl⟩
  | cons effect rest inductionHypothesis =>
      rw [List.forall_mem_cons] at noEnd
      obtain ⟨⟨op, payload, ok, rfl, other⟩, restNoEnd⟩ := noEnd
      have noCompletion : ¬(op = .known .fileComplete ∧ ok = true) :=
        fun isEnd => other isEnd.1
      obtain ⟨stillDownloads, silent⟩ :=
        send_downloads downloads noCompletion payload
      obtain ⟨endsDownloading, restSilent⟩ :=
        inductionHypothesis restNoEnd stillDownloads
      exact ⟨endsDownloading, by simp [Pursuit.step, silent, restSilent]⟩

/-- The blocks of a download are sent one by one. -/
theorem feed_blocks
    (id : UInt32)
    (src : Path)
    (whole sent : Bytes)
    (data : Bytes)
    (indices : List Nat) :
    Transducer.feed Pursuit.step (.sending src whole sent)
        ((indices.map fun index =>
            ((.known .fileBlock,
              FileBlockMsg.encode
                { transferId := id
                  sequence := UInt32.ofNat index
                  data :=
                    BufferWindow.window data (index * kFileBlockSize)
                      kFileBlockSize }) : Op × Bytes)).map
          fun m => .send m.1 m.2 true) =
      (.sending src whole
          (sent ++
            (indices.map fun index =>
              BufferWindow.window data (index * kFileBlockSize)
                kFileBlockSize).flatten),
        []) := by
  induction indices generalizing sent with
  | nil =>
      simp
  | cons index rest inductionHypothesis =>
      have decoded :
          FileBlockMsg.decode
              (FileBlockMsg.encode
                { transferId := id
                  sequence := UInt32.ofNat index
                  data :=
                    BufferWindow.window data (index * kFileBlockSize)
                      kFileBlockSize }) =
            .ok
              { transferId := id
                sequence := UInt32.ofNat index
                data :=
                  BufferWindow.window data (index * kFileBlockSize)
                    kFileBlockSize } := by
        apply FileBlockMsg.decode_ok_iff.mpr
        refine ⟨?_, [], by simp⟩
        have bound : kFileBlockSize < 2 ^ 32 := by
          decide
        exact Nat.lt_of_le_of_lt (List.length_take_le _ _) bound
      simp only [List.map_cons, Transducer.feed_cons, Pursuit.step,
        Pursuit.send, decoded, Bool.true_eq_false, if_false, if_true,
        inductionHypothesis]
      simp

/-- A download that the transport takes in full is completed. -/
theorem feed_sendDownload_written
    (id : UInt32)
    (src : Path)
    (data : Bytes)
    (hash : Hash256)
    (written :
      ∀ n < (downloadBlocks id data).length + 2, out.replies n = true) :
    Transducer.feed Pursuit.step (.reading src data)
        (sendDownload out id data hash) =
      (.nothing, [(.fileDownload, src)]) := by
  have blocks := feed_blocks id src data [] data
    (List.range ((data.length + kFileBlockSize - 1) / kFileBlockSize))
  rw [BufferWindow.flatten_windows data (by decide)] at blocks
  rw [sendDownload_written id data hash written, List.cons_append,
    Transducer.feed_cons, Transducer.feed_append]
  have announced :
      Pursuit.step (.reading src data)
          (.send (.known .fileAccept)
            (FileAcceptMsg.encode
              { transferId := id
                size := UInt64.ofNat data.length
                sha256 := hash }) true) =
        (.sending src data [], []) := by
    simp [Pursuit.step, Pursuit.send]
  rw [announced]
  rw [downloadBlocks, blocks]
  simp [Pursuit.step, Pursuit.send]

/-- What is sent before the end of a download is its announcement and blocks. -/
theorem announced_noEnd
    (id : UInt32)
    (data payload : Bytes)
    (ok : Bool) :
    ∀ effect ∈
        (sendAll (writeMessage out.replies)
          [.send (.known .fileAccept) payload ok] (downloadBlocks id data)).2,
      NoEnd effect := by
  obtain ⟨attempted, shape, only⟩ :=
    sendAll_writeMessage out.replies (downloadBlocks id data)
      [.send (.known .fileAccept) payload ok]
  rw [shape]
  intro effect member
  rcases List.mem_append.mp member with isAccept | isBlock
  · rw [List.mem_singleton.mp isAccept]
    exact ⟨_, _, _, rfl, by simp⟩
  · obtain ⟨m, isMessage, answered, rfl⟩ := only effect isBlock
    obtain ⟨index, _, rfl⟩ := List.mem_map.mp isMessage
    exact ⟨_, _, _, rfl, by simp⟩

/-- Messages of which the last is not written leave nothing pursued. -/
theorem feed_lastRefused
    {front : List Effect}
    {op : Op}
    {payload : Bytes}
    (noEnd : ∀ effect ∈ front, NoEnd effect)
    {pursuit : Pursuit}
    (downloads : pursuit.Downloads) :
    Transducer.feed Pursuit.step pursuit
        (front ++ [.send op payload false]) =
      (.nothing, []) := by
  obtain ⟨stillDownloads, silent⟩ := feed_noEnd noEnd downloads
  rw [Transducer.feed_append]
  simp [silent, Pursuit.step, send_refused stillDownloads]

/-- A download whose announcement or block is refused is given up. -/
theorem feed_announced_refused
    (id : UInt32)
    (src : Path)
    (data payload : Bytes)
    {k : Nat}
    (inside : k < (downloadBlocks id data).length + 1)
    (refused : out.replies k = false) :
    Transducer.feed Pursuit.step (.reading src data)
        (sendAll (writeMessage out.replies)
          [.send (.known .fileAccept) payload
            (withinCap payload && out.replies 0)]
          (downloadBlocks id data)).2 =
      (.nothing, []) := by
  have noEnd :
      ∀ effect ∈
          (sendAll (writeMessage out.replies)
            [.send (.known .fileAccept) payload
              (withinCap payload && out.replies 0)]
            (downloadBlocks id data)).2,
        NoEnd effect :=
    announced_noEnd id data payload _
  cases k with
  | zero =>
      obtain ⟨attempted, shape, _⟩ :=
        sendAll_writeMessage out.replies (downloadBlocks id data)
          [.send (.known .fileAccept) payload
            (withinCap payload && out.replies 0)]
      rw [shape] at noEnd ⊢
      have others :
          ∀ effect ∈ attempted, ∀ m, effect ≠ .received m := by
        intro effect member m
        obtain ⟨op, other, ok, rfl, _⟩ :=
          noEnd effect (List.mem_append_right _ member)
        simp
      simp [refused, Pursuit.step, Pursuit.send, feed_nothing others]
  | succ k =>
      have refusedBlock :
          out.replies
              ([Effect.send (.known .fileAccept) payload
                (withinCap payload && out.replies 0)].length + k) =
            false := by
        rw [List.length_singleton, Nat.add_comm]
        exact refused
      obtain ⟨front, op, last, shape⟩ :=
        sendAll_refused
          [Effect.send (.known .fileAccept) payload
            (withinCap payload && out.replies 0)]
          (Nat.lt_of_succ_lt_succ inside) refusedBlock
      rw [← List.append_assoc] at shape
      rw [shape] at noEnd ⊢
      apply feed_lastRefused
      · intro effect member
        exact noEnd effect (List.mem_append_left _ member)
      · exact .inl ⟨src, data, rfl⟩

/-- A download that the transport does not take in full is not completed. -/
theorem feed_sendDownload_refused
    (id : UInt32)
    (src : Path)
    (data : Bytes)
    (hash : Hash256)
    {n : Nat}
    (inside : n < (downloadBlocks id data).length + 2)
    (refused : out.replies n = false) :
    Transducer.feed Pursuit.step (.reading src data)
        (sendDownload out id data hash) =
      (.nothing, []) := by
  let payload :=
    FileAcceptMsg.encode
      { transferId := id, size := UInt64.ofNat data.length, sha256 := hash }
  let ok := withinCap payload && out.replies 0
  let channel :=
    (sendAll (writeMessage out.replies) [.send (.known .fileAccept) payload ok]
      (downloadBlocks id data)).2
  have shape :
      sendDownload out id data hash =
        channel ++
          [.send (.known .fileComplete) (putU32 id)
            (withinCap (putU32 id) && out.replies channel.length)] :=
    rfl
  have noEnd : ∀ effect ∈ channel, NoEnd effect :=
    announced_noEnd id data payload ok
  rw [shape]
  by_cases early :
      ∃ k < (downloadBlocks id data).length + 1, out.replies k = false
  · -- The announcement or a block is not written.
    obtain ⟨k, isEarly, refusedEarly⟩ := early
    have givenUp :
        Transducer.feed Pursuit.step (.reading src data) channel =
          (.nothing, []) :=
      feed_announced_refused id src data payload isEarly refusedEarly
    simp [Transducer.feed_append, givenUp, Pursuit.step, Pursuit.send]
  · -- Only the end is not written.
    push Not at early
    have isLast : n = (downloadBlocks id data).length + 1 := by
      by_contra other
      have isEarly : n < (downloadBlocks id data).length + 1 := by
        omega
      exact early n isEarly refused
    have blocks :
        channel =
          [.send (.known .fileAccept) payload ok] ++
            (downloadBlocks id data).map fun m => .send m.1 m.2 true := by
      apply sendAll_written (downloadBlocks_withinCap id data)
      intro index isBlock
      have written := early (1 + index) (by omega)
      simpa using written
    have unwritten : out.replies channel.length = false := by
      rw [blocks, List.length_append, List.length_map, List.length_singleton,
        Nat.add_comm, ← isLast]
      exact refused
    rw [unwritten, Bool.and_false]
    exact feed_lastRefused noEnd (.inl ⟨src, data, rfl⟩)

/-! ### Every message that is handled -/

/-- How a handled message stands in the record, with and without its file. -/
structure RecordSettles
    (setup : SessionSetup)
    (ctx : SessionContext)
    (out : Outside)
    (m : Message)
    (effects : List Effect) : Prop where
  accounts :
    (ctx.canTransfer = true → Provided setup.fileRoot out m) →
      Accounts m effects
  unaccounted :
    ctx.canTransfer = true →
      ¬Provided setup.fileRoot out m → Unaccounted m effects

/-- What needs no file is accounted for. -/
theorem RecordSettles.of_accounts
    {effects : List Effect}
    (accounts : Accounts m effects)
    (provided : ctx.canTransfer = true → Provided setup.fileRoot out m) :
    RecordSettles setup ctx out m effects where
  accounts := fun _ => accounts
  unaccounted := fun permitted unprovided =>
    absurd (provided permitted) unprovided

/-- Only an upload or a download needs a file. -/
theorem provided_other
    {root : Path}
    (noUpload : m.op ≠ .known .fileUploadReq)
    (noDownload : m.op ≠ .known .fileDownloadReq) :
    Provided root out m :=
  fun _ =>
    ⟨fun isUpload => absurd isUpload noUpload,
      fun isDownload => absurd isDownload noDownload⟩

/-- A message that pursues nothing and puts nothing on record. -/
theorem accounts_idle
    {effects : List Effect}
    (idle : Pursuit.of m = .nothing)
    (noMessage : ∀ effect ∈ effects, ∀ m, effect ≠ .received m)
    (noRow : okRows effects = [])
    (unconcluded : ¬Concluded m effects) :
    Accounts m effects := by
  apply Accounts.pending (.inl rfl) ?_ noRow unconcluded
  rw [idle]
  exact feed_nothing noMessage

/-- A request is refused without the right, and else carried out. -/
theorem settles_of_transfer
    {operation text : Bytes}
    {permitted : Except DeserializeError Outcome}
    {outcome : Outcome}
    (handled :
      (if !ctx.canTransfer then
        .ok (notPermitted setup ctx out loop operation text)
      else
        permitted) = .ok outcome)
    (carriedOut :
      ctx.canTransfer = true → permitted = .ok outcome →
        RecordSettles setup ctx out m outcome.effects) :
    RecordSettles setup ctx out m outcome.effects := by
  cases isPermitted : ctx.canTransfer with
  | false =>
      simp only [isPermitted, Bool.not_false, if_true, Except.ok.injEq]
        at handled
      rw [← handled]
      apply RecordSettles.of_accounts (accounts_notPermitted operation text)
      simp [isPermitted]
  | true =>
      exact carriedOut isPermitted (by simpa [isPermitted] using handled)

/-- An upload is provided for if its temporary file can be opened. -/
theorem provided_upload
    {root : Path}
    (op : m.op = .known .fileUploadReq)
    (requested : requestedPaths out root m ≠ []) :
    Provided root out m ↔ out.opened = true := by
  simp [Provided, op, requested]

/-- A download is provided for if its file is there and is written out. -/
theorem provided_download
    {root : Path}
    (op : m.op = .known .fileDownloadReq)
    (requested : requestedPaths out root m ≠ []) :
    Provided root out m ↔
      ∃ data, out.content = some data ∧
        ∀ n < (downloadBlocks 0 data).length + 2, out.replies n = true := by
  simp [Provided, op, requested]

/-- An upload request is on record unless its file cannot be opened. -/
theorem settles_fileUploadReq
    {outcome : Outcome}
    (op : m.op = .known .fileUploadReq)
    (handled : handleFileUploadReq setup ctx out loop m.payload = .ok outcome) :
    RecordSettles setup ctx out m outcome.effects := by
  refine settles_of_transfer handled fun isPermitted carriedOut => ?_
  obtain ⟨req, decoded, result⟩ := bind_eq_ok carriedOut
  split at result
  · next rejected =>
      cases result
      apply RecordSettles.of_accounts (accounts_pathRejected _ _)
      intro _ requested
      simp [requestedPaths, op, decoded, rejected] at requested
  · next dest resolved =>
      cases result
      have requested : requestedPaths out setup.fileRoot m ≠ [] := by
        simp [requestedPaths, op, decoded, resolved]
      have begun :
          (out.opened = true →
              Accounts m (beginUpload out loop req dest).effects) ∧
            (out.opened = false →
              Unaccounted m (beginUpload out loop req dest).effects) :=
        accounts_beginUpload op req dest
      have needed := provided_upload op requested
      constructor
      · intro provided
        exact begun.1 (needed.mp (provided isPermitted))
      · intro _ unprovided
        apply begun.2
        simpa [needed] using unprovided

/-- The messages of a download are no rows. -/
theorem unlogged_sendDownload
    (id : UInt32)
    (data : Bytes)
    (hash : Hash256) :
    ∀ effect ∈ sendDownload out id data hash, Unlogged effect := by
  intro effect member
  rcases List.mem_append.mp member with isAnnounced | isEnd
  · obtain ⟨op, payload, ok, rfl, _⟩ := announced_noEnd _ _ _ _ effect isAnnounced
    exact ⟨by simp, by simp⟩
  · rw [List.mem_singleton.mp isEnd]
    exact ⟨by simp, by simp⟩

/-- The row of a download says that it was done. -/
theorem records_download
    (setup : SessionSetup)
    (ctx : SessionContext)
    (out : Outside)
    (id : UInt32)
    (src : Path)
    (data detail : Bytes)
    (hash : Hash256) :
    okRows
          (.readFile src (some data) :: sendDownload out id data hash ++
            [auditFileOp setup ctx .fileDownload src (ascii "OK") detail]) =
        [(.fileDownload, src)] ∧
      failRows
          (.readFile src (some data) :: sendDownload out id data hash ++
            [auditFileOp setup ctx .fileDownload src (ascii "OK") detail]) =
        0 := by
  have unlogged : ∀ effect ∈ sendDownload out id data hash, Unlogged effect :=
    unlogged_sendDownload id data hash
  obtain ⟨noRow, noFailure⟩ := records_unlogged unlogged
  constructor
  · simp only [okRows] at noRow
    simp [okRows, List.filterMap_cons, noRow, okRow, auditFileOp,
      AuditEvent.fileOp, fileActions]
  · simp only [failRows] at noFailure
    simp [failRows, noFailure, isFailRow, auditFileOp, AuditEvent.fileOp]

/-- A download is on record, whether or not it is written out. -/
theorem settles_fileDownloadReq
    {outcome : Outcome}
    (op : m.op = .known .fileDownloadReq)
    (handled :
      handleFileDownloadReq sha256 setup ctx out loop m.payload = .ok outcome) :
    RecordSettles setup ctx out m outcome.effects := by
  refine settles_of_transfer handled fun isPermitted carriedOut => ?_
  obtain ⟨relPath, decoded, result⟩ := bind_eq_ok carriedOut
  split at result
  · next rejected =>
      cases result
      apply RecordSettles.of_accounts (accounts_pathRejected _ _)
      intro _ requested
      simp [requestedPaths, op, decoded, rejected] at requested
  · next src resolved =>
      have requested : requestedPaths out setup.fileRoot m ≠ [] := by
        simp [requestedPaths, op, decoded, resolved]
      have needed := provided_download op requested
      split at result
      · next missing =>
          cases result
          constructor
          · intro provided
            have isThere := needed.mp (provided isPermitted)
            simp [missing] at isThere
          · intro _ _
            exact unaccounted_missing op src
      · next data present =>
          cases result
          have after : Pursuit.of m = .download := by
            simp [Pursuit.of, op]
          have written :
              Provided setup.fileRoot out m ↔
                ∀ n < (downloadBlocks loop.nextTransferId data).length + 2,
                  out.replies n = true := by
            simp [needed, present, downloadBlocks]
          obtain ⟨rows, noFailure⟩ :=
            records_download setup ctx out loop.nextTransferId src data
              (ascii "sha256=" ++ toHex (sha256 data).bytes) (sha256 data)
          constructor
          · intro provided
            have feeds :=
              feed_sendDownload_written loop.nextTransferId src data
                (sha256 data) (written.mp (provided isPermitted))
            refine .completed (.fileDownload, src) ?_ rows
            rw [after, List.cons_append, Transducer.feed_cons,
              Transducer.feed_append]
            simp [Pursuit.step, Pursuit.readFile, feeds, auditFileOp]
          · intro _ unprovided
            rw [written] at unprovided
            push Not at unprovided
            obtain ⟨n, inside, refused⟩ := unprovided
            have feeds :=
              feed_sendDownload_refused loop.nextTransferId src data
                (sha256 data) inside (by simpa using refused)
            refine ⟨⟨.nothing, .inl rfl, ?_⟩, ?_, noFailure⟩
            · rw [after, List.cons_append, Transducer.feed_cons,
                Transducer.feed_append]
              simp [Pursuit.step, Pursuit.readFile, feeds, auditFileOp]
            · simp [Concluded, op]

/-- The messages that ask for a file operation. -/
def fileRequests : List OpName :=
  [.fileUploadReq, .fileComplete, .fileDelete, .fileMove, .fileDownloadReq]

/-- Any other message settles if it leaves no row of a file operation. -/
theorem settles_other
    {effects : List Effect}
    (other : ∀ name ∈ fileRequests, m.op ≠ .known name)
    (noMessage : ∀ effect ∈ effects, ∀ m, effect ≠ .received m)
    (noRow : okRows effects = []) :
    RecordSettles setup ctx out m effects := by
  simp only [fileRequests, List.forall_mem_cons, List.not_mem_nil,
    false_implies, implies_true, and_true] at other
  obtain ⟨noUpload, noComplete, noDelete, noMove, noDownload⟩ := other
  have idle : Pursuit.of m = .nothing := by
    unfold Pursuit.of
    split <;> first | rfl | contradiction
  have unconcluded : ¬Concluded m effects := by
    unfold Concluded
    split <;> first | exact not_false | contradiction
  apply RecordSettles.of_accounts
  · exact accounts_idle idle noMessage noRow unconcluded
  · exact fun _ => provided_other noUpload noDownload

/-- A completed upload is on record; an unknown one is ignored. -/
theorem settles_fileComplete
    {outcome : Outcome}
    (op : m.op = .known .fileComplete)
    (handled :
      handleFileComplete sha256 setup ctx out loop m.payload = .ok outcome) :
    RecordSettles setup ctx out m outcome.effects := by
  have provided : ctx.canTransfer = true → Provided setup.fileRoot out m :=
    fun _ => provided_other (by simp [op]) (by simp [op])
  obtain ⟨id, decoded, result⟩ := bind_eq_ok handled
  split at result
  · cases result
    refine .of_accounts (.pending (.inr (.inl rfl)) ?_ rfl ?_) provided
    · simp [Pursuit.of, op]
    · simp [Concluded, op]
  · next st found =>
      cases result
      exact .of_accounts (accounts_finishUpload op id st) provided

/-- A delete is on record. -/
theorem settles_fileDelete
    {outcome : Outcome}
    (op : m.op = .known .fileDelete)
    (handled : handleFileDelete setup ctx out loop m.payload = .ok outcome) :
    RecordSettles setup ctx out m outcome.effects := by
  have provided : ctx.canTransfer = true → Provided setup.fileRoot out m :=
    fun _ => provided_other (by simp [op]) (by simp [op])
  refine settles_of_transfer handled fun _ carriedOut => ?_
  obtain ⟨del, decoded, result⟩ := bind_eq_ok carriedOut
  split at result
  · cases result
    exact .of_accounts (accounts_pathRejected _ _) provided
  · next target resolved =>
      cases result
      exact .of_accounts (accounts_delete op target) provided

/-- A move is on record. -/
theorem settles_fileMove
    {outcome : Outcome}
    (op : m.op = .known .fileMove)
    (handled : handleFileMove setup ctx out loop m.payload = .ok outcome) :
    RecordSettles setup ctx out m outcome.effects := by
  have provided : ctx.canTransfer = true → Provided setup.fileRoot out m :=
    fun _ => provided_other (by simp [op]) (by simp [op])
  refine settles_of_transfer handled fun _ carriedOut => ?_
  obtain ⟨mv, decoded, result⟩ := bind_eq_ok carriedOut
  split at result
  · next src dst srcResolved dstResolved =>
      cases result
      exact .of_accounts (accounts_move op src dst) provided
  · cases result
    exact .of_accounts (accounts_pathRejected _ _) provided

/-- Every message that is handled settles. -/
theorem handle_settles
    {outcome : Outcome}
    (handled : handle sha256 setup ctx out loop m = .ok outcome) :
    RecordSettles setup ctx out m outcome.effects := by
  unfold handle at handled
  split at handled
  · next op =>
      cases handled
      exact settles_other (by simp [op, fileRequests]) (by simp) rfl
  · next op =>
      unfold handleInputMouse at handled
      split at handled
      · cases handled
        exact settles_other (by simp [op, fileRequests]) (by simp) rfl
      · obtain ⟨⟨x, y, action⟩, _, result⟩ := bind_eq_ok handled
        cases result
        exact settles_other (by simp [op, fileRequests]) (by simp) rfl
  · next op =>
      unfold handleInputKey at handled
      split at handled
      · cases handled
        exact settles_other (by simp [op, fileRequests]) (by simp) rfl
      · obtain ⟨⟨down, vk⟩, _, result⟩ := bind_eq_ok handled
        cases result
        exact settles_other (by simp [op, fileRequests]) (by simp) rfl
  · next op =>
      exact settles_fileUploadReq op handled
  · next op =>
      obtain ⟨blk, decoded, result⟩ := bind_eq_ok handled
      split at result
      · cases result
        exact settles_other (by simp [op, fileRequests]) (by simp) rfl
      · next st found =>
          cases result
          have unlogged := unlogged_write st.out blk.data out.flush
          apply settles_other (by simp [op, fileRequests])
          · exact fun effect member => (unlogged effect member).1
          · exact (records_unlogged unlogged).1
  · next op =>
      exact settles_fileComplete op handled
  · next op =>
      exact settles_fileDelete op handled
  · next op =>
      exact settles_fileMove op handled
  · next op =>
      exact settles_fileDownloadReq op handled
  · next op =>
      obtain ⟨v, decoded, result⟩ := bind_eq_ok handled
      split at result
      · cases result
        apply settles_other (by simp [op, fileRequests])
        · simp [auditFileOp]
        · simp [okRows, okRow, auditFileOp, AuditEvent.fileOp, fileActions]
      · cases result
        exact settles_other (by simp [op, fileRequests]) (by simp) rfl
  · next _ _ _ noUpload _ noComplete noDelete noMove noDownload _ =>
      cases handled
      apply settles_other ?_ (by simp) rfl
      simp only [fileRequests, List.forall_mem_cons]
      exact ⟨noUpload, noComplete, noDelete, noMove, noDownload, by simp⟩

/-! ## A turn -/

/-- What a turn of the event loop does when its message does not throw. -/
inductive Episode
    (sha256 : Bytes → Hash256)
    (setup : SessionSetup)
    (ctx : SessionContext)
    (loop : LoopState)
    (turn : Turn) : List Effect → Prop where
  | unread
      {tail : List Effect}
      (idle : ∀ m, turn.running = true → turn.read ≠ .ok m)
      (aftermath : ∀ effect ∈ tail, Aftermath effect) :
      Episode sha256 setup ctx loop turn tail
  | handled
      {m : Message} {outcome : Outcome} {tail : List Effect}
      (running : turn.running = true)
      (read : turn.read = .ok m)
      (result : handle sha256 setup ctx turn.outside loop m = .ok outcome)
      (aftermath : ∀ effect ∈ tail, Aftermath effect) :
      Episode sha256 setup ctx loop turn
        (.received m :: outcome.effects ++ tail)

/-- A turn that reads nothing only ends or streams. -/
theorem Episode.of_unread
    {turn : Turn}
    {result : SessionPhase × List Effect}
    (idle : ∀ m, turn.running = true → turn.read ≠ .ok m)
    (streams : Streams setup ctx turn.outside loop [] result) :
    Episode sha256 setup ctx loop turn result.2 := by
  obtain ⟨tail, effects, aftermath⟩ := streams.aftermath
  rw [effects, List.nil_append]
  exact .unread idle aftermath

/-- A turn that reads a message handles it first. -/
theorem Episode.of_handled
    {turn : Turn}
    {outcome : Outcome}
    {result : SessionPhase × List Effect}
    (running : turn.running = true)
    (read : turn.read = .ok m)
    (handled : handle sha256 setup ctx turn.outside loop m = .ok outcome)
    (streams :
      Streams setup ctx turn.outside outcome.loop
        (.received m :: outcome.effects) result) :
    Episode sha256 setup ctx loop turn result.2 := by
  obtain ⟨tail, effects, aftermath⟩ := streams.aftermath
  rw [effects]
  exact .handled running read handled aftermath

/-- A turn of the event loop is such an episode. -/
theorem liveTurn_episode
    {turn : Turn}
    (returns :
      ∀ error,
        (liveTurn sha256 setup ctx loop turn).1 ≠ .terminated error) :
    Episode sha256 setup ctx loop turn
      (liveTurn sha256 setup ctx loop turn).2 := by
  unfold liveTurn at returns ⊢
  split
  · next stopped =>
      refine .of_unread ?_ (finishSession_streams [])
      intro m running
      simp [running] at stopped
  · next isRunning =>
      have running : turn.running = true := by
        simpa using isRunning
      simp only [isRunning, Bool.false_eq_true, if_false] at returns
      split
      · next read =>
          exact .of_unread (by simp [read]) (finishSession_streams [])
      · next read =>
          exact .of_unread (by simp [read]) (streamTurn_streams [])
      · next m read =>
          simp only [read] at returns
          split
          · next error threw =>
              simp [threw] at returns
          · next outcome handled =>
              split
              · exact .of_handled running read handled (finishSession_streams _)
              · exact .of_handled running read handled (streamTurn_streams _)

/-- What a handled message completed is what its turn completed. -/
theorem completions_handled
    {effects tail : List Effect}
    {pursuit : Pursuit}
    {done : List FileOperation}
    (resting : pursuit.Resting)
    (feeds : Transducer.feed Pursuit.step (.of m) effects = (pursuit, done))
    (aftermath : ∀ effect ∈ tail, Aftermath effect) :
    completions (.received m :: effects ++ tail) = done := by
  rw [completions, List.cons_append, Transducer.feed_cons,
    Transducer.feed_append]
  simp [Pursuit.step, feeds, feed_aftermath aftermath resting]

/-- The rows of a turn are those of its message. -/
theorem rows_handled
    (m : Message)
    (effects : List Effect)
    {tail : List Effect}
    (aftermath : ∀ effect ∈ tail, Aftermath effect) :
    okRows (.received m :: effects ++ tail) = okRows effects ∧
      failRows (.received m :: effects ++ tail) = failRows effects := by
  obtain ⟨noRow, noFailure⟩ := records_aftermath aftermath
  constructor
  · simp only [okRows] at noRow
    simp [okRows, okRow, List.filterMap_cons, noRow]
  · simp only [failRows] at noFailure
    simp [failRows, isFailRow, noFailure]

/-- A turn concludes what its message does. -/
theorem concluded_handled
    {effects tail : List Effect}
    (aftermath : ∀ effect ∈ tail, Aftermath effect) :
    Concluded m (.received m :: effects ++ tail) ↔ Concluded m effects := by
  rw [List.cons_append]
  have received :
      Concluded m (.received m :: (effects ++ tail)) ↔
        Concluded m (effects ++ tail) := by
    unfold Concluded
    split <;> simp
  rw [received, concluded_append aftermath]

/-- The record of a turn is true. -/
structure TrueTurn (m : Message) (effects : List Effect) : Prop where
  completed : okRows effects = completions effects
  failed : RequestFailed m effects → failRows effects = 1

/-- A message that is accounted for makes its turn true. -/
theorem Accounts.trueTurn
    {effects tail : List Effect}
    (accounts : Accounts m effects)
    (aftermath : ∀ effect ∈ tail, Aftermath effect) :
    TrueTurn m (.received m :: effects ++ tail) := by
  obtain ⟨rowsSame, failuresSame⟩ := rows_handled m effects aftermath
  constructor
  · rw [rowsSame]
    cases accounts with
    | completed operation feeds rows =>
        rw [rows, completions_handled (.inl rfl) feeds aftermath]
    | failed resting feeds rows one =>
        rw [rows, completions_handled resting feeds aftermath]
    | pending resting feeds rows unconcluded =>
        rw [rows, completions_handled resting feeds aftermath]
  · rintro ⟨nothing, concluded⟩
    rw [failuresSame]
    rw [concluded_handled aftermath] at concluded
    cases accounts with
    | completed operation feeds rows =>
        rw [completions_handled (.inl rfl) feeds aftermath] at nothing
        cases nothing
    | failed resting feeds rows one =>
        exact one
    | pending resting feeds rows unconcluded =>
        exact absurd concluded unconcluded

/-- A message that is unaccounted for makes its turn untrue. -/
theorem Unaccounted.not_failed
    {effects tail : List Effect}
    (unaccounted : Unaccounted m effects)
    (aftermath : ∀ effect ∈ tail, Aftermath effect) :
    ¬(RequestFailed m (.received m :: effects ++ tail) →
        failRows (.received m :: effects ++ tail) = 1) := by
  intro failed
  obtain ⟨pursuit, resting, feeds⟩ := unaccounted.feeds
  have noRow :
      failRows (.received m :: effects ++ tail) = failRows effects :=
    (rows_handled m effects aftermath).2
  rw [noRow, unaccounted.rows] at failed
  apply Nat.zero_ne_one
  apply failed
  exact ⟨completions_handled resting feeds aftermath,
    (concluded_handled aftermath).mpr unaccounted.concluded⟩

end Handled

/-! ## Before the event loop -/

/-- A pursuit of which nothing has been carried out. -/
def Pursuit.Asked : Pursuit → Prop
  | .reading .. | .sending .. => False
  | .nothing | .upload | .move | .delete | .download => True

/-- An effect that completes nothing and puts no file operation on record. -/
structure Uneventful (effect : Effect) : Prop where
  noRow : okRow effect = none
  silent :
    ∀ pursuit : Pursuit,
      pursuit.Asked →
        (pursuit.step effect).2 = [] ∧ (pursuit.step effect).1.Asked

theorem uneventful_received
    (m : Message) :
    Uneventful (.received m) := by
  refine ⟨rfl, fun pursuit asked => ⟨rfl, ?_⟩⟩
  change (Pursuit.of m).Asked
  unfold Pursuit.of
  split <;> trivial

theorem uneventful_send
    (op : Op)
    (payload : Bytes)
    (ok : Bool) :
    Uneventful (.send op payload ok) := by
  refine ⟨rfl, fun pursuit asked => ?_⟩
  cases pursuit with
  | reading src data =>
      exact asked.elim
  | sending src data sent =>
      exact asked.elim
  | _ =>
      exact ⟨rfl, trivial⟩

theorem uneventful_audit
    {event : AuditEvent}
    (other : event.action ∉ fileActions) :
    Uneventful (.audit event) :=
  ⟨by simp [okRow, other], fun _ _ => ⟨rfl, trivial⟩⟩

/-- An effect that no pursuit looks at. -/
theorem uneventful_ignored
    {effect : Effect}
    (noRow : okRow effect = none)
    (ignored : ∀ pursuit : Pursuit, pursuit.step effect = (pursuit, [])) :
    Uneventful effect :=
  ⟨noRow, fun pursuit asked => by simp [ignored, asked]⟩

/-- Uneventful effects complete nothing. -/
theorem feed_uneventful
    {effects : List Effect}
    (uneventful : ∀ effect ∈ effects, Uneventful effect)
    {pursuit : Pursuit}
    (asked : pursuit.Asked) :
    (Transducer.feed Pursuit.step pursuit effects).2 = [] := by
  induction effects generalizing pursuit with
  | nil =>
      rfl
  | cons effect rest inductionHypothesis =>
      rw [List.forall_mem_cons] at uneventful
      obtain ⟨silent, stillAsked⟩ := uneventful.1.silent pursuit asked
      simp [silent, inductionHypothesis uneventful.2 stillAsked]

/-- Such a turn has completed nothing and put nothing on record. -/
theorem uneventful_turn
    {effects : List Effect}
    (uneventful : ∀ effect ∈ effects, Uneventful effect) :
    okRows effects = completions effects := by
  have noRows : okRows effects = [] := by
    apply List.filterMap_eq_nil_iff.mpr
    intro effect member
    exact (uneventful effect member).noRow
  have asked : Pursuit.nothing.Asked :=
    trivial
  rw [noRows, completions, feed_uneventful uneventful asked]

/-- Leaving before the event loop adds nothing. -/
theorem uneventful_leave
    {effects : List Effect}
    (uneventful : ∀ effect ∈ effects, Uneventful effect) :
    ∀ effect ∈ (leave effects).2, Uneventful effect := by
  intro effect member
  rcases List.mem_append.mp member with isEffect | isRelease
  · exact uneventful effect isEffect
  · rw [List.mem_singleton.mp isRelease]
    exact uneventful_ignored rfl fun _ => rfl

theorem uneventful_helloTurn
    (turn : Turn) :
    ∀ effect ∈ (helloTurn turn).2, Uneventful effect := by
  unfold helloTurn
  split
  · split
    · apply uneventful_leave
      simp [uneventful_received]
    · split
      · simp [uneventful_received]
      · split
        · apply uneventful_leave
          simp [uneventful_received, reply_eq, uneventful_send]
        · simp [uneventful_received, reply_eq, uneventful_send]
  · apply uneventful_leave
    simp
  · apply uneventful_leave
    simp

theorem uneventful_authTurn
    (setup : SessionSetup)
    (turn : Turn) :
    ∀ effect ∈ (authTurn setup turn).2, Uneventful effect := by
  have row : ∀ user ok detail,
      Uneventful (.audit (.auth user setup.peerStr ok detail)) := by
    intro user ok detail
    apply uneventful_audit
    cases ok <;> simp [AuditEvent.auth, fileActions]
  unfold authTurn
  split
  · split
    · apply uneventful_leave
      simp [uneventful_received]
    · split
      · simp [uneventful_received]
      · dsimp only
        split
        · simp [uneventful_received, reply_eq, uneventful_send, row]
        · apply uneventful_leave
          simp [uneventful_received, reply_eq, uneventful_send, row]
  · apply uneventful_leave
    simp
  · apply uneventful_leave
    simp

theorem uneventful_modeTurn
    (setup : SessionSetup)
    (user : Bytes)
    (rights : UInt32)
    (turn : Turn) :
    ∀ effect ∈ (modeTurn setup user rights turn).2, Uneventful effect := by
  unfold modeTurn
  split
  · split
    · apply uneventful_leave
      simp [uneventful_received]
    · split
      · simp [uneventful_received]
      · dsimp only
        split
        · apply uneventful_leave
          have row : ∀ detail,
              Uneventful
                (.audit (.fileOp .permissionDenied user setup.peerStr []
                  (ascii "DENIED") detail)) := by
            intro detail
            apply uneventful_audit
            simp [AuditEvent.fileOp, fileActions]
          simp [uneventful_received, reply_eq, uneventful_send, row]
        · have row : ∀ detail,
              Uneventful (.audit (.session user setup.peerStr true detail)) := by
            intro detail
            apply uneventful_audit
            simp [AuditEvent.session, fileActions]
          have others : ∀ effect : Effect,
              okRow effect = none →
              (∀ pursuit : Pursuit, pursuit.step effect = (pursuit, [])) →
                Uneventful effect :=
            fun _ => uneventful_ignored
          simp only [List.forall_mem_cons]
          exact ⟨uneventful_received _, others _ rfl fun _ => rfl,
            others _ rfl fun _ => rfl, row _, others _ rfl fun _ => rfl,
            by simp⟩
  · apply uneventful_leave
    simp
  · apply uneventful_leave
    simp

/-- A turn outside the event loop is uneventful. -/
theorem uneventful_phase
    (sha256 : Bytes → Hash256)
    (setup : SessionSetup)
    {phase : SessionPhase}
    (notLive : ∀ ctx loop, phase ≠ .live ctx loop)
    (turn : Turn) :
    ∀ effect ∈ (phase.turn sha256 setup turn).2, Uneventful effect := by
  cases phase with
  | handshake =>
      dsimp only [SessionPhase.turn]
      split
      · simp
      · apply uneventful_leave
        have row :
            Uneventful
              (.audit (.auth (ascii "-") setup.peerStr false
                (ascii "tls_handshake_failed"))) := by
          apply uneventful_audit
          simp [AuditEvent.auth, fileActions]
        simp [row]
  | hello =>
      exact uneventful_helloTurn turn
  | auth =>
      exact uneventful_authTurn setup turn
  | mode user rights =>
      exact uneventful_modeTurn setup user rights turn
  | live ctx loop =>
      exact absurd rfl (notLive ctx loop)
  | closed unfinished =>
      simp [SessionPhase.turn]
  | terminated error =>
      simp [SessionPhase.turn]
  | stuck =>
      simp [SessionPhase.turn]

/-! ## A run -/

section Runs

variable {sha256 : Bytes → Hash256}
variable {setup : SessionSetup}

/-- A request that was refused or failed leaves one row that says so. -/
def FailedRow
    (sha256 : Bytes → Hash256)
    (setup : SessionSetup)
    (session : Session)
    (turn : Turn) : Prop :=
  ∀ ctx loop m,
    session.phase = .live ctx loop →
    turn.running = true →
    turn.read = .ok m →
    RequestFailed m (turnEffects sha256 setup session turn) →
    failRows (turnEffects sha256 setup session turn) = 1

/-- A turn of the event loop whose message does not throw is an episode. -/
theorem turn_episode
    {session : Session}
    {ctx : SessionContext}
    {loop : LoopState}
    (live : session.phase = .live ctx loop)
    {turn : Turn}
    (parses : ParsesWell session turn) :
    Episode sha256 setup ctx loop turn
      (turnEffects sha256 setup session turn) := by
  rw [turnEffects, live]
  exact liveTurn_episode ((liveTurn_iff live turn).mpr parses)

/-- A turn that is provided for leaves a true record. -/
theorem turn_true
    {session : Session}
    {turn : Turn}
    (parses : ParsesWell session turn)
    (provided : ProvidedFor setup session turn) :
    okRows (turnEffects sha256 setup session turn) =
        completions (turnEffects sha256 setup session turn) ∧
      FailedRow sha256 setup session turn := by
  by_cases isLive : ∃ ctx loop, session.phase = .live ctx loop
  · obtain ⟨ctx, loop, live⟩ := isLive
    have episode :
        Episode sha256 setup ctx loop turn
          (turnEffects sha256 setup session turn) :=
      turn_episode live parses
    unfold FailedRow
    generalize turnEffects sha256 setup session turn = effects at episode ⊢
    cases episode with
    | unread idle aftermath =>
        constructor
        · rw [(records_aftermath aftermath).1, completions,
            feed_aftermath aftermath (.inl rfl)]
        · intro _ _ m _ running read
          exact absurd read (idle m running)
    | handled running read result aftermath =>
        have accounts :=
          (handle_settles result).accounts
            (provided ctx loop _ live running read)
        have isTrue := accounts.trueTurn aftermath
        refine ⟨isTrue.completed, ?_⟩
        intro _ _ m _ _ alsoRead
        rw [read, ReadResult.ok.injEq] at alsoRead
        rw [← alsoRead]
        exact isTrue.failed
  · push Not at isLive
    refine ⟨uneventful_turn (uneventful_phase sha256 setup isLive turn), ?_⟩
    intro ctx loop m live
    exact absurd live (isLive ctx loop)

/-- A turn that is not provided for leaves a failure without its row. -/
theorem turn_untrue
    {session : Session}
    {turn : Turn}
    (parses : ParsesWell session turn)
    (unprovided : ¬ProvidedFor setup session turn) :
    ¬FailedRow sha256 setup session turn := by
  unfold ProvidedFor at unprovided
  push Not at unprovided
  obtain ⟨ctx, loop, m, live, running, read, permitted, missing⟩ := unprovided
  have episode :
      Episode sha256 setup ctx loop turn
        (turnEffects sha256 setup session turn) :=
    turn_episode live parses
  unfold FailedRow
  generalize turnEffects sha256 setup session turn = effects at episode ⊢
  intro record
  cases episode with
  | unread idle aftermath =>
      exact idle m running read
  | handled _ alsoRead result aftermath =>
      rw [read, ReadResult.ok.injEq] at alsoRead
      subst alsoRead
      have unaccounted :=
        (handle_settles result).unaccounted permitted missing
      exact unaccounted.not_failed aftermath (record ctx loop m live running read)

/-- A run's trace is what its turns did, one after the other. -/
theorem okRows_run
    {session : Session}
    {turns : List Turn}
    (each :
      StepRuns.Allowed (Session.step sha256 setup)
        (fun session turn =>
          okRows (turnEffects sha256 setup session turn) =
            completions (turnEffects sha256 setup session turn))
        session turns) :
    okRows (StepRuns.run (Session.step sha256 setup) session turns).trace =
      okRows session.trace ++
        TwoRuns.seen (Session.step sha256 setup)
          (fun session turn => completions (turnEffects sha256 setup session turn))
          session turns := by
  induction turns generalizing session with
  | nil =>
      simp [TwoRuns.seen]
  | cons turn rest inductionHypothesis =>
      obtain ⟨now, later⟩ := each
      have extended :
          okRows (session.step sha256 setup turn).trace =
            okRows session.trace ++
              okRows (turnEffects sha256 setup session turn) :=
        List.filterMap_append
      rw [StepRuns.run_cons, inductionHypothesis later, extended, now,
        TwoRuns.seen, List.append_assoc]

/--
A session's record of its file operations is true exactly if every upload that
it lets through gets its temporary file and every download that it lets through
finds its file and is written out.
-/
theorem truthfulTrail_iff
    (sha256 : Bytes → Hash256)
    (setup : SessionSetup)
    (turns : List Turn)
    (parses :
      StepRuns.Allowed (Session.step sha256 setup) ParsesWell {} turns) :
    TruthfulTrail sha256 setup turns ↔
      StepRuns.Allowed (Session.step sha256 setup) (ProvidedFor setup) {}
        turns := by
  constructor
  · intro truthful
    apply StepRuns.Allowed.of_at
    intro earlier turn later split
    by_contra unprovided
    rw [split] at parses
    apply turn_untrue parses.at unprovided
    intro ctx loop m live running read failed
    exact truthful.failed earlier turn later ctx loop m split live running read
      failed
  · intro provided
    have each := parses.and provided
    constructor
    · have rows := okRows_run (each.mono fun session turn now =>
        (turn_true now.1 now.2).1)
      exact rows
    · intro earlier turn later ctx loop m split live running read failed
      rw [split] at each
      exact (turn_true each.at.1 each.at.2).2 ctx loop m live running read failed

/-- A login for file transfer and a request for a file of three bytes. -/
def downloadTurns (written : Bool) : List Turn :=
  loginTurns {} [] R_FileTransfer (.known .fileOnly) ++
    [{ read := .ok ⟨.known .fileDownloadReq, putString (ascii "a")⟩
       outside := { content := some [1, 2, 3], replies := fun _ => written } }]

/-- Every payload of these turns is well formed. -/
theorem downloadTurns_parse
    (written : Bool) :
    StepRuns.Allowed (Session.step sha256 setup) ParsesWell {}
      (downloadTurns written) := by
  apply StepRuns.Allowed.of_forall
  intro turn member session m name read op _
  simp only [downloadTurns, loginTurns, List.cons_append, List.nil_append,
    List.mem_cons, List.not_mem_nil, or_false] at member
  rcases member with rfl | rfl | rfl | rfl | rfl
  · cases read
  · cases read
    cases op
    exact ⟨{ clientName := [] }, by simp, [], by simp⟩
  · cases read
    cases op
    exact ⟨{ username := [], password := [] }, by simp, by simp, [], by simp⟩
  · cases read
    cases op
    exact ⟨{ mode := .known .fileOnly }, [], by simp⟩
  · cases read
    cases op
    exact ⟨ascii "a", by decide, [], by simp⟩

/-- A download that is written out is on record, and the record is true. -/
theorem truthfulTrail_iff_download :
    TruthfulTrail evpSha256 folderSetup (downloadTurns true) ∧
      okRows (Session.run evpSha256 folderSetup (downloadTurns true)).trace =
        [(.fileDownload, ascii "C:\\share\\a")] := by
  refine ⟨?_, by decide +kernel⟩
  apply
    (truthfulTrail_iff evpSha256 folderSetup (downloadTurns true)
      (downloadTurns_parse true)).mpr
  apply StepRuns.Allowed.of_forall
  intro turn member session ctx loop m _ _ read _
  simp only [downloadTurns, loginTurns, List.cons_append, List.nil_append,
    List.mem_cons, List.not_mem_nil, or_false] at member
  rcases member with rfl | rfl | rfl | rfl | rfl
  · cases read
  · cases read
    exact provided_other (by simp) (by simp)
  · cases read
    exact provided_other (by simp) (by simp)
  · cases read
    exact provided_other (by simp) (by simp)
  · cases read
    exact fun _ => ⟨by simp, fun _ => ⟨[1, 2, 3], rfl, fun _ _ => rfl⟩⟩

/-- A download of which nothing reaches the client is on record as done. -/
theorem unsent_download_on_record :
    StepRuns.Allowed (Session.step evpSha256 folderSetup) ParsesWell {}
        (downloadTurns false) ∧
      okRows (Session.run evpSha256 folderSetup (downloadTurns false)).trace =
        [(.fileDownload, ascii "C:\\share\\a")] ∧
      completedOperations evpSha256 folderSetup (downloadTurns false) = [] ∧
      ¬TruthfulTrail evpSha256 folderSetup (downloadTurns false) := by
  have onRecord :
      okRows (Session.run evpSha256 folderSetup (downloadTurns false)).trace =
        [(.fileDownload, ascii "C:\\share\\a")] := by
    decide +kernel
  have completed :
      completedOperations evpSha256 folderSetup (downloadTurns false) = [] := by
    decide +kernel
  refine ⟨downloadTurns_parse false, onRecord, completed, ?_⟩
  intro truthful
  have agree := truthful.completed
  rw [onRecord, completed] at agree
  cases agree

end Runs

end RadminPro
