import RadminPro.CallSequence
import RadminPro.ServedRequests

namespace RadminPro

open ByteCodec

/-!
# Requests and replies

Calls and replies are paired by their order alone.  The pairing is kept as long
as a call reads to the end what the server sends for it; a download that leaves
when it cannot create its local file does not.
-/

/-- A transport that loses nothing. -/
def Outside.reliably (out : Outside) : Outside :=
  { out with replies := fun _ => true }

/-- The server's end of a connection, whatever its disk answers. -/
structure SessionEnd where
  session : Session
  outbox : List Message := []
  handled : Nat := 0

namespace SessionEnd

/-- The session takes a message. -/
def receive
    (sha256 : Bytes → Hash256)
    (setup : SessionSetup)
    (answers : Nat → Outside)
    (server : SessionEnd)
    (m : Message) : SessionEnd :=
  let turn : Turn :=
    { read := .ok m
      outside := (answers server.handled).reliably }
  { session := server.session.step sha256 setup turn
    outbox := sentMessages (turnEffects sha256 setup server.session turn)
    handled := server.handled + 1 }

/-- What the server does next. -/
def action
    (sha256 : Bytes → Hash256)
    (setup : SessionSetup)
    (answers : Nat → Outside)
    (server : SessionEnd) : FifoLink.Action SessionEnd Message Message :=
  match server.outbox with
  | m :: rest => .go [m] { server with outbox := rest }
  | [] => .wait (server.receive sha256 setup answers)

end SessionEnd

/-- The client and the server of a connection on which calls are made. -/
abbrev CallLink := FifoLink.Link Caller SessionEnd Message Message

/-- The message that asks the server for the operation of a call. -/
def ClientCall.Requests
    (sha256 : Bytes → Hash256)
    (m : Message) : ClientCall → Prop
  | .uploadFile _ remotePath =>
      ∃ content,
        m =
          ⟨.known .fileUploadReq,
            (uploadRequest sha256 remotePath content).encode⟩
  | .downloadFile remotePath _ =>
      m = ⟨.known .fileDownloadReq, putString remotePath⟩
  | .deleteRemote path => m = ⟨.known .fileDelete, FileDeleteMsg.encode ⟨path⟩⟩
  | .moveRemote src dst =>
      m = ⟨.known .fileMove, FileMoveMsg.encode ⟨src, dst⟩⟩

/--
A file has been read and sent from its announcement to its end, and the client
has confirmed that its copy has the announced size and hash.
-/
def Delivered (sha256 : Bytes → Hash256) (effects : List Effect) : Prop :=
  ∃ src content id,
    Effect.readFile src (some content) ∈ effects ∧
      sentMessages effects = servedMessages sha256 id content ∧
      Effect.received
          ⟨.known .fileVerify, FileVerifyMsg.encode ⟨id, .known .ok⟩⟩ ∈ effects

/-- The server has completed the operation of a call. -/
def ClientCall.Completed
    (sha256 : Bytes → Hash256)
    (effects : List Effect) : ClientCall → Prop
  | .uploadFile .. => PutsInPlace effects
  | .downloadFile .. => Delivered sha256 effects
  | .deleteRemote _ => Removes effects
  | .moveRemote .. => Renames effects

/--
A call and what the server did for it: this begins with its request, the server
has taken what the call wrote, the call has read what the server sent, no more
and no less, and it has returned true if and only if its operation was
completed.
-/
structure Paired
    (sha256 : Bytes → Hash256)
    (record : CallRecord)
    (effects : List Effect) : Prop where
  begins :
    effects = [] ∨
      ∃ m rest, record.call.Requests sha256 m ∧ effects = .received m :: rest
  requests : effects.filterMap receivedMessage = record.sent
  replies : sentMessages effects = record.consumed
  verdict : record.returned = true ↔ record.call.Completed sha256 effects

/--
Where the server has taken everything that was written, what it has done falls
into one part for each call; every call that has returned is paired with its
part, and no reply is left over.
-/
def InStep
    (sha256 : Bytes → Hash256)
    (before : List Effect)
    (link : CallLink) : Prop :=
  ∃ segments effects,
    link.right.session.trace = before ++ segments.flatten ++ effects ∧
      List.Forall₂ (Paired sha256) link.left.records segments ∧
      match link.left.phase with
      | .between _ => effects = [] ∧ link.toLeft = []
      | .calling call state sent consumed =>
          ∀ app returned,
            state.verdict? = some (app, returned) →
            link.toLeft = [] ∧
              Paired sha256 { call, sent, consumed, returned } effects

/-! ## What is under way in a call -/

/-- A verdict on an operation is awaited, or lost to the frame cap. -/
def AwaitsResult (done : Prop) (inbox : List Message) : Prop :=
  inbox = [] ∨
    ∃ status text,
      (status = .known .ok ↔ done) ∧
        text.length < 2 ^ 32 ∧
        inbox =
          [⟨.known .fileOpResult, FileOpResultMsg.encode ⟨status, text⟩⟩]

/-- What a served download has left: it was read, announced and sent. -/
def ServedBy
    (sha256 : Bytes → Hash256)
    (effects : List Effect)
    (id : UInt32)
    (content : Bytes) : Prop :=
  (∃ src, Effect.readFile src (some content) ∈ effects) ∧
    sentMessages effects = servedMessages sha256 id content

/-- Windows of a file by their index. -/
def windowsOf (content : Bytes) (indices : List Nat) : List Bytes :=
  indices.map fun index =>
    BufferWindow.window content (index * kFileBlockSize) kFileBlockSize

/-- Blocks of a download by their index. -/
def blockMessages
    (id : UInt32)
    (content : Bytes)
    (indices : List Nat) : List Message :=
  indices.map fun index =>
    ⟨.known .fileBlock,
      FileBlockMsg.encode
        { transferId := id
          sequence := UInt32.ofNat index
          data :=
            BufferWindow.window content (index * kFileBlockSize)
              kFileBlockSize }⟩

/-- The call is an upload. -/
def ClientCall.IsUpload (call : ClientCall) : Prop :=
  ∃ localPath remotePath, call = .uploadFile localPath remotePath

/-- The call is a download. -/
def ClientCall.IsDownload (call : ClientCall) : Prop :=
  ∃ remotePath localPath, call = .downloadFile remotePath localPath

/-- What is under way in a transfer, by where it stands. -/
def TransferStanding
    (sha256 : Bytes → Hash256)
    (call : ClientCall)
    (effects : List Effect)
    (loop : LoopState)
    (inbox : List Message) : TransferPhase → Prop
  | .returned ok =>
      NoUploads loop ∧ inbox = [] ∧
        (ok = true ↔ call.Completed sha256 effects)
  | .threw _ => False
  | .requestingUpload _ remotePath =>
      NoUploads loop ∧ inbox = [] ∧ effects = [] ∧
        ∃ localPath, call = .uploadFile localPath remotePath
  | .uploadRequested content =>
      call.IsUpload ∧ ¬Renames effects ∧
        (NoUploads loop ∧ AwaitsResult False inbox ∨
          effects ≠ [] ∧
            ∃ acc : FileAcceptMsg,
              UploadOpen sha256 acc.transferId content [] loop ∧
                inbox = [⟨.known .fileAccept, acc.encode⟩])
  | .sendingBlocks id content off =>
      call.IsUpload ∧ ¬Renames effects ∧ inbox = [] ∧ effects ≠ [] ∧
        UploadOpen sha256 id content (content.take off) loop
  | .uploadSent =>
      call.IsUpload ∧ NoUploads loop ∧
        ∃ id status,
          (status = .known .ok ↔ PutsInPlace effects) ∧
            inbox =
              [⟨.known .fileVerify, FileVerifyMsg.encode ⟨id, status⟩⟩]
  | .requestingDownload remotePath localPath =>
      NoUploads loop ∧ inbox = [] ∧ effects = [] ∧
        call = .downloadFile remotePath localPath
  | .downloadRequested _ =>
      call.IsDownload ∧ NoUploads loop ∧
        ((∀ m, Effect.received m ∈ effects → m.op = .known .fileDownloadReq) ∧
            AwaitsResult False inbox ∨
          ∃ id content,
            ServedBy sha256 effects id content ∧
              inbox = servedMessages sha256 id content)
  | .receivingBlocks acc _ hasher got =>
      call.IsDownload ∧ NoUploads loop ∧
        ∃ content indices,
          ServedBy sha256 effects acc.transferId content ∧
            acc.size = UInt64.ofNat content.length ∧
            acc.sha256 = sha256 content ∧
            inbox =
              blockMessages acc.transferId content indices ++
                [⟨.known .fileComplete, putU32 acc.transferId⟩] ∧
            hasher.fed ++ (windowsOf content indices).flatten = content ∧
            got = UInt64.ofNat hasher.fed.length
  | .sendingReceipt id ok =>
      call.IsDownload ∧ NoUploads loop ∧ inbox = [] ∧ ok = true ∧
        ∃ content, ServedBy sha256 effects id content

/-- What is under way in a call, by where it stands. -/
def Standing
    (sha256 : Bytes → Hash256)
    (call : ClientCall)
    (effects : List Effect)
    (loop : LoopState)
    (inbox : List Message) : CallState → Prop
  | .transfer app => TransferStanding sha256 call effects loop inbox app.phase
  | .requesting _ op payload =>
      NoUploads loop ∧ inbox = [] ∧ effects = [] ∧
        call.Requests sha256 ⟨.known op, payload⟩ ∧
        (op = .fileDelete ∨ op = .fileMove)
  | .resultAwaited _ =>
      NoUploads loop ∧ AwaitsResult (call.Completed sha256 effects) inbox

/-- A call under way on a connection whose server has caught up. -/
structure Conversation where
  caller : Caller
  call : ClientCall
  state : CallState
  sent : List Message
  consumed : List Message
  loop : LoopState
  handled : Nat
  segments : List (List Effect)
  effects : List Effect
  inbox : List Message

namespace Conversation

/-- The connection of a call. -/
def link
    (ctx : SessionContext)
    (before : List Effect)
    (c : Conversation) : CallLink where
  left := { c.caller with phase := .calling c.call c.state c.sent c.consumed }
  right :=
    { session :=
        ⟨.live ctx c.loop, before ++ c.segments.flatten ++ c.effects⟩
      handled := c.handled }
  toLeft := c.inbox

/-- The books are kept: of the earlier calls, and of this one so far. -/
structure Kept (sha256 : Bytes → Hash256) (c : Conversation) : Prop where
  records : List.Forall₂ (Paired sha256) c.caller.records c.segments
  begins :
    c.effects = [] ∨
      ∃ m rest, c.call.Requests sha256 m ∧ c.effects = .received m :: rest
  received : c.effects.filterMap receivedMessage = c.sent
  counted : sentMessages c.effects = c.consumed ++ c.inbox

/-- What is under way in the call. -/
def Stands (sha256 : Bytes → Hash256) (c : Conversation) : Prop :=
  Standing sha256 c.call c.effects c.loop c.inbox c.state

end Conversation

/-- The connection where the server has caught up and everything is in step. -/
inductive InTune
    (sha256 : Bytes → Hash256)
    (ctx : SessionContext)
    (before : List Effect) : CallLink → Prop where
  | between
      {app : ClientApp}
      {pending : List ClientCall}
      {records : List CallRecord}
      {loop : LoopState}
      {handled : Nat}
      {segments : List (List Effect)}
      (paired : List.Forall₂ (Paired sha256) records segments)
      (noUploads : NoUploads loop) :
      InTune sha256 ctx before
        { left := { pending, phase := .between app, records }
          right :=
            { session := ⟨.live ctx loop, before ++ segments.flatten⟩
              handled } }
  | calling
      {c : Conversation}
      (kept : c.Kept sha256)
      (stands : c.Stands sha256) :
      InTune sha256 ctx before (c.link ctx before)

section Connection

variable {sha256 : Bytes → Hash256}
variable {setup : SessionSetup}
variable {ctx : SessionContext}
variable {answers : Nat → Outside}
variable {localAnswers : Nat → LocalAnswer}
variable {disk : Nat → Files}
variable {before : List Effect}

/-! ## The server catches up -/

section Server

variable {caller : Caller}
variable {session : Session}
variable {handled : Nat}

/-- What the server has to send is sent. -/
theorem serves_outbox
    (outbox inbox : List Message) :
    FifoLink.Serves (Caller.action sha256 localAnswers disk)
      (SessionEnd.action sha256 setup answers)
      ⟨caller, ⟨session, outbox, handled⟩, [], inbox⟩
      ⟨caller, ⟨session, [], handled⟩, [], inbox ++ outbox⟩ := by
  induction outbox generalizing inbox with
  | nil =>
      rw [List.append_nil]
      exact .refl _
  | cons m rest inductionHypothesis =>
      have others := inductionHypothesis (inbox ++ [m])
      rw [List.append_assoc] at others
      exact .onward rfl others

/-- What a message that the handler takes leaves of the server. -/
theorem SessionEnd.receive_handled
    {loop : LoopState}
    {m : Message}
    {outcome : Outcome}
    (trace : List Effect)
    (unseen : ctx.canView = false)
    (result :
      handle sha256 setup ctx (answers handled).reliably loop m = .ok outcome)
    (goOn : outcome.goOn = true) :
    SessionEnd.receive sha256 setup answers
        ⟨⟨.live ctx loop, trace⟩, [], handled⟩ m =
      { session :=
          ⟨.live ctx outcome.loop, trace ++ .received m :: outcome.effects⟩
        outbox := sentMessages outcome.effects
        handled := handled + 1 } := by
  let turn : Turn :=
    { read := .ok m
      outside := (answers handled).reliably }
  have effects :
      turnEffects sha256 setup ⟨.live ctx loop, trace⟩ turn =
        .received m :: outcome.effects := by
    simp [turn, turnEffects, SessionPhase.turn, liveTurn, result, goOn,
      streamTurn_unseen unseen]
  have stepped :
      Session.step sha256 setup ⟨.live ctx loop, trace⟩ turn =
        ⟨.live ctx outcome.loop, trace ++ .received m :: outcome.effects⟩ :=
    step_handled unseen rfl rfl result goOn
  have silent :
      sentMessages (.received m :: outcome.effects) =
        sentMessages outcome.effects :=
    rfl
  simp only [SessionEnd.receive]
  rw [effects, stepped, silent]

/-- A message that the handler takes is answered. -/
theorem serves_message
    {loop : LoopState}
    {trace : List Effect}
    {m : Message}
    {outcome : Outcome}
    (unseen : ctx.canView = false)
    (result :
      handle sha256 setup ctx (answers handled).reliably loop m = .ok outcome)
    (goOn : outcome.goOn = true)
    (inbox : List Message) :
    FifoLink.Serves (Caller.action sha256 localAnswers disk)
      (SessionEnd.action sha256 setup answers)
      ⟨caller, ⟨⟨.live ctx loop, trace⟩, [], handled⟩, [m], inbox⟩
      ⟨caller,
        ⟨⟨.live ctx outcome.loop, trace ++ .received m :: outcome.effects⟩,
          [], handled + 1⟩,
        [], inbox ++ sentMessages outcome.effects⟩ := by
  have taken :=
    SessionEnd.receive_handled trace unseen result goOn
  have moved :
      FifoLink.move (Caller.action sha256 localAnswers disk)
          (SessionEnd.action sha256 setup answers)
          ⟨caller, ⟨⟨.live ctx loop, trace⟩, [], handled⟩, [m], inbox⟩ .right =
        some
          ⟨caller,
            SessionEnd.receive sha256 setup answers
              ⟨⟨.live ctx loop, trace⟩, [], handled⟩ m,
            [], inbox⟩ := by
    simp [FifoLink.move, FifoLink.advance, SessionEnd.action]
  rw [taken] at moved
  exact .onward moved (serves_outbox _ _)

end Server

/-! ## Moves of the client -/

/-- Every move of the client is followed by a state that is in tune again. -/
def Regains
    (sha256 : Bytes → Hash256)
    (setup : SessionSetup)
    (ctx : SessionContext)
    (answers : Nat → Outside)
    (localAnswers : Nat → LocalAnswer)
    (disk : Nat → Files)
    (before : List Effect)
    (link : CallLink) : Prop :=
  ∀ next,
    FifoLink.move (Caller.action sha256 localAnswers disk)
        (SessionEnd.action sha256 setup answers) link .left =
      some next →
    FifoLink.CatchesUp (Caller.action sha256 localAnswers disk)
      (SessionEnd.action sha256 setup answers) (InTune sha256 ctx before) next

/-- A call that goes on without a message. -/
theorem regains_silent
    {c : Conversation}
    {next : CallState}
    (kept : c.Kept sha256)
    (going : c.state.verdict? = none)
    (act : c.state.action sha256 localAnswers = .go [] next)
    (stands : Standing sha256 c.call c.effects c.loop c.inbox next) :
    Regains sha256 setup ctx answers localAnswers disk before
      (c.link ctx before) := by
  intro after moved
  simp only [FifoLink.move, FifoLink.advance, Conversation.link, Caller.action,
    going, act, List.append_nil, Option.some.injEq] at moved
  subst moved
  have keeps : Conversation.Kept sha256 { c with state := next } :=
    ⟨kept.records, kept.begins, kept.received, kept.counted⟩
  exact ⟨_, .refl _, .calling keeps stands⟩

/-- A call that writes a message, which the server takes. -/
theorem regains_written
    {c : Conversation}
    {next : CallState}
    {m : Message}
    {outcome : Outcome}
    {replies : List Message}
    (unseen : ctx.canView = false)
    (kept : c.Kept sha256)
    (going : c.state.verdict? = none)
    (act : c.state.action sha256 localAnswers = .go [m] next)
    (begins : c.effects = [] → c.call.Requests sha256 m)
    (result :
      handle sha256 setup ctx (answers c.handled).reliably c.loop m =
        .ok outcome)
    (goOn : outcome.goOn = true)
    (sends : Sends outcome.effects replies)
    (stands :
      Standing sha256 c.call (c.effects ++ .received m :: outcome.effects)
        outcome.loop (c.inbox ++ replies) next) :
    Regains sha256 setup ctx answers localAnswers disk before
      (c.link ctx before) := by
  intro after moved
  simp only [FifoLink.move, FifoLink.advance, Conversation.link, Caller.action,
    going, act, List.nil_append, Option.some.injEq] at moved
  subst moved
  let next : Conversation :=
    { c with
      state := next
      sent := c.sent ++ [m]
      loop := outcome.loop
      handled := c.handled + 1
      effects := c.effects ++ .received m :: outcome.effects
      inbox := c.inbox ++ replies }
  have keeps : next.Kept sha256 := by
    refine ⟨kept.records, .inr ?_, ?_, ?_⟩
    · rcases kept.begins with none | ⟨first, rest, requests, parts⟩
      · exact ⟨m, outcome.effects, begins none, by simp [next, none]⟩
      · exact ⟨first, rest ++ .received m :: outcome.effects, requests,
          by simp [next, parts]⟩
    · simp only [next]
      rw [List.filterMap_append, kept.received, List.filterMap_cons]
      simp [receivedMessage, sends.unread]
    · have silent : sentMessages (.received m :: outcome.effects) = replies :=
        sends.sent
      simp only [next]
      rw [sentMessages_append, kept.counted, silent, List.append_assoc]
  refine ⟨_, serves_message unseen result goOn c.inbox, ?_⟩
  rw [sends.sent, List.append_assoc _ c.effects]
  exact .calling keeps stands

/-- A call that reads its next message, if there is one. -/
theorem regains_read
    {c : Conversation}
    {receive : Message → CallState}
    (kept : c.Kept sha256)
    (going : c.state.verdict? = none)
    (act : c.state.action sha256 localAnswers = .wait receive)
    (stands :
      ∀ m rest,
        c.inbox = m :: rest →
        Standing sha256 c.call c.effects c.loop rest (receive m)) :
    Regains sha256 setup ctx answers localAnswers disk before
      (c.link ctx before) := by
  intro after moved
  cases waiting : c.inbox with
  | nil =>
      simp [FifoLink.move, FifoLink.advance, Conversation.link, Caller.action,
        going, act, waiting] at moved
  | cons m rest =>
      simp only [FifoLink.move, FifoLink.advance, Conversation.link,
        Caller.action, going, act, waiting, List.append_nil,
        Option.some.injEq] at moved
      subst moved
      let next : Conversation :=
        { c with
          state := receive m
          consumed := c.consumed ++ [m]
          inbox := rest }
      have keeps : next.Kept sha256 := by
        refine ⟨kept.records, kept.begins, kept.received, ?_⟩
        have counted := kept.counted
        rw [waiting] at counted
        simp only [next]
        rw [counted, List.append_assoc, List.singleton_append]
      exact ⟨_, .refl _, .calling keeps (stands m rest waiting)⟩

/-- A call that has returned is recorded. -/
theorem regains_returned
    {c : Conversation}
    {app : ClientApp}
    {returned : Bool}
    (kept : c.Kept sha256)
    (isReturned : c.state.verdict? = some (app, returned))
    (noUploads : NoUploads c.loop)
    (empty : c.inbox = [])
    (verdict : returned = true ↔ c.call.Completed sha256 c.effects) :
    Regains sha256 setup ctx answers localAnswers disk before
      (c.link ctx before) := by
  intro after moved
  simp only [FifoLink.move, FifoLink.advance, Conversation.link, Caller.action,
    isReturned, empty, List.append_nil, Option.some.injEq] at moved
  subst moved
  have counted : sentMessages c.effects = c.consumed := by
    rw [kept.counted, empty, List.append_nil]
  have paired :
      List.Forall₂ (Paired sha256)
        (c.caller.records ++ [⟨c.call, c.sent, c.consumed, returned⟩])
        (c.segments ++ [c.effects]) :=
    List.rel_append kept.records
      (.cons ⟨kept.begins, kept.received, counted, verdict⟩ .nil)
  have trace :
      before ++ c.segments.flatten ++ c.effects =
        before ++ (c.segments ++ [c.effects]).flatten := by
    simp
  rw [trace]
  exact ⟨_, .refl _, .between paired noUploads⟩

end Connection

end RadminPro
