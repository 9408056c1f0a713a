import RadminPro.PairedCalls

namespace RadminPro

open ByteCodec

/-!
# Whole connections

Every call begins in tune and comes back in tune, so that a run of the
connection keeps requests and replies paired.  A download that is accepted and
then left is the only way to lose the pairing, and loses it for good.
-/

/--
The local file of a download that the server has accepted can be created: it is
asked for when the client reads the server's `FileAccept`.
-/
def CreatesLocal
    (localAnswers : Nat → LocalAnswer)
    (link : CallLink)
    (side : FifoLink.Side) : Prop :=
  side = .left →
  ∀ call app sent consumed localPath m rest,
    link.left.phase = .calling call (.transfer app) sent consumed →
    app.phase = .downloadRequested localPath →
    link.toLeft = m :: rest →
    m.op = .known .fileAccept →
    (localAnswers app.answered).created = true

/-- One turn of a connection on which calls are made. -/
def callsStep
    (sha256 : Bytes → Hash256)
    (setup : SessionSetup)
    (answers : Nat → Outside)
    (localAnswers : Nat → LocalAnswer)
    (disk : Nat → Files) : CallLink → FifoLink.Side → CallLink :=
  FifoLink.step (Caller.action sha256 localAnswers disk)
    (SessionEnd.action sha256 setup answers)

/-- Once the server has done all it was asked for, everything is in step. -/
def CallsPaired
    (sha256 : Bytes → Hash256)
    (setup : SessionSetup)
    (answers : Nat → Outside)
    (localAnswers : Nat → LocalAnswer)
    (disk : Nat → Files)
    (before : List Effect)
    (link : CallLink) : Prop :=
  FifoLink.CatchesUp (Caller.action sha256 localAnswers disk)
    (SessionEnd.action sha256 setup answers)
    (fun final =>
      FifoLink.Idle (Caller.action sha256 localAnswers disk)
          (SessionEnd.action sha256 setup answers) final ∧
        InStep sha256 before final)
    link

section Runs

variable {sha256 : Bytes → Hash256}
variable {setup : SessionSetup}
variable {ctx : SessionContext}
variable {answers : Nat → Outside}
variable {localAnswers : Nat → LocalAnswer}
variable {disk : Nat → Files}
variable {before : List Effect}

/-! ## From one point of a call to the next -/

/-- A call that has returned makes room for the next. -/
theorem regains_end
    {c : Conversation}
    {app : ClientApp}
    {ok : Bool}
    (kept : c.Kept sha256)
    (atState : c.state = .transfer app)
    (atPhase : app.phase = .returned ok)
    (stands : c.Stands sha256) :
    Regains sha256 setup ctx answers localAnswers disk before
      (c.link ctx before) := by
  simp only [Conversation.Stands, atState, Standing, atPhase] at stands
  obtain ⟨noUploads, empty, verdict⟩ := stands
  have isReturned : c.state.verdict? = some (app, ok) := by
    rw [atState]
    simp only [CallState.verdict?, atPhase]
  exact regains_returned kept isReturned noUploads empty verdict

/-- A call begins with nothing under way. -/
theorem stands_begin
    (sha256 : Bytes → Hash256)
    {loop : LoopState}
    (app : ClientApp)
    (call : ClientCall)
    (noUploads : NoUploads loop) :
    Standing sha256 call [] loop [] (call.begin app) := by
  cases call with
  | uploadFile localPath remotePath =>
      simp only [ClientCall.begin, Standing, ClientApp.uploadFile]
      cases app.files localPath with
      | none =>
          refine ⟨noUploads, rfl, iff_of_false (by simp) ?_⟩
          rintro ⟨dest, member⟩
          cases member
      | some data =>
          exact ⟨noUploads, rfl, rfl, localPath, rfl⟩
  | downloadFile remotePath localPath =>
      exact ⟨noUploads, rfl, rfl, rfl⟩
  | deleteRemote remotePath =>
      exact ⟨noUploads, rfl, rfl, rfl, .inl rfl⟩
  | moveRemote src dst =>
      exact ⟨noUploads, rfl, rfl, rfl, .inr rfl⟩

/-- Between two calls the next one begins. -/
theorem regains_between
    {app : ClientApp}
    {pending : List ClientCall}
    {records : List CallRecord}
    {loop : LoopState}
    {segments : List (List Effect)}
    (handled : Nat)
    (paired : List.Forall₂ (Paired sha256) records segments)
    (noUploads : NoUploads loop) :
    Regains sha256 setup ctx answers localAnswers disk before
      { left := { pending, phase := .between app, records }
        right :=
          { session := ⟨.live ctx loop, before ++ segments.flatten⟩
            handled } } := by
  intro next moved
  cases pending with
  | nil =>
      simp [FifoLink.move, FifoLink.advance, Caller.action] at moved
  | cons call rest =>
      simp only [FifoLink.move, FifoLink.advance, Caller.action, List.append_nil,
        Option.some.injEq] at moved
      subst moved
      let found : ClientApp := { app with files := disk records.length }
      let begun : Conversation :=
        { caller := { pending := rest, phase := .between app, records }
          call
          state := call.begin found
          sent := []
          consumed := []
          loop
          handled
          segments
          effects := []
          inbox := [] }
      have kept : begun.Kept sha256 :=
        ⟨paired, .inl rfl, rfl, rfl⟩
      have tune : InTune sha256 ctx before (begun.link ctx before) :=
        .calling kept (stands_begin sha256 found call noUploads)
      refine ⟨begun.link ctx before, ?_, tune⟩
      simp only [Conversation.link, begun, List.append_nil]
      exact .refl _

/-- Every point of a call is followed by one that is in tune. -/
theorem regains_calling
    {c : Conversation}
    (unseen : ctx.canView = false)
    (kept : c.Kept sha256)
    (stands : c.Stands sha256)
    (creates : CreatesLocal localAnswers (c.link ctx before) .left) :
    Regains sha256 setup ctx answers localAnswers disk before
      (c.link ctx before) := by
  cases atState : c.state with
  | requesting app op payload =>
      exact regains_requesting unseen kept atState stands
  | resultAwaited app =>
      exact regains_resultAwaited kept atState stands
  | transfer app =>
      cases atPhase : app.phase with
      | returned ok =>
          exact regains_end kept atState atPhase stands
      | threw error =>
          simp [Conversation.Stands, atState, Standing, atPhase,
            TransferStanding] at stands
      | requestingUpload data remotePath =>
          exact regains_requestingUpload unseen kept atState atPhase stands
      | uploadRequested data =>
          exact regains_uploadRequested kept atState atPhase stands
      | sendingBlocks id data off =>
          exact regains_sendingBlocks unseen kept atState atPhase stands
      | uploadSent =>
          exact regains_uploadSent kept atState atPhase stands
      | requestingDownload remotePath localPath =>
          exact regains_requestingDownload unseen kept atState atPhase stands
      | downloadRequested localPath =>
          refine regains_downloadRequested kept atState atPhase ?_ stands
          intro m rest waiting accept
          refine creates rfl c.call app c.sent c.consumed localPath m rest ?_
            atPhase waiting accept
          rw [← atState]
          rfl
      | receivingBlocks acc out hasher got =>
          exact regains_receivingBlocks kept atState atPhase stands
      | sendingReceipt id ok =>
          exact regains_sendingReceipt unseen kept atState atPhase stands

namespace InTune

variable {link next : CallLink}

/-- In tune, the server has nothing to do. -/
theorem idle
    (setup : SessionSetup)
    (answers : Nat → Outside)
    (localAnswers : Nat → LocalAnswer)
    (disk : Nat → Files)
    (tune : InTune sha256 ctx before link) :
    FifoLink.Idle (Caller.action sha256 localAnswers disk)
      (SessionEnd.action sha256 setup answers) link := by
  cases tune with
  | between paired noUploads =>
      rfl
  | calling kept stands =>
      rfl

/-- In tune, everything is in step. -/
theorem inStep
    (tune : InTune sha256 ctx before link) :
    InStep sha256 before link := by
  cases tune with
  | @between app pending records loop handled segments paired noUploads =>
      exact ⟨segments, [], (List.append_nil _).symm, paired, rfl, rfl⟩
  | @calling c kept stands =>
      refine ⟨c.segments, c.effects, rfl, kept.records, ?_⟩
      intro app returned isReturned
      have counted := kept.counted
      cases atState : c.state with
      | requesting app op payload | resultAwaited app =>
          simp [atState, CallState.verdict?] at isReturned
      | transfer ended =>
          rw [atState] at isReturned
          simp only [CallState.verdict?] at isReturned
          cases atPhase : ended.phase with
          | returned ok =>
              simp only [atPhase, Option.some.injEq, Prod.mk.injEq]
                at isReturned
              obtain ⟨rfl, rfl⟩ := isReturned
              simp only [Conversation.Stands, atState, Standing, atPhase]
                at stands
              obtain ⟨_, empty, verdict⟩ := stands
              rw [empty, List.append_nil] at counted
              exact ⟨empty, kept.begins, kept.received, counted, verdict⟩
          | _ =>
              simp [atPhase] at isReturned

/-- A turn of the client keeps the tune where its local file can be created. -/
theorem regains
    (unseen : ctx.canView = false)
    (tune : InTune sha256 ctx before link)
    (creates : CreatesLocal localAnswers link .left) :
    Regains sha256 setup ctx answers localAnswers disk before link := by
  cases tune with
  | between paired noUploads =>
      exact regains_between _ paired noUploads
  | calling kept stands =>
      exact regains_calling unseen kept stands creates

end InTune

/-- A download whose answer is under way waits for it. -/
theorem action_downloadRequested
    {caller : Caller}
    {call : ClientCall}
    {app : ClientApp}
    {sent consumed : List Message}
    {localPath : Path}
    (phase : caller.phase = .calling call (.transfer app) sent consumed)
    (atPhase : app.phase = .downloadRequested localPath) :
    Caller.action sha256 localAnswers disk caller =
      .wait fun m =>
        { caller with
          phase :=
            .calling call
              (.transfer
                (app.downloadAnswered (localAnswers app.answered) localPath
                  (some m)))
              sent (consumed ++ [m]) } := by
  simp [Caller.action, phase, CallState.verdict?, atPhase, CallState.action,
    ClientApp.action, FifoLink.Action.map]

/-- The condition looks only at what the client can already read. -/
theorem CreatesLocal.later
    {link final next : CallLink}
    (serves :
      FifoLink.Serves (Caller.action sha256 localAnswers disk)
        (SessionEnd.action sha256 setup answers) link final)
    (moved :
      FifoLink.move (Caller.action sha256 localAnswers disk)
          (SessionEnd.action sha256 setup answers) link .left =
        some next)
    (creates : CreatesLocal localAnswers link .left) :
    CreatesLocal localAnswers final .left := by
  intro isLeft call app sent consumed localPath m rest phase atPhase waiting accept
  obtain ⟨sameLeft, longer⟩ := serves.left_eq
  rw [sameLeft] at phase
  cases arrived : link.toLeft with
  | nil =>
      -- The client waits, so it could not have moved.
      have act :
          Caller.action sha256 localAnswers disk link.left = .wait _ :=
        action_downloadRequested phase atPhase
      simp [FifoLink.move, FifoLink.advance, act, arrived] at moved
  | cons first others =>
      rw [arrived, waiting, List.cons_prefix_cons] at longer
      obtain ⟨rfl, _⟩ := longer
      exact creates isLeft call app sent consumed localPath first others phase
        atPhase arrived accept

/-! ## A download that leaves early -/

/-- Without its local file it returns, and the file itself is left unread. -/
theorem InTune.left_unread
    {final next : CallLink}
    {call : ClientCall}
    {app : ClientApp}
    {sent consumed : List Message}
    {localPath : Path}
    {m : Message}
    {rest : List Message}
    (tune : InTune sha256 ctx before final)
    (phase : final.left.phase = .calling call (.transfer app) sent consumed)
    (atPhase : app.phase = .downloadRequested localPath)
    (waiting : final.toLeft = m :: rest)
    (accept : m.op = .known .fileAccept)
    (notCreated : (localAnswers app.answered).created = false)
    (moved :
      FifoLink.move (Caller.action sha256 localAnswers disk)
          (SessionEnd.action sha256 setup answers) final .left =
        some next) :
    FifoLink.Idle (Caller.action sha256 localAnswers disk)
        (SessionEnd.action sha256 setup answers) next ∧
      ¬InStep sha256 before next := by
  have act :
      Caller.action sha256 localAnswers disk final.left = .wait _ :=
    action_downloadRequested phase atPhase
  rw [FifoLink.move_left_wait act waiting, Option.some.injEq] at moved
  cases tune with
  | between paired noUploads =>
      cases phase
  | @calling c kept stands =>
      simp only [Conversation.link, CallerPhase.calling.injEq] at phase waiting
      obtain ⟨rfl, atState, rfl, rfl⟩ := phase
      simp only [Conversation.Stands, atState, Standing, atPhase] at stands
      obtain ⟨_, _, answered⟩ := stands
      rw [waiting] at answered
      rcases answered with ⟨_, awaits⟩ | ⟨id, content, _, whole⟩
      · obtain ⟨_, _, _, isResult, _, _⟩ := awaits.arrived
        rw [isResult] at accept
        simp at accept
      · rw [servedMessages, List.cons.injEq] at whole
        obtain ⟨rfl, rfl⟩ := whole
        subst moved
        refine ⟨rfl, ?_⟩
        rintro ⟨segments, effects, _, _, returns⟩
        let acc : FileAcceptMsg :=
          { transferId := id
            size := UInt64.ofNat content.length
            sha256 := sha256 content }
        have decoded : FileAcceptMsg.decode acc.encode = .ok acc :=
          FileAcceptMsg.decode_ok_iff.mpr ⟨[], by simp⟩
        have left :
            (app.downloadAnswered (localAnswers app.answered) localPath
                (some ⟨.known .fileAccept, acc.encode⟩)).phase =
              .returned false := by
          simp [ClientApp.downloadAnswered, decoded, notCreated]
        have empty := (returns _ false (by rw [CallState.verdict?, left])).1
        simp at empty

/-- A turn after which everything is in step is one that creates its file. -/
theorem createsLocal_of_inStep
    (setup : SessionSetup)
    (answers : Nat → Outside)
    (localAnswers : Nat → LocalAnswer)
    (disk : Nat → Files)
    (link : CallLink)
    (side : FifoLink.Side)
    (sound :
      FifoLink.CatchesUp (Caller.action sha256 localAnswers disk)
        (SessionEnd.action sha256 setup answers) (InTune sha256 ctx before) link)
    (seen :
      CallsPaired sha256 setup answers localAnswers disk before
        (callsStep sha256 setup answers localAnswers disk link side)) :
    CreatesLocal localAnswers link side := by
  rintro rfl call app sent consumed localPath m rest phase atPhase waiting accept
  obtain ⟨final, serves, tune⟩ := sound
  obtain ⟨last, lastServes, lastIdle, inStep⟩ := seen
  cases created : (localAnswers app.answered).created with
  | true =>
      rfl
  | false =>
      have act :
          Caller.action sha256 localAnswers disk link.left = .wait _ :=
        action_downloadRequested phase atPhase
      have moved :
          FifoLink.move (Caller.action sha256 localAnswers disk)
              (SessionEnd.action sha256 setup answers) link .left =
            some _ :=
        FifoLink.move_left_wait act waiting
      rw [callsStep, FifoLink.step, moved, Option.getD_some] at lastServes
      obtain ⟨other, movedLater, othersServe⟩ := serves.after_left moved
      obtain ⟨sameLeft, others, longer⟩ := serves.left_eq
      rw [waiting, List.cons_append] at longer
      rw [← sameLeft] at phase
      obtain ⟨otherIdle, notInStep⟩ :=
        tune.left_unread phase atPhase longer.symm accept created movedLater
      have same := lastServes.unique lastIdle othersServe otherIdle
      rw [same] at inStep
      exact (notInStep inStep).elim

/-! ## Pairing -/

/-- An authenticated connection for files whose calls are still to be made. -/
def callsStart
    (user : Bytes)
    (rights : UInt32)
    (captureOk : Bool)
    (before : List Effect)
    (app : ClientApp)
    (pending : List ClientCall) : CallLink where
  left := { pending, phase := .between app }
  right :=
    { session :=
        { phase :=
            .live { user, rights, mode := .known .fileOnly } { captureOk }
          trace := before } }

/--
Requests and replies stay paired through a run, wherever one looks, exactly when
the local file of every accepted download can be created.
-/
theorem calls_paired_iff
    (sha256 : Bytes → Hash256)
    (setup : SessionSetup)
    (answers : Nat → Outside)
    (localAnswers : Nat → LocalAnswer)
    (disk : Nat → Files)
    (user : Bytes)
    (rights : UInt32)
    (captureOk : Bool)
    (before : List Effect)
    (app : ClientApp)
    (pending : List ClientCall)
    (schedule : List FifoLink.Side) :
    (∀ earlier later,
        schedule = earlier ++ later →
        CallsPaired sha256 setup answers localAnswers disk before
          (StepRuns.run (callsStep sha256 setup answers localAnswers disk)
            (callsStart user rights captureOk before app pending) earlier)) ↔
      StepRuns.Allowed (callsStep sha256 setup answers localAnswers disk)
        (CreatesLocal localAnswers)
        (callsStart user rights captureOk before app pending) schedule := by
  let ctx : SessionContext := { user, rights, mode := .known .fileOnly }
  have unseen : ctx.canView = false := by
    simp [ctx, SessionContext.canView]
  let sound (link : CallLink) : Prop :=
    FifoLink.CatchesUp (Caller.action sha256 localAnswers disk)
      (SessionEnd.action sha256 setup answers) (InTune sha256 ctx before) link
  have starts :
      sound (callsStart user rights captureOk before app pending) := by
    have noUploads : NoUploads { captureOk } := by
      intro id
      simp
    have noCalls : List.Forall₂ (Paired sha256) [] [] := .nil
    have tune :
        InTune sha256 ctx before
          ⟨⟨pending, .between app, []⟩, ⟨_, [], 0⟩, [], []⟩ :=
      .between noCalls noUploads
    rw [List.flatten_nil, List.append_nil] at tune
    exact ⟨_, .refl _, tune⟩
  have sees :
      ∀ link,
        sound link →
        CallsPaired sha256 setup answers localAnswers disk before link := by
    rintro link ⟨final, serves, tune⟩
    exact ⟨final, serves, tune.idle setup answers localAnswers disk, tune.inStep⟩
  have kept :
      ∀ link side,
        CreatesLocal localAnswers link side →
        sound link →
        sound (callsStep sha256 setup answers localAnswers disk link side) := by
    intro link side creates isSound
    refine FifoLink.CatchesUp.step
      (fun _ tune => tune.idle setup answers localAnswers disk) ?_ ?_ side creates
      isSound
    · intro link next tune creates moved
      exact tune.regains unseen creates next moved
    · intro link final next serves moved creates
      exact creates.later serves moved
  have lost :
      ∀ link side,
        sound link →
        CallsPaired sha256 setup answers localAnswers disk before
          (callsStep sha256 setup answers localAnswers disk link side) →
        CreatesLocal localAnswers link side :=
    createsLocal_of_inStep setup answers localAnswers disk
  exact StepRuns.seen_iff_allowed sees kept lost starts schedule

end Runs

/--
A client that cannot create its local file leaves the end of an empty file in
the stream.
-/
theorem end_of_file_left_unread :
    ¬CallsPaired evpSha256
      { peerIp := [], peerStr := [], fileRoot := ascii "r" }
      (fun _ => { content := some [] }) (fun _ => { created := false })
      (fun _ _ => none) []
      (StepRuns.run
        (callsStep evpSha256
          { peerIp := [], peerStr := [], fileRoot := ascii "r" }
          (fun _ => { content := some [] }) (fun _ => { created := false })
          (fun _ _ => none))
        (callsStart (ascii "u") R_FileTransfer false []
          { phase := .returned true, files := fun _ => none }
          [.downloadFile (ascii "f") (ascii "l")])
        [.left, .left, .right, .right, .right, .left]) := by
  let setup : SessionSetup :=
    { peerIp := [], peerStr := [], fileRoot := ascii "r" }
  let out : Outside := { content := some [] }
  let ctx : SessionContext :=
    { user := ascii "u", rights := R_FileTransfer, mode := .known .fileOnly }
  let loop : LoopState := { captureOk := false }
  let acc : FileAcceptMsg :=
    { transferId := 1, size := UInt64.ofNat 0, sha256 := evpSha256 [] }
  let request : Message := ⟨.known .fileDownloadReq, putString (ascii "f")⟩
  let src : Path := PathText.join (ascii "r") (ascii "f")
  have decoded :
      parseAll ByteReader.str (putString (ascii "f")) = .ok (ascii "f") :=
    rfl
  have resolved :
      resolveInRoot out.reliably setup.fileRoot (ascii "f") = some src :=
    rfl
  have permitted : ctx.canTransfer = true := by
    decide
  let outcome : Outcome :=
    { loop := { loop with nextTransferId := loop.nextTransferId + 1 }
      effects :=
        .readFile src (some []) ::
            sendDownload out.reliably loop.nextTransferId [] (evpSha256 []) ++
          [auditFileOp setup ctx .fileDownload src (ascii "OK")
            (ascii "sha256=" ++ toHex (evpSha256 []).bytes)] }
  have taken :
      handle evpSha256 setup ctx out.reliably loop request = .ok outcome :=
    handle_fileDownloadReq permitted decoded resolved rfl
  have served :
      sentMessages outcome.effects =
        [⟨.known .fileAccept, acc.encode⟩,
          ⟨.known .fileComplete, putU32 1⟩] := by
    simp only [outcome]
    rw [sendDownload_written _ _ _ fun n _ => reliably_replies out n]
    exact (served_effects (fun _ => none) src [] _ _ [] _).1
  have received :
      SessionEnd.receive evpSha256 setup (fun _ => out)
          ⟨⟨.live ctx loop, []⟩, [], 0⟩ request =
        ⟨⟨.live ctx outcome.loop, [] ++ .received request :: outcome.effects⟩,
          sentMessages outcome.effects, 0 + 1⟩ :=
    SessionEnd.receive_handled [] rfl taken rfl
  rw [served] at received
  let app : ClientApp :=
    { phase := .downloadRequested (ascii "l"), files := fun _ => none }
  let call : ClientCall := .downloadFile (ascii "f") (ascii "l")
  let asked : Caller :=
    { pending := [], phase := .calling call (.transfer app) [request] [] }
  let turn :=
    callsStep evpSha256 setup (fun _ => out) (fun _ => { created := false })
      (fun _ _ => none)
  have asks :
      turn
          (turn
            (callsStart (ascii "u") R_FileTransfer false []
              { phase := .returned true, files := fun _ => none } [call])
            .left)
          .left =
        ⟨asked, ⟨⟨.live ctx loop, []⟩, [], 0⟩, [request], []⟩ := by
    rfl
  have takes :
      turn ⟨asked, ⟨⟨.live ctx loop, []⟩, [], 0⟩, [request], []⟩ .right =
        ⟨asked,
          SessionEnd.receive evpSha256 setup (fun _ => out)
            ⟨⟨.live ctx loop, []⟩, [], 0⟩ request,
          [], []⟩ :=
    rfl
  have delivers :
      turn
          (turn
            ⟨asked,
              SessionEnd.receive evpSha256 setup (fun _ => out)
                ⟨⟨.live ctx loop, []⟩, [], 0⟩ request,
              [], []⟩
            .right)
          .right =
        ⟨asked,
          ⟨⟨.live ctx outcome.loop, .received request :: outcome.effects⟩, [], 1⟩,
          [],
          [⟨.known .fileAccept, acc.encode⟩,
            ⟨.known .fileComplete, putU32 1⟩]⟩ := by
    rw [received]
    rfl
  have leaves :
      (app.downloadAnswered { created := false } (ascii "l")
          (some ⟨.known .fileAccept, acc.encode⟩)).phase =
        .returned false := by
    have decoded : FileAcceptMsg.decode acc.encode = .ok acc :=
      FileAcceptMsg.decode_ok_iff.mpr ⟨[], by simp⟩
    simp [ClientApp.downloadAnswered, decoded]
  have act :
      Caller.action evpSha256 (fun _ => { created := false }) (fun _ _ => none)
          asked =
        .wait _ :=
    action_downloadRequested rfl rfl
  have runs :
      StepRuns.run turn
          (callsStart (ascii "u") R_FileTransfer false []
            { phase := .returned true, files := fun _ => none } [call])
          [.left, .left, .right, .right, .right, .left] =
        turn
          ⟨asked,
            ⟨⟨.live ctx outcome.loop, .received request :: outcome.effects⟩, [],
              1⟩,
            [],
            [⟨.known .fileAccept, acc.encode⟩,
              ⟨.known .fileComplete, putU32 1⟩]⟩
          .left := by
    simp only [StepRuns.run_cons, StepRuns.run_nil]
    rw [asks, takes, delivers]
  change ¬CallsPaired _ _ _ _ _ [] (StepRuns.run turn _ _)
  rw [runs]
  simp only [turn]
  rw [callsStep, FifoLink.step, FifoLink.move_left_wait act rfl,
    Option.getD_some]
  rintro ⟨final, serves, _, segments, effects, _, _, returns⟩
  obtain ⟨sameLeft, rest, longer⟩ := serves.left_eq
  rw [sameLeft] at returns
  have empty := (returns _ false (by rw [CallState.verdict?, leaves])).1
  rw [← longer] at empty
  cases empty

end RadminPro
