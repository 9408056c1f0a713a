import RadminPro.ClientCalls
import RadminPro.Sha256Digest
import RadminPro.StepRuns
import RadminPro.StreamLanding
import RadminPro.WireCodecExact

namespace RadminPro

open ByteCodec

/-!
# What a download leaves behind

`downloadFile` truncates its destination as soon as the server accepts, verifies
what came in rather than what is on disk, and asks no write whether it
succeeded.  So the destination is right afterwards only if everything went well
or if its content was worth nothing.
-/

/-- How the messages after the acceptance end a download. -/
inductive DownloadEnd where
  | completed
  | broken
  | malformed

/-- What a read means to a download that receives. -/
inductive Arrived where
  | nothing
  | block (data : Bytes)
  | ends (how : DownloadEnd)

/-- What a read means to the download with this id. -/
def arrived (id : UInt32) : Option Message → Arrived
  | none => .ends .broken
  | some m =>
      if m.op = .known .fileBlock then
        match FileBlockMsg.decode m.payload with
        | .error _ => .ends .malformed
        | .ok b => if b.transferId = id then .block b.data else .nothing
      else if m.op = .known .fileComplete then
        .ends .completed
      else if m.op = .known .error then
        .ends .broken
      else
        .nothing

/--
The blocks of a download with the answers of the disk, and its end with what the
last close hands over; the end is missing while the call goes on.
-/
structure Arrivals where
  blocks : List (Bytes × Flush) := []
  ended : Option (DownloadEnd × Nat) := none

/-- What arrives at a download; a completed one still sends its receipt. -/
def arrivals (id : UInt32) : List CallTurn → Arrivals
  | [] => {}
  | turn :: rest =>
      match arrived id turn.read with
      | .nothing => arrivals id rest
      | .block data =>
          { blocks := (data, turn.answer.flush) :: (arrivals id rest).blocks
            ended := (arrivals id rest).ended }
      | .ends .completed =>
          if rest.isEmpty then
            {}
          else
            { ended := some (.completed, turn.answer.flushedAtClose) }
      | .ends how => { ended := some (how, turn.answer.flushedAtClose) }

/-- The acceptance that opens the local file, and the turns that follow it. -/
def opened : List CallTurn → Option (FileAcceptMsg × List CallTurn)
  | _ :: answer :: rest =>
      match answer.read with
      | some m =>
          if m.op = .known .fileAccept ∧ answer.answer.created = true then
            match FileAcceptMsg.decode m.payload with
            | .ok acc => some (acc, rest)
            | .error _ => none
          else
            none
      | none => none
  | _ => none

/-- A content has the length and the hash that an acceptance declares. -/
def Declared
    (sha256 : Bytes → Hash256)
    (acc : FileAcceptMsg)
    (content : Bytes) : Prop :=
  content.length = acc.size.toNat ∧ sha256 content = acc.sha256

/--
True is returned only with the declared content in the local file, false only
with the file as it was.
-/
structure Atomic
    (sha256 : Bytes → Hash256)
    (files : Files)
    (localPath : Path)
    (turns : List CallTurn)
    (final : ClientApp) : Prop where
  verified :
    final.phase = .returned true →
    ∃ acc rest content,
      opened turns = some (acc, rest) ∧
        final.files localPath = some content ∧ Declared sha256 acc content
  unchanged :
    final.phase = .returned false → final.files localPath = files localPath

/-- What came in agrees with the acceptance, as the 64-bit counter counts. -/
def Agrees
    (sha256 : Bytes → Hash256)
    (acc : FileAcceptMsg)
    (content : Bytes) : Prop :=
  UInt64.ofNat content.length = acc.size ∧ sha256 content = acc.sha256

instance
    (sha256 : Bytes → Hash256)
    (acc : FileAcceptMsg)
    (content : Bytes) :
    Decidable (Agrees sha256 acc content) :=
  inferInstanceAs (Decidable (_ ∧ _))

/-- What of the blocks reaches a local file that has just been opened. -/
def Arrivals.landed
    (arrivals : Arrivals)
    (localPath : Path)
    (flushed : Nat) : Bytes :=
  OfStream.landing { path := localPath } arrivals.blocks flushed

/-- What came in. -/
def Arrivals.streamed (arrivals : Arrivals) : Bytes :=
  OfStream.streamed arrivals.blocks

/--
A download that has opened its file does no harm: it completes with everything
on disk, or the file already held what is left of it.  (A stream of 2 ^ 64 bytes
wraps the counter; then what is on disk has to make up for it.)
-/
def Harmless
    (sha256 : Bytes → Hash256)
    (before : Option Bytes)
    (localPath : Path)
    (acc : FileAcceptMsg)
    (arrivals : Arrivals) : Prop :=
  match arrivals.ended with
  | none | some (.malformed, _) => True
  | some (.broken, flushed) =>
      before = some (arrivals.landed localPath flushed)
  | some (.completed, flushed) =>
      if Agrees sha256 acc arrivals.streamed then
        if arrivals.streamed.length < 2 ^ 64 then
          arrivals.landed localPath flushed = arrivals.streamed
        else
          Declared sha256 acc (arrivals.landed localPath flushed)
      else
        before = some (arrivals.landed localPath flushed)

section Downloads

variable {sha256 : Bytes → Hash256}
variable {acc : FileAcceptMsg}

/-! ## What one read does -/

/-- A read at a download that receives, by what arrives. -/
structure Takes
    (sha256 : Bytes → Hash256)
    (app : ClientApp)
    (answer : LocalAnswer)
    (acc : FileAcceptMsg)
    (out : OfStream)
    (hasher : Sha256)
    (got : UInt64)
    (arrival : Arrived)
    (next : ClientApp) : Prop where
  nothing : arrival = .nothing → next = app
  block :
    ∀ data,
      arrival = .block data →
      next =
        { phase :=
            .receivingBlocks acc (out.write data answer.flush).1
              (hasher.update data) (got + UInt64.ofNat data.length)
          files := filesAfter app.files (out.write data answer.flush).2
          answered := app.answered + 1 }
  completed :
    arrival = .ends .completed →
    next =
      app.leaveStream answer out
        (.sendingReceipt acc.transferId
          (got = acc.size ∧ hasher.finish sha256 = acc.sha256))
  broken :
    arrival = .ends .broken →
    next = app.leaveStream answer out (.returned false)
  malformed :
    arrival = .ends .malformed →
    ∃ error, next = app.leaveStream answer out (.threw error)

/-- What a download does with a read is decided by what arrives. -/
theorem blockReceived_takes
    (app : ClientApp)
    (answer : LocalAnswer)
    (acc : FileAcceptMsg)
    (out : OfStream)
    (hasher : Sha256)
    (got : UInt64)
    (read : Option Message) :
    Takes sha256 app answer acc out hasher got (arrived acc.transferId read)
      (app.blockReceived sha256 answer acc out hasher got read) := by
  cases read with
  | none =>
      constructor <;> simp [arrived, ClientApp.blockReceived]
  | some m =>
      by_cases isBlock : m.op = .known .fileBlock
      · cases decoded : FileBlockMsg.decode m.payload with
        | error error =>
            refine ⟨?_, ?_, ?_, ?_, fun _ => ⟨error, ?_⟩⟩ <;>
              simp [arrived, ClientApp.blockReceived, isBlock, decoded]
        | ok b =>
            by_cases same : b.transferId = acc.transferId
            · constructor <;>
                simp [arrived, ClientApp.blockReceived, isBlock, decoded, same]
            · constructor <;>
                simp [arrived, ClientApp.blockReceived, isBlock, decoded, same]
      · by_cases isComplete : m.op = .known .fileComplete
        · constructor <;>
            simp [arrived, ClientApp.blockReceived, isComplete]
        · by_cases isError : m.op = .known .error
          · constructor <;>
              simp [arrived, ClientApp.blockReceived, isError]
          · constructor <;>
              simp [arrived, ClientApp.blockReceived, isBlock, isComplete,
                isError]

/-- A transfer that is over stays as it is. -/
theorem run_over
    {app : ClientApp}
    (isOver : ∀ turn, app.step sha256 turn = app)
    (turns : List CallTurn) :
    StepRuns.run (ClientApp.step sha256) app turns = app := by
  induction turns with
  | nil =>
      rfl
  | cons turn rest inductionHypothesis =>
      rw [StepRuns.run_cons, isOver turn, inductionHypothesis]

theorem run_returned
    {app : ClientApp}
    {ok : Bool}
    (returned : app.phase = .returned ok)
    (turns : List CallTurn) :
    StepRuns.run (ClientApp.step sha256) app turns = app := by
  apply run_over
  intro turn
  simp only [ClientApp.step, returned]

theorem run_threw
    {app : ClientApp}
    {error : DeserializeError}
    (threw : app.phase = .threw error)
    (turns : List CallTurn) :
    StepRuns.run (ClientApp.step sha256) app turns = app := by
  apply run_over
  intro turn
  simp only [ClientApp.step, threw]

/-! ## A download from its acceptance on -/

/--
The download has taken `came`, of which `content` has reached the local file.
-/
structure Midway
    (acc : FileAcceptMsg)
    (localPath : Path)
    (app : ClientApp)
    (out : OfStream)
    (content came : Bytes) : Prop where
  phase :
    ∃ hasher got,
      app.phase = .receivingBlocks acc out hasher got ∧
        hasher.fed = came ∧ got = UInt64.ofNat came.length
  path : out.path = localPath
  trails : out.Trails app.files content

/-- What a download leaves behind, by what arrives at it. -/
def LeavesBehind
    (sha256 : Bytes → Hash256)
    (acc : FileAcceptMsg)
    (localPath : Path)
    (out : OfStream)
    (content came : Bytes)
    (arrivals : Arrivals)
    (final : ClientApp) : Prop :=
  match arrivals.ended with
  | none | some (.malformed, _) => ∀ ok, final.phase ≠ .returned ok
  | some (.broken, flushed) =>
      final.phase = .returned false ∧
        final.files localPath =
          some (content ++ out.landing arrivals.blocks flushed)
  | some (.completed, flushed) =>
      (∃ ok,
          final.phase = .returned ok ∧
            (ok = true ↔ Agrees sha256 acc (came ++ arrivals.streamed))) ∧
        final.files localPath =
          some (content ++ out.landing arrivals.blocks flushed)

/-- A block that arrives goes to the stream. -/
theorem LeavesBehind.block
    {localPath : Path}
    {out : OfStream}
    {content came data : Bytes}
    {flush : Flush}
    {later : Arrivals}
    {final : ClientApp}
    (leaves :
      LeavesBehind sha256 acc localPath (out.write data flush).1
        (content ++ out.handed data flush) (came ++ data) later final) :
    LeavesBehind sha256 acc localPath out content came
      { blocks := (data, flush) :: later.blocks, ended := later.ended } final := by
  unfold LeavesBehind at leaves ⊢
  cases ended : later.ended with
  | none =>
      simpa only [ended] using leaves
  | some ending =>
      obtain ⟨how, flushed⟩ := ending
      cases how with
      | completed =>
          simpa only [ended, OfStream.landing, Arrivals.streamed,
            OfStream.streamed_cons, List.append_assoc] using leaves
      | broken =>
          simpa only [ended, OfStream.landing, List.append_assoc] using leaves
      | malformed =>
          simpa only [ended] using leaves

/-- From any point on, a download leaves behind what arrives says. -/
theorem Midway.leaves
    {localPath : Path}
    {app : ClientApp}
    {out : OfStream}
    {content came : Bytes}
    (midway : Midway acc localPath app out content came)
    (turns : List CallTurn) :
    LeavesBehind sha256 acc localPath out content came
      (arrivals acc.transferId turns)
      (StepRuns.run (ClientApp.step sha256) app turns) := by
  induction turns generalizing app out content came with
  | nil =>
      obtain ⟨hasher, got, phase, -, -⟩ := midway.phase
      intro ok returned
      rw [StepRuns.run_nil, phase] at returned
      cases returned
  | cons turn rest inductionHypothesis =>
      obtain ⟨hasher, got, phase, fed, counted⟩ := midway.phase
      let next :=
        app.blockReceived sha256 turn.answer acc out hasher got turn.read
      have steps : app.step sha256 turn = next := by
        simp only [ClientApp.step, phase, next]
      have takes :
          Takes sha256 app turn.answer acc out hasher got
            (arrived acc.transferId turn.read) next :=
        blockReceived_takes app turn.answer acc out hasher got turn.read
      have closed :
          filesAfter app.files (out.close turn.answer.flushedAtClose) localPath =
            some (content ++ out.landing [] turn.answer.flushedAtClose) := by
        rw [← midway.path]
        exact midway.trails.close turn.answer.flushedAtClose
      rw [StepRuns.run_cons, steps, arrivals]
      cases arrival : arrived acc.transferId turn.read with
      | nothing =>
          rw [takes.nothing arrival]
          exact inductionHypothesis midway
      | block data =>
          apply LeavesBehind.block
          apply inductionHypothesis
          rw [takes.block data arrival]
          refine ⟨⟨_, _, rfl, ?_, ?_⟩, ?_, midway.trails.write data _⟩
          · rw [Sha256.update, fed]
          · rw [counted, List.length_append, UInt64.ofNat_add]
          · rw [OfStream.write_path, midway.path]
      | ends how =>
          cases how with
          | broken =>
              rw [takes.broken arrival, run_returned rfl]
              exact ⟨rfl, closed⟩
          | malformed =>
              obtain ⟨error, isNext⟩ := takes.malformed arrival
              rw [isNext, run_threw rfl]
              intro ok returned
              cases returned
          | completed =>
              rw [takes.completed arrival]
              cases rest with
              | nil =>
                  intro ok returned
                  cases returned
              | cons receipt later =>
                  rw [StepRuns.run_cons, ClientApp.step]
                  dsimp only [ClientApp.leaveStream]
                  rw [run_returned rfl]
                  refine ⟨⟨_, rfl, ?_⟩, closed⟩
                  rw [counted, Sha256.finish, fed]
                  simp [Agrees, Arrivals.streamed]

/-! ## A download from its beginning on -/

/-- An acceptance that opens the local file starts the download with nothing. -/
theorem midway_opened
    (app : ClientApp)
    {request answer : CallTurn}
    {rest later : List CallTurn}
    (localPath : Path)
    (isOpened : opened (request :: answer :: rest) = some (acc, later)) :
    later = rest ∧
      Midway acc localPath
        (app.downloadAnswered answer.answer localPath answer.read)
        { path := localPath } [] [] := by
  cases read : answer.read with
  | none =>
      simp [opened, read] at isOpened
  | some m =>
      by_cases accepts :
          m.op = .known .fileAccept ∧ answer.answer.created = true
      · cases decoded : FileAcceptMsg.decode m.payload with
        | error error =>
            simp [opened, read, accepts, decoded] at isOpened
        | ok decodedAcc =>
            simp only [opened, read, accepts, decoded, and_self, ↓reduceIte,
              Option.some.injEq, Prod.mk.injEq] at isOpened
            obtain ⟨rfl, rfl⟩ := isOpened
            have next :
                app.downloadAnswered answer.answer localPath (some m) =
                  { phase :=
                      .receivingBlocks decodedAcc { path := localPath } .empty 0
                    files := filesAfter app.files [.openTrunc localPath true]
                    answered := app.answered + 1 } := by
              simp [ClientApp.downloadAnswered, accepts, decoded]
            rw [next]
            refine ⟨rfl, ⟨_, _, rfl, rfl, rfl⟩, rfl, ?_⟩
            exact OfStream.trails_opened (FileStore.apply_truncate _ _)
      · simp [opened, read, accepts] at isOpened

/-- Without one the download ends and the local file is not touched. -/
theorem unopened
    (app : ClientApp)
    {request answer : CallTurn}
    {rest : List CallTurn}
    (localPath : Path)
    (notOpened : opened (request :: answer :: rest) = none) :
    ∃ phase,
      app.downloadAnswered answer.answer localPath answer.read =
          { app with phase } ∧
        (phase = .returned false ∨ ∃ error, phase = .threw error) := by
  cases read : answer.read with
  | none =>
      exact ⟨_, rfl, .inl rfl⟩
  | some m =>
      by_cases isResult : m.op = .known .fileOpResult
      · refine ⟨ClientApp.rejected m.payload, ?_, ?_⟩
        · simp [ClientApp.downloadAnswered, isResult]
        · unfold ClientApp.rejected
          split
          · exact .inr ⟨_, rfl⟩
          · exact .inl rfl
      · by_cases accepts : m.op = .known .fileAccept
        · cases decoded : FileAcceptMsg.decode m.payload with
          | error error =>
              refine ⟨.threw error, ?_, .inr ⟨error, rfl⟩⟩
              simp [ClientApp.downloadAnswered, accepts, decoded]
          | ok decodedAcc =>
              cases created : answer.answer.created with
              | true =>
                  simp [opened, read, accepts, decoded, created] at notOpened
              | false =>
                  refine ⟨.returned false, ?_, .inl rfl⟩
                  simp [ClientApp.downloadAnswered, accepts, decoded, created]
        · refine ⟨.returned false, ?_, .inl rfl⟩
          simp [ClientApp.downloadAnswered, isResult, accepts]

/-- Of what has come in, what is on disk is as declared when all of it is. -/
theorem declared_landed_iff
    {arrivals : Arrivals}
    {localPath : Path}
    {flushed : Nat}
    (agrees : Agrees sha256 acc arrivals.streamed)
    (counted : arrivals.streamed.length < 2 ^ 64) :
    Declared sha256 acc (arrivals.landed localPath flushed) ↔
      arrivals.landed localPath flushed = arrivals.streamed := by
  have size : arrivals.streamed.length = acc.size.toNat := by
    rw [← agrees.1, UInt64.toNat_ofNat', Nat.mod_eq_of_lt counted]
  constructor
  · intro declared
    have begins :
        arrivals.landed localPath flushed <+: [] ++ arrivals.streamed :=
      OfStream.landing_begins arrivals.blocks flushed
    exact begins.eq_of_length (declared.1.trans size.symm)
  · intro all
    rw [all]
    exact ⟨size, agrees.2⟩

/-- What a download leaves behind is what it should exactly when it is harmless. -/
theorem LeavesBehind.atomic_iff
    {files : Files}
    {localPath : Path}
    {turns later : List CallTurn}
    {arrivals : Arrivals}
    {final : ClientApp}
    (isOpened : opened turns = some (acc, later))
    (leaves :
      LeavesBehind sha256 acc localPath { path := localPath } [] [] arrivals
        final) :
    Atomic sha256 files localPath turns final ↔
      Harmless sha256 (files localPath) localPath acc arrivals := by
  have notReturned :
      (∀ ok, final.phase ≠ .returned ok) →
        Atomic sha256 files localPath turns final :=
    fun none =>
      ⟨fun returned => (none true returned).elim,
        fun returned => (none false returned).elim⟩
  have failed :
      ∀ flushed,
        final.phase = .returned false →
        final.files localPath = some (arrivals.landed localPath flushed) →
        (Atomic sha256 files localPath turns final ↔
          files localPath = some (arrivals.landed localPath flushed)) := by
    intro flushed returned left
    constructor
    · exact fun atomic => (atomic.unchanged returned).symm.trans left
    · intro same
      refine ⟨fun isTrue => ?_, fun _ => left.trans same.symm⟩
      rw [returned] at isTrue
      cases isTrue
  unfold LeavesBehind at leaves
  unfold Harmless
  cases ended : arrivals.ended with
  | none =>
      simp only [ended] at leaves
      exact iff_of_true (notReturned leaves) trivial
  | some ending =>
      obtain ⟨how, flushed⟩ := ending
      simp only [ended] at leaves
      cases how with
      | malformed =>
          exact iff_of_true (notReturned leaves) trivial
      | broken =>
          exact failed flushed leaves.1 leaves.2
      | completed =>
          obtain ⟨⟨ok, returned, isVerdict⟩, left⟩ := leaves
          rw [List.nil_append] at isVerdict
          by_cases agrees : Agrees sha256 acc arrivals.streamed
          · rw [isVerdict.mpr agrees] at returned
            have verified :
                Atomic sha256 files localPath turns final ↔
                  Declared sha256 acc (arrivals.landed localPath flushed) := by
              constructor
              · intro atomic
                obtain ⟨_, _, content, isOpen, onDisk, declared⟩ :=
                  atomic.verified returned
                rw [isOpened, Option.some.injEq, Prod.mk.injEq] at isOpen
                rw [left, Option.some.injEq] at onDisk
                obtain ⟨rfl, rfl⟩ := isOpen
                subst onDisk
                exact declared
              · intro declared
                refine ⟨fun _ => ⟨_, _, _, isOpened, left, declared⟩, ?_⟩
                intro isFalse
                rw [returned] at isFalse
                cases isFalse
            rw [verified]
            simp only [agrees, ↓reduceIte]
            split
            · next counted =>
                exact declared_landed_iff agrees counted
            · exact Iff.rfl
          · have isFalse : ok = false :=
              Bool.eq_false_iff.mpr fun isTrue => agrees (isVerdict.mp isTrue)
            rw [isFalse] at returned
            simp only [agrees, ↓reduceIte]
            exact failed flushed returned left

/--
Whatever the server and the disk do, a download is atomic exactly when it does
not open its file or does no harm to it.
-/
theorem download_atomic_iff
    (sha256 : Bytes → Hash256)
    (files : Files)
    (remotePath : Bytes)
    (localPath : Path)
    (turns : List CallTurn) :
    Atomic sha256 files localPath turns
        (StepRuns.run (ClientApp.step sha256)
          (ClientApp.downloadFile files remotePath localPath) turns) ↔
      ∀ acc later,
        opened turns = some (acc, later) →
        Harmless sha256 (files localPath) localPath acc
          (arrivals acc.transferId later) := by
  have early :
      ∀ {final : ClientApp},
        opened turns = none →
        (∀ ok, final.phase ≠ .returned ok) ∨
            (final.phase = .returned false ∧ final.files = files) →
        (Atomic sha256 files localPath turns final ↔
          ∀ acc later,
            opened turns = some (acc, later) →
            Harmless sha256 (files localPath) localPath acc
              (arrivals acc.transferId later)) := by
    intro final notOpened ends
    refine iff_of_true ?_ fun acc later isOpened => ?_
    · rcases ends with going | ⟨returned, same⟩
      · exact
          ⟨fun isTrue => (going true isTrue).elim,
            fun isFalse => (going false isFalse).elim⟩
      · refine ⟨fun isTrue => ?_, fun _ => by rw [same]⟩
        rw [returned] at isTrue
        cases isTrue
    · rw [notOpened] at isOpened
      cases isOpened
  cases turns with
  | nil =>
      exact early rfl (.inl (by simp [ClientApp.downloadFile]))
  | cons request others =>
      cases others with
      | nil =>
          exact early rfl (.inl (by simp [ClientApp.downloadFile, ClientApp.step]))
      | cons answer rest =>
          let asked : ClientApp :=
            { phase := .downloadRequested localPath, files, answered := 0 }
          let after :=
            asked.downloadAnswered answer.answer localPath answer.read
          have runs :
              StepRuns.run (ClientApp.step sha256)
                  (ClientApp.downloadFile files remotePath localPath)
                  (request :: answer :: rest) =
                StepRuns.run (ClientApp.step sha256) after rest :=
            rfl
          rw [runs]
          cases isOpened : opened (request :: answer :: rest) with
          | none =>
              obtain ⟨phase, isAfter, ends⟩ :=
                unopened asked localPath isOpened
              have same : after = { asked with phase } :=
                isAfter
              rw [← isOpened, same]
              rcases ends with rfl | ⟨error, rfl⟩
              · rw [run_returned rfl]
                exact early isOpened (.inr ⟨rfl, rfl⟩)
              · rw [run_threw rfl]
                exact early isOpened (.inl (by simp))
          | some opening =>
              obtain ⟨acc, later⟩ := opening
              obtain ⟨rfl, midway⟩ :=
                midway_opened asked localPath isOpened
              refine ((midway.leaves later).atomic_iff isOpened).trans ?_
              constructor
              · intro harmless other others same
                rw [Option.some.injEq, Prod.mk.injEq] at same
                obtain ⟨rfl, rfl⟩ := same
                exact harmless
              · exact fun each => each acc later rfl

/-- A server that accepts a download and hangs up. -/
def hangupTurns : List CallTurn :=
  [{},
    { read :=
        some
          ⟨.known .fileAccept,
            FileAcceptMsg.encode { sha256 := ⟨List.replicate 32 1, rfl⟩ }⟩ },
    {}]

/-- What was in the local file is lost to it, although the download fails. -/
theorem emptied_by_hangup :
    ¬Atomic evpSha256 (fun _ => some [1]) (ascii "b") hangupTurns
      (StepRuns.run (ClientApp.step evpSha256)
        (ClientApp.downloadFile (fun _ => some [1]) (ascii "a") (ascii "b"))
        hangupTurns) := by
  let acc : FileAcceptMsg := { sha256 := ⟨List.replicate 32 1, rfl⟩ }
  have decoded : FileAcceptMsg.decode acc.encode = .ok acc :=
    FileAcceptMsg.decode_ok_iff.mpr ⟨[], (List.append_nil _).symm⟩
  let asked : ClientApp :=
    { phase := .downloadRequested (ascii "b")
      files := fun _ => some [1]
      answered := 0 }
  have accepted :
      asked.downloadAnswered {} (ascii "b")
          (some ⟨.known .fileAccept, acc.encode⟩) =
        { phase := .receivingBlocks acc { path := ascii "b" } .empty 0
          files := filesAfter asked.files [.openTrunc (ascii "b") true]
          answered := 1 } := by
    simp [ClientApp.downloadAnswered, decoded, asked]
  have runs :
      StepRuns.run (ClientApp.step evpSha256)
          (ClientApp.downloadFile (fun _ => some [1]) (ascii "a") (ascii "b"))
          hangupTurns =
        (asked.downloadAnswered {} (ascii "b")
          (some ⟨.known .fileAccept, acc.encode⟩)).step evpSha256 {} :=
    rfl
  rw [runs, accepted]
  intro atomic
  have unchanged := atomic.unchanged rfl
  have emptied := (OfStream.trails_opened
    (FileStore.apply_truncate asked.files (ascii "b"))).close 0
  have lost : some [] = some [(1 : UInt8)] :=
    emptied.symm.trans unchanged
  cases lost

end Downloads

end RadminPro
