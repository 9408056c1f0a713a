import RadminPro.StoreOperations

namespace RadminPro

open ByteCodec
open AtomicStore

/-!
# The server as an atomic store

However the messages of the sessions interleave, their files are those of one
atomic store that was given the granted operations one by one, in the order of
the turns that granted them.  This needs writes that do not fail, clients that
ask for no temporary file and do not upload to one place at a time, moves of
files and not of folders, and downloads that read what is on disk.
-/

/-- What a turn means to the store. -/
def turnOperations
    (sha256 : Bytes → Hash256)
    (setup : SessionSetup)
    (session : Session)
    (turn : Turn) : List StoreOperation :=
  match session.phase, turn.running, turn.read with
  | .live ctx loop, true, .ok m =>
      match handle sha256 setup ctx turn.outside loop m with
      | .ok outcome =>
          operationsOf setup turn.outside loop session.trace m outcome.effects
      | .error _ => []
  | _, _, _ => []

/-- The message that a read returned. -/
def ReadResult.message? : ReadResult → Option Message
  | .ok m => some m
  | .timeout | .closed => none

section Servers

variable {Thread : Type}

/-- What a turn of one session means to the store. -/
def FileServer.operations
    (sha256 : Bytes → Hash256)
    (setup : Thread → SessionSetup)
    (server : FileServer Thread)
    (input : Thread × Turn) : List StoreOperation :=
  turnOperations sha256 (setup input.1) (server.sessions input.1) input.2

/-- The files of the server that are not temporary. -/
def FileServer.store (server : FileServer Thread) :
    FileStore.Store Path UInt8 :=
  visible IsPart server.files

/--
A turn whose writes land, that asks for no temporary file and for no upload to a
place that one is under way to, that moves a file if anything, and that
downloads what is on disk.
-/
structure Regular
    (setup : Thread → SessionSetup)
    (server : FileServer Thread)
    (input : Thread × Turn) : Prop where
  lands : WritesLand server input
  plain :
    ∀ m ∈ input.2.read.message?,
      ∀ path ∈ requestedPaths input.2.outside (setup input.1).fileRoot m,
        ¬IsPart path
  apart :
    ∀ m ∈ input.2.read.message?,
      m.op = .known .fileUploadReq →
      ∀ path ∈ requestedPaths input.2.outside (setup input.1).fileRoot m,
        ∀ thread id st,
          server.uploads thread id = some st → path ≠ st.finalPath
  moves :
    ∀ m ∈ input.2.read.message?,
      m.op = .known .fileMove →
      input.2.outside.renamed = true →
      ∀ src ∈ (requestedPaths input.2.outside (setup input.1).fileRoot m).head?,
        (server.files src).isSome = true
  reads :
    ∀ m ∈ input.2.read.message?,
      m.op = .known .fileDownloadReq →
      input.2.outside.content =
        (requestedPaths input.2.outside (setup input.1).fileRoot m).head?.bind
          server.files

/-- Whether a turn is regular can be read off the entries of all sessions. -/
theorem regular_iff
    {setup : Thread → SessionSetup}
    {server : FileServer Thread}
    {input : Thread × Turn} :
    (WritesLand server input ∧
        (∀ m ∈ input.2.read.message?,
          ∀ path ∈ requestedPaths input.2.outside (setup input.1).fileRoot m,
            ¬IsPart path) ∧
        (∀ m ∈ input.2.read.message?,
          m.op = .known .fileUploadReq →
          ∀ path ∈ requestedPaths input.2.outside (setup input.1).fileRoot m,
            ∀ thread, ∀ entry ∈ (server.sessions thread).phase.entries,
              path ≠ entry.2.finalPath) ∧
        (∀ m ∈ input.2.read.message?,
          m.op = .known .fileMove →
          input.2.outside.renamed = true →
          ∀ src ∈
              (requestedPaths input.2.outside (setup input.1).fileRoot m).head?,
            (server.files src).isSome = true) ∧
        ∀ m ∈ input.2.read.message?,
          m.op = .known .fileDownloadReq →
          input.2.outside.content =
            (requestedPaths input.2.outside (setup input.1).fileRoot m).head?.bind
              server.files) ↔
      Regular setup server input := by
  constructor
  · rintro ⟨lands, plain, apart, moves, reads⟩
    refine ⟨lands, plain, ?_, moves, reads⟩
    intro m isRead op path requested thread id st found
    exact apart m isRead op path requested thread (id, st)
      (mem_entries.mpr found)
  · intro regular
    refine ⟨regular.lands, regular.plain, ?_, regular.moves, regular.reads⟩
    intro m isRead op path requested thread entry member
    exact regular.apart m isRead op path requested thread entry.1 entry.2
      (mem_entries.mp member)

instance
    [Fintype Thread]
    (setup : Thread → SessionSetup)
    (server : FileServer Thread)
    (input : Thread × Turn) :
    Decidable (Regular setup server input) :=
  decidable_of_iff _ regular_iff

/-- The uploads of a server are in order, and go to files that are not hidden. -/
structure Sorted (server : FileServer Thread) : Prop where
  untangled : Untangled (fun _ => False) server
  good : AllGood server
  plain :
    ∀ thread id st, server.uploads thread id = some st → ¬IsPart st.finalPath

variable {sha256 : Bytes → Hash256}
variable {setup : Thread → SessionSetup}
variable {server : FileServer Thread}
variable {input : Thread × Turn}

/-- The stream and the temporary file of an upload are hidden. -/
theorem UploadState.OnDisk.hidden
    {files : Files}
    {st : UploadState}
    (onDisk : st.OnDisk files) :
    IsPart st.out.path ∧ IsPart st.tempPath := by
  have isTemp : IsPart st.tempPath := by
    rw [onDisk.tempPath]
    exact List.suffix_append st.finalPath _
  exact ⟨onDisk.path ▸ isTemp, isTemp⟩

/-- A regular turn leaves the temporary files of open uploads alone. -/
theorem Regular.exclusive
    (regular : Regular setup server input)
    (sorted : Sorted server) :
    Exclusive sha256 setup server input := by
  intro path claimed thread id st found
  have onDisk := sorted.untangled.tidy.onDisk thread id st found not_false
  have distinct : ∀ {other : Path}, ¬IsPart other → other ≠ st.tempPath := by
    rintro other plain rfl
    exact plain onDisk.hidden.2
  unfold turnClaims at claimed
  split at claimed
  · next ctx loop m live running read =>
      have isRead : m ∈ input.2.read.message? := by
        rw [read]
        rfl
      unfold claimedPaths at claimed
      split at claimed
      · next op =>
          split at claimed
          · obtain ⟨dest, requested, rfl⟩ := List.mem_map.mp claimed
            rw [onDisk.tempPath]
            intro same
            exact regular.apart m isRead op dest requested thread id st found
              (List.append_cancel_right same)
          · cases claimed
      · next op =>
          split at claimed
          · next doneId decoded =>
              split at claimed
              · next done isOpen =>
                  split at claimed
                  · rw [List.mem_singleton.mp claimed]
                    apply distinct
                    apply sorted.plain input.1 doneId done
                    rw [uploads_live live]
                    exact isOpen
                  · cases claimed
              · cases claimed
          · cases claimed
      · next op =>
          split at claimed
          · exact distinct (regular.plain m isRead path claimed)
          · cases claimed
      · next op =>
          split at claimed
          · exact distinct (regular.plain m isRead path claimed)
          · cases claimed
      · cases claimed
  · cases claimed

/-- A message of a regular turn can rely on what the store needs. -/
theorem Regular.reliable
    {ctx : SessionContext}
    {loop : LoopState}
    {m : Message}
    (regular : Regular setup server input)
    (sorted : Sorted server)
    (live : (server.sessions input.1).phase = .live ctx loop)
    (read : input.2.read = .ok m) :
    Reliable (setup input.1) input.2.outside loop
      (server.sessions input.1).trace server.files m where
  closing := by
    intro id st found
    have isOpen : server.uploads input.1 id = some st := by
      rw [uploads_live live]
      exact found
    exact
      { onDisk := sorted.untangled.tidy.onDisk input.1 id st isOpen not_false
        plain := sorted.plain input.1 id st isOpen
        good := sorted.good input.1 id st isOpen
        lands := regular.lands.2 id st isOpen
        recorded := sorted.untangled.chronicle input.1 id st isOpen }
  plain := regular.plain m (by rw [read]; rfl)
  moves := regular.moves m (by rw [read]; rfl)
  reads := regular.reads m (by rw [read]; rfl)

/-- A server that has just started has no uploads. -/
theorem sorted_started (files : Files) :
    Sorted (FileServer.started files : FileServer Thread) where
  untangled := untangled_started files
  good := fun _ _ _ found => by cases found
  plain := fun _ _ _ found => by cases found

variable [DecidableEq Thread]

/-- Regular turns keep the uploads in order. -/
theorem Sorted.step
    (sorted : Sorted server)
    (regular : Regular setup server input) :
    Sorted (server.step sha256 setup input) where
  untangled := untangled_step (regular.exclusive sorted) sorted.untangled
  good := good_step regular.lands.1 sorted.good
  plain := by
    intro thread
    rw [FileServer.step_uploads]
    by_cases same : thread = input.1
    · subst same
      rw [Function.update_self]
      apply turn_keeps
      · intro m req dest read requested
        exact regular.plain m (by rw [read]; rfl) dest requested
      · exact fun _ _ plain => plain
      · exact sorted.plain input.1
    · rw [Function.update_of_ne same]
      exact sorted.plain thread

/-- A regular turn is what its operations do to the store. -/
theorem Sorted.performs
    (sorted : Sorted server)
    (regular : Regular setup server input) :
    Legal server.store (server.operations sha256 setup input) ∧
      (server.step sha256 setup input).store =
        StepRuns.run perform server.store
          (server.operations sha256 setup input) := by
  have inverted :=
    turn_uploadTurn sha256 (setup input.1) (server.sessions input.1).phase
      input.2
  have stepped :
      (server.step sha256 setup input).store =
        visible IsPart
          (filesAfter server.files
            ((server.sessions input.1).phase.turn sha256 (setup input.1)
              input.2).2) :=
    rfl
  rw [stepped]
  generalize
    (server.sessions input.1).phase.turn sha256 (setup input.1) input.2 = result
    at inverted ⊢
  have idle
      {effects : List Effect}
      (nothing : server.operations sha256 setup input = [])
      (same :
        visible IsPart (filesAfter server.files effects) =
          visible IsPart server.files) :
      Legal server.store (server.operations sha256 setup input) ∧
        visible IsPart (filesAfter server.files effects) =
          StepRuns.run perform server.store
            (server.operations sha256 setup input) := by
    rw [nothing]
    exact ⟨trivial, same⟩
  cases inverted with
  | outside notLive cleared only =>
      apply idle
      · unfold FileServer.operations turnOperations
        split
        · next ctx loop m live running read => exact (notLive ctx loop live).elim
        · rfl
      · apply congrArg (visible IsPart)
        exact filesAfter_unchanged _ fun effect member => (only effect member).1
  | @unread ctx loop next rest live noMessage ends =>
      apply idle
      · unfold FileServer.operations turnOperations
        split
        · next ctx' loop' m isLive running read =>
            exact (noMessage m running read).elim
        · rfl
      · apply ends.hidden
        intro id st found
        apply (sorted.untangled.tidy.onDisk input.1 id st ?_ not_false).hidden
        rw [uploads_live live]
        exact found
  | @handled ctx loop m outcome next rest live running read isHandled deals ends =>
      have performed :=
        handle_performs isHandled (regular.reliable sorted live read)
      have granted :
          server.operations sha256 setup input =
            operationsOf (setup input.1) input.2.outside loop
              (server.sessions input.1).trace m outcome.effects := by
        simp [FileServer.operations, turnOperations, live, running, read,
          isHandled]
      rw [granted]
      refine ⟨performed.1, ?_⟩
      have tidy :
          Tidy (fun _ => False)
            (Function.update server.uploads input.1
              fun id => outcome.loop.uploads[id]?)
            (filesAfter server.files outcome.effects) := by
        apply sorted.untangled.tidy.deals (uploads_live live) deals
        intro path claimed
        apply regular.exclusive sorted path
        rw [turnClaims_live live running read]
        exact claimed
      calc
        visible IsPart
            (filesAfter server.files (.received m :: (outcome.effects ++ rest)))
          = visible IsPart
              (filesAfter (filesAfter server.files outcome.effects) rest) := by
          rw [filesAfter_cons_unchanged rfl, filesAfter_append]
        _ = visible IsPart (filesAfter server.files outcome.effects) := by
          apply ends.hidden
          intro id st found
          apply (tidy.onDisk input.1 id st ?_ not_false).hidden
          rw [Function.update_self]
          exact found
        _ = _ := performed.2
  | threw live running read failed =>
      apply idle
      · simp [FileServer.operations, turnOperations, live, running, read, failed]
      · rfl

/--
In every run of regular turns the visible files are those of an atomic store that
performs the granted operations one after the other, and every download gets what
the store holds at its place in that order.
-/
theorem server_refines_store
    (sha256 : Bytes → Hash256)
    (setup : Thread → SessionSetup)
    (files : Files)
    (inputs : List (Thread × Turn))
    (regular :
      StepRuns.Allowed (FileServer.step sha256 setup) (Regular setup)
        (.started files) inputs) :
    let operations :=
      StepRuns.history (FileServer.step sha256 setup)
        (FileServer.operations sha256 setup) (.started files) inputs
    Legal (visible IsPart files) operations ∧
      (StepRuns.run (FileServer.step sha256 setup) (.started files)
          inputs).store =
        StepRuns.run perform (visible IsPart files) operations :=
  StepRuns.refines_run (fun _ _ sorted now => sorted.step now)
    (fun _ _ sorted now => sorted.performs now) (sorted_started files) regular

end Servers

/-- Two uploads side by side, a move of what the first one left and its download. -/
def sharedRun : List (Unit × Turn) :=
  sideBySide (ascii "b") true ++
    [twoByteTurn .fileComplete (putU32 2),
      ((), messageTurn .fileMove (FileMoveMsg.encode ⟨ascii "a", ascii "c"⟩)),
      ((),
        { messageTurn .fileDownloadReq (putString (ascii "c")) with
          outside := { content := some [1, 2] } })]

theorem server_refines_store_shared :
    let operations :=
      StepRuns.history (FileServer.step evpSha256 fun _ => folderSetup)
        (FileServer.operations evpSha256 fun _ => folderSetup)
        (.started fun _ => none) sharedRun
    operations =
        [.put (ascii "C:\\share\\a") [1, 2], .put (ascii "C:\\share\\b") [9],
          .move (ascii "C:\\share\\a") (ascii "C:\\share\\c"),
          .get (ascii "C:\\share\\c") [1, 2]] ∧
      Legal (visible IsPart fun _ => none) operations ∧
      (StepRuns.run (FileServer.step evpSha256 fun _ => folderSetup)
          (.started fun _ => none) sharedRun).store =
        StepRuns.run perform (visible IsPart fun _ => none) operations :=
  ⟨by decide +kernel,
    server_refines_store evpSha256 (fun _ => folderSetup) (fun _ => none)
      sharedRun (by decide +kernel)⟩

end RadminPro
