import RadminPro.UploadIntegrity

namespace RadminPro

open ByteCodec

/-!
# Contested temporary files

Not every run is free of requests that lay hands on the temporary file of an open
upload.  An observer beside the run notes which files are contested that way, and
until when.  What is said of an upload holds as long as its own file is not among
them, whatever happens to the others.
-/

section Contest

variable {Thread : Type}

/-- The path is that of the temporary file of an open upload. -/
def FileServer.InUse (server : FileServer Thread) (path : Path) : Prop :=
  ∃ thread id st, server.uploads thread id = some st ∧ st.tempPath = path

/-- Whether a file is in use can be read off the entries of all sessions. -/
theorem inUse_iff
    {server : FileServer Thread}
    {path : Path} :
    (∃ thread, ∃ entry ∈ (server.sessions thread).phase.entries,
        entry.2.tempPath = path) ↔
      server.InUse path := by
  constructor
  · rintro ⟨thread, entry, member, same⟩
    exact ⟨thread, entry.1, entry.2, mem_entries.mp member, same⟩
  · rintro ⟨thread, id, st, found, same⟩
    exact ⟨thread, (id, st), mem_entries.mpr found, same⟩

instance
    [Fintype Thread]
    (server : FileServer Thread)
    (path : Path) :
    Decidable (server.InUse path) :=
  decidable_of_iff _ inUse_iff

variable [DecidableEq Thread]

/--
A file is contested from when a turn lays hands on it while an upload has it in
use, until no upload has it in use any more.
-/
def contestedAfter
    (sha256 : Bytes → Hash256)
    (setup : Thread → SessionSetup)
    (server : FileServer Thread)
    (input : Thread × Turn)
    (contested : Path → Prop)
    (path : Path) : Prop :=
  (contested path ∨
      path ∈
          turnClaims sha256 (setup input.1) (server.sessions input.1) input.2 ∧
        server.InUse path) ∧
    (server.step sha256 setup input).InUse path

variable {sha256 : Bytes → Hash256}
variable {setup : Thread → SessionSetup}
variable {server : FileServer Thread}
variable {input : Thread × Turn}
variable {contested : Path → Prop}

/-- Every turn keeps the uploads untangled whose files are not contested. -/
theorem untangled_contested
    (untangled : Untangled contested server) :
    Untangled (contestedAfter sha256 setup server input contested)
      (server.step sha256 setup input) := by
  -- First the files join that are claimed now, then those leave that are free.
  let claimed : Path → Prop := fun path =>
    contested path ∨
      path ∈
          turnClaims sha256 (setup input.1) (server.sessions input.1) input.2 ∧
        server.InUse path
  have joined : Untangled claimed server :=
    { tidy := untangled.tidy.contest fun _ _ _ _ known => .inl known
      chronicle := untangled.chronicle }
  have stepped : Untangled claimed (server.step sha256 setup input) := by
    apply untangled_step _ joined
    intro path isClaimed thread id st found same
    exact .inr ⟨isClaimed, thread, id, st, found, same.symm⟩
  refine ⟨stepped.tidy.contest ?_, stepped.chronicle⟩
  intro thread id st found known
  exact ⟨known, thread, id, st, found, rfl⟩

/-- A file that is never claimed while it is in use is never contested. -/
theorem not_contested
    {start : FileServer Thread}
    {inputs : List (Thread × Turn)}
    {path : Path}
    (spared :
      StepRuns.Allowed (FileServer.step sha256 setup)
        (fun server input =>
          path ∈
              turnClaims sha256 (setup input.1) (server.sessions input.1)
                input.2 →
            ¬server.InUse path)
        start inputs)
    (fresh : ¬contested path) :
    ¬(StepRuns.run
        (StepRuns.watched (FileServer.step sha256 setup)
          (contestedAfter sha256 setup))
        (start, contested) inputs).2 path := by
  have preserved :
      ∀ (server : FileServer Thread) (note : Path → Prop)
        (input : Thread × Turn),
        (path ∈
            turnClaims sha256 (setup input.1) (server.sessions input.1)
              input.2 →
          ¬server.InUse path) →
        ¬note path →
        ¬contestedAfter sha256 setup server input note path := by
    rintro server note input free unnoted ⟨known | ⟨claimed, inUse⟩, _⟩
    · exact unnoted known
    · exact free claimed inUse
  exact spared.watched_invariant preserved fresh

/--
In every run in which no write fails, whatever requests it brings, an upload that
is reported holds its own blocks if its temporary file is not contested and its
place is not the temporary file of another.
-/
theorem uncontested_uploads_isolated
    (sha256 : Bytes → Hash256)
    (setup : Thread → SessionSetup)
    (files : Files)
    (inputs : List (Thread × Turn))
    (land :
      StepRuns.Allowed (FileServer.step sha256 setup) WritesLand
        (.started files) inputs) :
    StepRuns.Allowed
      (StepRuns.watched (FileServer.step sha256 setup)
        (contestedAfter sha256 setup))
      (fun now input =>
        PlacesUnshared sha256 now.2 now.1 input →
          Isolated sha256 setup now.1 input)
      (.started files, fun _ => False) inputs := by
  have preserved :
      ∀ (server : FileServer Thread) (contested : Path → Prop)
        (input : Thread × Turn),
        WritesLand server input →
        Untangled contested server ∧ AllGood server →
        Untangled (contestedAfter sha256 setup server input contested)
            (server.step sha256 setup input) ∧
          AllGood (server.step sha256 setup input) := by
    rintro server contested input lands ⟨untangled, good⟩
    exact ⟨untangled_contested untangled, good_step lands.1 good⟩
  refine land.watched preserved ?_
    ⟨untangled_started files, fun _ _ _ found => by cases found⟩
  rintro server contested input lands ⟨untangled, good⟩ unshared
  exact isolated_turn unshared lands untangled good

/-- Two uploads that share a file, and one to another path that is not completed. -/
def besideShared : List (Unit × Turn) :=
  sideBySide (ascii "a") false ++
    [twoByteTurn .fileUploadReq
        (FileUploadReqMsg.encode
          { remotePath := ascii "b", size := 2, sha256 := evpSha256 [7, 8] }),
      twoByteTurn .fileBlock
        (FileBlockMsg.encode { transferId := 3, sequence := 0, data := [7, 8] })]

theorem uncontested_uploads_isolated_beside :
    let now :=
      StepRuns.run
        (StepRuns.watched (FileServer.step evpSha256 fun _ => folderSetup)
          (contestedAfter evpSha256 fun _ => folderSetup))
        (.started fun _ => none, fun _ => False) besideShared
    (now.1.step evpSha256 (fun _ => folderSetup)
        (twoByteTurn .fileComplete (putU32 3))).files
      (ascii "C:\\share\\b") = some [7, 8] := by
  intro now
  have reported :
      .send (.known .fileVerify) (FileVerifyMsg.encode ⟨3, .known .ok⟩) true ∈
        turnEffects evpSha256 folderSetup (now.1.sessions ())
          (twoByteTurn .fileComplete (putU32 3)).2 := by
    decide +kernel
  have ownData :
      (ownUpload 3 (now.1.sessions ()).trace).map Prod.snd = some [7, 8] := by
    decide +kernel
  have paths :
      (now.1.uploads () 3).map (fun st => (st.finalPath, st.tempPath)) =
        some (ascii "C:\\share\\b", ascii "C:\\share\\b.part") := by
    decide +kernel
  have isPaths :
      ∀ st,
        now.1.uploads () 3 = some st →
        st.finalPath = ascii "C:\\share\\b" ∧
          st.tempPath = ascii "C:\\share\\b.part" := by
    intro st found
    have both := eq_of_map_eq paths found
    exact Prod.mk.inj both
  have unshared :
      PlacesUnshared evpSha256 now.2 now.1
        (twoByteTurn .fileComplete (putU32 3)) := by
    rintro id st ⟨completing, _⟩
    have isOpen : now.1.uploads () id = some st := completing.isOpen
    obtain ⟨ctx, loop, m, _, _, read, _, decoded, _⟩ := completing
    cases read
    have isThird : parseAll ByteReader.u32 (putU32 3) = .ok 3 := by
      decide
    rw [isThird, Except.ok.injEq] at decoded
    subst decoded
    obtain ⟨isFinal, isTemp⟩ := isPaths st isOpen
    refine ⟨?_, ?_⟩
    · rw [isTemp]
      exact not_contested (by decide +kernel) not_false
    · intro otherId other found
      have apart :
          ∀ entry ∈ (now.1.sessions ()).phase.entries,
            ascii "C:\\share\\b" ≠ entry.2.tempPath := by
        decide +kernel
      rw [isFinal]
      exact apart (otherId, other) (mem_entries.mpr found)
  have isolated :=
    (uncontested_uploads_isolated evpSha256 (fun _ => folderSetup)
      (fun _ => none)
      (besideShared ++ [twoByteTurn .fileComplete (putU32 3)])
      (by decide +kernel)).at unshared
  obtain ⟨st, req, data, isOpen, own, placed⟩ :=
    isolated _ reported ⟨3, .known .ok⟩ (verdictOf_send _ _) rfl
  have isData : data = [7, 8] :=
    eq_of_map_eq ownData own
  rw [← isData, ← (isPaths st isOpen).1]
  exact placed

/--
In every run, whatever the disk and the requests do, an upload that is reported is
as declared exactly if all of it had landed, if its temporary file is not contested
and its place is not the temporary file of another.
-/
theorem uncontested_uploads_backed_iff
    (sha256 : Bytes → Hash256)
    (setup : Thread → SessionSetup)
    (files : Files)
    (inputs : List (Thread × Turn)) :
    StepRuns.Allowed
      (StepRuns.watched (FileServer.step sha256 setup)
        (contestedAfter sha256 setup))
      (fun now input =>
        PlacesUnshared sha256 now.2 now.1 input →
          (Backed sha256 setup now.1 input ↔ LandsWhole sha256 now.1 input))
      (.started files, fun _ => False) inputs := by
  have any :
      StepRuns.Allowed (FileServer.step sha256 setup) (fun _ _ => True)
        (.started files) inputs :=
    .of_forall (fun _ _ _ => trivial) _
  have preserved :
      ∀ (server : FileServer Thread) (contested : Path → Prop)
        (input : Thread × Turn),
        True →
        Untangled contested server →
        Untangled (contestedAfter sha256 setup server input contested)
          (server.step sha256 setup input) :=
    fun _ _ _ _ untangled => untangled_contested untangled
  refine any.watched preserved ?_ (untangled_started files)
  intro server contested input _ untangled unshared
  exact backed_iff_landsWhole unshared untangled

/-- An upload of two bytes to `a`, but for the message that completes it. -/
def uploadToA : List (Unit × Turn) :=
  (loginTurns {} [] R_FileTransfer (.known .fileOnly)).map
      (fun turn => ((), turn)) ++
    [((),
        messageTurn .fileUploadReq
          (FileUploadReqMsg.encode
            { remotePath := ascii "a", size := 2, sha256 := evpSha256 [1, 2] })),
      ((),
        messageTurn .fileBlock
          (FileBlockMsg.encode
            { transferId := 1, sequence := 0, data := [1, 2] }))]

/-- On a disk that is full when the file is closed an empty file is reported. -/
theorem empty_file_reported :
    ¬StepRuns.Allowed (FileServer.step evpSha256 fun _ => folderSetup)
      (Backed evpSha256 fun _ => folderSetup)
      (.started fun _ => none)
      (uploadToA ++ [((), messageTurn .fileComplete (putU32 1))]) := by
  intro backed
  let server : FileServer Unit :=
    StepRuns.run (FileServer.step evpSha256 fun _ => folderSetup)
      (.started fun _ => none) uploadToA
  have last : Backed evpSha256 (fun _ => folderSetup) server
      ((), messageTurn .fileComplete (putU32 1)) :=
    backed.at
  have reported :
      .send (.known .fileVerify) (FileVerifyMsg.encode ⟨1, .known .ok⟩) true ∈
        turnEffects evpSha256 folderSetup (server.sessions ())
          (messageTurn .fileComplete (putU32 1)) := by
    decide +kernel
  obtain ⟨id, st, req, data, content, isOpen, named, _, own, placed, size, _⟩ :=
    last _ reported (.inl ⟨_, verdictOf_send _ _, rfl⟩)
  obtain rfl : 1 = id := named ⟨1, .known .ok⟩ (verdictOf_send _ _)
  have finalPath :
      (server.uploads () 1).map UploadState.finalPath =
        some (ascii "C:\\share\\a") := by
    decide +kernel
  have declared :
      (ownUpload 1 (server.sessions ()).trace).map
        (fun entry => entry.1.size) = some 2 := by
    decide +kernel
  have stored :
      (server.step evpSha256 (fun _ => folderSetup)
          ((), messageTurn .fileComplete (putU32 1))).files
        (ascii "C:\\share\\a") = some [] := by
    decide +kernel
  have isFinal : st.finalPath = ascii "C:\\share\\a" :=
    eq_of_map_eq finalPath isOpen
  have isSize := eq_of_map_eq declared own
  rw [isFinal, stored, Option.some.injEq] at placed
  dsimp only at isSize
  rw [← placed, isSize] at size
  cases size

end Contest

end RadminPro
