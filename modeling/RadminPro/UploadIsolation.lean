import RadminPro.SharedUploads

namespace RadminPro

open ByteCodec

/-!
# Isolation of uploads

Uploads may run side by side, in one session or in several.  An upload that is
reported to be in place holds its own blocks, as long as no request lays hands
on the temporary file of an upload that is still open.  Two uploads to one
destination do: they share their temporary file.
-/

section Isolation

variable {Thread : Type}

/-- A server that has just started, with whatever is on its disk. -/
def FileServer.started (files : Files) : FileServer Thread where
  sessions := fun _ => {}
  files := files

variable [DecidableEq Thread]

/-- An upload that a turn reports as `Ok` is in its place, block for block. -/
def Isolated
    (sha256 : Bytes → Hash256)
    (setup : Thread → SessionSetup)
    (server : FileServer Thread)
    (input : Thread × Turn) : Prop :=
  ∀ effect ∈
      turnEffects sha256 (setup input.1) (server.sessions input.1) input.2,
    ∀ v,
      verdictOf effect = some v →
      v.status = .known .ok →
      ∃ st req data,
        server.uploads input.1 v.transferId = some st ∧
          ownUpload v.transferId (server.sessions input.1).trace =
            some (req, data) ∧
          (server.step sha256 setup input).files st.finalPath = some data

/-- Nothing that is written in a turn fails or is cut short. -/
def WritesLand
    (server : FileServer Thread)
    (input : Thread × Turn) : Prop :=
  input.2.outside.flush.ok = true ∧
    ∀ id st,
      server.uploads input.1 id = some st →
      st.out.buffered.length ≤ input.2.outside.flushedAtClose

/-- Whether everything lands can be read off the entries of the session. -/
theorem writesLand_iff
    {Thread : Type}
    {server : FileServer Thread}
    {input : Thread × Turn} :
    (input.2.outside.flush.ok = true ∧
        ∀ entry ∈ (server.sessions input.1).phase.entries,
          entry.2.out.buffered.length ≤ input.2.outside.flushedAtClose) ↔
      WritesLand server input := by
  refine and_congr_right fun _ => ⟨?_, ?_⟩
  · exact fun each id st found => each (id, st) (mem_entries.mpr found)
  · exact fun land entry member =>
      land entry.1 entry.2 (mem_entries.mp member)

instance
    (server : FileServer Thread)
    (input : Thread × Turn) :
    Decidable (WritesLand server input) :=
  decidable_of_iff _ writesLand_iff

/-- The uploads of a server follow their records and have their files. -/
structure Untangled
    (contested : Path → Prop)
    (server : FileServer Thread) : Prop where
  tidy : Tidy contested server.uploads server.files
  chronicle :
    ∀ thread, Chronicle (server.sessions thread).trace (server.uploads thread)

/-- No write to an open upload has failed. -/
def AllGood (server : FileServer Thread) : Prop :=
  ∀ thread id st, server.uploads thread id = some st → st.out.good = true

variable {sha256 : Bytes → Hash256}
variable {setup : Thread → SessionSetup}
variable {server : FileServer Thread}
variable {input : Thread × Turn}
variable {contested : Path → Prop}

omit [DecidableEq Thread] in
/-- A server that has just started has no uploads. -/
theorem untangled_started (files : Files) :
    Untangled contested (FileServer.started files : FileServer Thread) where
  tidy :=
    { path := fun _ _ _ found => by cases found
      onDisk := fun _ _ _ found => by cases found
      apart := fun _ _ _ _ _ _ found => by cases found }
  chronicle := fun _ _ _ found => by cases found

/-- A turn keeps the uploads untangled but for what it claims of theirs. -/
theorem untangled_step
    (claims :
      ∀ path ∈
          turnClaims sha256 (setup input.1) (server.sessions input.1) input.2,
        ∀ thread id st,
          server.uploads thread id = some st →
          path = st.tempPath →
          contested path)
    (untangled : Untangled contested server) :
    Untangled contested (server.step sha256 setup input) where
  tidy := tidy_step claims untangled.tidy
  chronicle := by
    intro thread
    rw [FileServer.uploads, FileServer.step]
    dsimp only
    by_cases same : thread = input.1
    · rw [same, Function.update_self]
      exact chronicle_step sha256 (setup input.1) _ input.2
        (untangled.chronicle input.1)
    · rw [Function.update_of_ne same]
      exact untangled.chronicle thread

/-- A turn whose writes succeed leaves all streams good. -/
theorem good_step
    (ok : input.2.outside.flush.ok = true)
    (good : AllGood server) :
    AllGood (server.step sha256 setup input) := by
  intro thread
  rw [FileServer.step_uploads]
  by_cases same : thread = input.1
  · subst same
    rw [Function.update_self]
    apply turn_keeps
    · exact fun _ _ _ _ _ => rfl
    · intro st data isGood
      rw [UploadState.block, OfStream.write_good isGood]
      exact ok
    · exact good input.1
  · rw [Function.update_of_ne same]
    exact good thread

/-- No other upload of the session has its temporary file in the place of this. -/
def PlaceFree
    (server : FileServer Thread)
    (thread : Thread)
    (st : UploadState) : Prop :=
  ∀ id other,
    server.uploads thread id = some other → st.finalPath ≠ other.tempPath

/-- An upload that the turn puts in place shares no file with another one. -/
def PlacesUnshared
    (sha256 : Bytes → Hash256)
    (contested : Path → Prop)
    (server : FileServer Thread)
    (input : Thread × Turn) : Prop :=
  ∀ id st,
    Placing sha256 (server.sessions input.1) input.2 id st →
    ¬contested st.tempPath ∧ PlaceFree server input.1 st

omit [DecidableEq Thread] in
/-- An exclusive turn puts nothing in the place of a temporary file. -/
theorem Exclusive.placesUnshared
    (exclusive : Exclusive sha256 setup server input) :
    PlacesUnshared sha256 (fun _ => False) server input := by
  intro id st placing
  refine ⟨not_false, ?_⟩
  exact exclusive st.finalPath (placing.claims (setup input.1)) input.1

/-- Where the streams are good and everything lands, what is unshared is there. -/
theorem isolated_turn
    (unshared : PlacesUnshared sha256 contested server input)
    (land : WritesLand server input)
    (untangled : Untangled contested server)
    (good : AllGood server) :
    Isolated sha256 setup server input := by
  intro effect member v isVerdict isOk
  obtain ⟨id, st, placing, named, _⟩ :=
    placing_of_reportsPlaced member (.inl ⟨v, isVerdict, isOk⟩)
  have sameId : v.transferId = id := named v isVerdict
  have isOpen := placing.1.isOpen
  obtain ⟨own, free⟩ := unshared id st placing
  obtain ⟨⟨req, data⟩, isOwn, follows⟩ :=
    untangled.chronicle input.1 id st isOpen
  have onDisk := untangled.tidy.onDisk input.1 id st isOpen own
  refine ⟨st, req, data, sameId ▸ isOpen, sameId ▸ isOwn, ?_⟩
  rw [placing.files untangled.tidy own free, UploadState.stored,
    onDisk.landed_all (good _ _ _ isOpen) (land.2 id st isOpen),
    List.take_length, follows.fed]

/--
Where no write fails, every upload that is reported holds its own blocks if no
request of the run lays hands on the temporary file of an upload that is open.
-/
theorem uploads_isolated
    (sha256 : Bytes → Hash256)
    (setup : Thread → SessionSetup)
    (files : Files)
    (inputs : List (Thread × Turn))
    (land :
      StepRuns.Allowed (FileServer.step sha256 setup) WritesLand
        (.started files) inputs)
    (exclusive :
      StepRuns.Allowed (FileServer.step sha256 setup) (Exclusive sha256 setup)
        (.started files) inputs) :
    StepRuns.Allowed (FileServer.step sha256 setup) (Isolated sha256 setup)
      (.started files) inputs := by
  have both := exclusive.and land
  apply StepRuns.Allowed.of_at
  intro earlier input later split
  rw [split] at both
  have reached := (StepRuns.allowed_append.mp both).1
  have untangled :
      Untangled (fun _ => False) (StepRuns.run (FileServer.step sha256 setup)
        (.started files) earlier) :=
    reached.invariant (fun _ _ now => untangled_step now.1) (untangled_started files)
  have good :
      AllGood (StepRuns.run (FileServer.step sha256 setup)
        (.started files) earlier) :=
    reached.invariant (fun _ _ now => good_step now.2.1)
      (fun _ _ _ found => by cases found)
  exact isolated_turn both.at.1.placesUnshared both.at.2 untangled good

/-- What is known of a value that may be missing is known of the value found. -/
theorem eq_of_map_eq
    {α β : Type}
    {read : α → β}
    {found : Option α}
    {value : α}
    {known : β}
    (isKnown : found.map read = some known)
    (isValue : found = some value) :
    read value = known := by
  rw [isValue] at isKnown
  exact Option.some.inj isKnown

/-- A turn whose closes hand over two bytes. -/
def twoByteTurn (name : OpName) (payload : Bytes) : Unit × Turn :=
  ((), { messageTurn name payload with outside := { flushedAtClose := 2 } })

/--
An upload to `a` and a shorter one to another path, but for the message that
completes the second.
-/
def sideBySide (other : Bytes) (renamed : Bool) : List (Unit × Turn) :=
  (loginTurns { flushedAtClose := 2 } [] R_FileTransfer (.known .fileOnly)).map
      (fun turn => ((), turn)) ++
    [twoByteTurn .fileUploadReq
        (FileUploadReqMsg.encode
          { remotePath := ascii "a", size := 2, sha256 := evpSha256 [1, 2] }),
      twoByteTurn .fileUploadReq
        (FileUploadReqMsg.encode
          { remotePath := other, size := 1, sha256 := evpSha256 [9] }),
      twoByteTurn .fileBlock
        (FileBlockMsg.encode { transferId := 1, sequence := 0, data := [1, 2] }),
      twoByteTurn .fileBlock
        (FileBlockMsg.encode { transferId := 2, sequence := 0, data := [9] }),
      ((),
        { messageTurn .fileComplete (putU32 1) with
          outside := { flushedAtClose := 2, renamed, removed := renamed } })]

theorem uploads_isolated_apart :
    StepRuns.Allowed (FileServer.step evpSha256 fun _ => folderSetup)
      (Isolated evpSha256 fun _ => folderSetup)
      (.started fun _ => none)
      (sideBySide (ascii "b") true ++
        [twoByteTurn .fileComplete (putU32 2)]) :=
  uploads_isolated evpSha256 (fun _ => folderSetup) (fun _ => none) _
    (by decide +kernel) (by decide +kernel)

/--
Without a file of its own the shorter upload takes a byte of the longer one,
which cannot be renamed while the shorter one has the file open.
-/
theorem mixed_in_shared_file :
    StepRuns.Allowed (FileServer.step evpSha256 fun _ => folderSetup) WritesLand
        (.started fun _ => none)
        (sideBySide (ascii "a") false ++
          [twoByteTurn .fileComplete (putU32 2)]) ∧
      ¬StepRuns.Allowed (FileServer.step evpSha256 fun _ => folderSetup)
        (Isolated evpSha256 fun _ => folderSetup)
        (.started fun _ => none)
        (sideBySide (ascii "a") false ++
          [twoByteTurn .fileComplete (putU32 2)]) := by
  refine ⟨by decide +kernel, fun isolated => ?_⟩
  let server : FileServer Unit :=
    StepRuns.run (FileServer.step evpSha256 fun _ => folderSetup)
      (.started fun _ => none) (sideBySide (ascii "a") false)
  have last : Isolated evpSha256 (fun _ => folderSetup) server
      (twoByteTurn .fileComplete (putU32 2)) :=
    isolated.at
  have reported :
      .send (.known .fileVerify) (FileVerifyMsg.encode ⟨2, .known .ok⟩) true ∈
        turnEffects evpSha256 folderSetup (server.sessions ())
          (twoByteTurn .fileComplete (putU32 2)).2 := by
    decide +kernel
  obtain ⟨st, req, data, isOpen, own, placed⟩ :=
    last _ reported ⟨2, .known .ok⟩ (verdictOf_send _ _) rfl
  have finalPath :
      (server.uploads () 2).map UploadState.finalPath =
        some (ascii "C:\\share\\a") := by
    decide +kernel
  have ownData :
      (ownUpload 2 (server.sessions ()).trace).map Prod.snd = some [9] := by
    decide +kernel
  have mixed :
      (server.step evpSha256 (fun _ => folderSetup)
          (twoByteTurn .fileComplete (putU32 2))).files
        (ascii "C:\\share\\a") = some [9, 2] := by
    decide +kernel
  have isFinal : st.finalPath = ascii "C:\\share\\a" :=
    eq_of_map_eq finalPath isOpen
  have isData : data = [9] :=
    eq_of_map_eq ownData own
  rw [isFinal, mixed, isData] at placed
  cases placed

end Isolation

end RadminPro
