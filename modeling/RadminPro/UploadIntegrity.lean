import RadminPro.UploadIsolation

namespace RadminPro

open ByteCodec

/-!
# Integrity of uploads when the disk fails

Size and hash of an upload are taken from the blocks that come in, not from the
file.  What is reported to be in place is as it was declared exactly when
everything that was hashed has reached the file by then.
-/

section Integrity

variable {Thread : Type}
variable [DecidableEq Thread]

/-- An upload that a turn reports is in its place with the declared size and hash. -/
def Backed
    (sha256 : Bytes → Hash256)
    (setup : Thread → SessionSetup)
    (server : FileServer Thread)
    (input : Thread × Turn) : Prop :=
  ∀ effect ∈
      turnEffects sha256 (setup input.1) (server.sessions input.1) input.2,
    ReportsPlaced effect →
    ∃ id st req data content,
      server.uploads input.1 id = some st ∧
        (∀ v, verdictOf effect = some v → v.transferId = id) ∧
        (∀ target, PlacedRow target effect → target = st.finalPath) ∧
        ownUpload id (server.sessions input.1).trace = some (req, data) ∧
        (server.step sha256 setup input).files st.finalPath = some content ∧
        content.length = req.size.toNat ∧
        sha256 content = req.sha256

/--
All of an upload that is put in place has reached its file.  (After 2 ^ 64 bytes
the counter has wrapped; then what has reached the file has to make up for it.)
-/
def LandsWhole
    (sha256 : Bytes → Hash256)
    (server : FileServer Thread)
    (input : Thread × Turn) : Prop :=
  ∀ id st,
    Placing sha256 (server.sessions input.1) input.2 id st →
    if st.hasher.fed.length < 2 ^ 64 then
      st.landed input.2.outside.flushedAtClose = st.hasher.fed.length
    else
      st.Declares sha256 (st.stored input.2.outside.flushedAtClose)

variable {sha256 : Bytes → Hash256}
variable {setup : Thread → SessionSetup}
variable {server : FileServer Thread}
variable {input : Thread × Turn}

/-- What has landed is as declared exactly when it is everything. -/
theorem landed_declared_iff
    {files : Files}
    {st : UploadState}
    {flushed : Nat}
    (onDisk : st.OnDisk files)
    (agrees : st.Agrees sha256)
    (received : st.received = UInt64.ofNat st.hasher.fed.length)
    (counted : st.hasher.fed.length < 2 ^ 64) :
    st.Declares sha256 (st.stored flushed) ↔
      st.landed flushed = st.hasher.fed.length := by
  have size : st.hasher.fed.length = st.expected.toNat := by
    rw [← agrees.1, received, UInt64.toNat_ofNat', Nat.mod_eq_of_lt counted]
  have most := onDisk.landed_le flushed
  constructor
  · intro declared
    have length := declared.1
    rw [UploadState.stored, List.length_take, Nat.min_eq_left most] at length
    exact length.trans size.symm
  · intro all
    rw [UploadState.stored, all, List.take_length]
    exact ⟨size, agrees.2⟩

/-- What an upload that is put in place leaves, and whether that is as declared. -/
theorem Placing.leaves
    {contested : Path → Prop}
    {id : UInt32}
    {st : UploadState}
    (placing : Placing sha256 (server.sessions input.1) input.2 id st)
    (setup : Thread → SessionSetup)
    (untangled : Untangled contested server)
    (unshared : ¬contested st.tempPath ∧ PlaceFree server input.1 st) :
    ∃ req data,
      server.uploads input.1 id = some st ∧
        ownUpload id (server.sessions input.1).trace = some (req, data) ∧
        st.expected = req.size ∧
        st.declared = req.sha256 ∧
        (server.step sha256 setup input).files st.finalPath =
          some (st.stored input.2.outside.flushedAtClose) ∧
        (st.hasher.fed.length < 2 ^ 64 →
          (st.Declares sha256 (st.stored input.2.outside.flushedAtClose) ↔
            st.landed input.2.outside.flushedAtClose =
              st.hasher.fed.length)) := by
  have isOpen := placing.1.isOpen
  obtain ⟨⟨req, data⟩, isOwn, follows⟩ :=
    untangled.chronicle input.1 id st isOpen
  have onDisk := untangled.tidy.onDisk input.1 id st isOpen unshared.1
  have received : st.received = UInt64.ofNat st.hasher.fed.length := by
    rw [follows.received, follows.fed]
  exact ⟨req, data, isOpen, isOwn, follows.expected, follows.declared,
    placing.files untangled.tidy unshared.1 unshared.2,
    landed_declared_iff onDisk placing.2.1 received⟩

/-- A turn that shares nothing is backed exactly when its upload lands whole. -/
theorem backed_iff_landsWhole
    {contested : Path → Prop}
    (unshared : PlacesUnshared sha256 contested server input)
    (untangled : Untangled contested server) :
    Backed sha256 setup server input ↔ LandsWhole sha256 server input := by
  constructor
  · intro backed id st placing
    obtain ⟨effect, member, isVerdict⟩ := placing.reports (setup input.1)
    obtain ⟨otherId, other, req, data, content, isOther, sameId, _, own, stored,
      size, hash⟩ := backed effect member (.inl ⟨_, isVerdict, rfl⟩)
    obtain ⟨ownReq, ownData, isOpen, isOwn, expected, declared, placed, iff⟩ :=
      placing.leaves setup untangled (unshared id st placing)
    have known : id = otherId := sameId _ isVerdict
    subst known
    rw [isOpen, Option.some.injEq] at isOther
    subst isOther
    rw [isOwn, Option.some.injEq, Prod.mk.injEq] at own
    obtain ⟨rfl, rfl⟩ := own
    rw [placed, Option.some.injEq] at stored
    subst stored
    rw [← expected] at size
    rw [← declared] at hash
    split
    · next counted =>
        exact (iff counted).mp ⟨size, hash⟩
    · exact ⟨size, hash⟩
  · intro lands effect member reports
    obtain ⟨id, st, placing, named, target⟩ :=
      placing_of_reportsPlaced member reports
    obtain ⟨req, data, isOpen, own, expected, declared, placed, iff⟩ :=
      placing.leaves setup untangled (unshared id st placing)
    have whole := lands id st placing
    have asDeclared :
        st.Declares sha256 (st.stored input.2.outside.flushedAtClose) := by
      split at whole
      · next counted =>
          exact (iff counted).mpr whole
      · exact whole
    rw [UploadState.Declares, expected, declared] at asDeclared
    exact ⟨id, st, req, data, _, isOpen, named, target, own, placed, asDeclared⟩

omit [DecidableEq Thread] in
/-- Where all of every open upload has reached its file, so has one put in place. -/
theorem landsWhole_of_entries
    (all :
      ∀ entry ∈ (server.sessions input.1).phase.entries,
        entry.2.hasher.fed.length < 2 ^ 64 ∧
          entry.2.landed input.2.outside.flushedAtClose =
            entry.2.hasher.fed.length) :
    LandsWhole sha256 server input := by
  intro id st placing
  obtain ⟨counted, landed⟩ :=
    all (id, st) (mem_entries.mpr placing.1.isOpen)
  rw [if_pos counted]
  exact landed

/--
In every run in which no turn touches the temporary file of an open upload, what
is reported to be in place is as declared exactly if everything had landed.
-/
theorem uploads_backed_iff
    (sha256 : Bytes → Hash256)
    (setup : Thread → SessionSetup)
    (files : Files)
    (inputs : List (Thread × Turn))
    (exclusive :
      StepRuns.Allowed (FileServer.step sha256 setup) (Exclusive sha256 setup)
        (.started files) inputs) :
    StepRuns.Allowed (FileServer.step sha256 setup) (Backed sha256 setup)
        (.started files) inputs ↔
      StepRuns.Allowed (FileServer.step sha256 setup) (LandsWhole sha256)
        (.started files) inputs := by
  have turns :
      ∀ earlier input later,
        inputs = earlier ++ input :: later →
        (Backed sha256 setup
            (StepRuns.run (FileServer.step sha256 setup) (.started files) earlier)
            input ↔
          LandsWhole sha256
            (StepRuns.run (FileServer.step sha256 setup) (.started files) earlier)
            input) := by
    intro earlier input later split
    rw [split] at exclusive
    have untangled :
        Untangled (fun _ => False) (StepRuns.run (FileServer.step sha256 setup)
          (.started files) earlier) :=
      (StepRuns.allowed_append.mp exclusive).1.invariant
        (fun _ _ now => untangled_step now) (untangled_started files)
    exact backed_iff_landsWhole exclusive.at.placesUnshared untangled
  constructor
  · intro backed
    apply StepRuns.Allowed.of_at
    intro earlier input later split
    refine (turns earlier input later split).mp ?_
    rw [split] at backed
    exact backed.at
  · intro lands
    apply StepRuns.Allowed.of_at
    intro earlier input later split
    refine (turns earlier input later split).mpr ?_
    rw [split] at lands
    exact lands.at

/-- An upload of which everything lands is reported and is as declared. -/
theorem uploads_backed_iff_apart :
    ((StepRuns.run (FileServer.step evpSha256 fun _ => folderSetup)
          (.started fun _ => none)
          (sideBySide (ascii "b") true)).sessions ()).trace.filterMap verdictOf =
        [⟨1, .known .ok⟩] ∧
      StepRuns.Allowed (FileServer.step evpSha256 fun _ => folderSetup)
        (Backed evpSha256 fun _ => folderSetup)
        (.started fun _ => none) (sideBySide (ascii "b") true) := by
  refine ⟨by decide +kernel, ?_⟩
  have lands :
      StepRuns.Allowed (FileServer.step evpSha256 fun _ => folderSetup)
        (fun server input =>
          ∀ entry ∈ (server.sessions input.1).phase.entries,
            entry.2.hasher.fed.length < 2 ^ 64 ∧
              entry.2.landed input.2.outside.flushedAtClose =
                entry.2.hasher.fed.length)
        (.started fun _ => none) (sideBySide (ascii "b") true) := by
    decide +kernel
  apply
    (uploads_backed_iff evpSha256 (fun _ => folderSetup) (fun _ => none) _
      (by decide +kernel)).mpr
  exact lands.mono fun _ _ all => landsWhole_of_entries all

end Integrity

end RadminPro
