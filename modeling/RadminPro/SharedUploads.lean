import RadminPro.UploadTurns

namespace RadminPro

open ByteCodec

/-!
# Uploads that share a disk

The sessions of a server write to one disk.  An upload has its temporary file to
itself as long as no request opens, replaces, moves or removes that file; then
it finds there what it has put there itself.
-/

/-- The sessions of a server and the disk that they share. -/
structure FileServer (Thread : Type) where
  sessions : Thread → Session
  files : Files

/-- The files that a message makes its session open, replace, move or remove. -/
def claimedPaths
    (sha256 : Bytes → Hash256)
    (setup : SessionSetup)
    (ctx : SessionContext)
    (out : Outside)
    (loop : LoopState)
    (m : Message) : List Path :=
  match m.op with
  | .known .fileUploadReq =>
      if ctx.canTransfer && out.opened then
        (requestedPaths out setup.fileRoot m).map (· ++ ascii ".part")
      else
        []
  | .known .fileComplete =>
      match parseAll ByteReader.u32 m.payload with
      | .ok id =>
          match loop.uploads[id]? with
          | some st =>
              if st.Agrees sha256 ∧ out.renamed = true then
                [st.finalPath]
              else
                []
          | none => []
      | .error _ => []
  | .known .fileDelete =>
      if ctx.canTransfer && out.removed then
        requestedPaths out setup.fileRoot m
      else
        []
  | .known .fileMove =>
      if ctx.canTransfer && out.renamed then
        requestedPaths out setup.fileRoot m
      else
        []
  | _ => []

section Sharing

variable {Thread : Type}

/-- One turn of one session. -/
def FileServer.step
    [DecidableEq Thread]
    (sha256 : Bytes → Hash256)
    (setup : Thread → SessionSetup)
    (server : FileServer Thread)
    (input : Thread × Turn) : FileServer Thread where
  sessions :=
    Function.update server.sessions input.1
      ((server.sessions input.1).step sha256 (setup input.1) input.2)
  files :=
    filesAfter server.files
      (turnEffects sha256 (setup input.1) (server.sessions input.1) input.2)

/-- What a turn claims; only a message in the event loop claims anything. -/
def turnClaims
    (sha256 : Bytes → Hash256)
    (setup : SessionSetup)
    (session : Session)
    (turn : Turn) : List Path :=
  match session.phase, turn.running, turn.read with
  | .live ctx loop, true, .ok m =>
      claimedPaths sha256 setup ctx turn.outside loop m
  | _, _, _ => []

/-- The uploads that are open in the sessions of a server. -/
def FileServer.uploads
    (server : FileServer Thread)
    (thread : Thread) : UInt32 → Option UploadState :=
  (server.sessions thread).phase.upload?

/-- A turn leaves the temporary files of open uploads alone. -/
def Exclusive
    (sha256 : Bytes → Hash256)
    (setup : Thread → SessionSetup)
    (server : FileServer Thread)
    (input : Thread × Turn) : Prop :=
  ∀ path ∈
      turnClaims sha256 (setup input.1) (server.sessions input.1) input.2,
    ∀ thread id st, server.uploads thread id = some st → path ≠ st.tempPath

/-- The uploads that are open where a session stands, one after the other. -/
def SessionPhase.entries : SessionPhase → List (UInt32 × UploadState)
  | .live _ loop => loop.uploads.toList
  | _ => []

/-- Both ways to list them agree. -/
theorem mem_entries
    {phase : SessionPhase}
    {id : UInt32}
    {st : UploadState} :
    (id, st) ∈ phase.entries ↔ phase.upload? id = some st := by
  cases phase with
  | live ctx loop =>
      exact Std.TreeMap.mem_toList_iff_getElem?_eq_some
  | _ =>
      simp [SessionPhase.entries, SessionPhase.upload?]

/-- Whether a turn is exclusive can be read off the entries of all sessions. -/
theorem exclusive_iff
    {sha256 : Bytes → Hash256}
    {setup : Thread → SessionSetup}
    {server : FileServer Thread}
    {input : Thread × Turn} :
    (∀ path ∈
        turnClaims sha256 (setup input.1) (server.sessions input.1) input.2,
      ∀ thread, ∀ entry ∈ (server.sessions thread).phase.entries,
        path ≠ entry.2.tempPath) ↔
      Exclusive sha256 setup server input := by
  constructor
  · intro each path claimed thread id st found
    exact each path claimed thread (id, st) (mem_entries.mpr found)
  · intro exclusive path claimed thread entry member
    exact exclusive path claimed thread entry.1 entry.2 (mem_entries.mp member)

instance
    [Fintype Thread]
    (sha256 : Bytes → Hash256)
    (setup : Thread → SessionSetup)
    (server : FileServer Thread)
    (input : Thread × Turn) :
    Decidable (Exclusive sha256 setup server input) :=
  decidable_of_iff _ exclusive_iff

/--
Every open upload finds its own data in a file of its own, unless that file is
contested.
-/
structure Tidy
    (contested : Path → Prop)
    (uploads : Thread → UInt32 → Option UploadState)
    (files : Files) : Prop where
  path :
    ∀ thread id st, uploads thread id = some st → st.out.path = st.tempPath
  onDisk :
    ∀ thread id st,
      uploads thread id = some st → ¬contested st.tempPath → st.OnDisk files
  apart :
    ∀ thread id st other otherId otherSt,
      uploads thread id = some st →
      uploads other otherId = some otherSt →
      st.tempPath = otherSt.tempPath →
      ¬contested st.tempPath →
      thread = other ∧ id = otherId

namespace Tidy

variable {contested more : Path → Prop}
variable {uploads fewer : Thread → UInt32 → Option UploadState}
variable {files after : Files}

/-- Only what is said of the temporary files of open uploads matters. -/
theorem contest
    (tidy : Tidy contested uploads files)
    (isMore :
      ∀ thread id st,
        uploads thread id = some st →
        contested st.tempPath →
        more st.tempPath) :
    Tidy more uploads files where
  path := tidy.path
  onDisk := by
    intro thread id st found free
    exact tidy.onDisk thread id st found
      fun known => free (isMore thread id st found known)
  apart := by
    intro thread id st other otherId otherSt found otherFound same free
    exact tidy.apart thread id st other otherId otherSt found otherFound same
      fun known => free (isMore thread id st found known)

/-- Uploads may end, and files of no upload may change. -/
theorem drop
    (tidy : Tidy contested uploads files)
    (isFewer :
      ∀ thread id st, fewer thread id = some st → uploads thread id = some st)
    (spared :
      ∀ thread id st,
        fewer thread id = some st →
        ¬contested st.tempPath →
        after st.tempPath = files st.tempPath) :
    Tidy contested fewer after where
  path := fun thread id st found =>
    tidy.path thread id st (isFewer thread id st found)
  onDisk := by
    intro thread id st found free
    exact (tidy.onDisk thread id st (isFewer thread id st found) free).congr
      (spared thread id st found free)
  apart := by
    intro thread id st other otherId otherSt found otherFound
    exact tidy.apart thread id st other otherId otherSt
      (isFewer thread id st found) (isFewer other otherId otherSt otherFound)

variable [DecidableEq Thread]

/-- An upload may begin or go on, if the others do not have its file. -/
theorem enter
    {thread : Thread}
    {id : UInt32}
    {st : UploadState}
    (tidy : Tidy contested uploads files)
    (path : st.out.path = st.tempPath)
    (onDisk : ¬contested st.tempPath → st.OnDisk after)
    (others :
      ∀ other otherId otherSt,
        uploads other otherId = some otherSt →
        (other, otherId) ≠ (thread, id) →
        ¬contested otherSt.tempPath →
        otherSt.tempPath ≠ st.tempPath ∧
          after otherSt.tempPath = files otherSt.tempPath) :
    Tidy contested
      (Function.update uploads thread
        (Function.update (uploads thread) id (some st)))
      after := by
  -- An entry is the new one, or one of the others.
  have entries :
      ∀ other otherId otherSt,
        Function.update uploads thread
            (Function.update (uploads thread) id (some st)) other otherId =
          some otherSt →
        (other, otherId) = (thread, id) ∧ otherSt = st ∨
          (other, otherId) ≠ (thread, id) ∧
            uploads other otherId = some otherSt := by
    intro other otherId otherSt found
    by_cases sameThread : other = thread
    · subst sameThread
      rw [Function.update_self] at found
      by_cases sameId : otherId = id
      · subst sameId
        rw [Function.update_self, Option.some.injEq] at found
        exact .inl ⟨rfl, found.symm⟩
      · rw [Function.update_of_ne sameId] at found
        exact .inr ⟨by simp [sameId], found⟩
    · rw [Function.update_of_ne sameThread] at found
      exact .inr ⟨by simp [sameThread], found⟩
  constructor
  · intro other otherId otherSt found
    rcases entries other otherId otherSt found with ⟨_, rfl⟩ | ⟨_, old⟩
    · exact path
    · exact tidy.path other otherId otherSt old
  · intro other otherId otherSt found free
    rcases entries other otherId otherSt found with ⟨_, rfl⟩ | ⟨different, old⟩
    · exact onDisk free
    · exact (tidy.onDisk other otherId otherSt old free).congr
        (others other otherId otherSt old different free).2
  · intro first firstId firstSt second secondId secondSt found otherFound same
      free
    rcases entries first firstId firstSt found with
      ⟨isNew, rfl⟩ | ⟨different, old⟩
    · rcases entries second secondId secondSt otherFound with
        ⟨alsoNew, rfl⟩ | ⟨otherDifferent, otherOld⟩
      · rw [← alsoNew, Prod.mk.injEq] at isNew
        exact isNew
      · rw [same] at free
        exact
          ((others second secondId secondSt otherOld otherDifferent free).1
            same.symm).elim
    · rcases entries second secondId secondSt otherFound with
        ⟨_, rfl⟩ | ⟨_, otherOld⟩
      · exact ((others first firstId firstSt old different free).1 same).elim
      · exact tidy.apart first firstId firstSt second secondId secondSt old
          otherOld same free

end Tidy

section Messages

variable {sha256 : Bytes → Hash256}
variable {setup : SessionSetup}
variable {ctx : SessionContext}
variable {out : Outside}
variable {loop : LoopState}
variable {m : Message}
variable {contested : Path → Prop}
variable {uploads : Thread → UInt32 → Option UploadState}
variable {files : Files}
variable {thread : Thread}

/-- It empties its file, unless it replaces an upload that has that file. -/
theorem beginUpload_files
    (files : Files)
    (loop : LoopState)
    (req : FileUploadReqMsg)
    (dest : Path)
    (opened : out.opened = true)
    {path : Path}
    (other :
      ∀ old, loop.uploads[loop.nextTransferId]? = some old → path ≠ old.out.path) :
    filesAfter files (beginUpload out loop req dest).effects path =
      if path = dest ++ ascii ".part" then some [] else files path := by
  obtain ⟨directories, replaced, ok, effects, isDirectory, isReplaced⟩ :=
    beginUpload_changes loop req dest opened
  have spared :
      ∀ effect ∈ replaced ++
          [.send (.known .fileAccept)
            (FileAcceptMsg.encode { transferId := loop.nextTransferId }) ok],
        effect.Spares path := by
    intro effect member
    rcases List.mem_append.mp member with isClose | isAnswer
    · obtain ⟨old, flushed, found, isEffect⟩ := isReplaced effect isClose
      exact old.out.close_spares flushed (other old found) effect isEffect
    · rw [List.mem_singleton.mp isAnswer]
      intro change changed
      cases changed
  rw [effects, List.append_assoc _ replaced, filesAfter_append,
    filesAfter_spared _ spared, filesAfter_append,
    filesAfter_aside files fun effect member => (isDirectory effect member).1]
  by_cases isTemp : path = dest ++ ascii ".part"
  · rw [if_pos isTemp, isTemp]
    exact FileStore.apply_truncate files _
  · rw [if_neg isTemp]
    have spares : path ∉
        (FileStore.Change.truncate (dest ++ ascii ".part") :
          FileStore.Change Path UInt8).paths := by
      simpa [FileStore.Change.paths] using isTemp
    exact FileStore.apply_other files spares

/-- A message leaves the uploads tidy that it does not lay its hands on. -/
theorem Tidy.deals
    [DecidableEq Thread]
    {outcome : Outcome}
    (tidy : Tidy contested uploads files)
    (mine : uploads thread = fun id => loop.uploads[id]?)
    (deals : Deals sha256 setup ctx out loop m outcome)
    (claims :
      ∀ path ∈ claimedPaths sha256 setup ctx out loop m,
        ∀ other id st,
          uploads other id = some st → path = st.tempPath → contested path) :
    Tidy contested
      (Function.update uploads thread fun id => outcome.loop.uploads[id]?)
      (filesAfter files outcome.effects) := by
  -- What is not contested is not claimed either.
  have spared :
      ∀ path ∈ claimedPaths sha256 setup ctx out loop m,
        ∀ other id st,
          uploads other id = some st →
          ¬contested st.tempPath →
          st.tempPath ≠ path := by
    intro path claimed other id st found free same
    exact free (same ▸ claims path claimed other id st found same.symm)
  cases deals with
  | aside sameUploads only accepts unblocked uncompleted =>
      rw [sameUploads, ← mine, Function.update_eq_self,
        filesAfter_aside files only]
      exact tidy
  | @begun req dest permitted op decoded resolved opened =>
      have claimed :
          dest ++ ascii ".part" ∈ claimedPaths sha256 setup ctx out loop m := by
        simp [claimedPaths, op, permitted, opened, requestedPaths, decoded,
          resolved]
      have isOther :
          ∀ path,
            (∀ old : UploadState,
              loop.uploads[loop.nextTransferId]? = some old →
              path ≠ old.tempPath) →
            filesAfter files (beginUpload out loop req dest).effects path =
              if path = dest ++ ascii ".part" then some [] else files path := by
        intro path notReplaced
        apply beginUpload_files files loop req dest opened
        intro old found
        have known : uploads thread loop.nextTransferId = some old := by
          rw [mine]
          exact found
        rw [tidy.path _ _ _ known]
        exact notReplaced old found
      rw [beginUpload_uploads loop req dest opened, uploads_insert, ← mine]
      apply tidy.enter
      · rfl
      · intro free
        apply UploadState.onDisk_requested
        rw [isOther, if_pos rfl]
        intro old found same
        refine free (claims _ claimed thread loop.nextTransferId old ?_ same)
        rw [mine]
        exact found
      · intro other otherId otherSt found different free
        have notNew := spared _ claimed other otherId otherSt found free
        refine ⟨notNew, ?_⟩
        rw [isOther, if_neg notNew]
        intro old isOld same
        have known : uploads thread loop.nextTransferId = some old := by
          rw [mine]
          exact isOld
        obtain ⟨sameThread, sameId⟩ :=
          tidy.apart other otherId otherSt thread loop.nextTransferId old found
            known same free
        exact different (by rw [sameThread, sameId])
  | @block blk st op decoded found =>
      have known : uploads thread blk.transferId = some st := by
        rw [mine]
        exact found
      have path := tidy.path _ _ _ known
      rw [uploads_insert, ← mine]
      apply tidy.enter
      · exact (OfStream.write_path blk.data out.flush).trans path
      · exact fun free => (tidy.onDisk _ _ _ known free).block blk.data out.flush
      · intro other otherId otherSt otherFound different free
        have apart : otherSt.tempPath ≠ st.tempPath := by
          intro same
          obtain ⟨sameThread, sameId⟩ :=
            tidy.apart other otherId otherSt thread blk.transferId st otherFound
              known same free
          exact different (by rw [sameThread, sameId])
        refine ⟨apart, filesAfter_spared files ?_⟩
        apply st.out.write_spares
        rw [path]
        exact apart
  | @complete id st op decoded found =>
      have known : uploads thread id = some st := by
        rw [mine]
        exact found
      apply tidy.drop
      · intro other otherId otherSt otherFound
        by_cases sameThread : other = thread
        · subst sameThread
          rw [Function.update_self, uploads_erase] at otherFound
          split at otherFound
          · cases otherFound
          · rw [mine]
            exact otherFound
        · rw [Function.update_of_ne sameThread] at otherFound
          exact otherFound
      · intro other otherId otherSt otherFound free
        have stillOpen : uploads other otherId = some otherSt ∧
            (other, otherId) ≠ (thread, id) := by
          by_cases sameThread : other = thread
          · subst sameThread
            rw [Function.update_self, uploads_erase] at otherFound
            split at otherFound
            · cases otherFound
            · next different =>
                rw [mine]
                exact ⟨otherFound, by simp [different]⟩
          · rw [Function.update_of_ne sameThread] at otherFound
            exact ⟨otherFound, by simp [sameThread]⟩
        have apart : otherSt.tempPath ≠ st.tempPath := by
          intro same
          obtain ⟨sameThread, sameId⟩ :=
            tidy.apart other otherId otherSt thread id st stillOpen.1 known same
              free
          exact stillOpen.2 (by rw [sameThread, sameId])
        apply finishUpload_files_other setup ctx id (tidy.path _ _ _ known) apart
        intro placed
        have claimed :
            st.finalPath ∈ claimedPaths sha256 setup ctx out loop m := by
          simp [claimedPaths, op, decoded, found, placed]
        exact spared _ claimed other otherId otherSt stillOpen.1 free
  | @deleted target rest op permitted requested only =>
      rw [← mine, Function.update_eq_self]
      apply tidy.drop (fun _ _ _ found => found)
      intro other id st found free
      apply filesAfter_spared files
      intro effect member change changed
      rcases List.mem_cons.mp member with rfl | isRest
      · cases removed : out.removed with
        | false =>
            rw [removed] at changed
            cases changed
        | true =>
            rw [removed, Effect.change?, Option.some.injEq] at changed
            have claimed :
                target ∈ claimedPaths sha256 setup ctx out loop m := by
              simp [claimedPaths, op, permitted, removed, requested]
            simp [← changed, FileStore.Change.paths,
              spared _ claimed other id st found free]
      · rw [(only effect isRest).1.change] at changed
        cases changed
  | @moved src dst rest op permitted srcRequested dstRequested only =>
      rw [← mine, Function.update_eq_self]
      apply tidy.drop (fun _ _ _ found => found)
      intro other id st found free
      apply filesAfter_spared files
      intro effect member change changed
      rcases List.mem_cons.mp member with rfl | isRest
      · cases renamed : out.renamed with
        | false =>
            rw [renamed] at changed
            cases changed
        | true =>
            rw [renamed, Effect.change?, Option.some.injEq] at changed
            have claimed :
                ∀ path ∈ requestedPaths out setup.fileRoot m,
                  path ∈ claimedPaths sha256 setup ctx out loop m := by
              intro path requested
              simp [claimedPaths, op, permitted, renamed, requested]
            have srcFree :=
              spared _ (claimed src srcRequested) other id st found free
            have dstFree :=
              spared _ (claimed dst dstRequested) other id st found free
            simp [← changed, FileStore.Change.paths, srcFree, dstFree]
      · rw [(only effect isRest).1.change] at changed
        cases changed

/-- What a session discards is its own. -/
theorem mem_discarded
    {map : Uploads}
    {effect : Effect}
    (member : effect ∈ discarded out map) :
    ∃ (id : UInt32) (st : UploadState) (flushed : Nat) (removed : Bool),
      map[id]? = some st ∧
        (effect ∈ st.out.close flushed ∨ effect = .remove st.tempPath removed) := by
  obtain ⟨⟨id, st⟩, isEntry, isEffect⟩ := List.mem_flatMap.mp member
  have found : map[id]? = some st :=
    Std.TreeMap.mem_toList_iff_getElem?_eq_some.mp isEntry
  refine ⟨id, st, (out.cleanup id).1, (out.cleanup id).2, found, ?_⟩
  rcases List.mem_append.mp isEffect with isClose | isRemove
  · exact .inl isClose
  · exact .inr (List.mem_singleton.mp isRemove)

/-- The end of a turn touches the files of its own uploads only. -/
theorem Ends.spares
    {map : Uploads}
    {phase : SessionPhase}
    {rest : List Effect}
    (ends : Ends ctx out map phase rest)
    (files : Files)
    {path : Path}
    (apart :
      ∀ (id : UInt32) (st : UploadState),
        map[id]? = some st → path ≠ st.out.path ∧ path ≠ st.tempPath) :
    filesAfter files rest path = files path := by
  apply filesAfter_spared
  intro effect member
  have aside : ∀ {effect : Effect}, Aside effect → effect.Spares path := by
    intro effect isAside change changed
    rw [isAside.change] at changed
    cases changed
  cases ends with
  | live kept only =>
      exact aside (only effect member).1
  | closed onlyShown onlyEnding =>
      rcases List.mem_append.mp member with isFirst | isEnding
      · rcases List.mem_append.mp isFirst with isShown | isDiscard
        · exact aside (onlyShown effect isShown).1
        · obtain ⟨id, st, flushed, removed, found, isEffect⟩ :=
            mem_discarded isDiscard
          obtain ⟨notStream, notTemp⟩ := apart id st found
          rcases isEffect with isClose | rfl
          · exact st.out.close_spares flushed notStream effect isClose
          · intro change changed
            cases removed with
            | false =>
                cases changed
            | true =>
                rw [Effect.change?, Option.some.injEq] at changed
                simp [← changed, FileStore.Change.paths, notTemp]
      · exact aside (onlyEnding effect isEnding).1

/-- The end of a turn leaves the uploads of the other sessions tidy. -/
theorem Tidy.ends
    [DecidableEq Thread]
    {map : Uploads}
    {phase : SessionPhase}
    {rest : List Effect}
    (tidy : Tidy contested uploads files)
    (mine : uploads thread = fun id => map[id]?)
    (ends : Ends ctx out map phase rest) :
    Tidy contested (Function.update uploads thread phase.upload?)
      (filesAfter files rest) := by
  cases ends with
  | @live next rest kept only =>
      have same : (SessionPhase.live ctx next).upload? = uploads thread := by
        rw [mine, ← kept]
        rfl
      rw [same, Function.update_eq_self,
        filesAfter_aside files fun effect member => (only effect member).1]
      exact tidy
  | @closed shown ending onlyShown onlyEnding =>
      have others :
          ∀ other id st,
            Function.update uploads thread
                (SessionPhase.closed map).upload? other id =
              some st →
            other ≠ thread ∧ uploads other id = some st := by
        intro other id st found
        by_cases same : other = thread
        · subst same
          rw [Function.update_self] at found
          cases found
        · rw [Function.update_of_ne same] at found
          exact ⟨same, found⟩
      apply tidy.drop
      · exact fun other id st found => (others other id st found).2
      · intro other id st found free
        obtain ⟨different, isOpen⟩ := others other id st found
        have closes : Ends ctx out map (.closed map)
            (shown ++ discarded out map ++ ending) :=
          .closed onlyShown onlyEnding
        apply closes.spares
        intro ownId own ownFound
        have known : uploads thread ownId = some own := by
          rw [mine]
          exact ownFound
        have apart : st.tempPath ≠ own.tempPath := by
          intro same
          exact different
            (tidy.apart other id st thread ownId own isOpen known same free).1
        refine ⟨?_, apart⟩
        rw [tidy.path _ _ _ known]
        exact apart

end Messages

/-! ## Servers -/

section Servers

variable {sha256 : Bytes → Hash256}
variable {setup : Thread → SessionSetup}
variable {server : FileServer Thread}
variable {input : Thread × Turn}

/-- The uploads of a session that is in its event loop. -/
theorem uploads_live
    {ctx : SessionContext}
    {loop : LoopState}
    (live : (server.sessions input.1).phase = .live ctx loop) :
    server.uploads input.1 = fun id => loop.uploads[id]? := by
  rw [FileServer.uploads, live]
  rfl

/-- What a message in the event loop claims. -/
theorem turnClaims_live
    {sha256 : Bytes → Hash256}
    {setup : SessionSetup}
    {session : Session}
    {turn : Turn}
    {ctx : SessionContext}
    {loop : LoopState}
    {m : Message}
    (live : session.phase = .live ctx loop)
    (running : turn.running = true)
    (read : turn.read = .ok m) :
    turnClaims sha256 setup session turn =
      claimedPaths sha256 setup ctx turn.outside loop m := by
  simp [turnClaims, live, running, read]

variable [DecidableEq Thread]

/-- A turn changes the uploads of its own session only. -/
theorem FileServer.step_uploads
    (sha256 : Bytes → Hash256)
    (setup : Thread → SessionSetup)
    (server : FileServer Thread)
    (input : Thread × Turn) :
    (server.step sha256 setup input).uploads =
      Function.update server.uploads input.1
        ((server.sessions input.1).phase.turn sha256 (setup input.1)
          input.2).1.upload? := by
  funext thread
  by_cases same : thread = input.1
  · subst same
    simp only [FileServer.uploads, FileServer.step, Function.update_self]
    rfl
  · simp [FileServer.uploads, FileServer.step, same]

/-- A turn keeps the uploads tidy but for what it claims of theirs. -/
theorem tidy_step
    {contested : Path → Prop}
    (claims :
      ∀ path ∈
          turnClaims sha256 (setup input.1) (server.sessions input.1) input.2,
        ∀ thread id st,
          server.uploads thread id = some st →
          path = st.tempPath →
          contested path)
    (tidy : Tidy contested server.uploads server.files) :
    Tidy contested (server.step sha256 setup input).uploads
      (server.step sha256 setup input).files := by
  have inverted :=
    turn_uploadTurn sha256 (setup input.1) (server.sessions input.1).phase
      input.2
  rw [FileServer.step_uploads]
  change Tidy _ _
    (filesAfter server.files
      ((server.sessions input.1).phase.turn sha256 (setup input.1) input.2).2)
  generalize
    (server.sessions input.1).phase.turn sha256 (setup input.1) input.2 = result
    at inverted ⊢
  -- A session whose uploads have ended takes none of the others with it.
  have gone :
      ∀ {next : SessionPhase} {effects : List Effect},
        (next.upload? = fun _ => none) →
        (∀ effect ∈ effects, effect.change? = none) →
        Tidy contested (Function.update server.uploads input.1 next.upload?)
          (filesAfter server.files effects) := by
    intro next effects cleared unchanged
    rw [filesAfter_unchanged _ unchanged, cleared]
    apply tidy.drop
    · intro thread id st found
      by_cases same : thread = input.1
      · rw [same, Function.update_self] at found
        cases found
      · rwa [Function.update_of_ne same] at found
    · exact fun _ _ _ _ _ => rfl
  cases inverted with
  | outside notLive cleared only =>
      exact gone cleared fun effect member => (only effect member).1
  | unread live noMessage ends =>
      exact tidy.ends (uploads_live live) ends
  | @handled ctx loop m outcome next rest live running read isHandled deals ends =>
      rw [turnClaims_live live running read] at claims
      have handled := tidy.deals (uploads_live live) deals claims
      have ended := handled.ends (Function.update_self ..) ends
      rw [Function.update_idem] at ended
      change Tidy _ _
        (filesAfter server.files ([.received m] ++ (outcome.effects ++ rest)))
      rw [filesAfter_append, filesAfter_append]
      exact ended
  | threw live running read failed =>
      refine gone ?_ ?_
      · rfl
      · simp [Effect.change?]

/-- A turn whose message completes an open upload. -/
def Completing
    (session : Session)
    (turn : Turn)
    (id : UInt32)
    (st : UploadState) : Prop :=
  ∃ ctx loop m,
    session.phase = .live ctx loop ∧
      turn.running = true ∧
      turn.read = .ok m ∧
      m.op = .known .fileComplete ∧
      parseAll ByteReader.u32 m.payload = .ok id ∧
      loop.uploads[id]? = some st

/-- A turn that completes an upload as declared and has it renamed. -/
def Placing
    (sha256 : Bytes → Hash256)
    (session : Session)
    (turn : Turn)
    (id : UInt32)
    (st : UploadState) : Prop :=
  Completing session turn id st ∧
    st.Agrees sha256 ∧
    turn.outside.renamed = true

/-- The effect tells the client or the log that an upload is in place. -/
def ReportsPlaced (effect : Effect) : Prop :=
  (∃ v, verdictOf effect = some v ∧ v.status = .known .ok) ∨
    ∃ target, PlacedRow target effect

/-- An effect that is no verdict and no such row reports nothing. -/
theorem not_reportsPlaced
    {effect : Effect}
    (verdict : verdictOf effect = none)
    (row : ∀ target, ¬PlacedRow target effect) :
    ¬ReportsPlaced effect := by
  rintro (⟨v, isVerdict, _⟩ | ⟨target, isRow⟩)
  · rw [verdict] at isVerdict
    cases isVerdict
  · exact row target isRow

/-- What happens on disk reports nothing. -/
theorem not_reportsPlaced_unlogged
    {effect : Effect}
    (verdict : verdictOf effect = none)
    (unlogged : ∀ event, effect ≠ .audit event) :
    ¬ReportsPlaced effect := by
  apply not_reportsPlaced verdict
  rintro target ⟨event, same, _⟩
  exact unlogged event same

/-- Closing a stream reports nothing. -/
theorem not_reportsPlaced_close
    (stream : OfStream)
    (flushed : Nat) :
    ∀ effect ∈ stream.close flushed, ¬ReportsPlaced effect := by
  intro effect member
  simp only [OfStream.close, List.mem_cons, List.not_mem_nil, or_false]
    at member
  rcases member with rfl | rfl <;>
    exact not_reportsPlaced_unlogged rfl (by simp)

/-- The end of a turn reports nothing. -/
theorem Ends.not_reportsPlaced
    {ctx : SessionContext}
    {out : Outside}
    {map : Uploads}
    {next : SessionPhase}
    {rest : List Effect}
    (ends : Ends ctx out map next rest) :
    ∀ effect ∈ rest, ¬ReportsPlaced effect := by
  intro effect member
  cases ends with
  | live kept only =>
      have aside := (only effect member).1
      exact RadminPro.not_reportsPlaced aside.verdict aside.row
  | closed onlyShown onlyEnding =>
      rcases List.mem_append.mp member with isFirst | isEnding
      · rcases List.mem_append.mp isFirst with isShown | isDiscard
        · have aside := (onlyShown effect isShown).1
          exact RadminPro.not_reportsPlaced aside.verdict aside.row
        · obtain ⟨id, st, flushed, removed, _, isClose | rfl⟩ :=
            mem_discarded isDiscard
          · exact not_reportsPlaced_close _ _ effect isClose
          · exact not_reportsPlaced_unlogged rfl (by simp)
      · have aside := (onlyEnding effect isEnding).1
        exact RadminPro.not_reportsPlaced aside.verdict aside.row

/-- An upload is reported to be in place only by a message that completes it. -/
theorem Deals.reportsPlaced
    {setup : SessionSetup}
    {ctx : SessionContext}
    {out : Outside}
    {loop : LoopState}
    {m : Message}
    {outcome : Outcome}
    (deals : Deals sha256 setup ctx out loop m outcome)
    {effect : Effect}
    (member : effect ∈ outcome.effects)
    (reports : ReportsPlaced effect) :
    ∃ id st,
      m.op = .known .fileComplete ∧
        parseAll ByteReader.u32 m.payload = .ok id ∧
        loop.uploads[id]? = some st ∧
        st.Agrees sha256 ∧
        out.renamed = true ∧
        (∀ v, verdictOf effect = some v → v.transferId = id) ∧
        ∀ target, PlacedRow target effect → target = st.finalPath := by
  have aside : ∀ {effect : Effect}, Aside effect → ¬ReportsPlaced effect :=
    fun isAside => not_reportsPlaced isAside.verdict isAside.row
  cases deals with
  | aside uploads only accepts unblocked uncompleted =>
      exact (aside (only effect member) reports).elim
  | @begun req dest permitted op decoded resolved opened =>
      obtain ⟨directories, replaced, ok, effects, isDirectory, isReplaced⟩ :=
        beginUpload_changes loop req dest opened
      rw [effects] at member
      rcases List.mem_append.mp member with isOpening | isAnswer
      · rcases List.mem_append.mp isOpening with isFirst | isClose
        · rcases List.mem_append.mp isFirst with isDir | isOpen
          · exact (aside (isDirectory effect isDir).1 reports).elim
          · rw [List.mem_singleton.mp isOpen] at reports
            exact (not_reportsPlaced_unlogged rfl (by simp) reports).elim
        · obtain ⟨old, flushed, _, isEffect⟩ := isReplaced effect isClose
          exact (not_reportsPlaced_close _ _ effect isEffect reports).elim
      · rw [List.mem_singleton.mp isAnswer] at reports
        exact (not_reportsPlaced_unlogged rfl (by simp) reports).elim
  | @block blk st op decoded found =>
      have silent := (inert_write _ _ _ effect member).1.2
      refine (not_reportsPlaced_unlogged silent ?_ reports).elim
      rintro event rfl
      unfold OfStream.write at member
      split at member <;> simp at member
  | @complete id st op decoded found =>
      by_cases placed : st.Agrees sha256 ∧ out.renamed = true
      · refine ⟨id, st, op, decoded, found, placed.1, placed.2, ?_⟩
        obtain ⟨ok, detail, effects⟩ :=
          finishUpload_placed setup ctx id placed.1 placed.2
        dsimp only at member
        rw [effects] at member
        rcases List.mem_append.mp member with isClose | isReport
        · exact (not_reportsPlaced_close _ _ effect isClose reports).elim
        · simp only [List.mem_cons, List.not_mem_nil, or_false] at isReport
          rcases isReport with rfl | rfl | rfl
          · exact (not_reportsPlaced_unlogged rfl (by simp) reports).elim
          · refine ⟨?_, ?_⟩
            · intro v isVerdict
              rw [verdictOf_send, Option.some.injEq] at isVerdict
              rw [← isVerdict]
            · rintro target ⟨event, same, _⟩
              cases same
          · refine ⟨?_, ?_⟩
            · intro v isVerdict
              cases isVerdict
            · rintro target ⟨event, same, _, isTarget, _⟩
              rw [auditFileOp, Effect.audit.injEq] at same
              rw [← isTarget, ← same]
              rfl
      · obtain ⟨tried, verdict, effects, isTried, isVerdict⟩ :=
          finishUpload_discarded setup ctx id placed
        dsimp only at member
        rw [effects] at member
        rcases List.mem_append.mp member with isFirst | isRest
        · rcases List.mem_append.mp isFirst with isClose | isRename
          · exact (not_reportsPlaced_close _ _ effect isClose reports).elim
          · rw [isTried effect isRename] at reports
            exact (not_reportsPlaced_unlogged rfl (by simp) reports).elim
        · rcases List.mem_cons.mp isRest with rfl | isReport
          · exact (not_reportsPlaced_unlogged rfl (by simp) reports).elim
          · obtain ⟨_, noOk, noRow⟩ := isVerdict effect isReport
            rcases reports with ⟨v, isReply, isOk⟩ | ⟨target, isRow⟩
            · exact (noOk v isReply isOk).elim
            · exact (noRow target isRow).elim
  | @deleted target rest op permitted requested only =>
      rcases List.mem_cons.mp member with rfl | isRest
      · exact (not_reportsPlaced_unlogged rfl (by simp) reports).elim
      · exact (aside (only effect isRest).1 reports).elim
  | @moved src dst rest op permitted srcRequested dstRequested only =>
      rcases List.mem_cons.mp member with rfl | isRest
      · exact (not_reportsPlaced_unlogged rfl (by simp) reports).elim
      · exact (aside (only effect isRest).1 reports).elim

/-- A turn that reports an upload to be in place has just placed it. -/
theorem placing_of_reportsPlaced
    {setup : SessionSetup}
    {session : Session}
    {turn : Turn}
    {effect : Effect}
    (member : effect ∈ turnEffects sha256 setup session turn)
    (reports : ReportsPlaced effect) :
    ∃ id st,
      Placing sha256 session turn id st ∧
        (∀ v, verdictOf effect = some v → v.transferId = id) ∧
        ∀ target, PlacedRow target effect → target = st.finalPath := by
  have inverted := turn_uploadTurn sha256 setup session.phase turn
  rw [turnEffects] at member
  generalize session.phase.turn sha256 setup turn = result at inverted member
  cases inverted with
  | outside notLive cleared only =>
      obtain ⟨_, silent, noRow⟩ := only effect member
      exact (not_reportsPlaced silent.2 noRow reports).elim
  | unread live noMessage ends =>
      exact (ends.not_reportsPlaced effect member reports).elim
  | @handled ctx loop m outcome next rest live running read isHandled deals ends =>
      rcases List.mem_cons.mp member with rfl | isRest
      · exact (not_reportsPlaced_unlogged rfl (by simp) reports).elim
      · rcases List.mem_append.mp isRest with isOutcome | isEnd
        · obtain ⟨id, st, op, decoded, found, agrees, renamed, about⟩ :=
            deals.reportsPlaced isOutcome reports
          have completing : Completing session turn id st :=
            ⟨ctx, loop, m, live, running, read, op, decoded, found⟩
          exact ⟨id, st, ⟨completing, agrees, renamed⟩, about⟩
        · exact (ends.not_reportsPlaced effect isEnd reports).elim
  | threw live running read failed =>
      rw [List.mem_singleton.mp member] at reports
      exact (not_reportsPlaced_unlogged rfl (by simp) reports).elim

/-- The turn of an upload that is completed. -/
theorem Completing.turns
    {session : Session}
    {turn : Turn}
    {id : UInt32}
    {st : UploadState}
    (sha256 : Bytes → Hash256)
    (setup : SessionSetup)
    (completing : Completing session turn id st) :
    ∃ ctx loop m next rest,
      session.phase = .live ctx loop ∧
        turn.running = true ∧
        turn.read = .ok m ∧
        m.op = .known .fileComplete ∧
        parseAll ByteReader.u32 m.payload = .ok id ∧
        loop.uploads[id]? = some st ∧
        session.phase.turn sha256 setup turn =
          (next,
            .received m ::
              (finishUpload sha256 setup ctx turn.outside id st ++ rest)) ∧
        Ends ctx turn.outside (loop.uploads.erase id) next rest := by
  obtain ⟨ctx, loop, m, live, running, read, op, decoded, found⟩ := completing
  have inverted := turn_uploadTurn sha256 setup session.phase turn
  generalize session.phase.turn sha256 setup turn = result at inverted ⊢
  cases inverted with
  | outside notLive cleared only =>
      exact (notLive ctx loop live).elim
  | unread isLive noMessage ends =>
      exact (noMessage m running read).elim
  | @handled otherCtx otherLoop other outcome next rest isLive _ isRead
      isHandled deals ends =>
      rw [live, SessionPhase.live.injEq] at isLive
      rw [read, ReadResult.ok.injEq] at isRead
      obtain ⟨rfl, rfl⟩ := isLive
      subst isRead
      rw [handle_complete op decoded found, Except.ok.injEq] at isHandled
      subst isHandled
      exact ⟨ctx, loop, m, next, rest, live, running, read, op, decoded, found,
        rfl, ends⟩
  | @threw otherCtx otherLoop other error isLive _ isRead failed =>
      rw [live, SessionPhase.live.injEq] at isLive
      rw [read, ReadResult.ok.injEq] at isRead
      obtain ⟨rfl, rfl⟩ := isLive
      subst isRead
      rw [handle_complete op decoded found] at failed
      cases failed

omit [DecidableEq Thread] in
/-- A completed upload was open. -/
theorem Completing.isOpen
    {id : UInt32}
    {st : UploadState}
    (completing : Completing (server.sessions input.1) input.2 id st) :
    server.uploads input.1 id = some st := by
  obtain ⟨ctx, loop, m, live, _, _, _, _, found⟩ := completing
  rw [uploads_live live]
  exact found

/-- A turn that places an upload claims its path. -/
theorem Placing.claims
    {session : Session}
    {turn : Turn}
    {id : UInt32}
    {st : UploadState}
    (setup : SessionSetup)
    (placing : Placing sha256 session turn id st) :
    st.finalPath ∈ turnClaims sha256 setup session turn := by
  obtain ⟨⟨ctx, loop, m, live, running, read, op, decoded, found⟩, agrees,
    renamed⟩ := placing
  rw [turnClaims_live live running read]
  simp [claimedPaths, op, decoded, found, agrees, renamed]

/-- An upload that is put in place is reported to the client. -/
theorem Placing.reports
    {session : Session}
    {turn : Turn}
    {id : UInt32}
    {st : UploadState}
    (setup : SessionSetup)
    (placing : Placing sha256 session turn id st) :
    ∃ effect ∈ turnEffects sha256 setup session turn,
      verdictOf effect = some ⟨id, .known .ok⟩ := by
  obtain ⟨completing, agrees, renamed⟩ := placing
  obtain ⟨ctx, loop, m, next, rest, _, _, _, _, _, _, effects, _⟩ :=
    completing.turns sha256 setup
  obtain ⟨ok, detail, finishes⟩ :=
    finishUpload_placed setup ctx id agrees renamed
  refine ⟨.send (.known .fileVerify) (FileVerifyMsg.encode ⟨id, .known .ok⟩) ok,
    ?_, verdictOf_send _ _⟩
  rw [turnEffects, effects, finishes]
  simp

/-- What an upload has landed is what is then found in its place. -/
theorem Placing.files
    {id : UInt32}
    {st : UploadState}
    {contested : Path → Prop}
    (placing :
      Placing sha256 (server.sessions input.1) input.2 id st)
    (tidy : Tidy contested server.uploads server.files)
    (own : ¬contested st.tempPath)
    (free :
      ∀ otherId other,
        server.uploads input.1 otherId = some other →
        st.finalPath ≠ other.tempPath) :
    (server.step sha256 setup input).files st.finalPath =
      some (st.stored input.2.outside.flushedAtClose) := by
  obtain ⟨completing, agrees, renamed⟩ := placing
  obtain ⟨ctx, loop, m, next, rest, live, _, _, _, _, found, effects, ends⟩ :=
    completing.turns sha256 (setup input.1)
  have known : server.uploads input.1 id = some st := by
    rw [uploads_live live]
    exact found
  have placed :=
    (finishUpload_files_placed (setup input.1) ctx id
      (tidy.onDisk _ _ _ known own) agrees renamed).1
  calc
    (server.step sha256 setup input).files st.finalPath
      = filesAfter
          (filesAfter server.files
            (finishUpload sha256 (setup input.1) ctx input.2.outside id st))
          rest st.finalPath := by
        rw [FileServer.step, turnEffects, effects, ← List.singleton_append,
          filesAfter_append, filesAfter_append]
        rfl
    _ = filesAfter server.files
          (finishUpload sha256 (setup input.1) ctx input.2.outside id st)
          st.finalPath := by
        apply ends.spares
        intro otherId other isOther
        rw [uploads_erase] at isOther
        split at isOther
        · cases isOther
        · have isOpen : server.uploads input.1 otherId = some other := by
            rw [uploads_live live]
            exact isOther
          have apart := free otherId other isOpen
          rw [tidy.path _ _ _ isOpen]
          exact ⟨apart, apart⟩
    _ = _ := placed

end Servers

end Sharing

end RadminPro
