import RadminPro.SharedUploads

namespace RadminPro

open ByteCodec

/-!
# What an upload leaves behind

An upload that has the disk to itself is followed from its request to the end of
its session.  It leaves the other files alone, replaces its file only when it is
reported, and cleans up, exactly if no file was in the way of its temporary one
and the disk does what the end of the upload asks of it.
-/

/-- The client is told that an upload is in place. -/
def TellsOk (id : UInt32) (effect : Effect) : Prop :=
  verdictOf effect = some ⟨id, .known .ok⟩

/-- An upload changes its file or nothing, reports which, and cleans up. -/
structure AtomicUpload
    (before : Files)
    (dest : Path)
    (id : UInt32)
    (since : List Effect)
    (after : Files) : Prop where
  others :
    ∀ path content,
      path ≠ dest → before path = some content → after path = some content
  changed : after dest ≠ before dest → ∃ effect ∈ since, TellsOk id effect
  placed :
    ∀ earlier effect later,
      since = earlier ++ effect :: later →
      TellsOk id effect →
      after dest = some (blockData id earlier)
  clean : after (dest ++ ascii ".part") = none

/-- An upload that is open, and the only one. -/
structure Alone
    (before : Files)
    (dest : Path)
    (id : UInt32)
    (uploads : UInt32 → Option UploadState)
    (files : Files)
    (st : UploadState)
    (since : List Effect) : Prop where
  only : uploads = Function.update (fun _ => none) id (some st)
  onDisk : st.OnDisk files
  finalPath : st.finalPath = dest
  untouched : ∀ path, path ≠ dest ++ ascii ".part" → files path = before path
  unsaid : ∀ effect ∈ since, ¬TellsOk id effect
  fed : st.hasher.fed = blockData id since

section Leaving

variable {before files after : Files}
variable {dest : Path}
variable {id : UInt32}
variable {uploads : UInt32 → Option UploadState}
variable {st : UploadState}
variable {since more : List Effect}

/-- The name of a temporary file is not that of its file. -/
theorem part_ne (dest : Path) : dest ++ ascii ".part" ≠ dest := by
  intro same
  have empty : ascii ".part" = [] := List.append_right_eq_self.mp same
  cases empty

/-- What tells nothing of an upload does not change what is said of it. -/
theorem AtomicUpload.append_iff
    (unsaid : ∀ effect ∈ more, ¬TellsOk id effect) :
    AtomicUpload before dest id (since ++ more) after ↔
      AtomicUpload before dest id since after := by
  constructor
  · intro atomic
    refine ⟨atomic.others, ?_, ?_, atomic.clean⟩
    · intro different
      obtain ⟨effect, member, tells⟩ := atomic.changed different
      rcases List.mem_append.mp member with isSince | isMore
      · exact ⟨effect, isSince, tells⟩
      · exact (unsaid effect isMore tells).elim
    · intro earlier effect later split tells
      apply atomic.placed earlier effect (later ++ more) _ tells
      rw [split, List.append_assoc, List.cons_append]
  · intro atomic
    refine ⟨atomic.others, ?_, ?_, atomic.clean⟩
    · intro different
      obtain ⟨effect, member, tells⟩ := atomic.changed different
      exact ⟨effect, List.mem_append_left _ member, tells⟩
    · intro earlier effect later split tells
      rcases List.append_eq_append_iff.mp split with
        ⟨middle, isEarlier, isMore⟩ | ⟨middle, isSince, isRest⟩
      · refine (unsaid effect ?_ tells).elim
        rw [isMore]
        simp
      · cases middle with
        | nil =>
            refine (unsaid effect ?_ tells).elim
            rw [List.nil_append] at isRest
            rw [← isRest]
            exact List.mem_cons_self
        | cons head tail =>
            rw [List.cons_append, List.cons.injEq] at isRest
            obtain ⟨rfl, _⟩ := isRest
            exact atomic.placed earlier effect tail isSince tells

namespace Alone

/-- The temporary file is the one that belongs to the destination. -/
theorem tempPath (alone : Alone before dest id uploads files st since) :
    st.tempPath = dest ++ ascii ".part" := by
  rw [alone.onDisk.tempPath, alone.finalPath]

/-- An upload that is given up is atomic when nothing was or is left in its file. -/
theorem given_up
    (alone : Alone before dest id uploads files st since)
    (unsaid : ∀ effect ∈ more, ¬TellsOk id effect)
    (untouched : ∀ path, path ≠ st.tempPath → after path = files path) :
    AtomicUpload before dest id (since ++ more) after ↔
      before (dest ++ ascii ".part") = none ∧ after st.tempPath = none := by
  rw [alone.tempPath] at untouched ⊢
  have same : ∀ path, path ≠ dest ++ ascii ".part" → after path = before path :=
    fun path other => (untouched path other).trans (alone.untouched path other)
  rw [AtomicUpload.append_iff unsaid]
  constructor
  · intro atomic
    refine ⟨?_, atomic.clean⟩
    cases was : before (dest ++ ascii ".part") with
    | none => rfl
    | some content =>
        have still := atomic.others _ content (part_ne dest) was
        rw [atomic.clean] at still
        cases still
  · rintro ⟨free, clean⟩
    refine ⟨?_, ?_, ?_, clean⟩
    · intro path content _ was
      have other : path ≠ dest ++ ascii ".part" := by
        rintro rfl
        rw [free] at was
        cases was
      rw [same path other, was]
    · intro different
      exact (different (same dest (part_ne dest).symm)).elim
    · intro earlier effect later split tells
      refine (alone.unsaid effect ?_ tells).elim
      rw [split]
      simp

/-- An upload that is put in place is atomic when its file holds its blocks. -/
theorem put_in_place
    {verdict : Effect}
    {ending : List Effect}
    {content : Bytes}
    (alone : Alone before dest id uploads files st since)
    (tells : TellsOk id verdict)
    (unsaid : ∀ effect ∈ more, ¬TellsOk id effect)
    (noData : blockData id more = [])
    (endUnsaid : ∀ effect ∈ ending, ¬TellsOk id effect)
    (untouched :
      ∀ path, path ≠ st.tempPath → path ≠ dest → after path = files path)
    (clean : after st.tempPath = none)
    (stored : after dest = some content) :
    AtomicUpload before dest id (since ++ (more ++ verdict :: ending)) after ↔
      before (dest ++ ascii ".part") = none ∧ content = st.hasher.fed := by
  rw [alone.tempPath] at untouched clean
  have came : blockData id (since ++ more) = st.hasher.fed := by
    rw [blockData_append, noData, List.append_nil, alone.fed]
  rw [← List.append_assoc]
  constructor
  · intro atomic
    refine ⟨?_, ?_⟩
    · cases was : before (dest ++ ascii ".part") with
      | none => rfl
      | some old =>
          have still := atomic.others _ old (part_ne dest) was
          rw [clean] at still
          cases still
    · have held := atomic.placed _ verdict ending rfl tells
      rw [stored, came, Option.some.injEq] at held
      exact held
  · rintro ⟨free, whole⟩
    refine ⟨?_, ?_, ?_, clean⟩
    · intro path old other was
      have notTemp : path ≠ dest ++ ascii ".part" := by
        rintro rfl
        rw [free] at was
        cases was
      rw [untouched path notTemp other, alone.untouched path notTemp, was]
    · exact fun _ => ⟨verdict, by simp, tells⟩
    · intro earlier effect later split alsoTells
      have isEarlier : earlier = since ++ more := by
        have quiet : ∀ effect ∈ since ++ more, ¬TellsOk id effect := by
          intro effect member
          rcases List.mem_append.mp member with isSince | isMore
          · exact alone.unsaid effect isSince
          · exact unsaid effect isMore
        rcases List.append_eq_append_iff.mp split with
          ⟨middle, isEarlier, isRest⟩ | ⟨middle, isBefore, isRest⟩
        · cases middle with
          | nil =>
              rw [isEarlier, List.append_nil]
          | cons head tail =>
              rw [List.cons_append, List.cons.injEq] at isRest
              refine (endUnsaid effect ?_ alsoTells).elim
              rw [isRest.2]
              simp
        · cases middle with
          | nil =>
              rw [isBefore, List.append_nil]
          | cons head tail =>
              rw [List.cons_append, List.cons.injEq] at isRest
              refine (quiet effect ?_ alsoTells).elim
              rw [isBefore, ← isRest.1]
              simp
      rw [isEarlier, came, stored, whole]

/-- Effects that do not concern the upload leave it alone. -/
theorem aside
    (alone : Alone before dest id uploads files st since)
    (unchanged : ∀ effect ∈ more, effect.change? = none)
    (unsaid : ∀ effect ∈ more, ¬TellsOk id effect)
    (noData : blockData id more = []) :
    Alone before dest id uploads (filesAfter files more) st (since ++ more) where
  only := alone.only
  onDisk := by
    rw [filesAfter_unchanged files unchanged]
    exact alone.onDisk
  finalPath := alone.finalPath
  untouched := by
    rw [filesAfter_unchanged files unchanged]
    exact alone.untouched
  unsaid := by
    intro effect member
    rcases List.mem_append.mp member with isSince | isMore
    · exact alone.unsaid effect isSince
    · exact unsaid effect isMore
  fed := by
    rw [blockData_append, noData, List.append_nil, alone.fed]

/-- A block of the upload goes to its file and to its hash. -/
theorem block
    {m : Message}
    (alone : Alone before dest id uploads files st since)
    (data : Bytes)
    (flush : Flush)
    (brings : blockOf id (.received m) = data) :
    Alone before dest id
      (Function.update (fun _ => none) id (some (st.block data flush)))
      (filesAfter files (.received m :: (st.out.write data flush).2))
      (st.block data flush)
      (since ++ .received m :: (st.out.write data flush).2) where
  only := rfl
  onDisk := alone.onDisk.block data flush
  finalPath := alone.finalPath
  untouched := by
    intro path other
    have spared : path ≠ st.out.path := by
      rw [alone.onDisk.path, alone.tempPath]
      exact other
    have written :
        filesAfter files (st.out.write data flush).2 path = files path :=
      filesAfter_spared files (st.out.write_spares data flush spared)
    exact written.trans (alone.untouched path other)
  unsaid := by
    intro effect member
    rcases List.mem_append.mp member with isSince | isNew
    · exact alone.unsaid effect isSince
    · rcases List.mem_cons.mp isNew with rfl | isWrite
      · simp [TellsOk, verdictOf]
      · simp [TellsOk, (inert_write _ _ _ effect isWrite).1.2]
  fed := by
    have writes : blockData id (st.out.write data flush).2 = [] :=
      blockData_of_unreceived
        (fun effect member => (inert_write _ _ _ effect member).2) id
    rw [blockData_append, blockData_cons, brings, writes, List.append_nil,
      ← alone.fed]
    rfl

end Alone

end Leaving

/-! ## Turns -/

/-- The turn brings no request that is about files of its own. -/
def FileQuiet (turn : Turn) : Prop :=
  ∀ m,
    turn.read = .ok m →
    m.op ≠ .known .fileUploadReq ∧
      m.op ≠ .known .fileDelete ∧
      m.op ≠ .known .fileMove

instance (turn : Turn) : Decidable (FileQuiet turn) :=
  match read : turn.read with
  | .ok m =>
      decidable_of_iff
        (m.op ≠ .known .fileUploadReq ∧
          m.op ≠ .known .fileDelete ∧
          m.op ≠ .known .fileMove)
        (by simp [FileQuiet, read])
  | .timeout => isTrue (by simp [FileQuiet, read])
  | .closed => isTrue (by simp [FileQuiet, read])

/--
The disk does what the end of an upload asks of it: everything lands of an upload
that is put in place, and the file of any other is removed.
-/
structure CleansUp
    (sha256 : Bytes → Hash256)
    (setup : SessionSetup)
    (session : Session)
    (turn : Turn) : Prop where
  completed :
    ∀ id st,
      Completing session turn id st →
      if st.Agrees sha256 ∧ turn.outside.renamed = true then
        st.landed turn.outside.flushedAtClose = st.hasher.fed.length
      else
        turn.outside.removed = true
  closed :
    ∀ ctx loop unfinished,
      session.phase = .live ctx loop →
      (session.phase.turn sha256 setup turn).1 = .closed unfinished →
      ∀ (id : UInt32) (st : UploadState),
        unfinished[id]? = some st → (turn.outside.cleanup id).2 = true

section Turns

variable {sha256 : Bytes → Hash256}
variable {setup : SessionSetup}
variable {session : Session}
variable {turn : Turn}
variable {ctx : SessionContext}
variable {out : Outside}
variable {map : Uploads}
variable {next : SessionPhase}
variable {rest : List Effect}

/-- What is aside tells the client of no upload. -/
theorem Aside.untold
    {effect : Effect}
    (aside : Aside effect)
    (id : UInt32) :
    ¬TellsOk id effect := by
  simp [TellsOk, aside.verdict]

/-- A session that closes leaves the map of its loop behind. -/
theorem Ends.unfinished
    {unfinished : Uploads}
    (ends : Ends ctx out map (.closed unfinished) rest) :
    unfinished = map := by
  generalize same : SessionPhase.closed unfinished = phase at ends
  cases ends with
  | live kept only =>
      cases same
  | closed onlyShown onlyEnding =>
      exact SessionPhase.closed.inj same

/-- A session that goes on keeps the map of its loop. -/
theorem Ends.kept
    (ends : Ends ctx out map next rest) :
    (next.upload? = fun id => map[id]?) ∨ next = .closed map := by
  cases ends with
  | live kept only =>
      apply Or.inl
      rw [← kept]
      rfl
  | closed onlyShown onlyEnding =>
      exact .inr rfl

/-- Without uploads there is nothing to discard. -/
theorem discarded_nothing
    (empty : ∀ id : UInt32, map[id]? = none) :
    discarded out map = [] := by
  apply List.flatMap_eq_nil_iff.mpr
  intro entry member
  have found := Std.TreeMap.mem_toList_iff_getElem?_eq_some.mp member
  rw [empty] at found
  cases found

/-- The end of a turn without uploads changes no file and tells of none. -/
theorem Ends.idle
    (ends : Ends ctx out map next rest)
    (empty : ∀ id : UInt32, map[id]? = none) :
    (next.upload? = fun _ => none) ∧
      ∀ effect ∈ rest, effect.change? = none ∧ ∀ id, ¬TellsOk id effect := by
  have aside :
      ∀ {effect : Effect},
        Aside effect →
        effect.change? = none ∧ ∀ id, ¬TellsOk id effect :=
    fun isAside => ⟨isAside.change, isAside.untold⟩
  cases ends with
  | live kept only =>
      refine ⟨?_, fun effect member => aside (only effect member).1⟩
      funext id
      exact (congrArg (fun map : Uploads => map[id]?) kept).trans (empty id)
  | closed onlyShown onlyEnding =>
      refine ⟨rfl, fun effect member => ?_⟩
      rw [discarded_nothing empty, List.append_nil] at member
      rcases List.mem_append.mp member with isShown | isEnding
      · exact aside (onlyShown effect isShown).1
      · exact aside (onlyEnding effect isEnding).1

/-- A quiet turn of a session without uploads leaves the disk alone. -/
theorem idle_turn
    (sha256 : Bytes → Hash256)
    (setup : SessionSetup)
    (idle : session.phase.upload? = fun _ => none)
    (quiet : FileQuiet turn) :
    ((session.phase.turn sha256 setup turn).1.upload? = fun _ => none) ∧
      (∀ effect ∈ (session.phase.turn sha256 setup turn).2,
        effect.change? = none ∧ ∀ id, ¬TellsOk id effect) ∧
      CleansUp sha256 setup session turn := by
  have unopened :
      ∀ {ctx : SessionContext} {loop : LoopState} {id : UInt32}
        {st : UploadState},
        session.phase = .live ctx loop → loop.uploads[id]? ≠ some st := by
    intro ctx loop id st live found
    have isOpen : session.phase.upload? id = some st := by
      rw [live]
      exact found
    rw [idle] at isOpen
    cases isOpen
  have incomplete : ∀ id st, ¬Completing session turn id st := by
    rintro id st ⟨ctx, loop, m, live, _, _, _, _, found⟩
    exact unopened live found
  have inverted := turn_uploadTurn sha256 setup session.phase turn
  have cleansUp :
      (∀ ctx loop unfinished,
        session.phase = .live ctx loop →
        (session.phase.turn sha256 setup turn).1 = .closed unfinished →
        ∀ id : UInt32, unfinished[id]? = none) →
      CleansUp sha256 setup session turn := by
    intro cleared
    refine ⟨fun id st completing => (incomplete id st completing).elim, ?_⟩
    intro ctx loop unfinished live closed id st found
    rw [cleared ctx loop unfinished live closed] at found
    cases found
  generalize session.phase.turn sha256 setup turn = result
    at inverted cleansUp ⊢
  have received :
      ∀ m : Message,
        (Effect.received m).change? = none ∧
          ∀ id, ¬TellsOk id (.received m) :=
    fun m => ⟨rfl, by simp [TellsOk, verdictOf]⟩
  cases inverted with
  | outside notLive cleared only =>
      refine ⟨cleared, fun effect member => ?_, cleansUp ?_⟩
      · obtain ⟨change, silent, _⟩ := only effect member
        exact ⟨change, by simp [TellsOk, silent.2]⟩
      · exact fun ctx loop _ live => (notLive ctx loop live).elim
  | @unread ctx loop next rest live noMessage ends =>
      have empty : ∀ id : UInt32, loop.uploads[id]? = none :=
        fun id => Option.eq_none_iff_forall_ne_some.mpr fun st => unopened live
      obtain ⟨cleared, only⟩ := ends.idle empty
      refine ⟨cleared, only, cleansUp ?_⟩
      rintro _ _ unfinished _ rfl
      rw [ends.unfinished]
      exact empty
  | @handled ctx loop m outcome next rest live running read isHandled deals ends =>
      have empty : ∀ id : UInt32, loop.uploads[id]? = none :=
        fun id => Option.eq_none_iff_forall_ne_some.mpr fun st => unopened live
      obtain ⟨noUpload, noDelete, noMove⟩ := quiet m read
      cases deals with
      | aside uploads only accepts unblocked uncompleted =>
          rw [uploads] at ends
          obtain ⟨cleared, onlyEnd⟩ := ends.idle empty
          refine ⟨cleared, fun effect member => ?_, cleansUp ?_⟩
          · rcases List.mem_cons.mp member with rfl | isRest
            · exact received m
            · rcases List.mem_append.mp isRest with isOutcome | isEnd
              · have isAside := only effect isOutcome
                exact ⟨isAside.change, isAside.untold⟩
              · exact onlyEnd effect isEnd
          · rintro _ _ unfinished _ rfl
            rw [ends.unfinished]
            exact empty
      | begun permitted op =>
          exact (noUpload op).elim
      | block op decoded found =>
          exact (unopened live found).elim
      | complete op decoded found =>
          exact (unopened live found).elim
      | deleted op =>
          exact (noDelete op).elim
      | moved op =>
          exact (noMove op).elim
  | threw live running read failed =>
      refine ⟨rfl, fun effect member => ?_, cleansUp ?_⟩
      · rw [List.mem_singleton.mp member]
        exact received _
      · rintro _ _ unfinished _ closed
        cases closed

/-! ## The turns of an upload that is alone -/

variable {before files : Files}
variable {dest : Path}
variable {id : UInt32}
variable {st : UploadState}
variable {since : List Effect}
variable {uploads : UInt32 → Option UploadState}

/-- The only upload of a map is found under its id and nowhere else. -/
theorem Alone.found_iff
    (alone : Alone before dest id (fun other => map[other]?) files st since)
    (other : UInt32)
    (found : UploadState) :
    map[other]? = some found ↔ other = id ∧ found = st := by
  have only : map[other]? = Function.update (fun _ => none) id (some st) other :=
    congrFun alone.only other
  rw [only]
  by_cases same : other = id
  · rw [same, Function.update_self, Option.some.injEq]
    exact ⟨fun isSt => ⟨rfl, isSt.symm⟩, fun both => both.2.symm⟩
  · rw [Function.update_of_ne same]
    simp [same]

/-- A map with one upload lists that one. -/
theorem Alone.toList
    (alone : Alone before dest id (fun other => map[other]?) files st since) :
    map.toList = [(id, st)] := by
  have isIt : ∀ entry ∈ map.toList, entry = (id, st) := by
    intro entry member
    have found := Std.TreeMap.mem_toList_iff_getElem?_eq_some.mp member
    obtain ⟨sameId, sameSt⟩ := (alone.found_iff entry.1 entry.2).mp found
    exact Prod.ext sameId sameSt
  have isThere : (id, st) ∈ map.toList :=
    Std.TreeMap.mem_toList_iff_getElem?_eq_some.mpr
      ((alone.found_iff id st).mpr ⟨rfl, rfl⟩)
  have distinct := Std.TreeMap.distinct_keys_toList (t := map)
  cases shape : map.toList with
  | nil =>
      rw [shape] at isThere
      cases isThere
  | cons first others =>
      rw [shape] at isIt distinct
      have isFirst := isIt first List.mem_cons_self
      cases others with
      | nil =>
          rw [isFirst]
      | cons second others =>
          have isSecond := isIt second (by simp)
          have differ := List.rel_of_pairwise_cons distinct List.mem_cons_self
          rw [isFirst, isSecond] at differ
          exact (differ (Std.compare_eq_iff_eq.mpr rfl)).elim

/-- The end of a turn leaves the upload open, or the session closes and discards it. -/
theorem Alone.ends
    (alone : Alone before dest id (fun other => map[other]?) files st since)
    (ends : Ends ctx out map next rest) :
    Alone before dest id next.upload? (filesAfter files rest) st
        (since ++ rest) ∨
      next = .closed map ∧
        (AtomicUpload before dest id (since ++ rest) (filesAfter files rest) ↔
          before (dest ++ ascii ".part") = none ∧
            (out.cleanup id).2 = true) := by
  have aside :
      ∀ {effect : Effect},
        Aside effect → effect.change? = none ∧ ¬TellsOk id effect :=
    fun isAside => ⟨isAside.change, isAside.untold id⟩
  cases ends with
  | @live loop rest kept only =>
      apply Or.inl
      have unreceived :
          ∀ effect ∈ rest, receivedMessage effect = none :=
        fun effect member => (only effect member).1.unreceived
      have still := alone.aside
        (fun effect member => (aside (only effect member).1).1)
        (fun effect member => (aside (only effect member).1).2)
        (blockData_of_unreceived unreceived id)
      rw [← kept] at still
      exact still
  | @closed shown ending onlyShown onlyEnding =>
      refine .inr ⟨rfl, ?_⟩
      let closed := filesAfter files (st.out.close (out.cleanup id).1)
      have discards : discarded out map =
          st.out.close (out.cleanup id).1 ++
            [.remove st.tempPath (out.cleanup id).2] := by
        rw [discarded, alone.toList]
        exact List.flatMap_singleton ..
      have left :
          filesAfter files (shown ++ discarded out map ++ ending) =
            filesAfter closed [.remove st.tempPath (out.cleanup id).2] := by
        rw [filesAfter_append, filesAfter_append,
          filesAfter_aside files fun effect member =>
            (onlyShown effect member).1,
          filesAfter_aside _ fun effect member => (onlyEnding effect member).1,
          discards, filesAfter_append]
      have unsaid :
          ∀ effect ∈ shown ++ discarded out map ++ ending,
            ¬TellsOk id effect := by
        intro effect member
        rcases List.mem_append.mp member with isFirst | isEnding
        · rcases List.mem_append.mp isFirst with isShown | isDiscard
          · exact (aside (onlyShown effect isShown).1).2
          · obtain ⟨entry, _, isEffect⟩ := List.mem_flatMap.mp isDiscard
            have inert := inert_discard effect isEffect
            simp [TellsOk, inert.1.2]
        · exact (aside (onlyEnding effect isEnding).1).2
      have stored : closed st.tempPath = some (st.stored (out.cleanup id).1) :=
        alone.onDisk.close _
      rw [alone.given_up unsaid]
      · rw [left]
        cases removed : (out.cleanup id).2 with
        | true =>
            simp [filesAfter, Effect.change?, FileStore.apply]
        | false =>
            have kept : filesAfter closed [.remove st.tempPath false] = closed :=
              rfl
            rw [kept, stored]
            simp
      · intro path other
        rw [left]
        have closes : closed path = files path :=
          alone.onDisk.close_other _ other
        cases (out.cleanup id).2 with
        | true =>
            have spares : path ∉
                (FileStore.Change.remove st.tempPath :
                  FileStore.Change Path UInt8).paths := by
              simpa [FileStore.Change.paths] using other
            exact (FileStore.apply_other closed spares).trans closes
        | false =>
            exact closes

/-- A completed upload is atomic when the disk does what is asked of it. -/
theorem Alone.completes
    {m : Message}
    (sha256 : Bytes → Hash256)
    (setup : SessionSetup)
    (ctx : SessionContext)
    (out : Outside)
    (alone : Alone before dest id uploads files st since)
    (op : m.op = .known .fileComplete)
    (restQuiet :
      ∀ effect ∈ rest, effect.change? = none ∧ ¬TellsOk id effect) :
    AtomicUpload before dest id
        (since ++
          .received m :: (finishUpload sha256 setup ctx out id st ++ rest))
        (filesAfter files
          (.received m :: (finishUpload sha256 setup ctx out id st ++ rest))) ↔
      before (dest ++ ascii ".part") = none ∧
        if st.Agrees sha256 ∧ out.renamed = true then
          st.landed out.flushedAtClose = st.hasher.fed.length
        else
          out.removed = true := by
  have left :
      filesAfter files
          (.received m :: (finishUpload sha256 setup ctx out id st ++ rest)) =
        filesAfter files (finishUpload sha256 setup ctx out id st) := by
    have finished :
        filesAfter files (finishUpload sha256 setup ctx out id st ++ rest) =
          filesAfter files (finishUpload sha256 setup ctx out id st) := by
      rw [filesAfter_append,
        filesAfter_unchanged _ fun effect member => (restQuiet effect member).1]
    exact finished
  have received : ¬TellsOk id (.received m) := by
    simp [TellsOk, verdictOf]
  have closes :
      ∀ effect ∈ st.out.close out.flushedAtClose,
        ¬TellsOk id effect ∧ receivedMessage effect = none := by
    intro effect member
    have inert := inert_close _ _ effect member
    exact ⟨by simp [TellsOk, inert.1.2], inert.2⟩
  by_cases placed : st.Agrees sha256 ∧ out.renamed = true
  · rw [if_pos placed, ← alone.onDisk.stored_eq_iff]
    obtain ⟨ok, detail, effects⟩ :=
      finishUpload_placed setup ctx id placed.1 placed.2
    obtain ⟨stored, clean, untouched⟩ :=
      finishUpload_files_placed setup ctx id alone.onDisk placed.1 placed.2
    rw [alone.finalPath] at stored untouched effects
    have shape :
        .received m :: (finishUpload sha256 setup ctx out id st ++ rest) =
          (.received m :: (st.out.close out.flushedAtClose ++
              [.rename st.tempPath dest true])) ++
            .send (.known .fileVerify)
                (FileVerifyMsg.encode ⟨id, .known .ok⟩) ok ::
              (auditFileOp setup ctx .fileUpload dest (ascii "OK") detail ::
                rest) := by
      rw [effects]
      simp
    rw [left, shape]
    apply alone.put_in_place
    · exact verdictOf_send _ _
    · intro effect member
      rcases List.mem_cons.mp member with rfl | isRest
      · exact received
      · rcases List.mem_append.mp isRest with isClose | isRename
        · exact (closes effect isClose).1
        · rw [List.mem_singleton.mp isRename]
          simp [TellsOk, verdictOf]
    · have noBlock : blockOf id (.received m) = [] := by
        simp [blockOf, op]
      rw [blockData_cons, noBlock, List.nil_append]
      apply blockData_of_unreceived
      intro effect member
      rcases List.mem_append.mp member with isClose | isRename
      · exact (closes effect isClose).2
      · rw [List.mem_singleton.mp isRename]
        rfl
    · intro effect member
      rcases List.mem_cons.mp member with rfl | isRest
      · simp [TellsOk, verdictOf, auditFileOp]
      · exact (restQuiet effect isRest).2
    · exact untouched
    · exact clean
    · exact stored
  · rw [if_neg placed]
    obtain ⟨tried, verdict, effects, isTried, isVerdict⟩ :=
      finishUpload_discarded setup ctx id placed
    obtain ⟨clean, untouched⟩ :=
      finishUpload_files_discarded setup ctx id alone.onDisk placed
    rw [left]
    have unsaid :
        ∀ effect ∈
            .received m :: (finishUpload sha256 setup ctx out id st ++ rest),
          ¬TellsOk id effect := by
      intro effect member
      rcases List.mem_cons.mp member with rfl | isMore
      · exact received
      · rcases List.mem_append.mp isMore with isFinish | isRest
        · rw [effects] at isFinish
          rcases List.mem_append.mp isFinish with isFirst | isLast
          · rcases List.mem_append.mp isFirst with isClose | isRename
            · exact (closes effect isClose).1
            · rw [isTried effect isRename]
              simp [TellsOk, verdictOf]
          · rcases List.mem_cons.mp isLast with rfl | isReply
            · simp [TellsOk, verdictOf]
            · intro tells
              exact (isVerdict effect isReply).2.1 _ tells rfl
        · exact (restQuiet effect isRest).2
    rw [alone.given_up unsaid untouched, clean]
    cases out.removed <;> simp

/-- Where an upload stands after a turn of its session. -/
inductive AloneTurn
    (before : Files)
    (dest : Path)
    (id : UInt32)
    (cleansUp : Prop)
    (files : Files)
    (since : List Effect) : SessionPhase × List Effect → Prop where
  | stillOpen
      {result : SessionPhase × List Effect} {st : UploadState}
      (alone :
        Alone before dest id result.1.upload? (filesAfter files result.2) st
          (since ++ result.2))
      (clean : cleansUp) :
      AloneTurn before dest id cleansUp files since result
  | settled
      {result : SessionPhase × List Effect}
      (cleared : result.1.upload? = fun _ => none)
      (atomic :
        AtomicUpload before dest id (since ++ result.2)
            (filesAfter files result.2) ↔
          before (dest ++ ascii ".part") = none ∧ cleansUp) :
      AloneTurn before dest id cleansUp files since result
  | threw
      {error : DeserializeError} {effects : List Effect} :
      AloneTurn before dest id cleansUp files since (.terminated error, effects)

/-- A turn that ends without completing an upload leaves it open or discards it. -/
theorem Alone.turn_ends
    {ctx : SessionContext}
    {loop : LoopState}
    {earlier : List Effect}
    (alone :
      Alone before dest id (fun other => map[other]?)
        (filesAfter files earlier) st (since ++ earlier))
    (live : session.phase = .live ctx loop)
    (incomplete : ∀ id st, ¬Completing session turn id st)
    (isTurn :
      session.phase.turn sha256 setup turn = (next, earlier ++ rest))
    (ends : Ends ctx turn.outside map next rest) :
    AloneTurn before dest id (CleansUp sha256 setup session turn) files since
      (next, earlier ++ rest) := by
  have isOpen : map[id]? = some st :=
    (alone.found_iff id st).mpr ⟨rfl, rfl⟩
  have completed :
      ∀ id st,
        Completing session turn id st →
        if st.Agrees sha256 ∧ turn.outside.renamed = true then
          st.landed turn.outside.flushedAtClose = st.hasher.fed.length
        else
          turn.outside.removed = true :=
    fun id st completing => (incomplete id st completing).elim
  rcases alone.ends ends with stillAlone | ⟨closed, atomic⟩
  · rw [List.append_assoc, ← filesAfter_append] at stillAlone
    refine .stillOpen stillAlone ⟨completed, ?_⟩
    intro _ _ unfinished _ isClosed
    rw [isTurn] at isClosed
    dsimp only at isClosed
    have only := congrFun stillAlone.only id
    rw [isClosed, Function.update_self] at only
    cases only
  · subst closed
    refine .settled rfl ?_
    rw [← filesAfter_append, List.append_assoc] at atomic
    refine atomic.trans (and_congr_right fun _ => ⟨?_, ?_⟩)
    · intro removed
      refine ⟨completed, ?_⟩
      intro _ _ unfinished _ isClosed other found isFound
      rw [isTurn, SessionPhase.closed.injEq] at isClosed
      subst isClosed
      obtain ⟨rfl, _⟩ := (alone.found_iff other found).mp isFound
      exact removed
    · intro cleansUp
      apply cleansUp.closed ctx loop map live _ id st isOpen
      rw [isTurn]

/-- Each turn leaves the upload open, settles it, or ends the server. -/
theorem Alone.turns
    (sha256 : Bytes → Hash256)
    (setup : SessionSetup)
    (alone : Alone before dest id session.phase.upload? files st since)
    (quiet : FileQuiet turn) :
    AloneTurn before dest id (CleansUp sha256 setup session turn) files since
      (session.phase.turn sha256 setup turn) := by
  have isOpen : session.phase.upload? id = some st := by
    rw [alone.only, Function.update_self]
  have inverted := turn_uploadTurn sha256 setup session.phase turn
  generalize isTurn : session.phase.turn sha256 setup turn = result
    at inverted ⊢
  cases inverted with
  | outside notLive cleared only =>
      cases phase : session.phase with
      | live ctx loop =>
          exact (notLive ctx loop phase).elim
      | _ =>
          rw [phase] at isOpen
          cases isOpen
  | @unread ctx loop next rest live noMessage ends =>
      have here : Alone before dest id (fun other => loop.uploads[other]?)
          (filesAfter files []) st (since ++ []) := by
        rw [live] at alone
        rw [List.append_nil]
        exact alone
      rw [← List.nil_append rest] at isTurn ⊢
      apply here.turn_ends live _ isTurn ends
      rintro _ _ ⟨_, _, m, _, running, read, _⟩
      exact noMessage m running read
  | @handled ctx loop m outcome next rest live running read isHandled deals ends =>
      have here : Alone before dest id (fun other => loop.uploads[other]?)
          files st since := by
        rw [live] at alone
        exact alone
      have same :
          ∀ {otherCtx : SessionContext} {otherLoop : LoopState} {other : Message},
            session.phase = .live otherCtx otherLoop →
            turn.read = .ok other →
            otherLoop = loop ∧ other = m := by
        intro otherCtx otherLoop other isLive isRead
        rw [live, SessionPhase.live.injEq] at isLive
        rw [read, ReadResult.ok.injEq] at isRead
        exact ⟨isLive.2.symm, isRead.symm⟩
      obtain ⟨noUpload, noDelete, noMove⟩ := quiet m read
      cases deals with
      | aside uploads only accepts unblocked uncompleted =>
          have kept : Alone before dest id
              (fun other => outcome.loop.uploads[other]?)
              (filesAfter files (.received m :: outcome.effects)) st
              (since ++ .received m :: outcome.effects) := by
            rw [uploads]
            apply here.aside
            · intro effect member
              rcases List.mem_cons.mp member with rfl | isOutcome
              · rfl
              · exact (only effect isOutcome).change
            · intro effect member
              rcases List.mem_cons.mp member with rfl | isOutcome
              · simp [TellsOk, verdictOf]
              · exact (only effect isOutcome).untold id
            · have isFound : loop.uploads[id]? = some st :=
                (here.found_iff id st).mpr ⟨rfl, rfl⟩
              rw [blockData_cons, blockOf_unblocked unblocked isFound]
              exact blockData_of_unreceived
                (fun effect member => (only effect member).unreceived) id
          rw [← List.cons_append] at isTurn ⊢
          apply kept.turn_ends live _ isTurn ends
          rintro other found ⟨_, _, _, isLive, _, isRead, op, decoded, isFound⟩
          obtain ⟨rfl, rfl⟩ := same isLive isRead
          rw [uncompleted other op decoded] at isFound
          cases isFound
      | begun permitted op =>
          exact (noUpload op).elim
      | @block blk old op decoded found =>
          obtain ⟨isId, rfl⟩ := (here.found_iff _ _).mp found
          have kept := here.block blk.data turn.outside.flush
            ((blockOf_block op decoded id).trans (if_pos isId))
          have entries :
              (fun other =>
                  (loop.uploads.insert blk.transferId
                    (old.block blk.data turn.outside.flush))[other]?) =
                Function.update (fun _ => none) id
                  (some (old.block blk.data turn.outside.flush)) := by
            rw [uploads_insert, here.only, isId, Function.update_idem]
          rw [← entries] at kept
          rw [← List.cons_append] at isTurn ⊢
          apply kept.turn_ends live _ isTurn ends
          rintro _ _ ⟨_, _, _, isLive, _, isRead, isComplete, _⟩
          obtain ⟨rfl, rfl⟩ := same isLive isRead
          rw [op] at isComplete
          cases isComplete
      | @complete doneId done op decoded found =>
          obtain ⟨rfl, rfl⟩ := (here.found_iff _ _).mp found
          have empty : ∀ other : UInt32,
              (loop.uploads.erase doneId)[other]? = none := by
            intro other
            rw [uploads_erase]
            split
            · rfl
            · next different =>
                have only : loop.uploads[other]? = _ :=
                  congrFun here.only other
                rw [only, Function.update_of_ne different]
          obtain ⟨cleared, onlyEnd⟩ := ends.idle empty
          have completes :=
            here.completes sha256 setup ctx turn.outside op fun effect member =>
              ⟨(onlyEnd effect member).1, (onlyEnd effect member).2 _⟩
          refine .settled cleared (completes.trans ?_)
          refine and_congr_right fun _ => ⟨?_, ?_⟩
          · intro asAsked
            refine ⟨?_, ?_⟩
            · rintro other st ⟨_, _, _, isLive, _, isRead, _, isDecoded, isFound⟩
              obtain ⟨rfl, rfl⟩ := same isLive isRead
              obtain ⟨rfl, rfl⟩ := (here.found_iff _ _).mp isFound
              exact asAsked
            · rintro _ _ unfinished _ isClosed other st isFound
              rw [isTurn] at isClosed
              dsimp only at isClosed
              subst isClosed
              rw [ends.unfinished, empty] at isFound
              cases isFound
          · intro cleansUp
            exact cleansUp.completed doneId done
              ⟨ctx, loop, m, live, running, read, op, decoded, found⟩
      | deleted op =>
          exact (noDelete op).elim
      | moved op =>
          exact (noMove op).elim
  | threw live running read failed =>
      exact .threw

end Turns

/-! ## Runs -/

/-- The session has left its event loop as it should. -/
def SessionPhase.ended : SessionPhase → Bool
  | .closed _ => true
  | _ => false

/-- A turn that accepts an upload under an id. -/
def Begins
    (setup : SessionSetup)
    (session : Session)
    (turn : Turn)
    (id : UInt32)
    (dest : Path) : Prop :=
  ∃ ctx loop m req,
    session.phase = .live ctx loop ∧
      loop.nextTransferId = id ∧
      turn.running = true ∧
      turn.read = .ok m ∧
      m.op = .known .fileUploadReq ∧
      ctx.canTransfer = true ∧
      FileUploadReqMsg.decode m.payload = .ok req ∧
      resolveInRoot turn.outside setup.fileRoot req.remotePath = some dest ∧
      turn.outside.opened = true

/-- A message that asks for an upload begins it, if its path is resolved. -/
theorem handle_request
    (sha256 : Bytes → Hash256)
    {setup : SessionSetup}
    {ctx : SessionContext}
    {out : Outside}
    (loop : LoopState)
    {m : Message}
    {req : FileUploadReqMsg}
    {dest : Path}
    (op : m.op = .known .fileUploadReq)
    (permitted : ctx.canTransfer = true)
    (decoded : FileUploadReqMsg.decode m.payload = .ok req)
    (resolved : resolveInRoot out setup.fileRoot req.remotePath = some dest) :
    handle sha256 setup ctx out loop m = .ok (beginUpload out loop req dest) := by
  simp only [handle, op, handleFileUploadReq, permitted, decoded, bind,
    Except.bind, resolved]
  rfl

/-- An upload that begins where there is none is alone. -/
theorem alone_begun
    {out : Outside}
    {loop : LoopState}
    {m : Message}
    {req : FileUploadReqMsg}
    {dest : Path}
    (files : Files)
    (empty : ∀ id : UInt32, loop.uploads[id]? = none)
    (opened : out.opened = true)
    (op : m.op = .known .fileUploadReq) :
    Alone files dest loop.nextTransferId
      (fun id => (beginUpload out loop req dest).loop.uploads[id]?)
      (filesAfter files (.received m :: (beginUpload out loop req dest).effects))
      (.requested req dest)
      ([] ++ .received m :: (beginUpload out loop req dest).effects) := by
  obtain ⟨directories, replaced, ok, effects, isDirectory, isReplaced⟩ :=
    beginUpload_changes loop req dest opened
  have quiet :
      ∀ effect ∈ (beginUpload out loop req dest).effects,
        ¬TellsOk loop.nextTransferId effect ∧ receivedMessage effect = none := by
    intro effect member
    rw [effects] at member
    rcases List.mem_append.mp member with isOpening | isAnswer
    · rcases List.mem_append.mp isOpening with isFirst | isClose
      · rcases List.mem_append.mp isFirst with isDir | isOpen
        · have aside := (isDirectory effect isDir).1
          exact ⟨aside.untold _, aside.unreceived⟩
        · rw [List.mem_singleton.mp isOpen]
          simp [TellsOk, verdictOf, receivedMessage]
      · obtain ⟨old, flushed, found, _⟩ := isReplaced effect isClose
        rw [empty] at found
        cases found
    · rw [List.mem_singleton.mp isAnswer]
      simp [TellsOk, verdictOf, receivedMessage]
  have left :
      ∀ path,
        filesAfter files
            (.received m :: (beginUpload out loop req dest).effects) path =
          if path = dest ++ ascii ".part" then some [] else files path := by
    intro path
    apply beginUpload_files files loop req dest opened
    intro old found
    rw [empty] at found
    cases found
  constructor
  · have entries := uploads_insert loop.uploads loop.nextTransferId
      (.requested req dest)
    have none : (fun id : UInt32 => loop.uploads[id]?) = fun _ => Option.none :=
      funext empty
    rw [none] at entries
    rw [beginUpload_uploads loop req dest opened]
    exact entries
  · apply UploadState.onDisk_requested
    rw [left, if_pos rfl]
  · rfl
  · intro path other
    rw [left, if_neg other]
  · intro effect member
    rcases List.mem_cons.mp member with rfl | isEffect
    · simp [TellsOk, verdictOf]
    · exact (quiet effect isEffect).1
  · have noBlock : blockOf loop.nextTransferId (.received m) = [] := by
      simp [blockOf, op]
    rw [List.nil_append, blockData_cons, noBlock, List.nil_append,
      blockData_of_unreceived fun effect member => (quiet effect member).2]
    rfl

/-- An upload that has just been accepted is alone, unless its session ends. -/
theorem Begins.turns
    {session : Session}
    {turn : Turn}
    {id : UInt32}
    {dest : Path}
    (sha256 : Bytes → Hash256)
    (setup : SessionSetup)
    (files : Files)
    (begins : Begins setup session turn id dest)
    (idle : session.phase.upload? = fun _ => none) :
    AloneTurn files dest id (CleansUp sha256 setup session turn) files []
      (session.phase.turn sha256 setup turn) := by
  obtain ⟨ctx, loop, m, req, live, rfl, running, read, op, permitted, decoded,
    resolved, opened⟩ := begins
  have empty : ∀ other : UInt32, loop.uploads[other]? = none := by
    intro other
    rw [live] at idle
    exact congrFun idle other
  have handled := handle_request sha256 loop op permitted decoded resolved
  have inverted := turn_uploadTurn sha256 setup session.phase turn
  generalize isTurn : session.phase.turn sha256 setup turn = result
    at inverted ⊢
  cases inverted with
  | outside notLive cleared only =>
      exact (notLive ctx loop live).elim
  | unread isLive noMessage ends =>
      exact (noMessage m running read).elim
  | @handled otherCtx otherLoop other outcome next rest isLive _ isRead
      isHandled deals ends =>
      rw [live, SessionPhase.live.injEq] at isLive
      rw [read, ReadResult.ok.injEq] at isRead
      obtain ⟨rfl, rfl⟩ := isLive
      subst isRead
      rw [handled, Except.ok.injEq] at isHandled
      subst isHandled
      have begun :
          Alone files dest loop.nextTransferId
            (fun other =>
              (beginUpload turn.outside loop req dest).loop.uploads[other]?)
            (filesAfter files
              (.received m :: (beginUpload turn.outside loop req dest).effects))
            (.requested req dest)
            ([] ++
              .received m ::
                (beginUpload turn.outside loop req dest).effects) :=
        alone_begun files empty opened op
      rw [← List.cons_append] at isTurn ⊢
      apply begun.turn_ends live _ isTurn ends
      rintro otherId found ⟨_, otherLoop, _, isOther, _, _, _, _, isFound⟩
      rw [live, SessionPhase.live.injEq] at isOther
      obtain ⟨_, rfl⟩ := isOther
      rw [empty] at isFound
      cases isFound
  | @threw otherCtx otherLoop other error isLive _ isRead failed =>
      rw [live, SessionPhase.live.injEq] at isLive
      rw [read, ReadResult.ok.injEq] at isRead
      obtain ⟨rfl, rfl⟩ := isLive
      subst isRead
      rw [handled] at failed
      cases failed

section Runs

variable {Thread : Type}
variable [DecidableEq Thread]
variable {sha256 : Bytes → Hash256}
variable {setup : Thread → SessionSetup}
variable {server : FileServer Thread}
variable {thread : Thread}
variable {before : Files}
variable {dest : Path}
variable {id : UInt32}
variable {st : UploadState}
variable {earlier since : List Effect}

/-- The disk does in a turn what the end of an upload asks of it. -/
def ServerCleansUp
    (sha256 : Bytes → Hash256)
    (setup : Thread → SessionSetup)
    (server : FileServer Thread)
    (input : Thread × Turn) : Prop :=
  CleansUp sha256 (setup input.1) (server.sessions input.1) input.2

/-- One quiet turn of a session without uploads, seen from the whole server. -/
theorem idle_step
    (sha256 : Bytes → Hash256)
    (setup : Thread → SessionSetup)
    {input : Thread × Turn}
    (idle : (server.sessions input.1).phase.upload? = fun _ => none)
    (quiet : FileQuiet input.2) :
    (server.step sha256 setup input).uploads = server.uploads ∧
      (server.step sha256 setup input).files = server.files ∧
      (∃ more,
        ((server.step sha256 setup input).sessions input.1).trace =
            (server.sessions input.1).trace ++ more ∧
          ∀ effect ∈ more, ∀ id, ¬TellsOk id effect) ∧
      ServerCleansUp sha256 setup server input := by
  obtain ⟨cleared, only, clean⟩ :=
    idle_turn sha256 (setup input.1) idle quiet
  refine ⟨?_, ?_, ⟨_, ?_, fun effect member => (only effect member).2⟩, clean⟩
  · rw [FileServer.step_uploads, cleared, ← idle]
    exact Function.update_eq_self input.1 server.uploads
  · exact filesAfter_unchanged _ fun effect member => (only effect member).1
  · simp only [FileServer.step, Function.update_self]
    rfl

/--
The turn is no file operation of its own: in one session it brings no request that
is about files, in the others it does nothing to the disk.
-/
def Undisturbed
    (sha256 : Bytes → Hash256)
    (setup : Thread → SessionSetup)
    (thread : Thread)
    (server : FileServer Thread)
    (input : Thread × Turn) : Prop :=
  if input.1 = thread then
    FileQuiet input.2
  else
    ∀ effect ∈
        turnEffects sha256 (setup input.1) (server.sessions input.1) input.2,
      effect.change? = none

instance
    (sha256 : Bytes → Hash256)
    (setup : Thread → SessionSetup)
    (thread : Thread)
    (server : FileServer Thread)
    (input : Thread × Turn) :
    Decidable (Undisturbed sha256 setup thread server input) :=
  inferInstanceAs
    (Decidable
      (if input.1 = thread then
        FileQuiet input.2
      else
        ∀ effect ∈
            turnEffects sha256 (setup input.1) (server.sessions input.1) input.2,
          effect.change? = none))

/-- The disk does what the end of the uploads of one session asks of it. -/
def CleansUpFor
    (sha256 : Bytes → Hash256)
    (setup : Thread → SessionSetup)
    (thread : Thread)
    (server : FileServer Thread)
    (input : Thread × Turn) : Prop :=
  input.1 = thread → ServerCleansUp sha256 setup server input

/-- A turn of another session that does nothing to the disk is not noticed. -/
theorem Undisturbed.unnoticed
    {input : Thread × Turn}
    (undisturbed : Undisturbed sha256 setup thread server input)
    (other : input.1 ≠ thread) :
    (server.step sha256 setup input).sessions thread = server.sessions thread ∧
      (server.step sha256 setup input).files = server.files := by
  rw [Undisturbed, if_neg other] at undisturbed
  refine ⟨?_, filesAfter_unchanged _ undisturbed⟩
  simp only [FileServer.step, Function.update_of_ne (Ne.symm other)]

/-- Once an upload is settled, what has been said of it stays as it is. -/
theorem settled_run
    {later : List (Thread × Turn)}
    (idle : (server.sessions thread).phase.upload? = fun _ => none)
    (undisturbed :
      StepRuns.Allowed (FileServer.step sha256 setup)
        (Undisturbed sha256 setup thread) server later)
    (trace : (server.sessions thread).trace = earlier ++ since) :
    (AtomicUpload before dest id
        (((StepRuns.run (FileServer.step sha256 setup) server later).sessions
          thread).trace.drop earlier.length)
        (StepRuns.run (FileServer.step sha256 setup) server later).files ↔
      AtomicUpload before dest id since server.files) ∧
    StepRuns.Allowed (FileServer.step sha256 setup)
      (CleansUpFor sha256 setup thread) server later := by
  induction later generalizing server since with
  | nil =>
      rw [StepRuns.run_nil, trace, List.drop_left]
      exact ⟨Iff.rfl, trivial⟩
  | cons input rest inductionHypothesis =>
      obtain ⟨now, restUndisturbed⟩ := undisturbed
      by_cases same : input.1 = thread
      · subst same
        rw [Undisturbed, if_pos rfl] at now
        obtain ⟨uploads, files, ⟨more, grown, untold⟩, clean⟩ :=
          idle_step sha256 setup idle now
        have stillIdle :
            (server.step sha256 setup input).uploads input.1 = fun _ => none := by
          rw [uploads]
          exact idle
        rw [trace, List.append_assoc] at grown
        obtain ⟨atomic, allowed⟩ :=
          inductionHypothesis stillIdle restUndisturbed grown
        rw [files, AtomicUpload.append_iff fun effect member =>
          untold effect member id] at atomic
        exact ⟨atomic, fun _ => clean, allowed⟩
      · obtain ⟨session, files⟩ := now.unnoticed same
        obtain ⟨atomic, allowed⟩ :=
          inductionHypothesis (session ▸ idle) restUndisturbed
            ((congrArg Session.trace session).trans trace)
        rw [files] at atomic
        exact ⟨atomic, fun isThread => absurd isThread same, allowed⟩

/-- What a turn adds to the history of its session. -/
theorem step_trace
    (sha256 : Bytes → Hash256)
    (setup : Thread → SessionSetup)
    (server : FileServer Thread)
    (input : Thread × Turn)
    (trace : (server.sessions input.1).trace = earlier ++ since) :
    ((server.step sha256 setup input).sessions input.1).trace =
      earlier ++
        (since ++
          ((server.sessions input.1).phase.turn sha256 (setup input.1)
            input.2).2) := by
  simp only [FileServer.step, Function.update_self]
  rw [← List.append_assoc, ← trace]
  rfl

/-- Where a turn takes its session. -/
theorem step_phase
    (sha256 : Bytes → Hash256)
    (setup : Thread → SessionSetup)
    (server : FileServer Thread)
    (input : Thread × Turn) :
    ((server.step sha256 setup input).sessions input.1).phase =
      ((server.sessions input.1).phase.turn sha256 (setup input.1) input.2).1 := by
  simp only [FileServer.step, Function.update_self]
  rfl

/-- A session that was ended by an exception stays so. -/
theorem terminated_run
    {error : DeserializeError}
    (threw : (server.sessions thread).phase = .terminated error)
    (later : List (Thread × Turn)) :
    ((StepRuns.run (FileServer.step sha256 setup) server later).sessions
      thread).phase = .terminated error := by
  refine StepRuns.run_invariant
    (fun server : FileServer Thread =>
      (server.sessions thread).phase = .terminated error)
    (fun server input holds => ?_) threw later
  by_cases same : thread = input.1
  · subst same
    simp [FileServer.step, Session.step, holds, SessionPhase.turn]
  · simpa [FileServer.step, same] using holds

/-- How an upload turns out from one turn of its session on. -/
theorem AloneTurn.runs
    {turn : Turn}
    {later : List (Thread × Turn)}
    (turned :
      AloneTurn before dest id
        (CleansUp sha256 (setup thread) (server.sessions thread) turn)
        server.files since
        ((server.sessions thread).phase.turn sha256 (setup thread) turn))
    (undisturbed :
      StepRuns.Allowed (FileServer.step sha256 setup)
        (Undisturbed sha256 setup thread)
        (server.step sha256 setup (thread, turn)) later)
    (trace : (server.sessions thread).trace = earlier ++ since)
    (ended :
      ((StepRuns.run (FileServer.step sha256 setup) server
        ((thread, turn) :: later)).sessions thread).phase.ended = true)
    (continues :
      ∀ {next : UploadState} {since : List Effect},
        Alone before dest id
          ((server.step sha256 setup (thread, turn)).uploads thread)
          (server.step sha256 setup (thread, turn)).files next since →
        ((server.step sha256 setup (thread, turn)).sessions thread).trace =
          earlier ++ since →
        (AtomicUpload before dest id
            (((StepRuns.run (FileServer.step sha256 setup) server
              ((thread, turn) :: later)).sessions thread).trace.drop
                earlier.length)
            (StepRuns.run (FileServer.step sha256 setup) server
              ((thread, turn) :: later)).files ↔
          before (dest ++ ascii ".part") = none ∧
            StepRuns.Allowed (FileServer.step sha256 setup)
              (CleansUpFor sha256 setup thread)
              (server.step sha256 setup (thread, turn)) later)) :
    AtomicUpload before dest id
        (((StepRuns.run (FileServer.step sha256 setup) server
          ((thread, turn) :: later)).sessions thread).trace.drop earlier.length)
        (StepRuns.run (FileServer.step sha256 setup) server
          ((thread, turn) :: later)).files ↔
      before (dest ++ ascii ".part") = none ∧
        StepRuns.Allowed (FileServer.step sha256 setup)
          (CleansUpFor sha256 setup thread) server ((thread, turn) :: later) := by
  let input : Thread × Turn := (thread, turn)
  have uploads := FileServer.step_uploads sha256 setup server input
  have grown : ((server.step sha256 setup input).sessions thread).trace = _ :=
    step_trace sha256 setup server input trace
  have phase : ((server.step sha256 setup input).sessions thread).phase = _ :=
    step_phase sha256 setup server input
  have files :
      (server.step sha256 setup input).files =
        filesAfter server.files
          ((server.sessions thread).phase.turn sha256 (setup thread) turn).2 :=
    rfl
  dsimp only [input] at uploads grown phase
  generalize
    (server.sessions thread).phase.turn sha256 (setup thread) turn = result
    at turned uploads grown phase files
  cases turned with
  | @stillOpen _ next alone clean =>
      rw [← files] at alone
      have stillAlone :
          Alone before dest id ((server.step sha256 setup input).uploads thread)
            (server.step sha256 setup input).files next
            (since ++ result.2) := by
        rw [uploads, Function.update_self]
        exact alone
      refine (continues stillAlone grown).trans ?_
      exact and_congr_right fun _ => (and_iff_right fun _ => clean).symm
  | settled cleared atomic =>
      have idle :
          ((server.step sha256 setup input).sessions thread).phase.upload? =
            fun _ => none := by
        rw [phase]
        exact cleared
      obtain ⟨same, allowed⟩ := settled_run idle undisturbed grown
      rw [← files] at atomic
      refine (same.trans atomic).trans ?_
      refine and_congr_right fun _ => ⟨?_, fun allows => allows.1 rfl⟩
      exact fun clean => ⟨fun _ => clean, allowed⟩
  | threw =>
      rw [StepRuns.run_cons, terminated_run phase later] at ended
      cases ended

/-- From any point on, an upload turns out atomic exactly when it is cleaned up. -/
theorem Alone.runs
    {later : List (Thread × Turn)}
    (alone : Alone before dest id (server.uploads thread) server.files st since)
    (undisturbed :
      StepRuns.Allowed (FileServer.step sha256 setup)
        (Undisturbed sha256 setup thread) server later)
    (trace : (server.sessions thread).trace = earlier ++ since)
    (ended :
      ((StepRuns.run (FileServer.step sha256 setup) server later).sessions
        thread).phase.ended = true) :
    AtomicUpload before dest id
        (((StepRuns.run (FileServer.step sha256 setup) server later).sessions
          thread).trace.drop earlier.length)
        (StepRuns.run (FileServer.step sha256 setup) server later).files ↔
      before (dest ++ ascii ".part") = none ∧
        StepRuns.Allowed (FileServer.step sha256 setup)
          (CleansUpFor sha256 setup thread) server later := by
  induction later generalizing server st since with
  | nil =>
      have only := congrFun alone.only id
      rw [FileServer.uploads, Function.update_self] at only
      rw [StepRuns.run_nil] at ended
      cases phase : (server.sessions thread).phase with
      | live ctx loop =>
          rw [phase] at ended
          cases ended
      | _ =>
          rw [phase] at only
          cases only
  | cons input rest inductionHypothesis =>
      obtain ⟨now, restUndisturbed⟩ := undisturbed
      by_cases same : input.1 = thread
      · subst same
        rw [Undisturbed, if_pos rfl] at now
        have turned := Alone.turns sha256 (setup input.1) alone now
        exact turned.runs restUndisturbed trace ended fun next grown =>
          inductionHypothesis next restUndisturbed grown ended
      · obtain ⟨session, files⟩ := now.unnoticed same
        have nextAlone :
            Alone before dest id
              ((server.step sha256 setup input).uploads thread)
              (server.step sha256 setup input).files st since := by
          rw [FileServer.uploads, session, files]
          exact alone
        refine
          (inductionHypothesis nextAlone restUndisturbed
            ((congrArg Session.trace session).trans trace) ended).trans ?_
        refine and_congr_right fun _ =>
          ⟨fun allowed => ⟨?_, allowed⟩, fun allowed => allowed.2⟩
        exact fun isThread => absurd isThread same

/-- Where the other sessions have no uploads, quiet turns of theirs disturb none. -/
theorem undisturbed_of_quiet
    {later : List (Thread × Turn)}
    (others : ∀ other, other ≠ thread → server.uploads other = fun _ => none)
    (quiet : ∀ input ∈ later, FileQuiet input.2) :
    StepRuns.Allowed (FileServer.step sha256 setup)
        (Undisturbed sha256 setup thread) server later ∧
      (StepRuns.Allowed (FileServer.step sha256 setup)
          (CleansUpFor sha256 setup thread) server later →
        StepRuns.Allowed (FileServer.step sha256 setup)
          (ServerCleansUp sha256 setup) server later) := by
  induction later generalizing server with
  | nil =>
      exact ⟨trivial, fun _ => trivial⟩
  | cons input rest inductionHypothesis =>
      have now := quiet input List.mem_cons_self
      have restQuiet : ∀ other ∈ rest, FileQuiet other.2 :=
        fun other member => quiet other (List.mem_cons_of_mem _ member)
      by_cases same : input.1 = thread
      · have stillOthers :
            ∀ other,
              other ≠ thread →
              (server.step sha256 setup input).uploads other =
                fun _ => none := by
          intro other different
          rw [FileServer.step_uploads, same, Function.update_of_ne different]
          exact others other different
        obtain ⟨undisturbed, cleansUp⟩ :=
          inductionHypothesis stillOthers restQuiet
        refine ⟨⟨?_, undisturbed⟩, fun allowed => ?_⟩
        · rw [Undisturbed, if_pos same]
          exact now
        · exact ⟨allowed.1 same, cleansUp allowed.2⟩
      · have idle := others input.1 same
        obtain ⟨uploads, _, _, clean⟩ := idle_step sha256 setup idle now
        have stillOthers :
            ∀ other,
              other ≠ thread →
              (server.step sha256 setup input).uploads other =
                fun _ => none := by
          rw [uploads]
          exact others
        obtain ⟨undisturbed, cleansUp⟩ :=
          inductionHypothesis stillOthers restQuiet
        refine ⟨⟨?_, undisturbed⟩, fun allowed => ⟨clean, cleansUp allowed.2⟩⟩
        rw [Undisturbed, if_neg same]
        intro effect member
        exact ((idle_turn sha256 (setup input.1) idle now).2.1 effect member).1

/-- A disk on which everything lands cleans up. -/
theorem cleansUp_of_lands
    {session : Session}
    {turn : Turn}
    (sha256 : Bytes → Hash256)
    (setup : SessionSetup)
    (lands :
      ∀ entry ∈ session.phase.entries,
        entry.2.landed turn.outside.flushedAtClose = entry.2.hasher.fed.length)
    (removed : turn.outside.removed = true)
    (cleanup : ∀ id, (turn.outside.cleanup id).2 = true) :
    CleansUp sha256 setup session turn where
  completed := by
    rintro id st ⟨ctx, loop, m, live, _, _, _, _, found⟩
    have isOpen : session.phase.upload? id = some st := by
      rw [live]
      exact found
    split
    · exact lands (id, st) (mem_entries.mpr isOpen)
    · exact removed
  closed := fun _ _ _ _ _ id _ _ => cleanup id

/--
Whatever is on the disk and open in other sessions, an accepted upload that is the
only file operation until its session has ended leaves its own file or nothing
behind exactly if there was no file under its temporary name and the disk did what
its end asked for.
-/
theorem undisturbed_upload_atomic_iff
    (sha256 : Bytes → Hash256)
    (setup : Thread → SessionSetup)
    (server : FileServer Thread)
    (thread : Thread)
    (request : Turn)
    (later : List (Thread × Turn))
    {id : UInt32}
    {dest : Path}
    (idle : server.uploads thread = fun _ => none)
    (begins :
      Begins (setup thread) (server.sessions thread) request id dest)
    (undisturbed :
      StepRuns.Allowed (FileServer.step sha256 setup)
        (Undisturbed sha256 setup thread)
        (server.step sha256 setup (thread, request)) later)
    (ended :
      ((StepRuns.run (FileServer.step sha256 setup) server
        ((thread, request) :: later)).sessions thread).phase.ended = true) :
    AtomicUpload server.files dest id
        (((StepRuns.run (FileServer.step sha256 setup) server
            ((thread, request) :: later)).sessions thread).trace.drop
          (server.sessions thread).trace.length)
        (StepRuns.run (FileServer.step sha256 setup) server
          ((thread, request) :: later)).files ↔
      server.files (dest ++ ascii ".part") = none ∧
        StepRuns.Allowed (FileServer.step sha256 setup)
          (CleansUpFor sha256 setup thread) server
          ((thread, request) :: later) := by
  have turned := begins.turns sha256 (setup thread) server.files idle
  exact turned.runs undisturbed (List.append_nil _).symm ended
    fun alone grown => alone.runs undisturbed grown ended

/-- A server with one session in its event loop, and a file `a.part`. -/
def serverWithPart : FileServer Unit where
  sessions := fun _ => ⟨.live transferContext { captureOk := true }, []⟩
  files := fun path =>
    if path = ascii "C:\\share\\a.part" then some [5] else none

/-- A request to upload an empty file to `a`. -/
def emptyRequest : Turn :=
  messageTurn .fileUploadReq
    (FileUploadReqMsg.encode
      { remotePath := ascii "a", size := 0, sha256 := evpSha256 [] })

/-- It is accepted where that file is. -/
theorem emptyRequest_begins :
    Begins folderSetup (serverWithPart.sessions ()) emptyRequest 1
      (ascii "C:\\share\\a") := by
  have decoded :
      FileUploadReqMsg.decode
          (FileUploadReqMsg.encode
            { remotePath := ascii "a", size := 0, sha256 := evpSha256 [] }) =
        .ok { remotePath := ascii "a", size := 0, sha256 := evpSha256 [] } :=
    FileUploadReqMsg.decode_ok_iff.mpr ⟨by decide, [], by simp⟩
  exact ⟨_, _, _, _, rfl, rfl, rfl, rfl, rfl, by decide, decoded, by decide, rfl⟩

/-- A request to upload two bytes to `a`. -/
def twoByteRequest : Turn :=
  messageTurn .fileUploadReq
    (FileUploadReqMsg.encode
      { remotePath := ascii "a", size := 2, sha256 := evpSha256 [1, 2] })

/-- A file `a`, and an upload to `b` that another session has under way. -/
def serverWithOther : FileServer Bool where
  sessions
    | true =>
        ⟨.live transferContext
          { captureOk := true
            uploads :=
              (∅ : Uploads).insert 1
                (.requested
                  { remotePath := ascii "b", size := 1, sha256 := evpSha256 [9] }
                  (ascii "C:\\share\\b"))
            nextTransferId := 2 },
          []⟩
    | false =>
        ⟨.live transferContext { captureOk := true }, []⟩
  files := fun path =>
    if path = ascii "C:\\share\\a" then
      some [5]
    else if path = ascii "C:\\share\\b.part" then
      some []
    else
      none

/-- The rest of the upload to `a`, while the other session is pinged. -/
def twoByteUpload : List (Bool × Turn) :=
  [(false,
      messageTurn .fileBlock
        (FileBlockMsg.encode { transferId := 1, sequence := 0, data := [1, 2] })),
    (true, messageTurn .ping []),
    (false,
      { messageTurn .fileComplete (putU32 1) with
        outside := { flushedAtClose := 2 } }),
    (false, messageTurn .bye [])]

theorem undisturbed_upload_atomic_iff_twoSessions :
    AtomicUpload serverWithOther.files (ascii "C:\\share\\a") 1
        (((StepRuns.run (FileServer.step evpSha256 fun _ => folderSetup)
            serverWithOther ((false, twoByteRequest) :: twoByteUpload)).sessions
          false).trace.drop 0)
        (StepRuns.run (FileServer.step evpSha256 fun _ => folderSetup)
          serverWithOther ((false, twoByteRequest) :: twoByteUpload)).files ∧
      (StepRuns.run (FileServer.step evpSha256 fun _ => folderSetup)
          serverWithOther ((false, twoByteRequest) :: twoByteUpload)).files
        (ascii "C:\\share\\a") = some [1, 2] := by
  refine ⟨?_, by decide +kernel⟩
  have decoded :
      FileUploadReqMsg.decode
          (FileUploadReqMsg.encode
            { remotePath := ascii "a", size := 2, sha256 := evpSha256 [1, 2] }) =
        .ok { remotePath := ascii "a", size := 2, sha256 := evpSha256 [1, 2] } :=
    FileUploadReqMsg.decode_ok_iff.mpr ⟨by decide, [], by simp⟩
  have begins :
      Begins folderSetup (serverWithOther.sessions false) twoByteRequest 1
        (ascii "C:\\share\\a") :=
    ⟨_, _, _, _, rfl, rfl, rfl, rfl, rfl, by decide, decoded, by decide, rfl⟩
  have idle : serverWithOther.uploads false = fun _ => none := by
    funext id
    simp [FileServer.uploads, serverWithOther, SessionPhase.upload?]
  apply
    (undisturbed_upload_atomic_iff evpSha256 (fun _ => folderSetup)
      serverWithOther false twoByteRequest twoByteUpload idle begins
      (by decide +kernel) (by decide +kernel)).mpr
  refine ⟨by decide, ?_, ?_, ?_, ?_, ?_, trivial⟩
  all_goals
    intro _
    exact cleansUp_of_lands _ _ (by decide +kernel) rfl fun _ => rfl

/--
An upload that is given up at once has emptied and removed a file that only
happened to have the name of its temporary one.
-/
theorem part_file_lost :
    Begins folderSetup (serverWithPart.sessions ()) emptyRequest 1
        (ascii "C:\\share\\a") ∧
      ¬AtomicUpload serverWithPart.files (ascii "C:\\share\\a") 1
        (((StepRuns.run (FileServer.step evpSha256 fun _ => folderSetup)
            serverWithPart
            [((), emptyRequest), ((), messageTurn .bye [])]).sessions
          ()).trace.drop 0)
        (StepRuns.run (FileServer.step evpSha256 fun _ => folderSetup)
          serverWithPart
          [((), emptyRequest), ((), messageTurn .bye [])]).files := by
  refine ⟨emptyRequest_begins, fun atomic => ?_⟩
  have kept :=
    atomic.others (ascii "C:\\share\\a.part") [5] (by decide) (by decide)
  have lost :
      (StepRuns.run (FileServer.step evpSha256 fun _ => folderSetup)
        serverWithPart [((), emptyRequest), ((), messageTurn .bye [])]).files
          (ascii "C:\\share\\a.part") = none := by
    decide +kernel
  rw [lost] at kept
  cases kept

/--
Whatever is on the disk, an accepted upload that has the server to itself until
its session has ended leaves its own file or nothing behind exactly if there was
no file under its temporary name and the disk did what its end asked for.
-/
theorem upload_atomic_iff
    (sha256 : Bytes → Hash256)
    (setup : Thread → SessionSetup)
    (server : FileServer Thread)
    (thread : Thread)
    (request : Turn)
    (later : List (Thread × Turn))
    {id : UInt32}
    {dest : Path}
    (idle : ∀ other, server.uploads other = fun _ => none)
    (begins :
      Begins (setup thread) (server.sessions thread) request id dest)
    (quiet : ∀ input ∈ later, FileQuiet input.2)
    (ended :
      ((StepRuns.run (FileServer.step sha256 setup) server
        ((thread, request) :: later)).sessions thread).phase.ended = true) :
    AtomicUpload server.files dest id
        (((StepRuns.run (FileServer.step sha256 setup) server
            ((thread, request) :: later)).sessions thread).trace.drop
          (server.sessions thread).trace.length)
        (StepRuns.run (FileServer.step sha256 setup) server
          ((thread, request) :: later)).files ↔
      server.files (dest ++ ascii ".part") = none ∧
        StepRuns.Allowed (FileServer.step sha256 setup)
          (ServerCleansUp sha256 setup) server ((thread, request) :: later) := by
  have turned :=
    begins.turns sha256 (setup thread) server.files (idle thread)
  have others :
      ∀ other,
        other ≠ thread →
        (server.step sha256 setup (thread, request)).uploads other =
          fun _ => none := by
    intro other different
    rw [FileServer.step_uploads, Function.update_of_ne different]
    exact idle other
  obtain ⟨undisturbed, cleansUp⟩ := undisturbed_of_quiet others quiet
  refine
    (turned.runs undisturbed (List.append_nil _).symm ended
      fun alone grown => alone.runs undisturbed grown ended).trans ?_
  refine and_congr_right fun _ => ⟨?_, ?_⟩
  · exact fun allowed => ⟨allowed.1 rfl, cleansUp allowed.2⟩
  · intro allowed
    apply allowed.mono
    intro state input clean isThread
    exact clean

theorem upload_atomic_iff_part_lost :
    ¬AtomicUpload serverWithPart.files (ascii "C:\\share\\a") 1
      (((StepRuns.run (FileServer.step evpSha256 fun _ => folderSetup)
          serverWithPart
          [((), emptyRequest), ((), messageTurn .fileComplete (putU32 1)),
            ((), messageTurn .bye [])]).sessions ()).trace.drop 0)
      (StepRuns.run (FileServer.step evpSha256 fun _ => folderSetup)
        serverWithPart
        [((), emptyRequest), ((), messageTurn .fileComplete (putU32 1)),
          ((), messageTurn .bye [])]).files := by
  have idle :
      ∀ other, serverWithPart.uploads other = fun _ => none := by
    intro other
    funext id
    simp [FileServer.uploads, serverWithPart, SessionPhase.upload?]
  have quiet :
      ∀ input ∈
          [((), messageTurn .fileComplete (putU32 1)),
            ((), messageTurn .bye [])],
        FileQuiet input.2 := by
    intro input member m read
    simp only [List.mem_cons, List.not_mem_nil, or_false] at member
    rcases member with rfl | rfl
    · cases read
      simp
    · cases read
      simp
  intro atomic
  have free :=
    ((upload_atomic_iff evpSha256 (fun _ => folderSetup) serverWithPart ()
      emptyRequest _ idle emptyRequest_begins quiet (by decide +kernel)).mp atomic).1
  revert free
  decide

end Runs

end RadminPro
