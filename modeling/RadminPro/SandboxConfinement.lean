import RadminPro.SessionMediation

namespace RadminPro

open ByteCodec
open PathText

/-!
# Confinement to the sandbox

`resolveInRoot` lets the root itself through.  A request whose path leads to the
root acts on the root, and its temporary file lies next to the root instead of
in it.  Every other request stays strictly inside, as long as the root is there.
-/

/-! ## The property -/

/-- The paths that an effect opens, creates, writes, renames, removes or reads. -/
def touchedPaths : Effect → List Path
  | .createDirectory path | .openTrunc path _ | .write path _ _ | .close path
  | .remove path _ | .readFile path _ => [path]
  | .rename src dst _ => [src, dst]
  | _ => []

/-- Every path that the trace touches lies strictly inside the root. -/
def Confined (canonRoot : Path) (trace : List Effect) : Prop :=
  ∀ effect ∈ trace, ∀ path ∈ touchedPaths effect, StrictlyInside canonRoot path

/--
The path library finds `canonRoot` for the root of the sandbox, and all that it
calls weakly canonical is absolute and without dot names.
-/
structure Canonicalises
    (root canonRoot : Path)
    (out : Outside) : Prop where
  root : (out.weaklyCanonical root).getD (out.absolute root) = canonRoot
  normalised :
    ∀ path canonical,
      out.weaklyCanonical path = some canonical → Normalised canonical

/-! ## The condition -/

/--
The request does not lead to the root itself, and an upload finds the root and
the directories above it in place.
-/
def Below
    (setup : SessionSetup)
    (canonRoot : Path)
    (out : Outside)
    (m : Message) : Prop :=
  ∀ path ∈ requestedPaths out setup.fileRoot m,
    components path ≠ components canonRoot ∧
      (m.op = .known .fileUploadReq →
        ∀ directory ∈ parentDirectories path,
          components directory <+: components canonRoot →
          out.creates directory = false)

/-- No request that is carried out leads to the root itself. -/
def RequestsBelow
    (setup : SessionSetup)
    (canonRoot : Path)
    (session : Session)
    (turn : Turn) : Prop :=
  ∀ ctx loop m,
    session.phase = .live ctx loop →
    turn.running = true →
    turn.read = .ok m →
    ctx.canTransfer = true →
    Below setup canonRoot turn.outside m

/-! ## Paths inside the root -/

section Paths

variable {root canonRoot path : Path}
variable {out : Outside}

/-- What is resolved is canonical, and the root or the root and a separator. -/
theorem resolveInRoot_some
    {rel : Bytes}
    (canonicalises : Canonicalises root canonRoot out)
    (resolved : resolveInRoot out root rel = some path) :
    Normalised path ∧
      (path = canonRoot ∨
        ∃ rest, path = canonRoot ++ preferredSeparator :: rest) := by
  unfold resolveInRoot at resolved
  rw [canonicalises.root] at resolved
  dsimp only at resolved
  cases canonical : out.weaklyCanonical (join canonRoot rel) with
  | none =>
      rw [canonical] at resolved
      cases resolved
  | some candidate =>
      rw [canonical] at resolved
      dsimp only at resolved
      split at resolved
      · cases resolved
      · split at resolved
        · cases resolved
        · next samePrefix =>
            split at resolved
            · cases resolved
            · next separated =>
                obtain rfl : candidate = path := by simpa using resolved
                refine ⟨canonicalises.normalised _ _ canonical, ?_⟩
                have split :
                    candidate =
                      canonRoot ++ candidate.drop canonRoot.length := by
                  conv_lhs => rw [← List.take_append_drop canonRoot.length
                    candidate]
                  rw [not_not.mp samePrefix]
                cases rest : candidate.drop canonRoot.length with
                | nil =>
                    rw [rest, List.append_nil] at split
                    exact .inl split
                | cons first others =>
                    rw [rest] at split
                    refine .inr ⟨others, ?_⟩
                    have longer : candidate.length > canonRoot.length := by
                      rw [split]
                      simp
                    have isSeparator : first = preferredSeparator := by
                      by_contra other
                      refine separated ⟨longer, ?_⟩
                      rw [rest]
                      simpa using other
                    rw [← isSeparator]
                    exact split

/-- A resolved path with other components than the root is strictly inside. -/
theorem strictlyInside_of_resolved
    {rel : Bytes}
    (canonicalises : Canonicalises root canonRoot out)
    (resolved : resolveInRoot out root rel = some path)
    (below : components path ≠ components canonRoot) :
    StrictlyInside canonRoot path := by
  obtain ⟨normalised, rfl | ⟨rest, rfl⟩⟩ :=
    resolveInRoot_some canonicalises resolved
  · exact absurd rfl below
  · have split :=
      components_append_slash preferredSeparator rfl canonRoot rest
    refine ⟨components rest, fun empty => ?_, split, fun name member => ?_⟩
    · rw [split, empty, List.append_nil] at below
      exact below rfl
    · refine normalised.noDots name ?_
      rw [split]
      exact List.mem_append_right _ member

/-- The temporary file of such a path is strictly inside too. -/
theorem strictlyInside_temp
    {rel : Bytes}
    (canonicalises : Canonicalises root canonRoot out)
    (resolved : resolveInRoot out root rel = some path)
    (below : components path ≠ components canonRoot) :
    StrictlyInside canonRoot (path ++ ascii ".part") := by
  obtain ⟨normalised, rfl | ⟨rest, rfl⟩⟩ :=
    resolveInRoot_some canonicalises resolved
  · exact absurd rfl below
  · have shape :
        canonRoot ++ preferredSeparator :: rest ++ ascii ".part" =
          canonRoot ++ preferredSeparator :: (rest ++ ascii ".part") := by
      simp
    have split :=
      components_append_slash preferredSeparator rfl canonRoot
        (rest ++ ascii ".part")
    rw [shape]
    refine ⟨components (rest ++ ascii ".part"), ?_, split, ?_⟩
    · refine splitComponents_ne_nil (.inr ⟨46, ?_, rfl⟩)
      exact List.mem_append_right _ (by decide +kernel)
    · intro name member
      have isName : ∀ byte ∈ ascii ".part", isSlash byte = false := by
        decide +kernel
      rcases splitComponents_append_name (by decide) isName [] rest name member
        with inRest | isSuffix
      · refine normalised.noDots name ?_
        rw [components_append_slash preferredSeparator rfl]
        exact List.mem_append_right _ inRest
      · constructor
        · rintro rfl
          exact absurd isSuffix (by decide)
        · rintro rfl
          exact absurd isSuffix (by decide)

/-- A directory above a path inside the root is inside or leads to the root. -/
theorem strictlyInside_parent
    {directory : Path}
    (normalised : Normalised path)
    (inside : StrictlyInside canonRoot path)
    (above : directory ∈ parentDirectories path)
    (notRoot : ¬components directory <+: components canonRoot) :
    StrictlyInside canonRoot directory := by
  obtain ⟨below, _, split, _⟩ := inside
  have isPrefix := components_parentDirectories normalised.rooted above
  have rootPrefix : components canonRoot <+: components path :=
    ⟨below, split.symm⟩
  rcases List.prefix_or_prefix_of_prefix isPrefix rootPrefix with
    toRoot | ⟨between, fromRoot⟩
  · exact absurd toRoot notRoot
  · refine ⟨between, ?_, fromRoot.symm, ?_⟩
    · rintro rfl
      rw [List.append_nil] at fromRoot
      rw [fromRoot] at notRoot
      exact notRoot List.prefix_rfl
    · intro name member
      refine normalised.noDots name (isPrefix.subset ?_)
      rw [← fromRoot]
      exact List.mem_append_right _ member

end Paths

/-! ## The invariant -/

section Confinement

variable {sha256 : Bytes → Hash256}
variable {setup : SessionSetup}
variable {canonRoot : Path}
variable {ctx : SessionContext}
variable {out : Outside}
variable {loop : LoopState}

/-- The paths of every upload under way lie strictly inside the root. -/
def UploadsInside (canonRoot : Path) (loop : LoopState) : Prop :=
  ∀ (id : UInt32) (st : UploadState),
    loop.uploads[id]? = some st →
    StrictlyInside canonRoot st.finalPath ∧
      StrictlyInside canonRoot st.tempPath ∧
      st.out.path = st.tempPath

/-- What a request acts on was resolved. -/
theorem resolved_of_requested
    {m : Message}
    {root path : Path}
    (requested : path ∈ requestedPaths out root m) :
    ∃ rel, resolveInRoot out root rel = some path := by
  unfold requestedPaths at requested
  split at requested
  · split at requested
    · exact ⟨_, Option.mem_toList.mp requested⟩
    · cases requested
  · split at requested
    · exact ⟨_, Option.mem_toList.mp requested⟩
    · cases requested
  · split at requested
    · split at requested
      · next src dst srcResolved dstResolved =>
          simp only [List.mem_cons, List.not_mem_nil, or_false] at requested
          rcases requested with rfl | rfl
          · exact ⟨_, srcResolved⟩
          · exact ⟨_, dstResolved⟩
      · cases requested
    · cases requested
  · split at requested
    · exact ⟨_, Option.mem_toList.mp requested⟩
    · cases requested
  · cases requested

/-- A request that leads below the root is handled below the root. -/
theorem MayDo.inside
    {m : Message}
    {effect : Effect}
    (canonicalises : Canonicalises setup.fileRoot canonRoot out)
    (below : ctx.canTransfer = true → Below setup canonRoot out m)
    (uploads : UploadsInside canonRoot loop)
    (mayDo : MayDo setup ctx out loop m effect) :
    ∀ path ∈ touchedPaths effect, StrictlyInside canonRoot path := by
  have inside :
      ctx.canTransfer = true →
        ∀ path ∈ requestedPaths out setup.fileRoot m,
          StrictlyInside canonRoot path := by
    intro permitted path requested
    obtain ⟨rel, resolved⟩ := resolved_of_requested requested
    exact strictlyInside_of_resolved canonicalises resolved
      (below permitted path requested).1
  have single :
      ∀ {path : Path},
        StrictlyInside canonRoot path →
        ∀ other ∈ [path], StrictlyInside canonRoot other := by
    intro path isInside other member
    rwa [List.mem_singleton.mp member]
  cases mayDo with
  | mouse permitted x y action => simp [touchedPaths]
  | key permitted down vk => simp [touchedPaths]
  | talk op payload ok noFrame => simp [touchedPaths]
  | log action target result detail fileAction =>
      simp [touchedPaths, auditFileOp]
  | createDirectory permitted op requested above missing =>
      obtain ⟨rel, resolved⟩ := resolved_of_requested requested
      refine single (strictlyInside_parent
        (resolveInRoot_some canonicalises resolved).1
        (inside permitted _ requested) above fun toRoot => ?_)
      have exists_ := (below permitted _ requested).2 op _ above toRoot
      rw [missing] at exists_
      cases exists_
  | openTemp permitted requested ok =>
      obtain ⟨rel, resolved⟩ := resolved_of_requested requested
      exact single (strictlyInside_temp canonicalises resolved
        (below permitted _ requested).1)
  | write found position data =>
      obtain ⟨_, isInside, samePath⟩ := uploads _ _ found
      exact single (samePath ▸ isInside)
  | close found =>
      obtain ⟨_, isInside, samePath⟩ := uploads _ _ found
      exact single (samePath ▸ isInside)
  | renameTemp found ok =>
      obtain ⟨finalInside, tempInside, _⟩ := uploads _ _ found
      intro path member
      simp only [touchedPaths, List.mem_cons, List.not_mem_nil, or_false]
        at member
      rcases member with rfl | rfl
      · exact tempInside
      · exact finalInside
  | removeTemp found ok => exact single (uploads _ _ found).2.1
  | remove permitted requested ok => exact single (inside permitted _ requested)
  | rename permitted srcRequested dstRequested ok =>
      intro path member
      simp only [touchedPaths, List.mem_cons, List.not_mem_nil, or_false]
        at member
      rcases member with rfl | rfl
      · exact inside permitted _ srcRequested
      · exact inside permitted _ dstRequested
  | readFile permitted requested content =>
      exact single (inside permitted _ requested)

/-- An upload that is accepted has its paths below the root. -/
theorem Handles.uploadsInside
    {m : Message}
    {outcome : Outcome}
    (canonicalises : Canonicalises setup.fileRoot canonRoot out)
    (below : ctx.canTransfer = true → Below setup canonRoot out m)
    (uploads : UploadsInside canonRoot loop)
    (handles : Handles sha256 setup ctx out loop m outcome) :
    UploadsInside canonRoot outcome.loop := by
  cases handles with
  | @upload req dest permitted op decoded resolved =>
      have requested : dest ∈ requestedPaths out setup.fileRoot m := by
        simp [requestedPaths, op, decoded, resolved]
      have notRoot := (below permitted dest requested).1
      intro id st found
      unfold beginUpload at found
      dsimp only at found
      split at found
      · exact uploads id st found
      · simp only [Std.TreeMap.getElem?_insert] at found
        split at found
        · cases found
          exact ⟨strictlyInside_of_resolved canonicalises resolved notRoot,
            strictlyInside_temp canonicalises resolved notRoot, rfl⟩
        · exact uploads id st found
  | block op decoded found =>
      intro id st isUpload
      simp only [Std.TreeMap.getElem?_insert] at isUpload
      split at isUpload
      · cases isUpload
        obtain ⟨finalInside, tempInside, samePath⟩ := uploads _ _ found
        refine ⟨finalInside, tempInside, ?_⟩
        rw [OfStream.write]
        split <;>
          exact samePath
      · exact uploads id st isUpload
  | complete op decoded found =>
      intro id st isUpload
      simp only [Std.TreeMap.getElem?_erase] at isUpload
      split at isUpload
      · cases isUpload
      · exact uploads id st isUpload
  | _ => exact uploads

/-- A session that has stayed inside the root, and whose uploads do. -/
structure Sandboxed (canonRoot : Path) (session : Session) : Prop where
  confined : Confined canonRoot session.trace
  uploads :
    ∀ ctx loop, session.phase = .live ctx loop → UploadsInside canonRoot loop

/-- What stays inside goes on inside. -/
theorem Confined.append
    {trace effects : List Effect}
    (confined : Confined canonRoot trace)
    (more : Confined canonRoot effects) :
    Confined canonRoot (trace ++ effects) := by
  intro effect member
  rcases List.mem_append.mp member with earlier | isNew
  · exact confined effect earlier
  · exact more effect isNew

/-- Effects that touch no path stay inside. -/
theorem confined_of_untouched
    {effects : List Effect}
    (untouched : ∀ effect ∈ effects, touchedPaths effect = []) :
    Confined canonRoot effects := by
  intro effect member path touched
  rw [untouched effect member] at touched
  cases touched

theorem Shown.untouched
    {effect : Effect}
    (shown : Shown setup ctx effect) :
    touchedPaths effect = [] := by
  rcases shown with ⟨_, op, payload, ok, rfl, _⟩ | ⟨ok, rfl⟩ <;>
    rfl

theorem Preliminary.untouched
    {effect : Effect}
    (preliminary : Preliminary effect) :
    touchedPaths effect = [] := by
  cases preliminary <;>
    rfl

/-- The end of the event loop touches only the files of the uploads. -/
theorem confined_finishSession
    {effects : List Effect}
    (uploads : UploadsInside canonRoot loop)
    (confined : Confined canonRoot effects) :
    Confined canonRoot (finishSession setup ctx out loop effects).2 := by
  refine Confined.append (Confined.append confined ?_) ?_
  · intro effect member
    obtain ⟨entry, listed, isEffect⟩ := List.mem_flatMap.mp member
    obtain ⟨_, inside, samePath⟩ :=
      uploads entry.1 entry.2 (Std.TreeMap.mem_toList_iff_getElem?_eq_some.mp
        listed)
    simp only [OfStream.close, List.cons_append, List.nil_append,
      List.mem_cons, List.not_mem_nil, or_false] at isEffect
    rcases isEffect with rfl | rfl | rfl <;>
      simpa [touchedPaths, samePath] using inside
  · exact confined_of_untouched (by simp [touchedPaths])

/-- However a turn of the event loop ends, it stays inside. -/
theorem sandboxed_streams
    {trace effects : List Effect}
    {result : SessionPhase × List Effect}
    (confined : Confined canonRoot trace)
    (more : Confined canonRoot effects)
    (uploads : UploadsInside canonRoot loop)
    (streams : Streams setup ctx out loop effects result) :
    Sandboxed canonRoot ⟨result.1, trace ++ result.2⟩ := by
  cases streams with
  | live next sameUploads ids only =>
      refine ⟨confined.append (more.append (confined_of_untouched
        fun effect member => (only effect member).untouched)), ?_⟩
      rintro now loop same
      cases same
      rwa [UploadsInside, sameUploads]
  | finished next sameUploads only =>
      have nextUploads : UploadsInside canonRoot next := by
        rwa [UploadsInside, sameUploads]
      exact ⟨confined.append (confined_finishSession nextUploads
          (more.append (confined_of_untouched
            fun effect member => (only effect member).untouched))),
        by simp [finishSession]⟩

/-- A turn whose request leads below the root stays inside. -/
theorem sandboxed_step
    (session : Session)
    (turn : Turn)
    (allowed :
      Canonicalises setup.fileRoot canonRoot turn.outside ∧
        RequestsBelow setup canonRoot session turn)
    (sandboxed : Sandboxed canonRoot session) :
    Sandboxed canonRoot (session.step sha256 setup turn) := by
  obtain ⟨phase, trace⟩ := session
  obtain ⟨canonicalises, below⟩ := allowed
  obtain ⟨confined, uploads⟩ := sandboxed
  by_cases early : phase.early
  · have enters := turn_enters sha256 setup early turn
    rw [Session.step]
    generalize phase.turn sha256 setup turn = result at enters
    cases enters with
    | left early only =>
        refine ⟨confined.append (Confined.append (confined_of_untouched
          fun effect member => (only effect member).untouched)
          (confined_of_untouched (by simp [touchedPaths]))), by simp [leave]⟩
    | shaken =>
        exact ⟨confined.append (confined_of_untouched (by simp)), by simp⟩
    | greeted only =>
        exact ⟨confined.append (confined_of_untouched
          fun effect member => (only effect member).untouched), by simp⟩
    | authenticated m user payload detail rights sessionId ok isResult =>
        exact ⟨confined.append (confined_of_untouched
          (by simp [touchedPaths])), by simp⟩
    | started m text detail authorized op decoded =>
        refine ⟨confined.append (confined_of_untouched
          (by simp [touchedPaths])), ?_⟩
        rintro now loop same id st found
        cases same
        simp at found
    | threw early =>
        exact ⟨confined.append (confined_of_untouched
          (by simp [touchedPaths])), by simp⟩
  · cases phase with
    | live ctx loop =>
        have uploadsInside := uploads ctx loop rfl
        have inverted := liveTurn_liveTurn sha256 setup ctx loop turn
        rw [Session.step]
        dsimp only [SessionPhase.turn]
        generalize liveTurn sha256 setup ctx loop turn = result at inverted
        cases inverted with
        | unread streams =>
            exact sandboxed_streams confined (confined_of_untouched (by simp))
              uploadsInside streams
        | handled running read handles streams =>
            have isBelow := below ctx loop _ rfl running read
            refine sandboxed_streams confined (fun effect member => ?_)
              (handles.uploadsInside canonicalises isBelow uploadsInside)
              streams
            rcases List.mem_cons.mp member with rfl | isHandled
            · simp [touchedPaths]
            · exact (handles.mayDo effect isHandled).inside canonicalises
                isBelow uploadsInside
        | threw running read failed =>
            exact ⟨confined.append (confined_of_untouched
              (by simp [touchedPaths])), by simp⟩
    | closed unfinished =>
        exact ⟨by simpa [Session.step, SessionPhase.turn] using confined,
          by simp [Session.step, SessionPhase.turn]⟩
    | terminated error =>
        exact ⟨by simpa [Session.step, SessionPhase.turn] using confined,
          by simp [Session.step, SessionPhase.turn]⟩
    | stuck =>
        exact ⟨by simpa [Session.step, SessionPhase.turn] using confined,
          by simp [Session.step, SessionPhase.turn]⟩
    | _ => exact absurd trivial early

end Confinement

/--
While no request leads to the root itself and the root is in place, every path
that a session touches lies strictly inside the root.
-/
theorem session_confined
    (sha256 : Bytes → Hash256)
    (setup : SessionSetup)
    (canonRoot : Path)
    (turns : List Turn)
    (canonicalises :
      ∀ turn ∈ turns, Canonicalises setup.fileRoot canonRoot turn.outside)
    (below :
      StepRuns.Allowed (Session.step sha256 setup)
        (RequestsBelow setup canonRoot) {} turns) :
    Confined canonRoot (Session.run sha256 setup turns).trace := by
  have canonical :
      StepRuns.Allowed (Session.step sha256 setup)
        (fun _ turn => Canonicalises setup.fileRoot canonRoot turn.outside) {}
        turns :=
    .of_forall (fun turn member _ => canonicalises turn member) _
  have sandboxed :
      Sandboxed canonRoot (Session.run sha256 setup turns) :=
    (canonical.and below).invariant sandboxed_step
      ⟨confined_of_untouched (by simp [touchedPaths]), by simp⟩
  exact sandboxed.confined

/-- A path library that knows the folder `C:\share` with one file in it. -/
def shareOutside : Outside where
  weaklyCanonical path :=
    if path = ascii "share" ∨ path = ascii "C:\\share\\." then
      some (ascii "C:\\share")
    else if path = ascii "C:\\share\\a.txt" then
      some path
    else
      none

/-- A session that shares this folder. -/
def shareSetup : SessionSetup where
  peerIp := []
  peerStr := []
  fileRoot := ascii "share"

/-- A login with the transfer right, and a request to upload to a path. -/
def uploadTo (remotePath : Bytes) : List Turn :=
  loginTurns shareOutside [] R_FileTransfer (.known .fileOnly) ++
    [{ read := .ok
        ⟨.known .fileUploadReq,
          FileUploadReqMsg.encode
            { remotePath, size := 0, sha256 := Hash256.ofBytes [] }⟩
       outside := shareOutside }]

theorem shareOutside_canonicalises :
    Canonicalises (ascii "share") (ascii "C:\\share") shareOutside where
  root := by decide
  normalised path canonical found := by
    have known :
        canonical = ascii "C:\\share" ∨ canonical = ascii "C:\\share\\a.txt" := by
      unfold shareOutside at found
      dsimp only at found
      split at found
      · exact .inl (Option.some.inj found).symm
      · split at found
        · next isFile =>
            rw [← Option.some.inj found]
            exact .inr isFile
        · cases found
    rcases known with rfl | rfl <;>
      exact ⟨by decide, by decide⟩

/-- All turns of such a run have the same surroundings. -/
theorem uploadTo_outside
    (remotePath : Bytes) :
    ∀ turn ∈ uploadTo remotePath,
      Canonicalises (ascii "share") (ascii "C:\\share") turn.outside := by
  intro turn member
  have canonicalises := shareOutside_canonicalises
  simp only [uploadTo, loginTurns, List.cons_append, List.nil_append,
    List.mem_cons, List.not_mem_nil, or_false] at member
  rcases member with rfl | rfl | rfl | rfl | rfl
  · exact canonicalises
  · exact canonicalises
  · exact ⟨canonicalises.root, canonicalises.normalised⟩
  · exact canonicalises
  · exact canonicalises

/-- An upload to a file of the folder stays in the folder. -/
theorem session_confined_file :
    Confined (ascii "C:\\share")
      (Session.run evpSha256 shareSetup (uploadTo (ascii "a.txt"))).trace := by
  refine session_confined evpSha256 shareSetup (ascii "C:\\share")
    (uploadTo (ascii "a.txt")) (uploadTo_outside _) ?_
  refine .of_forall (fun turn member session => ?_) _
  intro ctx loop m isLive running read permitted
  simp only [uploadTo, loginTurns, List.cons_append, List.nil_append,
    List.mem_cons, List.not_mem_nil, or_false] at member
  rcases member with rfl | rfl | rfl | rfl | rfl
  · cases read
  · cases read
    simp [Below, requestedPaths]
  · cases read
    simp [Below, requestedPaths]
  · cases read
    simp [Below, requestedPaths]
  · cases read
    have requested :
        requestedPaths shareOutside (ascii "share")
            ⟨.known .fileUploadReq,
              FileUploadReqMsg.encode
                { remotePath := ascii "a.txt"
                  size := 0
                  sha256 := Hash256.ofBytes [] }⟩ =
          [ascii "C:\\share\\a.txt"] := by
      decide +kernel
    intro path member
    rw [shareSetup, requested] at member
    rw [List.mem_singleton.mp member]
    exact ⟨by decide, fun _ _ _ _ => rfl⟩

/-- An upload to `.` opens a file next to the folder. -/
theorem upload_to_dot_escapes :
    (∀ turn ∈ uploadTo (ascii "."),
        Canonicalises shareSetup.fileRoot (ascii "C:\\share") turn.outside) ∧
      ¬Confined (ascii "C:\\share")
        (Session.run evpSha256 shareSetup (uploadTo (ascii "."))).trace := by
  refine ⟨uploadTo_outside _, fun confined => ?_⟩
  have opened :
      .openTrunc (ascii "C:\\share.part") true ∈
        (Session.run evpSha256 shareSetup (uploadTo (ascii "."))).trace := by
    decide +kernel
  obtain ⟨below, _, split, _⟩ :=
    confined _ opened (ascii "C:\\share.part") (by simp [touchedPaths])
  have isPrefix :
      components (ascii "C:\\share") <+: components (ascii "C:\\share.part") :=
    ⟨below, split.symm⟩
  exact absurd isPrefix (by decide)

end RadminPro
