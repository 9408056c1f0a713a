import RadminPro.SessionSteps
import RadminPro.TracePolicy
import RadminPro.WireCodecExact
import Mathlib.Data.Nat.Bitwise

namespace RadminPro

open ByteCodec
open TracePolicy

/-!
# Complete mediation

Input, picture and file effects happen only after a login, an authorised mode
and the log row of the session's start, and only where the rights of that login
cover them.  `FileBlock` and `FileComplete` test no right; without the transfer
right there is no upload that they could touch.
-/

/-! ## The property -/

/-- An effect on the file system. -/
def isFileEffect : Effect → Prop
  | .createDirectory _ | .openTrunc .. | .write .. | .close _ | .rename ..
  | .remove .. | .readFile .. => True
  | _ => False

/-- An effect that rights guard. -/
def isGuarded : Effect → Prop
  | .injectMouse .. | .injectKey .. => True
  | .send op _ _ => isFrameOp op
  | effect => isFileEffect effect

/-- The rights contain one of those named, or all access. -/
def containsAny (rights : UInt32) (named : List UInt32) : Prop :=
  ∃ right ∈ R_AllAccess :: named, rights &&& right ≠ 0

/-- What an effect requires of the rights and the mode. -/
def Permits (rights : UInt32) (mode : ConnectionMode) : Effect → Prop
  | .injectMouse .. | .injectKey .. =>
      mode = .known .fullControl ∧ containsAny rights [R_RemoteScreenControl]
  | .send op _ _ =>
      isFrameOp op →
        mode ≠ .known .fileOnly ∧
          containsAny rights [R_RemoteScreenView, R_RemoteScreenControl]
  | effect => isFileEffect effect → containsAny rights [R_FileTransfer]

/-- The rights a mode asks for. -/
def Authorises (rights : UInt32) : ConnectionMode → Prop
  | .known .fullControl => containsAny rights [R_RemoteScreenControl]
  | .known .viewOnly =>
      containsAny rights [R_RemoteScreenView, R_RemoteScreenControl]
  | .known .fileOnly => containsAny rights [R_FileTransfer]
  | .other .. => False

/--
A login with these rights was answered, then this mode was asked for, and then
the start of the session was logged.
-/
def Established
    (setup : SessionSetup)
    (user : Bytes)
    (rights : UInt32)
    (mode : ConnectionMode)
    (trace : List Effect) : Prop :=
  Authorises rights mode ∧
    ∃ sessionId sent m detail,
      m.op = .known .sessionStart ∧
        SessionStartMsg.decode m.payload = .ok { mode } ∧
        [.send (.known .authResult)
            (AuthResultMsg.encode
              { status := .known .ok, grantedRights := rights, sessionId })
            sent,
          .received m,
          .audit (.session user setup.peerStr true detail)].Sublist trace

/-- A guarded effect comes after the start of the session and is permitted. -/
def Mediated
    (setup : SessionSetup)
    (user : Bytes)
    (rights : UInt32)
    (mode : ConnectionMode) : List Effect → Effect → Prop :=
  fun before effect =>
    isGuarded effect →
      Established setup user rights mode before ∧ Permits rights mode effect

/-- Once a session has started, its user, rights and mode stay. -/
def Pinned (ctx : SessionContext) : SessionPhase → Prop
  | .handshake | .hello | .auth | .mode .. | .stuck => False
  | .live now _ => now = ctx
  | .closed _ | .terminated _ => True

/-! ## Rights -/

/-- A mask of one bit is contained as soon as it is touched. -/
theorem and_eq_bit_iff
    {rights bit : UInt32}
    (index : Nat)
    (isBit : bit.toNat = 2 ^ index) :
    rights &&& bit = bit ↔ rights &&& bit ≠ 0 := by
  have masked :
      (rights &&& bit).toNat = (rights.toNat.testBit index).toNat * 2 ^ index := by
    rw [UInt32.toNat_and, isBit, Nat.and_two_pow]
  rw [ne_eq, ← UInt32.toNat_inj, ← UInt32.toNat_inj, masked, isBit]
  cases rights.toNat.testBit index with
  | false => simp [(Nat.two_pow_pos index).ne]
  | true => simp

/-- A right of one bit is held when that bit or all access is. -/
theorem hasRight_iff
    {rights need : UInt32}
    (index : Nat)
    (isBit : need.toNat = 2 ^ index) :
    hasRight rights need = true ↔ containsAny rights [need] := by
  simp [hasRight, containsAny, and_eq_bit_iff index isBit]

theorem hasControl_iff
    {rights : UInt32} :
    SessionContext.hasControl rights = true ↔
      containsAny rights [R_RemoteScreenControl] :=
  hasRight_iff 2 rfl

/-- Control implies view. -/
theorem hasViewRight_iff
    {rights : UInt32} :
    SessionContext.hasViewRight rights = true ↔
      containsAny rights [R_RemoteScreenView, R_RemoteScreenControl] := by
  have view : hasRight rights R_RemoteScreenView = true ↔
      containsAny rights [R_RemoteScreenView] :=
    hasRight_iff 1 rfl
  rw [SessionContext.hasViewRight, Bool.or_eq_true, hasControl_iff, view]
  simp only [containsAny, List.mem_cons, List.not_mem_nil, or_false,
    exists_eq_or_imp, exists_eq_left]
  tauto

theorem hasTransfer_iff
    {rights : UInt32} :
    hasRight rights R_FileTransfer = true ↔
      containsAny rights [R_FileTransfer] :=
  hasRight_iff 3 rfl

/-- The session asks for the rights of its mode. -/
theorem authorized_iff
    {rights : UInt32}
    {mode : ConnectionMode} :
    SessionContext.authorized rights mode = true ↔
      Authorises rights mode := by
  cases mode with
  | known name =>
      cases name with
      | viewOnly => exact hasViewRight_iff
      | fullControl => exact hasControl_iff
      | fileOnly => exact hasTransfer_iff
  | other byte unnamed => exact ⟨fun authorized => absurd authorized Bool.false_ne_true, False.elim⟩

/-! ## The invariant -/

section Mediation

variable {sha256 : Bytes → Hash256}
variable {setup : SessionSetup}
variable {ctx : SessionContext}
variable {out : Outside}
variable {loop : LoopState}

/-- Without the transfer right no upload is under way. -/
def TransfersOnly (ctx : SessionContext) (loop : LoopState) : Prop :=
  ∀ (id : UInt32) (st : UploadState),
    loop.uploads[id]? = some st → ctx.canTransfer = true

/-- What the handler does in a session, the session permits. -/
theorem MayDo.permitted
    {m : Message}
    {effect : Effect}
    (mayDo : MayDo setup ctx out loop m effect)
    (transfers : TransfersOnly ctx loop) :
    Permits ctx.rights ctx.mode effect := by
  have files :
      ctx.canTransfer = true → containsAny ctx.rights [R_FileTransfer] :=
    hasTransfer_iff.mp
  have controls :
      ctx.canControl = true →
        ctx.mode = .known .fullControl ∧
          containsAny ctx.rights [R_RemoteScreenControl] := by
    intro permitted
    simp only [SessionContext.canControl, Bool.and_eq_true, decide_eq_true_eq]
      at permitted
    exact ⟨permitted.1, hasControl_iff.mp permitted.2⟩
  cases mayDo with
  | mouse permitted x y action => exact controls permitted
  | key permitted down vk => exact controls permitted
  | talk op payload ok noFrame => exact fun isFrame => absurd isFrame noFrame
  | log action target result detail fileAction => exact False.elim
  | createDirectory permitted op requested above missing =>
      exact fun _ => files permitted
  | openTemp permitted requested ok => exact fun _ => files permitted
  | write found position data => exact fun _ => files (transfers _ _ found)
  | close found => exact fun _ => files (transfers _ _ found)
  | renameTemp found ok => exact fun _ => files (transfers _ _ found)
  | removeTemp found ok => exact fun _ => files (transfers _ _ found)
  | remove permitted requested ok => exact fun _ => files permitted
  | rename permitted srcRequested dstRequested ok => exact fun _ => files permitted
  | readFile permitted requested content => exact fun _ => files permitted

/-- What streaming adds, the session permits. -/
theorem Shown.permitted
    {effect : Effect}
    (shown : Shown setup ctx effect) :
    Permits ctx.rights ctx.mode effect := by
  rcases shown with ⟨canView, op, payload, ok, rfl, _⟩ | ⟨ok, rfl⟩
  · intro _
    simp only [SessionContext.canView, Bool.and_eq_true, decide_eq_true_eq]
      at canView
    exact ⟨canView.1, hasViewRight_iff.mp canView.2⟩
  · exact False.elim

/-- What ends the event loop, the session permits. -/
theorem permitted_finishSession
    {effects : List Effect}
    (transfers : TransfersOnly ctx loop)
    (permitted : ∀ effect ∈ effects, Permits ctx.rights ctx.mode effect) :
    ∀ effect ∈ (finishSession setup ctx out loop effects).2,
      Permits ctx.rights ctx.mode effect := by
  intro effect member
  rcases List.mem_append.mp member with inLoop | isEnd
  · rcases List.mem_append.mp inLoop with earlier | discarded
    · exact permitted effect earlier
    · obtain ⟨entry, listed, isEffect⟩ := List.mem_flatMap.mp discarded
      have found : loop.uploads[entry.1]? = some entry.2 :=
        Std.TreeMap.mem_toList_iff_getElem?_eq_some.mp listed
      rcases List.mem_append.mp isEffect with isClose | isRemove
      · simp only [OfStream.close, List.mem_cons, List.not_mem_nil, or_false]
          at isClose
        rcases isClose with rfl | rfl <;>
          exact fun _ => hasTransfer_iff.mp (transfers _ _ found)
      · rw [List.mem_singleton.mp isRemove]
        exact fun _ => hasTransfer_iff.mp (transfers _ _ found)
  · simp only [List.mem_cons, List.not_mem_nil, or_false] at isEnd
    rcases isEnd with rfl | rfl | rfl <;> exact False.elim

/-- The handler starts uploads only with the transfer right. -/
theorem Handles.transfersOnly
    {m : Message}
    {outcome : Outcome}
    (handles : Handles sha256 setup ctx out loop m outcome)
    (transfers : TransfersOnly ctx loop) :
    TransfersOnly ctx outcome.loop := by
  cases handles with
  | upload permitted op decoded resolved =>
      exact fun _ _ _ => permitted
  | block op decoded found =>
      exact fun _ _ _ => transfers _ _ found
  | complete op decoded found =>
      exact fun _ _ _ => transfers _ _ found
  | _ => exact transfers

/--
The trace of a session that has started: nothing guarded up to the start, and
only what the session permits from then on.
-/
def Started
    (setup : SessionSetup)
    (user : Bytes)
    (rights : UInt32)
    (mode : ConnectionMode)
    (trace : List Effect) : Prop :=
  ∃ opening rest,
    trace = opening ++ rest ∧
      (∀ effect ∈ opening, ¬isGuarded effect) ∧
      Established setup user rights mode opening ∧
      ∀ effect ∈ rest, Permits rights mode effect

/-- A started session goes on with what it permits. -/
theorem Started.append
    {user : Bytes}
    {rights : UInt32}
    {mode : ConnectionMode}
    {trace effects : List Effect}
    (started : Started setup user rights mode trace)
    (permitted : ∀ effect ∈ effects, Permits rights mode effect) :
    Started setup user rights mode (trace ++ effects) := by
  obtain ⟨opening, rest, rfl, calm, established, earlier⟩ := started
  refine ⟨opening, rest ++ effects, by simp, calm, established, ?_⟩
  intro effect member
  rcases List.mem_append.mp member with inRest | isNew
  · exact earlier effect inRest
  · exact permitted effect isNew

/-- The start of a session stays in its trace. -/
theorem Established.append
    {user : Bytes}
    {rights : UInt32}
    {mode : ConnectionMode}
    {trace : List Effect}
    (established : Established setup user rights mode trace)
    (effects : List Effect) :
    Established setup user rights mode (trace ++ effects) := by
  obtain ⟨authorises, sessionId, sent, m, detail, op, decoded, rows⟩ :=
    established
  exact ⟨authorises, sessionId, sent, m, detail, op, decoded,
    rows.trans (List.sublist_append_left trace effects)⟩

/-- A started session is mediated. -/
theorem Started.obeys
    {user : Bytes}
    {rights : UInt32}
    {mode : ConnectionMode}
    {trace : List Effect}
    (started : Started setup user rights mode trace) :
    Obeys (Mediated setup user rights mode) trace := by
  obtain ⟨opening, rest, rfl, calm, established, permitted⟩ := started
  refine obeys_append.mpr ⟨?_, ?_⟩
  · exact obeys_of_forall fun effect member _ guarded =>
      absurd guarded (calm effect member)
  · rintro before effect after rfl _
    exact ⟨established.append before, permitted effect (by simp)⟩

/-- A session that has started with this user, these rights and this mode. -/
structure Goes
    (setup : SessionSetup)
    (ctx : SessionContext)
    (session : Session) : Prop where
  started : Started setup ctx.user ctx.rights ctx.mode session.trace
  pinned : Pinned ctx session.phase
  transfers :
    ∀ now loop, session.phase = .live now loop → TransfersOnly now loop

/-- What a session knows about its trace in each phase. -/
def Mediates (setup : SessionSetup) (session : Session) : Prop :=
  match session.phase with
  | .handshake | .hello | .auth =>
      ∀ effect ∈ session.trace, ¬isGuarded effect
  | .mode _ rights =>
      (∀ effect ∈ session.trace, ¬isGuarded effect) ∧
        ∃ sessionId sent,
          .send (.known .authResult)
              (AuthResultMsg.encode
                { status := .known .ok, grantedRights := rights, sessionId })
              sent ∈ session.trace
  | .live .. => ∃ ctx, Goes setup ctx session
  | .closed _ | .terminated _ | .stuck =>
      (∀ effect ∈ session.trace, ¬isGuarded effect) ∨
        ∃ ctx, Goes setup ctx session

theorem Preliminary.unguarded
    {effect : Effect}
    (preliminary : Preliminary effect) :
    ¬isGuarded effect := by
  cases preliminary with
  | received m => exact not_false
  | talk op payload ok greeting =>
      rcases greeting with rfl | rfl | rfl <;>
        simp [isGuarded, isFrameOp]
  | log event noSession => exact not_false

/-- An unguarded trace goes on unguarded. -/
theorem unguarded_append
    {trace effects : List Effect}
    (calm : ∀ effect ∈ trace, ¬isGuarded effect)
    (stillCalm : ∀ effect ∈ effects, ¬isGuarded effect) :
    ∀ effect ∈ trace ++ effects, ¬isGuarded effect := by
  intro effect member
  rcases List.mem_append.mp member with earlier | isNew
  · exact calm effect earlier
  · exact stillCalm effect isNew

/-- A turn before the event loop does nothing guarded. -/
theorem mediates_enters
    {trace : List Effect}
    {turn : Turn}
    {phase : SessionPhase}
    {result : SessionPhase × List Effect}
    (early : phase.early)
    (mediates : Mediates setup ⟨phase, trace⟩)
    (enters : Enters setup turn phase result) :
    Mediates setup ⟨result.1, trace ++ result.2⟩ := by
  have calm : ∀ effect ∈ trace, ¬isGuarded effect := by
    cases phase with
    | handshake => exact mediates
    | hello => exact mediates
    | auth => exact mediates
    | mode user rights => exact mediates.1
    | _ => exact early.elim
  cases enters with
  | left early only =>
      refine .inl (unguarded_append calm fun effect member => ?_)
      rcases List.mem_append.mp member with isOnly | isSlot
      · exact (only effect isOnly).unguarded
      · rw [List.mem_singleton.mp isSlot]
        exact not_false
  | shaken =>
      exact unguarded_append calm (by simp)
  | greeted only =>
      exact unguarded_append calm fun effect member =>
        (only effect member).unguarded
  | authenticated m user payload detail rights sessionId ok isResult =>
      refine ⟨unguarded_append calm ?_, sessionId, ok, ?_⟩
      · simp [isGuarded, isFrameOp, isFileEffect]
      · simp [isResult]
  | started m text detail authorized op decoded =>
      obtain ⟨_, sessionId, sent, answered⟩ := mediates
      refine ⟨_, ⟨_, [], (List.append_nil _).symm, ?_, ?_, by simp⟩, rfl, ?_⟩
      · exact unguarded_append calm (by simp [isGuarded, isFileEffect])
      · refine ⟨authorized_iff.mp authorized, sessionId, sent, m, detail, op,
          decoded, ?_⟩
        refine (List.singleton_sublist.mpr answered).append ?_
        simp
      · rintro now loop same id st found
        cases same
        simp at found
  | threw early =>
      refine .inl (unguarded_append calm fun effect member => ?_)
      rw [List.mem_singleton.mp member]
      exact not_false

/-- However a turn of the event loop ends, it was permitted. -/
theorem goes_streams
    {trace effects : List Effect}
    {result : SessionPhase × List Effect}
    (started : Started setup ctx.user ctx.rights ctx.mode trace)
    (transfers : TransfersOnly ctx loop)
    (permitted : ∀ effect ∈ effects, Permits ctx.rights ctx.mode effect)
    (streams : Streams setup ctx out loop effects result) :
    Goes setup ctx ⟨result.1, trace ++ result.2⟩ := by
  have more :
      ∀ {shown : List Effect},
        (∀ effect ∈ shown, Shown setup ctx effect) →
        ∀ effect ∈ effects ++ shown, Permits ctx.rights ctx.mode effect := by
    intro shown only effect member
    rcases List.mem_append.mp member with earlier | isShown
    · exact permitted effect earlier
    · exact (only effect isShown).permitted
  cases streams with
  | live next uploads ids only =>
      refine ⟨started.append (more only), rfl, ?_⟩
      rintro now loop same
      cases same
      rwa [TransfersOnly, uploads]
  | finished next uploads only =>
      have nextTransfers : TransfersOnly ctx next := by
        rwa [TransfersOnly, uploads]
      exact ⟨started.append
          (permitted_finishSession nextTransfers (more only)),
        trivial, by simp [finishSession]⟩

/-- A turn of the event loop does only what the session permits. -/
theorem goes_liveTurn
    {trace : List Effect}
    (started : Started setup ctx.user ctx.rights ctx.mode trace)
    (transfers : TransfersOnly ctx loop)
    (turn : Turn) :
    Goes setup ctx
      ⟨(liveTurn sha256 setup ctx loop turn).1,
        trace ++ (liveTurn sha256 setup ctx loop turn).2⟩ := by
  have inverted := liveTurn_liveTurn sha256 setup ctx loop turn
  generalize liveTurn sha256 setup ctx loop turn = result at inverted
  cases inverted with
  | unread streams =>
      exact goes_streams started transfers (by simp) streams
  | handled running read handles streams =>
      refine goes_streams started (handles.transfersOnly transfers)
        (fun effect member => ?_) streams
      rcases List.mem_cons.mp member with rfl | isHandled
      · exact False.elim
      · exact (handles.mayDo effect isHandled).permitted transfers
  | threw running read failed =>
      refine ⟨started.append fun effect member => ?_, trivial, by simp⟩
      rw [List.mem_singleton.mp member]
      exact False.elim

/-- A started session goes on as it started. -/
theorem goes_step
    (session : Session)
    (turn : Turn)
    (goes : Goes setup ctx session) :
    Goes setup ctx (session.step sha256 setup turn) := by
  obtain ⟨phase, trace⟩ := session
  obtain ⟨started, pinned, transfers⟩ := goes
  cases phase with
  | live now loop =>
      obtain rfl : now = ctx := pinned
      exact goes_liveTurn started (transfers now loop rfl) turn
  | closed unfinished =>
      exact ⟨by simpa [Session.step, SessionPhase.turn] using started,
        trivial, by simp [Session.step, SessionPhase.turn]⟩
  | terminated error =>
      exact ⟨by simpa [Session.step, SessionPhase.turn] using started,
        trivial, by simp [Session.step, SessionPhase.turn]⟩
  | _ => exact pinned.elim

/-- Every turn keeps what a session knows about its trace. -/
theorem mediates_step
    (session : Session)
    (turn : Turn)
    (mediates : Mediates setup session) :
    Mediates setup (session.step sha256 setup turn) := by
  have settled :
      ∀ {session : Session},
        (∃ ctx, Goes setup ctx session) → Mediates setup session := by
    rintro ⟨phase, trace⟩ ⟨ctx, goes⟩
    cases phase with
    | live now loop => exact ⟨ctx, goes⟩
    | closed unfinished => exact .inr ⟨ctx, goes⟩
    | terminated error => exact .inr ⟨ctx, goes⟩
    | _ => exact goes.pinned.elim
  obtain ⟨phase, trace⟩ := session
  by_cases early : phase.early
  · exact mediates_enters early mediates (turn_enters sha256 setup early turn)
  · cases phase with
    | live ctx loop =>
        obtain ⟨ctx, goes⟩ := mediates
        exact settled ⟨ctx, goes_step _ turn goes⟩
    | closed unfinished =>
        simpa [Session.step, SessionPhase.turn] using mediates
    | terminated error =>
        simpa [Session.step, SessionPhase.turn] using mediates
    | stuck =>
        simpa [Session.step, SessionPhase.turn] using mediates
    | _ => exact absurd trivial early

/-- What a session knows about its trace, it knows in every run. -/
theorem mediates_run
    (turns : List Turn) :
    Mediates setup (Session.run sha256 setup turns) :=
  StepRuns.run_invariant (Mediates setup) mediates_step
    (by simp [Mediates, isGuarded, isFileEffect]) turns

/-- What a session knows about its trace says that it is mediated. -/
theorem Mediates.obeys
    {session : Session}
    (mediates : Mediates setup session) :
    ∃ user rights mode,
      Obeys (Mediated setup user rights mode) session.trace := by
  have settled :
      (∀ effect ∈ session.trace, ¬isGuarded effect) ∨
        ∃ ctx, Goes setup ctx session := by
    unfold Mediates at mediates
    cases phase : session.phase with
    | live ctx loop =>
        rw [phase] at mediates
        exact .inr mediates
    | mode user rights =>
        rw [phase] at mediates
        exact .inl mediates.1
    | handshake => exact .inl (by rwa [phase] at mediates)
    | hello => exact .inl (by rwa [phase] at mediates)
    | auth => exact .inl (by rwa [phase] at mediates)
    | _ => rwa [phase] at mediates
  rcases settled with calm | ⟨ctx, goes⟩
  · exact ⟨[], R_None, .known .viewOnly,
      obeys_of_forall fun effect member _ guarded =>
        absurd guarded (calm effect member)⟩
  · exact ⟨ctx.user, ctx.rights, ctx.mode, goes.started.obeys⟩

/-- A live session goes on with its own user, rights and mode. -/
theorem goes_of_live
    {session : Session}
    (mediates : Mediates setup session)
    (isLive : session.phase = .live ctx loop) :
    Goes setup ctx session := by
  rw [Mediates, isLive] at mediates
  obtain ⟨other, goes⟩ := mediates
  have same := goes.pinned
  rw [isLive] at same
  obtain rfl : ctx = other := same
  exact goes

end Mediation

/-! ## Logging in -/

/-- The turns of a login that is granted these rights, up to the chosen mode. -/
def loginTurns
    (out : Outside)
    (user : Bytes)
    (rights : UInt32)
    (mode : ConnectionMode) : List Turn :=
  [{ outside := out },
    { read := .ok ⟨.known .hello, HelloMsg.encode { clientName := [] }⟩
      outside := out },
    { read := .ok
        ⟨.known .authRequest,
          AuthRequestMsg.encode { username := user, password := [] }⟩
      outside :=
        { out with
          authenticate := fun _ _ => { status := .known .ok, rights } } },
    { read := .ok
        ⟨.known .sessionStart, SessionStartMsg.encode { mode := mode }⟩
      outside := out }]

/-- What a granted login leaves in the trace. -/
def loginTrace
    (setup : SessionSetup)
    (out : Outside)
    (user : Bytes)
    (rights : UInt32)
    (mode : ConnectionMode) : List Effect :=
  (Session.run evpSha256 setup (loginTurns out user rights mode)).trace

/-- A granted login with an authorised mode starts the event loop. -/
theorem run_loginTurns
    (sha256 : Bytes → Hash256)
    (setup : SessionSetup)
    (out : Outside)
    {user : Bytes}
    {rights : UInt32}
    {mode : ConnectionMode}
    (fits : user.length < 2 ^ 32)
    (authorized : SessionContext.authorized rights mode = true) :
    Session.run sha256 setup (loginTurns out user rights mode) =
      ⟨.live { user, rights, mode } { captureOk := out.captureReady },
        loginTrace setup out user rights mode⟩ := by
  have hello :
      HelloMsg.decode (HelloMsg.encode { clientName := [] }) =
        .ok { clientName := [] } :=
    HelloMsg.decode_ok_iff.mpr ⟨by simp, [], by simp⟩
  have credentials :
      AuthRequestMsg.decode
          (AuthRequestMsg.encode { username := user, password := [] }) =
        .ok { username := user, password := [] } :=
    AuthRequestMsg.decode_ok_iff.mpr ⟨fits, by simp, [], by simp⟩
  have start :
      SessionStartMsg.decode (SessionStartMsg.encode { mode := mode }) =
        .ok { mode := mode } :=
    SessionStartMsg.decode_ok_iff.mpr ⟨[], by simp⟩
  simp [loginTrace, Session.run, loginTurns, Session.step, SessionPhase.turn,
    helloTurn, authTurn, modeTurn, hello, credentials, start, authorized]

/--
Every guarded effect of a session comes after one login, one authorised mode and
the log row of its start, and is permitted by the rights and the mode; nothing
received later changes them.
-/
theorem session_mediated
    (sha256 : Bytes → Hash256)
    (setup : SessionSetup)
    (earlier later : List Turn) :
    (∃ user rights mode,
        Obeys (Mediated setup user rights mode)
          (Session.run sha256 setup (earlier ++ later)).trace) ∧
      ∀ ctx loop,
        (Session.run sha256 setup earlier).phase = .live ctx loop →
        Obeys (Mediated setup ctx.user ctx.rights ctx.mode)
            (Session.run sha256 setup (earlier ++ later)).trace ∧
          Pinned ctx (Session.run sha256 setup (earlier ++ later)).phase := by
  refine ⟨(mediates_run (earlier ++ later)).obeys, fun ctx loop isLive => ?_⟩
  have goes : Goes setup ctx (Session.run sha256 setup (earlier ++ later)) := by
    rw [Session.run, StepRuns.run_append]
    exact StepRuns.run_invariant (Goes setup ctx) goes_step
      (goes_of_live (mediates_run earlier) isLive) later
  exact ⟨goes.started.obeys, goes.pinned⟩

/-- A greeting and a login in the middle of a viewer's session change nothing. -/
theorem session_mediated_viewer :
    Obeys (Mediated ⟨[], [], [], 0⟩ [] R_RemoteScreenView (.known .viewOnly))
        (Session.run evpSha256 ⟨[], [], [], 0⟩
          (loginTurns {} [] R_RemoteScreenView (.known .viewOnly) ++
            loginTurns {} [] R_AllAccess (.known .fullControl))).trace ∧
      Pinned ⟨[], R_RemoteScreenView, .known .viewOnly⟩
        (Session.run evpSha256 ⟨[], [], [], 0⟩
          (loginTurns {} [] R_RemoteScreenView (.known .viewOnly) ++
            loginTurns {} [] R_AllAccess (.known .fullControl))).phase :=
  (session_mediated evpSha256 ⟨[], [], [], 0⟩
      (loginTurns {} [] R_RemoteScreenView (.known .viewOnly))
      (loginTurns {} [] R_AllAccess (.known .fullControl))).2 _ _
    (congrArg Session.phase (run_loginTurns _ _ _ (by simp) (by decide)))

end RadminPro
