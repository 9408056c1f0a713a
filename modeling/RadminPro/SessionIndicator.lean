import RadminPro.SessionOverlay

namespace RadminPro

open ByteCodec

/-!
# The mandatory indicator

A session shows its banner before the first effect that monitors the host and
hides it after the last one.  Whether the banner is there in between depends on
its thread: it stays up in the runs in which the window is there when `show`
returns and nothing but `hide` closes it while the session can still monitor.
-/

/-! ## Where a session monitors -/

/-- The host is shown to the peer or operated by it. -/
def Monitors : Effect → Prop
  | .send op _ _ => isFrameOp op
  | .injectMouse .. | .injectKey .. => True
  | _ => False

instance : (effect : Effect) → Decidable (Monitors effect)
  | .send .. => inferInstanceAs (Decidable (_ ∨ _ ∨ _ ∨ _))
  | .injectMouse .. | .injectKey .. => inferInstanceAs (Decidable True)
  | .received _ | .setRecvTimeoutMs _ | .audit _ | .overlayShow _ | .overlayHide
  | .captureInitialize .. | .createDirectory _ | .openTrunc .. | .write ..
  | .close _ | .rename .. | .remove .. | .readFile .. | .releaseSlot =>
      inferInstanceAs (Decidable False)

/-- The banner is shown or hidden. -/
def CallsOverlay : Effect → Prop
  | .overlayShow _ | .overlayHide => True
  | _ => False

/-- Neither monitoring nor a call of the overlay. -/
def Calm (effect : Effect) : Prop :=
  ¬Monitors effect ∧ ¬CallsOverlay effect

/-- The event loop may still stream or inject. -/
def SessionPhase.canMonitor : SessionPhase → Bool
  | .live ctx loop => ctx.canControl || (ctx.canView && loop.captureOk)
  | _ => false

/-- The banner is shown once, and nothing monitors before. -/
def Opened (trace : List Effect) : Prop :=
  ∃ before text after,
    trace = before ++ .overlayShow text :: after ∧
      (∀ effect ∈ before, Calm effect) ∧
      ∀ effect ∈ after, ¬CallsOverlay effect

/-- How the trace of a session stands to its banner in each phase. -/
def Opens (session : Session) : Prop :=
  match session.phase with
  | .handshake | .hello | .auth | .mode .. =>
      ∀ effect ∈ session.trace, Calm effect
  | .live .. => Opened session.trace
  | .closed _ =>
      (∀ effect ∈ session.trace, Calm effect) ∨
        ∃ front,
          session.trace = front ++ [.overlayHide, .releaseSlot] ∧ Opened front
  | .terminated _ | .stuck =>
      (∀ effect ∈ session.trace, Calm effect) ∨ Opened session.trace

section Turns

variable {sha256 : Bytes → Hash256}
variable {setup : SessionSetup}
variable {ctx : SessionContext}
variable {out : Outside}
variable {loop : LoopState}

/-- What is done before the mode is authorised is calm. -/
theorem Preliminary.calm
    {effect : Effect}
    (preliminary : Preliminary effect) :
    Calm effect := by
  cases preliminary with
  | received m => exact ⟨id, id⟩
  | log event noSession => exact ⟨id, id⟩
  | talk op payload ok greeting =>
      refine ⟨?_, id⟩
      rcases greeting with rfl | rfl | rfl
      · simp [Monitors, isFrameOp]
      · simp [Monitors, isFrameOp]
      · simp [Monitors, isFrameOp]

/-- The handler does not call the overlay. -/
theorem MayDo.leavesOverlay
    {m : Message}
    {effect : Effect}
    (mayDo : MayDo setup ctx out loop m effect) :
    ¬CallsOverlay effect := by
  cases mayDo
  all_goals exact id

/-- The handler monitors only where the peer controls the host. -/
theorem MayDo.monitors
    {m : Message}
    {effect : Effect}
    (mayDo : MayDo setup ctx out loop m effect)
    (monitors : Monitors effect) :
    ctx.canControl = true := by
  cases mayDo with
  | mouse permitted x y action => exact permitted
  | key permitted down vk => exact permitted
  | talk op payload ok noFrame => exact (noFrame monitors).elim
  | _ => exact monitors.elim

/-- Streaming does not call the overlay. -/
theorem Shown.leavesOverlay
    {effect : Effect}
    (shown : Shown setup ctx effect) :
    ¬CallsOverlay effect := by
  rcases shown with ⟨-, op, payload, ok, rfl, -⟩ | ⟨ok, rfl⟩
  · exact id
  · exact id

/-- More of the same keeps a trace opened. -/
theorem Opened.append
    {trace effects : List Effect}
    (opened : Opened trace)
    (leaves : ∀ effect ∈ effects, ¬CallsOverlay effect) :
    Opened (trace ++ effects) := by
  obtain ⟨before, text, after, rfl, calm, still⟩ := opened
  refine ⟨before, text, after ++ effects, by simp, calm, ?_⟩
  intro effect member
  rcases List.mem_append.mp member with earlier | isNew
  · exact still effect earlier
  · exact leaves effect isNew

/-- The end of the event loop hides the banner last but one. -/
theorem opens_finishSession
    {trace effects : List Effect}
    (opened : Opened trace)
    (leaves : ∀ effect ∈ effects, ¬CallsOverlay effect) :
    Opens
      ⟨(finishSession setup ctx out loop effects).1,
        trace ++ (finishSession setup ctx out loop effects).2⟩ := by
  refine .inr ⟨trace ++ (effects ++
    (loop.uploads.toList.flatMap (discard out) ++
      [.audit (.session ctx.user setup.peerStr false [])])), ?_, ?_⟩
  · rw [finishSession_effects]
    simp
  · apply opened.append
    intro effect member
    rcases List.mem_append.mp member with isEffect | rest
    · exact leaves effect isEffect
    · rcases List.mem_append.mp rest with isDiscard | isRow
      · obtain ⟨entry, -, isDiscard⟩ := List.mem_flatMap.mp isDiscard
        simp only [discard, OfStream.close, List.cons_append, List.nil_append,
          List.mem_cons, List.not_mem_nil, or_false] at isDiscard
        rcases isDiscard with rfl | rfl | rfl
        · exact id
        · exact id
        · exact id
      · rw [List.mem_singleton.mp isRow]
        exact id

/-- However a turn of the event loop ends. -/
theorem opens_streams
    {trace effects : List Effect}
    {result : SessionPhase × List Effect}
    (opened : Opened trace)
    (leaves : ∀ effect ∈ effects, ¬CallsOverlay effect)
    (streams : Streams setup ctx out loop effects result) :
    Opens ⟨result.1, trace ++ result.2⟩ := by
  have extended :
      ∀ shown,
        (∀ effect ∈ shown, Shown setup ctx effect) →
        ∀ effect ∈ effects ++ shown, ¬CallsOverlay effect := by
    intro shown only effect member
    rcases List.mem_append.mp member with before | isShown
    · exact leaves effect before
    · exact (only effect isShown).leavesOverlay
  cases streams with
  | @live next uploads ids shown only =>
      exact opened.append (extended shown only)
  | @finished next uploads shown only =>
      exact opens_finishSession opened (extended shown only)

/-- A turn before the event loop opens the trace when it enters the loop. -/
theorem opens_enters
    {trace : List Effect}
    {turn : Turn}
    {phase : SessionPhase}
    {result : SessionPhase × List Effect}
    (calm : ∀ effect ∈ trace, Calm effect)
    (enters : Enters setup turn phase result) :
    Opens ⟨result.1, trace ++ result.2⟩ := by
  have calmer :
      ∀ effects,
        (∀ effect ∈ effects, Calm effect) →
        ∀ effect ∈ trace ++ effects, Calm effect := by
    intro effects only effect member
    rcases List.mem_append.mp member with before | isNew
    · exact calm effect before
    · exact only effect isNew
  cases enters with
  | @left _ effects early only =>
      refine .inl (calmer _ fun effect member => ?_)
      rcases List.mem_append.mp member with isEffect | isRelease
      · exact (only effect isEffect).calm
      · rw [List.mem_singleton.mp isRelease]
        exact ⟨id, id⟩
  | shaken =>
      exact calmer [] (by simp)
  | greeted only =>
      exact calmer _ fun effect member => (only effect member).calm
  | authenticated m user payload detail rights sessionId ok isResult =>
      refine calmer _ fun effect member => ?_
      simp only [List.mem_cons, List.not_mem_nil, or_false] at member
      rcases member with rfl | rfl | rfl
      · exact ⟨id, id⟩
      · exact ⟨by simp [Monitors, isFrameOp], id⟩
      · exact ⟨id, id⟩
  | @started user rights mode m text detail authorized op decoded =>
      refine ⟨trace ++ [.received m, .setRecvTimeoutMs 0], text,
        [.audit (.session user setup.peerStr true detail),
          .captureInitialize setup.monitor turn.outside.captureReady],
        by simp, calmer _ fun effect member => ?_, fun effect member => ?_⟩
      · simp only [List.mem_cons, List.not_mem_nil, or_false] at member
        rcases member with rfl | rfl
        · exact ⟨id, id⟩
        · exact ⟨id, id⟩
      · simp only [List.mem_cons, List.not_mem_nil, or_false] at member
        rcases member with rfl | rfl
        · exact id
        · exact id
  | threw early =>
      refine .inl (calmer _ fun effect member => ?_)
      rw [List.mem_singleton.mp member]
      exact ⟨id, id⟩

/-- Every turn keeps the banner around what monitors. -/
theorem opens_step
    {session : Session}
    (opens : Opens session)
    (turn : Turn) :
    Opens (session.step sha256 setup turn) := by
  obtain ⟨phase, trace⟩ := session
  cases phase with
  | handshake =>
      have early : SessionPhase.handshake.early := trivial
      exact opens_enters opens (turn_enters sha256 setup early turn)
  | hello => exact opens_enters opens (helloTurn_enters setup turn)
  | auth => exact opens_enters opens (authTurn_enters setup turn)
  | mode user rights =>
      exact opens_enters opens (modeTurn_enters setup user rights turn)
  | live ctx loop =>
      have inverted := liveTurn_liveTurn sha256 setup ctx loop turn
      have shape :
          Session.step sha256 setup ⟨.live ctx loop, trace⟩ turn =
            ⟨(liveTurn sha256 setup ctx loop turn).1,
              trace ++ (liveTurn sha256 setup ctx loop turn).2⟩ :=
        rfl
      rw [shape]
      generalize liveTurn sha256 setup ctx loop turn = result at inverted
      cases inverted with
      | unread streams =>
          exact opens_streams opens (by simp) streams
      | handled running read handles streams =>
          refine opens_streams opens (fun effect member => ?_) streams
          rcases List.mem_cons.mp member with rfl | isHandled
          · exact id
          · exact (handles.mayDo effect isHandled).leavesOverlay
      | threw running read failed =>
          refine .inr (Opened.append opens fun effect member => ?_)
          rw [List.mem_singleton.mp member]
          exact id
  | closed unfinished =>
      simpa [Session.step, SessionPhase.turn] using opens
  | terminated error =>
      simpa [Session.step, SessionPhase.turn] using opens
  | stuck =>
      simpa [Session.step, SessionPhase.turn] using opens

/-! ## A session that cannot monitor -/

/-- Without a picture to stream nothing is streamed. -/
theorem streamTurn_blind
    (blind : (ctx.canView && loop.captureOk) = false)
    (effects : List Effect) :
    streamTurn setup ctx out loop effects = (.live ctx loop, effects) := by
  simp [streamTurn, blind]

/-- The handler leaves the capture alone. -/
theorem Handles.captureOk
    {m : Message}
    {outcome : Outcome}
    (handles : Handles sha256 setup ctx out loop m outcome) :
    outcome.loop.captureOk = loop.captureOk := by
  cases handles with
  | upload permitted op decoded resolved =>
      unfold beginUpload
      dsimp only
      split
      · rfl
      · rfl
  | _ => rfl

/-- The end of the event loop does not monitor. -/
theorem finishSession_unmonitored
    {effects : List Effect}
    (calm : ∀ effect ∈ effects, ¬Monitors effect) :
    (finishSession setup ctx out loop effects).1.canMonitor = false ∧
      ∀ effect ∈ (finishSession setup ctx out loop effects).2,
        ¬Monitors effect := by
  refine ⟨rfl, ?_⟩
  rw [finishSession_effects]
  intro effect member
  rcases List.mem_append.mp member with isEffect | rest
  · exact calm effect isEffect
  · rcases List.mem_append.mp rest with isDiscard | isEnd
    · obtain ⟨entry, -, isDiscard⟩ := List.mem_flatMap.mp isDiscard
      simp only [discard, OfStream.close, List.cons_append, List.nil_append,
        List.mem_cons, List.not_mem_nil, or_false] at isDiscard
      rcases isDiscard with rfl | rfl | rfl
      · exact id
      · exact id
      · exact id
    · simp only [List.mem_cons, List.not_mem_nil, or_false] at isEnd
      rcases isEnd with rfl | rfl | rfl
      · exact id
      · exact id
      · exact id

/-- A session that cannot monitor does not, and never will. -/
theorem liveTurn_unmonitored
    (cannot : (SessionPhase.live ctx loop).canMonitor = false)
    (turn : Turn) :
    (liveTurn sha256 setup ctx loop turn).1.canMonitor = false ∧
      ∀ effect ∈ (liveTurn sha256 setup ctx loop turn).2, ¬Monitors effect := by
  obtain ⟨noControl, blind⟩ :
      ctx.canControl = false ∧ (ctx.canView && loop.captureOk) = false := by
    simpa [SessionPhase.canMonitor] using cannot
  unfold liveTurn
  split
  · exact finishSession_unmonitored (by simp)
  · split
    · exact finishSession_unmonitored (by simp)
    · rw [streamTurn_blind blind]
      exact ⟨cannot, by simp⟩
    · next m read =>
        split
        · next error failed =>
            refine ⟨rfl, fun effect member => ?_⟩
            rw [List.mem_singleton.mp member]
            exact id
        · next outcome handled =>
            have handles := handle_handles handled
            have calm :
                ∀ effect ∈ Effect.received m :: outcome.effects,
                  ¬Monitors effect := by
              intro effect member
              rcases List.mem_cons.mp member with rfl | isHandled
              · exact id
              · intro monitors
                have controls : ctx.canControl = true :=
                  (handles.mayDo effect isHandled).monitors monitors
                rw [noControl] at controls
                cases controls
            dsimp only
            split
            · exact finishSession_unmonitored calm
            · have stillBlind :
                  (ctx.canView && outcome.loop.captureOk) = false := by
                rw [handles.captureOk]
                exact blind
              rw [streamTurn_blind stillBlind]
              refine ⟨?_, calm⟩
              simp [SessionPhase.canMonitor, noControl, stillBlind]

end Turns

end RadminPro
