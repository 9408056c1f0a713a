import RadminPro.PointerFidelity
import RadminPro.TransferRuns

namespace RadminPro

open ByteCodec

/-!
# Remote control from end to end

The window of the viewer turns what the user does into messages, the session
injects what they say into the host.  Frames travel the other way meanwhile and
change the geometry by which a position is scaled.
-/

/-! ## The window of the viewer -/

/-- What the user did with the mouse. -/
inductive MouseAction where
  | move
  | leftDown
  | leftUp
  | rightDown
  | rightUp
  deriving DecidableEq

/-- The number of an action on the wire. -/
def MouseAction.number : MouseAction → UInt32
  | .move => 0
  | .leftDown => 1
  | .leftUp => 2
  | .rightDown => 3
  | .rightUp => 4

/-- A message to the window; a position comes with the size of the client area. -/
inductive WindowEvent where
  | mouse (action : MouseAction) (x y : Int16) (clientW clientH : Int)
  | key (down : Bool) (wp : UInt64)
  | other

/-- What the window sends. -/
def viewerProc
    (control : Bool)
    (st : ViewerState) : WindowEvent → MouseSend
  | .mouse action x y clientW clientH =>
      if control then
        sendMouse st x.toInt y.toInt action.number clientW clientH
      else
        .nothing
  | .key down wp =>
      if control then
        .sent
          ⟨.known .inputKey,
            putU8 (if down then 1 else 0) ++ putU16 wp.toUInt16⟩
      else
        .nothing
  | .other => .nothing

/-! ## What the user means -/

/-- An input to the host. -/
inductive InputEvent where
  | mouse (x y : UInt16) (action : UInt32)
  | key (down : Bool) (vk : UInt16)
  deriving DecidableEq

namespace InputEvent

/-- The message that carries it. -/
def message : InputEvent → Message
  | .mouse x y action => ⟨.known .inputMouse, mousePayload x y action⟩
  | .key down vk =>
      ⟨.known .inputKey, putU8 (if down then 1 else 0) ++ putU16 vk⟩

/-- What it does to the host. -/
def effect : InputEvent → Effect
  | .mouse x y action => .injectMouse x y action
  | .key down vk => .injectKey down vk

end InputEvent

/-- The pixel of the desktop under the pointer, or the key. -/
def meant (st : ViewerState) : WindowEvent → Option InputEvent
  | .mouse action x y clientW clientH =>
      if 0 < st.remoteW ∧ 0 < st.remoteH ∧ 0 < clientW ∧ 0 < clientH then
        some
          (.mouse (.ofInt (pixelUnder x.toInt st.remoteW clientW))
            (.ofInt (pixelUnder y.toInt st.remoteH clientH)) action.number)
      else
        none
  | .key down wp => some (.key down wp.toUInt16)
  | .other => none

/-! ## The two sides -/

/-- The state that the reader and the window share. -/
def Reader.state? : Reader → Option ViewerState
  | .running st | .stopped st => some st
  | .escaped _ => none

/-- An effect that reaches the desktop of the host. -/
def Effect.injects : Effect → Bool
  | .injectMouse .. | .injectKey .. => true
  | _ => false

/--
The viewer and the session, what is under way between them, what the user has
asked for so far and what has been injected.  The window's thread holds the
width it has loaded until it loads the height.
-/
structure ControlLink where
  control : Bool
  reader : Reader := .running {}
  held : Option (WindowEvent × Int) := none
  session : Session
  toServer : List Message := []
  toViewer : List Message := []
  hungUp : Bool := false
  overflow : Bool := false
  asked : List InputEvent := []
  injected : List Effect := []

/-- What happens next. -/
inductive ControlMove where
  | loadWidth (event : WindowEvent) (early : Bool)
  | loadHeight
  | read
  | serve (running arrived : Bool) (outside : Outside)
  | hangUp (delivered : Nat)

namespace ControlLink

variable (heap : Nat → Bool) (sha256 : Bytes → Hash256) (setup : SessionSetup)

/-- The reader thread takes a message. -/
def read (link : ControlLink) : ControlLink :=
  match link.toViewer with
  | [] => link
  | m :: rest =>
      { link with reader := link.reader.read heap m, toViewer := rest }

/--
The window takes a message and loads the width of the frame.  The reader stores
the width before the height, so the next width can be seen early.
-/
def loadWidth
    (link : ControlLink)
    (event : WindowEvent)
    (early : Bool) : ControlLink :=
  let reader := if early then (link.read heap).reader else link.reader
  match link.held, reader.state? with
  | none, some st => { link with held := some (event, st.remoteW) }
  | _, _ => link

/-- The window loads the height and does the rest; a broken link takes nothing. -/
def loadHeight (link : ControlLink) : ControlLink :=
  match link.held, link.reader.state? with
  | some (event, remoteW), some st =>
      let seen := { st with remoteW }
      let done :=
        { link with
          held := none
          asked :=
            if link.control then
              link.asked ++ (meant seen event).toList
            else
              link.asked }
      match viewerProc link.control seen event with
      | .nothing => done
      | .overflow => { done with overflow := true }
      | .sent m =>
          if link.hungUp then
            done
          else
            { done with toServer := link.toServer ++ [m] }
  | _, _ => link

/-- The session takes a turn. -/
def turned (link : ControlLink) (turn : Turn) : ControlLink :=
  let effects := turnEffects sha256 setup link.session turn
  { link with
    session := link.session.step sha256 setup turn
    toViewer := link.toViewer ++ sentMessages effects
    injected := link.injected ++ effects.filter Effect.injects }

/--
A session that is still there passes its event loop once, with the message that
has arrived, if any.
-/
def serve
    (link : ControlLink)
    (running arrived : Bool)
    (outside : Outside) : ControlLink :=
  match link.session.phase with
  | .live .. =>
      match running && arrived, link.toServer with
      | true, m :: rest =>
          turned sha256 setup { link with toServer := rest }
            { running, read := .ok m, outside }
      | true, [] =>
          link.turned sha256 setup
            { running
              read := if link.hungUp then .closed else .timeout
              outside }
      | false, _ =>
          link.turned sha256 setup { running, read := .timeout, outside }
  | _ => link

/-- What happens next; a link that breaks may lose what is under way. -/
def step (link : ControlLink) : ControlMove → ControlLink
  | .loadWidth event early => link.loadWidth heap event early
  | .loadHeight => link.loadHeight
  | .read => link.read heap
  | .serve running arrived outside =>
      link.serve sha256 setup running arrived outside
  | .hangUp delivered =>
      { link with hungUp := true, toServer := link.toServer.take delivered }

/-- A session that has just been let in, and its viewer. -/
def fresh
    (control : Bool)
    (ctx : SessionContext)
    (loop : LoopState)
    (trace : List Effect) : ControlLink where
  control := control
  session := { phase := .live ctx loop, trace }

/-- The link after some moves. -/
def run (link : ControlLink) (moves : List ControlMove) : ControlLink :=
  StepRuns.run (step heap sha256 setup) link moves

end ControlLink

/-! ## What a turn of the session injects -/

section Turns

variable {sha256 : Bytes → Hash256}
variable {setup : SessionSetup}
variable {ctx : SessionContext}
variable {out : Outside}
variable {loop : LoopState}

/-- What may be injected in a session. -/
def injectedFor (ctx : SessionContext) (event : InputEvent) : List Effect :=
  if ctx.canControl then [event.effect] else []

/-- The host reads the key that was pressed or released. -/
theorem handleInputKey_message
    (permitted : ctx.canControl = true)
    (loop : LoopState)
    (down : Bool)
    (vk : UInt16) :
    handleInputKey ctx loop (InputEvent.key down vk).message.payload =
      .ok { loop, effects := [.injectKey down vk] } := by
  have parsed :
      parseAll
          (do
            let down ← ByteReader.u8
            let vk ← ByteReader.u16
            pure (down, vk))
          (InputEvent.key down vk).message.payload =
        .ok (if down then 1 else 0, vk) := by
    rw [parseAll_ok_iff
      (ByteReader.u8_reads.bind fun down =>
        ByteReader.u16_reads.bind fun vk =>
        ByteCodec.Reads.pure (down, vk))]
    refine ⟨_, ?_, [], (List.append_nil _).symm⟩
    simp [InputEvent.message]
  rw [handleInputKey, permitted, parsed]
  cases down with
  | true => rfl
  | false => rfl

/-- A message of the window is handled as it was meant. -/
theorem handle_message (event : InputEvent) :
    handle sha256 setup ctx out loop event.message =
      .ok { loop, effects := injectedFor ctx event } := by
  cases permitted : ctx.canControl with
  | true =>
      cases event with
      | mouse x y action =>
          have handled :=
            handleInputMouse_mousePayload permitted loop x y action
          simpa [handle, InputEvent.message, injectedFor, permitted,
            InputEvent.effect] using handled
      | key down vk =>
          have handled := handleInputKey_message permitted loop down vk
          simpa [handle, InputEvent.message, injectedFor, permitted,
            InputEvent.effect] using handled
  | false =>
      cases event with
      | mouse x y action =>
          simp [handle, InputEvent.message, injectedFor, permitted,
            handleInputMouse]
      | key down vk =>
          simp [handle, InputEvent.message, injectedFor, permitted,
            handleInputKey]

/-- Everything an input injects is an injection. -/
theorem filter_injectedFor (event : InputEvent) :
    (injectedFor ctx event).filter Effect.injects = injectedFor ctx event := by
  unfold injectedFor
  split
  · cases event with
    | mouse => rfl
    | key => rfl
  · rfl

/-- Streaming injects nothing. -/
theorem filter_shown
    {shown : List Effect}
    (only : ∀ effect ∈ shown, Shown setup ctx effect) :
    shown.filter Effect.injects = [] := by
  rw [List.filter_eq_nil_iff]
  intro effect member
  rcases only effect member with ⟨_, _, _, _, rfl, _⟩ | ⟨_, rfl⟩
  · simp [Effect.injects]
  · simp [Effect.injects]

/-- Leaving the event loop injects nothing. -/
theorem filter_finishSession (effects : List Effect) :
    (finishSession setup ctx out loop effects).2.filter Effect.injects =
      effects.filter Effect.injects := by
  simp [finishSession, List.filter_append, List.filter_flatMap,
    OfStream.close, Effect.injects]

/-- The session goes on or has been left. -/
def SessionPhase.Decent (ctx : SessionContext) (phase : SessionPhase) : Prop :=
  (∃ loop, phase = .live ctx loop) ∨ ∃ unfinished, phase = .closed unfinished

/-- So streaming a frame neither injects anything nor breaks the session. -/
theorem streamTurn_injects (effects : List Effect) :
    (streamTurn setup ctx out loop effects).2.filter Effect.injects =
        effects.filter Effect.injects ∧
      (streamTurn setup ctx out loop effects).1.Decent ctx := by
  have streams :
      Streams setup ctx out loop effects
        (streamTurn setup ctx out loop effects) :=
    streamTurn_streams effects
  generalize streamTurn setup ctx out loop effects = after at streams
  cases streams with
  | live next uploads ids only =>
      constructor
      · simp [List.filter_append, filter_shown only]
      · exact .inl ⟨next, rfl⟩
  | finished next uploads only =>
      constructor
      · rw [filter_finishSession, List.filter_append, filter_shown only,
          List.append_nil]
      · exact .inr ⟨_, rfl⟩

/-- A turn without a message injects nothing. -/
theorem liveTurn_quiet
    {turn : Turn}
    (quiet : turn.running = false ∨ ∀ m, turn.read ≠ .ok m) :
    (liveTurn sha256 setup ctx loop turn).2.filter Effect.injects = [] ∧
      (liveTurn sha256 setup ctx loop turn).1.Decent ctx := by
  unfold liveTurn
  split
  · rw [filter_finishSession]
    exact ⟨rfl, .inr ⟨_, rfl⟩⟩
  · next running =>
      split
      · rw [filter_finishSession]
        exact ⟨rfl, .inr ⟨_, rfl⟩⟩
      · exact streamTurn_injects []
      · next m read =>
          rcases quiet with stopped | none
          · simp [stopped] at running
          · exact absurd read (none m)

/-- A turn with a message of the window injects what it means. -/
theorem liveTurn_message
    {turn : Turn}
    {event : InputEvent}
    (running : turn.running = true)
    (read : turn.read = .ok event.message) :
    (liveTurn sha256 setup ctx loop turn).2.filter Effect.injects =
        injectedFor ctx event ∧
      (liveTurn sha256 setup ctx loop turn).1.Decent ctx := by
  let effects := Effect.received event.message :: injectedFor ctx event
  have kept : effects.filter Effect.injects = injectedFor ctx event := by
    simp [effects, Effect.injects, filter_injectedFor]
  have streamed :
      (streamTurn setup ctx turn.outside loop effects).2.filter
            Effect.injects =
          effects.filter Effect.injects ∧
        (streamTurn setup ctx turn.outside loop effects).1.Decent ctx :=
    streamTurn_injects effects
  rw [kept] at streamed
  simpa [liveTurn, running, read, handle_message] using streamed

end Turns

/-! ## What the session has announced -/

/-- A frame whose geometry the session has sent. -/
def Announced (trace : List Effect) (fi : FrameInfoMsg) : Prop :=
  ∃ payload,
    ⟨.known .frameInfo, payload⟩ ∈ sentMessages trace ∧
      FrameInfoMsg.decode payload = .ok fi

/-- A size that the viewer may know: none yet, or that of an announced frame. -/
def SizeFrom
    (trace : List Effect)
    (side : FrameInfoMsg → UInt16)
    (size : Int) : Prop :=
  ∃ value : UInt16,
    size = value.toNat ∧ (value = 0 ∨ ∃ fi, Announced trace fi ∧ value = side fi)

/-- An input that points into what the session has announced. -/
def InputEvent.Inside (trace : List Effect) : InputEvent → Prop
  | .mouse x y _ =>
      (∃ fi, Announced trace fi ∧ x < fi.width) ∧
        ∃ fi, Announced trace fi ∧ y < fi.height
  | .key .. => True

section Announcements

variable {trace later : List Effect}

theorem Announced.mono
    {fi : FrameInfoMsg}
    (announced : Announced trace fi) :
    Announced (trace ++ later) fi := by
  obtain ⟨payload, member, decoded⟩ := announced
  refine ⟨payload, ?_, decoded⟩
  simp only [sentMessages, List.filterMap_append, List.mem_append] at member ⊢
  exact .inl member

theorem SizeFrom.mono
    {side : FrameInfoMsg → UInt16}
    {size : Int}
    (known : SizeFrom trace side size) :
    SizeFrom (trace ++ later) side size := by
  obtain ⟨value, isValue, none | ⟨fi, announced, same⟩⟩ := known
  · exact ⟨value, isValue, .inl none⟩
  · exact ⟨value, isValue, .inr ⟨fi, announced.mono, same⟩⟩

theorem InputEvent.Inside.mono
    {event : InputEvent}
    (inside : event.Inside trace) :
    event.Inside (trace ++ later) := by
  cases event with
  | mouse x y action =>
      obtain ⟨⟨fi, column, isColumn⟩, fi', row, isRow⟩ := inside
      exact ⟨⟨fi, column.mono, isColumn⟩, fi', row.mono, isRow⟩
  | key down vk => trivial

/-- A pixel of an announced frame lies inside it. -/
theorem SizeFrom.pixel
    {side : FrameInfoMsg → UInt16}
    {size : Int}
    (known : SizeFrom trace side size)
    (positive : 0 < size)
    (position client : Int) :
    ∃ fi,
      Announced trace fi ∧
        UInt16.ofInt (pixelUnder position size client) < side fi := by
  obtain ⟨value, rfl, none | ⟨fi, announced, rfl⟩⟩ := known
  · subst none
    exact absurd positive (by decide)
  · have inside := pixelUnder_mem position client positive
    refine ⟨fi, announced, ?_⟩
    rw [UInt16.lt_iff_toNat_lt]
    exact_mod_cast (toNat_ofInt inside.1 inside.2).trans_lt inside.2

/-- What the user means lies inside what was announced. -/
theorem meant_inside
    {st : ViewerState}
    (width : SizeFrom trace FrameInfoMsg.width st.remoteW)
    (height : SizeFrom trace FrameInfoMsg.height st.remoteH)
    (message : WindowEvent) :
    ∀ event ∈ meant st message, event.Inside trace := by
  intro event isMeant
  cases message with
  | mouse action x y clientW clientH =>
      simp only [meant] at isMeant
      split at isMeant
      · next shown =>
          rw [Option.mem_some_iff] at isMeant
          subst isMeant
          exact ⟨width.pixel shown.1 _ _, height.pixel shown.2.1 _ _⟩
      · exact absurd isMeant (Option.not_mem_none event)
  | key down wp =>
      simp only [meant, Option.mem_some_iff] at isMeant
      subst isMeant
      trivial
  | other => exact absurd isMeant (Option.not_mem_none event)

/-- The window sends exactly what the user means. -/
theorem viewerProc_meant
    {st : ViewerState}
    (width : SizeFrom trace FrameInfoMsg.width st.remoteW)
    (height : SizeFrom trace FrameInfoMsg.height st.remoteH)
    (message : WindowEvent) :
    viewerProc true st message =
      match meant st message with
      | some event => .sent event.message
      | none => .nothing := by
  obtain ⟨remoteW, isWidth, -⟩ := width
  obtain ⟨remoteH, isHeight, -⟩ := height
  cases message with
  | mouse action x y clientW clientH =>
      simp only [viewerProc, meant, sendMouse, isWidth, isHeight, if_true]
      by_cases shown :
          0 < (remoteW.toNat : Int) ∧ 0 < (remoteH.toNat : Int) ∧
            0 < clientW ∧ 0 < clientH
      · obtain ⟨columns, rows, wide, high⟩ := shown
        rw [if_neg (by omega), if_pos ⟨columns, rows, wide, high⟩,
          toRemote_eq x remoteW wide (by exact_mod_cast columns),
          toRemote_eq y remoteH high (by exact_mod_cast rows)]
        rfl
      · rw [if_pos (by omega), if_neg shown]
  | key down wp => rfl
  | other => rfl

/-- The geometry of a frame is what the window uses from then on. -/
theorem frameInfo_sizes
    {heap : Nat → Bool}
    {st st' : ViewerState}
    {fi : FrameInfoMsg}
    (begun : st.frameInfo heap fi = .ok st') :
    st'.remoteW = fi.width.toNat ∧ st'.remoteH = fi.height.toNat := by
  simp only [ViewerState.frameInfo] at begun
  cases assigned :
      assignZeros heap
        (sizeT (sizeOfInt (intOfU32 fi.stride) *
          sizeOfInt (fi.height.toNat : Int))) with
  | error exception =>
      rw [assigned] at begun
      cases begun
  | ok pending =>
      rw [assigned] at begun
      cases begun
      exact ⟨rfl, rfl⟩

/-- Only the geometry of a frame changes the sizes that the window uses. -/
theorem readerStep_sizes
    {heap : Nat → Bool}
    {st st' : ViewerState}
    {m : Message}
    {next : Reader}
    (stepped : readerStep heap st m = .ok next)
    (isState : next.state? = some st') :
    (st'.remoteW = st.remoteW ∧ st'.remoteH = st.remoteH) ∨
      ∃ fi,
        m.op = .known .frameInfo ∧
          FrameInfoMsg.decode m.payload = .ok fi ∧
          st'.remoteW = fi.width.toNat ∧
          st'.remoteH = fi.height.toNat := by
  unfold readerStep at stepped
  split at stepped
  · next isInfo =>
      cases decoded : FrameInfoMsg.decode m.payload with
      | error error =>
          rw [decoded] at stepped
          cases stepped
      | ok fi =>
          rw [decoded] at stepped
          cases begun : st.frameInfo heap fi with
          | error exception => simp [throwing, begun, bind, Except.bind] at stepped
          | ok after =>
              have stays : next = .running after := by
                simpa [throwing, begun, bind, Except.bind, pure, Except.pure]
                  using stepped.symm
              subst stays
              cases isState
              exact .inr ⟨fi, isInfo, rfl, frameInfo_sizes begun⟩
  · cases decoded : FrameDataMsg.decode m.payload with
    | error error => simp [decoded, throwing] at stepped
    | ok fd =>
        rw [decoded] at stepped
        cases stepped
        cases isState
        unfold ViewerState.frameData
        split
        · exact .inl ⟨rfl, rfl⟩
        · exact .inl ⟨rfl, rfl⟩
  · cases decoded : FrameRectMsg.decode m.payload with
    | error error => simp [decoded, throwing] at stepped
    | ok fr =>
        rw [decoded] at stepped
        cases stepped
        cases isState
        unfold ViewerState.frameRect
        split
        · exact .inl ⟨rfl, rfl⟩
        · exact .inl ⟨rfl, rfl⟩
  all_goals
    cases stepped
    cases isState
    exact .inl ⟨rfl, rfl⟩

/-- The sizes that a reader has left to the window. -/
def Reader.SizesFrom (trace : List Effect) (reader : Reader) : Prop :=
  ∀ st,
    reader.state? = some st →
      SizeFrom trace FrameInfoMsg.width st.remoteW ∧
        SizeFrom trace FrameInfoMsg.height st.remoteH

/-- The reader takes its sizes from the messages it is sent. -/
theorem Reader.SizesFrom.read
    {heap : Nat → Bool}
    {reader : Reader}
    {m : Message}
    (known : reader.SizesFrom trace)
    (isSent : m ∈ sentMessages trace) :
    (reader.read heap m).SizesFrom trace := by
  cases reader with
  | running st =>
      intro st' isState
      unfold Reader.read at isState
      cases stepped : readerStep heap st m with
      | error exception => simp [stepped, Reader.state?] at isState
      | ok next =>
          simp only [stepped] at isState
          rcases readerStep_sizes stepped isState with
            ⟨width, height⟩ | ⟨fi, isInfo, decoded, width, height⟩
          · rw [width, height]
            exact known st rfl
          · have announced : Announced trace fi := by
              refine ⟨m.payload, ?_, decoded⟩
              rw [← isInfo]
              exact isSent
            exact
              ⟨⟨fi.width, width, .inr ⟨fi, announced, rfl⟩⟩,
                fi.height, height, .inr ⟨fi, announced, rfl⟩⟩
  | stopped st => exact known
  | escaped exception => exact known

end Announcements

/-! ## Every run -/

namespace ControlLink

section Runs

variable {heap : Nat → Bool}
variable {sha256 : Bytes → Hash256}
variable {setup : SessionSetup}
variable {control : Bool}
variable {ctx : SessionContext}

/-- What the user asked for has been injected, is under way or was lost. -/
def Accounted (ctx : SessionContext) (link : ControlLink) : Prop :=
  ∃ done pending lost,
    link.asked = done ++ pending ++ lost ∧
      link.injected = done.flatMap (injectedFor ctx) ∧
      link.toServer = pending.map InputEvent.message ∧
      (link.hungUp = false → lost = [])

/-- What holds between a viewer and its session. -/
structure Faithful
    (control : Bool)
    (ctx : SessionContext)
    (link : ControlLink) : Prop where
  fixed : link.control = control
  decent : link.session.phase.Decent ctx
  noOverflow : link.overflow = false
  silent : control = false → link.asked = []
  isSent : ∀ m ∈ link.toViewer, m ∈ sentMessages link.session.trace
  sizes : link.reader.SizesFrom link.session.trace
  holds :
    ∀ event size,
      link.held = some (event, size) →
        SizeFrom link.session.trace FrameInfoMsg.width size
  inside : ∀ event ∈ link.asked, event.Inside link.session.trace
  accounted : link.Accounted ctx

/-- A session that has just been let in. -/
theorem fresh_faithful
    (control : Bool)
    (ctx : SessionContext)
    (loop : LoopState)
    (trace : List Effect) :
    (fresh control ctx loop trace).Faithful control ctx where
  fixed := rfl
  decent := .inl ⟨loop, rfl⟩
  noOverflow := rfl
  silent := fun _ => rfl
  isSent := by simp [fresh]
  sizes := by
    intro st isState
    cases isState
    exact ⟨⟨0, rfl, .inl rfl⟩, 0, rfl, .inl rfl⟩
  holds := by simp [fresh]
  inside := by simp [fresh]
  accounted := ⟨[], [], [], rfl, rfl, rfl, fun _ => rfl⟩

/-- The reader takes a message that the session sent. -/
theorem Faithful.read
    {link : ControlLink}
    (faithful : link.Faithful control ctx) :
    (link.read heap).Faithful control ctx := by
  unfold ControlLink.read
  split
  · exact faithful
  · next m rest isQueue =>
      have isSent : m ∈ sentMessages link.session.trace := by
        apply faithful.isSent
        rw [isQueue]
        exact List.mem_cons_self
      exact
        { faithful with
          isSent := by
            intro m' member
            apply faithful.isSent
            rw [isQueue]
            exact List.mem_cons_of_mem m member
          sizes := faithful.sizes.read isSent }

/-- The window loads a width that was announced, early or not. -/
theorem Faithful.loadWidth
    {link : ControlLink}
    (faithful : link.Faithful control ctx)
    (event : WindowEvent)
    (early : Bool) :
    (link.loadWidth heap event early).Faithful control ctx := by
  have sizes :
      (if early then (link.read heap).reader else link.reader).SizesFrom
        link.session.trace := by
    split
    · have after : (link.read heap).Faithful control ctx := faithful.read
      have same : (link.read heap).session = link.session := by
        unfold ControlLink.read
        split
        · rfl
        · rfl
      rw [← same]
      exact after.sizes
    · exact faithful.sizes
  unfold ControlLink.loadWidth
  dsimp only
  split
  · next st free isState =>
      exact
        { faithful with
          holds := by
            intro event' size isHeld
            cases isHeld
            exact (sizes st isState).1 }
  · exact faithful

/-- What the window has sent is under way, unless the link is broken. -/
theorem Accounted.ask
    {link : ControlLink}
    (accounted : link.Accounted ctx)
    (event : InputEvent) :
    Accounted ctx
      { link with
        held := none
        asked := link.asked ++ [event]
        toServer :=
          if link.hungUp then
            link.toServer
          else
            link.toServer ++ [event.message] } := by
  obtain ⟨done, pending, lost, asked, injected, queue, keeps⟩ := accounted
  by_cases broken : link.hungUp = true
  · refine ⟨done, pending, lost ++ [event], ?_, injected, ?_, ?_⟩
    · simp [asked]
    · simp [broken, queue]
    · simp [broken]
  · have nothing : lost = [] := keeps (Bool.not_eq_true _ ▸ broken)
    refine ⟨done, pending ++ [event], [], ?_, injected, ?_, fun _ => rfl⟩
    · simp [asked, nothing]
    · simp [broken, queue]

/-- The window sends what the user means. -/
theorem Faithful.loadHeight
    {link : ControlLink}
    (faithful : link.Faithful control ctx) :
    link.loadHeight.Faithful control ctx := by
  unfold ControlLink.loadHeight
  split
  · next event remoteW st isHeld isState =>
      dsimp only
      have width := faithful.holds event remoteW isHeld
      have height := (faithful.sizes st isState).2
      generalize isSeen : { st with remoteW } = seen
      replace width :
          SizeFrom link.session.trace FrameInfoMsg.width seen.remoteW := by
        rw [← isSeen]
        exact width
      replace height :
          SizeFrom link.session.trace FrameInfoMsg.height seen.remoteH := by
        rw [← isSeen]
        exact height
      rw [faithful.fixed]
      cases control with
      | false =>
          have nothing : viewerProc false seen event = .nothing := by
            cases event with
            | mouse => rfl
            | key => rfl
            | other => rfl
          simp only [nothing, Bool.false_eq_true, if_false]
          exact
            { faithful with
              fixed := rfl
              holds := by simp }
      | true =>
          simp only [if_true]
          rw [viewerProc_meant width height]
          cases isMeant : meant seen event with
          | none =>
              simp only [Option.toList_none, List.append_nil]
              exact
                { faithful with
                  fixed := rfl
                  holds := by simp }
          | some input =>
              have pointed : input.Inside link.session.trace :=
                meant_inside width height event input isMeant
              have accounted := faithful.accounted.ask input
              have inside :
                  ∀ event ∈ link.asked ++ [input],
                    event.Inside link.session.trace := by
                intro event member
                rcases List.mem_append.mp member with before | last
                · exact faithful.inside event before
                · rw [List.mem_singleton.mp last]
                  exact pointed
              simp only [Option.toList_some]
              split
              · next broken =>
                  exact
                    { faithful with
                      fixed := rfl
                      holds := by simp
                      silent := Bool.noConfusion
                      inside
                      accounted := by
                        simpa only [Accounted, broken, if_true] using accounted }
              · next whole =>
                  exact
                    { faithful with
                      fixed := rfl
                      holds := by simp
                      silent := Bool.noConfusion
                      inside
                      accounted := by
                        simpa only [Accounted, whole, Bool.false_eq_true,
                          if_false] using accounted }
  · exact faithful

/-- A turn of the session keeps what is known and announces more. -/
theorem Faithful.turned
    {link : ControlLink}
    (faithful : link.Faithful control ctx)
    (queue : List Message)
    {turn : Turn}
    (decent : (link.session.phase.turn sha256 setup turn).1.Decent ctx)
    (accounted :
      (ControlLink.turned sha256 setup { link with toServer := queue }
          turn).Accounted ctx) :
    (ControlLink.turned sha256 setup { link with toServer := queue }
      turn).Faithful control ctx where
  fixed := faithful.fixed
  decent := decent
  noOverflow := faithful.noOverflow
  silent := faithful.silent
  isSent := by
    intro m member
    have both :
        m ∈ sentMessages link.session.trace ∨
          m ∈ sentMessages (turnEffects sha256 setup link.session turn) :=
      (List.mem_append.mp member).imp_left (faithful.isSent m)
    change m ∈
      sentMessages
        (link.session.trace ++ turnEffects sha256 setup link.session turn)
    simpa [sentMessages] using both
  sizes := fun st isState =>
    ⟨(faithful.sizes st isState).1.mono, (faithful.sizes st isState).2.mono⟩
  holds := fun event size isHeld => (faithful.holds event size isHeld).mono
  inside := fun event member => (faithful.inside event member).mono
  accounted := accounted

/-- A turn without a message leaves the account as it is. -/
theorem Faithful.waits
    {link : ControlLink}
    {loop : LoopState}
    {turn : Turn}
    (faithful : link.Faithful control ctx)
    (isPhase : link.session.phase = .live ctx loop)
    (quiet : turn.running = false ∨ ∀ m, turn.read ≠ .ok m) :
    (link.turned sha256 setup turn).Faithful control ctx := by
  obtain ⟨nothing, decent⟩ :
      (liveTurn sha256 setup ctx loop turn).2.filter Effect.injects = [] ∧
        (liveTurn sha256 setup ctx loop turn).1.Decent ctx :=
    liveTurn_quiet quiet
  apply faithful.turned link.toServer
  · rw [isPhase]
    exact decent
  · obtain ⟨done, pending, lost, asked, injected, queue, keeps⟩ :=
      faithful.accounted
    refine ⟨done, pending, lost, asked, ?_, queue, keeps⟩
    simp [ControlLink.turned, turnEffects, isPhase, SessionPhase.turn, nothing,
      injected]

/-- A turn with a message injects what the user asked for next. -/
theorem Faithful.takes
    {link : ControlLink}
    {loop : LoopState}
    {turn : Turn}
    {m : Message}
    {rest : List Message}
    (faithful : link.Faithful control ctx)
    (isPhase : link.session.phase = .live ctx loop)
    (isQueue : link.toServer = m :: rest)
    (running : turn.running = true)
    (isRead : turn.read = .ok m) :
    (ControlLink.turned sha256 setup { link with toServer := rest }
      turn).Faithful control ctx := by
  obtain ⟨done, pending, lost, asked, injected, queue, keeps⟩ :=
    faithful.accounted
  rw [isQueue] at queue
  obtain ⟨event, later, rfl, rfl, isRest⟩ := List.map_eq_cons_iff.mp queue.symm
  obtain ⟨meantOnly, decent⟩ :
      (liveTurn sha256 setup ctx loop turn).2.filter Effect.injects =
          injectedFor ctx event ∧
        (liveTurn sha256 setup ctx loop turn).1.Decent ctx :=
    liveTurn_message running isRead
  apply faithful.turned rest
  · rw [isPhase]
    exact decent
  · refine ⟨done ++ [event], later, lost, ?_, ?_, isRest.symm, keeps⟩
    · simp [ControlLink.turned, asked]
    · simp [ControlLink.turned, turnEffects, isPhase, SessionPhase.turn,
        meantOnly, injected]

/-- A session passes its event loop. -/
theorem Faithful.serve
    {link : ControlLink}
    (faithful : link.Faithful control ctx)
    (running arrived : Bool)
    (outside : Outside) :
    (link.serve sha256 setup running arrived outside).Faithful control ctx := by
  unfold ControlLink.serve
  split
  · next ctx' loop isPhase =>
      have same : ctx' = ctx := by
        rcases faithful.decent with ⟨_, isLive⟩ | ⟨_, isClosed⟩
        · rw [isPhase] at isLive
          cases isLive
          rfl
        · rw [isPhase] at isClosed
          cases isClosed
      subst same
      split
      · next m rest isReady isQueue =>
          have runs : running = true := by
            simp only [Bool.and_eq_true] at isReady
            exact isReady.1
          exact faithful.takes isPhase isQueue runs rfl
      · next isReady isQueue =>
          apply faithful.waits isPhase
          right
          intro m
          dsimp only
          split
          · exact ReadResult.noConfusion
          · exact ReadResult.noConfusion
      · exact faithful.waits isPhase (.inr fun m => ReadResult.noConfusion)
  · exact faithful

/-- The link breaks; what does not arrive is lost. -/
theorem Faithful.hangUp
    {link : ControlLink}
    (faithful : link.Faithful control ctx)
    (delivered : Nat) :
    Faithful control ctx
      { link with
        hungUp := true
        toServer := link.toServer.take delivered } := by
  obtain ⟨done, pending, lost, asked, injected, queue, -⟩ :=
    faithful.accounted
  refine
    { faithful with
      accounted :=
        ⟨done, pending.take delivered, pending.drop delivered ++ lost, ?_,
          injected, ?_, fun whole => absurd whole (by simp)⟩ }
  · calc
      link.asked = done ++ pending ++ lost := asked
      _ = done ++ (pending.take delivered ++ pending.drop delivered) ++ lost := by
        rw [List.take_append_drop]
      _ = done ++ pending.take delivered ++ (pending.drop delivered ++ lost) := by
        simp only [List.append_assoc]
  · rw [queue, List.map_take]

/-- Whatever happens next. -/
theorem Faithful.step
    {link : ControlLink}
    (faithful : link.Faithful control ctx)
    (move : ControlMove) :
    (link.step heap sha256 setup move).Faithful control ctx := by
  cases move with
  | loadWidth event early => exact faithful.loadWidth event early
  | loadHeight => exact faithful.loadHeight
  | read => exact faithful.read
  | serve running arrived outside =>
      exact faithful.serve running arrived outside
  | hangUp delivered => exact faithful.hangUp delivered

/-- What has been injected is the beginning of what was asked for. -/
theorem Accounted.injected_isPrefix
    {link : ControlLink}
    (accounted : link.Accounted ctx) :
    link.injected <+: link.asked.flatMap (injectedFor ctx) := by
  obtain ⟨done, pending, lost, asked, injected, -, -⟩ := accounted
  rw [asked, injected, List.append_assoc, List.flatMap_append]
  exact List.prefix_append _ _

/-- It is all of it once nothing is under way, unless the link is broken. -/
theorem Accounted.injected_eq
    {link : ControlLink}
    (accounted : link.Accounted ctx)
    (whole : link.hungUp = false)
    (idle : link.toServer = []) :
    link.injected = link.asked.flatMap (injectedFor ctx) := by
  obtain ⟨done, pending, lost, asked, injected, queue, keeps⟩ := accounted
  have none : pending = [] := by
    rw [idle] at queue
    exact List.map_eq_nil_iff.mp queue.symm
  rw [asked, injected, none, keeps whole, List.append_nil, List.append_nil]

/--
However the user's actions, the threads of the viewer and the session take
turns, and whatever is lost when the link breaks: the scaling never overflows,
no input breaks the session, every pixel asked for lies inside frames that were
announced, and what is injected is, in order and without repetition, what was
asked for up to some point.  On a whole link that is everything that has
arrived, and without control it is nothing.
-/
theorem remote_control_exact
    (control : Bool)
    (ctx : SessionContext)
    (loop : LoopState)
    (trace : List Effect)
    (moves : List ControlMove) :
    let link :=
      (fresh control ctx loop trace).run heap sha256 setup moves
    link.overflow = false ∧
      link.session.phase.Decent ctx ∧
      (∀ event ∈ link.asked, event.Inside link.session.trace) ∧
      link.injected <+: link.asked.flatMap (injectedFor ctx) ∧
      (link.hungUp = false →
        link.toServer = [] →
        link.injected = link.asked.flatMap (injectedFor ctx)) ∧
      ((control && ctx.canControl) = false → link.injected = []) := by
  intro link
  have faithful : link.Faithful control ctx :=
    StepRuns.run_invariant (ControlLink.Faithful control ctx)
      (fun _ move before => before.step move)
      (fresh_faithful control ctx loop trace) moves
  refine
    ⟨faithful.noOverflow, faithful.decent, faithful.inside,
      faithful.accounted.injected_isPrefix, faithful.accounted.injected_eq, ?_⟩
  intro uncontrolled
  have nothing : link.asked.flatMap (injectedFor ctx) = [] := by
    rcases Bool.and_eq_false_iff.mp uncontrolled with noViewer | noSession
    · simp [faithful.silent noViewer]
    · simp [injectedFor, noSession]
  apply List.prefix_nil.mp
  rw [← nothing]
  exact faithful.accounted.injected_isPrefix

end Runs

end ControlLink

end RadminPro
