import RadminPro.AcceptLoop

namespace RadminPro

/-!
# The session and its on-screen indicator

`SessionOverlay::show` starts a thread that creates the banner and runs its
message loop, and waits a while for that thread to set `running_`; `hide` posts
a close and joins.  The session thread and the overlay thread interleave as they
like.  Each effect of the session is logged with the state of the banner.
-/

/-- Where the thread of the banner stands. -/
inductive OverlayPoint where
  | unstarted
  | creating
  | publishing
  | marking
  | looping
  | quitting
  | leaving
  | unmarking
  | ended
  deriving DecidableEq

/-- What `GetMessageW` hands over; a close destroys the window. -/
inductive OverlayMessage where
  | other
  | close
  | failed
  deriving DecidableEq

/-- What the window system answers to one action of `threadMain`. -/
structure OverlayAnswer where
  created : Bool := true
  message : OverlayMessage := .other

/-- The banner, what its members say and where its thread stands. -/
structure SessionOverlay where
  caption : Bytes := []
  running : Bool := false
  hwnd : Bool := false
  window : Bool := false
  closePosted : Bool := false
  point : OverlayPoint := .unstarted

namespace SessionOverlay

/-- The window exists and its thread has not left the message loop. -/
def indicating (overlay : SessionOverlay) : Bool :=
  overlay.window &&
    (overlay.point = .publishing || overlay.point = .marking ||
      overlay.point = .looping)

/-- One action of `threadMain`. -/
def threadMain (overlay : SessionOverlay) (answer : OverlayAnswer) :
    SessionOverlay :=
  match overlay.point with
  | .unstarted => overlay
  | .creating =>
      if answer.created then
        { overlay with window := true, point := .publishing }
      else
        { overlay with running := false, point := .ended }
  | .publishing => { overlay with hwnd := true, point := .marking }
  | .marking => { overlay with running := true, point := .looping }
  | .looping =>
      match answer.message with
      | .other => overlay
      | .close => { overlay with window := false, point := .quitting }
      | .failed => { overlay with point := .leaving }
  | .quitting => { overlay with point := .leaving }
  | .leaving => { overlay with hwnd := false, point := .unmarking }
  | .unmarking =>
      { overlay with running := false, window := false, point := .ended }
  | .ended => overlay

/-- The thread was started and has not ended. -/
def joins (overlay : SessionOverlay) : Bool :=
  overlay.point != .unstarted && overlay.point != .ended

/-- `hide`, up to the join. -/
def postClose (overlay : SessionOverlay) : SessionOverlay :=
  { overlay with closePosted := overlay.closePosted || overlay.hwnd }

end SessionOverlay

/-- How often `show` looks at `running_`. -/
def kShowPolls : Nat := 200

/-- The call of the overlay that the session thread is in. -/
inductive OverlayCall where
  | none
  | showing (polls : Nat)
  | joining
  deriving DecidableEq

/-- A session with its banner, and what it did beside which banner. -/
structure IndicatedSession where
  thread : SessionThread
  overlay : SessionOverlay := {}
  call : OverlayCall := .none
  log : List (Effect × Bool) := []

/-- One more action of either thread. -/
inductive IndicatedEvent where
  | session (turn : Turn)
  | overlay (answer : OverlayAnswer)

namespace IndicatedSession

/-- The effect at hand has happened. -/
def perform (world : IndicatedSession) (effect : Effect) : IndicatedSession :=
  { world with
    thread := { world.thread with performed := world.thread.performed + 1 }
    call := .none
    log := world.log ++ [(effect, world.overlay.indicating)] }

/-- `show` up to its wait. -/
def startShow (world : IndicatedSession) (caption : Bytes) : IndicatedSession :=
  let overlay := { world.overlay with caption }
  if overlay.running then
    perform { world with overlay } (.overlayShow caption)
  else if overlay.joins then
    { world with overlay }
  else
    { world with
      overlay := { overlay with point := .creating }
      call := .showing 0 }

/-- The wait of `show` is over. -/
def showEnds (world : IndicatedSession) (polls : Nat) : Bool :=
  kShowPolls ≤ polls || world.overlay.running

/-- One action of the session thread. -/
def sessionStep
    (sha256 : Bytes → Hash256)
    (world : IndicatedSession)
    (turn : Turn) : IndicatedSession :=
  match world.thread.next? with
  | none =>
      { world with
        thread :=
          { world.thread with
            session :=
              world.thread.session.step sha256 world.thread.setup turn } }
  | some effect =>
      match effect, world.call with
      | .overlayShow caption, .none => world.startShow caption
      | .overlayShow _, .showing polls =>
          if world.showEnds polls then
            world.perform effect
          else
            { world with call := .showing (polls + 1) }
      | .overlayHide, .none =>
          { world with overlay := world.overlay.postClose, call := .joining }
      | .overlayHide, .joining =>
          if world.overlay.joins then world else world.perform effect
      | _, _ => world.perform effect

/-- One action of either thread. -/
def step
    (sha256 : Bytes → Hash256)
    (world : IndicatedSession)
    (event : IndicatedEvent) : IndicatedSession :=
  match event with
  | .session turn => world.sessionStep sha256 turn
  | .overlay answer =>
      { world with overlay := world.overlay.threadMain answer }

end IndicatedSession

end RadminPro
