import RadminPro.SessionOverlay
import RadminPro.StepRuns

namespace RadminPro

open ByteCodec

/-!
# Tearing the indicator down

The session thread calls `show`, `updateText` and `hide` in any order while
`threadMain` runs on a thread of its own.  `hide` posts a close to the handle it
finds and joins.  The join can end when the message loop is over or will never
run, or when the close is on its way to it.
-/

namespace OverlayPoint

/-- `threadMain` is not in its message loop and can no longer enter it. -/
def pastLoop : OverlayPoint → Bool
  | .unstarted | .leaving | .unmarking | .ended => true
  | .creating | .publishing | .marking | .looping | .quitting => false

/-- `hwnd_` holds the handle of the window. -/
def published : OverlayPoint → Bool
  | .marking | .looping | .quitting | .leaving => true
  | .unstarted | .creating | .publishing | .unmarking | .ended => false

/-- The window is created and has not been destroyed. -/
def attended : OverlayPoint → Bool
  | .publishing | .marking | .looping => true
  | .unstarted | .creating | .quitting | .leaving | .unmarking | .ended => false

end OverlayPoint

/-- Where the session thread stands in a call of the overlay. -/
inductive CallerPlace where
  | idle
  | reaping
  | polling (polls : Nat)
  | closing
  | joining
  deriving DecidableEq

/-- The banner and the thread that shows and hides it. -/
structure OverlayUse where
  overlay : SessionOverlay := {}
  place : CallerPlace := .idle

/-- One more action of either thread; a call starts when none is under way. -/
inductive OverlayEvent where
  | show (caption : Bytes)
  | updateText (caption : Bytes)
  | hide
  | session (posted : Bool)
  | window (answer : OverlayAnswer)

namespace OverlayUse

/-- `show`, up to the join of an earlier thread. -/
def beginShow (use : OverlayUse) (caption : Bytes) : OverlayUse :=
  if use.overlay.running then
    { use with overlay := { use.overlay with caption } }
  else
    { overlay := { use.overlay with caption }, place := .reaping }

/-- `hide`, up to the close it posts or the join. -/
def beginHide (use : OverlayUse) : OverlayUse :=
  { use with place := if use.overlay.hwnd then .closing else .joining }

/-- `thread_` is started. -/
def startThread (use : OverlayUse) : OverlayUse :=
  { overlay := { use.overlay with point := .creating, closePosted := false }
    place := .polling 0 }

/-- `PostMessageW` of the close; it fails when the window is gone. -/
def post (use : OverlayUse) (posted : Bool) : OverlayUse :=
  { overlay :=
      { use.overlay with
        closePosted :=
          use.overlay.closePosted || (use.overlay.window && posted) }
    place := .joining }

/-- The next action of the call at hand. -/
def sessionStep (use : OverlayUse) (posted : Bool) : OverlayUse :=
  match use.place with
  | .idle => use
  | .reaping => if use.overlay.joins then use else use.startThread
  | .polling polls =>
      if kShowPolls ≤ polls || use.overlay.running then
        { use with place := .idle }
      else
        { use with place := .polling (polls + 1) }
  | .closing => use.post posted
  | .joining => if use.overlay.joins then use else { use with place := .idle }

/-- One action of either thread. -/
def step (use : OverlayUse) : OverlayEvent → OverlayUse
  | .show caption => if use.place = .idle then use.beginShow caption else use
  | .updateText caption =>
      if use.place = .idle then
        { use with overlay := { use.overlay with caption } }
      else
        use
  | .hide => if use.place = .idle then use.beginHide else use
  | .session posted => use.sessionStep posted
  | .window answer => { use with overlay := use.overlay.threadMain answer }

/--
Where `hide` is at its join, the message loop is over or will never run, or a
close has been posted to its window.
-/
def TearsDown (use : OverlayUse) : Prop :=
  use.place = .joining →
    use.overlay.point.pastLoop = true ∨ use.overlay.closePosted = true

/--
`hide` does not find a null handle while `threadMain` still creates or is about
to publish its window, and what it posts reaches a window that is still there
unless the loop is already over.
-/
def Closes (use : OverlayUse) : OverlayEvent → Prop
  | .hide =>
      use.place = .idle →
        use.overlay.point ≠ .creating ∧ use.overlay.point ≠ .publishing
  | .session posted =>
      use.place = .closing →
        use.overlay.point.pastLoop = true ∨
          (use.overlay.point ≠ .quitting ∧ posted = true)
  | _ => True

/-- What the members of the overlay say wherever its thread stands. -/
structure Consistent (use : OverlayUse) : Prop where
  handle : use.overlay.hwnd = use.overlay.point.published
  window : use.overlay.point.attended = true → use.overlay.window = true
  destroyed : use.overlay.point = .quitting → use.overlay.window = false
  found :
    use.place = .closing →
      use.overlay.point ≠ .creating ∧ use.overlay.point ≠ .publishing
  posted :
    use.overlay.closePosted = true →
      use.place = .joining ∨ use.overlay.joins = false

/-! ## One action of the window thread -/

/-- What one action of `threadMain` can do. -/
inductive WindowMoves (overlay : SessionOverlay) : SessionOverlay → Prop
  | stays : WindowMoves overlay overlay
  | creates (here : overlay.point = .creating) :
      WindowMoves overlay { overlay with window := true, point := .publishing }
  | fails (here : overlay.point = .creating) :
      WindowMoves overlay { overlay with running := false, point := .ended }
  | publishes (here : overlay.point = .publishing) :
      WindowMoves overlay { overlay with hwnd := true, point := .marking }
  | marks (here : overlay.point = .marking) :
      WindowMoves overlay { overlay with running := true, point := .looping }
  | destroys (here : overlay.point = .looping) :
      WindowMoves overlay { overlay with window := false, point := .quitting }
  | leaves (here : overlay.point = .looping ∨ overlay.point = .quitting) :
      WindowMoves overlay { overlay with point := .leaving }
  | withdraws (here : overlay.point = .leaving) :
      WindowMoves overlay { overlay with hwnd := false, point := .unmarking }
  | ends (here : overlay.point = .unmarking) :
      WindowMoves overlay
        { overlay with running := false, window := false, point := .ended }

section Window

variable {overlay later : SessionOverlay}

theorem threadMain_moves
    (overlay : SessionOverlay)
    (answer : OverlayAnswer) :
    WindowMoves overlay (overlay.threadMain answer) := by
  unfold SessionOverlay.threadMain
  cases here : overlay.point with
  | unstarted | ended =>
      exact .stays
  | creating =>
      dsimp only
      split
      · exact .creates here
      · exact .fails here
  | publishing =>
      exact .publishes here
  | marking =>
      exact .marks here
  | looping =>
      cases answer.message with
      | other =>
          exact .stays
      | close =>
          exact .destroys here
      | failed =>
          exact .leaves (.inl here)
  | quitting =>
      exact .leaves (.inr here)
  | leaving =>
      exact .withdraws here
  | unmarking =>
      exact .ends here

theorem WindowMoves.closePosted
    (moves : WindowMoves overlay later) :
    later.closePosted = overlay.closePosted := by
  cases moves <;> rfl

/-- `threadMain` does not come back to its message loop. -/
theorem WindowMoves.pastLoop
    (moves : WindowMoves overlay later)
    (past : overlay.point.pastLoop = true) :
    later.point.pastLoop = true := by
  cases moves with
  | stays =>
      exact past
  | creates here | publishes here | marks here | destroys here =>
      rw [here] at past
      cases past
  | fails | leaves | withdraws | ends =>
      rfl

/-- A thread that has ended or was not started stays so. -/
theorem WindowMoves.joins
    (moves : WindowMoves overlay later)
    (idle : overlay.joins = false) :
    later.joins = false := by
  cases moves with
  | stays =>
      exact idle
  | fails | ends =>
      rfl
  | creates here | publishes here | marks here | destroys here
  | withdraws here =>
      simp [SessionOverlay.joins, here] at idle
  | leaves here =>
      rcases here with here | here
      · simp [SessionOverlay.joins, here] at idle
      · simp [SessionOverlay.joins, here] at idle

/-- A thread that `join` does not wait for is not in its loop. -/
theorem pastLoop_of_joins
    (idle : overlay.joins = false) :
    overlay.point.pastLoop = true := by
  cases here : overlay.point with
  | unstarted | ended | leaving | unmarking =>
      rfl
  | creating | publishing | marking | looping | quitting =>
      simp [SessionOverlay.joins, here] at idle

/-- What the members say is still so after an action of `threadMain`. -/
theorem Consistent.moves
    {place : CallerPlace}
    (consistent : Consistent ⟨overlay, place⟩)
    (moves : WindowMoves overlay later) :
    Consistent ⟨later, place⟩ where
  handle := by
    have handle : overlay.hwnd = overlay.point.published :=
      consistent.handle
    cases moves with
    | stays =>
        exact handle
    | creates here | fails here | destroys here | marks here =>
        rw [here] at handle
        exact handle
    | leaves here =>
        rcases here with here | here
        · rw [here] at handle
          exact handle
        · rw [here] at handle
          exact handle
    | publishes | withdraws =>
        rfl
    | ends here =>
        rw [here] at handle
        exact handle
  window := by
    have window : overlay.point.attended = true → overlay.window = true :=
      consistent.window
    cases moves with
    | stays =>
        exact window
    | marks here =>
        rw [here] at window
        exact window
    | publishes here =>
        rw [here] at window
        exact window
    | creates =>
        exact fun _ => rfl
    | fails | destroys | leaves | withdraws | ends =>
        intro attended
        cases attended
  destroyed := by
    have destroyed : overlay.point = .quitting → overlay.window = false :=
      consistent.destroyed
    cases moves with
    | stays =>
        exact destroyed
    | destroys =>
        exact fun _ => rfl
    | creates | fails | publishes | marks | leaves | withdraws | ends =>
        intro quitting
        cases quitting
  found := by
    intro closing
    have found := consistent.found closing
    cases moves with
    | stays =>
        exact found
    | creates here =>
        exact absurd here found.1
    | fails | publishes | marks | destroys | leaves | withdraws | ends =>
        exact ⟨by simp, by simp⟩
  posted := by
    intro isPosted
    rw [moves.closePosted] at isPosted
    exact (consistent.posted isPosted).imp id moves.joins

end Window

/-! ## One action of the session thread -/

section Calls

variable {use : OverlayUse}

/-- A call that goes on elsewhere than at `hide`'s close leaves the members. -/
theorem Consistent.moved
    {place : CallerPlace}
    (consistent : use.Consistent)
    (elsewhere : place ≠ .closing)
    (posted :
      use.overlay.closePosted = true →
        place = .joining ∨ use.overlay.joins = false) :
    Consistent ⟨use.overlay, place⟩ where
  handle := consistent.handle
  window := consistent.window
  destroyed := consistent.destroyed
  found := fun closing => absurd closing elsewhere
  posted := posted

/-- A close is posted by the `hide` at its join only. -/
theorem Consistent.notJoining
    (consistent : use.Consistent)
    (elsewhere : use.place ≠ .joining)
    (isPosted : use.overlay.closePosted = true) :
    use.overlay.joins = false :=
  (consistent.posted isPosted).resolve_left elsewhere

/-- The caption is of no account. -/
theorem Consistent.caption
    (consistent : use.Consistent)
    (caption : Bytes) :
    Consistent { use with overlay := { use.overlay with caption } } where
  handle := consistent.handle
  window := consistent.window
  destroyed := consistent.destroyed
  found := consistent.found
  posted := consistent.posted

theorem Consistent.beginShow
    (consistent : use.Consistent)
    (idle : use.place = .idle)
    (caption : Bytes) :
    (use.beginShow caption).Consistent := by
  unfold OverlayUse.beginShow
  split
  · exact consistent.caption caption
  · refine (consistent.caption caption).moved (by simp) ?_
    intro isPosted
    exact .inr (consistent.notJoining (by simp [idle]) isPosted)

theorem Consistent.beginHide
    (consistent : use.Consistent)
    (idle : use.place = .idle) :
    use.beginHide.Consistent := by
  have posted := consistent.notJoining (by simp [idle])
  unfold OverlayUse.beginHide
  cases found : use.overlay.hwnd with
  | false =>
      exact consistent.moved (by simp) fun isPosted => .inr (posted isPosted)
  | true =>
      have published : use.overlay.point.published = true :=
        consistent.handle.symm.trans found
      refine ⟨consistent.handle, consistent.window, consistent.destroyed, ?_,
        fun isPosted => .inr (posted isPosted)⟩
      intro _
      constructor
      · intro here
        rw [here] at published
        cases published
      · intro here
        rw [here] at published
        cases published

theorem consistent_startThread
    (consistent : use.Consistent)
    (reaped : use.overlay.joins = false) :
    use.startThread.Consistent where
  handle := by
    have handle := consistent.handle
    cases here : use.overlay.point with
    | unstarted | ended =>
        rw [here] at handle
        exact handle
    | creating | publishing | marking | looping | quitting | leaving
    | unmarking =>
        simp [SessionOverlay.joins, here] at reaped
  window := by
    intro attended
    cases attended
  destroyed := by
    intro quitting
    cases quitting
  found := by
    intro closing
    cases closing
  posted := by
    intro isPosted
    cases isPosted

theorem Consistent.sessionStep
    (consistent : use.Consistent)
    (posted : Bool) :
    (use.sessionStep posted).Consistent := by
  unfold OverlayUse.sessionStep
  cases here : use.place with
  | idle =>
      exact consistent
  | reaping =>
      dsimp only
      cases reaped : use.overlay.joins with
      | true =>
          exact consistent
      | false =>
          exact consistent_startThread consistent reaped
  | polling polls =>
      have notJoining := consistent.notJoining (by simp [here])
      dsimp only
      split
      · exact consistent.moved (by simp) fun isPosted => .inr (notJoining isPosted)
      · exact consistent.moved (by simp) fun isPosted => .inr (notJoining isPosted)
  | closing =>
      exact ⟨consistent.handle, consistent.window, consistent.destroyed,
        by simp [post], fun _ => .inl rfl⟩
  | joining =>
      dsimp only
      cases joined : use.overlay.joins with
      | true =>
          exact consistent
      | false =>
          exact consistent.moved (by simp) fun _ => .inr joined

/-- Whatever either thread does, the members say where the thread stands. -/
theorem Consistent.step
    (consistent : use.Consistent)
    (event : OverlayEvent) :
    (use.step event).Consistent := by
  cases event with
  | «show» caption =>
      unfold OverlayUse.step
      dsimp only
      split
      · exact consistent.beginShow ‹_› caption
      · exact consistent
  | updateText caption =>
      unfold OverlayUse.step
      dsimp only
      split
      · exact consistent.caption caption
      · exact consistent
  | hide =>
      unfold OverlayUse.step
      dsimp only
      split
      · exact consistent.beginHide ‹_›
      · exact consistent
  | session posted =>
      exact consistent.sessionStep posted
  | window answer =>
      exact consistent.moves (threadMain_moves use.overlay answer)

end Calls

/-! ## Where the close is lost -/

section Teardown

variable {use : OverlayUse}

/-- Where `hide` is not at its join there is nothing to ask for. -/
theorem tearsDown_of_ne
    (elsewhere : use.place ≠ .joining) :
    use.TearsDown :=
  fun joining => absurd joining elsewhere

/-- `hide` may skip the close when the loop is over or never runs. -/
theorem Consistent.tearsDown_beginHide
    (consistent : use.Consistent)
    (idle : use.place = .idle) :
    use.beginHide.TearsDown ↔
      use.overlay.point ≠ .creating ∧ use.overlay.point ≠ .publishing := by
  have handle := consistent.handle
  have lost :
      use.overlay.closePosted = true → use.overlay.point.pastLoop = true :=
    fun isPosted =>
      pastLoop_of_joins (consistent.notJoining (by simp [idle]) isPosted)
  unfold OverlayUse.beginHide
  cases here : use.overlay.point with
  | creating | publishing =>
      rw [here] at handle lost
      have unposted : ¬use.overlay.closePosted = true := by
        intro isPosted
        cases lost isPosted
      have notFound : use.overlay.hwnd = false := handle
      simp [TearsDown, notFound, here, OverlayPoint.pastLoop, unposted]
  | marking | looping | quitting | leaving =>
      rw [here] at handle
      have found : use.overlay.hwnd = true := handle
      simp [TearsDown, found]
  | unstarted | unmarking | ended =>
      simp [TearsDown, here, OverlayPoint.pastLoop]

/-- The close is posted when the window is there and the system takes it. -/
theorem Consistent.tearsDown_post
    (consistent : use.Consistent)
    (closing : use.place = .closing)
    (posted : Bool) :
    (use.post posted).TearsDown ↔
      use.overlay.point.pastLoop = true ∨
        (use.overlay.point ≠ .quitting ∧ posted = true) := by
  have found := consistent.found closing
  have window := consistent.window
  have lost :
      use.overlay.closePosted = true → use.overlay.point.pastLoop = true :=
    fun isPosted =>
      pastLoop_of_joins (consistent.notJoining (by simp [closing]) isPosted)
  cases here : use.overlay.point with
  | creating | publishing =>
      simp [here] at found
  | marking | looping =>
      rw [here] at lost window
      have unposted : ¬use.overlay.closePosted = true := by
        intro isPosted
        cases lost isPosted
      have attended : use.overlay.window = true := window rfl
      simp [TearsDown, post, here, OverlayPoint.pastLoop, unposted, attended]
  | quitting =>
      rw [here] at lost
      have unposted : ¬use.overlay.closePosted = true := by
        intro isPosted
        cases lost isPosted
      have destroyed : use.overlay.window = false := consistent.destroyed here
      simp [TearsDown, post, here, OverlayPoint.pastLoop, unposted, destroyed]
  | unstarted | leaving | unmarking | ended =>
      simp [TearsDown, post, here, OverlayPoint.pastLoop]

/-- A join that can end can still end after an action of `threadMain`. -/
theorem TearsDown.moves
    {later : SessionOverlay}
    (tearsDown : use.TearsDown)
    (moves : WindowMoves use.overlay later) :
    TearsDown { use with overlay := later } := by
  intro joining
  rcases tearsDown joining with past | isPosted
  · exact .inl (moves.pastLoop past)
  · exact .inr (moves.closePosted.trans isPosted)

/-- An action keeps a join that can end so exactly when it closes the banner. -/
theorem Consistent.tearsDown_step
    (consistent : use.Consistent)
    (tearsDown : use.TearsDown)
    (event : OverlayEvent) :
    (use.step event).TearsDown ↔ use.Closes event := by
  cases event with
  | «show» caption =>
      refine iff_of_true ?_ trivial
      unfold OverlayUse.step OverlayUse.beginShow
      dsimp only
      split
      · split
        · exact tearsDown
        · exact tearsDown_of_ne (by simp)
      · exact tearsDown
  | updateText caption =>
      refine iff_of_true ?_ trivial
      unfold OverlayUse.step
      dsimp only
      split
      · exact tearsDown
      · exact tearsDown
  | hide =>
      unfold OverlayUse.step Closes
      dsimp only
      split
      case isTrue idle =>
          rw [consistent.tearsDown_beginHide idle]
          exact (imp_iff_right idle).symm
      case isFalse busy =>
          exact iff_of_true tearsDown fun idle => absurd idle busy
  | window answer =>
      exact iff_of_true
        (tearsDown.moves (threadMain_moves use.overlay answer)) trivial
  | session posted =>
      unfold OverlayUse.step OverlayUse.sessionStep Closes
      cases here : use.place with
      | closing =>
          dsimp only
          rw [consistent.tearsDown_post here]
          exact (imp_iff_right rfl).symm
      | idle =>
          refine iff_of_true tearsDown ?_
          intro closing
          cases closing
      | reaping =>
          refine iff_of_true ?_ (by intro closing; cases closing)
          dsimp only
          split
          · exact tearsDown
          · exact tearsDown_of_ne (by simp [startThread])
      | polling polls =>
          refine iff_of_true ?_ (by intro closing; cases closing)
          dsimp only
          split
          · exact tearsDown_of_ne (by simp)
          · exact tearsDown_of_ne (by simp)
      | joining =>
          refine iff_of_true ?_ (by intro closing; cases closing)
          dsimp only
          split
          · exact tearsDown
          · exact tearsDown_of_ne (by simp)

/-- A banner that was never shown. -/
theorem consistent_start : Consistent {} where
  handle := rfl
  window := by
    intro attended
    cases attended
  destroyed := by
    intro quitting
    cases quitting
  found := by
    intro closing
    cases closing
  posted := by
    intro isPosted
    cases isPosted

/--
In every state of a run of the two threads a join of `hide` can end, exactly
when in none of its actions `hide` misses the window of a thread that is not
past its message loop.
-/
theorem teardown_ends_iff (events : List OverlayEvent) :
    (∀ earlier later,
        events = earlier ++ later →
        (StepRuns.run step {} earlier).TearsDown) ↔
      StepRuns.Allowed step Closes {} events := by
  have preserved :
      ∀ use event, Consistent use → Consistent (use.step event) :=
    fun _ event consistent => consistent.step event
  have kept :
      ∀ use event,
        Consistent use →
        use.TearsDown →
        ((use.step event).TearsDown ↔ use.Closes event) :=
    fun _ event consistent tearsDown =>
      consistent.tearsDown_step tearsDown event
  have starts : TearsDown {} :=
    tearsDown_of_ne (by simp)
  exact
    StepRuns.always_iff_allowed preserved kept consistent_start starts events

/-! ## What the join waits for -/

/-- How many more actions `threadMain` takes once it is handed the close. -/
def remaining : OverlayPoint → Nat
  | .unstarted | .ended => 0
  | .unmarking => 1
  | .leaving => 2
  | .quitting => 3
  | .looping => 4
  | .marking => 5
  | .publishing => 6
  | .creating => 7

theorem joins_of_remaining
    {overlay : SessionOverlay}
    (none : remaining overlay.point = 0) :
    overlay.joins = false := by
  cases here : overlay.point with
  | unstarted | ended =>
      simp [SessionOverlay.joins, here]
  | creating | publishing | marking | looping | quitting | leaving
  | unmarking =>
      simp [remaining, here] at none

/-- An action of `threadMain` past its loop, or handed the close, is one less. -/
theorem remaining_threadMain
    {overlay : SessionOverlay}
    {answer : OverlayAnswer}
    (closes :
      overlay.point.pastLoop = true ∨ answer.message = .close) :
    remaining (overlay.threadMain answer).point ≤ remaining overlay.point - 1 := by
  unfold SessionOverlay.threadMain
  cases here : overlay.point with
  | creating =>
      dsimp only
      split
      · exact Nat.le_refl 6
      · exact Nat.zero_le 6
  | looping =>
      rw [here] at closes
      rcases closes with past | close
      · cases past
      · simp [close, remaining]
  | unstarted | ended =>
      simp [here, remaining]
  | publishing | marking | quitting | leaving | unmarking =>
      simp [remaining]

/-- The window thread takes some actions. -/
theorem run_windows
    (use : OverlayUse)
    (answers : List OverlayAnswer) :
    StepRuns.run step use (answers.map .window) =
      { use with
        overlay := answers.foldl SessionOverlay.threadMain use.overlay } := by
  induction answers generalizing use with
  | nil =>
      rfl
  | cons answer rest inductionHypothesis =>
      exact inductionHypothesis _

theorem remaining_foldl
    {overlay : SessionOverlay}
    {answers : List OverlayAnswer}
    (closes :
      overlay.point.pastLoop = true ∨
        ∀ answer ∈ answers, answer.message = .close) :
    remaining (answers.foldl SessionOverlay.threadMain overlay).point ≤
      remaining overlay.point - answers.length := by
  induction answers generalizing overlay with
  | nil =>
      exact Nat.le_refl _
  | cons answer rest inductionHypothesis =>
      have first :
          remaining (overlay.threadMain answer).point ≤
            remaining overlay.point - 1 :=
        remaining_threadMain
          (closes.imp_right fun each => each answer List.mem_cons_self)
      have still :
          (overlay.threadMain answer).point.pastLoop = true ∨
            ∀ other ∈ rest, other.message = .close :=
        closes.imp
          (threadMain_moves overlay answer).pastLoop
          (fun each other member => each other (List.mem_cons_of_mem _ member))
      have others := inductionHypothesis still
      rw [List.foldl_cons, List.length_cons]
      omega

/--
A join that can end does: at the latest when the window thread has taken seven
actions, in which it was handed the close if one was posted.
-/
theorem hide_returns
    (joining : use.place = .joining)
    (tearsDown : use.TearsDown)
    {answers : List OverlayAnswer}
    (enough : 7 ≤ answers.length)
    (handed :
      use.overlay.closePosted = true →
        ∀ answer ∈ answers, answer.message = .close)
    (posted : Bool) :
    (StepRuns.run step use
      (answers.map .window ++ [.session posted])).place = .idle := by
  have most : remaining use.overlay.point ≤ 7 := by
    cases use.overlay.point <;> simp [remaining]
  have left := remaining_foldl ((tearsDown joining).imp_right handed)
  have ended :
      (answers.foldl SessionOverlay.threadMain use.overlay).joins = false :=
    joins_of_remaining (by omega)
  rw [StepRuns.run_snoc, run_windows]
  simp [step, sessionStep, joining, ended]

/-- `threadMain` is in its message loop or on its way there. -/
def Entering (use : OverlayUse) : Prop :=
  use.place = .joining ∧
    (use.overlay.point = .creating ∨ use.overlay.point = .publishing ∨
      use.overlay.point = .marking ∨ use.overlay.point = .looping)

/-- The window is created and nobody closes it or breaks its loop. -/
def LeftAlone : OverlayEvent → Prop
  | .window answer => answer.created = true ∧ answer.message = .other
  | _ => True

/-- Without a close the join waits for ever. -/
theorem hide_never_returns
    (entering : use.Entering)
    {events : List OverlayEvent}
    (leftAlone : ∀ event ∈ events, LeftAlone event) :
    (StepRuns.run step use events).place = .joining := by
  have keeps :
      ∀ (use : OverlayUse) (event : OverlayEvent),
        LeftAlone event → use.Entering → (use.step event).Entering := by
    intro use event alone entering
    have ⟨joining, points⟩ := entering
    have waits : use.overlay.joins = true := by
      rcases points with here | here | here | here
      all_goals simp [SessionOverlay.joins, here]
    cases event with
    | «show» | updateText | hide =>
        simpa [step, joining] using entering
    | session posted =>
        simpa [step, sessionStep, joining, waits] using entering
    | window answer =>
        refine ⟨joining, ?_⟩
        rcases points with here | here | here | here
        all_goals
          simp [step, SessionOverlay.threadMain, here, alone.1, alone.2]
  have allowed : StepRuns.Allowed step (fun _ event => LeftAlone event) use events :=
    StepRuns.Allowed.of_forall (fun event member _ => leftAlone event member) use
  exact (allowed.invariant keeps entering).1

/-- The window comes after `show` has stopped waiting and `hide` has looked. -/
def lateWindow : List OverlayEvent :=
  .show [] :: List.replicate 202 (.session true) ++
    [.hide, .window {}, .window {}, .window {}]

/-- The session thread waits for a message loop that nobody has told to end. -/
theorem late_window_not_closed :
    ¬(StepRuns.run step {} lateWindow).TearsDown := by
  have here :
      (StepRuns.run step {} lateWindow).place = .joining ∧
        (StepRuns.run step {} lateWindow).overlay.point = .looping ∧
        (StepRuns.run step {} lateWindow).overlay.closePosted = false := by
    decide +kernel
  intro tearsDown
  have ends := tearsDown here.1
  rw [here.2.1, here.2.2] at ends
  simp [OverlayPoint.pastLoop] at ends

end Teardown

end OverlayUse

end RadminPro
