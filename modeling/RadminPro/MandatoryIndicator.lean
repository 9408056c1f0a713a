import RadminPro.SessionIndicator
import RadminPro.SessionMediation

namespace RadminPro

open ByteCodec

/-!
# Runs of a session beside its banner

The threads of a session and of its banner interleave as they like.  What is
still to come of the session, its pending effects and its phase, decides whether
the banner matters; an invariant keeps it up for as long as it does.
-/

/-- The banner is shown. -/
def Effect.isShow : Effect → Bool
  | .overlayShow _ => true
  | _ => false

namespace SessionThread

/-- The effects that are still to come in this turn. -/
def pending (thread : SessionThread) : List Effect :=
  thread.session.trace.drop thread.performed

/-- `show` has returned. -/
def Shown (thread : SessionThread) : Prop :=
  ∃ text, .overlayShow text ∈ thread.done

/-- The session still monitors in this turn, or may in a later one. -/
def MayMonitor (thread : SessionThread) : Prop :=
  (∃ effect ∈ thread.pending, Monitors effect) ∨
    thread.session.phase.canMonitor = true

/-- The thread after its next effect. -/
abbrev advance (thread : SessionThread) : SessionThread :=
  { thread with performed := thread.performed + 1 }

end SessionThread

/-! ## One effect of the session thread -/

section Threads

variable {thread : SessionThread}
variable {effect : Effect}

/-- The next effect stands between what is done and what is pending. -/
theorem trace_split
    (next : thread.next? = some effect) :
    thread.session.trace =
        thread.done ++ effect :: thread.advance.pending ∧
      thread.pending = effect :: thread.advance.pending ∧
      thread.advance.done = thread.done ++ [effect] := by
  obtain ⟨inside, isNext⟩ := List.getElem?_eq_some_iff.mp next
  have behind : thread.pending = effect :: thread.advance.pending := by
    rw [SessionThread.pending, List.drop_eq_getElem_cons inside, isNext]
    rfl
  refine ⟨?_, behind, done_succ next⟩
  rw [← behind]
  exact (List.take_append_drop _ _).symm

/-- Without a next effect everything is done. -/
theorem done_eq_trace
    (idle : thread.next? = none) :
    thread.done = thread.session.trace ∧ thread.pending = [] := by
  have past : thread.session.trace.length ≤ thread.performed :=
    List.getElem?_eq_none_iff.mp idle
  exact ⟨List.take_of_length_le past, List.drop_eq_nil_of_le past⟩

/-- What may still monitor after an effect might before it. -/
theorem mayMonitor_of_advance
    (next : thread.next? = some effect)
    (may : thread.advance.MayMonitor) :
    thread.MayMonitor := by
  obtain ⟨-, behind, -⟩ := trace_split next
  rcases may with ⟨later, member, monitors⟩ | can
  · exact .inl ⟨later, by simp [behind, member], monitors⟩
  · exact .inr can

/-- Where an effect of a session stands in its trace. -/
inductive Placed
    (phase : SessionPhase)
    (left : List Effect)
    (effect : Effect)
    (right : List Effect) : Prop where
  | calm (calm : Calm effect) : Placed phase left effect right
  | shows
      (text : Bytes)
      (isShow : effect = .overlayShow text)
      (calm : ∀ other ∈ left, Calm other) :
      Placed phase left effect right
  | beside
      (text : Bytes)
      (shown : .overlayShow text ∈ left)
      (leaves : ¬CallsOverlay effect) :
      Placed phase left effect right
  | hides
      (text : Bytes)
      (isHide : effect = .overlayHide)
      (shown : .overlayShow text ∈ left)
      (last : right = [.releaseSlot])
      (closed : phase.canMonitor = false) :
      Placed phase left effect right

/-- Where an effect of an opened trace stands. -/
theorem Opened.placed
    {left right : List Effect}
    (phase : SessionPhase)
    (opened : Opened (left ++ effect :: right))
    (rest : List Effect) :
    Placed phase left effect rest := by
  obtain ⟨before, text, after, shape, calm, still⟩ := opened
  rcases List.append_eq_append_iff.mp shape with
    ⟨middle, rfl, isRest⟩ | ⟨middle, rfl, isRest⟩
  · cases middle with
    | nil =>
        simp only [List.nil_append, List.cons.injEq] at isRest
        exact .shows text isRest.1 fun other member =>
          calm other (by simpa using member)
    | cons head tail =>
        simp only [List.cons_append, List.cons.injEq] at isRest
        exact .calm (calm effect (by simp [isRest.1]))
  · cases middle with
    | nil =>
        simp only [List.nil_append, List.cons.injEq] at isRest
        exact .shows text isRest.1.symm fun other member =>
          calm other (by simpa using member)
    | cons head tail =>
        simp only [List.cons_append, List.cons.injEq] at isRest
        exact .beside text (by simp [isRest.1])
          (still effect (by simp [isRest.2]))

/-- Where the next effect of a session stands. -/
theorem placed_next
    (opens : Opens thread.session)
    (next : thread.next? = some effect) :
    Placed thread.session.phase thread.done effect thread.advance.pending := by
  obtain ⟨split, -, -⟩ := trace_split next
  have ofCalm :
      (∀ other ∈ thread.session.trace, Calm other) →
      Placed thread.session.phase thread.done effect thread.advance.pending :=
    fun calm => .calm (calm effect (by simp [split]))
  have ofOpened :
      Opened thread.session.trace →
      Placed thread.session.phase thread.done effect
        thread.advance.pending := by
    intro opened
    rw [split] at opened
    exact opened.placed _ _
  have cases := opens
  unfold Opens at cases
  split at cases
  · exact ofCalm cases
  · exact ofCalm cases
  · exact ofCalm cases
  · exact ofCalm cases
  · exact ofOpened cases
  · next closed =>
      rcases cases with calm | ⟨front, shape, opened⟩
      · exact ofCalm calm
      · obtain ⟨before, text, after, isFront, -, -⟩ := id opened
        rw [shape] at split
        rcases List.append_eq_append_iff.mp split with
          ⟨middle, isDone, isRest⟩ | ⟨middle, isFront, isRest⟩
        · cases middle with
          | nil =>
              simp only [List.nil_append, List.cons.injEq] at isRest
              refine .hides text isRest.1.symm ?_ isRest.2.symm ?_
              · simp [isDone, isFront]
              · rw [closed]
                rfl
          | cons head tail =>
              have isLast : effect = .releaseSlot := by
                simp only [List.cons_append, List.cons.injEq] at isRest
                cases tail with
                | nil =>
                    simp only [List.nil_append, List.cons.injEq] at isRest
                    exact isRest.2.1.symm
                | cons next more =>
                    simp at isRest
              rw [isLast]
              exact .calm ⟨id, id⟩
        · cases middle with
          | nil =>
              simp only [List.nil_append, List.cons.injEq] at isRest
              refine .hides text isRest.1 ?_ isRest.2 ?_
              · have same : front = thread.done := by simpa using isFront
                simp [← same, *]
              · rw [closed]
                rfl
          | cons head tail =>
              simp only [List.cons_append, List.cons.injEq] at isRest
              rw [isFront, ← isRest.1] at opened
              exact opened.placed _ _
  · rcases cases with calm | opened
    · exact ofCalm calm
    · exact ofOpened opened
  · rcases cases with calm | opened
    · exact ofCalm calm
    · exact ofOpened opened

/-- `show` has returned before whatever monitors. -/
theorem shown_of_monitors
    (opens : Opens thread.session)
    (next : thread.next? = some effect)
    (monitors : Monitors effect) :
    thread.Shown := by
  cases placed_next opens next with
  | calm calm => exact (calm.1 monitors).elim
  | shows text isShow calm =>
      rw [isShow] at monitors
      exact monitors.elim
  | beside text shown leaves => exact ⟨text, shown⟩
  | hides text isHide shown last closed => exact ⟨text, shown⟩

/-- `show` is called once. -/
theorem not_shown_of_show
    {text : Bytes}
    (opens : Opens thread.session)
    (next : thread.next? = some (.overlayShow text)) :
    ¬thread.Shown := by
  rintro ⟨other, isDone⟩
  cases placed_next opens next with
  | calm calm => exact calm.2 trivial
  | shows text isShow calm => exact (calm _ isDone).2 trivial
  | beside text shown leaves => exact leaves trivial
  | hides text isHide shown last closed => cases isHide

/-- When `hide` is called, the session has shown its banner and is over. -/
theorem over_of_hide
    (opens : Opens thread.session)
    (next : thread.next? = some .overlayHide) :
    thread.Shown ∧ ¬thread.MayMonitor := by
  obtain ⟨-, behind, -⟩ := trace_split next
  cases placed_next opens next with
  | calm calm => exact (calm.2 trivial).elim
  | shows text isShow calm => cases isShow
  | beside text shown leaves => exact (leaves trivial).elim
  | hides text isHide shown last closed =>
      refine ⟨⟨text, shown⟩, ?_⟩
      rintro (⟨effect, member, monitors⟩ | can)
      · rw [behind, last] at member
        simp only [List.mem_cons, List.not_mem_nil, or_false] at member
        rcases member with rfl | rfl
        · exact monitors
        · exact monitors
      · rw [closed] at can
        cases can

/-- A turn of a session that has shown its banner brings no new powers. -/
theorem mayMonitor_of_turn
    {sha256 : Bytes → Hash256}
    (opens : Opens thread.session)
    (idle : thread.next? = none)
    (shown : thread.Shown)
    (turn : Turn)
    (may :
      { thread with
        session :=
          thread.session.step sha256 thread.setup turn }.MayMonitor) :
    thread.MayMonitor := by
  obtain ⟨allDone, -⟩ := done_eq_trace idle
  obtain ⟨text, isDone⟩ := shown
  rw [allDone] at isDone
  have past : thread.session.trace.length ≤ thread.performed :=
    List.getElem?_eq_none_iff.mp idle
  have powers :
      (∃ effect ∈ (thread.session.phase.turn sha256 thread.setup turn).2,
          Monitors effect) ∨
        (thread.session.phase.turn sha256 thread.setup turn).1.canMonitor =
          true := by
    rcases may with ⟨effect, member, monitors⟩ | can
    · refine .inl ⟨effect, ?_, monitors⟩
      have isNew :
          effect ∈
            (thread.session.trace ++
              (thread.session.phase.turn sha256 thread.setup turn).2).drop
              thread.performed :=
        member
      rw [List.drop_append, List.drop_eq_nil_of_le past, List.nil_append]
        at isNew
      exact List.mem_of_mem_drop isNew
    · exact .inr can
  unfold Opens at opens
  split at opens
  · exact ((opens _ isDone).2 trivial).elim
  · exact ((opens _ isDone).2 trivial).elim
  · exact ((opens _ isDone).2 trivial).elim
  · exact ((opens _ isDone).2 trivial).elim
  · next ctx loop live =>
      rw [live] at powers
      refine .inr (Bool.eq_true_of_not_eq_false fun cannot => ?_)
      rw [live] at cannot
      obtain ⟨neither, none⟩ :
          (liveTurn sha256 thread.setup ctx loop turn).1.canMonitor = false ∧
            ∀ effect ∈ (liveTurn sha256 thread.setup ctx loop turn).2,
              ¬Monitors effect :=
        liveTurn_unmonitored cannot turn
      rcases powers with ⟨effect, member, monitors⟩ | can
      · exact none effect member monitors
      · exact Bool.false_ne_true (neither.symm.trans can)
  · next closed =>
      rw [closed] at powers
      simp [SessionPhase.turn, SessionPhase.canMonitor] at powers
  · next ended =>
      rw [ended] at powers
      simp [SessionPhase.turn, SessionPhase.canMonitor] at powers
  · next stuck =>
      rw [stuck] at powers
      simp [SessionPhase.turn, SessionPhase.canMonitor] at powers

/-- A turn does nothing by itself. -/
theorem done_of_turn
    {sha256 : Bytes → Hash256}
    (inside : thread.performed ≤ thread.session.trace.length)
    (turn : Turn) :
    { thread with
        session := thread.session.step sha256 thread.setup turn }.done =
      thread.done := by
  obtain ⟨effects, shape⟩ :
      ∃ effects,
        (thread.session.step sha256 thread.setup turn).trace =
          thread.session.trace ++ effects :=
    ⟨_, rfl⟩
  rw [SessionThread.done, SessionThread.done]
  dsimp only
  rw [shape, List.take_append_of_le_length inside]

end Threads

/-! ## The banner -/

/--
The window is there when `show` returns, and nothing but `hide` closes it or
ends its message loop, as long as the session may still monitor.
-/
def StaysUp (world : IndicatedSession) : IndicatedEvent → Prop
  | .session _ =>
      ∀ polls,
        world.call = .showing polls →
        world.showEnds polls = true →
        world.thread.MayMonitor →
        world.overlay.indicating = true
  | .overlay answer =>
      world.overlay.point = .looping →
      answer.message ≠ .other →
      world.overlay.closePosted = false →
      world.thread.Shown →
      ¬world.thread.MayMonitor

/-- `show` has returned when it is among what was done. -/
theorem shown_iff
    (thread : SessionThread) :
    (∃ effect ∈ thread.done, effect.isShow = true) ↔ thread.Shown := by
  constructor
  · rintro ⟨effect, member, isShow⟩
    cases effect with
    | overlayShow text => exact ⟨text, member⟩
    | _ => cases isShow
  · rintro ⟨text, member⟩
    exact ⟨.overlayShow text, member, rfl⟩

instance (thread : SessionThread) : Decidable thread.Shown :=
  decidable_of_iff (∃ effect ∈ thread.done, effect.isShow = true)
    (shown_iff thread)

instance (thread : SessionThread) : Decidable thread.MayMonitor :=
  inferInstanceAs (Decidable ((∃ effect ∈ thread.pending, Monitors effect) ∨ _))

instance
    (call : OverlayCall)
    (holds : Nat → Prop)
    [∀ polls, Decidable (holds polls)] :
    Decidable (∀ polls, call = .showing polls → holds polls) :=
  match call with
  | .showing polls => decidable_of_iff (holds polls) (by simp)
  | .none => .isTrue (by simp)
  | .joining => .isTrue (by simp)

instance (world : IndicatedSession) :
    (event : IndicatedEvent) → Decidable (StaysUp world event)
  | .session _ =>
      inferInstanceAs
        (Decidable
          (∀ polls,
            world.call = .showing polls →
            world.showEnds polls = true →
            world.thread.MayMonitor →
            world.overlay.indicating = true))
  | .overlay answer =>
      inferInstanceAs
        (Decidable
          (world.overlay.point = .looping →
            answer.message ≠ .other →
            world.overlay.closePosted = false →
            world.thread.Shown →
            ¬world.thread.MayMonitor))

/-- Whatever monitors is done while the banner is up. -/
def AlwaysIndicated (world : IndicatedSession) : Prop :=
  ∀ effect indicating,
    (effect, indicating) ∈ world.log → Monitors effect → indicating = true

/-- What holds between any two actions. -/
structure Attended (world : IndicatedSession) : Prop where
  opens : Opens world.thread.session
  inside : world.thread.performed ≤ world.thread.session.trace.length
  indicated : AlwaysIndicated world
  up :
    world.call = .none →
    world.thread.Shown →
    world.thread.MayMonitor →
    world.overlay.indicating = true
  untouched :
    world.call = .none →
    ¬world.thread.Shown →
    world.overlay.point = .unstarted ∧ world.overlay.running = false
  showing :
    ∀ polls,
      world.call = .showing polls →
      ∃ text, world.thread.next? = some (.overlayShow text)
  joining : world.call = .joining → world.thread.next? = some .overlayHide
  posted :
    world.overlay.closePosted = true →
    world.thread.Shown ∧ ¬world.thread.MayMonitor

section Worlds

variable {sha256 : Bytes → Hash256}
variable {world : IndicatedSession}
variable {effect : Effect}

/-- What was done stays done. -/
theorem shown_advance
    {thread : SessionThread}
    (next : thread.next? = some effect)
    (shown : thread.Shown) :
    thread.advance.Shown := by
  obtain ⟨-, -, more⟩ := trace_split next
  obtain ⟨text, isDone⟩ := shown
  exact ⟨text, by simp [more, isDone]⟩

/-- The next effect happens, with the banner up where that matters. -/
theorem Attended.perform
    (attended : Attended world)
    (next : world.thread.next? = some effect)
    (up :
      world.thread.advance.Shown →
      world.thread.MayMonitor →
      world.overlay.indicating = true)
    (untouched :
      ¬world.thread.advance.Shown →
      world.overlay.point = .unstarted ∧ world.overlay.running = false) :
    Attended (world.perform effect) where
  opens := attended.opens
  inside := (List.getElem?_eq_some_iff.mp next).1
  indicated := by
    intro other indicating member monitors
    rcases List.mem_append.mp member with before | isNew
    · exact attended.indicated other indicating before monitors
    · simp only [List.mem_singleton, Prod.mk.injEq] at isNew
      obtain ⟨rfl, rfl⟩ := isNew
      obtain ⟨-, behind, -⟩ := trace_split next
      have shown : world.thread.Shown :=
        shown_of_monitors attended.opens next monitors
      exact up (shown_advance next shown)
        (.inl ⟨other, by simp [behind], monitors⟩)
  up := fun _ shown may => up shown (mayMonitor_of_advance next may)
  untouched := fun _ hidden => untouched hidden
  showing := by
    simp [IndicatedSession.perform]
  joining := by
    simp [IndicatedSession.perform]
  posted := by
    intro isPosted
    obtain ⟨shown, no⟩ := attended.posted isPosted
    exact ⟨shown_advance next shown,
      fun may => no (mayMonitor_of_advance next may)⟩

/-- An effect that is no call of the overlay. -/
theorem Attended.perform_other
    (attended : Attended world)
    (next : world.thread.next? = some effect)
    (leaves : ¬CallsOverlay effect) :
    Attended (world.perform effect) := by
  have idle : world.call = .none := by
    cases inCall : world.call with
    | none => rfl
    | showing polls =>
        obtain ⟨text, isShow⟩ := attended.showing polls inCall
        rw [next, Option.some.injEq] at isShow
        rw [isShow] at leaves
        exact (leaves trivial).elim
    | joining =>
        have isHide := attended.joining inCall
        rw [next, Option.some.injEq] at isHide
        rw [isHide] at leaves
        exact (leaves trivial).elim
  have before : world.thread.advance.Shown → world.thread.Shown := by
    rintro ⟨text, isDone⟩
    obtain ⟨-, -, more⟩ := trace_split next
    rw [more] at isDone
    rcases List.mem_append.mp isDone with earlier | isNext
    · exact ⟨text, earlier⟩
    · rw [← List.mem_singleton.mp isNext] at leaves
      exact (leaves trivial).elim
  exact attended.perform next (fun shown may => attended.up idle (before shown) may)
    fun hidden =>
      attended.untouched idle fun shown => hidden (shown_advance next shown)

/-- A turn of the session. -/
theorem Attended.turn
    (attended : Attended world)
    (idle : world.thread.next? = none)
    (turn : Turn) :
    Attended
      { world with
        thread :=
          { world.thread with
            session :=
              world.thread.session.step sha256 world.thread.setup turn } } := by
  have sameDone :
      { world.thread with
          session :=
            world.thread.session.step sha256 world.thread.setup turn }.done =
        world.thread.done :=
    done_of_turn attended.inside turn
  have notShowing : ∀ polls, world.call ≠ .showing polls := by
    intro polls inCall
    obtain ⟨text, isShow⟩ := attended.showing polls inCall
    rw [idle] at isShow
    cases isShow
  have notJoining : world.call ≠ .joining := by
    intro inCall
    have isHide := attended.joining inCall
    rw [idle] at isHide
    cases isHide
  refine
    { opens := opens_step attended.opens turn
      inside := ?_
      indicated := attended.indicated
      up := fun inCall shown may => ?_
      untouched := fun inCall hidden => ?_
      showing := fun polls inCall => (notShowing polls inCall).elim
      joining := fun inCall => (notJoining inCall).elim
      posted := fun isPosted => ?_ }
  · exact Nat.le_trans attended.inside
      (List.prefix_append _ _).length_le
  · have before : world.thread.Shown := by
      rwa [SessionThread.Shown, ← sameDone]
    exact attended.up inCall before
      (mayMonitor_of_turn attended.opens idle before turn may)
  · exact attended.untouched inCall (by rwa [SessionThread.Shown, ← sameDone])
  · obtain ⟨shown, no⟩ := attended.posted isPosted
    refine ⟨by rwa [SessionThread.Shown, sameDone], fun may => no ?_⟩
    exact mayMonitor_of_turn attended.opens idle shown turn may

/-- `show` starts the thread of the banner. -/
theorem Attended.startShow
    (attended : Attended world)
    {text : Bytes}
    (next : world.thread.next? = some (.overlayShow text))
    (inCall : world.call = .none) :
    Attended (world.startShow text) := by
  have hidden : ¬world.thread.Shown := not_shown_of_show attended.opens next
  obtain ⟨unstarted, notRunning⟩ := attended.untouched inCall hidden
  simp only [IndicatedSession.startShow, notRunning, SessionOverlay.joins,
    unstarted, Bool.false_eq_true, ↓reduceIte, bne_self_eq_false,
    Bool.false_and]
  exact
    { opens := attended.opens
      inside := attended.inside
      indicated := attended.indicated
      up := by
        simp
      untouched := by
        simp
      showing := fun _ _ => ⟨text, next⟩
      joining := by
        simp
      posted := attended.posted }

/-- One action of the session thread. -/
theorem Attended.sessionStep
    (attended : Attended world)
    (turn : Turn)
    (staysUp : StaysUp world (.session turn)) :
    Attended (world.sessionStep sha256 turn) := by
  cases next : world.thread.next? with
  | none =>
      simp only [IndicatedSession.sessionStep, next]
      exact attended.turn next turn
  | some effect =>
      cases effect with
      | overlayShow text =>
          have hidden : ¬world.thread.Shown :=
            not_shown_of_show attended.opens next
          cases inCall : world.call with
          | none =>
              simp only [IndicatedSession.sessionStep, next, inCall]
              exact attended.startShow next inCall
          | showing polls =>
              simp only [IndicatedSession.sessionStep, next, inCall]
              split
              · next ends =>
                  refine attended.perform next
                    (fun _ may => staysUp polls inCall ends may)
                    fun notShown => (notShown ⟨text, ?_⟩).elim
                  obtain ⟨-, -, more⟩ := trace_split next
                  simp [more]
              · exact
                  { opens := attended.opens
                    inside := attended.inside
                    indicated := attended.indicated
                    up := by
                      simp
                    untouched := by
                      simp
                    showing := fun _ _ => ⟨text, next⟩
                    joining := by
                      simp
                    posted := attended.posted }
          | joining =>
              have isHide := attended.joining inCall
              rw [next] at isHide
              cases isHide
      | overlayHide =>
          obtain ⟨shown, no⟩ := over_of_hide attended.opens next
          cases inCall : world.call with
          | none =>
              simp only [IndicatedSession.sessionStep, next, inCall]
              exact
                { opens := attended.opens
                  inside := attended.inside
                  indicated := attended.indicated
                  up := by
                    simp
                  untouched := by
                    simp
                  showing := by
                    simp
                  joining := fun _ => next
                  posted := fun _ => ⟨shown, no⟩ }
          | showing polls =>
              obtain ⟨text, isShow⟩ := attended.showing polls inCall
              rw [next] at isShow
              cases isShow
          | joining =>
              simp only [IndicatedSession.sessionStep, next, inCall]
              split
              · exact attended
              · exact attended.perform next (fun _ may => (no may).elim)
                  fun hidden => (hidden (shown_advance next shown)).elim
      | _ =>
          simp only [IndicatedSession.sessionStep, next]
          exact attended.perform_other next id

/-- What the thread of the banner leaves alone. -/
theorem threadMain_frame
    (overlay : SessionOverlay)
    (answer : OverlayAnswer) :
    (overlay.threadMain answer).closePosted = overlay.closePosted ∧
      (overlay.point = .unstarted → overlay.threadMain answer = overlay) := by
  cases here : overlay.point with
  | creating =>
      simp only [SessionOverlay.threadMain, here]
      split
      · simp
      · simp
  | looping =>
      simp only [SessionOverlay.threadMain, here]
      split
      · simp
      · simp
      · simp
  | _ => simp [SessionOverlay.threadMain, here]

/-- The banner stays up unless its window is closed or its loop fails. -/
theorem indicating_threadMain
    {overlay : SessionOverlay}
    {answer : OverlayAnswer}
    (indicating : overlay.indicating = true)
    (calm : overlay.point = .looping → answer.message = .other) :
    (overlay.threadMain answer).indicating = true := by
  have window : overlay.window = true := by
    simp only [SessionOverlay.indicating, Bool.and_eq_true] at indicating
    exact indicating.1
  cases here : overlay.point with
  | publishing =>
      simp [SessionOverlay.threadMain, here, SessionOverlay.indicating, window]
  | marking =>
      simp [SessionOverlay.threadMain, here, SessionOverlay.indicating, window]
  | looping =>
      simpa [SessionOverlay.threadMain, here, calm here] using indicating
  | _ =>
      simp [SessionOverlay.indicating, here] at indicating

/-- One action of the thread of the banner. -/
theorem Attended.overlayStep
    (attended : Attended world)
    (answer : OverlayAnswer)
    (staysUp : StaysUp world (.overlay answer)) :
    Attended
      { world with overlay := world.overlay.threadMain answer } := by
  obtain ⟨samePosted, still⟩ := threadMain_frame world.overlay answer
  exact
    { opens := attended.opens
      inside := attended.inside
      indicated := attended.indicated
      up := fun inCall shown may => by
        refine indicating_threadMain (attended.up inCall shown may) fun here => ?_
        by_contra closes
        cases isPosted : world.overlay.closePosted with
        | true => exact (attended.posted isPosted).2 may
        | false => exact staysUp here closes isPosted shown may
      untouched := fun inCall hidden => by
        obtain ⟨unstarted, notRunning⟩ := attended.untouched inCall hidden
        rw [still unstarted]
        exact ⟨unstarted, notRunning⟩
      showing := attended.showing
      joining := attended.joining
      posted := fun isPosted => attended.posted (samePosted ▸ isPosted) }

/-- One action of either thread. -/
theorem Attended.step
    (attended : Attended world)
    {event : IndicatedEvent}
    (staysUp : StaysUp world event) :
    Attended (world.step sha256 event) := by
  cases event with
  | session turn => exact attended.sessionStep turn staysUp
  | overlay answer => exact attended.overlayStep answer staysUp

/-- A session that has not begun. -/
theorem attended_initial
    (connection : Accepted)
    (setup : SessionSetup) :
    Attended { thread := { connection, setup } } where
  opens := fun effect member => by
    rw [List.mem_singleton.mp member]
    exact ⟨id, id⟩
  inside := Nat.zero_le _
  indicated := by
    simp [AlwaysIndicated]
  up := by
    simp [SessionThread.Shown, SessionThread.done]
  untouched := fun _ _ => ⟨rfl, rfl⟩
  showing := by
    simp
  joining := by
    simp
  posted := by
    simp

end Worlds

/-! ## Without the banner -/

section Covert

variable {sha256 : Bytes → Hash256}
variable {setup : SessionSetup}
variable {ctx : SessionContext}
variable {loop : LoopState}

/-- A frame of one row. -/
def rowFrame (width : Nat) : Frame where
  width := width
  height := 1
  stride := 4 * width
  pixels := List.replicate (4 * width) 0

/-- The capture may produce it. -/
theorem acquired_rowFrame
    {width : Nat}
    (positive : 1 ≤ width)
    (limit : width ≤ 16384) :
    Acquired (rowFrame width) where
  widthPositive := positive
  widthLimit := limit
  heightPositive := Nat.le_refl 1
  heightLimit := by
    simp [rowFrame]
  stride := rfl
  pixels := by
    simp [rowFrame]

/-- The first message of a batch is sent, whatever becomes of the others. -/
theorem first_mem_sendAll
    (answers : Nat → Bool)
    (op : Op)
    (payload : Bytes)
    (rest : List (Op × Bytes)) :
    ∃ ok,
      .send op payload ok ∈
        (sendAll (writeMessage answers) [] ((op, payload) :: rest)).2 := by
  refine ⟨withinCap payload && answers 0, ?_⟩
  have kept :
      ∀ channel,
        .send op payload (withinCap payload && answers 0) ∈ channel →
        .send op payload (withinCap payload && answers 0) ∈
          (sendAll (writeMessage answers) channel rest).2 := by
    intro channel member
    obtain ⟨attempted, shape, -⟩ :=
      sendAll_writeMessage answers rest channel
    rw [shape]
    exact List.mem_append_left _ member
  have first :
      writeMessage answers [] op payload =
        (withinCap payload && answers 0,
          [.send op payload (withinCap payload && answers 0)]) :=
    rfl
  rw [sendAll, first]
  generalize (withinCap payload && answers 0) = ok at kept ⊢
  cases ok with
  | true => exact kept _ (List.mem_singleton_self _)
  | false => exact List.mem_singleton_self _

/-- A keyframe begins with its announcement. -/
theorem frameInfo_mem_sendKeyframe
    (streamer : VideoStreamer)
    (answers : Nat → Bool)
    (frame : Frame) :
    ∃ payload ok,
      .send (.known .frameInfo) payload ok ∈
        (streamer.sendKeyframe (writeMessage answers) [] frame).2.2 := by
  obtain ⟨rest, announced⟩ :
      ∃ rest,
        keyframeMessages (streamer.seq + 1) frame =
          (.known .frameInfo, (infoMessage (streamer.seq + 1) frame).encode) ::
            rest :=
    ⟨_, List.cons_append⟩
  obtain ⟨ok, member⟩ :=
    first_mem_sendAll answers (.known .frameInfo)
      (infoMessage (streamer.seq + 1) frame).encode rest
  refine ⟨(infoMessage (streamer.seq + 1) frame).encode, ok, ?_⟩
  have shape :
      (streamer.sendKeyframe (writeMessage answers) [] frame).2.2 =
        (sendAll (writeMessage answers) []
          (keyframeMessages (streamer.seq + 1) frame)).2 := by
    rw [VideoStreamer.sendKeyframe]
    split
    · next failed => rw [failed]
    · next sent => rw [sent]
  rw [shape, announced]
  exact member

/-- A streamer that is offered a frame of another width announces it. -/
theorem frameInfo_mem_streamTurn
    {out : Outside}
    {frame : Frame}
    (shows : (ctx.canView && loop.captureOk) = true)
    (captured : out.captured.1 = .ok frame)
    (changed : frame.width ≠ loop.streamer.prevW) :
    ∃ payload ok,
      .send (.known .frameInfo) payload ok ∈
        (streamTurn setup ctx out loop []).2 := by
  obtain ⟨payload, ok, member⟩ :=
    frameInfo_mem_sendKeyframe loop.streamer out.frames frame
  refine ⟨payload, ok, ?_⟩
  have streamed :
      loop.streamer.streamOnce (writeMessage out.frames) [] out.captured.1 =
        some (loop.streamer.sendKeyframe (writeMessage out.frames) [] frame) := by
    rw [captured, VideoStreamer.streamOnce]
    exact if_pos (.inr (.inl changed))
  rw [streamTurn, if_pos shows, streamed]
  generalize
    loop.streamer.sendKeyframe (writeMessage out.frames) [] frame = result
    at member
  obtain ⟨step, streamer, sent⟩ := result
  cases step with
  | sent => exact List.mem_append_right _ member
  | skipped => exact List.mem_append_right _ member
  | lost => exact List.mem_append_left _ (List.mem_append_right _ member)
  | error =>
      rw [finishSession_effects]
      exact List.mem_append_left _ (List.mem_append_right _ member)

/-- A session that may monitor has a turn in which it does. -/
theorem exists_monitoring_turn
    (can : (SessionPhase.live ctx loop).canMonitor = true) :
    ∃ turn, ∃ effect ∈ (liveTurn sha256 setup ctx loop turn).2,
      Monitors effect := by
  cases controls : ctx.canControl with
  | true =>
      refine ⟨{ read := .ok ⟨.known .inputMouse, List.replicate 8 0⟩ },
        .injectMouse 0 0 0, ?_, trivial⟩
      have handled :
          handle sha256 setup ctx {} loop
              ⟨.known .inputMouse, List.replicate 8 0⟩ =
            .ok { loop, effects := [.injectMouse 0 0 0] } := by
        simp only [handle, handleInputMouse, controls, Bool.not_true,
          Bool.false_eq_true, ↓reduceIte]
        rfl
      have streams :
          Streams setup ctx {} loop
            [.received ⟨.known .inputMouse, List.replicate 8 0⟩,
              .injectMouse 0 0 0]
            (streamTurn setup ctx {} loop
              [.received ⟨.known .inputMouse, List.replicate 8 0⟩,
                .injectMouse 0 0 0]) :=
        streamTurn_streams _
      obtain ⟨more, shape⟩ := streams.extends
      simp only [liveTurn, Bool.not_true, Bool.false_eq_true, ↓reduceIte,
        handled]
      rw [shape]
      simp
  | false =>
      have shows : (ctx.canView && loop.captureOk) = true := by
        simpa [SessionPhase.canMonitor, controls] using can
      obtain ⟨width, positive, limit, changed⟩ :
          ∃ width, 1 ≤ width ∧ width ≤ 16384 ∧ width ≠ loop.streamer.prevW := by
        by_cases isOne : loop.streamer.prevW = 1
        · exact ⟨2, by decide, by decide, by simp [isOne]⟩
        · exact ⟨1, by decide, by decide, Ne.symm isOne⟩
      have acquired :
          ∀ frame,
            CaptureResult.ok (rowFrame width) = .ok frame → Acquired frame := by
        intro frame isFrame
        cases isFrame
        exact acquired_rowFrame positive limit
      obtain ⟨payload, ok, member⟩ :
          ∃ payload ok,
            .send (.known .frameInfo) payload ok ∈
              (streamTurn setup ctx
                { captured := ⟨.ok (rowFrame width), acquired⟩ } loop []).2 :=
        frameInfo_mem_streamTurn shows rfl changed
      refine ⟨{ outside := { captured := ⟨.ok (rowFrame width), acquired⟩ } },
        .send (.known .frameInfo) payload ok, ?_, .inl rfl⟩
      simpa only [liveTurn, Bool.not_true, Bool.false_eq_true, ↓reduceIte]
        using member

variable {world : IndicatedSession}

/-- The banner is down for a session that has shown it and may still monitor. -/
structure Exposed (world : IndicatedSession) : Prop where
  opens : Opens world.thread.session
  idle : world.call = .none
  shown : world.thread.Shown
  down : world.overlay.indicating = false

/-- The next effect of an exposed session is no call of the overlay or the last. -/
theorem Exposed.performs
    {effect : Effect}
    (exposed : Exposed world)
    (next : world.thread.next? = some effect)
    (may : world.thread.MayMonitor)
    (turn : Turn) :
    world.sessionStep sha256 turn = world.perform effect ∧
      Exposed (world.perform effect) := by
  refine ⟨?_, ?_⟩
  · cases effect with
    | overlayShow text =>
        exact (not_shown_of_show exposed.opens next exposed.shown).elim
    | overlayHide =>
        exact ((over_of_hide exposed.opens next).2 may).elim
    | _ => simp only [IndicatedSession.sessionStep, next]
  · exact
      { opens := exposed.opens
        idle := rfl
        shown := shown_advance next exposed.shown
        down := exposed.down }

/-- A session monitors in the run that goes on with these turns. -/
def CovertlyAfter
    (sha256 : Bytes → Hash256)
    (world : IndicatedSession)
    (turns : List Turn) : Prop :=
  ¬AlwaysIndicated
    (StepRuns.run (IndicatedSession.step sha256) world
      (turns.map .session))

/-- An effect that monitors, once it is pending, happens without the banner. -/
theorem covert_of_pending
    (exposed : Exposed world)
    {effect : Effect}
    (member : effect ∈ world.thread.pending)
    (monitors : Monitors effect) :
    ∃ turns, CovertlyAfter sha256 world turns := by
  induction pending : world.thread.pending generalizing world with
  | nil =>
      rw [pending] at member
      cases member
  | cons first rest inductionHypothesis =>
      have next : world.thread.next? = some first := by
        rw [SessionThread.pending] at pending
        rw [SessionThread.next?, ← List.head?_drop, pending]
        rfl
      have may : world.thread.MayMonitor := .inl ⟨effect, member, monitors⟩
      obtain ⟨performed, stays⟩ :
          world.sessionStep sha256 {} = world.perform first ∧
            Exposed (world.perform first) :=
        exposed.performs next may {}
      have goesOn :
          ∀ turns,
            CovertlyAfter sha256 (world.perform first) turns →
            CovertlyAfter sha256 world ({} :: turns) := by
        intro turns covert
        rw [← performed] at covert
        exact covert
      obtain ⟨-, behind, -⟩ := trace_split next
      have sameRest : (world.perform first).thread.pending = rest := by
        rw [pending, List.cons.injEq] at behind
        exact behind.2.symm
      rw [pending] at member
      by_cases isFirst : Monitors first
      · refine ⟨[{}], goesOn [] fun always => ?_⟩
        have indicated :=
          always first world.overlay.indicating
            (by simp [IndicatedSession.perform]) isFirst
        rw [exposed.down] at indicated
        cases indicated
      · have inRest : effect ∈ rest := by
          rcases List.mem_cons.mp member with same | inRest
          · exact (isFirst (same ▸ monitors)).elim
          · exact inRest
        obtain ⟨turns, covert⟩ :=
          inductionHypothesis stays (sameRest.symm ▸ inRest) sameRest
        exact ⟨{} :: turns, goesOn turns covert⟩

/-- A session that may monitor can do so without the banner. -/
theorem covert_of_mayMonitor
    (exposed : Exposed world)
    (inside : world.thread.performed ≤ world.thread.session.trace.length)
    (may : world.thread.MayMonitor) :
    ∃ turns, CovertlyAfter sha256 world turns := by
  rcases may with ⟨effect, member, monitors⟩ | can
  · exact covert_of_pending exposed member monitors
  · induction pending : world.thread.pending generalizing world with
    | nil =>
        have past : world.thread.session.trace.length ≤ world.thread.performed :=
          List.drop_eq_nil_iff.mp pending
        have idle : world.thread.next? = none :=
          List.getElem?_eq_none_iff.mpr past
        cases live : world.thread.session.phase with
        | live ctx loop =>
            rw [live] at can
            obtain ⟨turn, effect, member, monitors⟩ :
                ∃ turn, ∃ effect ∈
                  (liveTurn sha256 world.thread.setup ctx loop turn).2,
                  Monitors effect :=
              exists_monitoring_turn can
            have stepped :
                world.sessionStep sha256 turn =
                  { world with
                    thread :=
                      { world.thread with
                        session :=
                          world.thread.session.step sha256 world.thread.setup
                            turn } } := by
              simp only [IndicatedSession.sessionStep, idle]
            have sameDone :
                { world.thread with
                    session :=
                      world.thread.session.step sha256 world.thread.setup
                        turn }.done =
                  world.thread.done :=
              done_of_turn inside turn
            have stays : Exposed (world.sessionStep sha256 turn) := by
              rw [stepped]
              exact
                { opens := opens_step exposed.opens turn
                  idle := exposed.idle
                  shown := by
                    rw [SessionThread.Shown, sameDone]
                    exact exposed.shown
                  down := exposed.down }
            have isPending :
                effect ∈ (world.sessionStep sha256 turn).thread.pending := by
              have behind :
                  (world.sessionStep sha256 turn).thread.pending =
                    (world.thread.session.trace ++
                      (liveTurn sha256 world.thread.setup ctx loop turn).2).drop
                      world.thread.performed := by
                rw [stepped]
                simp only [SessionThread.pending, Session.step, live,
                  SessionPhase.turn]
              have atEnd :
                  world.thread.performed =
                    world.thread.session.trace.length :=
                Nat.le_antisymm inside past
              rw [behind, atEnd, List.drop_left]
              exact member
            obtain ⟨turns, covert⟩ :
                ∃ turns,
                  CovertlyAfter sha256 (world.sessionStep sha256 turn) turns :=
              covert_of_pending stays isPending monitors
            exact ⟨turn :: turns, covert⟩
        | _ =>
            rw [live] at can
            cases can
    | cons first rest inductionHypothesis =>
        have next : world.thread.next? = some first := by
          rw [SessionThread.pending] at pending
          rw [SessionThread.next?, ← List.head?_drop, pending]
          rfl
        obtain ⟨performed, stays⟩ :
            world.sessionStep sha256 {} = world.perform first ∧
              Exposed (world.perform first) :=
          exposed.performs next (.inr can) {}
        obtain ⟨-, behind, -⟩ := trace_split next
        have sameRest : (world.perform first).thread.pending = rest := by
          rw [pending, List.cons.injEq] at behind
          exact behind.2.symm
        obtain ⟨turns, covert⟩ :=
          inductionHypothesis stays (List.getElem?_eq_some_iff.mp next).1 can
            sameRest
        refine ⟨{} :: turns, ?_⟩
        rw [← performed] at covert
        exact covert

/-- A `show` that returns without the window exposes the session. -/
theorem covert_after_show
    (attended : Attended world)
    {turn : Turn}
    (fails : ¬StaysUp world (.session turn)) :
    ∃ turns,
      CovertlyAfter sha256 (world.step sha256 (.session turn)) turns := by
  simp only [StaysUp] at fails
  push Not at fails
  obtain ⟨polls, inCall, ends, may, notUp⟩ := fails
  obtain ⟨text, next⟩ := attended.showing polls inCall
  obtain ⟨-, behind, more⟩ := trace_split next
  have stepped :
      world.step sha256 (.session turn) =
        world.perform (.overlayShow text) := by
    simp only [IndicatedSession.step, IndicatedSession.sessionStep, next, inCall,
      ends, ↓reduceIte]
  have down : world.overlay.indicating = false := by
    simpa using notUp
  have exposed : Exposed (world.perform (.overlayShow text)) :=
    { opens := attended.opens
      idle := rfl
      shown := ⟨text, by simp [IndicatedSession.perform, more]⟩
      down }
  have mayLater : (world.perform (.overlayShow text)).thread.MayMonitor := by
    rcases may with ⟨effect, member, monitors⟩ | can
    · rw [behind] at member
      rcases List.mem_cons.mp member with rfl | later
      · exact monitors.elim
      · exact .inl ⟨effect, later, monitors⟩
    · exact .inr can
  rw [stepped]
  exact covert_of_mayMonitor exposed (List.getElem?_eq_some_iff.mp next).1
    mayLater

/-- A banner that is closed early exposes the session. -/
theorem covert_after_close
    (attended : Attended world)
    {answer : OverlayAnswer}
    (fails : ¬StaysUp world (.overlay answer)) :
    ∃ turns,
      CovertlyAfter sha256 (world.step sha256 (.overlay answer)) turns := by
  simp only [StaysUp] at fails
  push Not at fails
  obtain ⟨looping, closes, -, shown, may⟩ := fails
  have idle : world.call = .none := by
    cases inCall : world.call with
    | none => rfl
    | showing polls =>
        obtain ⟨text, next⟩ := attended.showing polls inCall
        exact (not_shown_of_show attended.opens next shown).elim
    | joining =>
        exact ((over_of_hide attended.opens (attended.joining inCall)).2
          may).elim
  have down : (world.overlay.threadMain answer).indicating = false := by
    cases message : answer.message with
    | other => exact (closes message).elim
    | close =>
        simp [SessionOverlay.threadMain, looping, message,
          SessionOverlay.indicating]
    | failed =>
        simp [SessionOverlay.threadMain, looping, message,
          SessionOverlay.indicating]
  have exposed : Exposed (world.step sha256 (.overlay answer)) :=
    { opens := attended.opens
      idle
      shown
      down }
  exact covert_of_mayMonitor exposed attended.inside may

end Covert

/--
In every run in which the window is there when `show` returns and only `hide`
closes it while the session may monitor, the session monitors only while its
banner is up.  A run that fails this for the first time can go on to monitor
without it.
-/
theorem mandatory_indicator
    (sha256 : Bytes → Hash256)
    (connection : Accepted)
    (setup : SessionSetup)
    (events : List IndicatedEvent) :
    StepRuns.Allowed (IndicatedSession.step sha256) StaysUp
        { thread := { connection, setup } } events →
      AlwaysIndicated
          (StepRuns.run (IndicatedSession.step sha256)
            { thread := { connection, setup } } events) ∧
        ∀ event,
          ¬StaysUp
            (StepRuns.run (IndicatedSession.step sha256)
              { thread := { connection, setup } } events)
            event →
          ∃ more,
            ¬AlwaysIndicated
              (StepRuns.run (IndicatedSession.step sha256)
                { thread := { connection, setup } }
                (events ++ event :: more)) := by
  intro staysUp
  have attended :
      Attended
        (StepRuns.run (IndicatedSession.step sha256)
          { thread := { connection, setup } } events) :=
    staysUp.invariant (fun _ _ stays before => before.step stays)
      (attended_initial connection setup)
  refine ⟨attended.indicated, fun event fails => ?_⟩
  obtain ⟨turns, covert⟩ :
      ∃ turns,
        CovertlyAfter sha256
          ((StepRuns.run (IndicatedSession.step sha256)
            { thread := { connection, setup } } events).step sha256 event)
          turns := by
    cases event with
    | session turn => exact covert_after_show attended fails
    | overlay answer => exact covert_after_close attended fails
  refine ⟨turns.map .session, ?_⟩
  rwa [StepRuns.run_append]

/-- While `running_` is not set, `show` looks again, up to its last poll. -/
theorem run_polls
    {sha256 : Bytes → Hash256}
    {world : IndicatedSession}
    {text : Bytes}
    {polls : Nat}
    (next : world.thread.next? = some (.overlayShow text))
    (notRunning : world.overlay.running = false)
    (inCall : world.call = .showing polls)
    (count : Nat)
    (few : polls + count ≤ kShowPolls) :
    StepRuns.run (IndicatedSession.step sha256) world
        (List.replicate count (.session {})) =
      { world with call := .showing (polls + count) } := by
  induction count generalizing world polls with
  | zero =>
      rw [Nat.add_zero, ← inCall]
      rfl
  | succ count inductionHypothesis =>
      have waits : world.showEnds polls = false := by
        have early : ¬kShowPolls ≤ polls :=
          Nat.not_le_of_lt
            (Nat.lt_of_lt_of_le (Nat.lt_add_of_pos_right (Nat.succ_pos count))
              few)
        simp [IndicatedSession.showEnds, notRunning, early]
      have polled :
          world.step sha256 (.session {}) =
            { world with call := .showing (polls + 1) } := by
        simp only [IndicatedSession.step, IndicatedSession.sessionStep, next,
          inCall, waits, Bool.false_eq_true, ↓reduceIte]
      have rest :
          StepRuns.run (IndicatedSession.step sha256)
              { world with call := .showing (polls + 1) }
              (List.replicate count (.session {})) =
            { world with call := .showing (polls + 1 + count) } :=
        inductionHypothesis next notRunning rfl
          (by rwa [Nat.add_assoc, Nat.add_comm 1])
      rw [List.replicate_succ, StepRuns.run_cons, polled, rest, Nat.add_assoc,
        Nat.add_comm 1]

/-- A peer. -/
def somePeer : Accepted where
  number := 0
  fd := 4
  peer := { ip := ascii "127.0.0.1", port := 50000 }

/-- A session that enters full control, up to the start of the banner's thread. -/
def openingShow : List IndicatedEvent :=
  .session {} ::
    (loginTurns {} [] R_AllAccess (.known .fullControl)).flatMap (fun turn =>
      .session turn ::
        match turn.read with
        | .ok m =>
            if m.op = .known .hello then
              [.session {}, .session {}]
            else
              [.session {}, .session {}, .session {}]
        | _ => [])

/-- What follows `show`: the log row, the capture and a mouse event. -/
def mouseAfterShow : List IndicatedEvent :=
  [.session {}, .session {},
    .session { read := .ok ⟨.known .inputMouse, List.replicate 8 0⟩ },
    .session {}, .session {}]

/-- The banner comes up, and the peer moves the mouse. -/
def bannerUp : List IndicatedEvent :=
  openingShow ++ [.overlay {}, .overlay {}, .overlay {}, .session {}] ++
    mouseAfterShow

/-- The window cannot be created. -/
def bannerFails : List IndicatedEvent :=
  openingShow ++ [.overlay { created := false }]

/-- A session after a list of events. -/
def sessionAfter (events : List IndicatedEvent) : IndicatedSession :=
  StepRuns.run (IndicatedSession.step evpSha256)
    { thread := { connection := somePeer, setup := ⟨[], [], [], 0⟩ } } events

theorem mandatory_indicator_bannerUp :
    (.injectMouse 0 0 0, true) ∈ (sessionAfter bannerUp).log ∧
      AlwaysIndicated (sessionAfter bannerUp) :=
  ⟨by decide +kernel,
    (mandatory_indicator evpSha256 somePeer ⟨[], [], [], 0⟩ bannerUp
      (by decide +kernel)).1⟩

/-- A mouse event is injected although the banner was never there. -/
theorem injected_without_banner :
    ¬AlwaysIndicated
      (sessionAfter
        (bannerFails ++
          (List.replicate kShowPolls (.session {}) ++
            .session {} :: mouseAfterShow))) := by
  have gaveUp :
      sessionAfter (bannerFails ++ List.replicate kShowPolls (.session {})) =
        { sessionAfter bannerFails with call := .showing kShowPolls } := by
    have waiting :
        (sessionAfter bannerFails).thread.next? =
            some (.overlayShow
              (ascii "Remote session active  -    from     (Full Control)")) ∧
          (sessionAfter bannerFails).overlay.running = false ∧
          (sessionAfter bannerFails).call = .showing 0 := by
      decide +kernel
    rw [sessionAfter, StepRuns.run_append]
    exact run_polls waiting.1 waiting.2.1 waiting.2.2 kShowPolls (by decide)
  have covert :
      (.injectMouse 0 0 0, false) ∈
        (StepRuns.run (IndicatedSession.step evpSha256)
          { sessionAfter bannerFails with call := .showing kShowPolls }
          (.session {} :: mouseAfterShow)).log := by
    decide +kernel
  intro always
  rw [sessionAfter, ← List.append_assoc, StepRuns.run_append, ← sessionAfter,
    gaveUp] at always
  exact Bool.false_ne_true (always _ _ covert trivial)

end RadminPro
