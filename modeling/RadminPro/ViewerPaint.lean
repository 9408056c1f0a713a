import RadminPro.ReaderAccess

namespace RadminPro

open ByteCodec

/-!
# Painting a frame

The window's thread paints the frame that was finished last: `width * height`
pixels of a buffer that was made for `stride * height` bytes.  The server
announces the two independently.
-/

/-- What is passed to `StretchDIBits`. -/
structure Blit where
  w : Int
  h : Int
  bits : Bytes
  deriving DecidableEq

/-- `WM_PAINT` of `viewerProc`: an empty frame is not painted. -/
def ViewerState.paint (st : ViewerState) : Option Blit :=
  if !st.front.isEmpty ∧ st.w > 0 ∧ st.h > 0 then
    some { w := st.w, h := st.h, bits := st.front }
  else
    none

/-- All pixels that are read lie in the buffer. -/
def Blit.Covered (blit : Blit) : Prop :=
  4 * blit.w * blit.h ≤ blit.bits.length

namespace ViewerState

variable {st : ViewerState}

/-- Whatever is painted lies in the buffer. -/
def PaintsInside (st : ViewerState) : Prop :=
  ∀ blit, st.paint = some blit → blit.Covered

/-- A row of the announced frame holds its pixels, or there is no frame. -/
def GeometryFits (st : ViewerState) : Prop :=
  st.pw ≤ 0 ∨ st.ph ≤ 0 ∨ st.pstride ≤ 0 ∨ 4 * st.pw ≤ st.pstride

/-- What is painted depends on the finished frame only. -/
theorem paint_congr
    {other : ViewerState}
    (front : other.front = st.front)
    (width : other.w = st.w)
    (height : other.h = st.h) :
    other.paint = st.paint := by
  rw [paint, paint, front, width, height]

/-- A finished frame is painted inside its buffer if its geometry fits. -/
theorem paintsInside_frameEnd_iff
    (assembled : st.Assembled) :
    st.frameEnd.PaintsInside ↔ st.GeometryFits := by
  have size := assembled.size
  by_cases visible : 0 < st.pw ∧ 0 < st.ph ∧ 0 < st.pstride
  · obtain ⟨someColumn, someRow, someStride⟩ := visible
    have someBytes : 0 < st.pending.length := by
      have product := Int.mul_pos someStride someRow
      omega
    have painted :
        st.frameEnd.paint =
          some { w := st.pw, h := st.ph, bits := st.pending } := by
      apply if_pos
      refine ⟨?_, someColumn, someRow⟩
      simpa [frameEnd] using List.ne_nil_of_length_pos someBytes
    have fits : st.GeometryFits ↔ 4 * st.pw ≤ st.pstride := by
      simp only [GeometryFits, Int.not_le.mpr someColumn,
        Int.not_le.mpr someRow, Int.not_le.mpr someStride, false_or]
    rw [PaintsInside, painted, fits]
    simp only [Option.some.injEq, forall_eq', Blit.Covered, size]
    exact mul_le_mul_iff_of_pos_right someRow
  · have fits : st.GeometryFits := by
      unfold GeometryFits
      omega
    refine iff_of_true ?_ fits
    intro blit painted
    unfold paint at painted
    split at painted
    · next shown =>
        obtain ⟨nonempty, someColumn, someRow⟩ := shown
        have noStride : st.pstride ≤ 0 := by
          simp only [frameEnd] at someColumn someRow
          omega
        have noBytes : st.pending.length = 0 := by
          have product := Int.mul_nonpos_of_nonpos_of_nonneg noStride
            assembled.height
          omega
        rw [List.length_eq_zero_iff] at noBytes
        simp [frameEnd, noBytes] at nonempty
    · cases painted

/-- Only the end of a frame changes what is painted. -/
theorem paint_readerStep
    {heap : Nat → Bool}
    {m : Message}
    {next : ViewerState}
    (notEnd : m.op ≠ .known .frameEnd)
    (taken : readerStep heap st m = .ok (.running next)) :
    next.paint = st.paint := by
  unfold readerStep at taken
  split at taken
  · cases decoded : FrameInfoMsg.decode m.payload with
    | error error =>
        simp [decoded, throwing, bind, Except.bind] at taken
    | ok fi =>
        simp only [decoded, throwing, bind, Except.bind, frameInfo] at taken
        cases assigned :
            assignZeros heap
              (sizeT (sizeOfInt (intOfU32 fi.stride) *
                sizeOfInt fi.height.toNat)) with
        | error exception =>
            simp [assigned] at taken
        | ok pending =>
            simp only [assigned] at taken
            obtain rfl := Reader.running.inj (Except.ok.inj taken)
            exact paint_congr rfl rfl rfl
  · cases decoded : FrameDataMsg.decode m.payload with
    | error error =>
        simp [decoded, throwing, bind, Except.bind] at taken
    | ok fd =>
        simp only [decoded, throwing, bind, Except.bind] at taken
        obtain rfl := Reader.running.inj (Except.ok.inj taken)
        unfold frameData
        split
        · exact paint_congr rfl rfl rfl
        · rfl
  · cases decoded : FrameRectMsg.decode m.payload with
    | error error =>
        simp [decoded, throwing, bind, Except.bind] at taken
    | ok fr =>
        simp only [decoded, throwing, bind, Except.bind] at taken
        obtain rfl := Reader.running.inj (Except.ok.inj taken)
        unfold frameRect
        split
        · exact paint_congr rfl rfl rfl
        · rfl
  · next isEnd =>
      exact absurd isEnd notEnd
  · cases Except.ok.inj taken
  · cases Except.ok.inj taken
  · obtain rfl := Reader.running.inj (Except.ok.inj taken)
    rfl

end ViewerState

namespace ReaderThread

/-- The window's thread paints inside the buffer. -/
def PaintsInside (thread : ReaderThread) : Prop :=
  ∀ st, thread.viewer? = some st → st.PaintsInside

/-- A frame that ends, and finds memory for its copy, has a geometry that fits. -/
def FittingEnd (thread : ReaderThread) (turn : ReaderTurn) : Prop :=
  ∀ st m,
    thread.reader = .running st →
    turn.closing = false →
    turn.read = some m →
    m.op = .known .frameEnd →
    frameCopied turn.heap st = true →
    st.GeometryFits

/-- A message is taken without harm exactly when it ends no frame that misfits. -/
theorem receive_paintsInside_iff
    {thread : ReaderThread}
    {st : ViewerState}
    (heap : Nat → Bool)
    (m : Message)
    (assembled : st.Assembled)
    (inside : st.PaintsInside) :
    (thread.receive heap st m).PaintsInside ↔
      (m.op = .known .frameEnd →
        frameCopied heap st = true → st.GeometryFits) := by
  by_cases isEnd : m.op = .known .frameEnd
  · cases copied : frameCopied heap st with
    | false =>
        rw [receive, if_pos ⟨isEnd, copied⟩]
        refine iff_of_true ?_ (by simp)
        intro other isOther
        cases isOther
    | true =>
        have taken :
            readerStep heap st m = .ok (.running st.frameEnd) := by
          simp [readerStep, isEnd]
        have shown :
            (thread.receive heap st m).viewer? = some st.frameEnd := by
          simp [receive, copied, taken, viewer?]
        simp only [PaintsInside, shown, Option.some.injEq, forall_eq', isEnd,
          true_imp_iff]
        exact ViewerState.paintsInside_frameEnd_iff assembled
  · refine iff_of_true ?_ fun same => absurd same isEnd
    intro other isOther
    rw [receive, if_neg fun both => isEnd both.1] at isOther
    split at isOther
    · cases isOther
    · next next taken =>
        obtain rfl := Option.some.inj isOther
        intro blit painted
        rw [ViewerState.paint_readerStep isEnd taken] at painted
        exact inside blit painted
    · obtain rfl := Option.some.inj isOther
      exact inside

/-- Nothing else is painted outside. -/
theorem step_paintsInside_iff
    (thread : ReaderThread)
    (turn : ReaderTurn)
    (sized : thread.Sized)
    (inside : thread.PaintsInside) :
    (thread.step turn).PaintsInside ↔ thread.FittingEnd turn := by
  cases isReader : thread.reader with
  | stopped st | escaped exception =>
      have same : thread.step turn = thread := by
        simp only [step, isReader]
      rw [same]
      refine iff_of_true inside ?_
      intro other m isRunning
      rw [isReader] at isRunning
      cases isRunning
  | running st =>
      have isViewer : thread.viewer? = some st := by
        simp [viewer?, isReader]
      have stInside := inside st isViewer
      have finished : (thread.finish st).PaintsInside := by
        intro other isOther
        obtain rfl := Option.some.inj isOther
        exact stInside
      simp only [step, isReader]
      cases closing : turn.closing with
      | true =>
          refine iff_of_true finished ?_
          intro other m _ notClosing
          rw [closing] at notClosing
          cases notClosing
      | false =>
          cases read : turn.read with
          | none =>
              refine iff_of_true finished ?_
              intro other m _ _ isRead
              rw [read] at isRead
              cases isRead
          | some m =>
              simp only [Bool.false_eq_true, ↓reduceIte]
              rw [receive_paintsInside_iff turn.heap m (sized st isViewer)
                stInside]
              constructor
              · intro fits other message isRunning _ isRead isEnd copied
                rw [isReader] at isRunning
                rw [read] at isRead
                obtain rfl := Reader.running.inj isRunning
                obtain rfl := Option.some.inj isRead
                exact fits isEnd copied
              · exact fun fitting =>
                  fitting st m isReader closing read

/--
The window is painted inside its buffer all along a run exactly when every frame
that ends was announced with rows that hold its pixels.
-/
theorem painting_inside_iff
    (turns : List ReaderTurn) :
    (∀ earlier later,
        turns = earlier ++ later →
        (StepRuns.run ReaderThread.step {} earlier).PaintsInside) ↔
      StepRuns.Allowed ReaderThread.step FittingEnd {} turns := by
  refine StepRuns.always_iff_allowed
    (fun thread turn sized => Sized.step sized turn) step_paintsInside_iff
    (sized_run []) ?_ turns
  intro st isStart blit painted
  obtain rfl := Option.some.inj isStart
  cases painted

/-- A frame of two pixels whose rows are one pixel long. -/
def narrowRows : List ReaderTurn :=
  [{ read :=
      some
        ⟨.known .frameInfo,
          FrameInfoMsg.encode { width := 2, height := 1, stride := 4 }⟩ },
    { read := some ⟨.known .frameEnd, []⟩ }]

/-- Eight bytes are read from a buffer of four. -/
theorem painted_past_the_end :
    ¬∀ earlier later,
      narrowRows = earlier ++ later →
      (StepRuns.run ReaderThread.step {} earlier).PaintsInside := by
  intro always
  have shown :
      (StepRuns.run ReaderThread.step {} narrowRows).viewer?.bind
          ViewerState.paint =
        some { w := 2, h := 1, bits := [0, 0, 0, 0] } := by
    decide +kernel
  obtain ⟨st, isViewer, painted⟩ := Option.bind_eq_some_iff.mp shown
  have covered := always narrowRows [] (by simp) st isViewer _ painted
  simp [Blit.Covered] at covered

end ReaderThread

end RadminPro
