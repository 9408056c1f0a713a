import RadminPro.ReaderThread
import RadminPro.StepRuns
import RadminPro.WireCodecExact

namespace RadminPro

open ByteCodec
open BufferWindow

/-!
# What the reader thread copies

`FrameData` and `FrameRect` copy bytes of their payload into the frame buffer.
Each copy is a range there and a range in the payload; whatever the server sends,
both lie where they have to, and the sums that are tested do not wrap.
-/

/-- A copy of so many bytes, from a place in a payload to one in the buffer. -/
structure Copy where
  dst : Nat
  src : Nat
  size : Nat

namespace Copy

/-- The buffer after a copy. -/
def perform (data pending : Bytes) (copy : Copy) : Bytes :=
  overlay pending copy.dst (window data copy.src copy.size)

/-- All bytes that are written and read lie inside. -/
structure Inside (pending data : Bytes) (copy : Copy) : Prop where
  written : copy.dst + copy.size ≤ pending.length
  read : copy.src + copy.size ≤ data.length

/-- A copy inside the buffer keeps its size. -/
theorem Inside.length_perform
    {pending data : Bytes}
    {copy : Copy}
    (inside : copy.Inside pending data) :
    (copy.perform data pending).length = pending.length := by
  apply length_overlay
  rw [length_window inside.read]
  exact inside.written

/-- So do copies one after the other. -/
theorem length_foldl
    {pending data : Bytes}
    {copies : List Copy}
    (inside : ∀ copy ∈ copies, copy.Inside pending data) :
    (copies.foldl (fun buffer copy => copy.perform data buffer)
        pending).length =
      pending.length := by
  induction copies generalizing pending with
  | nil =>
      rfl
  | cons copy rest inductionHypothesis =>
      rw [List.forall_mem_cons] at inside
      have same := inside.1.length_perform
      rw [List.foldl_cons, inductionHypothesis, same]
      intro other member
      obtain ⟨written, read⟩ := inside.2 other member
      exact ⟨by rw [same]; exact written, read⟩

end Copy

namespace ViewerState

/-- The copy that a chunk of a keyframe makes, if it passes the test. -/
def dataCopies (st : ViewerState) (fd : FrameDataMsg) : List Copy :=
  if sizeT (fd.offset.toNat + fd.data.length) ≤ st.pending.length then
    [⟨fd.offset.toNat, 0, fd.data.length⟩]
  else
    []

/-- The copy that a row of a tile makes, if it passes the test. -/
def rowCopy? (st : ViewerState) (fr : FrameRectMsg) (r : Nat) : Option Copy :=
  let rowBytes := fr.w.toNat * 4
  let dst := rowOffset (sizeOfInt st.pstride) fr.x.toNat fr.y.toNat r
  let src := r * rowBytes
  if sizeT (dst + rowBytes) ≤ st.pending.length ∧
      sizeT (src + rowBytes) ≤ fr.pixels.length then
    some ⟨dst, src, rowBytes⟩
  else
    none

/-- The copies that a tile makes, row by row. -/
def rectCopies (st : ViewerState) (fr : FrameRectMsg) : List Copy :=
  if st.pstride > 0 ∧ fr.w > 0 ∧ fr.h > 0 then
    (List.range fr.h.toNat).filterMap (st.rowCopy? fr)
  else
    []

/-- What a chunk does: it makes its copies, which are inside. -/
structure DataSafe (st : ViewerState) (fd : FrameDataMsg) : Prop where
  unwrapped :
    sizeT (fd.offset.toNat + fd.data.length) =
      fd.offset.toNat + fd.data.length
  inside : ∀ copy ∈ st.dataCopies fd, copy.Inside st.pending fd.data
  performed :
    (st.frameData fd).pending =
      (st.dataCopies fd).foldl (fun buffer copy => copy.perform fd.data buffer)
        st.pending
  sameSize : (st.frameData fd).pending.length = st.pending.length

/-- What a tile does: the same, with the place of each row as it is meant. -/
structure RectSafe (st : ViewerState) (fr : FrameRectMsg) : Prop where
  unwrapped :
    0 < st.pstride →
    ∀ r < fr.h.toNat,
      sizeT (rowOffset (sizeOfInt st.pstride) fr.x.toNat fr.y.toNat r +
            fr.w.toNat * 4) =
          (fr.y.toNat + r) * st.pstride.toNat + fr.x.toNat * 4 +
            fr.w.toNat * 4 ∧
        sizeT (r * (fr.w.toNat * 4) + fr.w.toNat * 4) =
          r * (fr.w.toNat * 4) + fr.w.toNat * 4
  inside : ∀ copy ∈ st.rectCopies fr, copy.Inside st.pending fr.pixels
  performed :
    (st.frameRect fr).pending =
      (st.rectCopies fr).foldl
        (fun buffer copy => copy.perform fr.pixels buffer) st.pending
  sameSize : (st.frameRect fr).pending.length = st.pending.length

variable {st : ViewerState}

/-- A chunk that was decoded is copied safely. -/
theorem dataSafe
    (st : ViewerState)
    {fd : FrameDataMsg}
    (short : fd.data.length < 2 ^ 32) :
    st.DataSafe fd := by
  have offset := fd.offset.toNat_lt
  have unwrapped :
      sizeT (fd.offset.toNat + fd.data.length) =
        fd.offset.toNat + fd.data.length :=
    Nat.mod_eq_of_lt (by omega)
  have inside : ∀ copy ∈ st.dataCopies fd, copy.Inside st.pending fd.data := by
    intro copy member
    unfold dataCopies at member
    split at member
    · next fits =>
        rw [List.mem_singleton.mp member]
        rw [unwrapped] at fits
        exact ⟨fits, by rw [Nat.zero_add]⟩
    · cases member
  have performed :
      (st.frameData fd).pending =
        (st.dataCopies fd).foldl
          (fun buffer copy => copy.perform fd.data buffer) st.pending := by
    unfold frameData dataCopies
    split
    · simp [Copy.perform, window]
    · rfl
  refine ⟨unwrapped, inside, performed, ?_⟩
  rw [performed]
  exact Copy.length_foldl inside

/-- A tile is copied safely into a buffer of any stride. -/
theorem rectSafe
    {fr : FrameRectMsg}
    (strideFits : st.pstride < 2 ^ 31) :
    st.RectSafe fr := by
  have column := fr.x.toNat_lt
  have row := fr.y.toNat_lt
  have width := fr.w.toNat_lt
  have height := fr.h.toNat_lt
  have place :
      0 < st.pstride →
      ∀ r < fr.h.toNat,
        rowOffset (sizeOfInt st.pstride) fr.x.toNat fr.y.toNat r =
            (fr.y.toNat + r) * st.pstride.toNat + fr.x.toNat * 4 ∧
          (fr.y.toNat + r) * st.pstride.toNat ≤ 2 ^ 17 * 2 ^ 31 := by
    intro positive r inTile
    have asSize : sizeOfInt st.pstride = st.pstride.toNat := by
      rw [sizeOfInt, Int.emod_eq_of_lt (by omega) (by omega)]
    have rowFits : u32 (fr.y.toNat + r) = fr.y.toNat + r :=
      Nat.mod_eq_of_lt (by omega)
    have small :
        (fr.y.toNat + r) * st.pstride.toNat ≤ 2 ^ 17 * 2 ^ 31 :=
      Nat.mul_le_mul (by omega) (by omega)
    refine ⟨?_, small⟩
    rw [rowOffset, rowFits, asSize]
    exact Nat.mod_eq_of_lt (by omega)
  have unwrapped :
      0 < st.pstride →
      ∀ r < fr.h.toNat,
        sizeT (rowOffset (sizeOfInt st.pstride) fr.x.toNat fr.y.toNat r +
              fr.w.toNat * 4) =
            (fr.y.toNat + r) * st.pstride.toNat + fr.x.toNat * 4 +
              fr.w.toNat * 4 ∧
          sizeT (r * (fr.w.toNat * 4) + fr.w.toNat * 4) =
            r * (fr.w.toNat * 4) + fr.w.toNat * 4 := by
    intro positive r inTile
    obtain ⟨offset, small⟩ := place positive r inTile
    have source : r * (fr.w.toNat * 4) ≤ 2 ^ 16 * 2 ^ 18 :=
      Nat.mul_le_mul (by omega) (by omega)
    rw [offset]
    exact ⟨Nat.mod_eq_of_lt (by omega), Nat.mod_eq_of_lt (by omega)⟩
  have inside :
      ∀ copy ∈ st.rectCopies fr, copy.Inside st.pending fr.pixels := by
    intro copy member
    unfold rectCopies at member
    split at member
    · next blits =>
        obtain ⟨r, isRow, made⟩ := List.mem_filterMap.mp member
        have inTile := List.mem_range.mp isRow
        obtain ⟨target, source⟩ := unwrapped blits.1 r inTile
        obtain ⟨offset, -⟩ := place blits.1 r inTile
        unfold rowCopy? at made
        dsimp only at made
        rw [target, source] at made
        split at made
        · next fits =>
            rw [← Option.some.inj made]
            refine ⟨?_, fits.2⟩
            dsimp only
            rw [offset]
            exact fits.1
        · cases made
    · cases member
  have performed :
      (st.frameRect fr).pending =
        (st.rectCopies fr).foldl
          (fun buffer copy => copy.perform fr.pixels buffer) st.pending := by
    unfold frameRect rectCopies at *
    split
    · next blits =>
        rw [if_pos blits] at inside
        -- Row by row: the buffer keeps the size that the tests compare with.
        have rows :
            ∀ (indices : List Nat) (buffer : Bytes),
              buffer.length = st.pending.length →
              (∀ copy ∈ indices.filterMap (st.rowCopy? fr),
                copy.Inside st.pending fr.pixels) →
              indices.foldl (blitRow st.pstride fr) buffer =
                (indices.filterMap (st.rowCopy? fr)).foldl
                  (fun buffer copy => copy.perform fr.pixels buffer) buffer := by
          intro indices
          induction indices with
          | nil =>
              exact fun _ _ _ => rfl
          | cons r rest inductionHypothesis =>
              intro buffer sameSize allInside
              rw [List.foldl_cons]
              cases made : st.rowCopy? fr r with
              | none =>
                  rw [List.filterMap_cons_none made] at allInside ⊢
                  have untouched : blitRow st.pstride fr buffer r = buffer := by
                    unfold rowCopy? at made
                    dsimp only at made
                    split at made
                    · cases made
                    · next fails =>
                        rw [← sameSize] at fails
                        exact if_neg fails
                  rw [untouched]
                  exact inductionHypothesis buffer sameSize allInside
              | some copy =>
                  rw [List.filterMap_cons_some made] at allInside ⊢
                  rw [List.forall_mem_cons] at allInside
                  have copied :
                      blitRow st.pstride fr buffer r =
                        copy.perform fr.pixels buffer := by
                    unfold rowCopy? at made
                    dsimp only at made
                    split at made
                    · next fits =>
                        rw [← Option.some.inj made]
                        rw [← sameSize] at fits
                        exact if_pos fits
                    · cases made
                  have insideBuffer : copy.Inside buffer fr.pixels :=
                    ⟨by rw [sameSize]; exact allInside.1.written,
                      allInside.1.read⟩
                  rw [List.foldl_cons, copied]
                  apply inductionHypothesis
                  · rw [insideBuffer.length_perform, sameSize]
                  · exact allInside.2
        exact rows _ _ rfl inside
    · rfl
  refine ⟨unwrapped, inside, performed, ?_⟩
  rw [performed]
  exact Copy.length_foldl inside

/-! ## What is being assembled -/

/-- A buffer of the geometry that was announced last. -/
structure Assembled (st : ViewerState) : Prop where
  width : 0 ≤ st.pw
  height : 0 ≤ st.ph
  stride : st.pstride < 2 ^ 31
  size : (st.pending.length : Int) = st.pstride * st.ph

/-- Nothing has been announced yet. -/
theorem assembled_start : Assembled {} :=
  ⟨Int.le_refl 0, Int.le_refl 0, by decide, rfl⟩

/-- A keyframe that finds its memory begins with a buffer of its geometry. -/
theorem assembled_frameInfo
    {heap : Nat → Bool}
    {fi : FrameInfoMsg}
    {next : ViewerState}
    (begun : st.frameInfo heap fi = .ok next) :
    Assembled next := by
  simp only [frameInfo, bind, Except.bind, assignZeros] at begun
  have fine : fi.height = 0 ∨ fi.stride.toNat < 2 ^ 31 := by
    by_contra neither
    rw [not_or, Nat.not_lt] at neither
    have tooLong :=
      ReaderThread.keyframe_too_long neither.1 neither.2
    rw [if_pos tooLong] at begun
    cases begun
  have fits := ReaderThread.keyframe_fits fine
  rw [ReaderThread.keyframe_size fine, if_neg (Nat.not_lt.mpr fits)] at begun
  split at begun
  · cases begun
  · next pending isPending =>
      split at isPending
      · obtain rfl := Except.ok.inj isPending
        obtain rfl := Except.ok.inj begun
        have narrow : intOfU32 fi.stride < 2 ^ 31 :=
          BitVec.toInt_lt
        refine ⟨Int.natCast_nonneg _, Int.natCast_nonneg _, narrow, ?_⟩
        rw [List.length_replicate]
        rcases fine with noRows | positive
        · simp [noRows]
        · have asInt : intOfU32 fi.stride = fi.stride.toNat :=
            BitVec.toInt_eq_toNat_of_lt (by simp; omega)
          rw [asInt]
          exact Int.natCast_mul _ _
      · cases isPending

/-- Chunks and tiles keep its size. -/
theorem Assembled.frameData
    (assembled : Assembled st)
    {fd : FrameDataMsg}
    (short : fd.data.length < 2 ^ 32) :
    Assembled (st.frameData fd) := by
  have sameSize := (st.dataSafe short).sameSize
  obtain ⟨width, height, stride, size⟩ := assembled
  unfold ViewerState.frameData at sameSize ⊢
  split
  · next fits =>
      rw [if_pos fits] at sameSize
      exact ⟨width, height, stride, by rw [sameSize]; exact size⟩
  · exact ⟨width, height, stride, size⟩

theorem Assembled.frameRect
    (assembled : Assembled st)
    (fr : FrameRectMsg) :
    Assembled (st.frameRect fr) := by
  have rectSafe : st.RectSafe fr :=
    ViewerState.rectSafe assembled.stride
  have sameSize := rectSafe.sameSize
  obtain ⟨width, height, stride, size⟩ := assembled
  unfold ViewerState.frameRect at sameSize ⊢
  split
  · next blits =>
      rw [if_pos blits] at sameSize
      exact ⟨width, height, stride, by rw [sameSize]; exact size⟩
  · exact ⟨width, height, stride, size⟩

/-- A finished frame is still there to be worked on. -/
theorem Assembled.frameEnd
    (assembled : Assembled st) :
    Assembled st.frameEnd :=
  ⟨assembled.width, assembled.height, assembled.stride, assembled.size⟩

/-- So does every message that is taken. -/
theorem Assembled.readerStep
    (assembled : Assembled st)
    {heap : Nat → Bool}
    {m : Message}
    {next : ViewerState}
    (taken : readerStep heap st m = .ok (.running next)) :
    Assembled next := by
  unfold RadminPro.readerStep at taken
  split at taken
  · cases decoded : FrameInfoMsg.decode m.payload with
    | error error =>
        simp [decoded, throwing, bind, Except.bind] at taken
    | ok fi =>
        simp only [decoded, throwing, bind, Except.bind] at taken
        split at taken
        · cases taken
        · next begun isBegun =>
            obtain rfl := Reader.running.inj (Except.ok.inj taken)
            exact assembled_frameInfo isBegun
  · cases decoded : FrameDataMsg.decode m.payload with
    | error error =>
        simp [decoded, throwing, bind, Except.bind] at taken
    | ok fd =>
        simp only [decoded, throwing, bind, Except.bind] at taken
        obtain rfl := Reader.running.inj (Except.ok.inj taken)
        exact assembled.frameData (FrameDataMsg.decode_ok_iff.mp decoded).1
  · cases decoded : FrameRectMsg.decode m.payload with
    | error error =>
        simp [decoded, throwing, bind, Except.bind] at taken
    | ok fr =>
        simp only [decoded, throwing, bind, Except.bind] at taken
        obtain rfl := Reader.running.inj (Except.ok.inj taken)
        exact assembled.frameRect fr
  · obtain rfl := Reader.running.inj (Except.ok.inj taken)
    exact assembled.frameEnd
  · cases Except.ok.inj taken
  · cases Except.ok.inj taken
  · obtain rfl := Reader.running.inj (Except.ok.inj taken)
    exact assembled

end ViewerState

namespace ReaderThread

/-- What the window's thread finds, unless an exception has ended the process. -/
def viewer? (thread : ReaderThread) : Option ViewerState :=
  match thread.reader with
  | .running st | .stopped st => some st
  | .escaped _ => none

/-- The frame buffer is one of the announced geometry. -/
def Sized (thread : ReaderThread) : Prop :=
  ∀ st, thread.viewer? = some st → st.Assembled

/-- Every pass of the loop keeps it so. -/
theorem Sized.step
    {thread : ReaderThread}
    (sized : thread.Sized)
    (turn : ReaderTurn) :
    (thread.step turn).Sized := by
  intro after isAfter
  cases isReader : thread.reader with
  | escaped exception =>
      simp [ReaderThread.step, isReader, viewer?] at isAfter
  | stopped st =>
      have same : thread.step turn = thread := by
        simp only [ReaderThread.step, isReader]
      rw [same] at isAfter
      exact sized after isAfter
  | running st =>
      have assembled : st.Assembled := by
        apply sized
        simp [viewer?, isReader]
      have finished :
          ∀ other,
            (thread.finish st).viewer? = some other → other.Assembled := by
        intro other isOther
        obtain rfl := Option.some.inj isOther
        exact assembled
      simp only [ReaderThread.step, isReader] at isAfter
      split at isAfter
      · exact finished after isAfter
      · split at isAfter
        · exact finished after isAfter
        · next m _ =>
            unfold receive at isAfter
            split at isAfter
            · simp [viewer?] at isAfter
            · split at isAfter
              · simp [viewer?] at isAfter
              · next next taken =>
                  obtain rfl := Option.some.inj isAfter
                  exact assembled.readerStep taken
              · exact finished after isAfter

/-- So does a whole run of the thread. -/
theorem sized_run
    (turns : List ReaderTurn) :
    (StepRuns.run ReaderThread.step {} turns).Sized := by
  refine StepRuns.run_invariant Sized (fun thread turn sized => sized.step turn)
    ?_ turns
  intro st isStart
  obtain rfl := Option.some.inj isStart
  exact ViewerState.assembled_start

/--
Whatever has been read, what the next chunk or tile writes lies inside the frame
buffer, what it reads inside its payload, no tested sum wraps, and the buffer
keeps its size.
-/
theorem assembly_bounds_safe
    (turns : List ReaderTurn)
    (st : ViewerState)
    (reached : (StepRuns.run ReaderThread.step {} turns).reader = .running st)
    (payload : Bytes) :
    (∀ fd, FrameDataMsg.decode payload = .ok fd → st.DataSafe fd) ∧
      ∀ fr, FrameRectMsg.decode payload = .ok fr → st.RectSafe fr := by
  have assembled : st.Assembled := by
    apply sized_run turns
    simp [viewer?, reached]
  exact
    ⟨fun fd decoded => st.dataSafe (FrameDataMsg.decode_ok_iff.mp decoded).1,
      fun fr _ => ViewerState.rectSafe assembled.stride⟩

/-- A frame of two by two pixels is announced and its right half filled. -/
def rightHalfTurns : List ReaderTurn :=
  [{ read :=
      some
        ⟨.known .frameInfo,
          FrameInfoMsg.encode { width := 2, height := 2, stride := 8 }⟩ },
    { read :=
        some
          ⟨.known .frameRect,
            FrameRectMsg.encode
              { x := 1, w := 1, h := 2, pixels := [1, 2, 3, 4, 5, 6, 7, 8] }⟩ }]

/-- The buffer then. -/
def rightHalfState : ViewerState where
  pending := [0, 0, 0, 0, 1, 2, 3, 4, 0, 0, 0, 0, 5, 6, 7, 8]
  pw := 2
  ph := 2
  pstride := 8
  remoteW := 2
  remoteH := 2

/-- A tile of which only the first row lies inside. -/
def overhangingTile : FrameRectMsg where
  x := 1
  y := 1
  w := 1
  h := 2
  pixels := [9, 9, 9, 9, 9, 9, 9, 9]

/-- A chunk that ends behind the buffer. -/
def overhangingChunk : FrameDataMsg where
  offset := 12
  data := [9, 9, 9, 9, 9]

/-- Of the tile one row is copied, of the chunk nothing. -/
theorem assembly_bounds_safe_overhanging :
    (StepRuns.run ReaderThread.step {} rightHalfTurns).reader =
        .running rightHalfState ∧
      ((rightHalfState.rectCopies overhangingTile).map fun copy =>
          (copy.dst, copy.src, copy.size)) =
        [(12, 0, 4)] ∧
      rightHalfState.RectSafe overhangingTile ∧
      (rightHalfState.dataCopies overhangingChunk).length = 0 ∧
      rightHalfState.DataSafe overhangingChunk := by
  have reached :
      (StepRuns.run ReaderThread.step {} rightHalfTurns).reader =
        .running rightHalfState := by
    decide +kernel
  refine ⟨reached, by decide, ?_, by decide, ?_⟩
  · exact
      (assembly_bounds_safe rightHalfTurns rightHalfState reached
        overhangingTile.encode).2 overhangingTile (by decide +kernel)
  · exact
      (assembly_bounds_safe rightHalfTurns rightHalfState reached
        overhangingChunk.encode).1 overhangingChunk (by decide +kernel)

end ReaderThread

end RadminPro
