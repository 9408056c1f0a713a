import RadminPro.TileCover
import RadminPro.ViewerReader
import RadminPro.WireCodecExact

namespace RadminPro

open ByteCodec
open BufferWindow

/-!
# The viewer mirrors the screen

The streamer and the viewer are run against each other: every message that is
sent is read by the viewer at once and in order.  A keyframe brings the viewer
to the state of the streamer's own mirror, and a delta changes both alike.
-/

/-- The connection between streamer and viewer, with the messages sent so far. -/
structure Link where
  reader : Reader := .running {}
  sent : List Message := []

/-- Deliver a message to the viewer. -/
def Link.deliver (heap : Nat → Bool) : SendFn Link :=
  fun link op payload =>
    (true,
      { reader := link.reader.read heap ⟨op, payload⟩
        sent := link.sent ++ [⟨op, payload⟩] })

/-- Both sides, the outcome of the last step and the last frame acquired. -/
structure Mirror where
  streamer : VideoStreamer := {}
  link : Link := {}
  lastStep : Option StreamStep := none
  lastFrame : Option Frame := none

/-- One `streamOnce` on a capture result. -/
def Mirror.capture
    (heap : Nat → Bool)
    (mirror : Mirror)
    (result : CaptureResult) : Option Mirror := do
  let (step, streamer, link) ←
    mirror.streamer.streamOnce (Link.deliver heap) mirror.link result
  return {
    streamer
    link
    lastStep := some step
    lastFrame :=
      match result with
      | .ok frame => some frame
      | .timeout | .lost | .error => mirror.lastFrame }

/-- A frame of this message fits the cap of the transport. -/
def FitsFrame (m : Message) : Prop :=
  1 + m.payload.length ≤ kMaxMessageSize

/-- A capture result of a run: a timeout, a loss or a frame within the limits. -/
def Capturable : CaptureResult → Prop
  | .ok frame => Acquired frame
  | .timeout | .lost => True
  | .error => False

/-- The viewer shows exactly this frame. -/
structure Shows (reader : Reader) (frame : Frame) : Prop where
  shown :
    ∃ st,
      reader = .running st ∧ st.front = frame.pixels ∧
        st.w = frame.width ∧ st.h = frame.height

/--
What is promised after every step: the messages fit the cap, and the viewer
shows the last frame whenever one was just sent, or when nothing was sent and a
keyframe had been sent before.
-/
structure Mirrors (mirror : Mirror) : Prop where
  fits : ∀ m ∈ mirror.link.sent, FitsFrame m
  shows :
    mirror.lastStep = some .sent ∨
        (mirror.lastStep = some .skipped ∧
          ∃ m ∈ mirror.link.sent, m.op = .known .frameInfo) →
      ∃ frame, mirror.lastFrame = some frame ∧ Shows mirror.link.reader frame

section Delivery

variable {heap : Nat → Bool}

/-- Messages that are all taken reach the viewer one after the other. -/
theorem sendAll_deliver
    (link : Link)
    (messages : List (Op × Bytes)) :
    sendAll (Link.deliver heap) link messages =
      (true,
        { reader := link.reader.readAll heap messages
          sent := link.sent ++ messages.map fun m => ⟨m.1, m.2⟩ }) := by
  induction messages generalizing link with
  | nil =>
      simp [sendAll, Reader.readAll]
  | cons m rest inductionHypothesis =>
      obtain ⟨op, payload⟩ := m
      rw [sendAll]
      simp [Link.deliver, inductionHypothesis, Reader.readAll]

/-- The viewer decodes the announcement of a keyframe. -/
theorem read_frameInfo
    (st : ViewerState)
    (fi : FrameInfoMsg) :
    (Reader.running st).read heap ⟨.known .frameInfo, fi.encode⟩ =
      match st.frameInfo heap fi with
      | .ok next => .running next
      | .error exception => .escaped exception := by
  have decoded : FrameInfoMsg.decode fi.encode = .ok fi := by
    rw [FrameInfoMsg.decode_ok_iff]
    refine ⟨if fi.keyframe then 1 else 0, [], ?_, by
      simp [FrameInfoMsg.encode]⟩
    cases fi.keyframe <;> rfl
  simp only [Reader.read, readerStep, decoded, throwing, bind, Except.bind]
  cases st.frameInfo heap fi <;> rfl

/-- The viewer decodes a chunk. -/
theorem read_frameData
    (st : ViewerState)
    {fd : FrameDataMsg}
    (short : fd.data.length < 2 ^ 32) :
    (Reader.running st).read heap ⟨.known .frameData, fd.encode⟩ =
      .running (st.frameData fd) := by
  have decoded : FrameDataMsg.decode fd.encode = .ok fd :=
    FrameDataMsg.decode_ok_iff.mpr ⟨short, [], by simp⟩
  simp only [Reader.read, readerStep, decoded, throwing, bind, Except.bind]
  rfl

/-- The viewer decodes a delta tile. -/
theorem read_frameRect
    (st : ViewerState)
    {fr : FrameRectMsg}
    (short : fr.pixels.length < 2 ^ 32) :
    (Reader.running st).read heap ⟨.known .frameRect, fr.encode⟩ =
      .running (st.frameRect fr) := by
  have decoded : FrameRectMsg.decode fr.encode = .ok fr :=
    FrameRectMsg.decode_ok_iff.mpr ⟨short, [], by simp⟩
  simp only [Reader.read, readerStep, decoded, throwing, bind, Except.bind]
  rfl

end Delivery

section Frames

variable {heap : Nat → Bool} {frame : Frame}

/-- A frame of the largest texture takes a gibibyte. -/
theorem Acquired.size_le
    (acquired : Acquired frame) :
    frame.pixels.length ≤ 2 ^ 30 := by
  have widthLimit := acquired.widthLimit
  have strideLimit : frame.stride ≤ 65536 := by
    have := acquired.stride
    omega
  rw [acquired.pixels]
  exact (Nat.mul_le_mul strideLimit acquired.heightLimit).trans (by norm_num)

/-- The announcement of a frame gives the viewer an empty buffer of its size. -/
theorem frameInfo_infoMessage
    (acquired : Acquired frame)
    (room : ∀ size, size ≤ 2 ^ 30 → heap size = true)
    (seq : UInt32)
    (st : ViewerState) :
    st.frameInfo heap (infoMessage seq frame) =
      .ok { st with
        pw := frame.width
        ph := frame.height
        pstride := frame.stride
        pending := List.replicate frame.pixels.length 0
        remoteW := frame.width
        remoteH := frame.height } := by
  have widthLimit := acquired.widthLimit
  have heightLimit := acquired.heightLimit
  have strideShape := acquired.stride
  have sizeLimit := acquired.size_le
  have width : (UInt16.ofNat frame.width).toNat = frame.width :=
    UInt16.toNat_ofNat_of_lt' (by simp [UInt16.size]; omega)
  have height : (UInt16.ofNat frame.height).toNat = frame.height :=
    UInt16.toNat_ofNat_of_lt' (by simp [UInt16.size]; omega)
  have stride : intOfU32 (UInt32.ofNat frame.stride) = frame.stride := by
    rw [intOfU32, BitVec.toInt_eq_toNat_of_lt]
    · simp
      omega
    · simp
      omega
  have size :
      sizeT (sizeOfInt frame.stride * sizeOfInt frame.height) =
        frame.pixels.length := by
    rw [sizeOfInt_natCast (by omega), sizeOfInt_natCast (by omega),
      ← acquired.pixels]
    exact Nat.mod_eq_of_lt (by omega)
  have notHuge : ¬frame.pixels.length > vectorMaxSize := by
    unfold vectorMaxSize
    omega
  simp [ViewerState.frameInfo, infoMessage, width, height, stride, size,
    assignZeros, notHuge, room _ sizeLimit, bind, Except.bind]
  rfl

/-- The byte range of the chunk at an offset. -/
def chunkWindow (total off : Nat) : Nat × Nat :=
  (off, min kVideoChunkSize (total - off))

/-- Chunks that start inside the frame are copied into the pending frame. -/
theorem read_chunks
    (heap : Nat → Bool)
    (acquired : Acquired frame)
    (seq : UInt32)
    (st : ViewerState)
    (sameLength : st.pending.length = frame.pixels.length)
    {offsets : List Nat}
    (inside : ∀ off ∈ offsets, off < frame.pixels.length) :
    (Reader.running st).readAll heap
        (offsets.map fun off =>
          (.known .frameData, (chunkMessage seq frame off).encode)) =
      .running { st with
        pending :=
          copyWindows frame.pixels st.pending
            (offsets.map (chunkWindow frame.pixels.length)) } := by
  have sizeLimit := acquired.size_le
  induction offsets generalizing st with
  | nil =>
      rfl
  | cons off rest inductionHypothesis =>
      have headInside := inside off List.mem_cons_self
      have windowInside :
          off + min kVideoChunkSize (frame.pixels.length - off) ≤
            frame.pixels.length := by
        omega
      have dataLength :
          (chunkMessage seq frame off).data.length =
            min kVideoChunkSize (frame.pixels.length - off) :=
        length_window windowInside
      have offset : (chunkMessage seq frame off).offset.toNat = off := by
        simp [chunkMessage]
        omega
      have copied :
          st.frameData (chunkMessage seq frame off) =
            { st with
              pending :=
                copyWindow frame.pixels st.pending off
                  (min kVideoChunkSize (frame.pixels.length - off)) } := by
        have fits :
            sizeT ((chunkMessage seq frame off).offset.toNat +
              (chunkMessage seq frame off).data.length) ≤
                st.pending.length := by
          rw [offset, dataLength, sameLength]
          exact (Nat.mod_le _ _).trans windowInside
        rw [ViewerState.frameData, if_pos fits, offset]
        rfl
      rw [Reader.readAll, List.map_cons, List.foldl_cons,
        read_frameData st (by rw [dataLength]; omega), copied]
      refine inductionHypothesis _ ?_ fun other member =>
        inside other (List.mem_cons_of_mem _ member)
      rw [length_copyWindow sameLength windowInside, sameLength]

/-- The chunks of a frame lie inside it and cover it. -/
theorem copyWindows_chunkOffsets
    {pixels pending : Bytes}
    (sameLength : pending.length = pixels.length) :
    copyWindows pixels pending
        ((chunkOffsets pixels.length).map (chunkWindow pixels.length)) =
      pixels := by
  have inside :
      ∀ range ∈ (chunkOffsets pixels.length).map (chunkWindow pixels.length),
        range.1 + range.2 ≤ pixels.length := by
    intro range member
    obtain ⟨off, isOffset, rfl⟩ := List.mem_map.mp member
    obtain ⟨index, isIndex, rfl⟩ := List.mem_map.mp isOffset
    rw [List.mem_range] at isIndex
    simp only [chunkWindow, kVideoChunkSize] at *
    omega
  refine eq_of_agreeAt (length_copyWindows sameLength inside)
    fun position inFrame => agreeAt_copyWindows sameLength inside (.inr ?_)
  refine ⟨chunkWindow pixels.length
      (position / kVideoChunkSize * kVideoChunkSize),
    List.mem_map_of_mem (List.mem_map_of_mem (List.mem_range.mpr ?_)), ?_, ?_⟩ <;>
    simp only [chunkWindow, kVideoChunkSize] <;>
    omega

/-- The viewer after a keyframe. -/
def afterKeyframe (st : ViewerState) (frame : Frame) : ViewerState :=
  { st with
    w := frame.width
    h := frame.height
    stride := frame.stride
    front := frame.pixels
    pending := frame.pixels
    pw := frame.width
    ph := frame.height
    pstride := frame.stride
    remoteW := frame.width
    remoteH := frame.height }

/-- A keyframe brings the viewer to the frame. -/
theorem read_keyframe
    (heap : Nat → Bool)
    (acquired : Acquired frame)
    (room : ∀ size, size ≤ 2 ^ 30 → heap size = true)
    (seq : UInt32)
    (st : ViewerState) :
    (Reader.running st).readAll heap (keyframeMessages seq frame) =
      .running (afterKeyframe st frame) := by
  have offsetsInside :
      ∀ off ∈ chunkOffsets frame.pixels.length, off < frame.pixels.length := by
    intro off member
    obtain ⟨index, isIndex, rfl⟩ := List.mem_map.mp member
    rw [List.mem_range] at isIndex
    unfold kVideoChunkSize at *
    omega
  have blank :
      (List.replicate frame.pixels.length (0 : UInt8)).length =
        frame.pixels.length :=
    List.length_replicate
  have chunks := read_chunks heap acquired seq
    { st with
      pw := frame.width
      ph := frame.height
      pstride := frame.stride
      pending := List.replicate frame.pixels.length 0
      remoteW := frame.width
      remoteH := frame.height } blank offsetsInside
  rw [copyWindows_chunkOffsets blank, Reader.readAll] at chunks
  rw [Reader.readAll, keyframeMessages, List.cons_append, List.foldl_cons,
    read_frameInfo, frameInfo_infoMessage acquired room, List.foldl_append,
    chunks]
  rfl

/-- All rows of a tile have the same length. -/
theorem tileRows_uniform
    (acquired : Acquired frame)
    {rc : RectU}
    (inside : TileInside frame rc) :
    ∀ row ∈ (List.range rc.h).map fun r =>
        window frame.pixels (rowOffset frame.stride rc.x rc.y r) (rc.w * 4),
      row.length = rc.w * 4 := by
  intro row member
  obtain ⟨r, isRow, rfl⟩ := List.mem_map.mp member
  exact length_window (acquired.row_inside inside (List.mem_range.mp isRow))

/-- Row `r` of a tile is found in the packed pixels of its message. -/
theorem window_rectMessage
    (acquired : Acquired frame)
    {rc : RectU}
    (inside : TileInside frame rc)
    (seq : UInt32)
    {r : Nat}
    (row : r < rc.h) :
    window (rectMessage seq frame rc).pixels (r * (rc.w * 4)) (rc.w * 4) =
      window frame.pixels (rowOffset frame.stride rc.x rc.y r) (rc.w * 4) := by
  have inBlocks :
      r < ((List.range rc.h).map fun r =>
        window frame.pixels (rowOffset frame.stride rc.x rc.y r)
          (rc.w * 4)).length := by
    simpa using row
  rw [rectMessage, window_flatten (tileRows_uniform acquired inside) inBlocks]
  simp

/-- The packed pixels of a tile. -/
theorem length_rectMessage
    (acquired : Acquired frame)
    {rc : RectU}
    (inside : TileInside frame rc)
    (seq : UInt32) :
    (rectMessage seq frame rc).pixels.length = rc.h * (rc.w * 4) := by
  rw [rectMessage, List.length_flatten,
    List.map_congr_left (tileRows_uniform acquired inside), List.map_const',
    List.sum_replicate_nat, List.length_map, List.length_range]

/-- The coordinates of a tile survive their 16-bit fields. -/
theorem rectMessage_fields
    (acquired : Acquired frame)
    {rc : RectU}
    (inside : TileInside frame rc)
    (seq : UInt32) :
    (rectMessage seq frame rc).x.toNat = rc.x ∧
      (rectMessage seq frame rc).y.toNat = rc.y ∧
      (rectMessage seq frame rc).w.toNat = rc.w ∧
      (rectMessage seq frame rc).h.toNat = rc.h := by
  have right := inside.right
  have bottom := inside.bottom
  have widthLimit := acquired.widthLimit
  have heightLimit := acquired.heightLimit
  have small : ∀ n, n ≤ 16384 → (UInt16.ofNat n).toNat = n := fun n le =>
    UInt16.toNat_ofNat_of_lt' (by simp [UInt16.size]; omega)
  exact ⟨small _ (by omega), small _ (by omega), small _ (by omega),
    small _ (by omega)⟩

/-- Blitting the rows of a tile copies them from the frame. -/
theorem blitRows_eq
    (acquired : Acquired frame)
    {rc : RectU}
    (inside : TileInside frame rc)
    (seq : UInt32)
    {rows : List Nat}
    (inTile : ∀ r ∈ rows, r < rc.h)
    {pending : Bytes}
    (sameLength : pending.length = frame.pixels.length) :
    rows.foldl (ViewerState.blitRow frame.stride (rectMessage seq frame rc))
        pending =
      copyWindows frame.pixels pending
        (rows.map fun r =>
          (rowOffset frame.stride rc.x rc.y r, rc.w * 4)) := by
  obtain ⟨x, y, w, h⟩ := rectMessage_fields acquired inside seq
  have sizeOf : sizeOfInt frame.stride = frame.stride := by
    have widthLimit := acquired.widthLimit
    have strideShape := acquired.stride
    rw [sizeOfInt]
    omega
  induction rows generalizing pending with
  | nil =>
      rfl
  | cons r rest inductionHypothesis =>
      have row := inTile r List.mem_cons_self
      have rowInside := acquired.row_inside inside row
      have srcInside : r * (rc.w * 4) + rc.w * 4 ≤ rc.h * (rc.w * 4) := by
        calc
          r * (rc.w * 4) + rc.w * 4
              = (r + 1) * (rc.w * 4) := by
                ring
          _ ≤ rc.h * (rc.w * 4) :=
                Nat.mul_le_mul_right _ row
      have blit :
          ViewerState.blitRow frame.stride (rectMessage seq frame rc)
              pending r =
            copyWindow frame.pixels pending
              (rowOffset frame.stride rc.x rc.y r) (rc.w * 4) := by
        simp only [ViewerState.blitRow, x, y, w, sizeOf]
        rw [if_pos, window_rectMessage acquired inside seq row]
        · rfl
        · rw [sameLength, length_rectMessage acquired inside seq]
          exact ⟨(Nat.mod_le _ _).trans rowInside,
            (Nat.mod_le _ _).trans srcInside⟩
      rw [List.foldl_cons, blit, inductionHypothesis
        (fun other member => inTile other (List.mem_cons_of_mem _ member))
        (by rw [length_copyWindow sameLength rowInside, sameLength])]
      rfl

/-- A delta tile changes the viewer's frame as it changes the mirror. -/
theorem frameRect_rectMessage
    (acquired : Acquired frame)
    {rc : RectU}
    (inside : TileInside frame rc)
    (seq : UInt32)
    {st : ViewerState}
    (stride : st.pstride = frame.stride)
    (sameLength : st.pending.length = frame.pixels.length) :
    st.frameRect (rectMessage seq frame rc) =
      { st with pending := mirrorTile frame st.pending rc } := by
  obtain ⟨_, _, w, h⟩ := rectMessage_fields acquired inside seq
  have stridePositive : st.pstride > 0 := by
    have := acquired.stride
    have := acquired.widthPositive
    omega
  have widthPositive : (rectMessage seq frame rc).w > 0 :=
    UInt16.lt_iff_toNat_lt.mpr (by rw [w]; exact inside.widthPositive)
  have heightPositive : (rectMessage seq frame rc).h > 0 :=
    UInt16.lt_iff_toNat_lt.mpr (by rw [h]; exact inside.heightPositive)
  rw [ViewerState.frameRect,
    if_pos ⟨stridePositive, widthPositive, heightPositive⟩, h, stride,
    blitRows_eq acquired inside seq (fun r => List.mem_range.mp) sameLength,
    mirrorTile_eq]
  rfl

theorem length_mirrorTile
    (acquired : Acquired frame)
    {rc : RectU}
    (inside : TileInside frame rc)
    {prevFrame : Bytes}
    (sameLength : prevFrame.length = frame.pixels.length) :
    (mirrorTile frame prevFrame rc).length = frame.pixels.length := by
  rw [mirrorTile_eq]
  exact length_copyWindows sameLength (acquired.tileWindows_inside inside)

/-- The pixels of a tile are far below the limits of a message. -/
theorem length_rectMessage_le
    (acquired : Acquired frame)
    {rc : RectU}
    (inside : TileInside frame rc)
    (seq : UInt32) :
    (rectMessage seq frame rc).pixels.length ≤ 65536 := by
  have width := inside.width
  have height := inside.height
  rw [length_rectMessage acquired inside]
  calc
    rc.h * (rc.w * 4)
        ≤ kDefaultTile * (kDefaultTile * 4) :=
          Nat.mul_le_mul height (Nat.mul_le_mul_right 4 width)
    _ = 65536 := by
          norm_num [kDefaultTile]

/-- Sending tiles mirrors them on both sides. -/
theorem sendRects_deliver
    (heap : Nat → Bool)
    (acquired : Acquired frame)
    (seq : UInt32)
    {rects : List RectU}
    (inside : ∀ rc ∈ rects, TileInside frame rc)
    (link : Link)
    {st : ViewerState}
    (running : link.reader = .running st)
    (stride : st.pstride = frame.stride)
    (sameLength : st.pending.length = frame.pixels.length) :
    sendRects (Link.deliver heap) seq frame st.pending link rects =
      (true, rects.foldl (mirrorTile frame) st.pending,
        { reader :=
            .running { st with
              pending := rects.foldl (mirrorTile frame) st.pending }
          sent :=
            link.sent ++
              rects.map fun rc =>
                ⟨.known .frameRect, (rectMessage seq frame rc).encode⟩ }) := by
  induction rects generalizing link st with
  | nil =>
      obtain ⟨reader, sent⟩ := link
      subst running
      simp [sendRects]
  | cons rc rest inductionHypothesis =>
      have headInside := inside rc List.mem_cons_self
      have short := length_rectMessage_le acquired headInside seq
      have read :
          link.reader.read heap
              ⟨.known .frameRect, (rectMessage seq frame rc).encode⟩ =
            .running { st with pending := mirrorTile frame st.pending rc } := by
        rw [running, read_frameRect st (by omega),
          frameRect_rectMessage acquired headInside seq stride sameLength]
      have restSent := inductionHypothesis
        (fun other member => inside other (List.mem_cons_of_mem _ member))
        ⟨.running { st with pending := mirrorTile frame st.pending rc },
          link.sent ++
            [⟨.known .frameRect, (rectMessage seq frame rc).encode⟩]⟩
        rfl stride (length_mirrorTile acquired headInside sameLength)
      simpa [sendRects, Link.deliver, read] using restSent

end Frames

section Sizes

variable {frame : Frame}

/-- The announcement of a frame fits the cap. -/
theorem infoMessage_fits
    (seq : UInt32) :
    FitsFrame ⟨.known .frameInfo, (infoMessage seq frame).encode⟩ := by
  unfold FitsFrame kMaxMessageSize
  simp [FrameInfoMsg.encode]

/-- A chunk of a frame fits the cap. -/
theorem chunkMessage_fits
    (seq : UInt32)
    (off : Nat) :
    FitsFrame ⟨.known .frameData, (chunkMessage seq frame off).encode⟩ := by
  have dataLength : (chunkMessage seq frame off).data.length ≤ 262144 := by
    simp only [chunkMessage, window, kVideoChunkSize, List.length_take]
    omega
  unfold FitsFrame kMaxMessageSize
  simp [FrameDataMsg.encode]
  omega

/-- The end of a frame fits the cap. -/
theorem endMessage_fits
    (seq : UInt32) :
    FitsFrame ⟨.known .frameEnd, putU32 seq⟩ := by
  unfold FitsFrame kMaxMessageSize
  simp

/-- The messages of a keyframe fit the cap. -/
theorem keyframeMessages_fit
    (seq : UInt32)
    {m : Op × Bytes}
    (member : m ∈ keyframeMessages seq frame) :
    FitsFrame ⟨m.1, m.2⟩ := by
  rcases mem_keyframeMessages member with isInfo | ⟨off, isChunk⟩ | isEnd
  · rw [isInfo]
    exact infoMessage_fits seq
  · rw [isChunk]
    exact chunkMessage_fits seq off
  · rw [isEnd]
    exact endMessage_fits seq

/-- The message of a tile fits the cap. -/
theorem rectMessage_fits
    (acquired : Acquired frame)
    {rc : RectU}
    (inside : TileInside frame rc)
    (seq : UInt32) :
    FitsFrame ⟨.known .frameRect, (rectMessage seq frame rc).encode⟩ := by
  have short := length_rectMessage_le acquired inside seq
  unfold FitsFrame kMaxMessageSize
  simp [FrameRectMsg.encode]
  omega

end Sizes

/-- Streamer and viewer hold the same frame. -/
structure Synced
    (streamer : VideoStreamer)
    (st : ViewerState)
    (frame : Frame) : Prop where
  acquired : Acquired frame
  prevFrame : streamer.prevFrame = frame.pixels
  prevW : streamer.prevW = frame.width
  prevH : streamer.prevH = frame.height
  prevStride : streamer.prevStride = frame.stride
  pending : st.pending = frame.pixels
  front : st.front = frame.pixels
  w : st.w = frame.width
  h : st.h = frame.height
  pw : st.pw = frame.width
  ph : st.ph = frame.height
  pstride : st.pstride = frame.stride

/-- Before the first keyframe nothing was sent; from then on both sides agree. -/
structure Consistent (mirror : Mirror) : Prop where
  fits : ∀ m ∈ mirror.link.sent, FitsFrame m
  state :
    (mirror.lastStep ≠ some .sent ∧ mirror.link.sent = [] ∧
        mirror.streamer.sentKeyframe = false ∧
          ∃ st, mirror.link.reader = .running st) ∨
      ∃ st frame,
        mirror.link.reader = .running st ∧ mirror.lastFrame = some frame ∧
          Synced mirror.streamer st frame

/-- A viewer that agrees with the streamer mirrors the screen. -/
theorem Consistent.mirrors
    {mirror : Mirror}
    (consistent : Consistent mirror) :
    Mirrors mirror where
  fits := consistent.fits
  shows := by
    intro due
    rcases consistent.state with
      ⟨notSent, nothing, _⟩ | ⟨st, frame, running, last, synced⟩
    · rcases due with isSent | ⟨_, m, member, _⟩
      · exact absurd isSent notSent
      · rw [nothing] at member
        cases member
    · exact ⟨frame, last, st, running, synced.front, synced.w, synced.h⟩

section Steps

variable {heap : Nat → Bool} {mirror : Mirror} {frame : Frame}

/-- In every consistent state the viewer is running. -/
theorem Consistent.running
    (consistent : Consistent mirror) :
    ∃ st, mirror.link.reader = .running st := by
  rcases consistent.state with
    ⟨_, _, _, running⟩ | ⟨st, _, running, _⟩
  · exact running
  · exact ⟨st, running⟩

/-- A keyframe keeps both sides consistent. -/
theorem Consistent.keyframe
    (consistent : Consistent mirror)
    (acquired : Acquired frame)
    (room : ∀ size, size ≤ 2 ^ 30 → heap size = true) :
    ∃ streamer link,
      mirror.streamer.sendKeyframe (Link.deliver heap) mirror.link frame =
          (.sent, streamer, link) ∧
        (∀ m ∈ link.sent, FitsFrame m) ∧
          ∃ st, link.reader = .running st ∧ Synced streamer st frame := by
  obtain ⟨st, running⟩ := consistent.running
  have read := read_keyframe heap acquired room
    (mirror.streamer.seq + 1) st
  refine ⟨_, _, by
    rw [VideoStreamer.sendKeyframe, sendAll_deliver, running, read], ?_,
    afterKeyframe st frame, rfl, ?_⟩
  · intro m member
    rcases List.mem_append.mp member with earlier | new
    · exact consistent.fits m earlier
    · obtain ⟨sent, inFrame, rfl⟩ := List.mem_map.mp new
      exact keyframeMessages_fit _ inFrame
  · constructor <;> first | exact acquired | rfl

/-- A delta keeps both sides consistent. -/
theorem Consistent.delta
    (heap : Nat → Bool)
    {st : ViewerState}
    {previous : Frame}
    (consistent : Consistent mirror)
    (running : mirror.link.reader = .running st)
    (synced : Synced mirror.streamer st previous)
    (acquired : Acquired frame)
    (width : frame.width = previous.width)
    (height : frame.height = previous.height)
    (stride : frame.stride = previous.stride)
    (sameLength : previous.pixels.length = frame.pixels.length) :
    ∃ step streamer link,
      mirror.streamer.sendDelta (Link.deliver heap) mirror.link frame =
          some (step, streamer, link) ∧
        (∀ m ∈ link.sent, FitsFrame m) ∧
          ∃ st, link.reader = .running st ∧ Synced streamer st frame := by
  obtain ⟨rects, changed, inside, mirrored⟩ :=
    acquired.mirror_changedTiles previous.pixels sameLength
  rw [← synced.prevFrame] at changed
  cases rects with
  | nil =>
      have same : previous.pixels = frame.pixels :=
        mirrored
      refine ⟨.skipped, mirror.streamer, mirror.link, by
        simp [VideoStreamer.sendDelta, changed], consistent.fits, st,
        running, ?_⟩
      exact {
        acquired := acquired
        prevFrame := by rw [synced.prevFrame, same]
        prevW := by rw [synced.prevW, width]
        prevH := by rw [synced.prevH, height]
        prevStride := by rw [synced.prevStride, stride]
        pending := by rw [synced.pending, same]
        front := by rw [synced.front, same]
        w := by rw [synced.w, width]
        h := by rw [synced.h, height]
        pw := by rw [synced.pw, width]
        ph := by rw [synced.ph, height]
        pstride := by rw [synced.pstride, stride] }
  | cons rc rest =>
      have sent := sendRects_deliver heap acquired
        (mirror.streamer.seq + 1) inside mirror.link running
        (by rw [synced.pstride, stride])
        (by rw [synced.pending, sameLength])
      rw [synced.pending, mirrored, ← synced.prevFrame] at sent
      refine ⟨.sent, _, _, by
        simp only [VideoStreamer.sendDelta, changed, Option.bind_eq_bind,
          Option.bind_some, List.isEmpty_cons, sent]
        rfl, ?_, ViewerState.frameEnd { st with pending := frame.pixels },
        rfl, ?_⟩
      · intro m member
        simp only [List.mem_append, List.mem_map, List.mem_singleton] at member
        rcases member with (earlier | ⟨changedTile, isRect, rfl⟩) | rfl
        · exact consistent.fits m earlier
        · exact rectMessage_fits acquired (inside _ isRect) _
        · exact endMessage_fits _
      · exact {
          acquired := acquired
          prevFrame := rfl
          prevW := by rw [synced.prevW, width]
          prevH := by rw [synced.prevH, height]
          prevStride := by rw [synced.prevStride, stride]
          pending := rfl
          front := rfl
          w := by rw [width]; exact synced.pw
          h := by rw [height]; exact synced.ph
          pw := by rw [width]; exact synced.pw
          ph := by rw [height]; exact synced.ph
          pstride := by rw [stride]; exact synced.pstride }

/-- Every step on a capture result of a run keeps both sides consistent. -/
theorem Consistent.capture
    (room : ∀ size, size ≤ 2 ^ 30 → heap size = true)
    (consistent : Consistent mirror)
    {result : CaptureResult}
    (capturable : Capturable result) :
    ∃ next, mirror.capture heap result = some next ∧ Consistent next := by
  cases result with
  | timeout =>
      refine ⟨_, rfl, consistent.fits, ?_⟩
      rcases consistent.state with ⟨_, nothing, fresh, running⟩ | synced
      · exact .inl ⟨by simp, nothing, fresh, running⟩
      · exact .inr synced
  | lost =>
      refine ⟨_, rfl, consistent.fits, ?_⟩
      rcases consistent.state with
        ⟨_, nothing, _, running⟩ | ⟨st, frame, running, last, synced⟩
      · exact .inl ⟨by simp, nothing, rfl, running⟩
      · exact .inr ⟨st, frame, running, last,
          { synced with }⟩
  | error =>
      exact capturable.elim
  | ok frame =>
      have acquired : Acquired frame :=
        capturable
      by_cases whole :
          mirror.streamer.sentKeyframe = false ∨
            (frame.width ≠ mirror.streamer.prevW ∨
              frame.height ≠ mirror.streamer.prevH ∨
              frame.stride ≠ mirror.streamer.prevStride ∨
              mirror.streamer.prevFrame.length ≠ frame.pixels.length)
      · obtain ⟨streamer, link, sent, fits, st, running, synced⟩ :=
          consistent.keyframe acquired room
        refine ⟨⟨streamer, link, some .sent, some frame⟩, ?_, fits,
          .inr ⟨st, frame, running, rfl, synced⟩⟩
        simp [Mirror.capture, VideoStreamer.streamOnce, sent, whole]
      · obtain ⟨hasKeyframe, sameGeometry⟩ := not_or.mp whole
        rcases consistent.state with
          ⟨_, _, fresh, _⟩ | ⟨st, previous, running, last, synced⟩
        · exact absurd fresh hasKeyframe
        · simp only [ne_eq, not_or, not_not, synced.prevW, synced.prevH,
            synced.prevStride, synced.prevFrame] at sameGeometry
          obtain ⟨width, height, stride, sameLength⟩ := sameGeometry
          obtain ⟨step, streamer, link, sent, fits, st, running, synced⟩ :=
            consistent.delta heap running synced acquired width height
              stride sameLength
          refine ⟨⟨streamer, link, some step, some frame⟩, ?_, fits,
            .inr ⟨st, frame, running, rfl, synced⟩⟩
          simp [Mirror.capture, VideoStreamer.streamOnce, sent, whole]

end Steps

/--
For every sequence of capture results the stream runs to its end, every message
fits the cap, and the viewer shows the last acquired frame whenever it should.
-/
theorem viewer_mirrors_screen
    (heap : Nat → Bool)
    (room : ∀ size, size ≤ 2 ^ 30 → heap size = true)
    (results : List CaptureResult)
    (capturable : ∀ result ∈ results, Capturable result) :
    ∃ mirror,
      results.foldlM (Mirror.capture heap) {} = some mirror ∧
        Mirrors mirror := by
  suffices general :
      ∀ start, Consistent start →
        ∃ mirror,
          results.foldlM (Mirror.capture heap) start = some mirror ∧
            Consistent mirror by
    obtain ⟨mirror, ran, consistent⟩ := general {} {
      fits := by simp
      state := .inl ⟨by simp, rfl, rfl, {}, rfl⟩ }
    exact ⟨mirror, ran, consistent.mirrors⟩
  induction results with
  | nil =>
      exact fun start consistent => ⟨start, rfl, consistent⟩
  | cons result rest inductionHypothesis =>
      intro start consistent
      obtain ⟨next, stepped, nextConsistent⟩ :=
        consistent.capture room (capturable result List.mem_cons_self)
      rw [List.foldlM_cons, stepped]
      exact inductionHypothesis
        (fun other member => capturable other (List.mem_cons_of_mem _ member))
        next nextConsistent

/-- A picture of one row and two pixels. -/
def tinyFrame (left right : UInt8) : Frame where
  width := 2
  height := 1
  stride := 8
  pixels := List.replicate 4 left ++ List.replicate 4 right

/-- A keyframe, a delta, a loss and an idle screen. -/
def tinyResults : List CaptureResult :=
  [.timeout, .ok (tinyFrame 1 2), .ok (tinyFrame 1 3), .lost, .timeout,
    .ok (tinyFrame 4 3)]

/-- The viewer shows the frame that was sent last. -/
theorem viewer_mirrors_screen_tiny :
    ∃ mirror,
      tinyResults.foldlM (Mirror.capture fun _ => true) {} = some mirror ∧
        Mirrors mirror ∧
        mirror.lastStep = some .sent ∧
        ∃ st,
          mirror.link.reader = .running st ∧
            st.front = [4, 4, 4, 4, 3, 3, 3, 3] ∧ st.w = 2 ∧ st.h = 1 := by
  have acquired : ∀ left right, Acquired (tinyFrame left right) := by
    intro left right
    constructor <;>
      simp [tinyFrame]
  have capturable : ∀ result ∈ tinyResults, Capturable result := by
    intro result member
    simp only [tinyResults, List.mem_cons, List.not_mem_nil, or_false] at member
    rcases member with rfl | rfl | rfl | rfl | rfl | rfl
    · trivial
    · exact acquired 1 2
    · exact acquired 1 3
    · trivial
    · trivial
    · exact acquired 4 3
  obtain ⟨mirror, ran, mirrors⟩ :=
    viewer_mirrors_screen (fun _ => true) (fun _ _ => rfl) _ capturable
  have isSent :
      (tinyResults.foldlM (Mirror.capture fun _ => true) {}).map
          (fun mirror => (mirror.lastStep, mirror.lastFrame)) =
        some (some .sent, some (tinyFrame 4 3)) := by
    decide +kernel
  rw [ran, Option.map_some, Option.some.injEq, Prod.mk.injEq] at isSent
  obtain ⟨frame, last, st, running, front, width, height⟩ :=
    mirrors.shows (.inl isSent.1)
  rw [isSent.2, Option.some.injEq] at last
  subst last
  exact ⟨mirror, ran, mirrors, isSent.1, st, running, front, width, height⟩

end RadminPro
