import RadminPro.WireProtocol
import RadminPro.BufferWindow

namespace RadminPro

open ByteCodec
open BufferWindow

/-!
# Screen streaming

The server side of the picture: the tile difference of two frames and the
streamer that turns captured frames into messages.  The capture is an input and
the transport a parameter.  Geometry is kept in natural numbers; `u32` and
`sizeT` mark where the 32-bit and 64-bit arithmetic of the code could wrap.
-/

/-- A value reduced to 32 bits. -/
def u32 (value : Nat) : Nat :=
  value % 2 ^ 32

/-- A value reduced to a 64-bit `size_t`. -/
def sizeT (value : Nat) : Nat :=
  value % 2 ^ 64

/-- Where row `r` of a tile at `(x, y)` starts in a buffer of this stride. -/
def rowOffset (stride x y r : Nat) : Nat :=
  sizeT (u32 (y + r) * stride + x * 4)

/-! ## Tile differences -/

/-- A rectangle of pixels. -/
structure RectU where
  x : Nat := 0
  y : Nat := 0
  w : Nat := 0
  h : Nat := 0
  deriving DecidableEq

/-- Tiles are 128 by 128 pixels. -/
def kDefaultTile : Nat := 128

/--
The values of a 32-bit loop counter that starts at `position`, goes up by
`step` and stops at `limit`.  A counter that takes more values below `limit`
than there are has wrapped into a cycle.
-/
def countUp (limit step : Nat) : Nat → Nat → Option (List Nat)
  | 0, position => if position < limit then none else some []
  | fuel + 1, position =>
      if position < limit then
        (position :: ·) <$> countUp limit step fuel (u32 (position + step))
      else
        some []

/-- Where the tiles of one side start. -/
def tileStarts (limit tile : Nat) : Option (List Nat) :=
  countUp limit tile limit 0

/-- Do the pixels of a tile differ? -/
def tileDiffers (prev cur : Bytes) (stride : Nat) (rc : RectU) : Bool :=
  (List.range rc.h).any fun r =>
    let rowBytes := rc.w * 4
    let off := rowOffset stride rc.x rc.y r
    sizeT (off + rowBytes) > cur.length ||
      window cur off rowBytes != window prev off rowBytes

/-- The tiles whose pixels differ, clamped at the right and bottom edges. -/
def changedTiles
    (prev cur : Bytes)
    (width height stride : Nat)
    (tile : Nat := kDefaultTile) : Option (List RectU) :=
  if prev.length ≠ cur.length then
    some []
  else do
    let tile := if tile = 0 then kDefaultTile else tile
    let rows ← (← tileStarts height tile).mapM fun ty => do
      let th := min tile (height - ty)
      let tiles := (← tileStarts width tile).map fun tx =>
        { x := tx, y := ty, w := min tile (width - tx), h := th : RectU }
      pure (tiles.filter (tileDiffers prev cur stride))
    pure rows.flatten

/-! ## Captured frames -/

/-- A captured frame. -/
structure Frame where
  width : Nat := 0
  height : Nat := 0
  stride : Nat := 0
  format : PixelFormat := .known .bgra32
  pixels : Bytes
  deriving DecidableEq

/-- What `ScreenCapture::acquire` returns. -/
inductive CaptureResult where
  | ok (frame : Frame)
  | timeout
  | lost
  | error
  deriving DecidableEq

/-! ## The streamer -/

/-- At most this many pixel bytes travel in one `FrameData`. -/
def kVideoChunkSize : Nat := 256 * 1024

/-- The outcome of one `streamOnce`. -/
inductive StreamStep where
  | sent
  | skipped
  | lost
  | error
  deriving Repr, DecidableEq

/-- The transport: it takes a message and says whether to go on. -/
abbrev SendFn (Channel : Type) := Channel → Op → Bytes → Bool × Channel

/-- The state of the streamer; `prevFrame` mirrors what the client has. -/
structure VideoStreamer where
  seq : UInt32 := 0
  prevFrame : Bytes := []
  prevW : Nat := 0
  prevH : Nat := 0
  prevStride : Nat := 0
  sentKeyframe : Bool := false
  deriving DecidableEq

section Sending

variable {Channel : Type} (send : SendFn Channel)

/-- Send messages in order until one is refused. -/
def sendAll (channel : Channel) : List (Op × Bytes) → Bool × Channel
  | [] => (true, channel)
  | (op, payload) :: rest =>
      match send channel op payload with
      | (true, channel) => sendAll channel rest
      | (false, channel) => (false, channel)

/-- Where the chunks of a frame start. -/
def chunkOffsets (total : Nat) : List Nat :=
  (List.range ((total + kVideoChunkSize - 1) / kVideoChunkSize)).map
    (· * kVideoChunkSize)

/-- One chunk of a frame. -/
def chunkMessage (seq : UInt32) (frame : Frame) (off : Nat) : FrameDataMsg where
  sequence := seq
  offset := UInt32.ofNat off
  data := window frame.pixels off (min kVideoChunkSize (frame.pixels.length - off))

/-- The announcement of a keyframe. -/
def infoMessage (seq : UInt32) (frame : Frame) : FrameInfoMsg where
  sequence := seq
  width := UInt16.ofNat frame.width
  height := UInt16.ofNat frame.height
  stride := UInt32.ofNat frame.stride
  format := frame.format
  keyframe := true

/-- The messages of a keyframe. -/
def keyframeMessages (seq : UInt32) (frame : Frame) : List (Op × Bytes) :=
  (.known .frameInfo, (infoMessage seq frame).encode) ::
    (chunkOffsets frame.pixels.length).map (fun off =>
      (.known .frameData, (chunkMessage seq frame off).encode)) ++
    [(.known .frameEnd, putU32 seq)]

/-- A keyframe is its announcement, its chunks and its end. -/
theorem mem_keyframeMessages
    {seq : UInt32}
    {frame : Frame}
    {m : Op × Bytes}
    (member : m ∈ keyframeMessages seq frame) :
    m = (.known .frameInfo, (infoMessage seq frame).encode) ∨
      (∃ off, m = (.known .frameData, (chunkMessage seq frame off).encode)) ∨
      m = (.known .frameEnd, putU32 seq) := by
  rcases List.mem_append.mp member with inFront | isEnd
  · rcases List.mem_cons.mp inFront with isInfo | isChunk
    · exact .inl isInfo
    · obtain ⟨off, _, shape⟩ := List.mem_map.mp isChunk
      exact .inr (.inl ⟨off, shape.symm⟩)
  · exact .inr (.inr (List.mem_singleton.mp isEnd))

/-- Send the whole frame. -/
def VideoStreamer.sendKeyframe
    (streamer : VideoStreamer)
    (channel : Channel)
    (frame : Frame) : StreamStep × VideoStreamer × Channel :=
  let seq := streamer.seq + 1
  match sendAll send channel (keyframeMessages seq frame) with
  | (false, channel) => (.error, { streamer with seq := seq }, channel)
  | (true, channel) =>
      (.sent,
        { seq := seq
          prevFrame := frame.pixels
          prevW := frame.width
          prevH := frame.height
          prevStride := frame.stride
          sentKeyframe := true },
        channel)

/-- The message of one changed tile, its rows packed without gaps. -/
def rectMessage (seq : UInt32) (frame : Frame) (rc : RectU) : FrameRectMsg where
  sequence := seq
  x := UInt16.ofNat rc.x
  y := UInt16.ofNat rc.y
  w := UInt16.ofNat rc.w
  h := UInt16.ofNat rc.h
  pixels :=
    ((List.range rc.h).map fun r =>
      window frame.pixels (rowOffset frame.stride rc.x rc.y r)
        (rc.w * 4)).flatten

/-- Copy one changed tile into the mirror of the client's frame. -/
def mirrorTile (frame : Frame) (prevFrame : Bytes) (rc : RectU) : Bytes :=
  (List.range rc.h).foldl
    (fun prevFrame r =>
      copyWindow frame.pixels prevFrame
        (rowOffset frame.stride rc.x rc.y r) (rc.w * 4))
    prevFrame

/-- Mirror and send changed tiles until one is refused. -/
def sendRects
    (seq : UInt32)
    (frame : Frame)
    (prevFrame : Bytes)
    (channel : Channel) : List RectU → Bool × Bytes × Channel
  | [] => (true, prevFrame, channel)
  | rc :: rest =>
      let prevFrame := mirrorTile frame prevFrame rc
      match send channel (.known .frameRect) (rectMessage seq frame rc).encode with
      | (true, channel) => sendRects seq frame prevFrame channel rest
      | (false, channel) => (false, prevFrame, channel)

/-- Send the changed tiles; `none` when the tile loop does not end. -/
def VideoStreamer.sendDelta
    (streamer : VideoStreamer)
    (channel : Channel)
    (frame : Frame) : Option (StreamStep × VideoStreamer × Channel) := do
  let rects ←
    changedTiles streamer.prevFrame frame.pixels frame.width frame.height
      frame.stride
  if rects.isEmpty then
    return (.skipped, streamer, channel)
  let seq := streamer.seq + 1
  match sendRects send seq frame streamer.prevFrame channel rects with
  | (false, prevFrame, channel) =>
      return (.error, { streamer with seq, prevFrame }, channel)
  | (true, prevFrame, channel) =>
      match send channel (.known .frameEnd) (putU32 seq) with
      | (false, channel) =>
          return (.error, { streamer with seq, prevFrame }, channel)
      | (true, channel) =>
          return (.sent, { streamer with seq, prevFrame }, channel)

/-- Stream the frame that was captured, if there is one. -/
def VideoStreamer.streamOnce
    (streamer : VideoStreamer)
    (channel : Channel) :
    CaptureResult → Option (StreamStep × VideoStreamer × Channel)
  | .timeout => some (.skipped, streamer, channel)
  | .lost => some (.lost, { streamer with sentKeyframe := false }, channel)
  | .error => some (.error, streamer, channel)
  | .ok frame =>
      let geomChanged :=
        frame.width ≠ streamer.prevW ∨ frame.height ≠ streamer.prevH ∨
          frame.stride ≠ streamer.prevStride ∨
          streamer.prevFrame.length ≠ frame.pixels.length
      if !streamer.sentKeyframe ∨ geomChanged then
        some (streamer.sendKeyframe send channel frame)
      else
        streamer.sendDelta send channel frame

end Sending

end RadminPro
