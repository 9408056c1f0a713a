import RadminPro.VideoStream

namespace RadminPro

open ByteCodec
open BufferWindow

/-!
# The viewer's reader thread

`readerLoop` assembles frames from the messages of the server.  One step reads
one message.  The heap decides which buffer sizes can be had; an exception that
leaves the loop ends the process.
-/

/-- What the viewer window shows, and the frame being assembled. -/
structure ViewerState where
  w : Int := 0
  h : Int := 0
  stride : Int := 0
  front : Bytes := []
  pending : Bytes := []
  pw : Int := 0
  ph : Int := 0
  pstride : Int := 0
  remoteW : Int := 0
  remoteH : Int := 0
  deriving DecidableEq

/-- The exceptions that can be thrown while a message is read. -/
inductive ReaderException where
  | deserialize (error : DeserializeError)
  | lengthError
  | badAlloc
  deriving DecidableEq

/-- The reader thread. -/
inductive Reader where
  | running (state : ViewerState)
  | stopped (state : ViewerState)
  | escaped (exception : ReaderException)
  deriving DecidableEq

/-- The largest number of bytes a vector can hold. -/
def vectorMaxSize : Nat := 2 ^ 63 - 1

/-- A 32-bit field stored in an `int`. -/
def intOfU32 (value : UInt32) : Int :=
  value.toBitVec.toInt

/-- An `int` converted to `size_t`. -/
def sizeOfInt (value : Int) : Nat :=
  (value % 2 ^ 64).toNat

/-- A number that fits is itself. -/
theorem sizeOfInt_natCast
    {value : Nat}
    (fits : value < 2 ^ 64) :
    sizeOfInt value = value := by
  rw [sizeOfInt]
  omega

/-- `vector::assign(size, 0)`. -/
def assignZeros (heap : Nat → Bool) (size : Nat) : Except ReaderException Bytes :=
  if size > vectorMaxSize then
    .error .lengthError
  else if heap size then
    .ok (List.replicate size 0)
  else
    .error .badAlloc

/-- Let a decoding error leave the loop. -/
def throwing {α : Type} :
    Except DeserializeError α → Except ReaderException α
  | .ok value => .ok value
  | .error error => .error (.deserialize error)

namespace ViewerState

/-- A keyframe begins: its geometry and an empty buffer of its size. -/
def frameInfo
    (heap : Nat → Bool)
    (st : ViewerState)
    (fi : FrameInfoMsg) : Except ReaderException ViewerState := do
  let pw : Int := fi.width.toNat
  let ph : Int := fi.height.toNat
  let pstride := intOfU32 fi.stride
  let pending ←
    assignZeros heap (sizeT (sizeOfInt pstride * sizeOfInt ph))
  return { st with pw, ph, pstride, pending, remoteW := pw, remoteH := ph }

/-- A chunk of a keyframe. -/
def frameData (st : ViewerState) (fd : FrameDataMsg) : ViewerState :=
  if sizeT (fd.offset.toNat + fd.data.length) ≤ st.pending.length then
    { st with pending := overlay st.pending fd.offset.toNat fd.data }
  else
    st

/-- One row of a delta tile. -/
def blitRow (pstride : Int) (fr : FrameRectMsg) (pending : Bytes) (r : Nat) :
    Bytes :=
  let rowBytes := fr.w.toNat * 4
  let dst := rowOffset (sizeOfInt pstride) fr.x.toNat fr.y.toNat r
  let src := r * rowBytes
  if sizeT (dst + rowBytes) ≤ pending.length ∧
      sizeT (src + rowBytes) ≤ fr.pixels.length then
    overlay pending dst (window fr.pixels src rowBytes)
  else
    pending

/-- A delta tile, blitted into the persistent frame buffer. -/
def frameRect (st : ViewerState) (fr : FrameRectMsg) : ViewerState :=
  if st.pstride > 0 ∧ fr.w > 0 ∧ fr.h > 0 then
    { st with
      pending :=
        (List.range fr.h.toNat).foldl (blitRow st.pstride fr) st.pending }
  else
    st

/-- The assembled frame is presented. -/
def frameEnd (st : ViewerState) : ViewerState :=
  { st with front := st.pending, w := st.pw, h := st.ph, stride := st.pstride }

end ViewerState

/-- One turn of the reader loop. -/
def readerStep
    (heap : Nat → Bool)
    (st : ViewerState)
    (m : Message) : Except ReaderException Reader :=
  match m.op with
  | .known .frameInfo => do
      let fi ← throwing (FrameInfoMsg.decode m.payload)
      return .running (← st.frameInfo heap fi)
  | .known .frameData => do
      let fd ← throwing (FrameDataMsg.decode m.payload)
      return .running (st.frameData fd)
  | .known .frameRect => do
      let fr ← throwing (FrameRectMsg.decode m.payload)
      return .running (st.frameRect fr)
  | .known .frameEnd => .ok (.running st.frameEnd)
  | .known .bye | .known .error => .ok (.stopped st)
  | _ => .ok (.running st)

/-- The reader after the next message. -/
def Reader.read (heap : Nat → Bool) (reader : Reader) (m : Message) : Reader :=
  match reader with
  | .running st =>
      match readerStep heap st m with
      | .ok next => next
      | .error exception => .escaped exception
  | ended => ended

/-- The reader after messages that arrive in order. -/
def Reader.readAll
    (heap : Nat → Bool)
    (reader : Reader)
    (messages : List (Op × Bytes)) : Reader :=
  messages.foldl (fun reader m => reader.read heap ⟨m.1, m.2⟩) reader

end RadminPro
