import RadminPro.AuditLog
import RadminPro.PathText
import RadminPro.SecurityManager
import RadminPro.TileCover

namespace RadminPro

open ByteCodec

/-!
# What a session does to its surroundings

A session thread talks to the transport, the file system, the audit log, the
screen and the input queue.  What it does there is recorded as a list of
effects; what it is answered within one turn of its loop is an input.
-/

/-- What a session does, with the answer where there is one. -/
inductive Effect where
  | received (m : Message)
  | setRecvTimeoutMs (milliseconds : Nat)
  | send (op : Op) (payload : Bytes) (ok : Bool)
  | audit (event : AuditEvent)
  | overlayShow (text : Bytes)
  | overlayHide
  | captureInitialize (monitor : UInt32) (ok : Bool)
  | injectMouse (x y : UInt16) (action : UInt32)
  | injectKey (down : Bool) (vk : UInt16)
  | createDirectory (path : Path)
  | openTrunc (path : Path) (ok : Bool)
  | write (path : Path) (position : Nat) (data : Bytes)
  | close (path : Path)
  | rename (src dst : Path) (ok : Bool)
  | remove (path : Path) (ok : Bool)
  | readFile (path : Path) (content : Option Bytes)
  | releaseSlot
  deriving DecidableEq

/-- A capture result with a frame as the capture produces it. -/
abbrev Captured :=
  { result : CaptureResult // ∀ frame, result = .ok frame → Acquired frame }

/-- No new frame. -/
def Captured.timeout : Captured :=
  ⟨.timeout, by simp⟩

/--
How far a write gets: the stream hands over at most `handed` of its bytes to the
file, and a failing write keeps at most `kept` of the others in its buffer.
-/
structure Flush where
  ok : Bool := true
  handed : Nat
  kept : Nat := 0
  deriving DecidableEq

/-- What the surroundings answer during one turn of a session. -/
structure Outside where
  authenticate : Bytes → Bytes → AuthOutcome := fun _ _ => {}
  sessionId : UInt64 := 0
  replies : Nat → Bool := fun _ => true
  frames : Nat → Bool := fun _ => true
  captureReady : Bool := true
  captured : Captured := Captured.timeout
  weaklyCanonical : Path → Option Path := some
  absolute : Path → Path := id
  creates : Path → Bool := fun _ => false
  opened : Bool := true
  flush : Flush := { handed := 0 }
  flushedAtClose : Nat := 0
  flushedAtReplace : Nat := 0
  renamed : Bool := true
  removed : Bool := true
  errorText : Bytes := []
  content : Option Bytes := none
  cleanup : UInt32 → Nat × Bool := fun _ => (0, true)

/-- A message fits the frame cap of the transport. -/
def withinCap (payload : Bytes) : Bool :=
  1 + payload.length ≤ kMaxMessageSize

/-- `writeMessage`; the transport answers for the n-th write of a batch. -/
def writeMessage (answers : Nat → Bool) : SendFn (List Effect) :=
  fun sent op payload =>
    let ok := withinCap payload && answers sent.length
    (ok, sent ++ [.send op payload ok])

/-! ## Output streams -/

/-- An open `ofstream`; what it has not handed to the file yet is buffered. -/
structure OfStream where
  path : Path
  good : Bool := true
  position : Nat := 0
  buffered : Bytes := []
  deriving DecidableEq

namespace OfStream

/-- `write`; a stream that has failed before writes nothing. -/
def write
    (stream : OfStream)
    (data : Bytes)
    (flush : Flush) : OfStream × List Effect :=
  if stream.good then
    let pending := stream.buffered ++ data
    let handed := min flush.handed pending.length
    let rest := pending.drop handed
    ({ stream with
        good := flush.ok
        position := stream.position + handed
        buffered := if flush.ok then rest else rest.take flush.kept },
      [.write stream.path stream.position (pending.take handed)])
  else
    (stream, [])

/-- `close`, which hands over at most `flushed` of the buffered bytes. -/
def close (stream : OfStream) (flushed : Nat) : List Effect :=
  [.write stream.path stream.position (stream.buffered.take flushed),
    .close stream.path]

end OfStream

/-! ## The sandbox -/

/--
Resolve `rel` under `root`; `none` when the result would fall outside the
sandbox root.
-/
def resolveInRoot (out : Outside) (root : Path) (rel : Bytes) : Option Path :=
  let canonRoot := (out.weaklyCanonical root).getD (out.absolute root)
  match out.weaklyCanonical (PathText.join canonRoot rel) with
  | none => none
  | some candidate =>
      let r := canonRoot
      let p := candidate
      if p.length < r.length then
        none
      else if p.take r.length ≠ r then
        none
      else if p.length > r.length ∧
          (p.drop r.length).head? ≠ some PathText.preferredSeparator then
        none
      else
        some candidate

/-! ## Uploads -/

/-- An upload between its acceptance and its completion. -/
structure UploadState where
  finalPath : Path
  tempPath : Path
  out : OfStream
  expected : UInt64 := 0
  received : UInt64 := 0
  declared : Hash256
  hasher : Sha256 := .empty

/-- The uploads of a session by transfer id. -/
abbrev Uploads := Std.TreeMap UInt32 UploadState

end RadminPro
