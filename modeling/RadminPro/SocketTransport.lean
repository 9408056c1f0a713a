import RadminPro.ReaderBounds
import RadminPro.FramebufferMirror
import RadminPro.BlockStream

namespace RadminPro.SocketTransport

open ByteCodec

/-!
# The framed transport

A message travels as its length in four bytes, its opcode and its payload.  The
loops of `writeAll` and `readAll` call the TLS library until all bytes are
through; what each call comes back with is an input.  TLS itself is taken as a
reliable ordered stream: a read yields the next bytes of the stream, and
nothing once it has ended.
-/

/-- What a call of `SSL_write` or `SSL_read` comes back with. -/
inductive SslResult where
  /-- At most so many bytes after a first one. -/
  | moved (more : Nat)
  | wantRead
  | wantWrite
  | failed
  deriving DecidableEq

/-- How a loop stands when it ends, or when it has used up its results. -/
inductive Progress (α : Type) where
  | waiting
  | stopped
  | done (value : α)
  deriving DecidableEq

/-! ## Writing -/

/-- The bytes of one frame. -/
def frameOf (m : Message) : Bytes :=
  putU32 (UInt32.ofNat (1 + m.payload.length)) ++ putU8 m.op.toByte ++ m.payload

/-- One turn of `writeAll`: the bytes that went out and those that are left. -/
def writeTurn : SslResult → Bytes → Option (Bytes × Bytes)
  | .moved more, rest => some (rest.take (more + 1), rest.drop (more + 1))
  | .wantRead, rest => some ([], rest)
  | .wantWrite, rest => some ([], rest)
  | .failed, _ => none

/-- Write until nothing is left; the first component is what went out. -/
def writeAll : List SslResult → Bytes → Bytes × Progress Unit
  | _, [] => ([], .done ())
  | [], _ :: _ => ([], .waiting)
  | result :: results, byte :: rest =>
      match writeTurn result (byte :: rest) with
      | none => ([], .stopped)
      | some (piece, left) =>
          let later := writeAll results left
          (piece ++ later.1, later.2)

/-- Write one message as one frame, unless it exceeds the cap. -/
def writeMessage
    (results : List SslResult)
    (op : Op)
    (payload : Bytes) : Bytes × Progress Unit :=
  let total := 1 + payload.length
  if total > kMaxMessageSize then
    ([], .stopped)
  else
    writeAll results (frameOf ⟨op, payload⟩)

/-! ## Reading -/

/-- How `readAll` ends, with what is left of the stream and of the results. -/
structure ReadEnd where
  progress : Progress Bytes
  incoming : Bytes
  results : List SslResult
  deriving DecidableEq

/-- The bytes of a later turn come behind those of an earlier one. -/
def Progress.behind (piece : Bytes) : Progress Bytes → Progress Bytes
  | .waiting => .waiting
  | .stopped => .stopped
  | .done bytes => .done (piece ++ bytes)

/-- Read exactly so many bytes. -/
def readAll : List SslResult → Bytes → Nat → ReadEnd
  | results, incoming, 0 => ⟨.done [], incoming, results⟩
  | [], incoming, _ + 1 => ⟨.waiting, incoming, []⟩
  | .moved more :: results, incoming, n + 1 =>
      let piece := incoming.take (min (more + 1) (n + 1))
      -- Nothing comes any more: a clean close.
      if piece.isEmpty then
        ⟨.stopped, incoming, results⟩
      else
        let later :=
          readAll results (incoming.drop piece.length) (n + 1 - piece.length)
        { later with progress := later.progress.behind piece }
  | .wantRead :: results, incoming, n + 1 => readAll results incoming (n + 1)
  | .wantWrite :: results, incoming, n + 1 => readAll results incoming (n + 1)
  | .failed :: results, incoming, _ + 1 => ⟨.stopped, incoming, results⟩

/-- The length in a frame's first four bytes. -/
def frameLength (lenBuf : Bytes) : UInt32 :=
  (lenBuf.getD 0 0).toUInt32 <<< 24 ||| (lenBuf.getD 1 0).toUInt32 <<< 16 |||
    (lenBuf.getD 2 0).toUInt32 <<< 8 ||| (lenBuf.getD 3 0).toUInt32

/-- The reader's end: what is still to come, and the caller's message. -/
structure Endpoint where
  incoming : Bytes
  out : Message
  deriving DecidableEq

/-- What a call that reads a message returns; `waiting` has not returned. -/
inductive ReadResult where
  | ok
  | timeout
  | closed
  | waiting
  deriving DecidableEq

/-- The second half of `readMessage`: the body, as opcode and payload. -/
def readBody
    (results : List SslResult)
    (len : UInt32)
    (reader : Endpoint) : ReadResult × Endpoint :=
  let rest := readAll results reader.incoming len.toNat
  match rest.progress with
  | .waiting => (.waiting, { reader with incoming := rest.incoming })
  | .stopped => (.closed, { reader with incoming := rest.incoming })
  | .done body =>
      (.ok,
        { incoming := rest.incoming
          out := ⟨EnumByte.ofByte OpName (body.getD 0 0), body.drop 1⟩ })

/-- Read one frame into the caller's message. -/
def readMessage
    (results : List SslResult)
    (reader : Endpoint) : ReadResult × Endpoint :=
  let header := readAll results reader.incoming 4
  match header.progress with
  | .waiting => (.waiting, { reader with incoming := header.incoming })
  | .stopped => (.closed, { reader with incoming := header.incoming })
  | .done lenBuf =>
      let len := frameLength lenBuf
      if len < 1 ∨ len.toNat > kMaxMessageSize then
        (.closed, { reader with incoming := header.incoming })
      else
        readBody header.results len { reader with incoming := header.incoming }

/-- What stands before the timed read: buffered data, or the answer of `select`. -/
inductive Readiness where
  | pending
  | ready
  | timeout
  | failed
  deriving DecidableEq

/-- Wait for data and read one frame. -/
def readMessageTimed
    (readiness : Readiness)
    (results : List SslResult)
    (reader : Endpoint) : ReadResult × Endpoint :=
  match readiness with
  | .timeout => (.timeout, reader)
  | .failed => (.closed, reader)
  | .pending => readMessage results reader
  | .ready => readMessage results reader

/-- One call of a reader: timed where it has a readiness. -/
structure ReadCall where
  readiness : Option Readiness := none
  results : List SslResult

/-- Make one call. -/
def readCall (reader : Endpoint) (call : ReadCall) : ReadResult × Endpoint :=
  match call.readiness with
  | none => readMessage call.results reader
  | some readiness => readMessageTimed readiness call.results reader

/-- What a caller takes from a call: the message, or why there is none. -/
inductive Returned where
  | message (m : Message)
  | timeout
  | closed
  | waiting
  deriving DecidableEq

/-- What repeated calls return. -/
def returned : Endpoint → List ReadCall → List Returned
  | _, [] => []
  | reader, call :: later =>
      let answer := readCall reader call
      let first : Returned :=
        match answer.1 with
        | .ok => .message answer.2.out
        | .timeout => .timeout
        | .closed => .closed
        | .waiting => .waiting
      first :: returned answer.2 later

/-! ## The loops -/

/-- How many of the results move bytes. -/
def moves (results : List SslResult) : Nat :=
  results.countP fun result =>
    match result with
    | .moved _ => true
    | .wantRead => false
    | .wantWrite => false
    | .failed => false

@[simp] theorem moves_moved (more : Nat) (results : List SslResult) :
    moves (.moved more :: results) = moves results + 1 := by
  simp [moves]

@[simp] theorem moves_wantRead (results : List SslResult) :
    moves (.wantRead :: results) = moves results := by
  simp [moves]

@[simp] theorem moves_wantWrite (results : List SslResult) :
    moves (.wantWrite :: results) = moves results := by
  simp [moves]

/-- With enough moves, `readAll` reads the next bytes of the stream. -/
theorem readAll_enough
    {results : List SslResult}
    {incoming : Bytes}
    {n : Nat}
    (healthy : .failed ∉ results)
    (there : n ≤ incoming.length)
    (served : n ≤ moves results) :
    ∃ left,
      readAll results incoming n =
          ⟨.done (incoming.take n), incoming.drop n, left⟩ ∧
        .failed ∉ left ∧
        moves results ≤ moves left + n := by
  induction results generalizing incoming n with
  | nil =>
      obtain rfl : n = 0 := by
        simpa [moves] using served
      exact ⟨[], rfl, by simp, by simp⟩
  | cons result rest inductionHypothesis =>
      cases n with
      | zero =>
          exact ⟨result :: rest, by simp [readAll], healthy, by simp⟩
      | succ n =>
          simp only [List.mem_cons, not_or] at healthy
          cases result with
          | moved more =>
              simp only [readAll]
              have positive : 0 < min (more + 1) (n + 1) := by
                omega
              have atMost : min (more + 1) (n + 1) ≤ n + 1 :=
                Nat.min_le_right _ _
              generalize min (more + 1) (n + 1) = taken at positive atMost ⊢
              have width : (incoming.take taken).length = taken :=
                List.length_take_of_le (Nat.le_trans atMost there)
              have notEmpty : (incoming.take taken).isEmpty = false := by
                rw [List.isEmpty_eq_false_iff, ← List.length_pos_iff, width]
                exact positive
              have restThere : n + 1 - taken ≤ (incoming.drop taken).length := by
                rw [List.length_drop]
                omega
              have restServed : n + 1 - taken ≤ moves rest := by
                rw [moves_moved] at served
                omega
              obtain ⟨left, shape, leftHealthy, leftMoves⟩ :=
                inductionHypothesis healthy.2 restThere restServed
              refine ⟨left, ?_, leftHealthy, ?_⟩
              · have whole :
                    incoming.take taken ++
                        (incoming.drop taken).take (n + 1 - taken) =
                      incoming.take (n + 1) := by
                  rw [← List.take_add, Nat.add_sub_cancel' atMost]
                have behind : taken + (n + 1 - taken) = n + 1 :=
                  Nat.add_sub_cancel' atMost
                rw [notEmpty, width, shape]
                simp [Progress.behind, whole, behind]
              · rw [moves_moved]
                omega
          | wantRead =>
              rw [moves_wantRead] at served ⊢
              simpa only [readAll] using
                inductionHypothesis healthy.2 there served
          | wantWrite =>
              rw [moves_wantWrite] at served ⊢
              simpa only [readAll] using
                inductionHypothesis healthy.2 there served
          | failed =>
              exact absurd rfl healthy.1

/-- At the end of the stream, `readAll` stops with nothing left. -/
theorem readAll_short
    {results : List SslResult}
    {incoming : Bytes}
    {n : Nat}
    (healthy : .failed ∉ results)
    (short : incoming.length < n)
    (served : incoming.length < moves results) :
    ∃ left, readAll results incoming n = ⟨.stopped, [], left⟩ := by
  induction results generalizing incoming n with
  | nil =>
      simp [moves] at served
  | cons result rest inductionHypothesis =>
      cases n with
      | zero =>
          simp at short
      | succ n =>
          simp only [List.mem_cons, not_or] at healthy
          cases result with
          | moved more =>
              let piece := incoming.take (min (more + 1) (n + 1))
              by_cases ended : incoming = []
              · exact ⟨rest, by simp [readAll, ended]⟩
              · have notEmpty : piece.isEmpty = false := by
                  simp [piece, ended]
                have positive : 0 < piece.length :=
                  List.length_pos_iff.mpr (List.isEmpty_eq_false_iff.mp notEmpty)
                have within : piece.length ≤ incoming.length := by
                  simp [piece]
                rw [moves_moved] at served
                have restShort :
                    (incoming.drop piece.length).length <
                      n + 1 - piece.length := by
                  rw [List.length_drop]
                  omega
                have restServed :
                    (incoming.drop piece.length).length < moves rest := by
                  rw [List.length_drop]
                  omega
                obtain ⟨left, shape⟩ :=
                  inductionHypothesis healthy.2 restShort restServed
                refine ⟨left, ?_⟩
                simp only [readAll]
                rw [notEmpty, shape]
                simp [Progress.behind]
          | wantRead =>
              rw [moves_wantRead] at served
              simpa only [readAll] using
                inductionHypothesis healthy.2 short served
          | wantWrite =>
              rw [moves_wantWrite] at served
              simpa only [readAll] using
                inductionHypothesis healthy.2 short served
          | failed =>
              exact absurd rfl healthy.1

/-! ## One frame -/

/-- The length field is the big-endian value of its bytes. -/
theorem frameLength_eq
    {lenBuf : Bytes}
    (width : lenBuf.length = 4) :
    frameLength lenBuf = UInt32.ofNat (bigEndianValue lenBuf) := by
  obtain ⟨first, second, third, fourth, rfl⟩ :=
    List.length_eq_four.mp width
  exact Reader64.word32 first second third fourth

/-- The length field of a frame is read back. -/
theorem frameLength_putU32
    (value : UInt32) :
    frameLength (putU32 value) = value := by
  rw [frameLength_eq (length_putU32 value), putU32, bigEndianValue_bigEndian]
  have bound : value.toNat < 256 ^ 4 := value.toNat_lt
  rw [Nat.mod_eq_of_lt bound]
  exact UInt32.ofNat_toNat

/-- A frame is four bytes longer than the message it carries. -/
theorem length_frameOf
    (m : Message) :
    (frameOf m).length = 4 + (1 + m.payload.length) := by
  simp only [frameOf, List.length_append, length_putU32, length_putU8]
  omega

/-- The length of a frame that fits is in range. -/
theorem frame_length_field
    {m : Message}
    (fits : FitsFrame m) :
    (UInt32.ofNat (1 + m.payload.length)).toNat = 1 + m.payload.length := by
  have capSmall : kMaxMessageSize < UInt32.size := by
    decide
  exact UInt32.toNat_ofNat_of_lt' (Nat.lt_of_le_of_lt fits capSmall)

/-- The connection serves a call: nothing fails, and enough calls move bytes. -/
structure ReadCall.Served (call : ReadCall) : Prop where
  selected : call.readiness ≠ some .failed
  healthy : .failed ∉ call.results
  moves : 4 + kMaxMessageSize ≤ moves call.results

section Frames

variable
  {results : List SslResult}
  (healthy : .failed ∉ results)
  (served : 4 + kMaxMessageSize ≤ moves results)

include healthy served

/-- The length of a frame is read before its body. -/
theorem readMessage_length
    (len : UInt32)
    (behind : Bytes)
    (out : Message) :
    ∃ left,
      (.failed ∉ left ∧ kMaxMessageSize ≤ moves left) ∧
        readMessage results ⟨putU32 len ++ behind, out⟩ =
          if len < 1 ∨ len.toNat > kMaxMessageSize then
            (.closed, ⟨behind, out⟩)
          else
            readBody left len ⟨behind, out⟩ := by
  have there : 4 ≤ (putU32 len ++ behind).length := by
    simp
  obtain ⟨left, header, leftHealthy, leftMoves⟩ :=
    readAll_enough healthy there (Nat.le_trans (Nat.le_add_right 4 _) served)
  rw [List.take_left' (length_putU32 len), List.drop_left' (length_putU32 len)]
    at header
  refine ⟨left, ⟨leftHealthy, by omega⟩, ?_⟩
  simp only [readMessage, header, frameLength_putU32]

/-- An invalid length is refused and leaves the caller's message alone. -/
theorem readMessage_invalid_length
    {lenBuf : Bytes}
    (width : lenBuf.length = 4)
    (invalid :
      bigEndianValue lenBuf = 0 ∨ kMaxMessageSize < bigEndianValue lenBuf)
    (behind : Bytes)
    (out : Message) :
    readMessage results ⟨lenBuf ++ behind, out⟩ = (.closed, ⟨behind, out⟩) := by
  have narrow : bigEndianValue lenBuf < 2 ^ 32 := by
    have bound := bigEndianValue_lt lenBuf
    rwa [width] at bound
  have field : (UInt32.ofNat (bigEndianValue lenBuf)).toNat = bigEndianValue lenBuf :=
    UInt32.toNat_ofNat_of_lt' narrow
  have isField : lenBuf = putU32 (UInt32.ofNat (bigEndianValue lenBuf)) := by
    rw [putU32, field, ← width, bigEndian_bigEndianValue]
  obtain ⟨left, _, shape⟩ :=
    readMessage_length healthy served (UInt32.ofNat (bigEndianValue lenBuf)) behind out
  rw [← isField] at shape
  rw [shape, if_pos]
  rw [UInt32.lt_iff_toNat_lt, field]
  rcases invalid with zero | large
  · left
    rw [zero]
    decide
  · exact Or.inr large

section Valid

variable {m : Message} (fits : FitsFrame m)

include fits

/-- The body of a frame that fits is read next. -/
theorem readMessage_body
    (behind : Bytes)
    (out : Message) :
    ∃ left,
      (.failed ∉ left ∧ kMaxMessageSize ≤ moves left) ∧
        readMessage results
            ⟨putU32 (UInt32.ofNat (1 + m.payload.length)) ++ behind, out⟩ =
          readBody left (UInt32.ofNat (1 + m.payload.length)) ⟨behind, out⟩ := by
  obtain ⟨left, leftServed, shape⟩ :=
    readMessage_length healthy served (UInt32.ofNat (1 + m.payload.length)) behind out
  refine ⟨left, leftServed, ?_⟩
  rw [shape, if_neg]
  have cap : 1 + m.payload.length ≤ kMaxMessageSize := fits
  rw [UInt32.lt_iff_toNat_lt, frame_length_field fits, not_or, Nat.not_lt]
  constructor
  · exact Nat.le_add_right 1 _
  · omega

/-- A whole frame is read as its message. -/
theorem readMessage_frame
    (rest : Bytes)
    (out : Message) :
    readMessage results ⟨frameOf m ++ rest, out⟩ = (.ok, ⟨rest, m⟩) := by
  obtain ⟨left, ⟨leftHealthy, leftServed⟩, shape⟩ :=
    readMessage_body healthy served fits
      ((putU8 m.op.toByte ++ m.payload) ++ rest) out
  have width :
      (putU8 m.op.toByte ++ m.payload).length = 1 + m.payload.length := by
    simp
  have there :
      1 + m.payload.length ≤
        ((putU8 m.op.toByte ++ m.payload) ++ rest).length := by
    rw [List.length_append, width]
    exact Nat.le_add_right _ _
  obtain ⟨after, body, _⟩ :=
    readAll_enough leftHealthy there (Nat.le_trans fits leftServed)
  rw [List.take_left' width, List.drop_left' width] at body
  have whole :
      frameOf m ++ rest =
        putU32 (UInt32.ofNat (1 + m.payload.length)) ++
          ((putU8 m.op.toByte ++ m.payload) ++ rest) := by
    simp [frameOf]
  rw [whole, shape, readBody]
  simp only [frame_length_field fits, body]
  simp [putU8]

/-- A part of a frame is not a message, and nothing is left behind it. -/
theorem readMessage_part
    {cut : Nat}
    (partly : cut < (frameOf m).length)
    (out : Message) :
    readMessage results ⟨(frameOf m).take cut, out⟩ = (.closed, ⟨[], out⟩) := by
  have cap : 1 + m.payload.length ≤ kMaxMessageSize := fits
  rw [length_frameOf] at partly
  by_cases inHeader : cut < 4
  · have short : ((frameOf m).take cut).length < 4 := by
      rw [List.length_take]
      omega
    obtain ⟨left, shape⟩ := readAll_short healthy short (by omega)
    simp only [readMessage, shape]
  · have shape :
        (frameOf m).take cut =
          putU32 (UInt32.ofNat (1 + m.payload.length)) ++
            (putU8 m.op.toByte ++ m.payload).take (cut - 4) := by
      rw [frameOf, List.append_assoc, List.take_append,
        List.take_of_length_le (by rw [length_putU32]; omega), length_putU32]
    obtain ⟨left, ⟨leftHealthy, leftServed⟩, read⟩ :=
      readMessage_body healthy served fits
        ((putU8 m.op.toByte ++ m.payload).take (cut - 4)) out
    have short :
        ((putU8 m.op.toByte ++ m.payload).take (cut - 4)).length <
          1 + m.payload.length := by
      rw [List.length_take]
      omega
    obtain ⟨after, body⟩ := readAll_short leftHealthy short (by omega)
    rw [shape, read, readBody]
    simp only [frame_length_field fits, body]

end Valid

end Frames

/-! ## Repeated calls -/

/-- At the end of the stream a call fails. -/
theorem readMessage_ended
    {results : List SslResult}
    (healthy : .failed ∉ results)
    (served : 4 + kMaxMessageSize ≤ moves results)
    (out : Message) :
    readMessage results ⟨[], out⟩ = (.closed, ⟨[], out⟩) := by
  have short : ([] : Bytes).length < 4 := by
    simp
  obtain ⟨left, shape⟩ := readAll_short healthy short (by simp; omega)
  simp only [readMessage, shape]

/-- A call waits in vain, or it reads. -/
theorem ReadCall.Served.readCall
    {call : ReadCall}
    (served : call.Served)
    (reader : Endpoint) :
    readCall reader call =
      if call.readiness = some .timeout then
        (.timeout, reader)
      else
        readMessage call.results reader := by
  have selected := served.selected
  cases readiness : call.readiness with
  | none =>
      simp [SocketTransport.readCall, readiness]
  | some answer =>
      cases answer with
      | pending =>
          simp [SocketTransport.readCall, readiness, readMessageTimed]
      | ready =>
          simp [SocketTransport.readCall, readiness, readMessageTimed]
      | timeout =>
          simp [SocketTransport.readCall, readiness, readMessageTimed]
      | failed =>
          exact absurd readiness selected

/-- Padding behind the part that is taken does not matter. -/
theorem take_padded
    {α : Type}
    (count : Nat)
    (front : List α)
    (padding : α) :
    (front ++ List.replicate (count + 1) padding).take count =
      (front ++ List.replicate count padding).take count := by
  have narrow : count - front.length ≤ count := Nat.sub_le _ _
  rw [List.take_append, List.take_append, List.take_replicate,
    List.take_replicate, Nat.min_eq_left narrow,
    Nat.min_eq_left (Nat.le_succ_of_le narrow)]

/--
Repeated calls on a stream of frames that ends somewhere return the complete
messages in order and fail from then on; timeouts change nothing.
-/
theorem returned_stream
    {messages : List Message}
    (fit : ∀ m ∈ messages, FitsFrame m)
    (cut : Nat)
    (out : Message)
    {calls : List ReadCall}
    (served : ∀ call ∈ calls, call.Served) :
    let answered := calls.filter fun call => call.readiness ≠ some .timeout
    (returned ⟨(BlockStream.stream frameOf messages).take cut, out⟩
          calls).filter (· ≠ .timeout) =
      ((BlockStream.complete frameOf cut messages).map Returned.message ++
          List.replicate answered.length Returned.closed).take
        answered.length := by
  induction calls generalizing messages cut out with
  | nil =>
      simp [returned]
  | cons call later inductionHypothesis =>
      rw [List.forall_mem_cons] at served
      obtain ⟨callServed, laterServed⟩ := served
      have healthy := callServed.healthy
      have moves := callServed.moves
      by_cases waits : call.readiness = some .timeout
      · have unchanged :=
          callServed.readCall ⟨(BlockStream.stream frameOf messages).take cut, out⟩
        rw [if_pos waits] at unchanged
        simpa [returned, unchanged, waits] using
          inductionHypothesis fit cut out laterServed
      · have reads : ∀ reader, readCall reader call =
            readMessage call.results reader := by
          intro reader
          rw [callServed.readCall reader, if_neg waits]
        cases messages with
        | nil =>
            have ended := readMessage_ended healthy moves out
            have rest := inductionHypothesis fit cut out laterServed
            simp only [BlockStream.stream_nil, List.take_nil] at rest ⊢
            simpa [returned, reads, ended, waits, BlockStream.complete,
              List.replicate_succ] using rest
        | cons m others =>
            rw [List.forall_mem_cons] at fit
            by_cases whole : (frameOf m).length ≤ cut
            · have rest :=
                inductionHypothesis fit.2 (cut - (frameOf m).length) m laterServed
              rw [BlockStream.take_stream_of_le frameOf whole]
              have read := readMessage_frame healthy moves fit.1
                ((BlockStream.stream frameOf others).take
                  (cut - (frameOf m).length)) out
              simpa [returned, reads, read, waits, BlockStream.complete, whole,
                take_padded] using rest
            · have partly : cut < (frameOf m).length := Nat.lt_of_not_le whole
              rw [BlockStream.take_stream_of_lt frameOf partly]
              have read := readMessage_part healthy moves fit.1 partly out
              have rest :=
                inductionHypothesis (List.forall_mem_nil FitsFrame) 0 out
                  laterServed
              simp only [BlockStream.stream_nil, List.take_nil] at rest
              simpa [returned, reads, read, waits, BlockStream.complete, whole,
                List.replicate_succ] using rest

end RadminPro.SocketTransport
