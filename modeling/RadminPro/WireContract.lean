import RadminPro.ReaderBounds
import RadminPro.WireCodecExact

namespace RadminPro

open ByteCodec

/-!
# The whole wire contract

Each message type has its `decode` once more over the 64-bit reader, which is
shown to do the same on every payload that fits the address space.  With the
exactness of the codecs this settles which payloads are accepted, what they
decode to, and that no read leaves the buffer.
-/

/-- Run a parse of the 64-bit reader on a whole payload. -/
def parseAll64 {α : Type} (parse64 : Parse64 α) (payload : Bytes) :
    Except ReadFault α :=
  parse64.run' (Reader64.start payload)

/-- A one-byte enumeration field. -/
def readEnum64 (Name : Type) [ByteEnum Name] : Parse64 (EnumByte Name) :=
  EnumByte.ofByte Name <$> Reader64.u8

/-- The fixed-size hash field. -/
def getHash64 : Parse64 Hash256 :=
  Hash256.ofBytes <$> Reader64.bytes 32

theorem readEnum64_simulates (Name : Type) [ByteEnum Name] :
    Reader64.Simulates (readEnum64 Name) (readEnum Name) :=
  Reader64.u8_simulates.map _

theorem getHash64_simulates : Reader64.Simulates getHash64 getHash :=
  (Reader64.bytes_simulates (by decide)).map _

/-- A simulated parse of a whole payload is the parse, and faults nowhere. -/
theorem parseAll64_eq
    {α : Type}
    {payload : Bytes}
    (addressable : payload.length < 2 ^ 63)
    {parse64 : Parse64 α}
    {parse : Parse α}
    (simulates : Reader64.Simulates parse64 parse) :
    parseAll64 parse64 payload =
      (parseAll parse payload).mapError .thrown := by
  have started : Reader64.At (Cursor.start payload) (Reader64.start payload) := by
    refine ⟨rfl, ?_, rfl, addressable⟩
    exact UInt64.toNat_ofNat_of_lt' (addressable.trans (by decide))
  have agrees := simulates _ _ started
  change (parse64 (Reader64.start payload)).map Prod.fst =
    ((parse (Cursor.start payload)).map Prod.fst).mapError .thrown
  generalize parse64 (Reader64.start payload) = outcome64 at agrees ⊢
  generalize parse (Cursor.start payload) = outcome at agrees ⊢
  cases agrees with
  | ok value moved =>
      rfl
  | thrown failure =>
      rfl

/-! ## The decoders over the 64-bit reader -/

namespace HelloMsg

/-- `decode` on the members of the reader. -/
def decode64 (payload : Bytes) : Except ReadFault HelloMsg :=
  parseAll64
    (do
      let version ← Reader64.u16
      let clientName ← Reader64.str
      pure { version, clientName })
    payload

/-- No read goes past the buffer. -/
theorem decode64_eq
    {payload : Bytes}
    (addressable : payload.length < 2 ^ 63) :
    decode64 payload = (decode payload).mapError .thrown := by
  apply parseAll64_eq addressable
  apply Reader64.u16_simulates.bind
  intro version
  apply Reader64.str_simulates.bind
  intro clientName
  exact .pure _

end HelloMsg

namespace ServerHelloMsg

/-- `decode` on the members of the reader. -/
def decode64 (payload : Bytes) : Except ReadFault ServerHelloMsg :=
  parseAll64
    (do
      let version ← Reader64.u16
      let serverName ← Reader64.str
      pure { version, serverName })
    payload

/-- No read goes past the buffer. -/
theorem decode64_eq
    {payload : Bytes}
    (addressable : payload.length < 2 ^ 63) :
    decode64 payload = (decode payload).mapError .thrown := by
  apply parseAll64_eq addressable
  apply Reader64.u16_simulates.bind
  intro version
  apply Reader64.str_simulates.bind
  intro serverName
  exact .pure _

end ServerHelloMsg

namespace AuthRequestMsg

/-- `decode` on the members of the reader. -/
def decode64 (payload : Bytes) : Except ReadFault AuthRequestMsg :=
  parseAll64
    (do
      let username ← Reader64.str
      let password ← Reader64.str
      pure { username, password })
    payload

/-- No read goes past the buffer. -/
theorem decode64_eq
    {payload : Bytes}
    (addressable : payload.length < 2 ^ 63) :
    decode64 payload = (decode payload).mapError .thrown := by
  apply parseAll64_eq addressable
  apply Reader64.str_simulates.bind
  intro username
  apply Reader64.str_simulates.bind
  intro password
  exact .pure _

end AuthRequestMsg

namespace AuthResultMsg

/-- `decode` on the members of the reader. -/
def decode64 (payload : Bytes) : Except ReadFault AuthResultMsg :=
  parseAll64
    (do
      let status ← readEnum64 AuthStatusName
      let grantedRights ← Reader64.u32
      let sessionId ← Reader64.u64
      pure { status, grantedRights, sessionId })
    payload

/-- No read goes past the buffer. -/
theorem decode64_eq
    {payload : Bytes}
    (addressable : payload.length < 2 ^ 63) :
    decode64 payload = (decode payload).mapError .thrown := by
  apply parseAll64_eq addressable
  apply (readEnum64_simulates AuthStatusName).bind
  intro status
  apply Reader64.u32_simulates.bind
  intro grantedRights
  apply Reader64.u64_simulates.bind
  intro sessionId
  exact .pure _

end AuthResultMsg

namespace SessionStartMsg

/-- `decode` on the members of the reader. -/
def decode64 (payload : Bytes) : Except ReadFault SessionStartMsg :=
  parseAll64
    (do
      let mode ← readEnum64 ConnectionModeName
      pure { mode })
    payload

/-- No read goes past the buffer. -/
theorem decode64_eq
    {payload : Bytes}
    (addressable : payload.length < 2 ^ 63) :
    decode64 payload = (decode payload).mapError .thrown := by
  apply parseAll64_eq addressable
  apply (readEnum64_simulates ConnectionModeName).bind
  intro mode
  exact .pure _

end SessionStartMsg

namespace FrameInfoMsg

/-- `decode` on the members of the reader. -/
def decode64 (payload : Bytes) : Except ReadFault FrameInfoMsg :=
  parseAll64
    (do
      let sequence ← Reader64.u32
      let width ← Reader64.u16
      let height ← Reader64.u16
      let stride ← Reader64.u32
      let format ← readEnum64 PixelFormatName
      let keyframe ← (fun byte => byte != 0) <$> Reader64.u8
      pure { sequence, width, height, stride, format, keyframe })
    payload

/-- No read goes past the buffer. -/
theorem decode64_eq
    {payload : Bytes}
    (addressable : payload.length < 2 ^ 63) :
    decode64 payload = (decode payload).mapError .thrown := by
  apply parseAll64_eq addressable
  apply Reader64.u32_simulates.bind
  intro sequence
  apply Reader64.u16_simulates.bind
  intro width
  apply Reader64.u16_simulates.bind
  intro height
  apply Reader64.u32_simulates.bind
  intro stride
  apply (readEnum64_simulates PixelFormatName).bind
  intro format
  apply (Reader64.u8_simulates.map _).bind
  intro keyframe
  exact .pure _

end FrameInfoMsg

namespace FrameDataMsg

/-- `decode` on the members of the reader. -/
def decode64 (payload : Bytes) : Except ReadFault FrameDataMsg :=
  parseAll64
    (do
      let sequence ← Reader64.u32
      let offset ← Reader64.u32
      let data ← Reader64.blob
      pure { sequence, offset, data })
    payload

/-- No read goes past the buffer. -/
theorem decode64_eq
    {payload : Bytes}
    (addressable : payload.length < 2 ^ 63) :
    decode64 payload = (decode payload).mapError .thrown := by
  apply parseAll64_eq addressable
  apply Reader64.u32_simulates.bind
  intro sequence
  apply Reader64.u32_simulates.bind
  intro offset
  apply Reader64.blob_simulates.bind
  intro data
  exact .pure _

end FrameDataMsg

namespace FrameRectMsg

/-- `decode` on the members of the reader. -/
def decode64 (payload : Bytes) : Except ReadFault FrameRectMsg :=
  parseAll64
    (do
      let sequence ← Reader64.u32
      let x ← Reader64.u16
      let y ← Reader64.u16
      let w ← Reader64.u16
      let h ← Reader64.u16
      let pixels ← Reader64.blob
      pure { sequence, x, y, w, h, pixels })
    payload

/-- No read goes past the buffer. -/
theorem decode64_eq
    {payload : Bytes}
    (addressable : payload.length < 2 ^ 63) :
    decode64 payload = (decode payload).mapError .thrown := by
  apply parseAll64_eq addressable
  apply Reader64.u32_simulates.bind
  intro sequence
  apply Reader64.u16_simulates.bind
  intro x
  apply Reader64.u16_simulates.bind
  intro y
  apply Reader64.u16_simulates.bind
  intro w
  apply Reader64.u16_simulates.bind
  intro h
  apply Reader64.blob_simulates.bind
  intro pixels
  exact .pure _

end FrameRectMsg

namespace FileUploadReqMsg

/-- `decode` on the members of the reader. -/
def decode64 (payload : Bytes) : Except ReadFault FileUploadReqMsg :=
  parseAll64
    (do
      let remotePath ← Reader64.str
      let size ← Reader64.u64
      let sha256 ← getHash64
      pure { remotePath, size, sha256 })
    payload

/-- No read goes past the buffer. -/
theorem decode64_eq
    {payload : Bytes}
    (addressable : payload.length < 2 ^ 63) :
    decode64 payload = (decode payload).mapError .thrown := by
  apply parseAll64_eq addressable
  apply Reader64.str_simulates.bind
  intro remotePath
  apply Reader64.u64_simulates.bind
  intro size
  apply getHash64_simulates.bind
  intro sha256
  exact .pure _

end FileUploadReqMsg

namespace FileAcceptMsg

/-- `decode` on the members of the reader. -/
def decode64 (payload : Bytes) : Except ReadFault FileAcceptMsg :=
  parseAll64
    (do
      let transferId ← Reader64.u32
      let size ← Reader64.u64
      let sha256 ← getHash64
      pure { transferId, size, sha256 })
    payload

/-- No read goes past the buffer. -/
theorem decode64_eq
    {payload : Bytes}
    (addressable : payload.length < 2 ^ 63) :
    decode64 payload = (decode payload).mapError .thrown := by
  apply parseAll64_eq addressable
  apply Reader64.u32_simulates.bind
  intro transferId
  apply Reader64.u64_simulates.bind
  intro size
  apply getHash64_simulates.bind
  intro sha256
  exact .pure _

end FileAcceptMsg

namespace FileBlockMsg

/-- `decode` on the members of the reader. -/
def decode64 (payload : Bytes) : Except ReadFault FileBlockMsg :=
  parseAll64
    (do
      let transferId ← Reader64.u32
      let sequence ← Reader64.u32
      let data ← Reader64.blob
      pure { transferId, sequence, data })
    payload

/-- No read goes past the buffer. -/
theorem decode64_eq
    {payload : Bytes}
    (addressable : payload.length < 2 ^ 63) :
    decode64 payload = (decode payload).mapError .thrown := by
  apply parseAll64_eq addressable
  apply Reader64.u32_simulates.bind
  intro transferId
  apply Reader64.u32_simulates.bind
  intro sequence
  apply Reader64.blob_simulates.bind
  intro data
  exact .pure _

end FileBlockMsg

namespace FileVerifyMsg

/-- `decode` on the members of the reader. -/
def decode64 (payload : Bytes) : Except ReadFault FileVerifyMsg :=
  parseAll64
    (do
      let transferId ← Reader64.u32
      let status ← readEnum64 FileOpStatusName
      pure { transferId, status })
    payload

/-- No read goes past the buffer. -/
theorem decode64_eq
    {payload : Bytes}
    (addressable : payload.length < 2 ^ 63) :
    decode64 payload = (decode payload).mapError .thrown := by
  apply parseAll64_eq addressable
  apply Reader64.u32_simulates.bind
  intro transferId
  apply (readEnum64_simulates FileOpStatusName).bind
  intro status
  exact .pure _

end FileVerifyMsg

namespace FileMoveMsg

/-- `decode` on the members of the reader. -/
def decode64 (payload : Bytes) : Except ReadFault FileMoveMsg :=
  parseAll64
    (do
      let srcPath ← Reader64.str
      let dstPath ← Reader64.str
      pure { srcPath, dstPath })
    payload

/-- No read goes past the buffer. -/
theorem decode64_eq
    {payload : Bytes}
    (addressable : payload.length < 2 ^ 63) :
    decode64 payload = (decode payload).mapError .thrown := by
  apply parseAll64_eq addressable
  apply Reader64.str_simulates.bind
  intro srcPath
  apply Reader64.str_simulates.bind
  intro dstPath
  exact .pure _

end FileMoveMsg

namespace FileDeleteMsg

/-- `decode` on the members of the reader. -/
def decode64 (payload : Bytes) : Except ReadFault FileDeleteMsg :=
  parseAll64
    (do
      let path ← Reader64.str
      pure { path })
    payload

/-- No read goes past the buffer. -/
theorem decode64_eq
    {payload : Bytes}
    (addressable : payload.length < 2 ^ 63) :
    decode64 payload = (decode payload).mapError .thrown := by
  apply parseAll64_eq addressable
  apply Reader64.str_simulates.bind
  intro path
  exact .pure _

end FileDeleteMsg

namespace FileOpResultMsg

/-- `decode` on the members of the reader. -/
def decode64 (payload : Bytes) : Except ReadFault FileOpResultMsg :=
  parseAll64
    (do
      let status ← readEnum64 FileOpStatusName
      let message ← Reader64.str
      pure { status, message })
    payload

/-- No read goes past the buffer. -/
theorem decode64_eq
    {payload : Bytes}
    (addressable : payload.length < 2 ^ 63) :
    decode64 payload = (decode payload).mapError .thrown := by
  apply parseAll64_eq addressable
  apply (readEnum64_simulates FileOpStatusName).bind
  intro status
  apply Reader64.str_simulates.bind
  intro message
  exact .pure _

end FileOpResultMsg

namespace ErrorMsg

/-- `decode` on the members of the reader. -/
def decode64 (payload : Bytes) : Except ReadFault ErrorMsg :=
  parseAll64
    (do
      let code ← Reader64.u32
      let message ← Reader64.str
      pure { code, message })
    payload

/-- No read goes past the buffer. -/
theorem decode64_eq
    {payload : Bytes}
    (addressable : payload.length < 2 ^ 63) :
    decode64 payload = (decode payload).mapError .thrown := by
  apply parseAll64_eq addressable
  apply Reader64.u32_simulates.bind
  intro code
  apply Reader64.str_simulates.bind
  intro message
  exact .pure _

end ErrorMsg

/-! ## Exactness of the contract -/

/--
A codec whose `decode` returns a message exactly on its encoding followed by a
tail, and throws on everything else.  `canonical` is what the decoder makes of
a payload before it compares, `fits` what the length prefixes can express.
-/
structure ExactCodec
    {Msg : Type}
    (encode : Msg → Bytes)
    (decode : Bytes → Except DeserializeError Msg)
    (decode64 : Bytes → Except ReadFault Msg)
    (fits : Msg → Prop)
    (canonical : Bytes → Bytes) : Prop where
  accepts :
    ∀ payload m,
      decode payload = .ok m ↔
        fits m ∧ ∃ tail, canonical payload = encode m ++ tail
  throws :
    ∀ payload,
      (¬ ∃ m, fits m ∧ ∃ tail, canonical payload = encode m ++ tail) →
      ∃ failure, decode payload = .error failure
  roundTrip : ∀ m, fits m → decode (encode m) = .ok m
  strictPrefix :
    ∀ m payload,
      fits m →
      payload <+: encode m →
      payload ≠ encode m →
      ∃ failure, decode payload = .error failure
  inBounds :
    ∀ payload,
      payload.length < 2 ^ 63 →
      decode64 payload ≠ .error .pastEnd ∧
        decode64 payload = (decode payload).mapError .thrown

namespace ExactCodec

variable {Msg : Type}
variable {encode : Msg → Bytes}
variable {decode : Bytes → Except DeserializeError Msg}
variable {decode64 : Bytes → Except ReadFault Msg}
variable {fits : Msg → Prop}

/-- A decoder that does what `decode` does never faults. -/
theorem inBounds_of_eq
    (same : ∀ payload, payload.length < 2 ^ 63 →
      decode64 payload = (decode payload).mapError .thrown)
    (payload : Bytes)
    (addressable : payload.length < 2 ^ 63) :
    decode64 payload ≠ .error .pastEnd ∧
      decode64 payload = (decode payload).mapError .thrown := by
  have isSame := same payload addressable
  refine ⟨?_, isSame⟩
  rw [isSame]
  cases decode payload with
  | ok m =>
      simp [Except.mapError]
  | error failure =>
      simp [Except.mapError]

/-- What is not returned is thrown. -/
theorem throws_of_not_ok
    {payload : Bytes}
    (rejected : ∀ m, decode payload ≠ .ok m) :
    ∃ failure, decode payload = .error failure := by
  cases outcome : decode payload with
  | ok m =>
      exact absurd outcome (rejected m)
  | error failure =>
      exact ⟨failure, rfl⟩

/-- A codec that accepts exactly its encodings with a tail is exact. -/
theorem of_accepts
    (accepts :
      ∀ {payload m},
        decode payload = .ok m ↔
          fits m ∧ ∃ tail, payload = encode m ++ tail)
    (same : ∀ {payload}, payload.length < 2 ^ 63 →
      decode64 payload = (decode payload).mapError .thrown) :
    ExactCodec encode decode decode64 fits id where
  accepts _ _ := accepts
  throws := by
    intro payload none
    apply throws_of_not_ok
    intro m accepted
    exact none ⟨m, accepts.mp accepted⟩
  roundTrip := by
    intro m fit
    exact accepts.mpr ⟨fit, [], (List.append_nil _).symm⟩
  strictPrefix := by
    rintro m payload fit ⟨rest, whole⟩ strict
    apply throws_of_not_ok
    intro other accepted
    obtain ⟨otherFit, tail, shape⟩ := accepts.mp accepted
    -- The whole encoding starts with that of the other message as well.
    have same : m = other := by
      have first := accepts.mpr ⟨fit, [], (List.append_nil (encode m)).symm⟩
      have second : decode (encode m) = .ok other :=
        accepts.mpr ⟨otherFit, tail ++ rest, by
          rw [← whole, shape, List.append_assoc]⟩
      rw [first] at second
      exact Except.ok.inj second
    subst other
    have noRest : tail = [] ∧ rest = [] := by
      have lengths := congrArg List.length whole
      simp only [shape, List.length_append] at lengths
      constructor
      · exact List.length_eq_zero_iff.mp (by omega)
      · exact List.length_eq_zero_iff.mp (by omega)
    apply strict
    rw [shape, noRest.1, List.append_nil]
  inBounds := inBounds_of_eq fun _ => same

/-- A codec without a length to fit. -/
theorem of_accepts_all
    (accepts :
      ∀ {payload m},
        decode payload = .ok m ↔ ∃ tail, payload = encode m ++ tail)
    (same : ∀ {payload}, payload.length < 2 ^ 63 →
      decode64 payload = (decode payload).mapError .thrown) :
    ExactCodec encode decode decode64 (fun _ => True) id := by
  apply of_accepts _ same
  intro payload m
  rw [accepts, true_and]

end ExactCodec

namespace FrameInfoMsg

/-- The payload with its keyframe byte, the fourteenth, read as 0 or 1. -/
def canonicalFlag (payload : Bytes) : Bytes :=
  payload.take 13 ++
    (payload.drop 13).modifyHead fun flag => if flag = 0 then 0 else 1

/-- Everything before the keyframe byte. -/
def header (m : FrameInfoMsg) : Bytes :=
  putU32 m.sequence ++ putU16 m.width ++ putU16 m.height ++
    putU32 m.stride ++ putU8 m.format.toByte

@[simp] theorem length_header (m : FrameInfoMsg) : m.header.length = 13 := by
  simp [header]

@[simp] theorem length_encode (m : FrameInfoMsg) : m.encode.length = 14 := by
  simp [encode]

theorem encode_append (m : FrameInfoMsg) (tail : Bytes) :
    m.encode ++ tail = m.header ++ (if m.keyframe then 1 else 0) :: tail := by
  simp [encode, header, putU8]

/-- A payload reads as a message when its bytes do, up to the flag. -/
theorem canonicalFlag_eq_iff
    {payload tail : Bytes}
    {m : FrameInfoMsg} :
    canonicalFlag payload = m.encode ++ tail ↔
      ∃ flag,
        m.keyframe = (flag != 0) ∧ payload = m.header ++ flag :: tail := by
  rw [encode_append]
  constructor
  · intro same
    cases dropped : payload.drop 13 with
    | nil =>
        have lengths := congrArg List.length same
        simp only [canonicalFlag, dropped, List.modifyHead, List.append_nil,
          List.length_take, List.length_append, length_header,
          List.length_cons] at lengths
        omega
    | cons flag rest =>
        have sized : (payload.take 13).length = m.header.length := by
          have lengths := congrArg List.length dropped
          simp only [List.length_drop, List.length_cons] at lengths
          simp only [List.length_take, length_header]
          omega
        simp only [canonicalFlag, dropped, List.modifyHead] at same
        obtain ⟨sameHeader, sameRest⟩ := List.append_inj same sized
        obtain ⟨sameFlag, rfl⟩ := List.cons.inj sameRest
        refine ⟨flag, ?_, ?_⟩
        · by_cases clear : flag = 0
          · cases isKeyframe : m.keyframe <;> simp_all
          · cases isKeyframe : m.keyframe <;> simp_all
        · rw [← sameHeader, ← dropped, List.take_append_drop]
  · rintro ⟨flag, isFlag, rfl⟩
    have sized : m.header.length = 13 := length_header m
    simp only [canonicalFlag, List.take_left' sized, List.drop_left' sized,
      List.modifyHead, isFlag]
    by_cases clear : flag = 0
    · simp [clear]
    · simp [clear]

/-- A payload decodes when it is an encoding with a tail, up to the flag. -/
theorem decode_ok_iff_canonical
    {payload : Bytes}
    {m : FrameInfoMsg} :
    decode payload = .ok m ↔
      True ∧ ∃ tail, canonicalFlag payload = m.encode ++ tail := by
  rw [decode_ok_iff, true_and]
  simp only [canonicalFlag_eq_iff]
  constructor
  · rintro ⟨flag, tail, isFlag, rfl⟩
    exact ⟨tail, flag, isFlag, by simp [header, putU8]⟩
  · rintro ⟨tail, flag, isFlag, rfl⟩
    exact ⟨flag, tail, isFlag, by simp [header, putU8]⟩

/-- The encoder writes the flag as 0 or 1. -/
theorem canonicalFlag_encode (m : FrameInfoMsg) :
    canonicalFlag m.encode = m.encode ++ [] := by
  apply canonicalFlag_eq_iff.mpr
  refine ⟨if m.keyframe then 1 else 0, ?_, ?_⟩
  · cases m.keyframe with
    | false => rfl
    | true => rfl
  · rw [← encode_append, List.append_nil]

end FrameInfoMsg

/-- The frame geometry is exact up to the flag. -/
theorem FrameInfoMsg.exact :
    ExactCodec encode decode decode64 (fun _ => True) canonicalFlag where
  accepts _ _ := decode_ok_iff_canonical
  throws := by
    intro payload none
    apply ExactCodec.throws_of_not_ok
    intro m accepted
    exact none ⟨m, decode_ok_iff_canonical.mp accepted⟩
  roundTrip := by
    intro m fit
    exact decode_ok_iff_canonical.mpr ⟨fit, [], canonicalFlag_encode m⟩
  strictPrefix := by
    rintro m payload _ ⟨rest, whole⟩ strict
    apply ExactCodec.throws_of_not_ok
    intro other accepted
    obtain ⟨_, tail, shape⟩ := decode_ok_iff_canonical.mp accepted
    obtain ⟨flag, _, rfl⟩ := canonicalFlag_eq_iff.mp shape
    have lengths := congrArg List.length whole
    simp only [List.length_append, List.length_cons, length_header,
      length_encode] at lengths
    apply strict
    have noRest : rest = [] := List.length_eq_zero_iff.mp (by omega)
    rw [← whole, noRest, List.append_nil]
  inBounds := ExactCodec.inBounds_of_eq fun _ => decode64_eq

/-- A text fits its 32-bit length prefix. -/
def FitsPrefix (text : Bytes) : Prop :=
  text.length < 2 ^ 32

/--
Every message type has an exact codec.  The types without a string or a blob
have no length to fit.
-/
theorem wire_codec_exact :
    ExactCodec HelloMsg.encode HelloMsg.decode HelloMsg.decode64
        (fun m => FitsPrefix m.clientName) id ∧
      ExactCodec ServerHelloMsg.encode ServerHelloMsg.decode
        ServerHelloMsg.decode64 (fun m => FitsPrefix m.serverName) id ∧
      ExactCodec AuthRequestMsg.encode AuthRequestMsg.decode
        AuthRequestMsg.decode64
        (fun m => FitsPrefix m.username ∧ FitsPrefix m.password) id ∧
      ExactCodec AuthResultMsg.encode AuthResultMsg.decode
        AuthResultMsg.decode64 (fun _ => True) id ∧
      ExactCodec SessionStartMsg.encode SessionStartMsg.decode
        SessionStartMsg.decode64 (fun _ => True) id ∧
      ExactCodec FrameInfoMsg.encode FrameInfoMsg.decode
        FrameInfoMsg.decode64 (fun _ => True) FrameInfoMsg.canonicalFlag ∧
      ExactCodec FrameDataMsg.encode FrameDataMsg.decode
        FrameDataMsg.decode64 (fun m => FitsPrefix m.data) id ∧
      ExactCodec FrameRectMsg.encode FrameRectMsg.decode
        FrameRectMsg.decode64 (fun m => FitsPrefix m.pixels) id ∧
      ExactCodec FileUploadReqMsg.encode FileUploadReqMsg.decode
        FileUploadReqMsg.decode64 (fun m => FitsPrefix m.remotePath) id ∧
      ExactCodec FileAcceptMsg.encode FileAcceptMsg.decode
        FileAcceptMsg.decode64 (fun _ => True) id ∧
      ExactCodec FileBlockMsg.encode FileBlockMsg.decode
        FileBlockMsg.decode64 (fun m => FitsPrefix m.data) id ∧
      ExactCodec FileVerifyMsg.encode FileVerifyMsg.decode
        FileVerifyMsg.decode64 (fun _ => True) id ∧
      ExactCodec FileMoveMsg.encode FileMoveMsg.decode
        FileMoveMsg.decode64
        (fun m => FitsPrefix m.srcPath ∧ FitsPrefix m.dstPath) id ∧
      ExactCodec FileDeleteMsg.encode FileDeleteMsg.decode
        FileDeleteMsg.decode64 (fun m => FitsPrefix m.path) id ∧
      ExactCodec FileOpResultMsg.encode FileOpResultMsg.decode
        FileOpResultMsg.decode64 (fun m => FitsPrefix m.message) id ∧
      ExactCodec ErrorMsg.encode ErrorMsg.decode ErrorMsg.decode64
        (fun m => FitsPrefix m.message) id :=
  ⟨.of_accepts HelloMsg.decode_ok_iff HelloMsg.decode64_eq,
    .of_accepts ServerHelloMsg.decode_ok_iff ServerHelloMsg.decode64_eq,
    .of_accepts (AuthRequestMsg.decode_ok_iff.trans and_assoc.symm)
      AuthRequestMsg.decode64_eq,
    .of_accepts_all AuthResultMsg.decode_ok_iff AuthResultMsg.decode64_eq,
    .of_accepts_all SessionStartMsg.decode_ok_iff
      SessionStartMsg.decode64_eq,
    FrameInfoMsg.exact,
    .of_accepts FrameDataMsg.decode_ok_iff FrameDataMsg.decode64_eq,
    .of_accepts FrameRectMsg.decode_ok_iff FrameRectMsg.decode64_eq,
    .of_accepts FileUploadReqMsg.decode_ok_iff FileUploadReqMsg.decode64_eq,
    .of_accepts_all FileAcceptMsg.decode_ok_iff
      FileAcceptMsg.decode64_eq,
    .of_accepts FileBlockMsg.decode_ok_iff FileBlockMsg.decode64_eq,
    .of_accepts_all FileVerifyMsg.decode_ok_iff
      FileVerifyMsg.decode64_eq,
    .of_accepts (FileMoveMsg.decode_ok_iff.trans and_assoc.symm)
      FileMoveMsg.decode64_eq,
    .of_accepts FileDeleteMsg.decode_ok_iff FileDeleteMsg.decode64_eq,
    .of_accepts FileOpResultMsg.decode_ok_iff FileOpResultMsg.decode64_eq,
    .of_accepts ErrorMsg.decode_ok_iff ErrorMsg.decode64_eq⟩

/--
The length prefix is narrowed to 32 bits: a client name of 2^32 bytes is
written behind a zero length, and its encoding does not decode to it.
-/
theorem hello_prefix_narrowed :
    ¬ ∀ payload m,
      HelloMsg.decode payload = .ok m ↔
        ∃ tail, payload = m.encode ++ tail := by
  intro claimed
  obtain ⟨clientName, sized⟩ : ∃ clientName : Bytes, clientName.length = 2 ^ 32 :=
    ⟨List.replicate (2 ^ 32) 0, List.length_replicate⟩
  have accepted :=
    (claimed _ { clientName := clientName }).mpr ⟨[], (List.append_nil _).symm⟩
  have fit := (HelloMsg.decode_ok_iff.mp accepted).1
  exact absurd fit (by rw [sized]; exact lt_irrefl _)

end RadminPro
