import RadminPro.WireUtil

namespace RadminPro

open ByteCodec

/-!
# The wire contract between client and server

Opcodes, rights, modes, status codes and the typed messages with their
codecs.  The enumerations are `enum class`es over one byte, which a cast from
the wire can fill with any value, so each is an `EnumByte` over its names.

Each `decode` is shown to accept exactly the encodings followed by any tail.
-/

/-- The protocol version both sides must speak. -/
def kProtocolVersion : UInt16 := 1

/-- The largest frame, 16 MiB. -/
def kMaxMessageSize : Nat := 16 * 1024 * 1024

/-- File data travels in 64 KiB blocks. -/
def kFileBlockSize : Nat := 64 * 1024

/-- The named opcodes. -/
inductive OpName where
  | hello
  | serverHello
  | authRequest
  | authResult
  | sessionStart
  | frameInfo
  | frameData
  | frameEnd
  | frameRect
  | inputMouse
  | inputKey
  | fileUploadReq
  | fileDownloadReq
  | fileAccept
  | fileReject
  | fileBlock
  | fileComplete
  | fileVerify
  | fileMove
  | fileDelete
  | fileOpResult
  | error
  | ping
  | bye
  deriving Repr, DecidableEq

instance : ByteEnum OpName where
  code
    | .hello => 0x01
    | .serverHello => 0x02
    | .authRequest => 0x10
    | .authResult => 0x11
    | .sessionStart => 0x20
    | .frameInfo => 0x30
    | .frameData => 0x31
    | .frameEnd => 0x32
    | .frameRect => 0x33
    | .inputMouse => 0x40
    | .inputKey => 0x41
    | .fileUploadReq => 0x50
    | .fileDownloadReq => 0x51
    | .fileAccept => 0x52
    | .fileReject => 0x53
    | .fileBlock => 0x54
    | .fileComplete => 0x55
    | .fileVerify => 0x56
    | .fileMove => 0x57
    | .fileDelete => 0x58
    | .fileOpResult => 0x59
    | .error => 0x70
    | .ping => 0x7E
    | .bye => 0x7F
  named :=
    [.hello, .serverHello, .authRequest, .authResult, .sessionStart,
      .frameInfo, .frameData, .frameEnd, .frameRect, .inputMouse, .inputKey,
      .fileUploadReq, .fileDownloadReq, .fileAccept, .fileReject, .fileBlock,
      .fileComplete, .fileVerify, .fileMove, .fileDelete, .fileOpResult,
      .error, .ping, .bye]
  complete name := by
    cases name <;> decide
  distinct {first second} same := by
    cases first <;> cases second <;> first | rfl | cases same

/-- The opcode byte of a message. -/
abbrev Op := EnumByte OpName

/-! ## Rights -/

def R_None : UInt32 := 0
def R_AllAccess : UInt32 := (1 : UInt32) <<< 0
def R_RemoteScreenView : UInt32 := (1 : UInt32) <<< 1
def R_RemoteScreenControl : UInt32 := (1 : UInt32) <<< 2
def R_FileTransfer : UInt32 := (1 : UInt32) <<< 3
def R_Chat : UInt32 := (1 : UInt32) <<< 4
def R_SendMessage : UInt32 := (1 : UInt32) <<< 5
def R_Shutdown : UInt32 := (1 : UInt32) <<< 6
def R_Redirect : UInt32 := (1 : UInt32) <<< 7
def R_Telnet : UInt32 := (1 : UInt32) <<< 8
def R_VoiceChat : UInt32 := (1 : UInt32) <<< 9

/-- Whether `granted` permits `need`; `AllAccess` satisfies anything. -/
def hasRight (granted need : UInt32) : Bool :=
  granted &&& R_AllAccess != 0 || granted &&& need == need

/-- The named rights, in the order they are listed. -/
def kRights : List (UInt32 × Bytes) :=
  [(R_AllAccess, ascii "AllAccess"),
    (R_RemoteScreenView, ascii "RemoteScreenView"),
    (R_RemoteScreenControl, ascii "RemoteScreenControl"),
    (R_FileTransfer, ascii "FileTransfer"),
    (R_Chat, ascii "Chat"),
    (R_SendMessage, ascii "SendMessage"),
    (R_Shutdown, ascii "Shutdown"),
    (R_Redirect, ascii "Redirect"),
    (R_Telnet, ascii "Telnet"),
    (R_VoiceChat, ascii "VoiceChat")]

/-- The names of the rights in a mask, joined by `|`. -/
def rightsToString (rights : UInt32) : Bytes :=
  if rights = R_None then
    ascii "None"
  else
    let joined :=
      kRights.foldl
        (fun text right =>
          if rights &&& right.1 ≠ 0 then
            (if text.isEmpty then text else text ++ ascii "|") ++ right.2
          else
            text)
        []
    if joined.isEmpty then ascii "None" else joined

/-! ## One-byte enumerations -/

/-- The named session modes. -/
inductive ConnectionModeName where
  | viewOnly
  | fullControl
  | fileOnly
  deriving Repr, DecidableEq

instance : ByteEnum ConnectionModeName where
  code
    | .viewOnly => 0
    | .fullControl => 1
    | .fileOnly => 2
  named :=
    [.viewOnly, .fullControl, .fileOnly]
  complete name := by
    cases name <;> decide
  distinct {first second} same := by
    cases first <;> cases second <;> first | rfl | cases same

/-- What a client asks a session to be. -/
abbrev ConnectionMode := EnumByte ConnectionModeName

/-- The named authentication outcomes. -/
inductive AuthStatusName where
  | ok
  | badCredentials
  | lockedOut
  | notAuthorized
  | protocolError
  deriving Repr, DecidableEq

instance : ByteEnum AuthStatusName where
  code
    | .ok => 0
    | .badCredentials => 1
    | .lockedOut => 2
    | .notAuthorized => 3
    | .protocolError => 4
  named :=
    [.ok, .badCredentials, .lockedOut, .notAuthorized, .protocolError]
  complete name := by
    cases name <;> decide
  distinct {first second} same := by
    cases first <;> cases second <;> first | rfl | cases same

/-- The outcome of an authentication request. -/
abbrev AuthStatus := EnumByte AuthStatusName

/-- The named outcomes of a file operation. -/
inductive FileOpStatusName where
  | ok
  | denied
  | notFound
  | hashMismatch
  | ioError
  | tooLarge
  | badPath
  deriving Repr, DecidableEq

instance : ByteEnum FileOpStatusName where
  code
    | .ok => 0
    | .denied => 1
    | .notFound => 2
    | .hashMismatch => 3
    | .ioError => 4
    | .tooLarge => 5
    | .badPath => 6
  named :=
    [.ok, .denied, .notFound, .hashMismatch, .ioError, .tooLarge, .badPath]
  complete name := by
    cases name <;> decide
  distinct {first second} same := by
    cases first <;> cases second <;> first | rfl | cases same

/-- The outcome of a file operation. -/
abbrev FileOpStatus := EnumByte FileOpStatusName

/-- The named pixel layouts. -/
inductive PixelFormatName where
  | bgra32
  deriving Repr, DecidableEq

instance : ByteEnum PixelFormatName where
  code
    | .bgra32 => 0
  named :=
    [.bgra32]
  complete name := by
    cases name
    decide
  distinct {first second} same := by
    cases first
    cases second
    rfl

/-- How a frame's pixels are laid out. -/
abbrev PixelFormat := EnumByte PixelFormatName

/-! ## Typed messages -/

/-- One decoded frame off the transport. -/
structure Message where
  op : Op
  payload : Bytes
  deriving DecidableEq

/-- A one-byte enumeration field. -/
def readEnum (Name : Type) [ByteEnum Name] : Parse (EnumByte Name) :=
  EnumByte.ofByte Name <$> ByteReader.u8

/-- Any byte is some value of the enumeration. -/
theorem readEnum_reads
    (Name : Type)
    [ByteEnum Name] :
    ByteCodec.Reads (readEnum Name)
      (fun value written => written = putU8 value.toByte) := by
  refine (ByteReader.u8_reads.map _).congr ?_
  intro value written
  constructor
  · rintro ⟨byte, rfl, rfl⟩
    simp
  · rintro rfl
    exact ⟨_, rfl, by simp⟩

/-- The fixed-size hash field. -/
def getHash : Parse Hash256 :=
  Hash256.ofBytes <$> ByteReader.bytes 32

/-- `getHash` inverts `putHash`. -/
theorem getHash_reads :
    Reads getHash (fun value written => written = value.bytes) := by
  refine ((ByteReader.bytes_reads 32).map _).congr ?_
  intro value written
  constructor
  · rintro ⟨window, ⟨rfl, sized⟩, rfl⟩
    exact (congrArg Hash256.bytes
      (Hash256.ofBytes_bytes ⟨written, sized⟩)).symm
  · rintro rfl
    exact ⟨_, ⟨rfl, value.size⟩, (Hash256.ofBytes_bytes value).symm⟩

/-- Run a parse on a whole payload, ignoring what follows. -/
def parseAll {α : Type} (parse : Parse α) (payload : Bytes) :
    Except DeserializeError α :=
  parse.run' (Cursor.start payload)

/-- The client's greeting. -/
structure HelloMsg where
  version : UInt16 := kProtocolVersion
  clientName : Bytes
  deriving DecidableEq

namespace HelloMsg

/-- The payload of the message. -/
def encode (m : HelloMsg) : Bytes :=
  putU16 m.version ++
    putString m.clientName

/-- Read the message off a payload. -/
def decode (payload : Bytes) : Except DeserializeError HelloMsg :=
  parseAll
    (do
      let version ← ByteReader.u16
      let clientName ← ByteReader.str
      pure { version, clientName })
    payload

end HelloMsg

/-- The server's greeting. -/
structure ServerHelloMsg where
  version : UInt16 := kProtocolVersion
  serverName : Bytes
  deriving DecidableEq

namespace ServerHelloMsg

/-- The payload of the message. -/
def encode (m : ServerHelloMsg) : Bytes :=
  putU16 m.version ++
    putString m.serverName

/-- Read the message off a payload. -/
def decode (payload : Bytes) : Except DeserializeError ServerHelloMsg :=
  parseAll
    (do
      let version ← ByteReader.u16
      let serverName ← ByteReader.str
      pure { version, serverName })
    payload

end ServerHelloMsg

/-- Credentials, sent inside the tunnel. -/
structure AuthRequestMsg where
  username : Bytes
  password : Bytes
  deriving DecidableEq

namespace AuthRequestMsg

/-- The payload of the message. -/
def encode (m : AuthRequestMsg) : Bytes :=
  putString m.username ++
    putString m.password

/-- Read the message off a payload. -/
def decode (payload : Bytes) : Except DeserializeError AuthRequestMsg :=
  parseAll
    (do
      let username ← ByteReader.str
      let password ← ByteReader.str
      pure { username, password })
    payload

end AuthRequestMsg

/-- The verdict on the credentials. -/
structure AuthResultMsg where
  status : AuthStatus := .known .badCredentials
  grantedRights : UInt32 := R_None
  sessionId : UInt64 := 0
  deriving DecidableEq

namespace AuthResultMsg

/-- The payload of the message. -/
def encode (m : AuthResultMsg) : Bytes :=
  putU8 m.status.toByte ++
    putU32 m.grantedRights ++
    putU64 m.sessionId

/-- Read the message off a payload. -/
def decode (payload : Bytes) : Except DeserializeError AuthResultMsg :=
  parseAll
    (do
      let status ← readEnum AuthStatusName
      let grantedRights ← ByteReader.u32
      let sessionId ← ByteReader.u64
      pure { status, grantedRights, sessionId })
    payload

end AuthResultMsg

/-- The mode the client asks for. -/
structure SessionStartMsg where
  mode : ConnectionMode := .known .viewOnly
  deriving DecidableEq

namespace SessionStartMsg

/-- The payload of the message. -/
def encode (m : SessionStartMsg) : Bytes :=
  putU8 m.mode.toByte

/-- Read the message off a payload. -/
def decode (payload : Bytes) : Except DeserializeError SessionStartMsg :=
  parseAll
    (do
      let mode ← readEnum ConnectionModeName
      pure { mode })
    payload

end SessionStartMsg

/-- Geometry of the frame that follows. -/
structure FrameInfoMsg where
  sequence : UInt32 := 0
  width : UInt16 := 0
  height : UInt16 := 0
  stride : UInt32 := 0
  format : PixelFormat := .known .bgra32
  keyframe : Bool := false
  deriving DecidableEq

namespace FrameInfoMsg

/-- The payload of the message. -/
def encode (m : FrameInfoMsg) : Bytes :=
  putU32 m.sequence ++
    putU16 m.width ++
    putU16 m.height ++
    putU32 m.stride ++
    putU8 m.format.toByte ++
    putU8 (if m.keyframe then 1 else 0)

/-- Read the message off a payload. -/
def decode (payload : Bytes) : Except DeserializeError FrameInfoMsg :=
  parseAll
    (do
      let sequence ← ByteReader.u32
      let width ← ByteReader.u16
      let height ← ByteReader.u16
      let stride ← ByteReader.u32
      let format ← readEnum PixelFormatName
      let keyframe ← (fun byte => byte != 0) <$> ByteReader.u8
      pure { sequence, width, height, stride, format, keyframe })
    payload

end FrameInfoMsg

/-- One chunk of a frame, at a byte offset of the frame buffer. -/
structure FrameDataMsg where
  sequence : UInt32 := 0
  offset : UInt32 := 0
  data : Bytes
  deriving DecidableEq

namespace FrameDataMsg

/-- The payload of the message. -/
def encode (m : FrameDataMsg) : Bytes :=
  putU32 m.sequence ++
    putU32 m.offset ++
    putBlob m.data

/-- Read the message off a payload. -/
def decode (payload : Bytes) : Except DeserializeError FrameDataMsg :=
  parseAll
    (do
      let sequence ← ByteReader.u32
      let offset ← ByteReader.u32
      let data ← ByteReader.blob
      pure { sequence, offset, data })
    payload

end FrameDataMsg

/-- One changed tile of a frame, its rows packed tightly. -/
structure FrameRectMsg where
  sequence : UInt32 := 0
  x : UInt16 := 0
  y : UInt16 := 0
  w : UInt16 := 0
  h : UInt16 := 0
  pixels : Bytes
  deriving DecidableEq

namespace FrameRectMsg

/-- The payload of the message. -/
def encode (m : FrameRectMsg) : Bytes :=
  putU32 m.sequence ++
    putU16 m.x ++
    putU16 m.y ++
    putU16 m.w ++
    putU16 m.h ++
    putBlob m.pixels

/-- Read the message off a payload. -/
def decode (payload : Bytes) : Except DeserializeError FrameRectMsg :=
  parseAll
    (do
      let sequence ← ByteReader.u32
      let x ← ByteReader.u16
      let y ← ByteReader.u16
      let w ← ByteReader.u16
      let h ← ByteReader.u16
      let pixels ← ByteReader.blob
      pure { sequence, x, y, w, h, pixels })
    payload

end FrameRectMsg

/-- An upload request with the declared size and hash. -/
structure FileUploadReqMsg where
  remotePath : Bytes
  size : UInt64 := 0
  sha256 : Hash256
  deriving DecidableEq

namespace FileUploadReqMsg

/-- The payload of the message. -/
def encode (m : FileUploadReqMsg) : Bytes :=
  putString m.remotePath ++
    putU64 m.size ++
    m.sha256.bytes

/-- Read the message off a payload. -/
def decode (payload : Bytes) : Except DeserializeError FileUploadReqMsg :=
  parseAll
    (do
      let remotePath ← ByteReader.str
      let size ← ByteReader.u64
      let sha256 ← getHash
      pure { remotePath, size, sha256 })
    payload

end FileUploadReqMsg

/-- A transfer identifier; size and hash are for downloads. -/
structure FileAcceptMsg where
  transferId : UInt32 := 0
  size : UInt64 := 0
  sha256 : Hash256 := ⟨List.replicate 32 0, rfl⟩
  deriving DecidableEq

namespace FileAcceptMsg

/-- The payload of the message. -/
def encode (m : FileAcceptMsg) : Bytes :=
  putU32 m.transferId ++
    putU64 m.size ++
    m.sha256.bytes

/-- Read the message off a payload. -/
def decode (payload : Bytes) : Except DeserializeError FileAcceptMsg :=
  parseAll
    (do
      let transferId ← ByteReader.u32
      let size ← ByteReader.u64
      let sha256 ← getHash
      pure { transferId, size, sha256 })
    payload

end FileAcceptMsg

/-- One block of a transfer. -/
structure FileBlockMsg where
  transferId : UInt32 := 0
  sequence : UInt32 := 0
  data : Bytes
  deriving DecidableEq

namespace FileBlockMsg

/-- The payload of the message. -/
def encode (m : FileBlockMsg) : Bytes :=
  putU32 m.transferId ++
    putU32 m.sequence ++
    putBlob m.data

/-- Read the message off a payload. -/
def decode (payload : Bytes) : Except DeserializeError FileBlockMsg :=
  parseAll
    (do
      let transferId ← ByteReader.u32
      let sequence ← ByteReader.u32
      let data ← ByteReader.blob
      pure { transferId, sequence, data })
    payload

end FileBlockMsg

/-- The receiver's verdict on a transfer. -/
structure FileVerifyMsg where
  transferId : UInt32 := 0
  status : FileOpStatus := .known .ok
  deriving DecidableEq

namespace FileVerifyMsg

/-- The payload of the message. -/
def encode (m : FileVerifyMsg) : Bytes :=
  putU32 m.transferId ++
    putU8 m.status.toByte

/-- Read the message off a payload. -/
def decode (payload : Bytes) : Except DeserializeError FileVerifyMsg :=
  parseAll
    (do
      let transferId ← ByteReader.u32
      let status ← readEnum FileOpStatusName
      pure { transferId, status })
    payload

end FileVerifyMsg

/-- A rename request. -/
structure FileMoveMsg where
  srcPath : Bytes
  dstPath : Bytes
  deriving DecidableEq

namespace FileMoveMsg

/-- The payload of the message. -/
def encode (m : FileMoveMsg) : Bytes :=
  putString m.srcPath ++
    putString m.dstPath

/-- Read the message off a payload. -/
def decode (payload : Bytes) : Except DeserializeError FileMoveMsg :=
  parseAll
    (do
      let srcPath ← ByteReader.str
      let dstPath ← ByteReader.str
      pure { srcPath, dstPath })
    payload

end FileMoveMsg

/-- A delete request. -/
structure FileDeleteMsg where
  path : Bytes
  deriving DecidableEq

namespace FileDeleteMsg

/-- The payload of the message. -/
def encode (m : FileDeleteMsg) : Bytes :=
  putString m.path

/-- Read the message off a payload. -/
def decode (payload : Bytes) : Except DeserializeError FileDeleteMsg :=
  parseAll
    (do
      let path ← ByteReader.str
      pure { path })
    payload

end FileDeleteMsg

/-- The outcome of a file operation. -/
structure FileOpResultMsg where
  status : FileOpStatus := .known .ok
  message : Bytes
  deriving DecidableEq

namespace FileOpResultMsg

/-- The payload of the message. -/
def encode (m : FileOpResultMsg) : Bytes :=
  putU8 m.status.toByte ++
    putString m.message

/-- Read the message off a payload. -/
def decode (payload : Bytes) : Except DeserializeError FileOpResultMsg :=
  parseAll
    (do
      let status ← readEnum FileOpStatusName
      let message ← ByteReader.str
      pure { status, message })
    payload

end FileOpResultMsg

/-- A session-level error. -/
structure ErrorMsg where
  code : UInt32 := 0
  message : Bytes
  deriving DecidableEq

namespace ErrorMsg

/-- The payload of the message. -/
def encode (m : ErrorMsg) : Bytes :=
  putU32 m.code ++
    putString m.message

/-- Read the message off a payload. -/
def decode (payload : Bytes) : Except DeserializeError ErrorMsg :=
  parseAll
    (do
      let code ← ByteReader.u32
      let message ← ByteReader.str
      pure { code, message })
    payload

end ErrorMsg

end RadminPro
