import RadminPro.ClientTransfer

namespace RadminPro

open ByteCodec

/-!
# The calls of the client

Beside the two transfers the client has `deleteRemote` and `moveRemote`, one
request and one answer each.  A call goes on at its next read or write; a turn
says what the transport and the local disk answer there, so that the server
behind the transport may send anything.
-/

/-- A call of one of the four file operations. -/
inductive ClientCall where
  | uploadFile (localPath : Path) (remotePath : Bytes)
  | downloadFile (remotePath : Bytes) (localPath : Path)
  | deleteRemote (remotePath : Bytes)
  | moveRemote (src dst : Bytes)

/-- Where a call stands. -/
inductive CallState where
  | transfer (app : ClientApp)
  | requesting (app : ClientApp) (op : OpName) (payload : Bytes)
  | resultAwaited (app : ClientApp)

/-- What the transport and the local disk answer to one read or write. -/
structure CallTurn where
  written : Bool := true
  read : Option Message := none
  answer : LocalAnswer := {}

namespace ClientApp

/-- The verdict on a deletion or a move; `none` when `readMessage` fails. -/
def opResultReceived : Option Message → TransferPhase
  | none => .returned false
  | some m =>
      if m.op ≠ .known .fileOpResult then
        .returned false
      else
        match FileOpResultMsg.decode m.payload with
        | .error error => .threw error
        | .ok r => .returned (r.status = .known .ok)

/-- A transfer at its next read or write, whoever the server is. -/
def step
    (sha256 : Bytes → Hash256)
    (app : ClientApp)
    (turn : CallTurn) : ClientApp :=
  match app.phase with
  | .returned _ | .threw _ => app
  | .requestingUpload data _ => { app with phase := .uploadRequested data }
  | .uploadRequested data =>
      { app with phase := uploadAnswered data turn.read }
  | .sendingBlocks id data off =>
      if off < data.length then
        if turn.written then
          { app with phase := .sendingBlocks id data (off + kFileBlockSize) }
        else
          { app with phase := .returned false }
      else
        { app with phase := .uploadSent }
  | .uploadSent => { app with phase := uploadVerified turn.read }
  | .requestingDownload _ localPath =>
      { app with phase := .downloadRequested localPath }
  | .downloadRequested localPath =>
      app.downloadAnswered turn.answer localPath turn.read
  | .receivingBlocks acc out hasher got =>
      app.blockReceived sha256 turn.answer acc out hasher got turn.read
  | .sendingReceipt _ ok => { app with phase := .returned ok }

end ClientApp

/-- The client begins a call. -/
def ClientCall.begin (app : ClientApp) : ClientCall → CallState
  | .uploadFile localPath remotePath =>
      .transfer
        { ClientApp.uploadFile app.files localPath remotePath with
          answered := app.answered }
  | .downloadFile remotePath localPath =>
      .transfer
        { ClientApp.downloadFile app.files remotePath localPath with
          answered := app.answered }
  | .deleteRemote remotePath =>
      .requesting app .fileDelete (FileDeleteMsg.encode { path := remotePath })
  | .moveRemote src dst =>
      .requesting app .fileMove
        (FileMoveMsg.encode { srcPath := src, dstPath := dst })

/-- A call at its next read or write. -/
def CallState.step
    (sha256 : Bytes → Hash256)
    (state : CallState)
    (turn : CallTurn) : CallState :=
  match state with
  | .transfer app => .transfer (app.step sha256 turn)
  | .requesting app _ _ => .resultAwaited app
  | .resultAwaited app =>
      .transfer
        { app with phase := ClientApp.opResultReceived turn.read }

/-- An exception has left the call. -/
def CallState.Threw : CallState → Prop
  | .transfer app => ∃ error, app.phase = .threw error
  | .requesting .. | .resultAwaited _ => False

/-! ## The two models of a transfer -/

namespace ClientApp

variable {sha256 : Bytes → Hash256}
variable {answers : Nat → LocalAnswer}

/-- A block fits the frame cap. -/
theorem block_withinCap
    (id sequence : UInt32)
    (data : Bytes)
    (off : Nat) :
    withinCap
        (FileBlockMsg.encode
          { transferId := id
            sequence
            data := BufferWindow.window data off kFileBlockSize }) =
      true := by
  have short : (BufferWindow.window data off kFileBlockSize).length ≤ 65536 :=
    List.length_take_le _ _
  simp only [withinCap, FileBlockMsg.encode, List.length_append, length_putU32,
    length_putBlob, decide_eq_true_eq]
  unfold kMaxMessageSize
  omega

end ClientApp

end RadminPro
