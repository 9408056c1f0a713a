import RadminPro.FifoLink
import RadminPro.SessionFiles
import RadminPro.WireProtocol

namespace RadminPro

open ByteCodec

/-!
# The file transfers of the client

`ClientApp::uploadFile` and `ClientApp::downloadFile`.  Both are one transaction
on the transport: a transfer is at one of its reads or writes, and what it does
there depends on what has come in so far.
-/

/-- What the surroundings answer to one file operation of the client. -/
structure LocalAnswer where
  created : Bool := true
  flush : Flush := { handed := 0 }
  flushedAtClose : Nat := 0

/-- The read or the write that a transfer is at. -/
inductive TransferPhase where
  | returned (ok : Bool)
  | threw (error : DeserializeError)
  | requestingUpload (data : Bytes) (remotePath : Bytes)
  | uploadRequested (data : Bytes)
  | sendingBlocks (id : UInt32) (data : Bytes) (off : Nat)
  | uploadSent
  | requestingDownload (remotePath : Bytes) (localPath : Path)
  | downloadRequested (localPath : Path)
  | receivingBlocks
      (acc : FileAcceptMsg) (out : OfStream) (hasher : Sha256) (got : UInt64)
  | sendingReceipt (id : UInt32) (ok : Bool)

/-- The client during a transfer, with its own disk. -/
structure ClientApp where
  phase : TransferPhase
  files : Files
  answered : Nat := 0

namespace ClientApp

/-- `uploadFile`: a local file that cannot be opened ends it at once. -/
def uploadFile (files : Files) (localPath : Path) (remotePath : Bytes) :
    ClientApp where
  phase :=
    match files localPath with
    | none => .returned false
    | some data => .requestingUpload data remotePath
  files := files

/-- `downloadFile`. -/
def downloadFile (files : Files) (remotePath : Bytes) (localPath : Path) :
    ClientApp where
  phase := .requestingDownload remotePath localPath
  files := files

/-- A request that the server has refused. -/
def rejected (payload : Bytes) : TransferPhase :=
  match FileOpResultMsg.decode payload with
  | .error error => .threw error
  | .ok _ => .returned false

/-- The answer to an upload request; `none` when `readMessage` fails. -/
def uploadAnswered (data : Bytes) : Option Message → TransferPhase
  | none => .returned false
  | some m =>
      if m.op = .known .fileOpResult then
        rejected m.payload
      else if m.op ≠ .known .fileAccept then
        .returned false
      else
        match FileAcceptMsg.decode m.payload with
        | .error error => .threw error
        | .ok acc => .sendingBlocks acc.transferId data 0

/-- The server's verdict on an upload. -/
def uploadVerified : Option Message → TransferPhase
  | none => .returned false
  | some m =>
      if m.op ≠ .known .fileVerify then
        .returned false
      else
        match FileVerifyMsg.decode m.payload with
        | .error error => .threw error
        | .ok v => .returned (v.status = .known .ok)

/-- The answer to a download request; its file is created if it is accepted. -/
def downloadAnswered
    (app : ClientApp)
    (answer : LocalAnswer)
    (localPath : Path) : Option Message → ClientApp
  | none => { app with phase := .returned false }
  | some m =>
      if m.op = .known .fileOpResult then
        { app with phase := rejected m.payload }
      else if m.op ≠ .known .fileAccept then
        { app with phase := .returned false }
      else
        match FileAcceptMsg.decode m.payload with
        | .error error => { app with phase := .threw error }
        | .ok acc =>
            if !answer.created then
              { app with phase := .returned false }
            else
              { phase := .receivingBlocks acc { path := localPath } .empty 0
                files := filesAfter app.files [.openTrunc localPath true]
                answered := app.answered + 1 }

/-- The transfer ends and its stream with it. -/
def leaveStream
    (app : ClientApp)
    (answer : LocalAnswer)
    (out : OfStream)
    (phase : TransferPhase) : ClientApp where
  phase := phase
  files := filesAfter app.files (out.close answer.flushedAtClose)
  answered := app.answered + 1

/-- One message of a download. -/
def blockReceived
    (sha256 : Bytes → Hash256)
    (app : ClientApp)
    (answer : LocalAnswer)
    (acc : FileAcceptMsg)
    (out : OfStream)
    (hasher : Sha256)
    (got : UInt64) : Option Message → ClientApp
  | none => app.leaveStream answer out (.returned false)
  | some m =>
      if m.op = .known .fileBlock then
        match FileBlockMsg.decode m.payload with
        | .error error => app.leaveStream answer out (.threw error)
        | .ok b =>
            if b.transferId ≠ acc.transferId then
              app
            else
              let (out, written) := out.write b.data answer.flush
              { phase :=
                  .receivingBlocks acc out (hasher.update b.data)
                    (got + UInt64.ofNat b.data.length)
                files := filesAfter app.files written
                answered := app.answered + 1 }
      else if m.op = .known .fileComplete then
        let actual := hasher.finish sha256
        app.leaveStream answer out
          (.sendingReceipt acc.transferId
            (got = acc.size ∧ actual = acc.sha256))
      else if m.op = .known .error then
        app.leaveStream answer out (.returned false)
      else
        app

/-- `writeMessage` on a reliable transport; only the frame cap can refuse it. -/
def transmit
    (app : ClientApp)
    (op : OpName)
    (payload : Bytes)
    (next : Bool → TransferPhase) :
    FifoLink.Action ClientApp Message Message :=
  let ok := withinCap payload
  .go (if ok then [⟨.known op, payload⟩] else []) { app with phase := next ok }

/-- What the client does next. -/
def action
    (sha256 : Bytes → Hash256)
    (answers : Nat → LocalAnswer)
    (app : ClientApp) : FifoLink.Action ClientApp Message Message :=
  match app.phase with
  | .returned _ | .threw _ => .stop
  | .requestingUpload data remotePath =>
      app.transmit .fileUploadReq
        (FileUploadReqMsg.encode
          { remotePath
            size := UInt64.ofNat data.length
            sha256 := sha256 data })
        fun _ => .uploadRequested data
  | .uploadRequested data =>
      .wait fun m => { app with phase := uploadAnswered data (some m) }
  | .sendingBlocks id data off =>
      if off < data.length then
        app.transmit .fileBlock
          (FileBlockMsg.encode
            { transferId := id
              sequence := UInt32.ofNat (off / kFileBlockSize)
              data := BufferWindow.window data off kFileBlockSize })
          fun sent =>
            if sent then
              .sendingBlocks id data (off + kFileBlockSize)
            else
              .returned false
      else
        app.transmit .fileComplete (putU32 id) fun _ => .uploadSent
  | .uploadSent =>
      .wait fun m => { app with phase := uploadVerified (some m) }
  | .requestingDownload remotePath localPath =>
      app.transmit .fileDownloadReq (putString remotePath)
        fun _ => .downloadRequested localPath
  | .downloadRequested localPath =>
      .wait fun m =>
        app.downloadAnswered (answers app.answered) localPath (some m)
  | .receivingBlocks acc out hasher got =>
      .wait fun m =>
        app.blockReceived sha256 (answers app.answered) acc out hasher got
          (some m)
  | .sendingReceipt id ok =>
      app.transmit .fileVerify
        (FileVerifyMsg.encode
          ⟨id, if ok then .known .ok else .known .hashMismatch⟩)
        fun _ => .returned ok

end ClientApp

end RadminPro
