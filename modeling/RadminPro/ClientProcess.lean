import RadminPro.CallSequence
import RadminPro.ClientCommand
import RadminPro.TransferRuns

namespace RadminPro

open ByteCodec

/-!
# The client process and its session

A client that was called for one file operation logs in, makes its call and
exits; the session answers it until one of the two hangs up.  What they send
each other is a message or, as the last thing, the end of the connection.  The
TLS handshake is behind them.
-/

/-- What arrives on a connection; `none` is its end. -/
abbrev Arrival := Option Message

/-- The messages that the frame cap lets through. -/
def onWire (m : Message) : List Arrival :=
  if withinCap m.payload then [some m] else []

/-! ## The client -/

/-- Where the process stands. -/
inductive ProcessPoint where
  | greeting
  | greetingSent
  | credentials
  | credentialsSent
  | starting
  | calling (state : CallState)
  | leaving (code : Nat)
  | exited (code : Nat)
  | aborted

/-- The process: its configuration, its one call and its disk. -/
structure ClientProcess where
  cfg : ClientConfig
  call : ClientCall
  files : Files
  point : ProcessPoint := .greeting

/-- The client during a call. -/
def CallState.app : CallState → ClientApp
  | .transfer app | .requesting app .. | .resultAwaited app => app

namespace ClientProcess

/-- The answer to the greeting. -/
def greeted : Arrival → ProcessPoint
  | none => .leaving 2
  | some m => if m.op ≠ .known .serverHello then .leaving 2 else .credentials

/-- The answer to the credentials. -/
def answered (process : ClientProcess) (read : Arrival) : ProcessPoint :=
  let run : LoginRun :=
    { cfg := { process.cfg with password := [] }
      wrote := [ClientApp.helloMessage, ClientApp.authMessage process.cfg]
      ended := .returned false }
  match (ClientApp.authAnswered run read).ended with
  | .returned true => .starting
  | .returned false => .leaving 2
  | .threw _ => .aborted

/-- What a call reads; at the end of the connection `readMessage` fails. -/
def received
    (sha256 : Bytes → Hash256)
    (answers : Nat → LocalAnswer)
    (state : CallState)
    (receive : Message → CallState) : Arrival → CallState
  | some m => receive m
  | none => state.step sha256 { answer := answers state.app.answered }

/-- What the process does next. -/
def action
    (sha256 : Bytes → Hash256)
    (answers : Nat → LocalAnswer)
    (process : ClientProcess) : FifoLink.Action ClientProcess Arrival Arrival :=
  match process.point with
  | .greeting =>
      .go (onWire ClientApp.helloMessage) { process with point := .greetingSent }
  | .greetingSent => .wait fun read => { process with point := greeted read }
  | .credentials =>
      .go (onWire (ClientApp.authMessage process.cfg))
        { process with point := .credentialsSent }
  | .credentialsSent =>
      .wait fun read => { process with point := process.answered read }
  | .starting =>
      .go (onWire (ClientApp.startMessage process.cfg))
        { process with
          point :=
            .calling
              (process.call.begin
                { phase := .returned false, files := process.files }) }
  | .calling state =>
      match state.verdict? with
      | some (app, ok) =>
          .go []
            { process with
              files := app.files
              point := .leaving (if ok then 0 else 1) }
      | none =>
          match state.action sha256 answers with
          | .stop => .go [none] { process with point := .aborted }
          | .go sent next =>
              .go (sent.map some) { process with point := .calling next }
          | .wait receive =>
              .wait fun read =>
                { process with
                  point := .calling (received sha256 answers state receive read) }
  | .leaving code => .go [none] { process with point := .exited code }
  | .exited _ | .aborted => .stop

end ClientProcess

/-! ## The session -/

/-- What the surroundings answer before the event loop. -/
structure EarlyAnswers where
  hello : Outside := {}
  auth : Outside := {}
  mode : Outside := {}

/-- The server's end of the connection, and whether it has hung up. -/
structure SessionSide where
  server : ServerEnd
  hungUp : Bool := false

namespace SessionSide

/-- The session after a turn; the messages that it sent wait in the outbox. -/
def takes
    (sha256 : Bytes → Hash256)
    (setup : SessionSetup)
    (side : SessionSide)
    (turn : Turn) : SessionSide :=
  let effects := turnEffects sha256 setup side.server.session turn
  { side with
    server :=
      { side.server with
        session := side.server.session.step sha256 setup turn
        files := filesAfter side.server.files effects
        outbox := sentMessages effects } }

/-- What the session's next read returns. -/
def reading : Arrival → ReadResult
  | some m => .ok m
  | none => .closed

/-- What the session does next. -/
def action
    (sha256 : Bytes → Hash256)
    (setup : SessionSetup)
    (early : EarlyAnswers)
    (answers : Nat → Outside)
    (side : SessionSide) : FifoLink.Action SessionSide Arrival Arrival :=
  match side.server.outbox with
  | m :: rest => .go [some m] { side with server := { side.server with outbox := rest } }
  | [] =>
      let takes (read : Arrival) (outside : Outside) : SessionSide :=
        side.takes sha256 setup { read := reading read, outside }
      match side.server.session.phase with
      | .handshake | .stuck => .stop
      | .hello => .wait fun read => takes read early.hello
      | .auth => .wait fun read => takes read early.auth
      | .mode .. => .wait fun read => takes read early.mode
      | .live .. =>
          .wait fun read =>
            match read with
            | some m =>
                { side with server := side.server.receive sha256 setup answers m }
            | none => takes none (answers side.server.handled)
      | .closed _ | .terminated _ =>
          if side.hungUp then .stop else .go [none] { side with hungUp := true }

/-- A session after the TLS handshake. -/
def shaken (files : Files) : SessionSide where
  server :=
    { session := { phase := .hello }
      files }

end SessionSide

/-- A client process and its session. -/
abbrev CommandLink := FifoLink.Link ClientProcess SessionSide Arrival Arrival

end RadminPro
