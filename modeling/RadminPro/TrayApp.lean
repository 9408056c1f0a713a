import RadminPro.SessionCap

namespace RadminPro

open ByteCodec

/-!
# The tray application and its servers

`TrayApp` owns at most one server.  Its commands run on the user-interface
thread: `stopServer` clears `running_`, closes the listener, waits for the
thread of `run` and destroys the server.  The session threads are detached, so
nothing waits for them; what is left of them goes on beside the next server.
-/

/-- Where the user-interface thread stands. -/
inductive TrayPoint where
  | idle
  | stopping (restart : Bool)
  | closingListener (restart : Bool)
  | joining (restart : Bool)
  | resetting (restart : Bool)
  | starting
  deriving DecidableEq

/-- A command of the tray, with what its dialog returns and whether it is saved. -/
inductive TrayCommand where
  | start
  | stop
  | options (edited : Option ServerConfig) (saved : Bool)
  | users (edited : Option (List UserRecord)) (saved : Bool)

/-- One more action of somebody. -/
inductive TrayEvent where
  | command (command : TrayCommand)
  | proceed
  | acceptLoop (answer : AcceptAnswer)
  | session (index : Nat) (turn : Turn)
  | orphan (generation index : Nat)

/--
The tray application, the servers it has destroyed, as they were then, and the
steps that their sessions took afterwards.
-/
structure TrayApp where
  cfg : ServerConfig := {}
  cfgLoaded : Bool := false
  server : Option ServerApp := none
  point : TrayPoint := .idle
  destroyed : List ServerApp := []
  strayed : List (Nat × Nat) := []

/-- `run` has returned. -/
def AcceptPoint.hasReturned : AcceptPoint → Bool
  | .returned _ => true
  | _ => false

namespace TrayApp

/-- `startServer`. -/
def startServer (tray : TrayApp) : TrayApp :=
  if tray.server.isSome then
    tray
  else if !tray.cfgLoaded then
    tray
  else
    { tray with server := some { cfg := tray.cfg } }

/-- `onOptions`, up to the restart. -/
def onOptions (tray : TrayApp) (edited : Option ServerConfig) (saved : Bool) :
    TrayApp :=
  let offered :=
    if tray.cfgLoaded then
      tray
    else
      { tray with cfg := { allowSubnets := ascii "192.168.1.0/24" } }
  match edited with
  | none => offered
  | some cfg =>
      if saved then
        { offered with cfg, cfgLoaded := true, point := .stopping true }
      else
        { offered with cfg }

/-- `onUsers`, up to the restart. -/
def onUsers (tray : TrayApp) (edited : Option (List UserRecord)) (saved : Bool) :
    TrayApp :=
  if !tray.cfgLoaded then
    tray
  else
    match edited with
    | none => tray
    | some users =>
        let cfg := { tray.cfg with users }
        if saved then
          { tray with cfg, point := .stopping true }
        else
          { tray with cfg }

/-- A command reaches the message loop. -/
def obey (tray : TrayApp) (command : TrayCommand) : TrayApp :=
  match tray.point, command with
  | .idle, .start => { tray with point := .starting }
  | .idle, .stop => { tray with point := .stopping false }
  | .idle, .options edited saved => tray.onOptions edited saved
  | .idle, .users edited saved => tray.onUsers edited saved
  | _, _ => tray

/-- What follows `stopServer`. -/
def afterStop (restart : Bool) : TrayPoint :=
  if restart then .starting else .idle

section Steps

variable (sha256 : Bytes → Hash256)
variable (inetPtonA : InetPton)

/-- One action of the user-interface thread inside a command. -/
def proceed (tray : TrayApp) : TrayApp :=
  match tray.point, tray.server with
  | .idle, _ => tray
  | .starting, _ => { tray.startServer with point := .idle }
  | .stopping restart, none => { tray with point := afterStop restart }
  | .stopping restart, some app =>
      { tray with
        server := some (app.step sha256 inetPtonA .clearRunning)
        point := .closingListener restart }
  | .closingListener restart, some app =>
      { tray with
        server := some (app.step sha256 inetPtonA .closeListener)
        point := .joining restart }
  | .joining restart, some app =>
      if app.point.hasReturned then
        { tray with point := .resetting restart }
      else
        tray
  | .resetting restart, some app =>
      { tray with
        server := none
        destroyed := tray.destroyed ++ [app]
        point := afterStop restart }
  | .closingListener _, none | .joining _, none | .resetting _, none => tray

/-- An action of the server that there is. -/
def serve (tray : TrayApp) (event : ServerEvent) : TrayApp :=
  { tray with server := tray.server.map (·.step sha256 inetPtonA event) }

/--
An action of a session thread whose server has been destroyed.  What it does is
undefined; that it happens is recorded.
-/
def stray (tray : TrayApp) (generation index : Nat) : TrayApp :=
  match tray.destroyed[generation]? with
  | none => tray
  | some app =>
      match app.threads[index]? with
      | none => tray
      | some thread =>
          if thread.exited then
            tray
          else
            { tray with strayed := tray.strayed ++ [(generation, index)] }

/-- The process has ended. -/
def terminated (tray : TrayApp) : Bool :=
  tray.server.any ServerApp.terminated

/-- One action of somebody, as long as the process lives. -/
def step (tray : TrayApp) (event : TrayEvent) : TrayApp :=
  if tray.terminated then
    tray
  else
    match event with
    | .command command => tray.obey command
    | .proceed => tray.proceed sha256 inetPtonA
    | .acceptLoop answer => tray.serve sha256 inetPtonA (.acceptLoop answer)
    | .session index turn => tray.serve sha256 inetPtonA (.session index turn)
    | .orphan generation index => tray.stray generation index

end Steps

/-- The servers constructed so far, by generation. -/
def generations (tray : TrayApp) : List ServerApp :=
  tray.destroyed ++ tray.server.toList

/--
A generation can append to the audit file of this name: it is the one in
service, or sessions of it run.
-/
def MayAppend (tray : TrayApp) (path : Bytes) (generation : Nat) : Prop :=
  ∃ app,
    tray.generations[generation]? = some app ∧
      app.cfg.auditCsv = path ∧
      (generation = tray.destroyed.length ∨ app.runningSessions ≠ [])

end TrayApp

end RadminPro
