import RadminPro.ServerConfig
import RadminPro.SessionContainment
import RadminPro.SlotCounter

namespace RadminPro

open ByteCodec

/-!
# The accept loop and its session threads

`ServerApp::run` accepts connections one by one and starts a detached thread for
each it admits.  The accept loop and the session threads share the counter
`activeSessions_` and the flag `running_`.  Every event lets one of them do one
more action on what they share; the events of a run come in any order.
-/

/-- A socket handle. -/
abbrev Socket := UInt64

/-- No socket. -/
def kInvalidSocket : Socket := ~~~0

/-- The address of a peer. -/
structure PeerInfo where
  ip : Bytes
  port : UInt16
  deriving DecidableEq

/-- `ip:port`. -/
def PeerInfo.toString (peer : PeerInfo) : Bytes :=
  peer.ip ++ ascii ":" ++ decimal peer.port.toNat

/-- A connection that was accepted; the number tells connections apart. -/
structure Accepted where
  number : Nat
  fd : Socket
  peer : PeerInfo
  deriving DecidableEq

/-- Where `run` stands. -/
inductive AcceptPoint where
  | starting
  | testing
  | accepting
  | failed
  | screening (c : Accepted)
  | refused (c : Accepted) (detail : Bytes)
  | claiming (c : Accepted)
  | overCap (c : Accepted)
  | admitted (c : Accepted)
  | wrapping (c : Accepted)
  | unwrapped (c : Accepted)
  | spawning (c : Accepted)
  | closing
  | returned (code : Nat)
  deriving DecidableEq

/-- The thread of one session, and how many of its effects have happened. -/
structure SessionThread where
  connection : Accepted
  setup : SessionSetup
  session : Session := {}
  performed : Nat := 0

namespace SessionThread

/-- The effect that the thread does next, unless a turn has to be taken first. -/
def next? (thread : SessionThread) : Option Effect :=
  thread.session.trace[thread.performed]?

/-- What the thread has done. -/
def done (thread : SessionThread) : List Effect :=
  thread.session.trace.take thread.performed

/-- The session guard has run: the thread has left `session`. -/
def exited (thread : SessionThread) : Bool :=
  thread.done.contains .releaseSlot

/-- An exception has left `session`, which ends the process. -/
def threw (thread : SessionThread) : Bool :=
  match thread.next?, thread.session.phase with
  | none, .terminated _ => true
  | _, _ => false

end SessionThread

/-- What the next effect of a thread adds to what it has done. -/
theorem done_succ
    {thread : SessionThread}
    {effect : Effect}
    (next : thread.next? = some effect) :
    { thread with performed := thread.performed + 1 }.done =
      thread.done ++ [effect] := by
  rw [SessionThread.done, SessionThread.done]
  dsimp only
  rw [List.take_add_one, ← SessionThread.next?, next]
  rfl

/-- The server object, its accept loop and the threads it has started. -/
structure ServerApp where
  cfg : ServerConfig
  filter : SubnetFilter := {}
  running : Bool := true
  listening : Bool := false
  activeSessions : SlotCounter Nat := {}
  point : AcceptPoint := .starting
  accepted : Nat := 0
  threads : List SessionThread := []

/-- What the surroundings answer to one action of `run`. -/
structure AcceptAnswer where
  tlsReady : Bool := true
  auditOpened : Bool := true
  listened : Bool := true
  connection : Option (Socket × PeerInfo) := none
  wrapped : Bool := true

/-- One more action of somebody. -/
inductive ServerEvent where
  | acceptLoop (answer : AcceptAnswer)
  | session (index : Nat) (turn : Turn)
  | clearRunning
  | closeListener

namespace ServerApp

section Steps

variable (inetPtonA : InetPton)

/-- `isPeerAllowed`. -/
def isPeerAllowed (app : ServerApp) (ip : Bytes) : Bool :=
  app.filter.isAllowed inetPtonA ip

/-- `run` up to its loop. -/
def startUp (app : ServerApp) (answer : AcceptAnswer) : ServerApp :=
  if !answer.tlsReady then
    { app with point := .returned 2 }
  else
    let (n, filter) := SubnetFilter.addList inetPtonA {} app.cfg.allowSubnets
    if n = 0 then
      { app with point := .returned 3 }
    else if app.cfg.users.all fun u => u.argon2Hash.isEmpty then
      { app with filter, point := .returned 4 }
    else if !answer.auditOpened then
      { app with filter, point := .returned 5 }
    else if !answer.listened then
      { app with filter, point := .returned 6 }
    else
      { app with filter, listening := true, point := .testing }

/-- What `accept` returned. -/
def acceptReturned (app : ServerApp) (answer : AcceptAnswer) : ServerApp :=
  match app.listening, answer.connection with
  | true, some (fd, peer) =>
      if fd = kInvalidSocket then
        { app with point := .failed }
      else
        { app with
          point := .screening { number := app.accepted, fd, peer }
          accepted := app.accepted + 1 }
  | _, _ => { app with point := .failed }

/-- The thread of an admitted connection. -/
def newThread (app : ServerApp) (c : Accepted) : SessionThread where
  connection := c
  setup :=
    { peerIp := c.peer.ip
      peerStr := c.peer.toString
      fileRoot := app.cfg.fileRoot
      monitor := app.cfg.monitor }

/-- One action of `run`. -/
def acceptStep (app : ServerApp) (answer : AcceptAnswer) : ServerApp :=
  match app.point with
  | .starting => app.startUp inetPtonA answer
  | .testing =>
      { app with point := if app.running then .accepting else .closing }
  | .accepting => app.acceptReturned answer
  | .failed =>
      { app with point := if app.running then .testing else .closing }
  | .screening c =>
      if !app.isPeerAllowed inetPtonA c.peer.ip then
        { app with point := .refused c (ascii "outside allow-list") }
      else
        { app with point := .claiming c }
  | .refused _ _ => { app with point := .testing }
  | .claiming c =>
      { app with
        activeSessions := app.activeSessions.fetchAdd c.number
        point :=
          if app.activeSessions.value ≥ app.cfg.maxSessions then
            .overCap c
          else
            .admitted c }
  | .overCap c =>
      { app with
        activeSessions := app.activeSessions.fetchSub c.number
        point := .refused c (ascii "session cap reached") }
  | .admitted c => { app with point := .wrapping c }
  | .wrapping c =>
      { app with
        point := if answer.wrapped then .spawning c else .unwrapped c }
  | .unwrapped c =>
      { app with
        activeSessions := app.activeSessions.fetchSub c.number
        point := .testing }
  | .spawning c =>
      { app with
        threads := app.threads ++ [app.newThread c]
        point := .testing }
  | .closing => { app with listening := false, point := .returned 0 }
  | .returned _ => app

end Steps

section Threads

variable (sha256 : Bytes → Hash256)

/--
One action of a session thread: the next effect of its turn, the next turn, or
the end of the thread, which closes its socket.
-/
def sessionStep (app : ServerApp) (index : Nat) (turn : Turn) : ServerApp :=
  match app.threads[index]? with
  | none => app
  | some thread =>
      match thread.next?, thread.session.phase with
      | some effect, _ =>
          { app with
            threads :=
              app.threads.set index
                { thread with performed := thread.performed + 1 }
            activeSessions :=
              if effect = .releaseSlot then
                app.activeSessions.fetchSub thread.connection.number
              else
                app.activeSessions }
      | none, .closed _ => { app with threads := app.threads.eraseIdx index }
      | none, _ =>
          { app with
            threads :=
              app.threads.set index
                { thread with
                  session :=
                    thread.session.step sha256 thread.setup
                      { turn with running := app.running } } }

end Threads

/-- The process has ended. -/
def terminated (app : ServerApp) : Bool :=
  app.threads.any SessionThread.threw

/-- One action of somebody, as long as the process lives. -/
def step
    (sha256 : Bytes → Hash256)
    (inetPtonA : InetPton)
    (app : ServerApp)
    (event : ServerEvent) : ServerApp :=
  if app.terminated then
    app
  else
    match event with
    | .acceptLoop answer => app.acceptStep inetPtonA answer
    | .session index turn => app.sessionStep sha256 index turn
    | .clearRunning => { app with running := false }
    | .closeListener => { app with listening := false }

end ServerApp

end RadminPro
