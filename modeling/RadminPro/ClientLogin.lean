import RadminPro.TlsContext
import RadminPro.WireProtocol

namespace RadminPro

open ByteCodec

/-!
# The login of the client

`ClientApp::connectAndAuth` makes a TLS context, connects, shakes hands, greets
the server and sends the credentials.  The network, the TLS library and the
server answer; every call that blocks is taken to come back.
-/

/-- What the client is configured with. -/
structure ClientConfig where
  host : Bytes
  port : UInt16 := 4899
  username : Bytes := []
  password : Bytes := []
  pinSha256Hex : Bytes := []
  caPath : Bytes := []
  mode : ConnectionMode := .known .viewOnly

/-- What one more call of `SSL_connect` asks for. -/
inductive SslWant where
  | read
  | write

/--
What the surroundings answer to one login.  A handshake under `SSL_VERIFY_PEER`
ends well only with a certificate whose chain verifies.
-/
structure LoginAnswers
    {Certificate : Type}
    (ssl : OpenSsl Certificate)
    (certificate : Option Certificate) where
  setup : TlsSetup := {}
  connected : Bool := true
  wrapped : Bool := true
  wants : VerifyMode → List SslWant := fun _ => []
  shaken : VerifyMode → Bool
  failsOnBadChain :
    ∀ caPath,
      shaken (.peer caPath) = true →
      ∃ c, certificate = some c ∧ ssl.chainVerifies caPath c = true
  encoded : Bool := true
  greeting : Option Message := none
  verdict : Option Message := none

/-- How a login ends. -/
inductive LoginEnd where
  | returned (ok : Bool)
  | threw (error : DeserializeError)
  deriving DecidableEq

/-- What a login leaves: the members, what it handed to the transport, its end. -/
structure LoginRun where
  cfg : ClientConfig
  rights : UInt32 := 0
  wrote : List Message := []
  ended : LoginEnd

namespace ClientApp

section Login

variable {Certificate : Type}
variable {ssl : OpenSsl Certificate}
variable {certificate : Option Certificate}

/-- The loop of `handshake`: calls that want more, then the one that ends it. -/
def shakeHands : List SslWant → Bool → Bool
  | [], shaken => shaken
  | .read :: rest, shaken => shakeHands rest shaken
  | .write :: rest, shaken => shakeHands rest shaken

/-- `handshake`, with the comparison of the pin. -/
def handshake
    (sha256 : Bytes → Hash256)
    (ctx : TlsContext)
    (answers : LoginAnswers ssl certificate) : Bool :=
  shakeHands (answers.wants ctx.verify) (answers.shaken ctx.verify) &&
    ctx.checkPeerPin sha256
      (if answers.encoded then certificate.map ssl.der else none)

/-- The greeting of the client. -/
def helloMessage : Message where
  op := .known .hello
  payload := HelloMsg.encode { clientName := ascii "radminpro-client" }

/-- The credentials. -/
def authMessage (cfg : ClientConfig) : Message where
  op := .known .authRequest
  payload :=
    AuthRequestMsg.encode { username := cfg.username, password := cfg.password }

/-- The choice of the mode. -/
def startMessage (cfg : ClientConfig) : Message where
  op := .known .sessionStart
  payload := SessionStartMsg.encode { mode := cfg.mode }

/--
The server's answer to the credentials.  When `readMessage` fails the message
is still the greeting.
-/
def authAnswered (run : LoginRun) : Option Message → LoginRun
  | none => run
  | some m =>
      if m.op ≠ .known .authResult then
        if m.op = .known .error then
          match ErrorMsg.decode m.payload with
          | .error error => { run with ended := .threw error }
          | .ok _ => run
        else
          run
      else
        match AuthResultMsg.decode m.payload with
        | .error error => { run with ended := .threw error }
        | .ok ares =>
            if ares.status ≠ .known .ok then
              run
            else
              { run with
                rights := ares.grantedRights
                wrote := run.wrote ++ [startMessage run.cfg]
                ended := .returned true }

/-- `connectAndAuth` once the tunnel stands. -/
def logIn
    (cfg : ClientConfig)
    (answers : LoginAnswers ssl certificate) : LoginRun :=
  let greeted : LoginRun :=
    { cfg, wrote := [helloMessage], ended := .returned false }
  match answers.greeting with
  | none => greeted
  | some greeting =>
      if greeting.op ≠ .known .serverHello then
        greeted
      else
        authAnswered
          { greeted with
            cfg := { cfg with password := [] }
            wrote := greeted.wrote ++ [authMessage cfg] }
          answers.verdict

/-- `connectAndAuth`. -/
def connectAndAuth
    (sha256 : Bytes → Hash256)
    (cfg : ClientConfig)
    (answers : LoginAnswers ssl certificate) : LoginRun :=
  let failed : LoginRun := { cfg, ended := .returned false }
  match TlsContext.makeClient answers.setup
      { caPath := cfg.caPath, pinnedSha256Hex := cfg.pinSha256Hex } with
  | .error _ => failed
  | .ok ctx =>
      if !answers.connected then
        failed
      else if !(answers.wrapped && handshake sha256 ctx answers) then
        failed
      else
        logIn cfg answers

end Login

end ClientApp

end RadminPro
