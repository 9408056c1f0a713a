import RadminPro.ClientCalls
import RadminPro.ClientLogin
import RadminPro.ServerConfig
import Mathlib.Logic.Function.Basic

namespace RadminPro

open ByteCodec

/-!
# The command line of the client

`main` of the client reads its arguments, makes a configuration and decides what
to do on the connection: to show the screen, or to make one call.
-/

/-- What the arguments of the program say. -/
structure Args where
  sub : Bytes := []
  pos : List Bytes := []
  opt : Bytes → Option Bytes := fun _ => none
  control : Bool := false

namespace Args

/-- What an option starts with. -/
def dashes : Bytes :=
  ascii "--"

/-- Read the arguments behind the command, one by one. -/
def read (a : Args) : List Bytes → Args
  | [] => a
  | [t] =>
      if t = ascii "--control" then
        { a with control := true }
      else if dashes <+: t then
        { a with opt := Function.update a.opt (t.drop 2) (some []) }
      else
        { a with pos := a.pos ++ [t] }
  | t :: value :: rest =>
      if t = ascii "--control" then
        { a with control := true }.read (value :: rest)
      else if dashes <+: t then
        { a with opt := Function.update a.opt (t.drop 2) (some value) }.read rest
      else
        { a with pos := a.pos ++ [t] }.read (value :: rest)

/-- `parseArgs`. -/
def parseArgs : List Bytes → Args
  | _ :: sub :: rest => { sub : Args }.read rest
  | _ => {}

/-- The value of an option, or nothing. -/
def optStr (a : Args) (key : Bytes) : Bytes :=
  (a.opt key).getD []

/-- A port given as an option. -/
def optU16 (a : Args) (key : Bytes) (dflt : UInt16) : UInt16 :=
  if (a.optStr key).isEmpty then
    dflt
  else
    UInt16.ofInt (ConfigText.atoi (a.optStr key))

end Args

/-- What `main` does with its arguments. -/
inductive ClientCommand where
  | connectDialog
  | usage
  | missingUser
  | view (cfg : ClientConfig)
  | call (cfg : ClientConfig) (call : ClientCall)

namespace ClientCommand

/-- The configuration that the options make, with the password from the prompt. -/
def config (a : Args) (host prompted : Bytes) : ClientConfig where
  host := host
  port := a.optU16 (ascii "port") 4899
  username := a.optStr (ascii "user")
  password :=
    if (a.optStr (ascii "pass")).isEmpty then
      prompted
    else
      a.optStr (ascii "pass")
  pinSha256Hex := a.optStr (ascii "pin")
  caPath := a.optStr (ascii "ca")

/-- The file operation that is asked for, if its arguments are all there. -/
def fileCall (sub : Bytes) (arguments : List Bytes) : Option ClientCall :=
  match arguments with
  | first :: second :: _ =>
      if sub = ascii "upload" then
        some (.uploadFile first second)
      else if sub = ascii "download" then
        some (.downloadFile first second)
      else if sub = ascii "delete" then
        some (.deleteRemote first)
      else if sub = ascii "move" then
        some (.moveRemote first second)
      else
        none
  | [remote] =>
      if sub = ascii "delete" then some (.deleteRemote remote) else none
  | [] => none

/-- `main`, up to the connection. -/
def ofArgs (argv : List Bytes) (prompted : Bytes) : ClientCommand :=
  if argv.length < 2 then
    .connectDialog
  else
    let a := Args.parseArgs argv
    match a.pos with
    | [] => .usage
    | host :: arguments =>
        if a.sub.isEmpty then
          .usage
        else
          let cfg := config a host prompted
          if cfg.username.isEmpty then
            .missingUser
          else if a.sub = ascii "view" then
            .view
              { cfg with
                mode :=
                  if a.control then .known .fullControl else .known .viewOnly }
          else
            match fileCall a.sub arguments with
            | some operation =>
                .call { cfg with mode := .known .fileOnly } operation
            | none => .usage

/-- File operations are called for in a session for files, by a user with a name. -/
theorem ofArgs_call
    {argv : List Bytes}
    {prompted : Bytes}
    {cfg : ClientConfig}
    {call : ClientCall}
    (isCall : ofArgs argv prompted = .call cfg call) :
    cfg.mode = .known .fileOnly ∧ cfg.username ≠ [] := by
  unfold ofArgs at isCall
  split at isCall
  · cases isCall
  · dsimp only at isCall
    split at isCall
    · cases isCall
    · split at isCall
      · cases isCall
      · split at isCall
        · cases isCall
        · next named =>
            split at isCall
            · cases isCall
            · split at isCall
              · obtain ⟨rfl, rfl⟩ := ClientCommand.call.inj isCall
                exact ⟨rfl, by simpa using named⟩
              · cases isCall

end ClientCommand

end RadminPro
