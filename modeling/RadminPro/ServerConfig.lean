import RadminPro.AuditLog
import RadminPro.SubnetFilter
import RadminPro.SecurityManager
import RadminPro.TrimmedText
import Std.Data.TreeMap.Lemmas

namespace RadminPro

open ByteCodec

/-!
# The server configuration as text

`ServerConfig::parse` reads lines `key=value`; `ServerApp::serialize` writes
them.  Accounts are lines `user.<name>.hash` and `user.<name>.rights`, which
`parse` gathers in a map from names to accounts.
-/

/-- What a server is configured with. -/
structure ServerConfig where
  bindAddr : Bytes := ascii "0.0.0.0"
  port : UInt16 := 4899
  monitor : UInt32 := 0
  allowSubnets : Bytes := []
  tlsCert : Bytes := ascii "server.crt"
  tlsKey : Bytes := ascii "server.key"
  clientCa : Bytes := []
  auditCsv : Bytes := ascii "radminpro_audit.csv"
  fileRoot : Bytes := ascii "fileshare"
  maxSessions : UInt32 := 8
  users : List UserRecord := []
  deriving DecidableEq

namespace ConfigText

/-- What `trim` removes. -/
def isBlank (c : UInt8) : Bool :=
  c == 32 || c == 9 || c == 13 || c == 10

/-- What separates a key from its value. -/
def equalsSign : UInt8 := 61

/-- What separates a username from the field. -/
def dot : UInt8 := 46

/-- What a line of commentary starts with. -/
def startsComment (c : UInt8) : Bool :=
  c == 35 || c == 59

/-- What separates the names of rights. -/
def separatesRights (c : UInt8) : Bool :=
  c == 124 || c == 44

/-- The text without blanks at its ends. -/
abbrev trim (s : Bytes) : Bytes :=
  TrimmedText.trim isBlank s

/-- The pieces split off so far and the piece being read. -/
structure SplitScan where
  out : List Bytes := []
  cur : Bytes := []

/-- One character of the text that is split. -/
def SplitScan.feed (seps : UInt8 → Bool) (scan : SplitScan) (c : UInt8) :
    SplitScan :=
  if seps c then
    if scan.cur.isEmpty then scan else { out := scan.out ++ [scan.cur] }
  else
    { scan with cur := scan.cur ++ [c] }

/-- The non-empty pieces between separators. -/
def splitAny (s : Bytes) (seps : UInt8 → Bool) : List Bytes :=
  let scan := s.foldl (SplitScan.feed seps) {}
  if scan.cur.isEmpty then scan.out else scan.out ++ [scan.cur]

/-- The bits with that of the right of this name, if there is one. -/
def addRight (out : UInt32) (n : Bytes) : UInt32 :=
  match kRights.find? fun r => n = r.2 with
  | some r => out ||| r.1
  | none => out

/-- The bits of all rights that are named. -/
def rightsFromStrings (names : List Bytes) : UInt32 :=
  names.foldl addRight R_None

/-- `atoi`: blanks, a sign and digits, saturating at the limits of `int`. -/
def atoi (s : Bytes) : Int :=
  let digitsValue (rest : Bytes) : Int :=
    SubnetFilter.decimalValue (rest.takeWhile SubnetFilter.isdigit)
  match s.dropWhile SubnetFilter.isspace with
  | [] => 0
  | c :: rest =>
      if c = 45 then
        max (-digitsValue rest) (-2 ^ 31)
      else if c = 43 then
        min (digitsValue rest) (2 ^ 31 - 1)
      else
        min (digitsValue (c :: rest)) (2 ^ 31 - 1)

/-- The accounts that are being read, by name. -/
abbrev UserMap := Std.TreeMap Bytes UserRecord

/-- `users[name]`, which makes an account that is missing. -/
def account (users : UserMap) (name : Bytes) : UserRecord :=
  users.getD name { username := [], argon2Hash := [] }

/-- The value of `user.<name>.<field>`, behind `user.`. -/
def assignUser (users : UserMap) (rest val : Bytes) : UserMap :=
  if dot ∉ rest then
    users
  else
    let name := (rest.rdropWhile fun c => c != dot).dropLast
    let field := rest.rtakeWhile fun c => c != dot
    let named := { account users name with username := name }
    users.insert name
      (if field = ascii "hash" then
        { named with argon2Hash := val }
      else if field = ascii "rights" then
        { named with rights := rightsFromStrings (splitAny val separatesRights) }
      else
        named)

/-- A configuration while its lines are read. -/
structure Reading where
  c : ServerConfig := {}
  users : UserMap := ∅

/-- A number for a field of 32 bits. -/
def toUInt32 (val : Bytes) : UInt32 :=
  UInt32.ofInt (atoi val)

/-- What a value assigned to a key does. -/
def Reading.assign (state : Reading) (key val : Bytes) : Reading :=
  if key = ascii "port" then
    { state with c.port := UInt16.ofInt (atoi val) }
  else if key = ascii "bind" then
    { state with c.bindAddr := val }
  else if key = ascii "monitor" then
    { state with c.monitor := toUInt32 val }
  else if key = ascii "allow_subnets" then
    { state with c.allowSubnets := val }
  else if key = ascii "tls_cert" then
    { state with c.tlsCert := val }
  else if key = ascii "tls_key" then
    { state with c.tlsKey := val }
  else if key = ascii "client_ca" then
    { state with c.clientCa := val }
  else if key = ascii "audit_csv" then
    { state with c.auditCsv := val }
  else if key = ascii "file_root" then
    { state with c.fileRoot := val }
  else if key = ascii "max_sessions" then
    { state with c.maxSessions := toUInt32 val }
  else if ascii "user." <+: key then
    { state with users := assignUser state.users (key.drop 5) val }
  else
    state

/-- The key and the value of a line, unless it is blank, a comment or neither. -/
def assignment? (line : Bytes) : Option (Bytes × Bytes) :=
  match trim line with
  | [] => none
  | first :: rest =>
      if startsComment first || !(first :: rest).contains equalsSign then
        none
      else
        some
          (trim ((first :: rest).takeWhile fun c => c != equalsSign),
            trim (((first :: rest).dropWhile fun c => c != equalsSign).drop 1))

/-- Read one line. -/
def Reading.line (state : Reading) (line : Bytes) : Reading :=
  match assignment? line with
  | none => state
  | some (key, val) => state.assign key val

end ConfigText

open ConfigText

/-- Read a configuration; its accounts come in the order of the map. -/
def ServerConfig.parse (text : Bytes) : ServerConfig :=
  let state := (getlinesFrom [] text).foldl Reading.line {}
  { state.c with users := state.c.users ++ state.users.toList.map Prod.snd }

namespace ServerApp

/-- One line of a configuration, without its line feed. -/
def configLine (key value : Bytes) : Bytes :=
  key ++ equalsSign :: value

/-- The lines of an account. -/
def userLines (u : UserRecord) : List Bytes :=
  if u.username.isEmpty || u.argon2Hash.isEmpty then
    []
  else
    [configLine (ascii "user." ++ u.username ++ ascii ".hash") u.argon2Hash,
      configLine (ascii "user." ++ u.username ++ ascii ".rights")
        (rightsToString u.rights)]

/-- The lines of a configuration. -/
def configLines (cfg : ServerConfig) : List Bytes :=
  [configLine (ascii "bind") cfg.bindAddr,
    configLine (ascii "port") (decimal cfg.port.toNat),
    configLine (ascii "monitor") (decimal cfg.monitor.toNat),
    configLine (ascii "allow_subnets") cfg.allowSubnets,
    configLine (ascii "tls_cert") cfg.tlsCert,
    configLine (ascii "tls_key") cfg.tlsKey] ++
  (if cfg.clientCa.isEmpty then
    []
  else
    [configLine (ascii "client_ca") cfg.clientCa]) ++
  [configLine (ascii "audit_csv") cfg.auditCsv,
    configLine (ascii "file_root") cfg.fileRoot,
    configLine (ascii "max_sessions") (decimal cfg.maxSessions.toNat)] ++
  cfg.users.flatMap userLines

/-- Write a configuration as text. -/
def serialize (cfg : ServerConfig) : Bytes :=
  (configLines cfg).flatMap fun line => line ++ [Csv.lf]

end ServerApp

example :
    (ServerConfig.parse (ServerApp.serialize
      { allowSubnets := ascii "192.168.1.0/24"
        users :=
          [{ username := ascii "bob", argon2Hash := ascii "$argon2id$b"
             rights := R_FileTransfer },
            { username := ascii "alice", argon2Hash := ascii "$argon2id$a"
              rights := R_AllAccess ||| R_Chat }] })).users =
      [{ username := ascii "alice", argon2Hash := ascii "$argon2id$a"
         rights := R_AllAccess ||| R_Chat },
        { username := ascii "bob", argon2Hash := ascii "$argon2id$b"
          rights := R_FileTransfer }] := by
  decide +kernel

end RadminPro
