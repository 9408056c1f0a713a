import RadminPro.WireUtil
import RadminPro.CsvRecords
import RadminPro.HashChain
import Mathlib.Data.List.DropRight

namespace RadminPro

open ByteCodec

/-!
# The compliance log

`AuditLogger` appends one CSV row per event to a file and chains the rows with
SHA-256.  The file is modelled by its content: a logger is built on whatever
bytes the file holds, and every write is flushed at once.  The clock and the
process id of a row are inputs of the call that logs it.
-/

/-- What an audit row reports. -/
inductive AuditAction where
  | connection
  | rejected
  | authSuccess
  | authFailure
  | sessionStart
  | sessionEnd
  | fileUpload
  | fileDownload
  | fileMove
  | fileDelete
  | integrityFail
  | permissionDenied
  | configChange
  | error
  deriving Repr, DecidableEq

/-- The name of an action in the log. -/
def auditActionName : AuditAction → Bytes
  | .connection => ascii "CONNECTION"
  | .rejected => ascii "REJECTED"
  | .authSuccess => ascii "AUTH_SUCCESS"
  | .authFailure => ascii "AUTH_FAILURE"
  | .sessionStart => ascii "SESSION_START"
  | .sessionEnd => ascii "SESSION_END"
  | .fileUpload => ascii "FILE_UPLOAD"
  | .fileDownload => ascii "FILE_DOWNLOAD"
  | .fileMove => ascii "FILE_MOVE"
  | .fileDelete => ascii "FILE_DELETE"
  | .integrityFail => ascii "INTEGRITY_FAIL"
  | .permissionDenied => ascii "PERMISSION_DENIED"
  | .configChange => ascii "CONFIG_CHANGE"
  | .error => ascii "ERROR"

/-- One event to be logged. -/
structure AuditEvent where
  actor : Bytes
  peer : Bytes
  action : AuditAction := .error
  target : Bytes
  result : Bytes
  detail : Bytes
  deriving DecidableEq

namespace AuditEvent

/-- An authentication attempt. -/
def auth (actor peer : Bytes) (ok : Bool) (detail : Bytes) : AuditEvent where
  actor := actor
  peer := peer
  action := if ok then .authSuccess else .authFailure
  target := []
  result := if ok then ascii "OK" else ascii "FAIL"
  detail := detail

/-- The start or the end of a session. -/
def session (actor peer : Bytes) (start : Bool) (detail : Bytes) : AuditEvent where
  actor := actor
  peer := peer
  action := if start then .sessionStart else .sessionEnd
  target := []
  result := ascii "OK"
  detail := detail

/-- A file operation. -/
def fileOp (action : AuditAction) (actor peer target result detail : Bytes) :
    AuditEvent where
  actor := actor
  peer := peer
  action := action
  target := target
  result := result
  detail := detail

end AuditEvent

/-- The header row. -/
def kHeader : Bytes :=
  ascii "timestamp_utc,pid,actor,peer,action,target,result,detail,chain"

/-- Sixty-four zero digits, the predecessor of the first row. -/
def genesisChainHex : Bytes :=
  List.replicate 64 (hexDigit 0)

/-- A broken-down UTC time with milliseconds. -/
structure UtcTime where
  year : Nat
  month : Nat
  day : Nat
  hour : Nat
  minute : Nat
  second : Nat
  millisecond : Nat
  deriving DecidableEq

/-- Decimal text padded with zeros to a minimal width. -/
def paddedDecimal (width value : Nat) : Bytes :=
  List.replicate (width - (decimal value).length) (hexDigit 0) ++ decimal value

/-- `2024-01-31T09:05:00.007Z`. -/
def utcTimestamp (time : UtcTime) : Bytes :=
  paddedDecimal 4 time.year ++ ascii "-" ++ paddedDecimal 2 time.month ++
    ascii "-" ++ paddedDecimal 2 time.day ++ ascii "T" ++
    paddedDecimal 2 time.hour ++ ascii ":" ++ paddedDecimal 2 time.minute ++
    ascii ":" ++ paddedDecimal 2 time.second ++ ascii "." ++
    paddedDecimal 3 time.millisecond ++ ascii "Z"

/-- Quote a field that holds a comma, a quote or a line-break byte. -/
def csvEscape (field : Bytes) : Bytes :=
  let needQuote :=
    field.any fun byte =>
      byte = Csv.comma || byte = Csv.quote || byte = Csv.cr || byte = Csv.lf
  if needQuote then
    Csv.quote ::
      (field.flatMap (fun byte =>
        if byte = Csv.quote then [Csv.quote, Csv.quote] else [byte]) ++
        [Csv.quote])
  else
    field

/-- One call of `log`: the event with the clock and process id it meets. -/
structure LogCall where
  time : UtcTime
  pid : Nat
  event : AuditEvent
  deriving DecidableEq

/-- An empty field is shown as a dash. -/
def orDash (field : Bytes) : Bytes :=
  if field.isEmpty then ascii "-" else field

/-- The row of a call, without its chain field. -/
def rowText (call : LogCall) : Bytes :=
  csvEscape (utcTimestamp call.time) ++ [Csv.comma] ++
    decimal call.pid ++ [Csv.comma] ++
    csvEscape (orDash call.event.actor) ++ [Csv.comma] ++
    csvEscape (orDash call.event.peer) ++ [Csv.comma] ++
    csvEscape (auditActionName call.event.action) ++ [Csv.comma] ++
    csvEscape call.event.target ++ [Csv.comma] ++
    csvEscape call.event.result ++ [Csv.comma] ++
    csvEscape call.event.detail

/-- `sha256(previous chain || row)` in hexadecimal. -/
def chainHex (sha256 : Bytes → Hash256) (prevChainHex row : Bytes) : Bytes :=
  toHex (sha256 (prevChainHex ++ row)).bytes

/-- The lines that `std::getline` yields, read after `current` of the first. -/
def getlinesFrom : Bytes → Bytes → List Bytes
  | current, [] => if current = [] then [] else [current]
  | current, byte :: rest =>
      if byte = Csv.lf then
        current :: getlinesFrom [] rest
      else
        getlinesFrom (current ++ [byte]) rest

/-- The text after the last comma, without trailing line-break bytes and blanks. -/
def lastCsvField (line : Bytes) : Bytes :=
  (line.rtakeWhile fun byte => byte != Csv.comma).rdropWhile fun byte =>
    byte = Csv.cr || byte = Csv.lf || byte = 32

/-- The last line that is not blank, or nothing. -/
def lastLine (file : Bytes) : Bytes :=
  (getlinesFrom [] file).foldl
    (fun last line => if line ≠ [] ∧ line ≠ [Csv.cr] then line else last) []

/-- Where the chain continues on a file that already has content. -/
def resumeChain (file : Bytes) : Bytes :=
  let last := lastLine file
  if last = [] ∨ ascii "timestamp_utc," <+: last then
    genesisChainHex
  else
    let prevChainHex := lastCsvField last
    if prevChainHex.length = 64 then prevChainHex else genesisChainHex

/-- A logger over the content of its file. -/
structure AuditLogger where
  file : Bytes
  prevChainHex : Bytes

namespace AuditLogger

/-- Open a file: write the header if it is empty, else resume its chain. -/
def construct (file : Bytes) : AuditLogger :=
  if file = [] then
    { file := kHeader ++ Csv.crlf, prevChainHex := genesisChainHex }
  else
    { file := file, prevChainHex := resumeChain file }

/-- Append one chained row. -/
def log (sha256 : Bytes → Hash256) (logger : AuditLogger) (call : LogCall) :
    AuditLogger :=
  let row := rowText call
  let chain := chainHex sha256 logger.prevChainHex row
  { file := logger.file ++ (row ++ [Csv.comma] ++ chain ++ Csv.crlf)
    prevChainHex := chain }

/-- One lifetime on a file: construction, then the calls in order. -/
def lifetime (sha256 : Bytes → Hash256) (file : Bytes) (calls : List LogCall) :
    AuditLogger :=
  calls.foldl (log sha256) (construct file)

end AuditLogger

/-- The file left by a sequence of lifetimes on an initially empty file. -/
def auditFile (sha256 : Bytes → Hash256) (lifetimes : List (List LogCall)) :
    Bytes :=
  lifetimes.foldl (fun file calls => (AuditLogger.lifetime sha256 file calls).file) []

end RadminPro
