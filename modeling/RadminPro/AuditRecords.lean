import RadminPro.AuditLifetimes

namespace RadminPro

open ByteCodec

/-!
# What a reader makes of the audit file

Every call of `log` appends one record, in every lifetime and whatever the
fields hold; an RFC 4180 reader gets the fields of each call back.  A record
that was cut off by a crash is not one: the next logger appends right behind
the bytes that are left of it.
-/

/-- The fields that a call means, with its link. -/
def recordValues (call : LogCall) (chain : Bytes) : List Bytes :=
  [utcTimestamp call.time, decimal call.pid, orDash call.event.actor,
    orDash call.event.peer, auditActionName call.event.action,
    call.event.target, call.event.result, call.event.detail, chain]

/-- The names of the fields. -/
def headerFields : List Bytes :=
  [ascii "timestamp_utc", ascii "pid", ascii "actor", ascii "peer",
    ascii "action", ascii "target", ascii "result", ascii "detail",
    ascii "chain"]

/-- The calls of a logger, each with the link that `log` computes for it. -/
def AuditLogger.rows (sha256 : Bytes → Hash256) :
    AuditLogger → List LogCall → List (LogCall × Bytes)
  | _, [] => []
  | logger, call :: rest =>
      (call, (logger.log sha256 call).prevChainHex) ::
        rows sha256 (logger.log sha256 call) rest

/-- The rows that a sequence of lifetimes adds to a file. -/
def loggedFrom (sha256 : Bytes → Hash256) :
    Bytes → List (List LogCall) → List (LogCall × Bytes)
  | _, [] => []
  | file, calls :: later =>
      (AuditLogger.construct file).rows sha256 calls ++
        loggedFrom sha256 (AuditLogger.lifetime sha256 file calls).file later

/-- The rows that a sequence of lifetimes logs on an initially empty file. -/
def loggedRows (sha256 : Bytes → Hash256) (lifetimes : List (List LogCall)) :
    List (LogCall × Bytes) :=
  loggedFrom sha256 [] lifetimes

/-! ## Values of a record -/

/-- An escaped field says what was escaped. -/
theorem value_csvEscape
    (field : Bytes) :
    Csv.value (csvEscape field) = some field := by
  unfold csvEscape
  dsimp only
  split
  · exact Csv.value_quoted field
  · next plain =>
      exact Csv.value_plain (by simpa [Csv.special] using plain)

/-- A plain field says itself. -/
theorem value_of_plain
    {field : Bytes}
    (plain : ∀ byte ∈ field, PlainByte byte) :
    Csv.value field = some field := by
  apply Csv.value_plain
  rw [List.any_eq_false]
  intro byte member
  obtain ⟨notQuote, notSeparator⟩ := plain byte member
  simp only [List.mem_cons, List.not_mem_nil, or_false, not_or]
    at notSeparator
  simp [Csv.special, notQuote, notSeparator]

/-- The fields of a record say what its call means. -/
theorem values_recordText
    (call : LogCall)
    {chain : Bytes}
    (isLink : IsLink chain) :
    (Csv.fields (recordText call chain)).mapM Csv.value =
      some (recordValues call chain) := by
  have pidRead : Csv.value (decimal call.pid) = some (decimal call.pid) :=
    value_of_plain fun byte inside => decimal_plain inside
  have chainRead : Csv.value chain = some chain := by
    obtain ⟨hash, rfl⟩ := isLink
    exact value_of_plain fun byte inside => (toHex_plain inside).1
  rw [fields_recordText call isLink]
  simp [rowFields, recordValues, value_csvEscape, pidRead, chainRead]

/-- The header names the fields. -/
theorem values_kHeader :
    (Csv.fields kHeader).mapM Csv.value = some headerFields := by
  decide +kernel

/-- A rendered log reads as the header and the values of its calls. -/
theorem read_renderLog
    {entries : List (LogCall × Bytes)}
    (links : ∀ entry ∈ entries, IsLink entry.2) :
    Csv.read (renderLog entries) =
      some (headerFields ::
        entries.map fun entry => recordValues entry.1 entry.2) := by
  have rowsRead :
      ((entries.map fun entry => recordText entry.1 entry.2).mapM
          fun record => (Csv.fields record).mapM Csv.value) =
        some (entries.map fun entry => recordValues entry.1 entry.2) := by
    induction entries with
    | nil =>
        rfl
    | cons entry rest inductionHypothesis =>
        have restRead :=
          inductionHypothesis fun later member => links later (by simp [member])
        simp [values_recordText entry.1 (links entry (by simp)), restRead]
  rw [Csv.read, records_renderLog links, List.mapM_cons, rowsRead,
    values_kHeader]
  rfl

/-! ## Every call is one record -/

section Lifetimes

variable {sha256 : Bytes → Hash256}

/-- Logging calls appends their rows. -/
theorem AuditLogger.rows_appended
    {logger : AuditLogger}
    {entries : List (LogCall × Bytes)}
    (shape : logger.file = renderLog entries)
    (calls : List LogCall) :
    (calls.foldl (AuditLogger.log sha256) logger).file =
      renderLog (entries ++ logger.rows sha256 calls) := by
  induction calls generalizing logger entries with
  | nil =>
      simpa [rows] using shape
  | cons call rest inductionHypothesis =>
      have logged :
          (logger.log sha256 call).file =
            renderLog
              (entries ++ [(call, (logger.log sha256 call).prevChainHex)]) := by
        rw [renderLog_snoc, ← shape]
        rfl
      simpa [rows] using inductionHypothesis logged

/-- Every row that a logger adds carries the text of a hash. -/
theorem AuditLogger.rows_isLink
    (logger : AuditLogger)
    (calls : List LogCall) :
    ∀ row ∈ logger.rows sha256 calls, IsLink row.2 := by
  induction calls generalizing logger with
  | nil =>
      simp [rows]
  | cons call rest inductionHypothesis =>
      intro row member
      rcases List.mem_cons.mp member with rfl | inRest
      · exact ⟨_, rfl⟩
      · exact inductionHypothesis _ row inRest

/-- The rows of a logger are its calls in order. -/
theorem AuditLogger.rows_calls
    (logger : AuditLogger)
    (calls : List LogCall) :
    (logger.rows sha256 calls).map Prod.fst = calls := by
  induction calls generalizing logger with
  | nil =>
      rfl
  | cons call rest inductionHypothesis =>
      simp [rows, inductionHypothesis]

/-- Opening a log leaves its content as it is. -/
theorem construct_file
    {file : Bytes}
    (nonempty : file ≠ []) :
    (AuditLogger.construct file).file = file := by
  simp [AuditLogger.construct, nonempty]

/-- Lifetimes on a log append their rows to it. -/
theorem loggedFrom_appended
    (entries : List (LogCall × Bytes))
    (lifetimes : List (List LogCall)) :
    lifetimes.foldl
        (fun file calls => (AuditLogger.lifetime sha256 file calls).file)
        (renderLog entries) =
      renderLog
        (entries ++ loggedFrom sha256 (renderLog entries) lifetimes) := by
  induction lifetimes generalizing entries with
  | nil =>
      simp [loggedFrom]
  | cons calls later inductionHypothesis =>
      have lived :
          (AuditLogger.lifetime sha256 (renderLog entries) calls).file =
            renderLog (entries ++
              (AuditLogger.construct (renderLog entries)).rows sha256 calls) :=
        AuditLogger.rows_appended
          (construct_file (renderLog_ne_nil entries)) calls
      rw [List.foldl_cons, loggedFrom, lived, inductionHypothesis]
      simp

/-- The file of a run of lifetimes holds exactly the rows that were logged. -/
theorem auditFile_holds_rows
    (sha256 : Bytes → Hash256)
    (calls : List LogCall)
    (later : List (List LogCall)) :
    auditFile sha256 (calls :: later) =
      renderLog (loggedRows sha256 (calls :: later)) := by
  have fresh : (AuditLogger.construct []).file = renderLog [] :=
    (construct_fresh sha256).file
  have lived :
      (AuditLogger.lifetime sha256 [] calls).file =
        renderLog ((AuditLogger.construct []).rows sha256 calls) :=
    AuditLogger.rows_appended fresh calls
  rw [auditFile, List.foldl_cons, loggedRows, loggedFrom, lived]
  exact loggedFrom_appended _ later

/-- Every logged row carries the text of a hash. -/
theorem loggedFrom_isLink
    (file : Bytes)
    (lifetimes : List (List LogCall)) :
    ∀ row ∈ loggedFrom sha256 file lifetimes, IsLink row.2 := by
  induction lifetimes generalizing file with
  | nil =>
      simp [loggedFrom]
  | cons calls later inductionHypothesis =>
      intro row member
      rcases List.mem_append.mp member with inFirst | inLater
      · exact AuditLogger.rows_isLink _ calls row inFirst
      · exact inductionHypothesis _ row inLater

/-- The logged rows are the calls of all lifetimes in order. -/
theorem loggedFrom_calls
    (file : Bytes)
    (lifetimes : List (List LogCall)) :
    (loggedFrom sha256 file lifetimes).map Prod.fst = lifetimes.flatten := by
  induction lifetimes generalizing file with
  | nil =>
      rfl
  | cons calls later inductionHypothesis =>
      simp [loggedFrom, AuditLogger.rows_calls, inductionHypothesis]

end Lifetimes

/--
A reader of the file gets the header and then, call by call, the nine fields of
each, whatever bytes the fields hold.
-/
theorem audit_records_round_trip
    (sha256 : Bytes → Hash256)
    (calls : List LogCall)
    (later : List (List LogCall)) :
    Csv.read (auditFile sha256 (calls :: later)) =
        some (headerFields ::
          (loggedRows sha256 (calls :: later)).map fun row =>
            recordValues row.1 row.2) ∧
      (loggedRows sha256 (calls :: later)).map Prod.fst =
        (calls :: later).flatten := by
  rw [auditFile_holds_rows]
  exact ⟨read_renderLog (loggedFrom_isLink [] _), loggedFrom_calls [] _⟩

end RadminPro
