import RadminPro.AuditRecords

namespace RadminPro

open ByteCodec

/-!
# The audit log after a torn append

A crash can leave any first part of the last row in the file.  The next logger
opens the file for appending and writes behind what is left, so the first row it
logs does not start a record.
-/

/--
The file of some lifetimes was cut inside its last row: what remains are the
complete records, the last of which has the link `tip`, and the bytes `kept`.
-/
inductive CutInLastRow
    (sha256 : Bytes → Hash256)
    (lifetimes : List (List LogCall)) :
    (complete : List Bytes) → (tip kept : Bytes) → Prop where
  | header
      {kept lost : Bytes}
      (noRow : loggedRows sha256 lifetimes = [])
      (split : kHeader ++ Csv.crlf = kept ++ lost)
      (someKept : kept ≠ [])
      (someLost : lost ≠ []) :
      CutInLastRow sha256 lifetimes [] genesisChainHex kept
  | row
      {earlier : List (LogCall × Bytes)}
      {call : LogCall}
      {chain kept lost : Bytes}
      (rows : loggedRows sha256 lifetimes = earlier ++ [(call, chain)])
      (split : recordText call chain ++ Csv.crlf = kept ++ lost)
      (someKept : kept ≠ [])
      (someLost : lost ≠ []) :
      CutInLastRow sha256 lifetimes
        (kHeader :: earlier.map fun row => recordText row.1 row.2)
        (HashChain.tip genesisChainHex earlier) kept

/-- Records, each with its line break. -/
def withBreaks (records : List Bytes) : Bytes :=
  records.flatMap fun record => record ++ Csv.crlf

/-- The file that a crash leaves. -/
def tornFile (complete : List Bytes) (kept : Bytes) : Bytes :=
  withBreaks complete ++ kept

/-- The file after the next logger has logged its calls. -/
def recoveredFile
    (sha256 : Bytes → Hash256)
    (complete : List Bytes)
    (kept : Bytes)
    (calls : List LogCall) : Bytes :=
  (AuditLogger.lifetime sha256 (tornFile complete kept) calls).file

/-- The rows of the next logger. -/
def rowsAfterCrash
    (sha256 : Bytes → Hash256)
    (complete : List Bytes)
    (kept : Bytes)
    (calls : List LogCall) : List (LogCall × Bytes) :=
  (AuditLogger.construct (tornFile complete kept)).rows sha256 calls

/--
The log has recovered: the complete records and the new rows stand by
themselves, and the first new row continues the chain of the complete ones.
-/
structure Recovered
    (sha256 : Bytes → Hash256)
    (complete : List Bytes)
    (tip kept : Bytes)
    (calls : List LogCall) : Prop where
  complete_apart :
    ∀ earlier record later,
      complete = earlier ++ record :: later →
      Csv.IsRecordAt (withBreaks earlier) record
        (recoveredFile sha256 complete kept calls)
  new_apart :
    ∀ earlier row later,
      rowsAfterCrash sha256 complete kept calls = earlier ++ row :: later →
      Csv.IsRecordAt
        (tornFile complete kept ++
          withBreaks (earlier.map fun row => recordText row.1 row.2))
        (recordText row.1 row.2)
        (recoveredFile sha256 complete kept calls)
  continues :
    ∀ row ∈ (rowsAfterCrash sha256 complete kept calls).head?,
      row.2 = chainHex sha256 tip (rowText row.1)

/-! ## Records and what is left of one -/

theorem withBreaks_append
    (earlier later : List Bytes) :
    withBreaks (earlier ++ later) = withBreaks earlier ++ withBreaks later :=
  List.flatMap_append

/-- Behind sealed records a reader stands at the start of the next one. -/
theorem withBreaks_atStart
    {records : List Bytes}
    (allSealed : ∀ record ∈ records, Csv.sealedFrom [Csv.cr] false record) :
    Csv.AtStart (withBreaks records) := by
  induction records with
  | nil =>
      rfl
  | cons record rest inductionHypothesis =>
      have recordEnds :
          Csv.pendingFrom false [] (record ++ Csv.crlf) = (false, []) :=
        Csv.pendingFrom_sealed false [] (allSealed record (by simp))
      have restEnds :=
        inductionHypothesis fun later member => allSealed later (by simp [member])
      have shape :
          withBreaks (record :: rest) =
            record ++ Csv.crlf ++ withBreaks rest := by
        simp [withBreaks]
      rw [Csv.AtStart, shape, Csv.pendingFrom_append recordEnds]
      exact restEnds

section Cut

variable {sha256 : Bytes → Hash256}
variable {lifetimes : List (List LogCall)}
variable {complete : List Bytes}
variable {tip kept : Bytes}

/-- The records that a crash leaves complete are sealed. -/
theorem CutInLastRow.complete_sealed
    (cut : CutInLastRow sha256 lifetimes complete tip kept) :
    ∀ record ∈ complete, Csv.sealedFrom [Csv.cr] false record := by
  cases cut with
  | header =>
      simp
  | @row earlier call chain kept lost rows split someKept someLost =>
      intro record member
      rcases List.mem_cons.mp member with rfl | inEarlier
      · exact kHeader_sealed
      · obtain ⟨row, inRows, rfl⟩ := List.mem_map.mp inEarlier
        apply recordText_sealed
        apply loggedFrom_isLink [] lifetimes
        rw [← loggedRows, rows]
        exact List.mem_append_left _ inRows

/-- Behind a torn row a reader is inside a record. -/
theorem CutInLastRow.pending
    (cut : CutInLastRow sha256 lifetimes complete tip kept) :
    (Csv.pendingFrom false [] kept).2 ≠ [] := by
  cases cut with
  | header noRow split someKept someLost =>
      exact Csv.pendingFrom_cut kHeader_sealed split someLost someKept
  | @row earlier call chain kept lost rows split someKept someLost =>
      have isLink : IsLink chain := by
        apply loggedFrom_isLink [] lifetimes (call, chain)
        rw [← loggedRows, rows]
        simp
      exact Csv.pendingFrom_cut (recordText_sealed call isLink) split
        someLost someKept

/-- The torn file does not end at the start of a record. -/
theorem CutInLastRow.not_atStart
    (cut : CutInLastRow sha256 lifetimes complete tip kept) :
    ¬Csv.AtStart (tornFile complete kept) := by
  intro atStart
  rw [Csv.AtStart, tornFile,
    Csv.pendingFrom_append (withBreaks_atStart cut.complete_sealed)] at atStart
  exact cut.pending (by rw [atStart])

/-- The next logger leaves the bytes of the torn file where they are. -/
theorem CutInLastRow.recoveredFile_extends
    (cut : CutInLastRow sha256 lifetimes complete tip kept)
    (calls : List LogCall) :
    tornFile complete kept <+: recoveredFile sha256 complete kept calls := by
  have nonempty : tornFile complete kept ≠ [] := by
    intro empty
    exact cut.not_atStart (by rw [empty]; rfl)
  have appended :
      ∀ logger : AuditLogger,
        logger.file <+: (calls.foldl (AuditLogger.log sha256) logger).file := by
    induction calls with
    | nil =>
        exact fun logger => List.prefix_refl _
    | cons call rest inductionHypothesis =>
        intro logger
        have logged : logger.file <+: (logger.log sha256 call).file :=
          List.prefix_append _ _
        exact logged.trans (inductionHypothesis _)
  simpa [recoveredFile, AuditLogger.lifetime, construct_file nonempty] using
    appended (AuditLogger.construct (tornFile complete kept))

/-- The complete records stand by themselves whatever is logged later. -/
theorem CutInLastRow.complete_apart
    (cut : CutInLastRow sha256 lifetimes complete tip kept)
    (calls : List LogCall)
    {earlier later : List Bytes}
    {record : Bytes}
    (split : complete = earlier ++ record :: later) :
    Csv.IsRecordAt (withBreaks earlier) record
      (recoveredFile sha256 complete kept calls) where
  starts := by
    apply withBreaks_atStart
    intro other member
    apply cut.complete_sealed
    rw [split]
    exact List.mem_append_left _ member
  isSealed := by
    apply cut.complete_sealed
    simp [split]
  written := by
    refine List.IsPrefix.trans ?_ (cut.recoveredFile_extends calls)
    refine ⟨withBreaks later ++ kept, ?_⟩
    rw [tornFile, split, withBreaks_append]
    simp [withBreaks]

/-- The first row that is logged behind a torn one does not stand by itself. -/
theorem CutInLastRow.first_row_merged
    (cut : CutInLastRow sha256 lifetimes complete tip kept)
    (call : LogCall)
    (rest : List LogCall) :
    ¬Recovered sha256 complete tip kept (call :: rest) := by
  intro recovered
  have apart := recovered.new_apart [] _ _ rfl
  exact cut.not_atStart (by simpa [withBreaks] using apart.starts)

end Cut

/--
Cut anywhere inside its last row, the log recovers exactly when nothing is
logged afterwards.
-/
theorem recovered_iff_nothing_logged
    (sha256 : Bytes → Hash256)
    (lifetimes : List (List LogCall))
    (complete : List Bytes)
    (tip kept : Bytes)
    (cut : CutInLastRow sha256 lifetimes complete tip kept)
    (calls : List LogCall) :
    Recovered sha256 complete tip kept calls ↔ calls = [] := by
  constructor
  · intro recovered
    cases calls with
    | nil =>
        rfl
    | cons call rest =>
        exact (cut.first_row_merged call rest recovered).elim
  · rintro rfl
    refine ⟨fun earlier record later split => cut.complete_apart [] split, ?_, ?_⟩
    · intro earlier row later split
      simp [rowsAfterCrash, AuditLogger.rows] at split
    · simp [rowsAfterCrash, AuditLogger.rows]

/-- The row of a log with one call. -/
theorem loggedRows_single
    (sha256 : Bytes → Hash256)
    (call : LogCall) :
    loggedRows sha256 [[call]] =
      [] ++ [(call, chainHex sha256 genesisChainHex (rowText call))] :=
  rfl

/-- A log that was cut behind the timestamp of its only row. -/
theorem loginCall_cut :
    CutInLastRow evpSha256 [[loginCall]] [kHeader] genesisChainHex
      (utcTimestamp loginCall.time) := by
  have plain :
      csvEscape (utcTimestamp loginCall.time) = utcTimestamp loginCall.time := by
    decide +kernel
  obtain ⟨rest, split⟩ :
      ∃ rest, ∀ chain,
        recordText loginCall chain ++ Csv.crlf =
          utcTimestamp loginCall.time ++ (rest ++ chain ++ Csv.crlf) := by
    refine ⟨(rowText loginCall ++ [Csv.comma]).drop
      (utcTimestamp loginCall.time).length, fun chain => ?_⟩
    simp [recordText, rowText, plain]
  exact .row (loggedRows_single evpSha256 loginCall) (split _)
    (by decide +kernel) (by simp [Csv.crlf])

/-- Nothing logged after the crash, nothing merged. -/
theorem recovered_iff_nothing_logged_login :
    CutInLastRow evpSha256 [[loginCall]] [kHeader] genesisChainHex
        (utcTimestamp loginCall.time) ∧
      (Recovered evpSha256 [kHeader] genesisChainHex
          (utcTimestamp loginCall.time) [] ↔ ([] : List LogCall) = []) :=
  ⟨loginCall_cut,
    recovered_iff_nothing_logged evpSha256 [[loginCall]] [kHeader]
      genesisChainHex (utcTimestamp loginCall.time) loginCall_cut []⟩

/-- A login after the crash is written into the torn row. -/
theorem login_merged_into_torn_row :
    CutInLastRow evpSha256 [[loginCall]] [kHeader] genesisChainHex
        (utcTimestamp loginCall.time) ∧
      ¬Recovered evpSha256 [kHeader] genesisChainHex
        (utcTimestamp loginCall.time) [loginCall] :=
  ⟨loginCall_cut, loginCall_cut.first_row_merged loginCall []⟩

end RadminPro
