import RadminPro.AuditVerifier

namespace RadminPro

open ByteCodec

/-!
# Deleted rows

The file of any number of lifetimes is a sequence of chains, a new one wherever
a reopened logger takes the last row for the header.  Rows are deleted from the
file, the verifier reads what is left, and a reopened logger may continue it.
-/

/-! ## The rows of a file -/

/-- The records that one logger writes from a link on. -/
def chained (sha256 : Bytes → Hash256) : Bytes → List LogCall → List (LogCall × Bytes)
  | _, [] => []
  | previous, call :: rest =>
      let chain := chainHex sha256 previous (rowText call)
      (call, chain) :: chained sha256 chain rest

/-- The chains of a file: those that were left, and the one that goes on. -/
structure ChainRuns where
  finished : List (List LogCall) := []
  current : List LogCall := []

/-- A lifetime continues the chain unless the last row looks like the header. -/
def ChainRuns.reopen (runs : ChainRuns) (calls : List LogCall) : ChainRuns :=
  if calls = [] then
    runs
  else if ∃ call ∈ runs.current.getLast?, HeaderLike call then
    ⟨runs.finished ++ [runs.current], calls⟩
  else
    ⟨runs.finished, runs.current ++ calls⟩

/-- The calls of all lifetimes, cut where a new chain starts. -/
def chainRuns (lifetimes : List (List LogCall)) : List (List LogCall) :=
  let runs := lifetimes.foldl ChainRuns.reopen {}
  runs.finished ++ [runs.current]

/-- The records of chains that each start at the genesis link. -/
def runEntries
    (sha256 : Bytes → Hash256)
    (runs : List (List LogCall)) : List (LogCall × Bytes) :=
  runs.flatMap (chained sha256 genesisChainHex)

/-- The records that the lifetimes leave in their file. -/
def loggedEntries
    (sha256 : Bytes → Hash256)
    (lifetimes : List (List LogCall)) : List (LogCall × Bytes) :=
  runEntries sha256 (chainRuns lifetimes)

section Log

variable {sha256 : Bytes → Hash256}

/-- Writing goes on from the last link written. -/
theorem chained_append
    (previous : Bytes)
    (first second : List LogCall) :
    chained sha256 previous (first ++ second) =
      chained sha256 previous first ++
        chained sha256
          (HashChain.tip previous (chained sha256 previous first)) second := by
  induction first generalizing previous with
  | nil =>
      rfl
  | cons call rest inductionHypothesis =>
      simp [chained, inductionHypothesis, HashChain.tip_cons]

/-- What one logger writes is linked. -/
theorem chained_linked
    (previous : Bytes)
    (calls : List LogCall) :
    HashChain.Linked
      (fun previous call => chainHex sha256 previous (rowText call)) previous
      (chained sha256 previous calls) := by
  induction calls generalizing previous with
  | nil =>
      trivial
  | cons call rest inductionHypothesis =>
      exact ⟨rfl, inductionHypothesis _⟩

/-- The text of records, each with its line break. -/
def recordLines (entries : List (LogCall × Bytes)) : Bytes :=
  entries.flatMap fun entry => recordText entry.1 entry.2 ++ Csv.crlf

/-- Logging appends the records that continue from the logger's link. -/
theorem logAll_file
    (logger : AuditLogger)
    (calls : List LogCall) :
    (calls.foldl (AuditLogger.log sha256) logger).file =
      logger.file ++ recordLines (chained sha256 logger.prevChainHex calls) := by
  induction calls generalizing logger with
  | nil =>
      simp [chained, recordLines]
  | cons call rest inductionHypothesis =>
      rw [List.foldl_cons, inductionHypothesis]
      simp [AuditLogger.log, chained, recordLines, recordText]

/-- More records are appended to a log. -/
theorem renderLog_append
    (first second : List (LogCall × Bytes)) :
    renderLog (first ++ second) = renderLog first ++ recordLines second := by
  simp [renderLog, recordLines]

/-- A lifetime on a log continues from where the log resumes. -/
theorem lifetime_renderLog
    (entries : List (LogCall × Bytes))
    (calls : List LogCall) :
    (AuditLogger.lifetime sha256 (renderLog entries) calls).file =
      renderLog
        (entries ++ chained sha256 (resumeChain (renderLog entries)) calls) := by
  rw [AuditLogger.lifetime, logAll_file, renderLog_append]
  simp [AuditLogger.construct, renderLog_ne_nil]

/-- A log resumes at its last chain, or at the genesis link. -/
theorem resumeChain_runs
    (finished : List (List LogCall))
    (current : List LogCall)
    (started : current = [] → finished = []) :
    resumeChain (renderLog (runEntries sha256 (finished ++ [current]))) =
      if ∃ call ∈ current.getLast?, HeaderLike call then
        genesisChainHex
      else
        HashChain.tip genesisChainHex
          (chained sha256 genesisChainHex current) := by
  cases current using List.reverseRecOn with
  | nil =>
      rw [started rfl]
      simpa [runEntries, chained] using resumeChain_header
  | append_singleton earlier last =>
      have shape :
          runEntries sha256 (finished ++ [earlier ++ [last]]) =
            (runEntries sha256 finished ++
                chained sha256 genesisChainHex earlier) ++
              [(last, chainHex sha256
                (HashChain.tip genesisChainHex
                  (chained sha256 genesisChainHex earlier)) (rowText last))] := by
        simp [runEntries, chained_append, chained]
      have isLink :
          IsLink
            (chainHex sha256
              (HashChain.tip genesisChainHex
                (chained sha256 genesisChainHex earlier)) (rowText last)) :=
        ⟨_, rfl⟩
      rw [shape, resumeChain_renderLog isLink]
      simp [chained_append, chained]

/-- A reopened file is the log of the reopened chains. -/
theorem lifetime_runs
    (runs : ChainRuns)
    (started : runs.current = [] → runs.finished = [])
    (calls : List LogCall) :
    (AuditLogger.lifetime sha256
        (renderLog (runEntries sha256 (runs.finished ++ [runs.current])))
        calls).file =
      renderLog
        (runEntries sha256
          ((runs.reopen calls).finished ++ [(runs.reopen calls).current])) := by
  rw [lifetime_renderLog, resumeChain_runs _ _ started]
  by_cases idle : calls = []
  · simp [idle, chained, ChainRuns.reopen]
  · by_cases headerLike : ∃ call ∈ runs.current.getLast?, HeaderLike call
    · simp only [ChainRuns.reopen, if_neg idle, if_pos headerLike]
      simp [runEntries]
    · simp only [ChainRuns.reopen, if_neg idle, if_neg headerLike]
      simp [runEntries, chained_append]

/-- A chain that goes on has rows once a chain was left. -/
theorem reopen_started
    (runs : ChainRuns)
    (started : runs.current = [] → runs.finished = [])
    (calls : List LogCall) :
    (runs.reopen calls).current = [] → (runs.reopen calls).finished = [] := by
  unfold ChainRuns.reopen
  split
  · exact started
  · split
    · next someCall _ =>
        exact fun noRow => absurd noRow someCall
    · next someCall _ =>
        intro noRow
        exact absurd (List.append_eq_nil_iff.mp noRow).2 someCall

/-- The file of all lifetimes is the log of their chains. -/
theorem auditFile_eq_logged
    {lifetimes : List (List LogCall)}
    (opened : lifetimes ≠ []) :
    auditFile sha256 lifetimes = renderLog (loggedEntries sha256 lifetimes) := by
  suffices general :
      ∀ runs : ChainRuns, (runs.current = [] → runs.finished = []) →
        ∀ later : List (List LogCall),
          later.foldl
              (fun file calls => (AuditLogger.lifetime sha256 file calls).file)
              (renderLog
                (runEntries sha256 (runs.finished ++ [runs.current]))) =
            renderLog
              (runEntries sha256
                ((later.foldl ChainRuns.reopen runs).finished ++
                  [(later.foldl ChainRuns.reopen runs).current])) by
    cases lifetimes with
    | nil =>
        exact (opened rfl).elim
    | cons calls later =>
        have fresh :
            AuditLogger.construct [] = AuditLogger.construct (renderLog []) := by
          simp only [AuditLogger.construct, if_true,
            if_neg (renderLog_ne_nil []), resumeChain_header]
          simp [renderLog]
        have fromHeader := general {} (fun _ => rfl) (calls :: later)
        rw [List.foldl_cons] at fromHeader
        rw [auditFile, List.foldl_cons, AuditLogger.lifetime, fresh]
        exact fromHeader
  intro runs started later
  induction later generalizing runs with
  | nil =>
      rfl
  | cons calls rest inductionHypothesis =>
      rw [List.foldl_cons, lifetime_runs runs started calls]
      exact inductionHypothesis (runs.reopen calls)
        (reopen_started runs started calls)

end Log

/-! ## The rows as lines -/

/-- A row that the verifier reads as one line. -/
def OneLine (call : LogCall) : Prop :=
  Csv.lf ∉ rowText call

instance (call : LogCall) : Decidable (OneLine call) :=
  inferInstanceAs (Decidable (_ ∉ _))

/-- The texts of the rows with their links. -/
def rowEntries (entries : List (LogCall × Bytes)) : List (Bytes × Bytes) :=
  entries.map fun entry => (rowText entry.1, entry.2)

/-- The lines up to a line feed are read on their own. -/
theorem textLines_append_lf
    (front rest : Bytes) :
    textLines (front ++ Csv.lf :: rest) =
      textLines (front ++ [Csv.lf]) ++ textLines rest := by
  obtain ⟨lines, shape⟩ := getlinesFrom_append_lf front []
  simp [textLines, shape, getlinesFrom]

/-- A text without line feeds is read as one line. -/
theorem textLines_line
    {line : Bytes}
    (oneLine : Csv.lf ∉ line)
    (notEmpty : line ≠ []) :
    textLines (line ++ Csv.crlf) = [line] := by
  have noLf : Csv.lf ∉ line ++ [Csv.cr] := by
    have lfNotCr : Csv.lf ≠ Csv.cr := by
      decide
    simp [oneLine, lfNotCr]
  have read := getlinesFrom_line noLf []
  simp only [List.append_assoc, List.singleton_append] at read
  simp [textLines, Csv.crlf, read, popCr, notEmpty]

/-- A line is split at the last comma. -/
theorem splitLastComma_comma
    {back : Bytes}
    (noComma : Csv.comma ∉ back)
    (front : Bytes) :
    splitLastComma (front ++ Csv.comma :: back) = some (front, back) := by
  have allTaken : ∀ byte ∈ back, (byte != Csv.comma) = true := by
    intro byte member
    rw [bne_iff_ne]
    rintro rfl
    exact noComma member
  have taken :
      ((front ++ [Csv.comma]) ++ back).rtakeWhile (fun byte => byte != Csv.comma) =
        back := by
    rw [rtakeWhile_append_of_pos _ allTaken,
      List.rtakeWhile_concat_neg _ _ _ (by simp), List.nil_append]
  have dropped :
      ((front ++ [Csv.comma]) ++ back).rdropWhile (fun byte => byte != Csv.comma) =
        front ++ [Csv.comma] := by
    have whole :=
      List.rdropWhile_append_rtakeWhile
        (p := fun byte => byte != Csv.comma) (l := (front ++ [Csv.comma]) ++ back)
    rw [taken] at whole
    exact List.append_cancel_right whole
  simp only [List.append_assoc, List.singleton_append] at taken dropped
  simp [splitLastComma, taken, dropped]

/-- A link holds no comma and no line feed. -/
theorem IsLink.plain
    {chain : Bytes}
    (isLink : IsLink chain) :
    Csv.comma ∉ chain ∧ Csv.lf ∉ chain := by
  obtain ⟨hash, rfl⟩ := isLink
  constructor
  · intro member
    exact (toHex_plain member).1.2 (by simp)
  · intro member
    exact (toHex_plain member).1.2 (by simp)

/-- The lines of one record. -/
def rowLines (entry : LogCall × Bytes) : List Bytes :=
  textLines (recordText entry.1 entry.2 ++ Csv.crlf)

/-- The lines of a record end with the last line of its row. -/
theorem rowLines_shape
    (call : LogCall)
    {chain : Bytes}
    (isLink : IsLink chain) :
    ∃ front lastRow,
      rowLines (call, chain) = front ++ [lastRow ++ Csv.comma :: chain] ∧
        Csv.lf ∉ lastRow ∧
        (OneLine call → front = [] ∧ lastRow = rowText call) := by
  obtain ⟨noComma, noLf⟩ := isLink.plain
  have lastLine :
      ∀ line : Bytes, Csv.lf ∉ line →
        textLines ((line ++ Csv.comma :: chain) ++ Csv.crlf) =
          [line ++ Csv.comma :: chain] := by
    intro line oneLine
    apply textLines_line
    · have lfNotComma : Csv.lf ≠ Csv.comma := by
        decide
      simp [oneLine, noLf, lfNotComma]
    · simp
  by_cases oneLine : OneLine call
  · refine ⟨[], rowText call, ?_, oneLine, fun _ => ⟨rfl, rfl⟩⟩
    simpa [rowLines, recordText] using lastLine _ oneLine
  · -- The row is cut behind its last line feed.
    obtain ⟨before, after, shape, noLater⟩ :
        ∃ before after, rowText call = before ++ Csv.lf :: after ∧
          Csv.lf ∉ after := by
      have member : Csv.lf ∈ (rowText call).reverse := by
        simpa [OneLine] using oneLine
      obtain ⟨later, earlier, shape, noLater⟩ :=
        List.eq_append_cons_of_mem member
      refine ⟨earlier.reverse, later.reverse, ?_, by simpa using noLater⟩
      simpa using congrArg List.reverse shape
    refine ⟨textLines (before ++ [Csv.lf]), after, ?_, noLater,
      fun isOneLine => absurd isOneLine oneLine⟩
    rw [← lastLine after noLater, ← textLines_append_lf, rowLines, recordText,
      shape]
    simp

/-- The lines of a log are the header and the lines of its records. -/
theorem textLines_renderLog
    (entries : List (LogCall × Bytes)) :
    textLines (renderLog entries) =
      kHeader :: entries.flatMap rowLines := by
  have header :
      ∀ rest, textLines (kHeader ++ Csv.crlf ++ rest) =
        kHeader :: textLines rest := by
    intro rest
    have headerLine : textLines (kHeader ++ Csv.crlf) = [kHeader] :=
      textLines_line (by decide +kernel) (by decide +kernel)
    have cut := textLines_append_lf (kHeader ++ [Csv.cr]) rest
    simp only [Csv.crlf, List.append_assoc, List.cons_append,
      List.nil_append] at headerLine cut ⊢
    rw [cut, headerLine]
    rfl
  rw [renderLog, header]
  congr 1
  induction entries with
  | nil =>
      rfl
  | cons entry rest inductionHypothesis =>
      rw [List.flatMap_cons, List.flatMap_cons, ← inductionHypothesis]
      have cut :=
        textLines_append_lf (recordText entry.1 entry.2 ++ [Csv.cr])
          (recordLines rest)
      simpa [rowLines, Csv.crlf, recordLines] using cut

section Verdict

variable {sha256 : Bytes → Hash256}

/-- One-line rows are read back with their links. -/
theorem lineEntries_renderLog
    {entries : List (LogCall × Bytes)}
    (links : ∀ entry ∈ entries, IsLink entry.2)
    (oneLine : ∀ entry ∈ entries, OneLine entry.1) :
    Splits (renderLog entries) ∧
      lineEntries (renderLog entries) = rowEntries entries := by
  have lines :
      (textLines (renderLog entries)).tail =
        entries.map fun entry => rowText entry.1 ++ Csv.comma :: entry.2 := by
    rw [textLines_renderLog, List.tail_cons, List.map_eq_flatMap]
    apply List.flatMap_congr
    intro entry member
    obtain ⟨front, lastRow, shape, _, whole⟩ :=
      rowLines_shape entry.1 (links entry member)
    obtain ⟨noFront, isRow⟩ := whole (oneLine entry member)
    rw [noFront, isRow, List.nil_append] at shape
    exact shape
  constructor
  · intro line member
    rw [lines] at member
    obtain ⟨entry, _, rfl⟩ := List.mem_map.mp member
    simp
  · have split :
        ∀ entry ∈ entries,
          (splitLastComma ∘
              fun entry => rowText entry.1 ++ Csv.comma :: entry.2) entry =
            some (rowText entry.1, entry.2) := by
      intro entry member
      rw [Function.comp_apply,
        splitLastComma_comma (links entry member).plain.1]
    rw [lineEntries, lines, List.filterMap_map, List.filterMap_congr split]
    simp [rowEntries]

/-- The rows of a linked log have links. -/
theorem linked_isLink
    {previous : Bytes}
    {entries : List (Bytes × Bytes)}
    (linked : HashChain.Linked (chainHex sha256) previous entries) :
    ∀ entry ∈ entries, IsLink entry.2 := by
  induction entries generalizing previous with
  | nil =>
      simp
  | cons entry rest inductionHypothesis =>
      obtain ⟨isLinked, restLinked⟩ := linked
      rw [List.forall_mem_cons]
      exact ⟨⟨_, isLinked⟩, inductionHypothesis restLinked⟩

/-- A linked log stands at a link of full width. -/
theorem tip_width
    {entries : List (Bytes × Bytes)}
    (linked : HashChain.Linked (chainHex sha256) genesisChainHex entries) :
    (HashChain.tip genesisChainHex entries).length = 64 := by
  cases entries using List.reverseRecOn with
  | nil =>
      exact genesisChainHex_length
  | append_singleton earlier last =>
      obtain ⟨hash, isHash⟩ := linked_isLink linked last (by simp)
      rw [HashChain.tip_append_singleton, isHash, toHex_length, hash.size]

/-- The lines of a record are judged with its link at the end. -/
theorem lineEntries_record
    (earlier later : List (LogCall × Bytes))
    (call : LogCall)
    {chain : Bytes}
    (isLink : IsLink chain) :
    ∃ before lastRow after,
      lineEntries (renderLog (earlier ++ (call, chain) :: later)) =
          before ++ (lastRow, chain) :: after ∧
        Csv.lf ∉ lastRow := by
  obtain ⟨front, lastRow, shape, oneLine, _⟩ := rowLines_shape call isLink
  have lines :
      (textLines (renderLog (earlier ++ (call, chain) :: later))).tail =
        (earlier.flatMap rowLines ++ front) ++
          (lastRow ++ Csv.comma :: chain) :: later.flatMap rowLines := by
    simp [textLines_renderLog, shape]
  have entries :
      lineEntries (renderLog (earlier ++ (call, chain) :: later)) =
        (earlier.flatMap rowLines ++ front).filterMap splitLastComma ++
          (lastRow, chain) ::
            (later.flatMap rowLines).filterMap splitLastComma := by
    rw [lineEntries, lines, List.filterMap_append,
      List.filterMap_cons_some (splitLastComma_comma isLink.plain.1 lastRow)]
  exact ⟨_, lastRow, _, entries, oneLine⟩

/-- What the loggers hash over all lifetimes. -/
def loggedInputs
    (sha256 : Bytes → Hash256)
    (lifetimes : List (List LogCall)) : List Bytes :=
  (chainRuns lifetimes).flatMap fun calls =>
    chainInputs (rowEntries (chained sha256 genesisChainHex calls))

/-- A record stands in one of the chains, behind what was logged before it. -/
theorem loggedEntries_position
    {lifetimes : List (List LogCall)}
    {entry : LogCall × Bytes}
    (member : entry ∈ loggedEntries sha256 lifetimes) :
    ∃ calls ∈ chainRuns lifetimes, ∃ earlier later,
      rowEntries (chained sha256 genesisChainHex calls) =
        earlier ++ (rowText entry.1, entry.2) :: later := by
  obtain ⟨calls, isRun, inRun⟩ := List.mem_flatMap.mp member
  refine ⟨calls, isRun, ?_⟩
  apply List.mem_iff_append.mp
  exact List.mem_map_of_mem inRun

/-- The rows of one chain are linked from the genesis link. -/
theorem run_linked
    (sha256 : Bytes → Hash256)
    (calls : List LogCall) :
    HashChain.Linked (chainHex sha256) genesisChainHex
      (rowEntries (chained sha256 genesisChainHex calls)) :=
  CallChain.rows_linked (chained_linked genesisChainHex calls)

/-- Every record that was logged has a link. -/
theorem loggedEntries_isLink
    {lifetimes : List (List LogCall)} :
    ∀ entry ∈ loggedEntries sha256 lifetimes, IsLink entry.2 := by
  intro entry member
  obtain ⟨calls, _, inRun⟩ := List.mem_flatMap.mp member
  exact CallChain.isLink (chained_linked genesisChainHex calls) entry inRun

/-- A record was hashed with the full-width link before it. -/
theorem loggedEntries_hashed
    {lifetimes : List (List LogCall)}
    {entry : LogCall × Bytes}
    (member : entry ∈ loggedEntries sha256 lifetimes) :
    ∃ previous : Bytes,
      previous.length = 64 ∧
        previous ++ rowText entry.1 ∈ loggedInputs sha256 lifetimes ∧
        entry.2 = chainHex sha256 previous (rowText entry.1) := by
  obtain ⟨calls, isRun, earlier, later, shape⟩ := loggedEntries_position member
  have linked := run_linked sha256 calls
  rw [shape] at linked
  obtain ⟨earlierLinked, isLinked, _⟩ := HashChain.linked_append.mp linked
  refine ⟨HashChain.tip genesisChainHex earlier, tip_width earlierLinked, ?_,
    isLinked⟩
  apply List.mem_flatMap_of_mem isRun
  simp [chainInputs, shape, HashChain.steps_append, HashChain.steps]

/--
The link of an accepted record was hashed from its row and from what the
verifier reads as the last line of it.
-/
theorem accepted_rehashed
    {lifetimes : List (List LogCall)}
    {kept : List (LogCall × Bytes)}
    (logged : kept ⊆ loggedEntries sha256 lifetimes)
    (accepted : verifyAuditChain sha256 (renderLog kept))
    {entry : LogCall × Bytes}
    (member : entry ∈ kept) :
    ∃ previous before lastRow : Bytes,
      (previous.length = 64 ∧ before.length = 64) ∧
        previous ++ rowText entry.1 ∈ loggedInputs sha256 lifetimes ∧
        before ++ lastRow ∈ verifierInputs (renderLog kept) ∧
        chainHex sha256 previous (rowText entry.1) =
          chainHex sha256 before lastRow ∧
        Csv.lf ∉ lastRow := by
  have isLogged := logged member
  obtain ⟨call, chain⟩ := entry
  obtain ⟨earlier, later, rfl⟩ := List.mem_iff_append.mp member
  obtain ⟨before, lastRow, after, shape, oneLine⟩ :=
    lineEntries_record earlier later call (loggedEntries_isLink _ isLogged)
  obtain ⟨previous, width, isInput, isChain⟩ := loggedEntries_hashed isLogged
  obtain ⟨_, linked, _⟩ := (verifyAuditChain_iff sha256 _).mp accepted
  rw [shape] at linked
  obtain ⟨beforeLinked, isLinked, _⟩ := HashChain.linked_append.mp linked
  have isRead :
      HashChain.tip genesisChainHex before ++ lastRow ∈
        verifierInputs (renderLog (earlier ++ (call, chain) :: later)) := by
    simp [verifierInputs, chainInputs, shape, HashChain.steps_append,
      HashChain.steps]
  exact
    ⟨previous, HashChain.tip genesisChainHex before, lastRow,
      ⟨width, tip_width beforeLinked⟩, isInput, isRead,
      isChain.symm.trans isLinked, oneLine⟩

section Kept

variable
  {lifetimes : List (List LogCall)}
  {kept : List (LogCall × Bytes)}
  (logged : kept ⊆ loggedEntries sha256 lifetimes)
  (collisionFree :
    CollisionFree sha256
      (loggedInputs sha256 lifetimes ++ verifierInputs (renderLog kept)))

include logged collisionFree

/-- A kept row with a line feed is not accepted. -/
theorem accepted_oneLine
    (accepted : verifyAuditChain sha256 (renderLog kept)) :
    ∀ entry ∈ kept, OneLine entry.1 := by
  intro entry member
  obtain
    ⟨previous, before, lastRow, ⟨width, readWidth⟩, isInput, isRead, sameLink,
      oneLine⟩ :=
    accepted_rehashed logged accepted member
  -- The same link was hashed from the whole row and from its last line.
  have sameRow : rowText entry.1 = lastRow :=
    (collisionFree.chainHex_inj width readWidth
      (List.mem_append_left _ isInput) (List.mem_append_right _ isRead)
      sameLink).2
  rw [OneLine, sameRow]
  exact oneLine

/-- Accepted rows are the first rows of one chain. -/
theorem accepted_prefix
    (accepted : verifyAuditChain sha256 (renderLog kept)) :
    ∃ run ∈ chainRuns lifetimes,
      rowEntries kept <+: rowEntries (chained sha256 genesisChainHex run) := by
  have oneLine := accepted_oneLine logged collisionFree accepted
  have links : ∀ entry ∈ kept, IsLink entry.2 :=
    fun entry member => loggedEntries_isLink entry (logged member)
  obtain ⟨_, read⟩ := lineEntries_renderLog links oneLine
  obtain ⟨_, linked, someRow⟩ := (verifyAuditChain_iff sha256 _).mp accepted
  rw [read] at linked someRow
  cases kept using List.reverseRecOn with
  | nil =>
      exact (someRow rfl).elim
  | append_singleton front last =>
      obtain ⟨run, isRun, earlier, later, shape⟩ :=
        loggedEntries_position (logged (show last ∈ front ++ [last] by simp))
      refine ⟨run, isRun, ?_⟩
      have wholeLinked := run_linked sha256 run
      rw [List.append_cons] at shape
      rw [shape] at wholeLinked
      obtain ⟨upToLast, _⟩ := HashChain.linked_append.mp wholeLinked
      -- What is kept and the chain up to the same row end in the same link.
      have sameRows :
          rowEntries (front ++ [last]) =
            earlier ++ [(rowText last.1, last.2)] := by
        apply HashChain.eq_of_tip_eq linked upToLast
        · apply binding_of_collisionFree
          · intro step member
            rcases List.mem_append.mp member with inKept | inRun
            · exact steps_width genesisChainHex_length linked step inKept
            · exact steps_width genesisChainHex_length upToLast step inRun
          · apply collisionFree.mono
            rw [List.map_append]
            intro input member
            rcases List.mem_append.mp member with inKept | inRun
            · apply List.mem_append_right
              rw [verifierInputs, read]
              exact inKept
            · apply List.mem_append_left
              apply List.mem_flatMap_of_mem isRun
              rw [chainInputs, shape, HashChain.steps_append, List.map_append]
              exact List.mem_append_left _ inRun
        · simp [rowEntries]
      rw [sameRows, shape]
      exact List.prefix_append _ _

end Kept

/-- A prefix of linked one-line rows is accepted. -/
theorem oneLine_accepted
    {kept : List (LogCall × Bytes)}
    (linked :
      HashChain.Linked (chainHex sha256) genesisChainHex (rowEntries kept))
    (oneLine : ∀ entry ∈ kept, OneLine entry.1)
    (someKept : kept ≠ []) :
    verifyAuditChain sha256 (renderLog kept) := by
  have links : ∀ entry ∈ kept, IsLink entry.2 := by
    intro entry member
    have isRow : (rowText entry.1, entry.2) ∈ rowEntries kept :=
      List.mem_map_of_mem member
    exact linked_isLink linked _ isRow
  obtain ⟨splits, read⟩ := lineEntries_renderLog links oneLine
  apply (verifyAuditChain_iff sha256 _).mpr
  rw [read]
  refine ⟨splits, linked, ?_⟩
  simpa [rowEntries] using someKept

/-- A row begins with a digit or a quote. -/
theorem rowText_head
    (call : LogCall) :
    ∃ byte, (rowText call).head? = some byte ∧ byte.toNat ≤ 57 := by
  obtain ⟨byte, isHead, small⟩ :
      ∃ byte, (utcTimestamp call.time).head? = some byte ∧ byte.toNat ≤ 57 := by
    have digits : ∀ byte ∈ paddedDecimal 4 call.time.year, byte.toNat ≤ 57 := by
      intro byte member
      rcases List.mem_append.mp member with isZero | isDigit
      · rw [List.eq_of_mem_replicate isZero]
        decide
      · exact (decimal_mem isDigit).2
    cases year : paddedDecimal 4 call.time.year with
    | nil =>
        have width := congrArg List.length year
        simp only [paddedDecimal, List.length_append, List.length_replicate,
          List.length_nil] at width
        omega
    | cons byte rest =>
        exact ⟨byte, by simp [utcTimestamp, year], digits byte (by simp [year])⟩
  have escaped :
      ∃ byte,
        (csvEscape (utcTimestamp call.time)).head? = some byte ∧
          byte.toNat ≤ 57 := by
    unfold csvEscape
    dsimp only
    split
    · exact ⟨Csv.quote, rfl, by decide⟩
    · exact ⟨byte, isHead, small⟩
  obtain ⟨first, isFirst, firstSmall⟩ := escaped
  exact ⟨first, by simp [rowText, List.head?_append, isFirst], firstSmall⟩

/-- A one-line row does not look like the header. -/
theorem OneLine.not_headerLike
    {call : LogCall}
    (oneLine : OneLine call) :
    ¬HeaderLike call := by
  intro headerLike
  have whole : lastRowLine call = rowText call ++ [Csv.comma] := by
    rw [lastRowLine, List.rtakeWhile_eq_self_iff]
    intro byte member
    rw [bne_iff_ne]
    rintro rfl
    rcases List.mem_append.mp member with inRow | isComma
    · exact oneLine inRow
    · exact absurd (List.mem_singleton.mp isComma) (by decide)
  obtain ⟨byte, isHead, small⟩ := rowText_head call
  rw [HeaderLike, whole] at headerLike
  obtain ⟨later, starts⟩ := headerLike
  have isLetter : byte = 116 := by
    have heads := congrArg List.head? starts
    have letter : (ascii "timestamp_utc,").head? = some 116 := by
      decide
    simpa [List.head?_append, letter, isHead, eq_comm] using heads
  rw [isLetter] at small
  exact absurd small (by decide)

end Verdict

/-! ## When a deletion shows -/

/-- The verifier rejects what is left, or what a reopened logger makes of it. -/
def DeletionEvident
    (sha256 : Bytes → Hash256)
    (kept : List (LogCall × Bytes)) : Prop :=
  ¬verifyAuditChain sha256 (renderLog kept) ∨
    ∀ calls, calls ≠ [] →
      ¬verifyAuditChain sha256
        (AuditLogger.lifetime sha256 (renderLog kept) calls).file

/-- Linked one-line rows are accepted, and so are one-line rows logged after. -/
theorem not_evident_of_linked
    {sha256 : Bytes → Hash256}
    {kept : List (LogCall × Bytes)}
    (oneLine : ∀ entry ∈ kept, OneLine entry.1)
    (someKept : kept ≠ [])
    (linked :
      HashChain.Linked (chainHex sha256) genesisChainHex (rowEntries kept)) :
    ¬DeletionEvident sha256 kept := by
  rintro (rejected | rejectsAll)
  · exact rejected (oneLine_accepted linked oneLine someKept)
  · obtain ⟨front, last, rfl⟩ :=
      (List.eq_nil_or_concat kept).resolve_left someKept
    simp only [List.concat_eq_append] at *
    have lastOneLine : OneLine last.1 := oneLine last (by simp)
    have isLink : IsLink last.2 := by
      apply linked_isLink linked (rowText last.1, last.2)
      simp [rowEntries]
    have resumes :
        resumeChain (renderLog (front ++ [last])) =
          HashChain.tip genesisChainHex (rowEntries (front ++ [last])) := by
      rw [resumeChain_renderLog isLink, if_neg lastOneLine.not_headerLike]
      simp [rowEntries]
    -- The last call once more is a further row of one line.
    apply rejectsAll [last.1] (by simp)
    rw [lifetime_renderLog, resumes]
    apply oneLine_accepted
    · simpa [rowEntries, chained] using
        HashChain.linked_snoc linked (rowText last.1)
    · intro entry member
      rcases List.mem_append.mp member with inKept | isNew
      · exact oneLine entry inKept
      · rw [List.mem_singleton.mp isNew]
        exact lastOneLine
    · simp

/--
A deletion shows exactly when a kept row has a line feed or the kept rows are
not the first rows of one chain.
-/
theorem deletion_evident_iff
    (sha256 : Bytes → Hash256)
    (lifetimes : List (List LogCall))
    (kept : List (LogCall × Bytes))
    (logged : kept.Sublist (loggedEntries sha256 lifetimes))
    (someKept : kept ≠ [])
    (collisionFree :
      CollisionFree sha256
        (loggedInputs sha256 lifetimes ++ verifierInputs (renderLog kept))) :
    auditFile sha256 lifetimes = renderLog (loggedEntries sha256 lifetimes) ∧
      (DeletionEvident sha256 kept ↔
        (∃ entry ∈ kept, ¬OneLine entry.1) ∨
          ∀ run ∈ chainRuns lifetimes,
            ¬rowEntries kept <+:
              rowEntries (chained sha256 genesisChainHex run)) := by
  constructor
  · apply auditFile_eq_logged
    rintro rfl
    exact someKept (List.sublist_nil.mp logged)
  · constructor
    · intro evident
      by_contra hidden
      push Not at hidden
      obtain ⟨oneLine, run, isRun, ⟨rest, isPrefix⟩⟩ := hidden
      have linked := run_linked sha256 run
      rw [← isPrefix] at linked
      exact not_evident_of_linked oneLine someKept
        (HashChain.linked_append.mp linked).1 evident
    · intro condition
      left
      intro accepted
      rcases condition with ⟨entry, member, cut⟩ | noPrefix
      · exact cut
          (accepted_oneLine logged.subset collisionFree accepted entry member)
      · obtain ⟨run, isRun, isPrefix⟩ :=
          accepted_prefix logged.subset collisionFree accepted
        exact noPrefix run isRun isPrefix

/-- Without its first row, the log of two logins is rejected. -/
theorem deletion_evident_iff_first_row :
    DeletionEvident evpSha256
      ((loggedEntries evpSha256 [[loginCall, loginCall]]).drop 1) := by
  let kept := (loggedEntries evpSha256 [[loginCall, loginCall]]).drop 1
  have facts :
      (CollisionFree evpSha256
          (loggedInputs evpSha256 [[loginCall, loginCall]] ++
            verifierInputs (renderLog kept)) ∧
        kept ≠ []) ∧
      ∀ run ∈ chainRuns [[loginCall, loginCall]],
        ¬rowEntries kept <+:
          rowEntries (chained evpSha256 genesisChainHex run) := by
    decide +kernel
  obtain ⟨⟨collisionFree, someKept⟩, noPrefix⟩ := facts
  exact (deletion_evident_iff evpSha256 [[loginCall, loginCall]] kept
    (List.drop_sublist 1 _) someKept collisionFree).2.mpr (Or.inr noPrefix)

/-- Without its last row, the log of two logins is accepted and goes on. -/
theorem last_row_deleted_unnoticed :
    ¬∀ lifetimes kept,
      kept.Sublist (loggedEntries evpSha256 lifetimes) →
        kept ≠ [] →
          kept ≠ loggedEntries evpSha256 lifetimes →
            DeletionEvident evpSha256 kept := by
  intro evident
  let first := chained evpSha256 genesisChainHex [loginCall]
  let second := chained evpSha256 (HashChain.tip genesisChainHex first) [loginCall]
  have logged :
      loggedEntries evpSha256 [[loginCall, loginCall]] = first ++ second := by
    rfl
  refine not_evident_of_linked ?_ (by simp [chained])
    (run_linked evpSha256 [loginCall]) (evident [[loginCall, loginCall]] first ?_ ?_ ?_)
  · intro entry member
    rw [List.mem_singleton.mp member]
    decide +kernel
  · rw [logged]
    exact List.sublist_append_left first second
  · simp [first, chained]
  · rw [logged]
    simp [first, second, chained]

end RadminPro
