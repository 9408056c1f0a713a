import RadminPro.AuditDeletion

namespace RadminPro

open ByteCodec

/-!
# False alarms of the chain verifier

The verifier recomputes a log that nobody has touched.  It accepts the log of
one lifetime exactly when no field that was logged holds a line feed: a row that
is cut at one would need a second text with the same hash.
-/

/-- No field that the caller chooses holds a line feed. -/
def AuditEvent.SingleLine (event : AuditEvent) : Prop :=
  ∀ field ∈ [event.actor, event.peer, event.target, event.result, event.detail],
    Csv.lf ∉ field

instance (event : AuditEvent) : Decidable event.SingleLine :=
  inferInstanceAs (Decidable (∀ field ∈ _, _))

/-! ## Line feeds in a row -/

/-- Escaping adds and removes no line feed. -/
theorem lf_mem_csvEscape
    (field : Bytes) :
    Csv.lf ∈ csvEscape field ↔ Csv.lf ∈ field := by
  have notQuote : Csv.lf ≠ Csv.quote := by
    decide
  have doubled (byte : UInt8) :
      Csv.lf ∈
          (if byte = Csv.quote then [Csv.quote, Csv.quote] else [byte]) ↔
        Csv.lf = byte := by
    by_cases isQuote : byte = Csv.quote
    · simp [isQuote, notQuote]
    · simp [isQuote]
  unfold csvEscape
  dsimp only
  split
  · simp [notQuote, doubled]
  · exact Iff.rfl

theorem lf_mem_orDash
    (field : Bytes) :
    Csv.lf ∈ orDash field ↔ Csv.lf ∈ field := by
  unfold orDash
  split
  case isTrue empty =>
      have isNil : field = [] := List.isEmpty_iff.mp empty
      subst isNil
      decide +kernel
  case isFalse =>
      exact Iff.rfl

theorem lf_not_mem_decimal
    (value : Nat) :
    Csv.lf ∉ decimal value := by
  intro member
  exact (decimal_plain member).2 (by simp)

theorem lf_not_mem_paddedDecimal
    (width value : Nat) :
    Csv.lf ∉ paddedDecimal width value := by
  have notZero : Csv.lf ≠ hexDigit 0 := by
    decide
  intro member
  rcases List.mem_append.mp member with isZero | isDigit
  · exact notZero (List.eq_of_mem_replicate isZero)
  · exact lf_not_mem_decimal value isDigit

theorem lf_not_mem_utcTimestamp
    (time : UtcTime) :
    Csv.lf ∉ utcTimestamp time := by
  have separators :
      ∀ separator ∈ [ascii "-", ascii "T", ascii ":", ascii ".", ascii "Z"],
        Csv.lf ∉ separator := by
    decide +kernel
  simp only [List.forall_mem_cons] at separators
  simp only [utcTimestamp, List.mem_append, lf_not_mem_paddedDecimal,
    separators, or_self, not_false_eq_true]

theorem lf_not_mem_auditActionName
    (action : AuditAction) :
    Csv.lf ∉ auditActionName action := by
  cases action
  all_goals decide +kernel

/-- A row is one line exactly when the fields of its event are. -/
theorem oneLine_iff
    (call : LogCall) :
    OneLine call ↔ call.event.SingleLine := by
  have notComma : Csv.lf ∉ [Csv.comma] := by
    decide
  simp only [OneLine, rowText, AuditEvent.SingleLine, List.mem_append,
    lf_mem_csvEscape, lf_mem_orDash, lf_not_mem_utcTimestamp,
    lf_not_mem_decimal, lf_not_mem_auditActionName, notComma, or_false,
    false_or, not_or, List.forall_mem_cons, List.not_mem_nil, false_implies,
    implies_true, and_true, and_assoc]

/-! ## The log of one lifetime -/

section Lifetime

variable {sha256 : Bytes → Hash256}

/-- One lifetime leaves one chain. -/
theorem loggedEntries_single
    (calls : List LogCall) :
    loggedEntries sha256 [calls] = chained sha256 genesisChainHex calls := by
  have oneRun : chainRuns [calls] = [calls] := by
    cases calls with
    | nil =>
        rfl
    | cons call rest =>
        simp [chainRuns, ChainRuns.reopen]
  simp [loggedEntries, runEntries, oneRun]

/-- The records of a chain are those of its calls. -/
theorem chained_calls
    (previous : Bytes)
    (calls : List LogCall) :
    (chained sha256 previous calls).map Prod.fst = calls := by
  induction calls generalizing previous with
  | nil =>
      rfl
  | cons call rest inductionHypothesis =>
      exact congrArg (call :: ·) (inductionHypothesis _)

/-- A property of all records of a chain is one of all its calls. -/
theorem forall_mem_chained
    {property : LogCall → Prop}
    (previous : Bytes)
    (calls : List LogCall) :
    (∀ entry ∈ chained sha256 previous calls, property entry.1) ↔
      ∀ call ∈ calls, property call := by
  rw [← List.forall_mem_map, chained_calls]

/-- Untouched one-line rows are accepted. -/
theorem accepted_of_oneLine
    {calls : List LogCall}
    (someCall : calls ≠ [])
    (oneLine : ∀ call ∈ calls, OneLine call) :
    verifyAuditChain sha256 (auditFile sha256 [calls]) := by
  rw [auditFile_eq_logged (by simp), loggedEntries_single]
  apply oneLine_accepted
  · exact run_linked sha256 calls
  · exact (forall_mem_chained genesisChainHex calls).mpr oneLine
  · intro none
    have isCalls :
        (chained sha256 genesisChainHex calls).map Prod.fst = calls :=
      chained_calls genesisChainHex calls
    apply someCall
    rw [← isCalls, none]
    rfl

end Lifetime

/--
Two different texts have one hash, of which the logger hashed one and the
verifier hashes the other.
-/
def Collides
    (sha256 : Bytes → Hash256)
    (calls : List LogCall) : Prop :=
  ∃ logged ∈ loggedInputs sha256 [calls],
    ∃ read ∈ verifierInputs (auditFile sha256 [calls]),
      logged ≠ read ∧ sha256 logged = sha256 read

instance (sha256 : Bytes → Hash256) (calls : List LogCall) :
    Decidable (Collides sha256 calls) :=
  inferInstanceAs
    (Decidable
      (∃ logged ∈ loggedInputs sha256 [calls],
        ∃ read ∈ verifierInputs (auditFile sha256 [calls]),
          logged ≠ read ∧ sha256 logged = sha256 read))

/-- A row of several lines is accepted at a collision only. -/
theorem collides_of_accepted
    {sha256 : Bytes → Hash256}
    {calls : List LogCall}
    (accepted : verifyAuditChain sha256 (auditFile sha256 [calls]))
    {call : LogCall}
    (member : call ∈ calls)
    (broken : ¬OneLine call) :
    Collides sha256 calls := by
  have file :
      auditFile sha256 [calls] = renderLog (loggedEntries sha256 [calls]) :=
    auditFile_eq_logged (by simp)
  rw [file] at accepted
  obtain ⟨entry, isEntry, isCall⟩ :
      ∃ entry ∈ loggedEntries sha256 [calls], entry.1 = call := by
    rw [loggedEntries_single]
    apply List.mem_map.mp
    rw [chained_calls]
    exact member
  obtain
    ⟨previous, before, lastRow, ⟨width, readWidth⟩, isInput, isRead, sameLink,
      oneLine⟩ :=
    accepted_rehashed (fun _ isLogged => isLogged) accepted isEntry
  refine
    ⟨previous ++ rowText entry.1, isInput, before ++ lastRow, ?_, ?_,
      toHex_hash_inj sameLink⟩
  · rw [file]
    exact isRead
  · intro same
    have sameRow :=
      (List.append_inj same (width.trans readWidth.symm)).2
    rw [OneLine, ← isCall, sameRow] at broken
    exact broken oneLine

/--
The log of one lifetime is accepted exactly when no field that was logged holds
a line feed; only a collision of the hash would let a broken row pass.
-/
theorem no_false_alarm_iff
    (sha256 : Bytes → Hash256)
    (first : LogCall)
    (rest : List LogCall) :
    ((∀ call ∈ first :: rest, call.event.SingleLine) →
        verifyAuditChain sha256 (auditFile sha256 [first :: rest])) ∧
      (¬Collides sha256 (first :: rest) →
        (verifyAuditChain sha256 (auditFile sha256 [first :: rest]) ↔
          ∀ call ∈ first :: rest, call.event.SingleLine)) := by
  have enough :
      (∀ call ∈ first :: rest, call.event.SingleLine) →
        verifyAuditChain sha256 (auditFile sha256 [first :: rest]) := by
    intro singleLine
    apply accepted_of_oneLine (by simp)
    intro call member
    exact (oneLine_iff call).mpr (singleLine call member)
  refine ⟨enough, fun free => ⟨?_, enough⟩⟩
  intro accepted call member
  rw [← oneLine_iff]
  by_contra broken
  exact free (collides_of_accepted accepted member broken)

/-- A failed login whose username goes over two lines. -/
def twoLineLogin : LogCall where
  time := ⟨2024, 1, 31, 9, 5, 1, 0⟩
  pid := 4711
  event :=
    AuditEvent.auth (ascii "x\ny") (ascii "192.168.1.66:50123") false
      (ascii "status=1")

/-- A log with this login is free of collisions: it is the line feed that decides. -/
theorem no_false_alarm_iff_login :
    ¬Collides evpSha256 [twoLineLogin] ∧
      (verifyAuditChain evpSha256 (auditFile evpSha256 [[twoLineLogin]]) ↔
        ∀ call ∈ [twoLineLogin], call.event.SingleLine) := by
  have free : ¬Collides evpSha256 [twoLineLogin] := by
    decide +kernel
  exact ⟨free, (no_false_alarm_iff evpSha256 twoLineLogin []).2 free⟩

/-- An untouched log with this login is taken for tampered with. -/
theorem alarm_on_login_name :
    ¬verifyAuditChain evpSha256 (auditFile evpSha256 [[twoLineLogin]]) := by
  decide +kernel

end RadminPro
