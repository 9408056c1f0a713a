import RadminPro.AuditChain

namespace RadminPro

open ByteCodec

/-!
# Whole runs of the audit log

A run is a sequence of logger lifetimes on one initially empty file.  The state
of a logger is related to the abstract chain of its rows; logging extends that
chain, and so does reopening the file, as long as the last row before the
reopening does not end in a line that looks like the header.
-/

/-- A chain of calls, each hashed after the link before it. -/
def CallChain (sha256 : Bytes → Hash256) : List (LogCall × Bytes) → Prop :=
  HashChain.Linked
    (fun previous call => chainHex sha256 previous (rowText call))
    genesisChainHex

/--
An RFC 4180 reader finds one chain from the genesis link through every data
record of the file.
-/
structure Unbroken (sha256 : Bytes → Hash256) (file : Bytes) : Prop where
  linked :
    HashChain.Linked (chainHex sha256) genesisChainHex (chainEntries file)

instance (sha256 : Bytes → Hash256) (file : Bytes) :
    Decidable (Unbroken sha256 file) :=
  decidable_of_iff
    (HashChain.Linked (chainHex sha256) genesisChainHex (chainEntries file))
    ⟨fun linked => ⟨linked⟩, fun unbroken => unbroken.linked⟩

/-- A logger whose file and chain state are those of a chain of calls. -/
structure StandsAt
    (sha256 : Bytes → Hash256)
    (logger : AuditLogger)
    (entries : List (LogCall × Bytes)) : Prop where
  file : logger.file = renderLog entries
  tip : logger.prevChainHex = HashChain.tip genesisChainHex entries
  linked : CallChain sha256 entries

/--
Every reopening that is followed by a logged row happens after a row whose last
physical line does not look like the header.
-/
def ReopensCleanly (lifetimes : List (List LogCall)) : Prop :=
  ∀ earlier later,
    lifetimes = earlier ++ later →
    later.flatten ≠ [] →
    ∀ call ∈ earlier.flatten.getLast?, ¬HeaderLike call

section Runs

variable {sha256 : Bytes → Hash256}

/-- Every link of a chain of calls is the text of a hash. -/
theorem CallChain.isLink
    {entries : List (LogCall × Bytes)}
    (linked : CallChain sha256 entries) :
    ∀ entry ∈ entries, IsLink entry.2 := by
  induction entries using List.reverseRecOn with
  | nil =>
      simp
  | append_singleton earlier last inductionHypothesis =>
      obtain ⟨earlierLinked, lastLinked⟩ := HashChain.linked_append.mp linked
      intro entry member
      rcases List.mem_append.mp member with inEarlier | isLast
      · exact inductionHypothesis earlierLinked entry inEarlier
      · rw [List.mem_singleton.mp isLast]
        exact ⟨_, lastLinked.1⟩

/-- The rows and links of a chain of calls are linked as rows. -/
theorem CallChain.rows_linked
    {entries : List (LogCall × Bytes)}
    (linked : CallChain sha256 entries) :
    HashChain.Linked (chainHex sha256) genesisChainHex
      (entries.map fun entry => (rowText entry.1, entry.2)) := by
  suffices general :
      ∀ genesis,
        HashChain.Linked
            (fun previous call => chainHex sha256 previous (rowText call))
            genesis entries →
          HashChain.Linked (chainHex sha256) genesis
            (entries.map fun entry => (rowText entry.1, entry.2)) from
    general _ linked
  clear linked
  induction entries with
  | nil =>
      exact fun _ _ => trivial
  | cons entry rest inductionHypothesis =>
      rintro genesis ⟨headLinked, restLinked⟩
      exact ⟨headLinked, inductionHypothesis _ restLinked⟩

/-- Logging extends the chain by one row. -/
theorem StandsAt.log
    {logger : AuditLogger}
    {entries : List (LogCall × Bytes)}
    (stands : StandsAt sha256 logger entries)
    (call : LogCall) :
    StandsAt sha256 (logger.log sha256 call)
      (entries ++
        [(call, chainHex sha256 logger.prevChainHex (rowText call))]) where
  file := by
    rw [renderLog_snoc, ← stands.file]
    rfl
  tip := by
    rw [HashChain.tip_append_singleton]
    rfl
  linked := by
    rw [stands.tip]
    exact HashChain.linked_snoc stands.linked call

/-- A sequence of calls extends the chain by exactly these calls. -/
theorem StandsAt.logAll
    {logger : AuditLogger}
    {entries : List (LogCall × Bytes)}
    (stands : StandsAt sha256 logger entries)
    (calls : List LogCall) :
    ∃ extended,
      StandsAt sha256 (calls.foldl (AuditLogger.log sha256) logger) extended ∧
        extended.map Prod.fst = entries.map Prod.fst ++ calls := by
  induction calls generalizing logger entries with
  | nil =>
      exact ⟨entries, stands, by simp⟩
  | cons call rest inductionHypothesis =>
      obtain ⟨extended, standsAfter, calls⟩ :=
        inductionHypothesis (stands.log call)
      exact ⟨extended, standsAfter, by simpa using calls⟩

/-- A fresh file starts an empty chain. -/
theorem construct_fresh
    (sha256 : Bytes → Hash256) :
    StandsAt sha256 (AuditLogger.construct []) [] where
  file := by
    simp [AuditLogger.construct, renderLog]
  tip :=
    rfl
  linked :=
    trivial

/-- A reopened file resumes its chain after a row that is not header-like. -/
theorem construct_resumes
    {entries : List (LogCall × Bytes)}
    (linked : CallChain sha256 entries)
    (clean : ∀ call ∈ (entries.map Prod.fst).getLast?, ¬HeaderLike call) :
    StandsAt sha256 (AuditLogger.construct (renderLog entries)) entries := by
  have notEmpty : renderLog entries ≠ [] := by
    obtain ⟨front, shape⟩ := renderLog_ends_with_lf entries
    simp [shape]
  refine ⟨by simp [AuditLogger.construct, notEmpty], ?_, linked⟩
  have resumes : resumeChain (renderLog entries) =
      HashChain.tip genesisChainHex entries := by
    cases entries using List.reverseRecOn with
    | nil =>
        exact resumeChain_header
    | append_singleton earlier last =>
        have notHeaderLike : ¬HeaderLike last.1 :=
          clean last.1 (by simp)
        rw [resumeChain_renderLog (linked.isLink last (by simp)),
          if_neg notHeaderLike, HashChain.tip_append_singleton]
  simpa [AuditLogger.construct, notEmpty] using resumes

/-- The file of a cleanly reopened run is one chain of all its calls. -/
theorem auditFile_eq_renderLog
    (sha256 : Bytes → Hash256)
    {lifetimes : List (List LogCall)}
    (nonempty : lifetimes ≠ [])
    (clean : ReopensCleanly lifetimes) :
    ∃ entries,
      auditFile sha256 lifetimes = renderLog entries ∧
        CallChain sha256 entries ∧
        entries.map Prod.fst = lifetimes.flatten := by
  induction lifetimes using List.reverseRecOn with
  | nil =>
      exact (nonempty rfl).elim
  | append_singleton earlier calls inductionHypothesis =>
      have fileShape :
          auditFile sha256 (earlier ++ [calls]) =
            (AuditLogger.lifetime sha256 (auditFile sha256 earlier)
              calls).file := by
        simp [auditFile]
      rw [fileShape]
      by_cases isFirst : earlier = []
      · subst isFirst
        obtain ⟨extended, stands, extendedCalls⟩ :=
          (construct_fresh sha256).logAll calls
        exact ⟨extended, stands.file, stands.linked,
          by simpa using extendedCalls⟩
      · have earlierClean : ReopensCleanly earlier := by
          intro before after split someRow call isLast
          refine clean before (after ++ [calls]) ?_ ?_ call isLast
          · rw [split, List.append_assoc]
          · intro noRow
            rw [List.flatten_append, List.append_eq_nil_iff] at noRow
            exact someRow noRow.1
        obtain ⟨entries, shape, linked, entryCalls⟩ :=
          inductionHypothesis isFirst earlierClean
        rw [shape]
        by_cases idle : calls = []
        · subst idle
          have notEmpty : renderLog entries ≠ [] := by
            obtain ⟨front, ends⟩ := renderLog_ends_with_lf entries
            simp [ends]
          refine ⟨entries, ?_, linked, by simpa using entryCalls⟩
          simp [AuditLogger.lifetime, AuditLogger.construct, notEmpty]
        · have resumes :=
            construct_resumes linked (by
              rw [entryCalls]
              exact clean earlier [calls] rfl (by simpa using idle))
          obtain ⟨extended, stands, extendedCalls⟩ := resumes.logAll calls
          refine ⟨extended, stands.file, stands.linked, ?_⟩
          rw [extendedCalls, entryCalls]
          simp

end Runs

/-- In every run whose reopenings are clean, the chain of the file is unbroken. -/
theorem auditFile_unbroken
    (sha256 : Bytes → Hash256)
    (lifetimes : List (List LogCall))
    (clean : ReopensCleanly lifetimes) :
    Unbroken sha256 (auditFile sha256 lifetimes) := by
  by_cases nonempty : lifetimes = []
  · subst nonempty
    exact ⟨trivial⟩
  · obtain ⟨entries, shape, linked, _⟩ :=
      auditFile_eq_renderLog sha256 nonempty clean
    rw [shape]
    exact ⟨by
      rw [chainEntries_renderLog linked.isLink]
      exact linked.rows_linked⟩

/-- A successful login, logged with fields that need no quoting. -/
def loginCall : LogCall where
  time := ⟨2024, 1, 31, 9, 5, 0, 7⟩
  pid := 4711
  event :=
    AuditEvent.auth (ascii "admin") (ascii "192.168.1.50:51000") true
      (ascii "RemoteScreenView")

/-- A failed login whose username continues with the header's first field. -/
def forgedHeaderCall : LogCall where
  time := ⟨2024, 1, 31, 9, 5, 1, 0⟩
  pid := 4711
  event :=
    AuditEvent.auth (ascii "x\ntimestamp_utc,") (ascii "192.168.1.66:50123")
      false (ascii "status=1")

/-- A login, a restart and another login keep one chain. -/
theorem auditFile_unbroken_restart :
    Unbroken evpSha256 (auditFile evpSha256 [[loginCall], [loginCall]]) := by
  refine auditFile_unbroken evpSha256 [[loginCall], [loginCall]] ?_
  intro earlier later split _ call isLast
  have inRun : call ∈ [[loginCall], [loginCall]].flatten := by
    rw [split, List.flatten_append]
    exact List.mem_append_left _ (List.mem_of_getLast? isLast)
  have isLogin : call = loginCall := by
    simpa using inRun
  rw [isLogin]
  decide +kernel

/-- After the forged username and a restart the chain starts over. -/
theorem auditFile_forked_by_username :
    ¬Unbroken evpSha256
      (auditFile evpSha256 [[forgedHeaderCall], [loginCall]]) := by
  decide +kernel

end RadminPro
