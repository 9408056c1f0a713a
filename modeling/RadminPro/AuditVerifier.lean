import RadminPro.AuditLifetimes

namespace RadminPro

open ByteCodec

/-!
# The chain verifier

The verifier of the audit log reads physical lines, skips the header and
recomputes every link.  Its verdict is that the lines it reads are linked from
the genesis link, and then the last link binds all of them.
-/

/-- A line without one carriage return at its end. -/
def popCr (line : Bytes) : Bytes :=
  if line.getLast? = some Csv.cr then line.dropLast else line

/-- A line split at its last comma. -/
def splitLastComma (line : Bytes) : Option (Bytes × Bytes) :=
  if Csv.comma ∈ line then
    some ((line.rdropWhile fun byte => byte != Csv.comma).dropLast,
      line.rtakeWhile fun byte => byte != Csv.comma)
  else
    none

/-- The state of the verifier between two lines. -/
structure ChainVerifier where
  prev : Bytes := genesisChainHex
  first : Bool := true
  dataRows : Nat := 0

namespace ChainVerifier

/-- Check one line; nothing is left of a verifier that rejects. -/
def checkLine
    (sha256 : Bytes → Hash256)
    (verifier : ChainVerifier)
    (line : Bytes) : Option ChainVerifier :=
  let line := popCr line
  if line.isEmpty then
    some verifier
  else if verifier.first then
    some { verifier with first := false }
  else
    match splitLastComma line with
    | none => none
    | some (rowPart, chainPart) =>
        let expect := chainHex sha256 verifier.prev rowPart
        if expect ≠ chainPart then
          none
        else
          some { verifier with
            prev := chainPart
            dataRows := verifier.dataRows + 1 }

end ChainVerifier

/-- Recompute the chain of a file; a file without rows is not accepted. -/
def verifyAuditChain (sha256 : Bytes → Hash256) (file : Bytes) : Bool :=
  match (getlinesFrom [] file).foldlM (ChainVerifier.checkLine sha256) {} with
  | none => false
  | some verifier => verifier.dataRows > 0

/-! ## What the verifier accepts -/

/-- The lines of a file that are not empty. -/
def textLines (file : Bytes) : List Bytes :=
  ((getlinesFrom [] file).map popCr).filter fun line => !line.isEmpty

/-- The rows below the header, with their links. -/
def lineEntries (file : Bytes) : List (Bytes × Bytes) :=
  (textLines file).tail.filterMap splitLastComma

/-- Every line below the header has a comma to split it at. -/
def Splits (file : Bytes) : Prop :=
  ∀ line ∈ (textLines file).tail, Csv.comma ∈ line

/-! ## Its verdict -/

section Verdict

variable (sha256 : Bytes → Hash256)

/-- An empty line is passed over. -/
theorem ChainVerifier.checkLine_empty
    {line : Bytes}
    (empty : popCr line = [])
    (verifier : ChainVerifier) :
    ChainVerifier.checkLine sha256 verifier line = some verifier := by
  simp [ChainVerifier.checkLine, empty]

/-- Below the header the lines are accepted while they are linked. -/
theorem foldlM_checkLine_rows
    (lines : List Bytes)
    (previous : Bytes)
    (dataRows : Nat) :
    lines.foldlM (ChainVerifier.checkLine sha256)
        ⟨previous, false, dataRows⟩ =
      let text := (lines.map popCr).filter fun line => !line.isEmpty
      let entries := text.filterMap splitLastComma
      if (∀ line ∈ text, Csv.comma ∈ line) ∧
          HashChain.Linked (chainHex sha256) previous entries then
        some ⟨HashChain.tip previous entries, false,
          dataRows + entries.length⟩
      else
        none := by
  induction lines generalizing previous dataRows with
  | nil =>
      simp [HashChain.Linked]
  | cons line rest inductionHypothesis =>
      rw [List.foldlM_cons]
      by_cases empty : popCr line = []
      · rw [ChainVerifier.checkLine_empty sha256 empty]
        simp only [Option.bind_eq_bind, Option.bind_some,
          inductionHypothesis previous dataRows, List.map_cons, empty,
          List.isEmpty_nil, Bool.not_true, Bool.false_eq_true,
          not_false_eq_true, List.filter_cons_of_neg]
      · have notEmpty : (popCr line).isEmpty = false := by
          simp [empty]
        simp only [List.map_cons, List.filter_cons, notEmpty, Bool.not_false,
          if_true]
        by_cases hasComma : Csv.comma ∈ popCr line
        · obtain ⟨⟨row, chain⟩, splits⟩ :
              ∃ entry, splitLastComma (popCr line) = some entry := by
            simp [splitLastComma, hasComma]
          simp only [List.filterMap_cons_some splits, List.forall_mem_cons,
            hasComma, true_and, HashChain.Linked, HashChain.tip_cons,
            List.length_cons]
          by_cases isLinked : chainHex sha256 previous row = chain
          · simp [ChainVerifier.checkLine, notEmpty, splits, isLinked,
              inductionHypothesis, Nat.add_assoc, Nat.add_comm 1]
          · have notLinked : ¬chain = chainHex sha256 previous row :=
              fun linked => isLinked linked.symm
            simp [ChainVerifier.checkLine, notEmpty, splits, isLinked,
              notLinked]
        · have noSplit : splitLastComma (popCr line) = none := by
            simp [splitLastComma, hasComma]
          simp [ChainVerifier.checkLine, notEmpty, noSplit, hasComma]

/-- The header is passed over, and the lines below it are judged as rows. -/
theorem foldlM_checkLine_file
    (lines : List Bytes) :
    lines.foldlM (ChainVerifier.checkLine sha256) {} =
      let text := (lines.map popCr).filter fun line => !line.isEmpty
      let entries := text.tail.filterMap splitLastComma
      if (∀ line ∈ text.tail, Csv.comma ∈ line) ∧
          HashChain.Linked (chainHex sha256) genesisChainHex entries then
        some ⟨HashChain.tip genesisChainHex entries, text.isEmpty,
          entries.length⟩
      else
        none := by
  induction lines with
  | nil =>
      simp [HashChain.Linked]
  | cons line rest inductionHypothesis =>
      rw [List.foldlM_cons]
      by_cases empty : popCr line = []
      · rw [ChainVerifier.checkLine_empty sha256 empty]
        simp only [Option.bind_eq_bind, Option.bind_some,
          inductionHypothesis, List.map_cons, empty,
          List.isEmpty_nil, Bool.not_true, Bool.false_eq_true,
          not_false_eq_true, List.filter_cons_of_neg]
      · have isHeader :
            ChainVerifier.checkLine sha256 {} line =
              some ⟨genesisChainHex, false, 0⟩ := by
          simp [ChainVerifier.checkLine, empty]
        simp [isHeader, foldlM_checkLine_rows, empty]

/-- The verifier accepts the files whose rows exist, split and are linked. -/
theorem verifyAuditChain_iff
    (file : Bytes) :
    verifyAuditChain sha256 file ↔
      Splits file ∧
        HashChain.Linked (chainHex sha256) genesisChainHex
          (lineEntries file) ∧
        lineEntries file ≠ [] := by
  have verdict := foldlM_checkLine_file sha256 (getlinesFrom [] file)
  by_cases accepted :
      Splits file ∧
        HashChain.Linked (chainHex sha256) genesisChainHex (lineEntries file)
  · have folded :
        (getlinesFrom [] file).foldlM (ChainVerifier.checkLine sha256) {} =
          some ⟨HashChain.tip genesisChainHex (lineEntries file),
            (textLines file).isEmpty, (lineEntries file).length⟩ :=
      verdict.trans (if_pos accepted)
    simp [verifyAuditChain, folded, accepted, List.length_pos_iff]
  · have folded :
        (getlinesFrom [] file).foldlM (ChainVerifier.checkLine sha256) {} =
          none :=
      verdict.trans (if_neg accepted)
    simp only [verifyAuditChain, folded, Bool.false_eq_true, false_iff]
    rintro ⟨splits, linked, _⟩
    exact accepted ⟨splits, linked⟩

end Verdict

/-! ## The last link binds the rows -/

/-- What the verifier hashes for a sequence of rows and links. -/
def chainInputs (entries : List (Bytes × Bytes)) : List Bytes :=
  (HashChain.steps genesisChainHex entries).map fun step => step.1 ++ step.2

/-- No two of the inputs hash alike, and none hashes to 64 zeros. -/
structure CollisionFree
    (sha256 : Bytes → Hash256)
    (inputs : List Bytes) : Prop where
  injective :
    ∀ first ∈ inputs, ∀ second ∈ inputs,
      sha256 first = sha256 second → first = second
  notGenesis : ∀ input ∈ inputs, toHex (sha256 input).bytes ≠ genesisChainHex

instance (sha256 : Bytes → Hash256) (inputs : List Bytes) :
    Decidable (CollisionFree sha256 inputs) :=
  decidable_of_iff
    ((∀ first ∈ inputs, ∀ second ∈ inputs,
        sha256 first = sha256 second → first = second) ∧
      ∀ input ∈ inputs, toHex (sha256 input).bytes ≠ genesisChainHex)
    ⟨fun free => ⟨free.1, free.2⟩, fun free => ⟨free.injective, free.notGenesis⟩⟩

/-- The byte that two hexadecimal digits stand for. -/
def hexValue (high low : UInt8) : UInt8 :=
  UInt8.ofNat (16 * hexDigits.idxOf high + hexDigits.idxOf low)

/-- The digits of a byte stand for that byte. -/
theorem hexValue_digits
    (byte : UInt8) :
    hexValue (hexDigit (byte >>> 4)) (hexDigit (byte &&& 0x0F)) = byte := by
  have table :
      ∀ value < 256,
        hexValue (hexDigit (UInt8.ofNat value >>> 4))
            (hexDigit (UInt8.ofNat value &&& 0x0F)) =
          UInt8.ofNat value := by
    decide +kernel
  simpa using table byte.toNat byte.toNat_lt

/-- Hexadecimal text determines the bytes. -/
theorem toHex_injective :
    Function.Injective toHex := by
  intro first
  induction first with
  | nil =>
      intro second same
      cases second with
      | nil =>
          rfl
      | cons byte rest =>
          simp [toHex] at same
  | cons byte rest inductionHypothesis =>
      intro second same
      cases second with
      | nil =>
          simp [toHex] at same
      | cons other later =>
          simp only [toHex, List.flatMap_cons, List.cons_append,
            List.nil_append, List.cons.injEq] at same
          obtain ⟨sameHigh, sameLow, sameRest⟩ := same
          have sameByte : byte = other := by
            rw [← hexValue_digits byte, sameHigh, sameLow, hexValue_digits]
          rw [sameByte, inductionHypothesis sameRest]

/-- The genesis link has the width of a hash. -/
theorem genesisChainHex_length : genesisChainHex.length = 64 := by
  simp [genesisChainHex]

/-- Every link of a log of rows has 64 digits, and so has the genesis link. -/
theorem steps_width
    {sha256 : Bytes → Hash256}
    {previous : Bytes}
    {entries : List (Bytes × Bytes)}
    (width : previous.length = 64)
    (linked : HashChain.Linked (chainHex sha256) previous entries) :
    ∀ step ∈ HashChain.steps previous entries, step.1.length = 64 := by
  induction entries generalizing previous with
  | nil =>
      simp [HashChain.steps]
  | cons entry rest inductionHypothesis =>
      obtain ⟨row, link⟩ := entry
      obtain ⟨rfl, restLinked⟩ := linked
      have linkWidth : (chainHex sha256 previous row).length = 64 := by
        rw [chainHex, toHex_length, Hash256.size]
      simp only [HashChain.steps, List.forall_mem_cons]
      exact ⟨width, inductionHypothesis linkWidth restLinked⟩

/-- Equal links are equal hashes. -/
theorem toHex_hash_inj
    {first second : Hash256}
    (same : toHex first.bytes = toHex second.bytes) :
    first = second := by
  have sameBytes := toHex_injective same
  cases first
  cases second
  simpa using sameBytes

/-- Without collisions a link determines the full-width link before it. -/
theorem CollisionFree.chainHex_inj
    {sha256 : Bytes → Hash256}
    {inputs : List Bytes}
    (collisionFree : CollisionFree sha256 inputs)
    {first second row other : Bytes}
    (firstWidth : first.length = 64)
    (secondWidth : second.length = 64)
    (isFirst : first ++ row ∈ inputs)
    (isSecond : second ++ other ∈ inputs)
    (sameLink : chainHex sha256 first row = chainHex sha256 second other) :
    first = second ∧ row = other := by
  have sameHash : sha256 (first ++ row) = sha256 (second ++ other) :=
    toHex_hash_inj sameLink
  have sameInput := collisionFree.injective _ isFirst _ isSecond sameHash
  exact List.append_inj sameInput (firstWidth.trans secondWidth.symm)

/-- On steps of full width, hashing without collisions binds them. -/
theorem binding_of_collisionFree
    {sha256 : Bytes → Hash256}
    {hashed : List (Bytes × Bytes)}
    (width : ∀ step ∈ hashed, step.1.length = 64)
    (collisionFree :
      CollisionFree sha256 (hashed.map fun step => step.1 ++ step.2)) :
    HashChain.Binding (chainHex sha256) genesisChainHex hashed where
  injective first isFirst second isSecond sameLink := by
    obtain ⟨samePrevious, sameRow⟩ :=
      collisionFree.chainHex_inj (width first isFirst) (width second isSecond)
        (List.mem_map_of_mem isFirst) (List.mem_map_of_mem isSecond) sameLink
    exact Prod.ext samePrevious sameRow
  notGenesis step isStep :=
    collisionFree.notGenesis _ (List.mem_map_of_mem isStep)

/-- Fewer inputs collide less. -/
theorem CollisionFree.mono
    {sha256 : Bytes → Hash256}
    {fewer more : List Bytes}
    (collisionFree : CollisionFree sha256 more)
    (subset : fewer ⊆ more) :
    CollisionFree sha256 fewer where
  injective first isFirst second isSecond :=
    collisionFree.injective first (subset isFirst) second (subset isSecond)
  notGenesis input isInput := collisionFree.notGenesis input (subset isInput)

/-- What the verifier hashes on a file. -/
def verifierInputs (file : Bytes) : List Bytes :=
  chainInputs (lineEntries file)

/-- The rows of a file without their links. -/
def lineRows (file : Bytes) : List Bytes :=
  (lineEntries file).map Prod.fst

/-- The chain value of the last row. -/
def lastChain (file : Bytes) : Bytes :=
  HashChain.tip genesisChainHex (lineEntries file)

/--
Accepted files with the same last chain value hold the same rows, so rows before
an untouched last row do not change, vanish, appear or move unnoticed.
-/
theorem last_chain_binds_rows
    (sha256 : Bytes → Hash256)
    (original other : Bytes)
    (collisionFree :
      CollisionFree sha256 (verifierInputs original ++ verifierInputs other))
    (accepted : verifyAuditChain sha256 original) :
    (verifyAuditChain sha256 other →
        lastChain original = lastChain other →
          lineRows original = lineRows other) ∧
      ((lineEntries original).getLast? = (lineEntries other).getLast? →
        lineRows original ≠ lineRows other →
          ¬verifyAuditChain sha256 other) := by
  have bound :
      verifyAuditChain sha256 other →
        lastChain original = lastChain other →
          lineRows original = lineRows other := by
    intro otherAccepted sameTip
    obtain ⟨_, linked, _⟩ := (verifyAuditChain_iff sha256 original).mp accepted
    obtain ⟨_, otherLinked, _⟩ :=
      (verifyAuditChain_iff sha256 other).mp otherAccepted
    have binding :
        HashChain.Binding (chainHex sha256) genesisChainHex
          (HashChain.steps genesisChainHex (lineEntries original) ++
            HashChain.steps genesisChainHex (lineEntries other)) := by
      apply binding_of_collisionFree
      · intro step member
        rcases List.mem_append.mp member with inOriginal | inOther
        · exact steps_width genesisChainHex_length linked step inOriginal
        · exact steps_width genesisChainHex_length otherLinked step inOther
      · simpa [verifierInputs, chainInputs] using collisionFree
    exact congrArg (List.map Prod.fst)
      (HashChain.eq_of_tip_eq linked otherLinked binding sameTip)
  refine ⟨bound, ?_⟩
  intro sameLast differ otherAccepted
  apply differ
  apply bound otherAccepted
  simp [lastChain, HashChain.tip, sameLast]

/-- A blank line below a log does not change its rows. -/
theorem last_chain_binds_rows_blank_line :
    lineRows (auditFile evpSha256 [[loginCall, loginCall]]) =
      lineRows (auditFile evpSha256 [[loginCall, loginCall]] ++ Csv.crlf) := by
  let original := auditFile evpSha256 [[loginCall, loginCall]]
  have readings :
      (CollisionFree evpSha256
          (verifierInputs original ++ verifierInputs (original ++ Csv.crlf)) ∧
        verifyAuditChain evpSha256 original) ∧
      verifyAuditChain evpSha256 (original ++ Csv.crlf) ∧
        lastChain original = lastChain (original ++ Csv.crlf) := by
    decide +kernel
  obtain ⟨⟨collisionFree, accepted⟩, otherAccepted, sameLast⟩ := readings
  exact (last_chain_binds_rows evpSha256 original (original ++ Csv.crlf)
    collisionFree accepted).1 otherAccepted sameLast

end RadminPro
