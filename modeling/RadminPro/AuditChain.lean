import RadminPro.AuditLog

namespace RadminPro

open ByteCodec

/-!
# The audit chain across logger lifetimes

The file of a logger is the header followed by one rendered record per call.
An RFC 4180 reader takes the records apart again, whatever the fields hold.
`resumeChain` reads physical lines instead: it continues from the last link
unless the last line of the last record looks like the header.
-/

/-! ## Bytes that need no quoting -/

/-- A byte that is neither a separator nor a quote. -/
def PlainByte (byte : UInt8) : Prop :=
  byte ≠ Csv.quote ∧ byte ∉ [Csv.comma, Csv.cr, Csv.lf]

instance (byte : UInt8) : Decidable (PlainByte byte) :=
  inferInstanceAs (Decidable (_ ∧ _))

/-- Decimal text holds digits only. -/
theorem decimal_mem
    {value : Nat}
    {byte : UInt8}
    (member : byte ∈ decimal value) :
    48 ≤ byte.toNat ∧ byte.toNat ≤ 57 := by
  obtain ⟨character, digit, rfl⟩ := List.mem_map.mp member
  have isDigit : character.isDigit := by
    apply Nat.isDigit_of_mem_toDigits (b := 10) (n := value) (by decide) (by decide)
    simpa [toString, Nat.repr] using digit
  have bounds := Char.isDigit_iff_toNat.mp isDigit
  have low : '0'.toNat = 48 := rfl
  have high : '9'.toNat = 57 := rfl
  rw [UInt8.toNat_ofNat_of_lt' (by show character.toNat < 256; omega)]
  omega

/-- Decimal text is plain. -/
theorem decimal_plain
    {value : Nat}
    {byte : UInt8}
    (member : byte ∈ decimal value) :
    PlainByte byte := by
  have bounds := decimal_mem member
  have differs : ∀ other : UInt8, other.toNat < 48 → byte ≠ other := by
    rintro other small rfl
    omega
  refine ⟨differs Csv.quote (by decide), ?_⟩
  simp only [List.mem_cons, List.not_mem_nil, or_false, not_or]
  exact ⟨differs Csv.comma (by decide), differs Csv.cr (by decide),
    differs Csv.lf (by decide)⟩

/-- Hexadecimal text is plain. -/
theorem toHex_plain
    {bytes : Bytes}
    {byte : UInt8}
    (member : byte ∈ toHex bytes) :
    PlainByte byte ∧ byte ≠ 32 := by
  obtain ⟨source, _, digit⟩ := List.mem_flatMap.mp member
  have digits :
      ∀ value : UInt8, value.toNat < 16 →
        hexDigit value ∈ hexDigits := by
    intro value small
    have inRange : value.toNat < hexDigits.length := by
      exact small
    simp [hexDigit, List.getElem?_eq_getElem inRange]
  have allPlain : ∀ value ∈ hexDigits, PlainByte value ∧ value ≠ 32 := by
    decide +kernel
  simp only [List.mem_cons, List.not_mem_nil, or_false] at digit
  rcases digit with rfl | rfl
  · apply allPlain
    apply digits
    have bound := source.toNat_lt
    simp only [UInt8.toNat_shiftRight]
    have shift : (4 : UInt8).toNat % 8 = 4 := by
      decide
    rw [shift, Nat.shiftRight_eq_div_pow]
    omega
  · apply allPlain
    apply digits
    rw [UInt8.toNat_and]
    exact Nat.lt_of_le_of_lt Nat.and_le_right (by decide)

/-! ## Records read back -/

/-- An escaped field is sealed against commas and line breaks. -/
theorem csvEscape_sealed
    (field : Bytes) :
    Csv.sealedFrom [Csv.comma, Csv.cr] false (csvEscape field) := by
  unfold csvEscape
  dsimp only
  split
  · exact Csv.sealedFrom_quoted (by decide) field
  · next plain =>
      apply Csv.sealedFrom_plain
      intro byte member
      have bytePlain := plain
      simp only [List.any_eq_true, not_exists, not_and] at bytePlain
      have absent := bytePlain byte member
      simp only [Bool.or_eq_true, decide_eq_true_eq, not_or] at absent
      simp [absent]

/-- A plain field is sealed against commas and line breaks. -/
theorem plain_sealed
    {field : Bytes}
    (plain : ∀ byte ∈ field, PlainByte byte) :
    Csv.sealedFrom [Csv.comma, Csv.cr] false field := by
  apply Csv.sealedFrom_plain
  intro byte member
  refine ⟨(plain byte member).1, ?_⟩
  have absent := (plain byte member).2
  simp only [List.mem_cons, List.not_mem_nil, or_false, not_or]
    at absent ⊢
  exact ⟨absent.1, absent.2.1⟩

/-- The raw fields of a row. -/
def rowFields (call : LogCall) : List Bytes :=
  [csvEscape (utcTimestamp call.time), decimal call.pid,
    csvEscape (orDash call.event.actor), csvEscape (orDash call.event.peer),
    csvEscape (auditActionName call.event.action),
    csvEscape call.event.target, csvEscape call.event.result,
    csvEscape call.event.detail]

/-- A row is its raw fields joined by commas. -/
theorem rowText_eq_joinFields
    (call : LogCall) :
    rowText call = Csv.joinFields (rowFields call) := by
  simp [rowText, rowFields, Csv.joinFields, List.intercalate,
    List.intersperse]

/-- Every raw field of a row is sealed. -/
theorem rowFields_sealed
    (call : LogCall) :
    ∀ field ∈ rowFields call,
      Csv.sealedFrom [Csv.comma, Csv.cr] false field := by
  have pidSealed :
      Csv.sealedFrom [Csv.comma, Csv.cr] false (decimal call.pid) :=
    plain_sealed fun byte inside => decimal_plain inside
  simp only [rowFields, List.forall_mem_cons, csvEscape_sealed, pidSealed,
    List.not_mem_nil, false_implies, implies_true, and_self]

/-- The record of a call with its chain field. -/
def recordText (call : LogCall) (chain : Bytes) : Bytes :=
  rowText call ++ [Csv.comma] ++ chain

/-- A link is the hexadecimal text of some hash. -/
def IsLink (chain : Bytes) : Prop :=
  ∃ hash : Hash256, chain = toHex hash.bytes

/-- A record is its nine raw fields joined by commas. -/
theorem recordText_eq_joinFields
    (call : LogCall)
    (chain : Bytes) :
    recordText call chain = Csv.joinFields (rowFields call ++ [chain]) := by
  rw [recordText, rowText_eq_joinFields]
  simp [rowFields, Csv.joinFields, List.intercalate, List.intersperse]

/-- Every raw field of a record is sealed. -/
theorem recordFields_sealed
    (call : LogCall)
    {chain : Bytes}
    (isLink : IsLink chain) :
    ∀ field ∈ rowFields call ++ [chain],
      Csv.sealedFrom [Csv.comma, Csv.cr] false field := by
  intro field member
  rcases List.mem_append.mp member with inRow | isChain
  · exact rowFields_sealed call field inRow
  · obtain ⟨hash, rfl⟩ := isLink
    rw [List.mem_singleton.mp isChain]
    exact plain_sealed fun byte inside => (toHex_plain inside).1

/-- The data records of a file: the text of each row and its chain field. -/
def chainEntries (file : Bytes) : List (Bytes × Bytes) :=
  (Csv.records file).tail.map fun record =>
    (Csv.joinFields (Csv.fields record).dropLast,
      (Csv.fields record).getLastD [])

/-- A file holding the given records below the header. -/
def renderLog (entries : List (LogCall × Bytes)) : Bytes :=
  kHeader ++ Csv.crlf ++
    entries.flatMap fun entry => recordText entry.1 entry.2 ++ Csv.crlf

/-- Appending a record appends its text and a line break. -/
theorem renderLog_snoc
    (entries : List (LogCall × Bytes))
    (call : LogCall)
    (chain : Bytes) :
    renderLog (entries ++ [(call, chain)]) =
      renderLog entries ++ (recordText call chain ++ Csv.crlf) := by
  simp [renderLog]

/-- The header is sealed against line breaks. -/
theorem kHeader_sealed : Csv.sealedFrom [Csv.cr] false kHeader := by
  decide +kernel

/-- A record is sealed against line breaks. -/
theorem recordText_sealed
    (call : LogCall)
    {chain : Bytes}
    (isLink : IsLink chain) :
    Csv.sealedFrom [Csv.cr] false (recordText call chain) := by
  rw [recordText_eq_joinFields]
  apply Csv.sealedFrom_joinFields (by decide)
  intro field member
  exact Csv.sealedFrom_mono (by simp)
    (recordFields_sealed call isLink field member)

/-- The fields of a record. -/
theorem fields_recordText
    (call : LogCall)
    {chain : Bytes}
    (isLink : IsLink chain) :
    Csv.fields (recordText call chain) = rowFields call ++ [chain] := by
  rw [recordText_eq_joinFields]
  apply Csv.fields_joinFields (by simp)
  intro field member
  exact Csv.sealedFrom_mono (by simp)
    (recordFields_sealed call isLink field member)

/-- The records of a rendered log are the header and the rendered rows. -/
theorem records_renderLog
    {entries : List (LogCall × Bytes)}
    (links : ∀ entry ∈ entries, IsLink entry.2) :
    Csv.records (renderLog entries) =
      kHeader :: entries.map fun entry => recordText entry.1 entry.2 := by
  rw [renderLog, Csv.records_sealed _ kHeader_sealed]
  apply congrArg
  induction entries with
  | nil =>
      rfl
  | cons entry rest inductionHypothesis =>
      have restRead :=
        inductionHypothesis fun later member => links later (by simp [member])
      rw [List.flatMap_cons,
        Csv.records_sealed _ (recordText_sealed entry.1 (links entry (by simp))),
        restRead]
      rfl

/-- An RFC 4180 reader finds exactly the rendered rows and links. -/
theorem chainEntries_renderLog
    {entries : List (LogCall × Bytes)}
    (links : ∀ entry ∈ entries, IsLink entry.2) :
    chainEntries (renderLog entries) =
      entries.map fun entry => (rowText entry.1, entry.2) := by
  rw [chainEntries, records_renderLog links, List.tail_cons, List.map_map]
  apply List.map_congr_left
  intro entry member
  simp [fields_recordText entry.1 (links entry member), rowText_eq_joinFields]

/-! ## Physical lines -/

/-- The lines up to a line feed do not depend on what follows it. -/
theorem getlinesFrom_append_lf
    (front current : Bytes) :
    ∃ lines, ∀ rest,
      getlinesFrom current (front ++ Csv.lf :: rest) =
        lines ++ getlinesFrom [] rest := by
  induction front generalizing current with
  | nil =>
      exact ⟨[current], fun rest => by simp [getlinesFrom]⟩
  | cons byte tail inductionHypothesis =>
      by_cases isLf : byte = Csv.lf
      · obtain ⟨lines, shape⟩ := inductionHypothesis []
        exact ⟨current :: lines, fun rest => by
          simp [getlinesFrom, isLf, shape rest]⟩
      · obtain ⟨lines, shape⟩ := inductionHypothesis (current ++ [byte])
        exact ⟨lines, fun rest => by
          simp [getlinesFrom, isLf, shape rest]⟩

/-- A text without line feeds is one line. -/
theorem getlinesFrom_line
    {line : Bytes}
    (oneLine : Csv.lf ∉ line)
    (current : Bytes) :
    getlinesFrom current (line ++ [Csv.lf]) = [current ++ line] := by
  induction line generalizing current with
  | nil =>
      simp [getlinesFrom]
  | cons byte tail inductionHypothesis =>
      simp only [List.mem_cons, not_or] at oneLine
      simp [getlinesFrom, Ne.symm oneLine.1, inductionHypothesis oneLine.2]

/-- The last line is the text behind the last but one line feed. -/
theorem lastLine_eq
    {line : Bytes}
    (front : Bytes)
    (oneLine : Csv.lf ∉ line)
    (notBlank : 2 ≤ line.length) :
    lastLine (front ++ Csv.lf :: (line ++ [Csv.lf])) = line := by
  obtain ⟨lines, shape⟩ := getlinesFrom_append_lf front []
  have counted : line ≠ [] ∧ line ≠ [Csv.cr] := by
    constructor <;> rintro rfl <;> simp at notBlank
  rw [lastLine, shape, getlinesFrom_line oneLine, List.foldl_append]
  simp [counted]

/-- A tail of matching bytes is taken whole. -/
theorem rtakeWhile_append_of_pos
    {matching : UInt8 → Bool}
    (front : Bytes)
    {back : Bytes}
    (allMatch : ∀ byte ∈ back, matching byte) :
    (front ++ back).rtakeWhile matching =
      front.rtakeWhile matching ++ back := by
  have reversed : ∀ byte ∈ back.reverse, matching byte := by
    simpa using allMatch
  simp [List.rtakeWhile, List.takeWhile_append_of_pos reversed]

/-! ## Resuming -/

/-- The last physical line of a row, with the comma before its chain field. -/
def lastRowLine (call : LogCall) : Bytes :=
  (rowText call ++ [Csv.comma]).rtakeWhile fun byte => byte != Csv.lf

/-- The last physical line of the row starts like the header. -/
def HeaderLike (call : LogCall) : Prop :=
  ascii "timestamp_utc," <+: lastRowLine call

instance (call : LogCall) : Decidable (HeaderLike call) :=
  inferInstanceAs (Decidable (_ <+: _))

/-- The last line of a row ends with the comma before the chain field. -/
theorem lastRowLine_shape
    (call : LogCall) :
    ∃ front, lastRowLine call = front ++ [Csv.comma] := by
  refine ⟨(rowText call).rtakeWhile fun byte => byte != Csv.lf, ?_⟩
  exact rtakeWhile_append_of_pos _ (by simp [Csv.comma, Csv.lf])

/-- A rendered log ends with a line feed. -/
theorem renderLog_ends_with_lf
    (entries : List (LogCall × Bytes)) :
    ∃ front, renderLog entries = front ++ [Csv.lf] := by
  cases entries using List.reverseRecOn with
  | nil =>
      exact ⟨kHeader ++ [Csv.cr], by simp [renderLog, Csv.crlf]⟩
  | append_singleton earlier entry =>
      exact ⟨renderLog earlier ++ recordText entry.1 entry.2 ++ [Csv.cr], by
        simp [renderLog_snoc earlier entry.1 entry.2, Csv.crlf]⟩

/-- A log always has its header. -/
theorem renderLog_ne_nil
    (entries : List (LogCall × Bytes)) :
    renderLog entries ≠ [] := by
  obtain ⟨front, shape⟩ := renderLog_ends_with_lf entries
  simp [shape]

/-- The last physical line of a log belongs to its last record. -/
theorem renderLog_last_line
    (entries : List (LogCall × Bytes))
    (call : LogCall)
    (chain : Bytes) :
    ∃ front,
      renderLog (entries ++ [(call, chain)]) =
        front ++ Csv.lf ::
          ((lastRowLine call ++ chain ++ [Csv.cr]) ++ [Csv.lf]) := by
  obtain ⟨before, endsBefore⟩ := renderLog_ends_with_lf entries
  have split :
      ((rowText call ++ [Csv.comma]).rdropWhile fun byte => byte != Csv.lf) ++
          lastRowLine call =
        rowText call ++ [Csv.comma] :=
    List.rdropWhile_append_rtakeWhile
  have whole :
      renderLog (entries ++ [(call, chain)]) =
        before ++ Csv.lf ::
          (((rowText call ++ [Csv.comma]).rdropWhile fun byte =>
              byte != Csv.lf) ++
            (lastRowLine call ++ chain ++ [Csv.cr]) ++ [Csv.lf]) := by
    calc
      renderLog (entries ++ [(call, chain)]) =
          before ++ Csv.lf ::
            ((rowText call ++ [Csv.comma]) ++
              (chain ++ [Csv.cr, Csv.lf])) := by
        simp [renderLog_snoc, endsBefore, recordText, Csv.crlf]
      _ = before ++ Csv.lf ::
            ((((rowText call ++ [Csv.comma]).rdropWhile fun byte =>
                byte != Csv.lf) ++ lastRowLine call) ++
              (chain ++ [Csv.cr, Csv.lf])) := by
        rw [split]
      _ = _ := by
        simp only [List.append_assoc, List.cons_append, List.nil_append]
  rw [whole]
  cases dropped :
      (rowText call ++ [Csv.comma]).rdropWhile fun byte => byte != Csv.lf
      using List.reverseRecOn with
  | nil =>
      exact ⟨before, by simp⟩
  | append_singleton earlier last =>
      have nonempty :
          ((rowText call ++ [Csv.comma]).rdropWhile fun byte =>
            byte != Csv.lf) ≠ [] := by
        simp [dropped]
      have stopped := List.rdropWhile_last_not _ _ nonempty
      simp only [dropped, List.getLast_append_singleton, bne_iff_ne, ne_eq,
        not_not] at stopped
      exact ⟨before ++ Csv.lf :: earlier, by simp [stopped]⟩

/-- A log without records resumes at the genesis link. -/
theorem resumeChain_header :
    resumeChain (renderLog []) = genesisChainHex := by
  decide +kernel

section LastRecord

variable
  {entries : List (LogCall × Bytes)}
  {call : LogCall}
  {chain : Bytes}
  (isLink : IsLink chain)

include isLink

/-- The last line that `resumeChain` sees. -/
theorem lastLine_renderLog :
    lastLine (renderLog (entries ++ [(call, chain)])) =
      lastRowLine call ++ chain ++ [Csv.cr] := by
  obtain ⟨front, shape⟩ := renderLog_last_line entries call chain
  obtain ⟨hash, rfl⟩ := isLink
  rw [shape]
  apply lastLine_eq
  · simp only [List.mem_append, List.mem_singleton, not_or]
    refine ⟨⟨?_, ?_⟩, by decide⟩
    · intro member
      have taken := List.mem_rtakeWhile_imp member
      simp at taken
    · intro member
      have plain := (toHex_plain member).1.2
      simp at plain
  · simp [hash.size]

/-- Looking like the header is decided before the chain field. -/
theorem headerLike_iff_prefix :
    ascii "timestamp_utc," <+: lastRowLine call ++ chain ++ [Csv.cr] ↔
      HeaderLike call := by
  obtain ⟨hash, rfl⟩ := isLink
  rw [HeaderLike, List.append_assoc]
  constructor
  · intro prefixed
    by_cases short :
        (ascii "timestamp_utc,").length ≤ (lastRowLine call).length
    · exact List.prefix_of_prefix_length_le prefixed
        (List.prefix_append _ _) short
    · obtain ⟨beyond, shape⟩ :=
        List.prefix_of_prefix_length_le (List.prefix_append _ _) prefixed
          (Nat.le_of_not_le short)
      have beyondNonempty : beyond ≠ [] := by
        rintro rfl
        rw [List.append_nil] at shape
        exact short (by rw [shape])
      have endsWithComma : beyond.getLast? = some Csv.comma := by
        have headerEnd :
            (ascii "timestamp_utc,").getLast? = some Csv.comma := by
          decide
        rw [← shape, List.getLast?_append] at headerEnd
        rw [List.getLast?_eq_getLast_of_ne_nil beyondNonempty] at headerEnd ⊢
        simpa using headerEnd
      have commaInside : Csv.comma ∈ toHex hash.bytes ++ [Csv.cr] := by
        rw [← shape, List.prefix_append_right_inj] at prefixed
        exact prefixed.subset (List.mem_of_getLast? endsWithComma)
      rcases List.mem_append.mp commaInside with inChain | isCr
      · exact ((toHex_plain inChain).1.2 (by simp)).elim
      · simp [Csv.comma, Csv.cr] at isCr
  · intro headerLike
    exact headerLike.trans (List.prefix_append _ _)

/-- The chain field of the last record is its last CSV field. -/
theorem lastCsvField_lastLine :
    lastCsvField (lastRowLine call ++ chain ++ [Csv.cr]) = chain := by
  obtain ⟨hash, rfl⟩ := isLink
  obtain ⟨front, shape⟩ := lastRowLine_shape call
  have noComma :
      ∀ byte ∈ toHex hash.bytes ++ [Csv.cr], (byte != Csv.comma) = true := by
    intro byte member
    rcases List.mem_append.mp member with inChain | isCr
    · have plain := (toHex_plain inChain).1.2
      simp only [List.mem_cons, not_or] at plain
      simpa using plain.1
    · rw [List.mem_singleton.mp isCr]
      decide
  rw [lastCsvField, shape, List.append_assoc,
    rtakeWhile_append_of_pos _ noComma,
    List.rtakeWhile_concat_neg _ _ _ (by simp), List.nil_append,
    List.rdropWhile_concat_pos _ _ _ (by simp), List.rdropWhile_eq_self_iff]
  intro nonempty
  have lastPlain := toHex_plain (List.getLast_mem nonempty)
  have absent := lastPlain.1.2
  simp only [List.mem_cons, List.not_mem_nil, or_false, not_or] at absent
  simp [absent, lastPlain.2]

/-- A log resumes at its last link unless its last line looks like the header. -/
theorem resumeChain_renderLog :
    resumeChain (renderLog (entries ++ [(call, chain)])) =
      if HeaderLike call then genesisChainHex else chain := by
  have notEmpty : lastRowLine call ++ chain ++ [Csv.cr] ≠ [] := by
    simp
  have width : chain.length = 64 := by
    obtain ⟨hash, rfl⟩ := isLink
    rw [toHex_length, hash.size]
  simp only [resumeChain, lastLine_renderLog isLink, notEmpty, false_or,
    headerLike_iff_prefix isLink, lastCsvField_lastLine isLink, width,
    ite_true]

end LastRecord

end RadminPro
