import RadminPro.ByteCodec

namespace RadminPro.Csv

/-!
# RFC 4180 records and fields

A reader of comma-separated text with quoted fields: records end at a line
break outside quotes, fields at a comma outside quotes, and a doubled quote
inside quotes stays inside.  A text is *sealed* against a set of separators
when a reader that starts outside quotes ends outside quotes without meeting
one of them there; sealed texts are read back whole.
-/

/-- The field separator. -/
def comma : UInt8 := 44

/-- The quote character. -/
def quote : UInt8 := 34

/-- The first byte of a line break. -/
def cr : UInt8 := 13

/-- The second byte of a line break. -/
def lf : UInt8 := 10

/-- The line break that ends a record. -/
def crlf : Bytes := [cr, lf]

/-- Crossing a quote toggles being inside quotes. -/
def toggle (quoted : Bool) (byte : UInt8) : Bool :=
  if byte = quote then !quoted else quoted

/-- Read on to the end outside quotes without a separator outside quotes. -/
def sealedFrom (separators : List UInt8) : Bool → Bytes → Bool
  | quoted, [] => !quoted
  | quoted, byte :: rest =>
      (quoted || !separators.contains byte) &&
        sealedFrom separators (toggle quoted byte) rest

/-- The records of a text, read after `current` of the first one. -/
def recordsFrom : Bool → Bytes → Bytes → List Bytes
  | _, current, [] => if current = [] then [] else [current]
  | false, current, 13 :: 10 :: rest => current :: recordsFrom false [] rest
  | quoted, current, byte :: rest =>
      recordsFrom (toggle quoted byte) (current ++ [byte]) rest

/-- The records of a text. -/
def records (text : Bytes) : List Bytes :=
  recordsFrom false [] text

/-- The raw fields of a record, read after `current` of the first one. -/
def fieldsFrom : Bool → Bytes → Bytes → List Bytes
  | _, current, [] => [current]
  | quoted, current, byte :: rest =>
      if quoted = false ∧ byte = comma then
        current :: fieldsFrom false [] rest
      else
        fieldsFrom (toggle quoted byte) (current ++ [byte]) rest

/-- The raw fields of a record. -/
def fields (record : Bytes) : List Bytes :=
  fieldsFrom false [] record

/-- Fields joined by commas. -/
def joinFields (raw : List Bytes) : Bytes :=
  List.intercalate [comma] raw

/-- The bytes that a field may hold only inside quotes. -/
def special (byte : UInt8) : Bool :=
  byte = comma || byte = quote || byte = cr || byte = lf

/-- The content of a quoted field, read behind its opening quote. -/
def unquote : Bytes → Option Bytes
  | [] => none
  | [byte] => if byte = quote then some [] else none
  | byte :: next :: rest =>
      if byte = quote then
        if next = quote then (unquote rest).map (quote :: ·) else none
      else
        (unquote (next :: rest)).map (byte :: ·)

/-- What a raw field says, if it is a well-formed field. -/
def value (raw : Bytes) : Option Bytes :=
  match raw with
  | [] => some []
  | byte :: rest =>
      if byte = quote then
        unquote rest
      else if (byte :: rest).any special then
        none
      else
        some (byte :: rest)

/-- The values of all fields of all records, if every field is well formed. -/
def read (text : Bytes) : Option (List (List Bytes)) :=
  (records text).mapM fun record => (fields record).mapM value

/-- Whether a reader at the end of a text is inside quotes, and what it has of the last record. -/
def pendingFrom : Bool → Bytes → Bytes → Bool × Bytes
  | quoted, current, [] => (quoted, current)
  | false, _, 13 :: 10 :: rest => pendingFrom false [] rest
  | quoted, current, byte :: rest =>
      pendingFrom (toggle quoted byte) (current ++ [byte]) rest

/-- A reader of the text stands at the start of a record. -/
def AtStart (text : Bytes) : Prop :=
  pendingFrom false [] text = (false, [])

/-- Behind `front`, the text goes on with a record that stands by itself. -/
structure IsRecordAt (front record text : Bytes) : Prop where
  starts : AtStart front
  isSealed : sealedFrom [cr] false record
  written : front ++ record ++ crlf <+: text

/-! ## Reading sealed texts -/

/-- A record sealed against line breaks is read up to its line break. -/
theorem recordsFrom_sealed
    {text : Bytes}
    (quoted : Bool)
    (current rest : Bytes)
    (isSealed : sealedFrom [cr] quoted text) :
    recordsFrom quoted current (text ++ crlf ++ rest) =
      (current ++ text) :: recordsFrom false [] rest := by
  induction text generalizing quoted current with
  | nil =>
      have outside : quoted = false := by
        simpa [sealedFrom] using isSealed
      subst outside
      simp [crlf, cr, lf, recordsFrom]
  | cons byte tail inductionHypothesis =>
      simp only [sealedFrom, Bool.and_eq_true] at isSealed
      have step :
          recordsFrom quoted current ((byte :: tail) ++ crlf ++ rest) =
            recordsFrom (toggle quoted byte) (current ++ [byte])
              (tail ++ crlf ++ rest) := by
        rw [List.cons_append, List.cons_append, recordsFrom]
        rintro later outside rfl shape
        simp [outside, cr] at isSealed
      rw [step, inductionHypothesis _ _ isSealed.2]
      simp

/-- A record sealed against line breaks is the first record of the text. -/
theorem records_sealed
    {text : Bytes}
    (rest : Bytes)
    (isSealed : sealedFrom [cr] false text) :
    records (text ++ crlf ++ rest) = text :: records rest := by
  rw [records, recordsFrom_sealed false [] rest isSealed]
  rfl

/-- A field sealed against commas is read up to its comma. -/
theorem fieldsFrom_sealed_comma
    {text : Bytes}
    (quoted : Bool)
    (current rest : Bytes)
    (isSealed : sealedFrom [comma] quoted text) :
    fieldsFrom quoted current (text ++ comma :: rest) =
      (current ++ text) :: fieldsFrom false [] rest := by
  induction text generalizing quoted current with
  | nil =>
      have outside : quoted = false := by
        simpa [sealedFrom] using isSealed
      subst outside
      simp [fieldsFrom]
  | cons byte tail inductionHypothesis =>
      simp only [sealedFrom, Bool.and_eq_true] at isSealed
      have inField : ¬(quoted = false ∧ byte = comma) := by
        rintro ⟨rfl, rfl⟩
        simp at isSealed
      rw [List.cons_append, fieldsFrom, if_neg inField,
        inductionHypothesis _ _ isSealed.2]
      simp

/-- A field sealed against commas is the last one when nothing follows. -/
theorem fieldsFrom_sealed_end
    {text : Bytes}
    (quoted : Bool)
    (current : Bytes)
    (isSealed : sealedFrom [comma] quoted text) :
    fieldsFrom quoted current text = [current ++ text] := by
  induction text generalizing quoted current with
  | nil =>
      simp [fieldsFrom]
  | cons byte tail inductionHypothesis =>
      simp only [sealedFrom, Bool.and_eq_true] at isSealed
      have inField : ¬(quoted = false ∧ byte = comma) := by
        rintro ⟨rfl, rfl⟩
        simp at isSealed
      rw [fieldsFrom, if_neg inField, inductionHypothesis _ _ isSealed.2]
      simp

/-- Joined sealed fields are read back one by one. -/
theorem fields_joinFields
    {raw : List Bytes}
    (nonempty : raw ≠ [])
    (allSealed : ∀ field ∈ raw, sealedFrom [comma] false field) :
    fields (joinFields raw) = raw := by
  induction raw with
  | nil =>
      exact (nonempty rfl).elim
  | cons first rest inductionHypothesis =>
      have firstSealed := allSealed first (by simp)
      cases rest with
      | nil =>
          simpa [joinFields, fields] using
            fieldsFrom_sealed_end false [] firstSealed
      | cons second later =>
          have restRead :=
            inductionHypothesis (by simp) fun field member =>
              allSealed field (by simp [member])
          have joined :
              joinFields (first :: second :: later) =
                first ++ comma :: joinFields (second :: later) := by
            simp [joinFields, List.intercalate, List.intersperse]
          rw [joined, fields, fieldsFrom_sealed_comma false [] _ firstSealed]
          exact congrArg _ restRead

/-! ## Building sealed texts -/

/-- Fewer separators are easier to seal against. -/
theorem sealedFrom_mono
    {fewer more : List UInt8}
    (subset : ∀ byte ∈ fewer, byte ∈ more)
    {quoted : Bool}
    {text : Bytes}
    (isSealed : sealedFrom more quoted text) :
    sealedFrom fewer quoted text := by
  induction text generalizing quoted with
  | nil =>
      simpa [sealedFrom] using isSealed
  | cons byte tail inductionHypothesis =>
      simp only [sealedFrom, Bool.and_eq_true, Bool.or_eq_true,
        Bool.not_eq_true', List.contains_eq_mem, decide_eq_false_iff_not]
        at isSealed ⊢
      exact ⟨isSealed.1.imp_right fun absent member =>
        absent (subset byte member), inductionHypothesis isSealed.2⟩

/-- Sealed texts concatenate. -/
theorem sealedFrom_append
    {separators : List UInt8}
    {quoted : Bool}
    {first second : Bytes}
    (firstSealed : sealedFrom separators quoted first)
    (secondSealed : sealedFrom separators false second) :
    sealedFrom separators quoted (first ++ second) := by
  induction first generalizing quoted with
  | nil =>
      have outside : quoted = false := by
        simpa [sealedFrom] using firstSealed
      simpa [outside] using secondSealed
  | cons byte tail inductionHypothesis =>
      simp only [List.cons_append, sealedFrom, Bool.and_eq_true]
        at firstSealed ⊢
      exact ⟨firstSealed.1, inductionHypothesis firstSealed.2⟩

/-- A text without quotes or separators is sealed. -/
theorem sealedFrom_plain
    {separators : List UInt8}
    {text : Bytes}
    (plain : ∀ byte ∈ text, byte ≠ quote ∧ byte ∉ separators) :
    sealedFrom separators false text := by
  induction text with
  | nil =>
      rfl
  | cons byte tail inductionHypothesis =>
      have bytePlain := plain byte (by simp)
      have tailSealed :=
        inductionHypothesis fun later member => plain later (by simp [member])
      simp [sealedFrom, toggle, bytePlain.1, bytePlain.2, tailSealed]

/-- A quoted text with its quotes doubled is sealed against anything. -/
theorem sealedFrom_quoted
    {separators : List UInt8}
    (free : quote ∉ separators)
    (text : Bytes) :
    sealedFrom separators false
      (quote ::
        (text.flatMap (fun byte =>
          if byte = quote then [quote, quote] else [byte]) ++ [quote])) := by
  have inside :
      sealedFrom separators true
        (text.flatMap (fun byte =>
          if byte = quote then [quote, quote] else [byte]) ++ [quote]) := by
    induction text with
    | nil =>
        simp [sealedFrom, toggle]
    | cons byte tail inductionHypothesis =>
        by_cases isQuote : byte = quote
        · simpa [isQuote, sealedFrom, toggle, free] using inductionHypothesis
        · simpa [isQuote, sealedFrom, toggle] using inductionHypothesis
  simp [sealedFrom, toggle, free, inside]

/-- Joined sealed fields are sealed against what the fields are sealed against. -/
theorem sealedFrom_joinFields
    {separators : List UInt8}
    (free : comma ∉ separators)
    {raw : List Bytes}
    (allSealed : ∀ field ∈ raw, sealedFrom separators false field) :
    sealedFrom separators false (joinFields raw) := by
  have commaSealed : sealedFrom separators false [comma] := by
    have notQuote : comma ≠ quote := by
      decide
    simp [sealedFrom, toggle, free, notQuote]
  induction raw with
  | nil =>
      rfl
  | cons first rest inductionHypothesis =>
      have firstSealed := allSealed first (by simp)
      cases rest with
      | nil =>
          simpa [joinFields] using firstSealed
      | cons second later =>
          have restSealed :=
            inductionHypothesis fun field member =>
              allSealed field (by simp [member])
          have joined :
              joinFields (first :: second :: later) =
                first ++ ([comma] ++ joinFields (second :: later)) := by
            simp [joinFields, List.intercalate, List.intersperse]
          rw [joined]
          exact sealedFrom_append firstSealed
            (sealedFrom_append commaSealed restSealed)

/-! ## Values of fields -/

/-- Doubled quotes are halved again. -/
theorem unquote_doubled
    (text : Bytes) :
    unquote
        (text.flatMap (fun byte =>
          if byte = quote then [quote, quote] else [byte]) ++ [quote]) =
      some text := by
  induction text with
  | nil =>
      simp [unquote]
  | cons byte tail inductionHypothesis =>
      by_cases isQuote : byte = quote
      · simp [isQuote, unquote, inductionHypothesis]
      · obtain ⟨next, rest, shape⟩ :
            ∃ next rest,
              tail.flatMap (fun byte =>
                if byte = quote then [quote, quote] else [byte]) ++ [quote] =
                  next :: rest :=
          List.exists_cons_of_ne_nil (by simp)
        simp only [List.flatMap_cons, isQuote, ↓reduceIte, List.cons_append,
          List.nil_append]
        rw [shape] at inductionHypothesis ⊢
        simp [unquote, isQuote, inductionHypothesis]

/-- A field of other bytes than separators and quotes says itself. -/
theorem value_plain
    {raw : Bytes}
    (plain : raw.any special = false) :
    value raw = some raw := by
  cases raw with
  | nil =>
      rfl
  | cons byte rest =>
      have notQuote : byte ≠ quote := by
        rintro rfl
        simp [special] at plain
      simp [value, notQuote, plain]

/-- A quoted field says what its quotes enclose. -/
theorem value_quoted
    (text : Bytes) :
    value
        (quote ::
          (text.flatMap (fun byte =>
            if byte = quote then [quote, quote] else [byte]) ++ [quote])) =
      some text := by
  simp [value, unquote_doubled]

/-! ## Where records start -/

/-- A text that ends a record leaves the reading of the next one alone. -/
theorem recordsFrom_append
    {front : Bytes}
    {quoted : Bool}
    {current : Bytes}
    (ends : pendingFrom quoted current front = (false, []))
    (rest : Bytes) :
    recordsFrom quoted current (front ++ rest) =
      recordsFrom quoted current front ++ records rest := by
  fun_induction pendingFrom quoted current front with
  | case1 quoted current =>
      obtain ⟨rfl, rfl⟩ := Prod.mk.inj ends
      simp [recordsFrom, records]
  | case2 current front inductionHypothesis =>
      simp [recordsFrom, inductionHypothesis ends]
  | case3 quoted current byte front noBreak inductionHypothesis =>
      have step :
          ∀ later,
            recordsFrom quoted current (byte :: front ++ later) =
              recordsFrom (toggle quoted byte) (current ++ [byte])
                (front ++ later) := by
        intro later
        rw [List.cons_append, recordsFrom]
        rintro tail rfl rfl broken
        cases front with
        | nil =>
            simp [pendingFrom] at ends
        | cons next front =>
            obtain ⟨rfl, -⟩ := List.cons.inj broken
            exact noBreak front rfl rfl rfl
      rw [step rest, inductionHypothesis ends]
      simpa using congrArg (· ++ records rest) (step []).symm

/-- At the start of a record nothing of the text before matters. -/
theorem pendingFrom_append
    {front : Bytes}
    {quoted : Bool}
    {current : Bytes}
    (ends : pendingFrom quoted current front = (false, []))
    (rest : Bytes) :
    pendingFrom quoted current (front ++ rest) = pendingFrom false [] rest := by
  fun_induction pendingFrom quoted current front with
  | case1 quoted current =>
      obtain ⟨rfl, rfl⟩ := Prod.mk.inj ends
      rfl
  | case2 current front inductionHypothesis =>
      simp [pendingFrom, inductionHypothesis ends]
  | case3 quoted current byte front noBreak inductionHypothesis =>
      rw [← inductionHypothesis ends, List.cons_append, pendingFrom]
      rintro tail rfl rfl broken
      cases front with
      | nil =>
          simp [pendingFrom] at ends
      | cons next front =>
          obtain ⟨rfl, -⟩ := List.cons.inj broken
          exact noBreak front rfl rfl rfl

/-- A byte that cannot begin a line break is added to the record. -/
theorem pendingFrom_cons
    {quoted : Bool}
    {byte : UInt8}
    (inside : quoted = true ∨ byte ≠ cr)
    (current rest : Bytes) :
    pendingFrom quoted current (byte :: rest) =
      pendingFrom (toggle quoted byte) (current ++ [byte]) rest := by
  rw [pendingFrom]
  rintro tail rfl rfl broken
  simp [cr] at inside

/-- A byte of a text sealed against line breaks cannot begin one. -/
theorem inside_of_sealedFrom
    {quoted : Bool}
    {byte : UInt8}
    {tail : Bytes}
    (isSealed : sealedFrom [cr] quoted (byte :: tail)) :
    quoted = true ∨ byte ≠ cr := by
  simp only [sealedFrom, Bool.and_eq_true, Bool.or_eq_true] at isSealed
  exact isSealed.1.imp_right (by simp)

/-- A sealed record with its line break leads to the start of the next one. -/
theorem pendingFrom_sealed
    {text : Bytes}
    (quoted : Bool)
    (current : Bytes)
    (isSealed : sealedFrom [cr] quoted text) :
    pendingFrom quoted current (text ++ crlf) = (false, []) := by
  induction text generalizing quoted current with
  | nil =>
      have outside : quoted = false := by
        simpa [sealedFrom] using isSealed
      subst outside
      rfl
  | cons byte tail inductionHypothesis =>
      rw [List.cons_append, pendingFrom_cons (inside_of_sealedFrom isSealed)]
      simp only [sealedFrom, Bool.and_eq_true] at isSealed
      exact inductionHypothesis _ _ isSealed.2

/-- A first part of a sealed record with its line break leaves something pending. -/
theorem pendingFrom_cut
    {text kept lost : Bytes}
    {quoted : Bool}
    {current : Bytes}
    (isSealed : sealedFrom [cr] quoted text)
    (split : text ++ crlf = kept ++ lost)
    (someLost : lost ≠ [])
    (someKept : current ++ kept ≠ []) :
    (pendingFrom quoted current kept).2 ≠ [] := by
  induction text generalizing quoted current kept with
  | nil =>
      have outside : quoted = false := by
        simpa [sealedFrom] using isSealed
      subst outside
      rcases kept with _ | ⟨first, _ | ⟨second, rest⟩⟩
      · simpa [pendingFrom] using someKept
      · simp [pendingFrom]
      · simp [crlf] at split
        exact absurd split.2.2.2 someLost
  | cons byte tail inductionHypothesis =>
      cases kept with
      | nil =>
          simpa [pendingFrom] using someKept
      | cons first kept =>
          obtain ⟨rfl, rest⟩ := List.cons.inj split
          rw [pendingFrom_cons (inside_of_sealedFrom isSealed)]
          simp only [sealedFrom, Bool.and_eq_true] at isSealed
          exact inductionHypothesis isSealed.2 rest (by simp)

/-- A record that stands by itself is read as one record, between the others. -/
theorem IsRecordAt.read
    {front record text : Bytes}
    (isRecord : IsRecordAt front record text) :
    ∃ rest,
      text = front ++ record ++ crlf ++ rest ∧
        records text = records front ++ record :: records rest := by
  obtain ⟨rest, rfl⟩ := isRecord.written
  refine ⟨rest, rfl, ?_⟩
  have behind :
      records (front ++ (record ++ crlf ++ rest)) =
        records front ++ records (record ++ crlf ++ rest) :=
    recordsFrom_append isRecord.starts _
  rw [records_sealed rest isRecord.isSealed] at behind
  simpa using behind

end RadminPro.Csv
