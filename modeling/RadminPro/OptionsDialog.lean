import RadminPro.AllowList
import RadminPro.ConfigRoundTrip
import RadminPro.StepRefinement

namespace RadminPro

open ByteCodec ConfigText TokenList

/-!
# The options dialog

The page for the filter takes the list of the configuration apart, lets the
administrator add and remove entries, and puts them together again with `OK`.
It does not split at the same characters as the server does; what matters is that
the server admits the peers of the entries that are shown, and no others.
-/

/-! ## The entries of the filter -/

/-- The characters at which the page takes a list apart. -/
def endsEntry (c : UInt8) : Bool :=
  c == 44 || c == 32 || c == 9 || c == 10 || c == 13

/-- The blanks at the ends of an entry. -/
def isEntryBlank (c : UInt8) : Bool :=
  c == 32 || c == 9

/-- A list while it is taken apart. -/
structure EntryScan where
  items : List Bytes := []
  cur : Bytes := []

/-- Put the entry that is complete into the list box. -/
def EntryScan.flush (shown : Bytes → Bytes) (scan : EntryScan) : EntryScan :=
  let cur := (scan.cur.rdropWhile isEntryBlank).dropWhile isEntryBlank
  if cur.isEmpty then
    { items := scan.items }
  else
    { items := scan.items ++ [shown cur] }

/-- One more character of the list. -/
def EntryScan.feed (shown : Bytes → Bytes) (scan : EntryScan) (c : UInt8) :
    EntryScan :=
  if endsEntry c then
    scan.flush shown
  else
    { scan with cur := scan.cur ++ [c] }

/-- The entries that the page shows at first. -/
def entriesOf (shown : Bytes → Bytes) (allowSubnets : Bytes) : List Bytes :=
  ((allowSubnets.foldl (EntryScan.feed shown) {}).flush shown).items

/-- The entries, put together with commas. -/
def joinEntries (entries : List Bytes) : Bytes :=
  entries.foldl
    (fun acc w => (if acc.isEmpty then acc else acc ++ ascii ",") ++ w) []

/-- An entry that is complete has no blanks, so none are taken off. -/
theorem EntryScan.flush_clean
    (shown : Bytes → Bytes)
    {scan : EntryScan}
    (clean : ∀ c ∈ scan.cur, endsEntry c = false) :
    (scan.flush shown).items =
        scan.items ++ (tokens endsEntry scan.cur).map shown ∧
      (scan.flush shown).cur = [] := by
  have solid : ∀ c ∈ scan.cur, isEntryBlank c = false := by
    intro c member
    have notEnd := clean c member
    simp only [endsEntry, Bool.or_eq_false_iff] at notEnd
    simp [isEntryBlank, notEnd]
  have rightKept : scan.cur.rdropWhile isEntryBlank = scan.cur := by
    rw [List.rdropWhile_eq_self_iff]
    intro nonempty isBlank
    rw [solid _ (List.getLast_mem nonempty)] at isBlank
    cases isBlank
  have leftKept : scan.cur.dropWhile isEntryBlank = scan.cur := by
    rw [List.dropWhile_eq_self_iff]
    intro nonempty isBlank
    rw [solid _ (List.getElem_mem nonempty)] at isBlank
    cases isBlank
  unfold EntryScan.flush
  rw [rightKept, leftKept, tokens_of_clean clean]
  cases scan.cur with
  | nil => simp
  | cons head tail => simp

/-- The page shows the stretches between the characters that end an entry. -/
theorem entriesOf_eq
    (shown : Bytes → Bytes)
    (allowSubnets : Bytes) :
    entriesOf shown allowSubnets =
      (tokens endsEntry allowSubnets).map shown := by
  have scanned :
      ∀ (rest : Bytes) (scan : EntryScan),
        (∀ c ∈ scan.cur, endsEntry c = false) →
        ((rest.foldl (EntryScan.feed shown) scan).flush shown).items =
          scan.items ++ (tokens endsEntry (scan.cur ++ rest)).map shown := by
    intro rest
    induction rest with
    | nil =>
        intro scan clean
        rw [List.foldl_nil, List.append_nil]
        exact (EntryScan.flush_clean shown clean).1
    | cons c rest inductionHypothesis =>
        intro scan clean
        rw [List.foldl_cons]
        cases ends : endsEntry c with
        | true =>
            obtain ⟨items, noCur⟩ := EntryScan.flush_clean shown clean
            rw [EntryScan.feed, if_pos ends,
              inductionHypothesis _ (by simp [noCur]), noCur, items,
              tokens_append_separator scan.cur rest ends, List.map_append,
              List.nil_append, List.append_assoc]
        | false =>
            have stillClean :
                ∀ other ∈ scan.cur ++ [c], endsEntry other = false := by
              intro other member
              cases List.mem_append.mp member with
              | inl earlier => exact clean other earlier
              | inr last => rwa [List.mem_singleton.mp last]
            have extended :=
              inductionHypothesis { scan with cur := scan.cur ++ [c] } stillClean
            simpa [EntryScan.feed, ends] using extended
  simpa [entriesOf] using scanned allowSubnets {} (by simp)

/-- What the list box shows unchanged is what stands in the list. -/
theorem entriesOf_legible
    {shown : Bytes → Bytes}
    {allowSubnets : Bytes}
    (legible : ∀ token ∈ tokens endsEntry allowSubnets, shown token = token) :
    entriesOf shown allowSubnets = tokens endsEntry allowSubnets := by
  rw [entriesOf_eq, List.map_congr_left legible, List.map_id']

/-- The server reads the entries that are put together one by one. -/
theorem tokens_joinEntries (entries : List Bytes) :
    tokens SubnetFilter.isSeparator (joinEntries entries) =
      entries.flatMap (tokens SubnetFilter.isSeparator) := by
  have comma : SubnetFilter.isSeparator 44 = true := by
    decide
  induction entries using List.reverseRecOn with
  | nil =>
      rfl
  | append_singleton entries last inductionHypothesis =>
      have joined :
          joinEntries (entries ++ [last]) =
            (if (joinEntries entries).isEmpty then
              joinEntries entries
            else
              joinEntries entries ++ ascii ",") ++ last := by
        rw [joinEntries, List.foldl_concat]
        rfl
      rw [joined, List.flatMap_append, List.flatMap_singleton,
        ← inductionHypothesis]
      cases acc : joinEntries entries with
      | nil => rfl
      | cons head tail =>
          have split := tokens_append_separator (head :: tail) last comma
          simpa [ascii] using split

/-! ## The dialog -/

/-- The edit controls of the three pages. -/
inductive OptionsField where
  | bind
  | port
  | maxSess
  | monitor
  | cert
  | key
  | cidrEdit
  | audit
  | fileRoot
  deriving DecidableEq

/-- The fields with a button that asks for a file or a folder. -/
def OptionsField.browsed : OptionsField → Bool
  | .cert | .key | .audit | .fileRoot => true
  | _ => false

/-- The dialog: the configuration, its controls, and how it was left. -/
structure OptionsDialog where
  cfg : ServerConfig
  texts : OptionsField → Bytes
  useDefault : Bool
  entries : List Bytes
  result : Option Bool := none

/-- What reaches the dialog. -/
inductive OptionsEvent where
  | typed (field : OptionsField) (text : Bytes)
  | browse (field : OptionsField) (file : Bytes)
  | clickDefault
  | addCidr
  | removeCidr (sel : Option Nat)
  | ok
  | cancel
  | close

namespace OptionsDialog

section Dialog

variable (shown : Bytes → Bytes)

/-- `WM_INITDIALOG` of the pages; a control shows what it makes of a text. -/
def init (cfg : ServerConfig) : OptionsDialog where
  cfg := cfg
  texts
    | .bind => shown cfg.bindAddr
    | .port => shown (decimal cfg.port.toNat)
    | .maxSess => shown (decimal cfg.maxSessions.toNat)
    | .monitor => shown (decimal cfg.monitor.toNat)
    | .cert => shown cfg.tlsCert
    | .key => shown cfg.tlsKey
    | .cidrEdit => []
    | .audit => shown cfg.auditCsv
    | .fileRoot => shown cfg.fileRoot
  useDefault := cfg.port == 4899
  entries := entriesOf shown cfg.allowSubnets

/-- `setEditText`. -/
def setEditText
    (dialog : OptionsDialog)
    (field : OptionsField)
    (s : Bytes) : OptionsDialog :=
  { dialog with texts := Function.update dialog.texts field (shown s) }

/-- `WM_OPT_SAVE` of the pages. -/
def save (dialog : OptionsDialog) : ServerConfig :=
  { dialog.cfg with
    bindAddr := dialog.texts .bind
    port := UInt16.ofInt (atoi (dialog.texts .port))
    maxSessions := toUInt32 (dialog.texts .maxSess)
    monitor := toUInt32 (dialog.texts .monitor)
    tlsCert := dialog.texts .cert
    tlsKey := dialog.texts .key
    allowSubnets := joinEntries dialog.entries
    auditCsv := dialog.texts .audit
    fileRoot := dialog.texts .fileRoot }

/-- The procedures of the dialog and its pages, until it is left. -/
def step (dialog : OptionsDialog) (event : OptionsEvent) : OptionsDialog :=
  if dialog.result.isSome then
    dialog
  else
    match event with
    | .typed field text =>
        { dialog with texts := Function.update dialog.texts field text }
    | .browse field file =>
        if field.browsed && !file.isEmpty then
          dialog.setEditText shown field file
        else
          dialog
    | .clickDefault =>
        let useDefault := !dialog.useDefault
        if useDefault then
          { dialog.setEditText shown .port (ascii "4899") with useDefault }
        else
          { dialog with useDefault }
    | .addCidr =>
        let v := dialog.texts .cidrEdit
        if v.isEmpty then
          dialog
        else
          { dialog.setEditText shown .cidrEdit [] with
            entries := dialog.entries ++ [shown v] }
    | .removeCidr sel =>
        match sel with
        | some sel => { dialog with entries := dialog.entries.eraseIdx sel }
        | none => dialog
    | .ok => { dialog with cfg := dialog.save, result := some true }
    | .cancel | .close => { dialog with result := some false }

/-- The dialog after some events. -/
def run (cfg : ServerConfig) (events : List OptionsEvent) : OptionsDialog :=
  StepRuns.run (step shown) (init shown cfg) events

end Dialog

end OptionsDialog

/-! ## What the administrator means -/

/-- An edit of the entries. -/
inductive EntryEdit where
  | append (entry : Bytes)
  | remove (index : Nat)

/-- The entries after an edit. -/
def EntryEdit.apply (entries : List Bytes) : EntryEdit → List Bytes
  | .append entry => entries ++ [entry]
  | .remove index => entries.eraseIdx index

namespace OptionsDialog

section Runs

variable (shown : Bytes → Bytes)

/-- What an event means for the entries. -/
def edits (dialog : OptionsDialog) (event : OptionsEvent) : List EntryEdit :=
  if dialog.result.isSome then
    []
  else
    match event with
    | .addCidr =>
        if (dialog.texts .cidrEdit).isEmpty then
          []
        else
          [.append (shown (dialog.texts .cidrEdit))]
    | .removeCidr (some sel) => [.remove sel]
    | _ => []

variable {shown}
variable {cfg : ServerConfig}
variable {dialog : OptionsDialog}

/-- The accounts and the client certificates stay; only `OK` writes. -/
structure Keeps (cfg : ServerConfig) (dialog : OptionsDialog) : Prop where
  users : dialog.cfg.users = cfg.users
  clientCa : dialog.cfg.clientCa = cfg.clientCa
  written :
    if dialog.result = some true then
      dialog.cfg.allowSubnets = joinEntries dialog.entries
    else
      dialog.cfg = cfg

/-- An event that leaves the configuration alone keeps it. -/
theorem Keeps.unfinished
    (keeps : Keeps cfg dialog)
    (isOpen : dialog.result = none)
    {after : OptionsDialog}
    (same : after.cfg = dialog.cfg)
    (notSaved : after.result ≠ some true) :
    Keeps cfg after where
  users := same ▸ keeps.users
  clientCa := same ▸ keeps.clientCa
  written := by
    have written := keeps.written
    rw [isOpen, if_neg (by simp)] at written
    rw [if_neg notSaved, same, written]

/-- What one event does to the entries and to the configuration. -/
theorem Keeps.step
    (keeps : Keeps cfg dialog)
    (event : OptionsEvent) :
    Keeps cfg (dialog.step shown event) ∧
      (dialog.step shown event).entries =
        StepRuns.run EntryEdit.apply dialog.entries
          (dialog.edits shown event) := by
  unfold OptionsDialog.step edits
  cases isResult : dialog.result with
  | some saved =>
      exact ⟨keeps, rfl⟩
  | none =>
      have notSaved : dialog.result ≠ some true := by
        simp [isResult]
      simp only [Option.isSome_none, Bool.false_eq_true, if_false]
      cases event with
      | typed field text =>
          exact ⟨keeps.unfinished isResult rfl (by simp), rfl⟩
      | browse field file =>
          dsimp only
          split
          · exact ⟨keeps.unfinished isResult rfl notSaved, rfl⟩
          · exact ⟨keeps, rfl⟩
      | clickDefault =>
          dsimp only
          split
          · exact ⟨keeps.unfinished isResult rfl notSaved, rfl⟩
          · exact ⟨keeps.unfinished isResult rfl (by simp), rfl⟩
      | addCidr =>
          dsimp only
          split
          · exact ⟨keeps, rfl⟩
          · exact ⟨keeps.unfinished isResult rfl notSaved, rfl⟩
      | removeCidr sel =>
          cases sel with
          | none => exact ⟨keeps, rfl⟩
          | some index =>
              exact ⟨keeps.unfinished isResult rfl (by simp), rfl⟩
      | ok =>
          refine ⟨?_, rfl⟩
          exact
            { users := keeps.users
              clientCa := keeps.clientCa
              written := rfl }
      | cancel =>
          exact ⟨keeps.unfinished isResult rfl (by simp), rfl⟩
      | close =>
          exact ⟨keeps.unfinished isResult rfl (by simp), rfl⟩

/-- A run does to the entries what its events mean. -/
theorem keeps_run
    (shown : Bytes → Bytes)
    (cfg : ServerConfig)
    (events : List OptionsEvent) :
    Keeps cfg (run shown cfg events) ∧
      (run shown cfg events).entries =
        StepRuns.run EntryEdit.apply (entriesOf shown cfg.allowSubnets)
          (StepRuns.history (step shown) (edits shown) (init shown cfg)
            events) := by
  have keeps : Keeps cfg (init shown cfg) :=
    { users := rfl
      clientCa := rfl
      written := rfl }
  have mirrored :
      ∀ dialog event,
        Keeps cfg dialog →
        True →
        Keeps cfg (step shown dialog event) ∧
          (step shown dialog event).entries =
            StepRuns.run EntryEdit.apply dialog.entries
              (edits shown dialog event) :=
    fun _ event keeps _ => keeps.step event
  have anyEvent :
      StepRuns.Allowed (step shown) (fun _ _ => True) (init shown cfg) events :=
    StepRuns.Allowed.of_forall (fun _ _ _ => trivial) _
  exact StepRuns.mirrors_run mirrored keeps anyEvent

end Runs

/-! ## What the server admits -/

section Filter

open SubnetFilter

variable {inetPtonA : InetPton}

/-- The entries that are put together give the rules of each. -/
theorem rulesOf_joinEntries (entries : List Bytes) :
    rulesOf inetPtonA (joinEntries entries) =
      entries.flatMap (rulesOf inetPtonA) := by
  rw [rulesOf, tokens_joinEntries, List.filterMap_flatMap]
  rfl

/-- The entries that are shown at first give the rules of the list. -/
theorem rulesOf_entriesOf
    {shown : Bytes → Bytes}
    {list : Bytes}
    (legible : ∀ token ∈ tokens endsEntry list, shown token = token) :
    (entriesOf shown list).flatMap (rulesOf inetPtonA) =
      rulesOf inetPtonA list := by
  have separates (c : UInt8) (ends : endsEntry c = true) :
      isSeparator c = true := by
    simp only [endsEntry, Bool.or_eq_true, beq_iff_eq] at ends
    rcases ends with (((rfl | rfl) | rfl) | rfl) | rfl <;> decide
  rw [entriesOf_legible legible, rulesOf, ← tokens_of_coarser separates list,
    List.filterMap_flatMap]
  rfl

/-- What some lists admit together is what one of them admits. -/
theorem isAllowed_flatMap
    {entries : List Bytes}
    {ip : Bytes} :
    SubnetFilter.isAllowed inetPtonA
        { rules := entries.flatMap (rulesOf inetPtonA) } ip = true ↔
      ∃ entry ∈ entries,
        (addList inetPtonA {} entry).2.isAllowed inetPtonA ip = true := by
  simp only [isAllowed_iff, addList_eq, List.nil_append, List.mem_flatMap]
  constructor
  · rintro ⟨family, peer, parse, rule, ⟨entry, member, isRule⟩, matched⟩
    exact ⟨entry, member, family, peer, parse, rule, isRule, matched⟩
  · rintro ⟨entry, member, family, peer, parse, rule, isRule, matched⟩
    exact ⟨family, peer, parse, rule, ⟨entry, member, isRule⟩, matched⟩

end Filter

/-- The event adds or removes an entry. -/
def editsEntries : OptionsEvent → Bool
  | .addCidr => true
  | .removeCidr sel => sel.isSome
  | _ => false

/-- Without such events the entries are not edited. -/
theorem history_unedited
    {shown : Bytes → Bytes}
    {events : List OptionsEvent}
    (unedited : ∀ event ∈ events, editsEntries event = false)
    (dialog : OptionsDialog) :
    StepRuns.history (step shown) (edits shown) dialog events = [] := by
  induction events generalizing dialog with
  | nil =>
      rfl
  | cons event rest inductionHypothesis =>
      rw [List.forall_mem_cons] at unedited
      have none : edits shown dialog event = [] := by
        unfold edits
        split
        · rfl
        · cases event with
          | addCidr => cases unedited.1
          | removeCidr sel =>
              cases sel with
              | none => rfl
              | some index => cases unedited.1
          | typed field text => rfl
          | browse field file => rfl
          | clickDefault => rfl
          | ok => rfl
          | cancel => rfl
          | close => rfl
      rw [StepRuns.history, none, List.nil_append]
      exact inductionHypothesis unedited.2 _

open SubnetFilter in
/--
When the dialog is left with `OK`, the server admits the peers that one of the
entries admits, where the entries are those of the list before with what was added
and without what was removed; each of them counts for the check at the start of
the server.  If no entry was added or removed, the filter is the one from before,
although the page and the server split lists at different characters.  Accounts
and client certificates stay as they are.
-/
theorem options_filter_exact
    (inetPtonA : InetPton)
    (shown : Bytes → Bytes)
    (cfg : ServerConfig)
    (legible :
      ∀ token ∈ tokens endsEntry cfg.allowSubnets, shown token = token)
    (events : List OptionsEvent)
    (accepted : (run shown cfg events).result = some true) :
    let saved := (run shown cfg events).cfg
    let edited :=
      StepRuns.run EntryEdit.apply (tokens endsEntry cfg.allowSubnets)
        (StepRuns.history (step shown) (edits shown) (init shown cfg) events)
    (addList inetPtonA {} saved.allowSubnets).1 =
        (edited.map fun entry => (addList inetPtonA {} entry).1).sum ∧
      (∀ ip,
        (addList inetPtonA {} saved.allowSubnets).2.isAllowed inetPtonA ip =
            true ↔
          ∃ entry ∈ edited,
            (addList inetPtonA {} entry).2.isAllowed inetPtonA ip = true) ∧
      ((∀ event ∈ events, editsEntries event = false) →
        addList inetPtonA {} saved.allowSubnets =
          addList inetPtonA {} cfg.allowSubnets) ∧
      saved.users = cfg.users ∧ saved.clientCa = cfg.clientCa := by
  intro saved edited
  obtain ⟨keeps, entries⟩ := keeps_run shown cfg events
  have isEdited : (run shown cfg events).entries = edited := by
    rw [entries, entriesOf_legible legible]
  have written := keeps.written
  rw [if_pos accepted, isEdited] at written
  have rules :
      rulesOf inetPtonA saved.allowSubnets =
        edited.flatMap (rulesOf inetPtonA) := by
    rw [← rulesOf_joinEntries edited, ← written]
  refine ⟨?_, ?_, ?_, keeps.users, keeps.clientCa⟩
  · simp only [addList_eq, rules, List.length_flatMap]
  · intro ip
    rw [addList_eq, rules]
    exact isAllowed_flatMap
  · intro unedited
    have same : edited = entriesOf shown cfg.allowSubnets := by
      rw [entriesOf_legible legible]
      simp only [edited, history_unedited unedited]
      rfl
    rw [addList_eq, addList_eq, rules, same, rulesOf_entriesOf legible]

/-- A resolver that knows one address. -/
def oneAddress : InetPton
  | .inet, text => if text = [55] then some ⟨[10, 0, 0, 7], rfl⟩ else none
  | .inet6, _ => none

/-- The entry that nobody knows is replaced by the address. -/
def replaceEntry : List OptionsEvent :=
  [.typed .cidrEdit [55], .addCidr, .removeCidr (some 0), .ok]

/-- The server starts with one rule. -/
theorem options_filter_exact_replaceEntry :
    (SubnetFilter.addList oneAddress {}
        (run id { allowSubnets := [56] } replaceEntry).cfg.allowSubnets).1 =
      1 := by
  have legible :
      ∀ token ∈ tokens endsEntry [56], id token = token :=
    fun _ _ => rfl
  have filtered :=
    options_filter_exact oneAddress id { allowSubnets := [56] } legible
      replaceEntry rfl
  rw [filtered.1]
  rfl

end OptionsDialog

end RadminPro
