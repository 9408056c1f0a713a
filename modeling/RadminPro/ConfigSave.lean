import RadminPro.ConfigRoundTrip
import RadminPro.StreamLanding
import RadminPro.TrayApp

namespace RadminPro

open ByteCodec

/-!
# Saving the configuration

`TrayApp::saveConfig` truncates the file of the configuration in place, writes
it once and asks neither the write nor the close whether it failed.  What it
reports is true as long as what reaches the file reads as all of it would.
-/

/-- Sealing and unsealing of texts; either may fail. -/
structure DpapiSecret where
  protectString : Bytes → Option Bytes
  unprotectToString : Bytes → Option Bytes
  unseals :
    ∀ text blob,
      protectString text = some blob → unprotectToString blob = some text

/-- What the system answers while the configuration is saved. -/
structure SaveAnswer where
  serialized : Bool := true
  opened : Bool := true
  written : Flush
  flushedAtClose : Nat

namespace TrayApp

/-- The text ends with the suffix. -/
def endsWith (s : Bytes) (suf : Bytes) : Bool :=
  suf.length ≤ s.length && s.drop (s.length - suf.length) == suf

/-- The configuration is kept sealed. -/
def isSealed (configPath : Path) : Bool :=
  endsWith configPath (ascii ".enc")

section Config

variable (dpapi : DpapiSecret)
variable (configPath : Path)

/-- The text in a file of the configuration. -/
def textOf (content : Bytes) : Option Bytes :=
  if isSealed configPath then
    dpapi.unprotectToString content
  else
    some content

/-- `loadConfig`. -/
def loadConfig (tray : TrayApp) (files : Files) : Bool × TrayApp :=
  match (files configPath).bind (textOf dpapi configPath) with
  | some text => (true, { tray with cfg := .parse text, cfgLoaded := true })
  | none => (false, { tray with cfgLoaded := false })

/-- What is written for a configuration. -/
def contentOf (cfg : ServerConfig) : Option Bytes :=
  let text := ServerApp.serialize cfg
  if isSealed configPath then
    dpapi.protectString text
  else
    some text

/-- `saveConfig`. -/
def saveConfig (cfg : ServerConfig) (answer : SaveAnswer) : Bool × List Effect :=
  if answer.serialized then
    match contentOf dpapi configPath cfg with
    | none => (false, [])
    | some content =>
        if answer.opened then
          let f := OfStream.write { path := configPath } content answer.written
          (true,
            .openTrunc configPath true :: f.2 ++
              f.1.close answer.flushedAtClose)
        else
          (false, [.openTrunc configPath false])
  else
    (false, [])

/-- `onOptions` with what its dialog returns, up to the restart. -/
def saveOptions
    (tray : TrayApp)
    (edited : Option ServerConfig)
    (answer : SaveAnswer) : TrayApp × List Effect :=
  match edited with
  | none => (tray.onOptions none false, [])
  | some cfg =>
      let saved := saveConfig dpapi configPath cfg answer
      (tray.onOptions (some cfg) saved.1, saved.2)

/-- `onUsers` with what its dialog returns, up to the restart. -/
def saveUsers
    (tray : TrayApp)
    (edited : Option (List UserRecord))
    (answer : SaveAnswer) : TrayApp × List Effect :=
  match tray.cfgLoaded, edited with
  | true, some users =>
      let saved := saveConfig dpapi configPath { tray.cfg with users } answer
      (tray.onUsers (some users) saved.1, saved.2)
  | _, _ => (tray.onUsers edited false, [])

/-- A command at the message loop goes on to restart the server. -/
def Restarts (tray later : TrayApp) : Prop :=
  tray.point = .idle ∧ later.point = .stopping true

/--
A configuration that is reported saved loads as it was written, one that is not
leaves the files alone, and the server is restarted for a saved one only.
-/
structure SavesAllOrNothing
    (files : Files)
    (cfg : ServerConfig)
    (answer : SaveAnswer) : Prop where
  saved :
    (saveConfig dpapi configPath cfg answer).1 = true →
      ∀ tray,
        loadConfig dpapi configPath tray
            (filesAfter files (saveConfig dpapi configPath cfg answer).2) =
          (true,
            { tray with
              cfg := .parse (ServerApp.serialize cfg)
              cfgLoaded := true })
  unsaved :
    (saveConfig dpapi configPath cfg answer).1 = false →
      filesAfter files (saveConfig dpapi configPath cfg answer).2 = files
  options :
    ∀ tray edited,
      Restarts tray (saveOptions dpapi configPath tray edited answer).1 →
        ∃ chosen,
          edited = some chosen ∧
            (saveConfig dpapi configPath chosen answer).1 = true
  users :
    ∀ tray edited,
      Restarts tray (saveUsers dpapi configPath tray edited answer).1 →
        ∃ chosen,
          edited = some chosen ∧
            (saveConfig dpapi configPath { tray.cfg with users := chosen }
              answer).1 = true

end Config

end TrayApp

namespace SaveAnswer

/-- How much of what is written at once reaches the file. -/
def reaching (answer : SaveAnswer) : Nat :=
  answer.written.handed +
    if answer.written.ok then
      answer.flushedAtClose
    else
      min answer.written.kept answer.flushedAtClose

end SaveAnswer

namespace TrayApp

/--
The file is not opened, or what the write and the close let through reads as the
whole does.
-/
def LetsThrough
    (dpapi : DpapiSecret)
    (configPath : Path)
    (cfg : ServerConfig)
    (answer : SaveAnswer) : Prop :=
  answer.serialized = true →
  answer.opened = true →
  ∀ content,
    contentOf dpapi configPath cfg = some content →
    (textOf dpapi configPath (content.take answer.reaching)).map
        ServerConfig.parse =
      some (.parse (ServerApp.serialize cfg))

section Saving

variable {dpapi : DpapiSecret}
variable {configPath : Path}
variable {cfg : ServerConfig}
variable {answer : SaveAnswer}

/-- What reaches the file of one write. -/
theorem landing_reaching
    (content : Bytes)
    (answer : SaveAnswer) :
    OfStream.landing { path := configPath } [(content, answer.written)]
        answer.flushedAtClose =
      content.take answer.reaching := by
  have handed :
      OfStream.handed { path := configPath } content answer.written =
        content.take answer.written.handed := by
    simp [OfStream.handed]
  have buffered :
      (OfStream.write { path := configPath } content answer.written).1.buffered =
        if answer.written.ok then
          content.drop answer.written.handed
        else
          (content.drop answer.written.handed).take answer.written.kept := by
    simp [OfStream.write_good]
  simp only [OfStream.landing, handed, buffered, SaveAnswer.reaching]
  cases answer.written.ok with
  | true =>
      exact List.take_add.symm
  | false =>
      simp only [Bool.false_eq_true, ↓reduceIte, List.take_add,
        List.take_take, Nat.min_comm]

/-- What a whole file of the configuration reads as. -/
theorem textOf_contentOf
    {content : Bytes}
    (written : contentOf dpapi configPath cfg = some content) :
    textOf dpapi configPath content = some (ServerApp.serialize cfg) := by
  cases isEnc : isSealed configPath with
  | true =>
      have blob : dpapi.protectString (ServerApp.serialize cfg) = some content := by
        simpa [contentOf, isEnc] using written
      simpa [textOf, isEnc] using dpapi.unseals _ _ blob
  | false =>
      have text : ServerApp.serialize cfg = content := by
        simpa [contentOf, isEnc] using written
      simp [textOf, isEnc, text]

/-- What a save that is let through whole leaves reads as it was written. -/
theorem letsThrough_of_all
    (all :
      ∀ content,
        contentOf dpapi configPath cfg = some content →
        content.length ≤ answer.reaching) :
    LetsThrough dpapi configPath cfg answer := by
  intro _ _ content written
  rw [List.take_of_length_le (all content written), textOf_contentOf written]
  rfl

/-- What an opened file of the configuration holds after its write and close. -/
theorem filesAfter_saved
    (files : Files)
    (content : Bytes)
    (answer : SaveAnswer) :
    filesAfter files
        (.openTrunc configPath true ::
            (OfStream.write { path := configPath } content answer.written).2 ++
          (OfStream.write { path := configPath } content
            answer.written).1.close answer.flushedAtClose)
        configPath =
      some (content.take answer.reaching) := by
  let opened := FileStore.apply files (.truncate configPath)
  have trails :
      OfStream.Trails opened { path := configPath } [] :=
    OfStream.trails_opened (FileStore.apply_truncate files configPath)
  have closed :=
    (trails.write content answer.written).close answer.flushedAtClose
  rw [OfStream.write_path] at closed
  have landed :
      OfStream.landing { path := configPath } [(content, answer.written)]
          answer.flushedAtClose =
        content.take answer.reaching :=
    landing_reaching content answer
  rw [List.cons_append, filesAfter_cons_change rfl, filesAfter_append, closed,
    ← landed]
  rfl

/-- How `saveConfig` comes out. -/
inductive Saves
    (dpapi : DpapiSecret)
    (configPath : Path)
    (cfg : ServerConfig)
    (answer : SaveAnswer) : Bool × List Effect → Prop
  | stopped
      (why :
        answer.serialized = false ∨ contentOf dpapi configPath cfg = none) :
      Saves dpapi configPath cfg answer (false, [])
  | unopened (why : answer.opened = false) :
      Saves dpapi configPath cfg answer (false, [.openTrunc configPath false])
  | written
      (content : Bytes)
      (serialized : answer.serialized = true)
      (opened : answer.opened = true)
      (isContent : contentOf dpapi configPath cfg = some content) :
      Saves dpapi configPath cfg answer
        (true,
          .openTrunc configPath true ::
              (OfStream.write { path := configPath } content answer.written).2 ++
            (OfStream.write { path := configPath } content
              answer.written).1.close answer.flushedAtClose)

theorem saveConfig_saves
    (dpapi : DpapiSecret)
    (configPath : Path)
    (cfg : ServerConfig)
    (answer : SaveAnswer) :
    Saves dpapi configPath cfg answer (saveConfig dpapi configPath cfg answer) := by
  unfold saveConfig
  cases serialized : answer.serialized with
  | false =>
      exact .stopped (.inl serialized)
  | true =>
      cases isContent : contentOf dpapi configPath cfg with
      | none =>
          exact .stopped (.inr isContent)
      | some content =>
          cases opened : answer.opened with
          | false =>
              exact .unopened opened
          | true =>
              exact .written content serialized opened isContent

/-- A save that is not reported leaves the files alone. -/
theorem files_unsaved
    (files : Files)
    (unsaved : (saveConfig dpapi configPath cfg answer).1 = false) :
    filesAfter files (saveConfig dpapi configPath cfg answer).2 = files := by
  generalize result :
    saveConfig dpapi configPath cfg answer = saved at unsaved ⊢
  have saves := saveConfig_saves dpapi configPath cfg answer
  rw [result] at saves
  cases saves with
  | stopped =>
      rfl
  | unopened =>
      exact filesAfter_cons_unchanged rfl files []
  | written =>
      cases unsaved

/-- A command restarts the server only when it saves. -/
theorem saveOptions_restarts
    {tray : TrayApp}
    {edited : Option ServerConfig}
    (restarts :
      Restarts tray (saveOptions dpapi configPath tray edited answer).1) :
    ∃ chosen,
      edited = some chosen ∧
        (saveConfig dpapi configPath chosen answer).1 = true := by
  obtain ⟨idle, stopping⟩ := restarts
  have waits (cfgLoaded : Bool) :
      (if cfgLoaded then
        tray
      else
        { tray with
          cfg := { allowSubnets := ascii "192.168.1.0/24" } }).point = .idle := by
    cases cfgLoaded with
    | true =>
        exact idle
    | false =>
        exact idle
  cases edited with
  | none =>
      simp [saveOptions, onOptions, waits] at stopping
  | some chosen =>
      refine ⟨chosen, rfl, ?_⟩
      cases saved : (saveConfig dpapi configPath chosen answer).1 with
      | true =>
          rfl
      | false =>
          simp [saveOptions, onOptions, saved, waits] at stopping

theorem saveUsers_restarts
    {tray : TrayApp}
    {edited : Option (List UserRecord)}
    (restarts :
      Restarts tray (saveUsers dpapi configPath tray edited answer).1) :
    ∃ chosen,
      edited = some chosen ∧
        (saveConfig dpapi configPath { tray.cfg with users := chosen }
          answer).1 = true := by
  obtain ⟨idle, stopping⟩ := restarts
  cases loaded : tray.cfgLoaded with
  | false =>
      simp [saveUsers, onUsers, loaded, idle] at stopping
  | true =>
      cases edited with
      | none =>
          simp [saveUsers, onUsers, loaded, idle] at stopping
      | some chosen =>
          refine ⟨chosen, rfl, ?_⟩
          cases saved :
              (saveConfig dpapi configPath { tray.cfg with users := chosen }
                answer).1 with
          | true =>
              rfl
          | false =>
              simp [saveUsers, onUsers, loaded, saved, idle] at stopping

/-- A file of the configuration loads as what its text parses to. -/
theorem loadConfig_iff
    {files : Files}
    {content : Bytes}
    (onDisk : files configPath = some content)
    (loaded : ServerConfig) :
    (∀ tray,
        loadConfig dpapi configPath tray files =
          (true, { tray with cfg := loaded, cfgLoaded := true })) ↔
      (textOf dpapi configPath content).map ServerConfig.parse = some loaded := by
  unfold loadConfig
  rw [onDisk, Option.bind_some]
  cases textOf dpapi configPath content with
  | none =>
      refine iff_of_false ?_ (by simp)
      intro each
      cases congrArg Prod.fst (each {})
  | some text =>
      constructor
      · intro each
        have cfg := congrArg (fun result => result.2.cfg) (each {})
        exact congrArg some cfg
      · intro same tray
        rw [Option.map_some, Option.some.injEq] at same
        rw [← same]

/--
Saving is all or nothing exactly when the file is not opened or the part of the
content that the write and the close let through reads as the whole.
-/
theorem saves_all_or_nothing_iff
    (files : Files)
    (cfg : ServerConfig)
    (answer : SaveAnswer) :
    SavesAllOrNothing dpapi configPath files cfg answer ↔
      LetsThrough dpapi configPath cfg answer := by
  have saves := saveConfig_saves dpapi configPath cfg answer
  generalize result :
    saveConfig dpapi configPath cfg answer = outcome at saves
  have savedIff :
      (outcome.1 = true →
          ∀ tray,
            loadConfig dpapi configPath tray (filesAfter files outcome.2) =
              (true,
                { tray with
                  cfg := .parse (ServerApp.serialize cfg)
                  cfgLoaded := true })) ↔
        LetsThrough dpapi configPath cfg answer := by
    cases saves with
    | stopped why =>
        refine iff_of_true (fun saved => by cases saved) ?_
        intro serialized _ content isContent
        rcases why with failed | none
        · rw [failed] at serialized
          cases serialized
        · rw [none] at isContent
          cases isContent
    | unopened why =>
        refine iff_of_true (fun saved => by cases saved) ?_
        intro _ opened
        rw [why] at opened
        cases opened
    | written content serialized opened isContent =>
        rw [imp_iff_right rfl,
          loadConfig_iff (filesAfter_saved files content answer)]
        constructor
        · intro loads _ _ other isOther
          rw [isContent, Option.some.injEq] at isOther
          rw [← isOther]
          exact loads
        · intro letsThrough
          exact letsThrough serialized opened content isContent
  constructor
  · intro saving
    apply savedIff.mp
    rw [← result]
    exact saving.saved
  · intro letsThrough
    refine ⟨?_, files_unsaved files, fun _ _ => saveOptions_restarts,
      fun _ _ => saveUsers_restarts⟩
    rw [result]
    exact savedIff.mpr letsThrough

/-- Secrets kept as they are. -/
def unsealed : DpapiSecret where
  protectString := some
  unprotectToString := some
  unseals := fun _ _ same => same.symm ▸ rfl

/-- The disk is full when a changed configuration is saved. -/
def diskFull : SaveAnswer where
  written := { ok := false, handed := 0 }
  flushedAtClose := 0

/-- The save is reported although the file is left empty. -/
theorem saved_but_lost :
    (saveConfig unsealed (ascii "server.config") oneAccount diskFull).1 = true ∧
      ¬SavesAllOrNothing unsealed (ascii "server.config")
        (fun _ => some [1]) oneAccount diskFull := by
  refine ⟨by decide +kernel, ?_⟩
  intro saving
  have letsThrough := (saves_all_or_nothing_iff _ _ _).mp saving
  have reads :=
    letsThrough rfl rfl (ServerApp.serialize oneAccount) (by decide +kernel)
  have plain : isSealed (ascii "server.config") = false := by
    decide
  have nothing : diskFull.reaching = 0 :=
    rfl
  have accounts :
      (ServerConfig.parse []).users =
        (ServerConfig.parse (ServerApp.serialize oneAccount)).users := by
    rw [nothing, List.take_zero, textOf, plain] at reads
    exact congrArg ServerConfig.users (Option.some.inj reads)
  have none : (ServerConfig.parse []).users.length = 0 := by
    decide +kernel
  have one :
      (ServerConfig.parse (ServerApp.serialize oneAccount)).users.length = 1 := by
    decide +kernel
  rw [← accounts, none] at one
  cases one

end Saving

end TrayApp

end RadminPro
