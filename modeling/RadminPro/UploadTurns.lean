import RadminPro.UploadDisk

namespace RadminPro

open ByteCodec

/-!
# Uploads from turn to turn

A turn of a session is inverted into what it does about uploads.  The history of
the session says of an open upload which request it answers and which blocks
have come for it since; the upload follows this record.
-/

section Requests

variable {out : Outside}

/-! ## An accepted request -/

/-- An upload entered into the map of a session. -/
theorem uploads_insert
    (map : Uploads)
    (id : UInt32)
    (st : UploadState) :
    (fun other : UInt32 => (map.insert id st)[other]?) =
      Function.update (fun other : UInt32 => map[other]?) id (some st) := by
  funext other
  by_cases same : other = id
  · rw [same, Function.update_self]
    exact Std.TreeMap.getElem?_insert_self
  · rw [Function.update_of_ne same]
    exact uploads_insert_other map same st

/-- An accepted request opens its file and may close the upload it replaces. -/
theorem beginUpload_changes
    (loop : LoopState)
    (req : FileUploadReqMsg)
    (dest : Path)
    (opened : out.opened = true) :
    ∃ directories replaced ok,
      (beginUpload out loop req dest).effects =
          directories ++ [.openTrunc (dest ++ ascii ".part") true] ++ replaced ++
            [.send (.known .fileAccept)
              (FileAcceptMsg.encode { transferId := loop.nextTransferId })
              ok] ∧
        (∀ effect ∈ directories, Aside effect ∧ acceptedId effect = none) ∧
        ∀ effect ∈ replaced,
          ∃ old flushed,
            loop.uploads[loop.nextTransferId]? = some old ∧
              effect ∈ old.out.close flushed := by
  let directories :=
    ((PathText.parentDirectories dest).filter out.creates).map
      Effect.createDirectory
  have isDirectory :
      ∀ effect ∈ directories, Aside effect ∧ acceptedId effect = none := by
    intro effect member
    obtain ⟨directory, _, rfl⟩ := List.mem_map.mp member
    exact ⟨aside_unlogged rfl rfl rfl (by simp), rfl⟩
  let payload := FileAcceptMsg.encode { transferId := loop.nextTransferId }
  let ok := withinCap payload && out.replies 0
  cases found : loop.uploads[loop.nextTransferId]? with
  | none =>
      refine ⟨directories, [], ok, ?_, isDirectory, by simp⟩
      simp [beginUpload, opened, found, directories, UploadState.requested,
        reply_eq, ok, payload]
  | some old =>
      refine ⟨directories, old.out.close out.flushedAtReplace, ok, ?_, isDirectory,
        ?_⟩
      · simp [beginUpload, opened, found, directories, UploadState.requested,
          reply_eq]
        rfl
      · exact fun effect member => ⟨old, _, rfl, member⟩

/-- The map of a session whose request was accepted. -/
theorem beginUpload_uploads
    (loop : LoopState)
    (req : FileUploadReqMsg)
    (dest : Path)
    (opened : out.opened = true) :
    (beginUpload out loop req dest).loop =
      { loop with
        uploads :=
          loop.uploads.insert loop.nextTransferId (.requested req dest)
        nextTransferId := loop.nextTransferId + 1 } := by
  simp [beginUpload, opened]

end Requests

/-! ## Turns -/

section Turns

/-- Leaving early adds no row to the log. -/
theorem row_of_leave
    {effects : List Effect}
    {event : AuditEvent}
    (member : .audit event ∈ (leave effects).2) :
    .audit event ∈ effects := by
  simpa [leave] using member

/-- The row of an exchange is the one that was written. -/
theorem row_of_exchange
    {out : Outside}
    {m : Message}
    {op : Op}
    {payload : Bytes}
    {event logged : AuditEvent}
    (member :
      .audit event ∈ .received m :: reply out op payload ++ [.audit logged]) :
    event = logged := by
  simpa [reply_eq] using member

/-- An exchange without a row writes none. -/
theorem no_row_of_exchange
    {out : Outside}
    {m : Message}
    {op : Op}
    {payload : Bytes}
    {event : AuditEvent} :
    .audit event ∉ .received m :: reply out op payload := by
  simp [reply_eq]

/-- Before the event loop no row of the log is about an upload. -/
theorem early_rows
    (sha256 : Bytes → Hash256)
    (setup : SessionSetup)
    {phase : SessionPhase}
    (early : phase.early)
    (turn : Turn)
    {event : AuditEvent}
    (member : .audit event ∈ (phase.turn sha256 setup turn).2) :
    event.action ≠ .fileUpload := by
  have isAuth :
      ∀ actor peer ok detail,
        (AuditEvent.auth actor peer ok detail).action ≠ .fileUpload := by
    intro actor peer ok detail
    cases ok <;> simp [AuditEvent.auth]
  cases phase with
  | handshake =>
      simp only [SessionPhase.turn] at member
      split at member
      · cases member
      · rw [Effect.audit.inj (List.mem_singleton.mp (row_of_leave member))]
        exact isAuth _ _ _ _
  | hello =>
      simp only [SessionPhase.turn, helloTurn] at member
      split at member
      · split at member
        · simp [leave] at member
        · split at member
          · simp at member
          · split at member
            · exact (no_row_of_exchange (row_of_leave member)).elim
            · exact (no_row_of_exchange member).elim
      · simp [leave] at member
      · simp [leave] at member
  | auth =>
      simp only [SessionPhase.turn, authTurn] at member
      split at member
      · split at member
        · simp [leave] at member
        · split at member
          · simp at member
          · split at member
            · rw [row_of_exchange member]
              exact isAuth _ _ _ _
            · rw [row_of_exchange (row_of_leave member)]
              exact isAuth _ _ _ _
      · simp [leave] at member
      · simp [leave] at member
  | mode user rights =>
      simp only [SessionPhase.turn, modeTurn] at member
      split at member
      · split at member
        · simp [leave] at member
        · split at member
          · simp at member
          · split at member
            · rw [row_of_exchange (row_of_leave member)]
              simp [AuditEvent.fileOp]
            · simp only [List.mem_cons, reduceCtorEq, Effect.audit.injEq,
                List.not_mem_nil, or_false, false_or] at member
              rw [member]
              simp [AuditEvent.session]
      · simp [leave] at member
      · simp [leave] at member
  | live ctx loop | closed unfinished | terminated error | stuck =>
      exact early.elim

/-- What a session does before its event loop is not about uploads. -/
theorem Preliminary.unconcerned
    {effect : Effect}
    (preliminary : Preliminary effect) :
    effect.change? = none ∧ Silent effect := by
  refine ⟨?_, preliminary.silent⟩
  cases preliminary <;> rfl

/-- A turn outside the event loop has no uploads and does nothing about any. -/
theorem turn_not_live
    (sha256 : Bytes → Hash256)
    (setup : SessionSetup)
    {phase : SessionPhase}
    (notLive : ∀ ctx loop, phase ≠ .live ctx loop)
    (turn : Turn) :
    (phase.turn sha256 setup turn).1.upload? = (fun _ => none) ∧
      ∀ effect ∈ (phase.turn sha256 setup turn).2,
        effect.change? = none ∧ Silent effect ∧
          ∀ target, ¬PlacedRow target effect := by
  by_cases early : phase.early
  · have rows :
        ∀ effect ∈ (phase.turn sha256 setup turn).2,
          ∀ target, ¬PlacedRow target effect := by
      rintro effect member target ⟨event, rfl, isUpload, _⟩
      exact early_rows sha256 setup early turn member isUpload
    have enters := turn_enters sha256 setup early turn
    generalize phase.turn sha256 setup turn = result at enters rows
    have unconcerned :
        result.1.upload? = (fun _ => none) ∧
          ∀ effect ∈ result.2, effect.change? = none ∧ Silent effect := by
      cases enters with
      | left early only =>
          refine ⟨rfl, fun effect member => ?_⟩
          rcases List.mem_append.mp member with isOnly | isSlot
          · exact (only effect isOnly).unconcerned
          · rw [List.mem_singleton.mp isSlot]
            exact ⟨rfl, rfl, rfl⟩
      | shaken =>
          exact ⟨rfl, by simp⟩
      | greeted only =>
          exact ⟨rfl, fun effect member => (only effect member).unconcerned⟩
      | authenticated m user payload detail rights sessionId ok isResult =>
          refine ⟨rfl, ?_⟩
          simp [Effect.change?, Silent, acceptedId, verdictOf]
      | started m text detail authorized op decoded =>
          refine ⟨?_, ?_⟩
          · funext id
            simp [SessionPhase.upload?]
          · simp [Effect.change?, Silent, acceptedId, verdictOf]
      | threw early =>
          exact ⟨rfl, by simp [Effect.change?, Silent, acceptedId, verdictOf]⟩
    refine ⟨unconcerned.1, fun effect member => ?_⟩
    obtain ⟨change, silent⟩ := unconcerned.2 effect member
    exact ⟨change, silent, rows effect member⟩
  · cases phase with
    | live ctx loop =>
        exact (notLive ctx loop rfl).elim
    | handshake | hello | auth | mode user rights =>
        exact (early trivial).elim
    | closed unfinished | terminated error | stuck =>
        exact ⟨rfl, by simp [SessionPhase.turn]⟩

/-- What a turn does about uploads. -/
inductive UploadTurn
    (sha256 : Bytes → Hash256)
    (setup : SessionSetup)
    (phase : SessionPhase)
    (turn : Turn) : SessionPhase × List Effect → Prop where
  | outside
      {result : SessionPhase × List Effect}
      (notLive : ∀ ctx loop, phase ≠ .live ctx loop)
      (cleared : result.1.upload? = fun _ => none)
      (only :
        ∀ effect ∈ result.2,
          effect.change? = none ∧ Silent effect ∧
            ∀ target, ¬PlacedRow target effect) :
      UploadTurn sha256 setup phase turn result
  | unread
      {ctx : SessionContext} {loop : LoopState} {next : SessionPhase}
      {rest : List Effect}
      (live : phase = .live ctx loop)
      (noMessage : ∀ m, turn.running = true → turn.read ≠ .ok m)
      (ends : Ends ctx turn.outside loop.uploads next rest) :
      UploadTurn sha256 setup phase turn (next, rest)
  | handled
      {ctx : SessionContext} {loop : LoopState} {m : Message}
      {outcome : Outcome} {next : SessionPhase} {rest : List Effect}
      (live : phase = .live ctx loop)
      (running : turn.running = true)
      (read : turn.read = .ok m)
      (isHandled : handle sha256 setup ctx turn.outside loop m = .ok outcome)
      (deals : Deals sha256 setup ctx turn.outside loop m outcome)
      (ends : Ends ctx turn.outside outcome.loop.uploads next rest) :
      UploadTurn sha256 setup phase turn
        (next, .received m :: (outcome.effects ++ rest))
  | threw
      {ctx : SessionContext} {loop : LoopState} {m : Message}
      {error : DeserializeError}
      (live : phase = .live ctx loop)
      (running : turn.running = true)
      (read : turn.read = .ok m)
      (failed : handle sha256 setup ctx turn.outside loop m = .error error) :
      UploadTurn sha256 setup phase turn (.terminated error, [.received m])

/-- Every turn is one of these. -/
theorem turn_uploadTurn
    (sha256 : Bytes → Hash256)
    (setup : SessionSetup)
    (phase : SessionPhase)
    (turn : Turn) :
    UploadTurn sha256 setup phase turn (phase.turn sha256 setup turn) := by
  by_cases notLive : ∀ ctx loop, phase ≠ .live ctx loop
  · obtain ⟨cleared, only⟩ := turn_not_live sha256 setup notLive turn
    exact .outside notLive cleared only
  · push Not at notLive
    obtain ⟨ctx, loop, rfl⟩ := notLive
    have streamed :
        ∀ {effects : List Effect} {map : LoopState}
          {result : SessionPhase × List Effect},
          Streams setup ctx turn.outside map effects result →
          ∃ rest,
            result = (result.1, effects ++ rest) ∧
              Ends ctx turn.outside map.uploads result.1 rest := by
      intro effects map result streams
      obtain ⟨rest, shape, ends⟩ := streams.ends
      exact ⟨rest, Prod.ext rfl shape, ends⟩
    rw [SessionPhase.turn, liveTurn]
    split
    · next notRunning =>
        obtain ⟨rest, shape, ends⟩ := streamed (finishSession_streams [])
        rw [shape]
        refine .unread rfl (fun m running => ?_) ends
        simp [running] at notRunning
    · next isRunning =>
        have running : turn.running = true := by
          simpa using isRunning
        split
        · next closed =>
            obtain ⟨rest, shape, ends⟩ := streamed (finishSession_streams [])
            rw [shape]
            exact .unread rfl (by simp [closed]) ends
        · next timeout =>
            obtain ⟨rest, shape, ends⟩ := streamed (streamTurn_streams [])
            rw [shape]
            exact .unread rfl (by simp [timeout]) ends
        · next m read =>
            split
            · next error failed =>
                exact .threw rfl running read failed
            · next outcome handled =>
                have deals := handle_deals handled
                split
                · obtain ⟨rest, shape, ends⟩ :=
                    streamed (finishSession_streams _)
                  rw [shape]
                  exact .handled rfl running read handled deals ends
                · obtain ⟨rest, shape, ends⟩ := streamed (streamTurn_streams _)
                  rw [shape]
                  exact .handled rfl running read handled deals ends

end Turns

/-- What holds of new uploads and is kept by blocks holds of all open uploads. -/
theorem turn_keeps
    {kept : UploadState → Prop}
    (sha256 : Bytes → Hash256)
    (setup : SessionSetup)
    (phase : SessionPhase)
    (turn : Turn)
    (requested :
      ∀ m req dest,
        turn.read = .ok m →
        dest ∈ requestedPaths turn.outside setup.fileRoot m →
        kept (.requested req dest))
    (block : ∀ st data, kept st → kept (st.block data turn.outside.flush))
    (each : ∀ id st, phase.upload? id = some st → kept st) :
    ∀ id st, (phase.turn sha256 setup turn).1.upload? id = some st → kept st := by
  have inverted := turn_uploadTurn sha256 setup phase turn
  generalize phase.turn sha256 setup turn = result at inverted ⊢
  have ended :
      ∀ {ctx : SessionContext} {map : Uploads} {rest : List Effect}
        {next : SessionPhase},
        (∀ (id : UInt32) (st : UploadState), map[id]? = some st → kept st) →
        Ends ctx turn.outside map next rest →
        ∀ id st, next.upload? id = some st → kept st := by
    intro ctx map rest next before ends id st found
    cases ends with
    | @live loop rest same only =>
        apply before id st
        rw [← same]
        exact found
    | closed onlyShown onlyEnding =>
        cases found
  cases inverted with
  | outside notLive cleared only =>
      intro id st found
      rw [cleared] at found
      cases found
  | unread live noMessage ends =>
      subst live
      exact ended each ends
  | @handled ctx loop m outcome next rest live running read isHandled deals ends =>
      subst live
      refine ended (fun id st found => ?_) ends
      cases deals with
      | aside uploads only accepts unblocked uncompleted =>
          rw [uploads] at found
          exact each id st found
      | @begun req dest permitted op decoded resolved opened =>
          rw [beginUpload_uploads loop req dest opened] at found
          dsimp only at found
          by_cases same : id = loop.nextTransferId
          · subst same
            rw [Std.TreeMap.getElem?_insert_self, Option.some.injEq] at found
            rw [← found]
            apply requested m req dest read
            simp [requestedPaths, op, decoded, resolved]
          · rw [uploads_insert_other _ same] at found
            exact each id st found
      | @block blk old op decoded isOpen =>
          dsimp only at found
          by_cases same : id = blk.transferId
          · subst same
            rw [Std.TreeMap.getElem?_insert_self, Option.some.injEq] at found
            rw [← found]
            exact block old blk.data (each _ old isOpen)
          · rw [uploads_insert_other _ same] at found
            exact each id st found
      | complete op decoded isOpen =>
          dsimp only at found
          rw [uploads_erase] at found
          split at found
          · cases found
          · exact each id st found
      | deleted op permitted isRequested only =>
          exact each id st found
      | moved op permitted srcRequested dstRequested only =>
          exact each id st found
  | threw live running read failed =>
      intro id st found
      cases found

/-! ## The record of an upload -/

/-- A request that is being answered, and the last one that was accepted. -/
structure UploadRecord where
  asked : Option FileUploadReqMsg := none
  accepted : Option (FileUploadReqMsg × Bytes) := none

/-- What one more effect says about the uploads under an id. -/
def UploadRecord.after
    (id : UInt32)
    (record : UploadRecord)
    (effect : Effect) : UploadRecord :=
  match effect with
  | .received m =>
      { asked :=
          if m.op = .known .fileUploadReq then
            (FileUploadReqMsg.decode m.payload).toOption
          else
            none
        accepted :=
          record.accepted.map fun entry =>
            (entry.1, entry.2 ++ blockOf id (.received m)) }
  | effect =>
      match record.asked with
      | some req =>
          if acceptedId effect = some id then
            { record with accepted := some (req, []) }
          else
            record
      | none => record

/-- What a history says about the uploads under an id. -/
def uploadRecord (id : UInt32) (trace : List Effect) : UploadRecord :=
  trace.foldl (UploadRecord.after id) {}

/-- The last request accepted under an id, and the blocks with it since. -/
def ownUpload (id : UInt32) (trace : List Effect) :
    Option (FileUploadReqMsg × Bytes) :=
  (uploadRecord id trace).accepted

section Records

variable {sha256 : Bytes → Hash256}
variable {setup : SessionSetup}
variable {ctx : SessionContext}
variable {out : Outside}
variable {loop : LoopState}
variable {m : Message}
variable {id : UInt32}
variable {trace effects : List Effect}

theorem uploadRecord_append
    (id : UInt32)
    (earlier later : List Effect) :
    uploadRecord id (earlier ++ later) =
      later.foldl (UploadRecord.after id) (uploadRecord id earlier) :=
  List.foldl_append

/-- A record stays as it is while nothing comes in and nothing is accepted. -/
theorem UploadRecord.foldl_still
    (record : UploadRecord)
    (unreceived : ∀ effect ∈ effects, receivedMessage effect = none)
    (unaccepted :
      ∀ effect ∈ effects, acceptedId effect ≠ some id ∨ record.asked = none) :
    effects.foldl (UploadRecord.after id) record = record := by
  induction effects with
  | nil =>
      rfl
  | cons effect rest inductionHypothesis =>
      have still : record.after id effect = record := by
        have notReceived := unreceived effect List.mem_cons_self
        have notAccepted := unaccepted effect List.mem_cons_self
        cases effect with
        | received m =>
            cases notReceived
        | _ =>
            simp only [UploadRecord.after]
            split
            · next asked =>
                have other := notAccepted.resolve_right (by simp [asked])
                rw [if_neg other]
            · rfl
      rw [List.foldl_cons, still]
      apply inductionHypothesis
      · exact fun other member => unreceived other (List.mem_cons_of_mem _ member)
      · exact fun other member => unaccepted other (List.mem_cons_of_mem _ member)

/-- An upload follows the request that it answers and the blocks for it. -/
structure UploadState.Follows
    (st : UploadState)
    (entry : FileUploadReqMsg × Bytes) : Prop where
  fed : st.hasher.fed = entry.2
  expected : st.expected = entry.1.size
  declared : st.declared = entry.1.sha256
  received : st.received = UInt64.ofNat entry.2.length

/-- Every open upload follows the record of its id. -/
def Chronicle
    (trace : List Effect)
    (uploads : UInt32 → Option UploadState) : Prop :=
  ∀ id st,
    uploads id = some st →
    ∃ entry, ownUpload id trace = some entry ∧ st.Follows entry

/-- A block goes to the upload and to its record. -/
theorem UploadState.Follows.block
    {st : UploadState}
    {entry : FileUploadReqMsg × Bytes}
    (follows : st.Follows entry)
    (data : Bytes)
    (flush : Flush) :
    (st.block data flush).Follows (entry.1, entry.2 ++ data) where
  fed := congrArg (· ++ data) follows.fed
  expected := follows.expected
  declared := follows.declared
  received := by
    rw [List.length_append, UInt64.ofNat_add, ← follows.received]
    rfl

/-- Effects that take in and accept nothing leave the record as it is. -/
theorem ownUpload_still
    (trace : List Effect)
    (unreceived : ∀ effect ∈ effects, receivedMessage effect = none)
    (unaccepted :
      ∀ effect ∈ effects,
        acceptedId effect ≠ some id ∨ (uploadRecord id trace).asked = none) :
    uploadRecord id (trace ++ effects) = uploadRecord id trace := by
  rw [uploadRecord_append]
  exact UploadRecord.foldl_still _ unreceived unaccepted

/-- A message brings in data for one upload at most. -/
theorem ownUpload_received
    {entry : FileUploadReqMsg × Bytes}
    (own : ownUpload id trace = some entry)
    (m : Message) :
    ownUpload id (trace ++ [.received m]) =
      some (entry.1, entry.2 ++ blockOf id (.received m)) := by
  have recorded : (uploadRecord id trace).accepted = some entry := own
  rw [ownUpload, uploadRecord_append]
  simp [UploadRecord.after, recorded]

/-- What a turn adds to the record of an upload if it accepts none under its id. -/
theorem ownUpload_handled
    {entry : FileUploadReqMsg × Bytes}
    (own : ownUpload id trace = some entry)
    (unreceived : ∀ effect ∈ effects, receivedMessage effect = none)
    (unaccepted :
      ∀ effect ∈ effects,
        acceptedId effect ≠ some id ∨ m.op ≠ .known .fileUploadReq) :
    ownUpload id (trace ++ [.received m] ++ effects) =
      some (entry.1, entry.2 ++ blockOf id (.received m)) := by
  rw [ownUpload, ownUpload_still _ unreceived]
  · exact ownUpload_received own m
  · intro effect member
    rcases unaccepted effect member with other | noRequest
    · exact .inl other
    · apply Or.inr
      rw [uploadRecord_append]
      simp [UploadRecord.after, noRequest]

/-- A message that is no block of an open upload brings it no data. -/
theorem blockOf_unblocked
    {st : UploadState}
    (unblocked : Unblocked loop m)
    (found : loop.uploads[id]? = some st) :
    blockOf id (.received m) = [] := by
  simp only [blockOf]
  split
  · next isBlock =>
      split
      · next blk decoded =>
          have other : blk.transferId ≠ id := by
            intro same
            have absent := unblocked blk isBlock decoded
            rw [same, found] at absent
            cases absent
          rw [if_neg other]
      · rfl
  · rfl

/-- The data that a block brings in. -/
theorem blockOf_block
    {blk : FileBlockMsg}
    (op : m.op = .known .fileBlock)
    (decoded : FileBlockMsg.decode m.payload = .ok blk)
    (id : UInt32) :
    blockOf id (.received m) = if blk.transferId = id then blk.data else [] := by
  simp [blockOf, op, decoded]

/-- The effects of a completion take in and accept nothing. -/
theorem finishUpload_unrecorded
    (id : UInt32)
    (st : UploadState) :
    ∀ effect ∈ finishUpload sha256 setup ctx out id st,
      receivedMessage effect = none ∧ acceptedId effect = none := by
  obtain ⟨before, status, action, target, result, detail, shape, inert, _⟩ :=
    finishUpload_cases sha256 setup ctx out id st
  intro effect member
  rw [shape] at member
  rcases List.mem_append.mp member with isBefore | isVerdict
  · exact ⟨(inert effect isBefore).2, (inert effect isBefore).1.1⟩
  · rcases List.mem_append.mp isVerdict with isReply | isRow
    · rw [reply_eq, List.mem_singleton] at isReply
      rw [isReply]
      exact ⟨rfl, rfl⟩
    · rw [List.mem_singleton.mp isRow]
      exact ⟨rfl, rfl⟩

/-- Each message keeps the uploads and their records together. -/
theorem Chronicle.deals
    {outcome : Outcome}
    (chronicle : Chronicle trace fun id => loop.uploads[id]?)
    (deals : Deals sha256 setup ctx out loop m outcome) :
    Chronicle (trace ++ .received m :: outcome.effects)
      fun id => outcome.loop.uploads[id]? := by
  intro id st found
  rw [List.append_cons]
  -- Only a request can start a record, and only a block can add to it.
  have kept :
      ∀ {effects : List Effect},
        Unblocked loop m →
        loop.uploads[id]? = some st →
        (∀ effect ∈ effects, receivedMessage effect = none) →
        (∀ effect ∈ effects,
          acceptedId effect ≠ some id ∨ m.op ≠ .known .fileUploadReq) →
        ∃ entry,
          ownUpload id (trace ++ [.received m] ++ effects) = some entry ∧
            st.Follows entry := by
    intro effects unblocked isOpen unreceived unaccepted
    obtain ⟨entry, own, follows⟩ := chronicle id st isOpen
    have still := ownUpload_handled (m := m) own unreceived unaccepted
    rw [blockOf_unblocked unblocked isOpen, List.append_nil] at still
    exact ⟨entry, still, follows⟩
  cases deals with
  | aside uploads only accepts unblocked uncompleted =>
      rw [uploads] at found
      apply kept unblocked found
      · exact fun effect member => (only effect member).unreceived
      · intro effect member
        exact (accepts effect member).imp_left fun unaccepted => by
          simp [unaccepted]
  | @begun req dest permitted op decoded resolved opened =>
      obtain ⟨directories, replaced, ok, effects, isDirectory, isReplaced⟩ :=
        beginUpload_changes loop req dest opened
      have opening :
          ∀ effect ∈ directories ++
              [.openTrunc (dest ++ ascii ".part") true] ++ replaced,
            receivedMessage effect = none ∧ acceptedId effect = none := by
        intro effect member
        rcases List.mem_append.mp member with isFirst | isClose
        · rcases List.mem_append.mp isFirst with isDir | isOpen
          · exact ⟨(isDirectory effect isDir).1.unreceived,
              (isDirectory effect isDir).2⟩
          · rw [List.mem_singleton.mp isOpen]
            exact ⟨rfl, rfl⟩
        · obtain ⟨old, flushed, _, isEffect⟩ := isReplaced effect isClose
          have inert := inert_close old.out flushed effect isEffect
          exact ⟨inert.2, inert.1.1⟩
      have announced := acceptedId_send { transferId := loop.nextTransferId } ok
      rw [beginUpload_uploads loop req dest opened] at found
      rw [effects]
      dsimp only at found
      by_cases same : id = loop.nextTransferId
      · subst same
        rw [Std.TreeMap.getElem?_insert_self, Option.some.injEq] at found
        subst found
        refine ⟨(req, []), ?_, ⟨rfl, rfl, rfl, rfl⟩⟩
        have asked :
            (uploadRecord loop.nextTransferId
              (trace ++ [.received m])).asked = some req := by
          rw [uploadRecord_append]
          simp [UploadRecord.after, op, decoded, Except.toOption]
        have still :
            uploadRecord loop.nextTransferId
                (trace ++ [.received m] ++
                  (directories ++ [.openTrunc (dest ++ ascii ".part") true] ++
                    replaced)) =
              uploadRecord loop.nextTransferId (trace ++ [.received m]) := by
          apply ownUpload_still
          · exact fun effect member => (opening effect member).1
          · exact fun effect member => .inl (by simp [(opening effect member).2])
        rw [ownUpload, ← List.append_assoc, uploadRecord_append, still]
        simp only [List.foldl_cons, List.foldl_nil, UploadRecord.after, asked]
        rw [if_pos announced]
      · rw [uploads_insert_other _ same] at found
        apply kept (by simp [Unblocked, op]) found
        · intro effect member
          rcases List.mem_append.mp member with isOpening | isAnswer
          · exact (opening effect isOpening).1
          · rw [List.mem_singleton.mp isAnswer]
            rfl
        · intro effect member
          apply Or.inl
          rcases List.mem_append.mp member with isOpening | isAnswer
          · simp [(opening effect isOpening).2]
          · rw [List.mem_singleton.mp isAnswer, announced]
            exact fun isSame => same (Option.some.inj isSame).symm
  | @block blk old op decoded isOpen =>
      have unreceived :
          ∀ effect ∈ (old.out.write blk.data out.flush).2,
            receivedMessage effect = none :=
        fun effect member => (inert_write _ _ _ effect member).2
      have noRequest : m.op ≠ .known .fileUploadReq := by
        simp [op]
      have data := blockOf_block op decoded id
      dsimp only at found
      by_cases same : id = blk.transferId
      · subst same
        rw [Std.TreeMap.getElem?_insert_self, Option.some.injEq] at found
        subst found
        obtain ⟨entry, own, follows⟩ := chronicle _ old isOpen
        refine ⟨_, ownUpload_handled own unreceived fun _ _ => .inr noRequest, ?_⟩
        rw [data, if_pos rfl]
        exact follows.block blk.data out.flush
      · rw [uploads_insert_other _ same] at found
        obtain ⟨entry, own, follows⟩ := chronicle id st found
        refine ⟨_, ownUpload_handled own unreceived fun _ _ => .inr noRequest, ?_⟩
        rw [data, if_neg (Ne.symm same), List.append_nil]
        exact follows
  | @complete doneId done op decoded isOpen =>
      dsimp only at found
      rw [uploads_erase] at found
      split at found
      · cases found
      · apply kept (by simp [Unblocked, op]) found
        · exact fun effect member =>
            (finishUpload_unrecorded doneId done effect member).1
        · exact fun _ _ => .inr (by simp [op])
  | @deleted target rest op permitted requested only =>
      apply kept (by simp [Unblocked, op]) found
      · intro effect member
        rcases List.mem_cons.mp member with rfl | isRest
        · rfl
        · exact (only effect isRest).1.unreceived
      · exact fun _ _ => .inr (by simp [op])
  | @moved src dst rest op permitted srcRequested dstRequested only =>
      apply kept (by simp [Unblocked, op]) found
      · intro effect member
        rcases List.mem_cons.mp member with rfl | isRest
        · rfl
        · exact (only effect isRest).1.unreceived
      · exact fun _ _ => .inr (by simp [op])

/-- Each turn keeps the uploads of its session and their records together. -/
theorem chronicle_step
    (sha256 : Bytes → Hash256)
    (setup : SessionSetup)
    (session : Session)
    (turn : Turn)
    (chronicle : Chronicle session.trace session.phase.upload?) :
    Chronicle (session.step sha256 setup turn).trace
      (session.step sha256 setup turn).phase.upload? := by
  obtain ⟨phase, trace⟩ := session
  have inverted := turn_uploadTurn sha256 setup phase turn
  rw [Session.step]
  dsimp only at chronicle ⊢
  generalize phase.turn sha256 setup turn = result at inverted ⊢
  -- The end of a turn leaves the open uploads and their records alone.
  have ended :
      ∀ {ctx : SessionContext} {map : Uploads} {trace rest : List Effect}
        {next : SessionPhase},
        (Chronicle trace fun id => map[id]?) →
        Ends ctx turn.outside map next rest →
        Chronicle (trace ++ rest) next.upload? := by
    intro ctx map trace rest next before ends id st found
    cases ends with
    | @live loop rest kept only =>
        have isOpen : map[id]? = some st := by
          rw [← kept]
          exact found
        obtain ⟨entry, own, follows⟩ := before id st isOpen
        refine ⟨entry, ?_, follows⟩
        rw [ownUpload, ownUpload_still]
        · exact own
        · exact fun effect member => (only effect member).1.unreceived
        · exact fun effect member => .inl (by simp [(only effect member).2])
    | closed onlyShown onlyEnding =>
        cases found
  cases inverted with
  | outside notLive cleared only =>
      intro id st found
      rw [cleared] at found
      cases found
  | unread live noMessage ends =>
      subst live
      exact ended chronicle ends
  | handled live running read isHandled deals ends =>
      subst live
      have handled := Chronicle.deals chronicle deals
      rw [← List.cons_append, ← List.append_assoc]
      exact ended handled ends
  | threw live running read failed =>
      intro id st found
      cases found

end Records

end RadminPro
