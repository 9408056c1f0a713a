import RadminPro.SocketTransport
import RadminPro.StepRuns
import Mathlib.Logic.Function.Basic

namespace RadminPro.SharedWriters

open SocketTransport

/-!
# Writers that share a transport

Any number of threads call `writeMessage` on one transport.  Their steps
interleave at every call of the TLS library, but the bytes of a frame go out
under `writeMu_`, so the stream is the frames in the order of the lock.
-/

/-- What a thread is doing. -/
inductive WritePhase where
  | idle
  /-- The frame is built; the thread waits for `writeMu_`. -/
  | locking (m : Message)
  /-- In `writeAll` with the lock, so much of the frame is left. -/
  | writing (rest : Bytes)
  deriving DecidableEq

/-- A transport and the threads that write to it. -/
structure Shared (Thread : Type) where
  /-- The messages each thread still has to write. -/
  todo : Thread → List Message
  phase : Thread → WritePhase := fun _ => .idle
  /-- Who holds `writeMu_`. -/
  holder : Option Thread := none
  emitted : Bytes := []
  /-- A fatal error ends the connection. -/
  broken : Bool := false
  /-- The messages in the order in which their writers took the lock. -/
  order : List (Thread × Message) := []
  /-- What the calls returned. -/
  answers : List (Thread × Bool) := []

/-- One step of one thread. -/
inductive WriterEvent (Thread : Type) where
  /-- Enter `writeMessage` with the next message. -/
  | call (thread : Thread)
  | lock (thread : Thread)
  /-- One turn of the loop in `writeAll`, or its end. -/
  | turn (thread : Thread) (result : SslResult)

section System

variable {Thread : Type} [DecidableEq Thread]

/-- Replace what a thread is doing. -/
def Shared.enter (shared : Shared Thread) (thread : Thread) (phase : WritePhase) :
    Shared Thread :=
  { shared with phase := Function.update shared.phase thread phase }

/-- Release the lock and return to the caller. -/
def Shared.leave (shared : Shared Thread) (thread : Thread) (answer : Bool) :
    Shared Thread :=
  { shared.enter thread .idle with
    holder := none
    answers := shared.answers ++ [(thread, answer)] }

/-- A step that its thread cannot take changes nothing. -/
def step (shared : Shared Thread) : WriterEvent Thread → Shared Thread
  | .call thread =>
      match shared.phase thread, shared.todo thread with
      | .idle, m :: rest =>
          let called :=
            { shared with todo := Function.update shared.todo thread rest }
          if 1 + m.payload.length > kMaxMessageSize then
            { called with answers := shared.answers ++ [(thread, false)] }
          else
            called.enter thread (.locking m)
      | _, _ => shared
  | .lock thread =>
      match shared.phase thread, shared.holder with
      | .locking m, none =>
          { shared.enter thread (.writing (frameOf m)) with
            holder := some thread
            order := shared.order ++ [(thread, m)] }
      | _, _ => shared
  | .turn thread result =>
      match shared.phase thread with
      | .writing [] => shared.leave thread true
      | .writing (byte :: rest) =>
          match if shared.broken then none else writeTurn result (byte :: rest) with
          | none => { shared.leave thread false with broken := true }
          | some (piece, left) =>
              { shared.enter thread (.writing left) with
                emitted := shared.emitted ++ piece }
      | _ => shared

/-- No thread has written anything. -/
def start (programs : Thread → List Message) : Shared Thread where
  todo := programs

/-! ## The stream is the frames in lock order -/

/-- The message a thread has called with and not yet put in order. -/
def inHand : WritePhase → List Message
  | .locking m => [m]
  | .idle => []
  | .writing _ => []

/-- The messages of a list that fit a frame. -/
def fitting (messages : List Message) : List Message :=
  messages.filter fun m => 1 + m.payload.length ≤ kMaxMessageSize

/-- What one thread has put in order. -/
def ordered (shared : Shared Thread) (thread : Thread) : List Message :=
  (shared.order.filter fun entry => entry.1 = thread).map Prod.snd

/-- The messages in lock order. -/
def sent (shared : Shared Thread) : List Message :=
  shared.order.map Prod.snd

/-- What holds after every step. -/
structure Framed (programs : Thread → List Message) (shared : Shared Thread) : Prop where
  exclusive : ∀ thread rest,
    shared.phase thread = .writing rest → shared.holder = some thread
  held : ∀ thread,
    shared.holder = some thread → ∃ rest, shared.phase thread = .writing rest
  stream :
    ∃ unsent,
      BlockStream.stream frameOf (sent shared) = shared.emitted ++ unsent ∧
        (shared.broken = false →
          (shared.holder = none → unsent = []) ∧
            ∀ thread rest, shared.phase thread = .writing rest → unsent = rest)
  fit : ∀ m ∈ sent shared, FitsFrame m
  called : ∀ thread m, shared.phase thread = .locking m → FitsFrame m
  program : ∀ thread,
    ordered shared thread ++ inHand (shared.phase thread) ++
        fitting (shared.todo thread) =
      fitting (programs thread)

/-! ## What a step can do -/

@[simp] theorem enter_phase_self (shared : Shared Thread) (thread : Thread) (phase : WritePhase) :
    (shared.enter thread phase).phase thread = phase := by
  simp [Shared.enter]

@[simp] theorem enter_phase_other
    {thread other : Thread}
    (differs : other ≠ thread)
    (shared : Shared Thread)
    (phase : WritePhase) :
    (shared.enter thread phase).phase other = shared.phase other := by
  simp [Shared.enter, differs]

/-- A turn that does not fail splits what is left to write. -/
theorem writeTurn_split
    {result : SslResult}
    {rest piece left : Bytes}
    (turned : writeTurn result rest = some (piece, left)) :
    piece ++ left = rest := by
  cases result with
  | moved more =>
      obtain ⟨rfl, rfl⟩ : rest.take (more + 1) = piece ∧ rest.drop (more + 1) = left := by
        simpa [writeTurn] using turned
      exact List.take_append_drop _ _
  | wantRead =>
      obtain ⟨rfl, rfl⟩ : piece = [] ∧ rest = left := by
        simpa [writeTurn, eq_comm] using turned
      rfl
  | wantWrite =>
      obtain ⟨rfl, rfl⟩ : piece = [] ∧ rest = left := by
        simpa [writeTurn, eq_comm] using turned
      rfl
  | failed =>
      cases turned

/-- The steps of the threads. -/
inductive Takes (shared : Shared Thread) : Shared Thread → Prop where
  | stays : Takes shared shared
  | refused
      (thread : Thread)
      (m : Message)
      (rest : List Message)
      (next : shared.todo thread = m :: rest)
      (large : kMaxMessageSize < 1 + m.payload.length) :
      Takes shared
        { shared with
          todo := Function.update shared.todo thread rest
          answers := shared.answers ++ [(thread, false)] }
  | called
      (thread : Thread)
      (m : Message)
      (rest : List Message)
      (idle : shared.phase thread = .idle)
      (next : shared.todo thread = m :: rest)
      (fits : FitsFrame m) :
      Takes shared
        ({ shared with
            todo := Function.update shared.todo thread rest }.enter thread
          (.locking m))
  | locked
      (thread : Thread)
      (m : Message)
      (locking : shared.phase thread = .locking m)
      (free : shared.holder = none) :
      Takes shared
        { shared.enter thread (.writing (frameOf m)) with
          holder := some thread
          order := shared.order ++ [(thread, m)] }
  | finished
      (thread : Thread)
      (writing : shared.phase thread = .writing []) :
      Takes shared (shared.leave thread true)
  | failed
      (thread : Thread)
      (rest : Bytes)
      (writing : shared.phase thread = .writing rest) :
      Takes shared { shared.leave thread false with broken := true }
  | wrote
      (thread : Thread)
      (piece left : Bytes)
      (writing : shared.phase thread = .writing (piece ++ left))
      (working : shared.broken = false) :
      Takes shared
        { shared.enter thread (.writing left) with
          emitted := shared.emitted ++ piece }

/-- Every step is one of these. -/
theorem step_takes
    (shared : Shared Thread)
    (event : WriterEvent Thread) :
    Takes shared (step shared event) := by
  cases event with
  | call thread =>
      simp only [step]
      split
      · next m rest idle next =>
          split
          · next large =>
              exact .refused thread m rest next large
          · next small =>
              exact .called thread m rest idle next (Nat.le_of_not_lt small)
      · exact .stays
  | lock thread =>
      simp only [step]
      split
      · next m locking free =>
          exact .locked thread m locking free
      · exact .stays
  | turn thread result =>
      simp only [step]
      split
      · next writing =>
          exact .finished thread writing
      · next byte rest writing =>
          split
          · exact .failed thread (byte :: rest) writing
          · next piece left turned =>
              have working : shared.broken = false := by
                by_contra isBroken
                simp [isBroken] at turned
              have split : piece ++ left = byte :: rest := by
                apply writeTurn_split
                simpa [working] using turned
              exact .wrote thread piece left (by rw [split]; exact writing)
                working
      · exact .stays

/-! ## Every step keeps the stream framed -/

/-- A fresh transport is framed. -/
theorem framed_start
    (programs : Thread → List Message) :
    Framed programs (start programs) where
  exclusive thread rest writing := by
    cases writing
  held thread holds := by
    cases holds
  stream := ⟨[], rfl, fun _ => ⟨fun _ => rfl, fun _ _ writing => by cases writing⟩⟩
  fit m member := by
    cases member
  called thread m locking := by
    cases locking
  program thread :=
    rfl

/-- A thread that enters a phase without writing does not touch the stream. -/
theorem Framed.enter_idle
    {programs : Thread → List Message}
    {shared : Shared Thread}
    (framed : Framed programs shared)
    {thread : Thread}
    {phase : WritePhase}
    (notWriting : ∀ rest, shared.phase thread ≠ .writing rest)
    (stillNot : ∀ rest, phase ≠ .writing rest)
    (todo : Thread → List Message)
    (fits : ∀ m, phase = .locking m → FitsFrame m)
    (program : ∀ other,
      ordered shared other ++
            inHand (Function.update shared.phase thread phase other) ++
          fitting (todo other) =
        fitting (programs other)) :
    Framed programs ({ shared with todo := todo }.enter thread phase) := by
  have sameWriters : ∀ other rest,
      Function.update shared.phase thread phase other = .writing rest ↔
        shared.phase other = .writing rest := by
    intro other rest
    by_cases same : other = thread
    · subst same
      simp [stillNot rest, notWriting rest]
    · simp [same]
  obtain ⟨unsent, shape, pending⟩ := framed.stream
  constructor
  · intro other rest writing
    exact framed.exclusive other rest ((sameWriters other rest).mp writing)
  · intro other holds
    obtain ⟨rest, writing⟩ := framed.held other holds
    exact ⟨rest, (sameWriters other rest).mpr writing⟩
  · refine ⟨unsent, shape, ?_⟩
    intro working
    obtain ⟨whenFree, whenWriting⟩ := pending working
    refine ⟨whenFree, ?_⟩
    intro other rest writing
    exact whenWriting other rest ((sameWriters other rest).mp writing)
  · exact framed.fit
  · intro other m locking
    by_cases same : other = thread
    · subst same
      exact fits m (by simpa [Shared.enter] using locking)
    · exact framed.called other m (by simpa [Shared.enter, same] using locking)
  · exact program

/-- What a thread finishes with leaves the stream as it is. -/
theorem Framed.leave
    {programs : Thread → List Message}
    {shared : Shared Thread}
    (framed : Framed programs shared)
    {thread : Thread}
    {rest : Bytes}
    (writing : shared.phase thread = .writing rest)
    (answer broken : Bool)
    (worked : broken = false → shared.broken = false ∧ rest = []) :
    Framed programs { shared.leave thread answer with broken := broken } := by
  have held := framed.exclusive thread rest writing
  have noWriter : ∀ other left,
      Function.update shared.phase thread .idle other ≠ .writing left := by
    intro other left stillWriting
    by_cases same : other = thread
    · subst same
      simp at stillWriting
    · have alsoHeld :=
        framed.exclusive other left (by simpa [same] using stillWriting)
      rw [held] at alsoHeld
      exact same (Option.some.inj alsoHeld).symm
  obtain ⟨unsent, shape, pending⟩ := framed.stream
  constructor
  · intro other left stillWriting
    exact absurd stillWriting (noWriter other left)
  · intro other holds
    cases holds
  · refine ⟨unsent, shape, ?_⟩
    intro working
    obtain ⟨wasWorking, nothingLeft⟩ := worked working
    refine ⟨fun _ => ?_, fun other left stillWriting =>
      absurd stillWriting (noWriter other left)⟩
    rw [(pending wasWorking).2 thread rest writing, nothingLeft]
  · exact framed.fit
  · intro other m locking
    by_cases same : other = thread
    · subst same
      simp [Shared.leave, Shared.enter] at locking
    · exact framed.called other m
        (by simpa [Shared.leave, Shared.enter, same] using locking)
  · intro other
    have before := framed.program other
    by_cases same : other = thread
    · subst same
      simpa [Shared.leave, Shared.enter, ordered, writing, inHand] using before
    · simpa [Shared.leave, Shared.enter, ordered, same] using before

/-- Every step keeps the stream framed. -/
theorem Framed.step
    {programs : Thread → List Message}
    {shared : Shared Thread}
    (framed : Framed programs shared)
    (event : WriterEvent Thread) :
    Framed programs (step shared event) := by
  have takes := step_takes shared event
  generalize SharedWriters.step shared event = after at takes ⊢
  cases takes with
  | stays =>
      exact framed
  | refused thread m rest next large =>
      refine ⟨framed.exclusive, framed.held, framed.stream, framed.fit,
        framed.called, ?_⟩
      intro other
      have before := framed.program other
      by_cases same : other = thread
      · subst same
        have tooLarge : ¬1 + m.payload.length ≤ kMaxMessageSize :=
          Nat.not_le_of_lt large
        simpa [ordered, fitting, next, tooLarge] using before
      · simpa [ordered, same] using before
  | called thread m rest idle next fits =>
      apply framed.enter_idle
      · intro left writing
        rw [idle] at writing
        cases writing
      · intro left writing
        cases writing
      · rintro other ⟨⟩
        exact fits
      · intro other
        have before := framed.program other
        by_cases same : other = thread
        · subst same
          have small : 1 + m.payload.length ≤ kMaxMessageSize := fits
          simpa [idle, inHand, fitting, next, small] using before
        · simpa [same] using before
  | locked thread m locking free =>
      obtain ⟨unsent, shape, pending⟩ := framed.stream
      have noWriter : ∀ other rest, shared.phase other ≠ .writing rest := by
        intro other rest writing
        have held := framed.exclusive other rest writing
        rw [free] at held
        cases held
      constructor
      · intro other rest writing
        by_cases same : other = thread
        · rw [same]
        · exact absurd (by simpa [Shared.enter, same] using writing)
            (noWriter other rest)
      · intro other holds
        obtain rfl : thread = other := Option.some.inj holds
        exact ⟨frameOf m, by simp [Shared.enter]⟩
      · refine ⟨unsent ++ frameOf m, ?_, ?_⟩
        · simp only [sent] at shape ⊢
          rw [List.map_append, BlockStream.stream_append, shape]
          simp [Shared.enter]
        · intro working
          have nothing := (pending working).1 free
          refine ⟨fun noHolder => (by cases noHolder), ?_⟩
          intro other rest writing
          by_cases same : other = thread
          · subst same
            have isFrame : frameOf m = rest := by
              simpa [Shared.enter] using writing
            simp [nothing, isFrame]
          · exact absurd (by simpa [Shared.enter, same] using writing)
              (noWriter other rest)
      · intro other member
        have fits := framed.called thread m locking
        have inOrder : other ∈ sent shared ∨ other = m := by
          simpa [sent] using member
        rcases inOrder with earlier | rfl
        · exact framed.fit other earlier
        · exact fits
      · intro other next nextLocking
        by_cases same : other = thread
        · subst same
          simp [Shared.enter] at nextLocking
        · exact framed.called other next
            (by simpa [Shared.enter, same] using nextLocking)
      · intro other
        have before := framed.program other
        by_cases same : other = thread
        · subst same
          simpa [Shared.enter, ordered, inHand, locking] using before
        · have others : thread ≠ other := fun equal => same equal.symm
          simpa [Shared.enter, ordered, same, others] using before
  | finished thread writing =>
      exact framed.leave writing true shared.broken fun working =>
        ⟨working, rfl⟩
  | failed thread rest writing =>
      exact framed.leave writing false true (by simp)
  | wrote thread piece left writing working =>
      obtain ⟨unsent, shape, pending⟩ := framed.stream
      have isUnsent := (pending working).2 thread (piece ++ left) writing
      have held := framed.exclusive thread (piece ++ left) writing
      have onlyWriter : ∀ other rest,
          shared.phase other = .writing rest → other = thread := by
        intro other rest alsoWriting
        have alsoHeld := framed.exclusive other rest alsoWriting
        rw [held] at alsoHeld
        exact (Option.some.inj alsoHeld).symm
      constructor
      · intro other rest stillWriting
        by_cases same : other = thread
        · subst same
          exact held
        · exact framed.exclusive other rest
            (by simpa [Shared.enter, same] using stillWriting)
      · intro other holds
        obtain rfl : thread = other := Option.some.inj (held.symm.trans holds)
        exact ⟨left, by simp [Shared.enter]⟩
      · refine ⟨left, ?_, ?_⟩
        · simp only [sent] at shape ⊢
          simp [Shared.enter, shape, isUnsent]
        · intro _
          refine ⟨fun noHolder => ?_, ?_⟩
          · exact absurd (held.symm.trans noHolder) (by simp)
          · intro other rest stillWriting
            by_cases same : other = thread
            · subst same
              simpa [Shared.enter] using stillWriting
            · exact absurd
                (onlyWriter other rest
                  (by simpa [Shared.enter, same] using stillWriting)) same
      · exact framed.fit
      · intro other m locking
        by_cases same : other = thread
        · subst same
          simp [Shared.enter] at locking
        · exact framed.called other m
            (by simpa [Shared.enter, same] using locking)
      · intro other
        have before := framed.program other
        by_cases same : other = thread
        · subst same
          simpa [Shared.enter, ordered, inHand, writing] using before
        · simpa [Shared.enter, ordered, same] using before

/-- Every run keeps the stream framed. -/
theorem run_framed
    (programs : Thread → List Message)
    (events : List (WriterEvent Thread)) :
    Framed programs (StepRuns.run step (start programs) events) := by
  have preserved : ∀ (shared : Shared Thread) (event : WriterEvent Thread),
      Framed programs shared → Framed programs (step shared event) :=
    fun _ event framed => framed.step event
  exact StepRuns.run_invariant (Framed programs) preserved
    (framed_start programs) events

/-! ## One critical section -/

/-- A thread that is not writing takes no turns. -/
theorem run_turns_idle
    {shared : Shared Thread}
    {thread : Thread}
    (idle : shared.phase thread = .idle)
    (results : List SslResult) :
    StepRuns.run step shared (results.map (WriterEvent.turn thread)) = shared := by
  induction results with
  | nil =>
      rfl
  | cons result rest inductionHypothesis =>
      have stays : step shared (.turn thread result) = shared := by
        simp [step, idle]
      simpa [stays] using inductionHypothesis

/-- The turns of a thread that holds the lock write what `writeAll` writes. -/
theorem run_turns_writeAll
    {shared : Shared Thread}
    {thread : Thread}
    {rest : Bytes}
    (writing : shared.phase thread = .writing rest)
    (working : shared.broken = false)
    (results : List SslResult) :
    (StepRuns.run step shared
        (results.map (WriterEvent.turn thread))).emitted =
      shared.emitted ++ (writeAll results rest).1 := by
  induction results generalizing shared rest with
  | nil =>
      cases rest <;> simp [writeAll]
  | cons result later inductionHypothesis =>
      rw [List.map_cons, StepRuns.run_cons]
      cases rest with
      | nil =>
          have ends :
              step shared (.turn thread result) = shared.leave thread true := by
            simp [step, writing]
          rw [ends, run_turns_idle (by simp [Shared.leave, Shared.enter])]
          simp [Shared.leave, Shared.enter, writeAll]
      | cons byte rest =>
          cases turned : writeTurn result (byte :: rest) with
          | none =>
              have fails :
                  step shared (.turn thread result) =
                    { shared.leave thread false with broken := true } := by
                simp [step, writing, working, turned]
              rw [fails, run_turns_idle (by simp [Shared.leave, Shared.enter])]
              simp [Shared.leave, Shared.enter, writeAll, turned]
          | some parts =>
              obtain ⟨piece, left⟩ := parts
              have writes :
                  step shared (.turn thread result) =
                    { shared.enter thread (.writing left) with
                      emitted := shared.emitted ++ piece } := by
                simp [step, writing, working, turned]
              rw [writes]
              have stillWriting :=
                enter_phase_self shared thread (.writing left)
              refine (inductionHypothesis (?_ : _ = WritePhase.writing left) ?_).trans ?_
              · exact stillWriting
              · exact working
              · simp [writeAll, turned]

/-- A call that nobody gets in the way of writes what `writeMessage` writes. -/
theorem run_call_writeMessage
    {shared : Shared Thread}
    {thread : Thread}
    {m : Message}
    {later : List Message}
    (idle : shared.phase thread = .idle)
    (next : shared.todo thread = m :: later)
    (free : shared.holder = none)
    (working : shared.broken = false)
    (results : List SslResult) :
    (StepRuns.run step shared
        (.call thread :: .lock thread ::
          results.map (WriterEvent.turn thread))).emitted =
      shared.emitted ++
        (SocketTransport.writeMessage results m.op m.payload).1 := by
  rw [StepRuns.run_cons, StepRuns.run_cons]
  by_cases large : 1 + m.payload.length > kMaxMessageSize
  · have refused :
        step shared (.call thread) =
          { shared with
            todo := Function.update shared.todo thread later
            answers := shared.answers ++ [(thread, false)] } := by
      simp only [step, idle, next, if_pos large]
    have stays :
        step (step shared (.call thread)) (.lock thread) =
          step shared (.call thread) := by
      rw [refused]
      simp only [step, idle]
    have stillIdle : (step shared (.call thread)).phase thread = .idle := by
      rw [refused]
      exact idle
    rw [stays, run_turns_idle stillIdle, refused]
    simp [SocketTransport.writeMessage, large]
  · let called : Shared Thread :=
      { shared with
        todo := Function.update shared.todo thread later }.enter thread
        (.locking m)
    have isCalled : step shared (.call thread) = called := by
      simp only [step, idle, next, if_neg large, called]
    have isLocked :
        step called (.lock thread) =
          { called.enter thread (.writing (frameOf m)) with
            holder := some thread
            order := shared.order ++ [(thread, m)] } := by
      simp [step, called, Shared.enter, free]
    have writing :
        (step called (.lock thread)).phase thread = .writing (frameOf m) := by
      rw [isLocked]
      exact enter_phase_self called thread _
    have stillWorking : (step called (.lock thread)).broken = false := by
      rw [isLocked]
      exact working
    have nothingYet : (step called (.lock thread)).emitted = shared.emitted := by
      rw [isLocked]
      rfl
    rw [isCalled, run_turns_writeAll writing stillWorking, nothingYet,
      SocketTransport.writeMessage, if_neg large]

/-! ## What arrives -/

/-- All calls have returned, and no error has ended the connection. -/
structure Finished (shared : Shared Thread) : Prop where
  working : shared.broken = false
  returned : ∀ thread, shared.phase thread = .idle ∧ shared.todo thread = []

/-- When all calls have returned, every frame is out. -/
theorem Framed.finished
    {programs : Thread → List Message}
    {shared : Shared Thread}
    (framed : Framed programs shared)
    (finished : Finished shared) :
    shared.emitted = BlockStream.stream frameOf (sent shared) ∧
      ∀ thread, ordered shared thread = fitting (programs thread) := by
  obtain ⟨unsent, shape, pending⟩ := framed.stream
  have free : shared.holder = none := by
    cases holder : shared.holder with
    | none =>
        rfl
    | some thread =>
        obtain ⟨rest, writing⟩ := framed.held thread holder
        rw [(finished.returned thread).1] at writing
        cases writing
  constructor
  · rw [shape, (pending finished.working).1 free, List.append_nil]
  · intro thread
    have program := framed.program thread
    rw [(finished.returned thread).1, (finished.returned thread).2] at program
    simpa [inHand, fitting] using program

/--
Whatever the threads write, wherever the stream is cut and however the reads
split it, the reader gets the messages whose frames arrived whole, once each and
in the order of the lock, and fails from then on.
-/
theorem framing_over_byte_stream
    (programs : Thread → List Message)
    (events : List (WriterEvent Thread))
    (incoming : Bytes)
    (cut :
      incoming <+: (StepRuns.run step (start programs) events).emitted)
    (out : Message)
    (calls : List ReadCall)
    (served : ∀ call ∈ calls, call.Served) :
    let shared := StepRuns.run step (start programs) events
    let answered := calls.filter fun call => call.readiness ≠ some .timeout
    (∃ complete rest,
      sent shared = complete ++ rest ∧
        BlockStream.stream frameOf complete <+: incoming ∧
        (∀ next ∈ rest.head?,
          incoming.length <
            (BlockStream.stream frameOf (complete ++ [next])).length) ∧
        (returned ⟨incoming, out⟩ calls).filter (· ≠ .timeout) =
          (complete.map Returned.message ++
              List.replicate answered.length Returned.closed).take
            answered.length ∧
        (Finished shared → incoming = shared.emitted → rest = [])) ∧
      (∀ thread,
        ordered shared thread <+: fitting (programs thread) ∧
          (Finished shared →
            ordered shared thread = fitting (programs thread))) ∧
      (∀ results lenBuf behind,
        SslResult.failed ∉ results →
          4 + kMaxMessageSize ≤ moves results →
            lenBuf.length = 4 →
              (ByteCodec.bigEndianValue lenBuf = 0 ∨
                  kMaxMessageSize < ByteCodec.bigEndianValue lenBuf) →
                readMessage results ⟨lenBuf ++ behind, out⟩ =
                  (.closed, ⟨behind, out⟩)) ∧
      ∀ results op payload,
        kMaxMessageSize < 1 + payload.length →
          SocketTransport.writeMessage results op payload = ([], .stopped) := by
  intro shared answered
  have framed : Framed programs shared := run_framed programs events
  obtain ⟨unsent, shape, _⟩ := framed.stream
  refine ⟨?_, ?_, ?_, ?_⟩
  · have isCut :
        incoming =
          (BlockStream.stream frameOf (sent shared)).take incoming.length := by
      apply List.prefix_iff_eq_take.mp
      rw [shape]
      exact cut.trans (List.prefix_append _ _)
    obtain ⟨rest, parts, begins, stops⟩ :=
      BlockStream.complete_maximal frameOf incoming.length (sent shared)
    refine ⟨_, rest, parts, ?_, stops, ?_, ?_⟩
    · rw [← isCut] at begins
      exact begins
    · have reads :=
        returned_stream framed.fit incoming.length out served
      rw [← isCut] at reads
      exact reads
    · intro finished isWhole
      have whole :
          (BlockStream.stream frameOf (sent shared)).length ≤ incoming.length := by
        rw [isWhole, (framed.finished finished).1]
      rw [BlockStream.complete_all frameOf whole] at parts
      exact List.append_right_eq_self.mp parts.symm
  · intro thread
    refine ⟨?_, fun finished => (framed.finished finished).2 thread⟩
    rw [← framed.program thread, List.append_assoc]
    exact List.prefix_append _ _
  · intro results lenBuf behind healthy moves width invalid
    exact readMessage_invalid_length healthy moves width invalid behind out
  · intro results op payload large
    simp [SocketTransport.writeMessage, large]

end System

/-- Both threads call; the second takes the lock first and writes in pieces. -/
def contendedWrites : List (WriterEvent Bool) :=
  [.call true, .call false, .lock false, .turn false (.moved 0), .lock true,
    .turn false .wantWrite, .turn false (.moved 9), .turn false .wantRead,
    .lock true, .turn true (.moved 99), .turn true .wantRead]

/-- Two threads, one message each: a ping and a farewell. -/
def contendedPrograms (thread : Bool) : List Message :=
  if thread then [⟨.known .ping, []⟩] else [⟨.known .bye, [7]⟩]

/-- The farewell took the lock first and arrives first. -/
theorem framing_over_byte_stream_contended :
    (returned
        ⟨(StepRuns.run step (start contendedPrograms) contendedWrites).emitted,
          ⟨.known .error, []⟩⟩
        (List.replicate 3
          ⟨some .ready, List.replicate (4 + kMaxMessageSize) (.moved 0)⟩)).filter
        (· ≠ .timeout) =
      [.message ⟨.known .bye, [7]⟩, .message ⟨.known .ping, []⟩, .closed] := by
  have served :
      ∀ call ∈ List.replicate 3
        (⟨some .ready, List.replicate (4 + kMaxMessageSize) (.moved 0)⟩ : ReadCall),
        call.Served := by
    intro call member
    rw [List.eq_of_mem_replicate member]
    have allMove :
        moves (List.replicate (4 + kMaxMessageSize) (.moved 0)) =
          4 + kMaxMessageSize := by
      rw [moves, List.countP_replicate]
      rfl
    exact ⟨by simp, by simp, allMove.ge⟩
  obtain ⟨⟨complete, rest, parts, _, _, answers, whole⟩, _⟩ :=
    framing_over_byte_stream contendedPrograms contendedWrites _
      (List.prefix_refl _) ⟨.known .error, []⟩ _ served
  have finished :
      Finished (StepRuns.run step (start contendedPrograms) contendedWrites) := by
    refine ⟨by decide, ?_⟩
    decide
  have inOrder :
      sent (StepRuns.run step (start contendedPrograms) contendedWrites) =
        [⟨.known .bye, [7]⟩, ⟨.known .ping, []⟩] := by
    decide
  rw [whole finished rfl, List.append_nil, inOrder] at parts
  rw [answers, ← parts]
  rfl

end RadminPro.SharedWriters
