import RadminPro.StepRuns

namespace RadminPro.FifoLink

/-!
# Two parties and two queues

Two parties send each other messages through two reliable queues.  A party's
next action depends on its own state only, and it waits while its queue is
empty.  A schedule says whose turn it is.  Moves of the two parties commute, so
that all schedules that let both move often enough end in the same state.
-/

/-- What a party does next. -/
inductive Action (Party Sent Received : Type) where
  | stop
  | go (sent : List Sent) (next : Party)
  | wait (receive : Received → Party)

/-- The two parties, and what is under way between them. -/
structure Link (Left Right ToRight ToLeft : Type) where
  left : Left
  right : Right
  toRight : List ToRight := []
  toLeft : List ToLeft := []

/-- Whose turn it is. -/
inductive Side where
  | left
  | right
  deriving DecidableEq

/-- One action of a party, with what it leaves in its queue and what it sends. -/
def advance
    {Party Sent Received : Type}
    (action : Party → Action Party Sent Received)
    (party : Party)
    (inbox : List Received) : Option (Party × List Received × List Sent) :=
  match action party with
  | .stop => none
  | .go sent next => some (next, inbox, sent)
  | .wait receive =>
      match inbox with
      | [] => none
      | m :: rest => some (receive m, rest, [])

/-- What arrives behind is no matter. -/
theorem advance_append
    {Party Sent Received : Type}
    {action : Party → Action Party Sent Received}
    {party next : Party}
    {inbox rest : List Received}
    {sent : List Sent}
    (advanced : advance action party inbox = some (next, rest, sent))
    (more : List Received) :
    advance action party (inbox ++ more) = some (next, rest ++ more, sent) := by
  unfold advance at advanced ⊢
  cases act : action party with
  | stop =>
      simp [act] at advanced
  | go sends after =>
      simp only [act, Option.some.injEq, Prod.mk.injEq] at advanced
      obtain ⟨rfl, rfl, rfl⟩ := advanced
      rfl
  | wait receive =>
      cases inbox with
      | nil =>
          simp [act] at advanced
      | cons m others =>
          simp only [act, Option.some.injEq, Prod.mk.injEq] at advanced
          obtain ⟨rfl, rfl, rfl⟩ := advanced
          rfl

section Moves

variable {Left Right ToRight ToLeft : Type}
variable (actLeft : Left → Action Left ToRight ToLeft)
variable (actRight : Right → Action Right ToLeft ToRight)

/-- The link after a move of one side, if that side can move. -/
def move (link : Link Left Right ToRight ToLeft) :
    Side → Option (Link Left Right ToRight ToLeft)
  | .left =>
      match advance actLeft link.left link.toLeft with
      | none => none
      | some (next, rest, sent) =>
          some
            { left := next
              right := link.right
              toRight := link.toRight ++ sent
              toLeft := rest }
  | .right =>
      match advance actRight link.right link.toRight with
      | none => none
      | some (next, rest, sent) =>
          some
            { left := link.left
              right := next
              toRight := rest
              toLeft := link.toLeft ++ sent }

/-- One turn; a side that cannot move lets it pass. -/
def step
    (link : Link Left Right ToRight ToLeft)
    (side : Side) : Link Left Right ToRight ToLeft :=
  (move actLeft actRight link side).getD link

/-- Neither side can move. -/
def Quiet (link : Link Left Right ToRight ToLeft) : Prop :=
  ∀ side, move actLeft actRight link side = none

/-- So many moves lead from one state to another. -/
inductive Leads :
    Nat → Link Left Right ToRight ToLeft → Link Left Right ToRight ToLeft →
      Prop where
  | refl (link : Link Left Right ToRight ToLeft) : Leads 0 link link
  | onward
      {count : Nat} {link next final : Link Left Right ToRight ToLeft}
      (side : Side)
      (moved : move actLeft actRight link side = some next)
      (rest : Leads count next final) :
      Leads (count + 1) link final

/--
All schedules lead to the same end: they never lead away from it, and they reach
it when both sides have had their turn often enough.
-/
structure Settles
    (start final : Link Left Right ToRight ToLeft)
    (count : Nat) : Prop where
  quiet : Quiet actLeft actRight final
  always :
    ∀ schedule, ∃ remaining ≤ count,
      Leads actLeft actRight remaining
        (StepRuns.run (step actLeft actRight) start schedule) final
  ends :
    ∀ rounds : List (List Side),
      (∀ round ∈ rounds, ∀ side, side ∈ round) →
      count ≤ rounds.length →
      StepRuns.run (step actLeft actRight) start rounds.flatten = final

/-- The right side moves some more, or not at all. -/
inductive Serves :
    Link Left Right ToRight ToLeft → Link Left Right ToRight ToLeft →
      Prop where
  | refl (link : Link Left Right ToRight ToLeft) : Serves link link
  | onward
      {link next final : Link Left Right ToRight ToLeft}
      (moved : move actLeft actRight link .right = some next)
      (rest : Serves next final) :
      Serves link final

/-- The right side can do nothing more. -/
def Idle (link : Link Left Right ToRight ToLeft) : Prop :=
  move actLeft actRight link .right = none

variable {actLeft actRight}
variable {link next final : Link Left Right ToRight ToLeft}

/-- Moves of the two sides commute. -/
theorem move_commutes
    {other : Link Left Right ToRight ToLeft}
    (movedLeft : move actLeft actRight link .left = some next)
    (movedRight : move actLeft actRight link .right = some other) :
    ∃ both,
      move actLeft actRight next .right = some both ∧
        move actLeft actRight other .left = some both := by
  cases leftAdvance : advance actLeft link.left link.toLeft with
  | none =>
      simp [move, leftAdvance] at movedLeft
  | some leftParts =>
      cases rightAdvance : advance actRight link.right link.toRight with
      | none =>
          simp [move, rightAdvance] at movedRight
      | some rightParts =>
          obtain ⟨left, inLeft, sentRight⟩ := leftParts
          obtain ⟨right, inRight, sentLeft⟩ := rightParts
          simp only [move, leftAdvance, Option.some.injEq] at movedLeft
          simp only [move, rightAdvance, Option.some.injEq] at movedRight
          subst movedLeft movedRight
          refine
            ⟨{ left, right
               toRight := inRight ++ sentRight
               toLeft := inLeft ++ sentLeft }, ?_, ?_⟩
          · simp [move, advance_append rightAdvance]
          · simp [move, advance_append leftAdvance]

/-- Any move is one of those that lead to a quiet end. -/
theorem Leads.after_move
    {count : Nat}
    (leads : Leads actLeft actRight count link final)
    (quiet : Quiet actLeft actRight final)
    {side : Side}
    (moved : move actLeft actRight link side = some next) :
    ∃ remaining,
      count = remaining + 1 ∧ Leads actLeft actRight remaining next final := by
  induction leads generalizing next with
  | refl link =>
      rw [quiet side] at moved
      cases moved
  | @onward count link first final mover firstMove rest inductionHypothesis =>
      by_cases same : mover = side
      · subst same
        rw [firstMove, Option.some.injEq] at moved
        subst moved
        exact ⟨count, rfl, rest⟩
      · -- The other side moved; its move is still possible afterwards.
        have joins :
            ∃ both,
              move actLeft actRight first side = some both ∧
                move actLeft actRight next mover = some both := by
          cases mover with
          | left =>
              cases side with
              | left =>
                  exact absurd rfl same
              | right =>
                  exact move_commutes firstMove moved
          | right =>
              cases side with
              | left =>
                  obtain ⟨both, afterNext, afterFirst⟩ :=
                    move_commutes moved firstMove
                  exact ⟨both, afterFirst, afterNext⟩
              | right =>
                  exact absurd rfl same
        obtain ⟨both, fromFirst, fromNext⟩ := joins
        obtain ⟨remaining, rfl, restLeads⟩ :=
          inductionHypothesis quiet fromFirst
        exact ⟨remaining + 1, rfl, .onward mover fromNext restLeads⟩

/-- A turn takes a link no further from a quiet end. -/
theorem Leads.after_step
    {count : Nat}
    (leads : Leads actLeft actRight count link final)
    (quiet : Quiet actLeft actRight final)
    (side : Side) :
    ∃ remaining ≤ count,
      Leads actLeft actRight remaining (step actLeft actRight link side)
        final := by
  unfold step
  cases moved : move actLeft actRight link side with
  | none =>
      exact ⟨count, Nat.le_refl count, leads⟩
  | some next =>
      obtain ⟨remaining, rfl, rest⟩ := leads.after_move quiet moved
      exact ⟨remaining, Nat.le_succ remaining, rest⟩

/-- Neither does a schedule. -/
theorem Leads.after_run
    {count : Nat}
    (leads : Leads actLeft actRight count link final)
    (quiet : Quiet actLeft actRight final)
    (schedule : List Side) :
    ∃ remaining ≤ count,
      Leads actLeft actRight remaining
        (StepRuns.run (step actLeft actRight) link schedule) final := by
  induction schedule generalizing link count with
  | nil =>
      exact ⟨count, Nat.le_refl count, leads⟩
  | cons side rest inductionHypothesis =>
      obtain ⟨middle, fewer, stepLeads⟩ := leads.after_step quiet side
      obtain ⟨remaining, stillFewer, runLeads⟩ := inductionHypothesis stepLeads
      exact ⟨remaining, Nat.le_trans stillFewer fewer, runLeads⟩

/-- A schedule with a turn of a side that can move takes it closer. -/
theorem Leads.after_turn
    {count : Nat}
    (leads : Leads actLeft actRight count link final)
    (quiet : Quiet actLeft actRight final)
    {side : Side}
    (moved : move actLeft actRight link side = some next)
    {schedule : List Side}
    (turn : side ∈ schedule) :
    ∃ remaining < count,
      Leads actLeft actRight remaining
        (StepRuns.run (step actLeft actRight) link schedule) final := by
  induction schedule with
  | nil =>
      cases turn
  | cons first rest inductionHypothesis =>
      rw [StepRuns.run_cons]
      cases firstMove : move actLeft actRight link first with
      | none =>
          -- The first turn passes, so it is not the one that counts.
          have passes : step actLeft actRight link first = link := by
            simp [step, firstMove]
          rw [passes]
          apply inductionHypothesis
          rcases List.mem_cons.mp turn with rfl | later
          · rw [firstMove] at moved
            cases moved
          · exact later
      | some after =>
          have steps : step actLeft actRight link first = after := by
            simp [step, firstMove]
          rw [steps]
          obtain ⟨middle, rfl, afterLeads⟩ := leads.after_move quiet firstMove
          obtain ⟨remaining, fewer, runLeads⟩ := afterLeads.after_run quiet rest
          exact ⟨remaining, Nat.lt_succ_of_le fewer, runLeads⟩

/-- Moves that lead to a quiet end are those of every schedule. -/
theorem Leads.settles
    {count : Nat}
    (leads : Leads actLeft actRight count link final)
    (quiet : Quiet actLeft actRight final) :
    Settles actLeft actRight link final count where
  quiet := quiet
  always := leads.after_run quiet
  ends := by
    intro rounds complete enough
    induction rounds generalizing link count with
    | nil =>
        cases leads with
        | refl link =>
            rfl
        | onward side moved rest =>
            cases enough
    | cons round rest inductionHypothesis =>
        rw [List.forall_mem_cons] at complete
        rw [List.flatten_cons, StepRuns.run_append]
        cases leads with
        | refl =>
            obtain ⟨remaining, none, runLeads⟩ :=
              Leads.after_run (.refl _) quiet round
            exact inductionHypothesis runLeads complete.2
              (Nat.le_trans none (Nat.zero_le _))
        | onward side moved others =>
            obtain ⟨remaining, fewer, runLeads⟩ :=
              (Leads.onward side moved others).after_turn quiet moved
                (complete.1 side)
            refine inductionHypothesis runLeads complete.2 ?_
            exact Nat.le_of_lt_succ (Nat.lt_of_lt_of_le fewer enough)

/-- A larger number of moves is enough as well. -/
theorem Settles.mono
    {start : Link Left Right ToRight ToLeft}
    {count more : Nat}
    (settles : Settles actLeft actRight start final count)
    (fewer : count ≤ more) :
    Settles actLeft actRight start final more where
  quiet := settles.quiet
  always := by
    intro schedule
    obtain ⟨remaining, few, leads⟩ := settles.always schedule
    exact ⟨remaining, Nat.le_trans few fewer, leads⟩
  ends := fun rounds complete enough =>
    settles.ends rounds complete (Nat.le_trans fewer enough)

/-- Moves one after the other. -/
theorem Leads.trans
    {first second : Nat}
    {middle : Link Left Right ToRight ToLeft}
    (leads : Leads actLeft actRight first link middle)
    (further : Leads actLeft actRight second middle final) :
    Leads actLeft actRight (first + second) link final := by
  induction leads with
  | refl link =>
      rw [Nat.zero_add]
      exact further
  | onward side moved rest inductionHypothesis =>
      rw [Nat.add_right_comm]
      exact .onward side moved (inductionHypothesis further)

/-! ## A right side that keeps up -/

theorem Serves.trans
    {middle : Link Left Right ToRight ToLeft}
    (serves : Serves actLeft actRight link middle)
    (further : Serves actLeft actRight middle final) :
    Serves actLeft actRight link final := by
  induction serves with
  | refl link =>
      exact further
  | onward moved rest inductionHypothesis =>
      exact .onward moved (inductionHypothesis further)

/-- The left side is not touched meanwhile, and its queue only grows. -/
theorem Serves.left_eq
    (serves : Serves actLeft actRight link final) :
    final.left = link.left ∧ link.toLeft <+: final.toLeft := by
  induction serves with
  | refl link =>
      exact ⟨rfl, List.prefix_rfl⟩
  | @onward link next final moved rest inductionHypothesis =>
      cases advanced : advance actRight link.right link.toRight with
      | none =>
          simp [move, advanced] at moved
      | some parts =>
          simp only [move, advanced, Option.some.injEq] at moved
          subst moved
          exact ⟨inductionHypothesis.1,
            (List.prefix_append _ _).trans inductionHypothesis.2⟩

/-- A move of the right side is one of those that it still makes. -/
theorem Serves.after_right
    (serves : Serves actLeft actRight link final)
    (idle : Idle actLeft actRight final)
    (moved : move actLeft actRight link .right = some next) :
    Serves actLeft actRight next final := by
  cases serves with
  | refl =>
      rw [Idle, moved] at idle
      cases idle
  | onward first rest =>
      rw [first, Option.some.injEq] at moved
      exact moved ▸ rest

/-- A move of the left side can be made later as well. -/
theorem Serves.after_left
    (serves : Serves actLeft actRight link final)
    (moved : move actLeft actRight link .left = some next) :
    ∃ other,
      move actLeft actRight final .left = some other ∧
        Serves actLeft actRight next other := by
  induction serves generalizing next with
  | refl link =>
      exact ⟨next, moved, .refl next⟩
  | onward first rest inductionHypothesis =>
      obtain ⟨both, fromNext, fromMiddle⟩ := move_commutes moved first
      obtain ⟨other, fromFinal, serves⟩ := inductionHypothesis fromMiddle
      exact ⟨other, fromFinal, .onward fromNext serves⟩

/-- There is one state in which the right side has caught up. -/
theorem Serves.unique
    {other : Link Left Right ToRight ToLeft}
    (serves : Serves actLeft actRight link final)
    (idle : Idle actLeft actRight final)
    (otherServes : Serves actLeft actRight link other)
    (otherIdle : Idle actLeft actRight other) :
    final = other := by
  induction serves with
  | refl link =>
      cases otherServes with
      | refl =>
          rfl
      | onward moved rest =>
          rw [Idle, moved] at idle
          cases idle
  | onward moved rest inductionHypothesis =>
      exact inductionHypothesis idle (otherServes.after_right otherIdle moved)

/-- The right side comes to a state with the property when it catches up. -/
def CatchesUp
    (actLeft : Left → Action Left ToRight ToLeft)
    (actRight : Right → Action Right ToLeft ToRight)
    (settled : Link Left Right ToRight ToLeft → Prop)
    (link : Link Left Right ToRight ToLeft) : Prop :=
  ∃ final, Serves actLeft actRight link final ∧ settled final

/--
What is regained after an allowed move of the left side from where the right
side has caught up is regained after every allowed turn.
-/
theorem CatchesUp.step
    {settled : Link Left Right ToRight ToLeft → Prop}
    {allowed : Link Left Right ToRight ToLeft → Side → Prop}
    (idle : ∀ link, settled link → Idle actLeft actRight link)
    (keeps : ∀ link next,
      settled link →
      allowed link .left →
      move actLeft actRight link .left = some next →
      CatchesUp actLeft actRight settled next)
    (later : ∀ link final next,
      Serves actLeft actRight link final →
      move actLeft actRight link .left = some next →
      allowed link .left → allowed final .left)
    (side : Side)
    (allows : allowed link side)
    (catchesUp : CatchesUp actLeft actRight settled link) :
    CatchesUp actLeft actRight settled (step actLeft actRight link side) := by
  obtain ⟨final, serves, isSettled⟩ := catchesUp
  unfold FifoLink.step
  cases moved : move actLeft actRight link side with
  | none =>
      exact ⟨final, serves, isSettled⟩
  | some next =>
      cases side with
      | right =>
          exact
            ⟨final, serves.after_right (idle final isSettled) moved, isSettled⟩
      | left =>
          obtain ⟨other, movedLater, othersServe⟩ := serves.after_left moved
          obtain ⟨last, lastServes, lastSettled⟩ :=
            keeps final other isSettled
              (later link final next serves moved allows) movedLater
          exact ⟨last, othersServe.trans lastServes, lastSettled⟩

/-! ## Moves by their action -/

/-- The left side receives what has come first. -/
theorem move_left_wait
    {receive : ToLeft → Left}
    {m : ToLeft}
    {rest : List ToLeft}
    (act : actLeft link.left = .wait receive)
    (waiting : link.toLeft = m :: rest) :
    move actLeft actRight link .left =
      some { link with left := receive m, toLeft := rest } := by
  simp [move, advance, act, waiting]

section Forms

variable {left nextLeft : Left} {right nextRight : Right}
variable {toRight : List ToRight} {toLeft : List ToLeft}

/-- The left side sends. -/
theorem leads_left_go
    {sent : List ToRight}
    (act : actLeft left = .go sent nextLeft) :
    Leads actLeft actRight 1 ⟨left, right, toRight, toLeft⟩
      ⟨nextLeft, right, toRight ++ sent, toLeft⟩ :=
  .onward .left (by simp [move, advance, act]) (.refl _)

/-- The left side receives. -/
theorem leads_left_wait
    {receive : ToLeft → Left}
    (act : actLeft left = .wait receive)
    (m : ToLeft) :
    Leads actLeft actRight 1 ⟨left, right, toRight, m :: toLeft⟩
      ⟨receive m, right, toRight, toLeft⟩ :=
  .onward .left (by simp [move, advance, act]) (.refl _)

/-- The right side sends. -/
theorem leads_right_go
    {sent : List ToLeft}
    (act : actRight right = .go sent nextRight) :
    Leads actLeft actRight 1 ⟨left, right, toRight, toLeft⟩
      ⟨left, nextRight, toRight, toLeft ++ sent⟩ :=
  .onward .right (by simp [move, advance, act]) (.refl _)

/-- The right side receives. -/
theorem leads_right_wait
    {receive : ToRight → Right}
    (act : actRight right = .wait receive)
    (m : ToRight) :
    Leads actLeft actRight 1 ⟨left, right, m :: toRight, toLeft⟩
      ⟨left, receive m, toRight, toLeft⟩ :=
  .onward .right (by simp [move, advance, act]) (.refl _)

/-- A side that has stopped and one that waits for nothing are quiet. -/
theorem quiet_stopped_waiting
    {receive : ToRight → Right}
    (stopped : actLeft left = .stop)
    (waits : actRight right = .wait receive) :
    Quiet actLeft actRight ⟨left, right, [], toLeft⟩ := by
  intro side
  cases side with
  | left =>
      simp [move, advance, stopped]
  | right =>
      simp [move, advance, waits]

/-- Two sides that have stopped are quiet. -/
theorem quiet_stopped
    (leftStopped : actLeft left = .stop)
    (rightStopped : actRight right = .stop) :
    Quiet actLeft actRight ⟨left, right, toRight, toLeft⟩ := by
  intro side
  cases side with
  | left =>
      simp [move, advance, leftStopped]
  | right =>
      simp [move, advance, rightStopped]

end Forms

/-! ## One link within another -/

/--
Moves are those of another link, if each of them is one there from wherever the
states that count can still be reached.
-/
theorem Leads.embed
    {Left' Right' ToRight' ToLeft' : Type}
    {actLeft' : Left' → Action Left' ToRight' ToLeft'}
    {actRight' : Right' → Action Right' ToLeft' ToRight'}
    {before within : Link Left Right ToRight ToLeft → Prop}
    (embedding :
      Link Left Right ToRight ToLeft → Link Left' Right' ToRight' ToLeft')
    (keeps :
      ∀ link side next,
        move actLeft actRight link side = some next →
        before link → before next)
    (simulates :
      ∀ link side next,
        move actLeft actRight link side = some next →
        before link →
        within next →
        within link ∧
          move actLeft' actRight' (embedding link) side = some (embedding next))
    {count : Nat}
    (leads : Leads actLeft actRight count link final)
    (begins : before link)
    (ends : within final) :
    within link ∧
      Leads actLeft' actRight' count (embedding link) (embedding final) := by
  induction leads with
  | refl link =>
      exact ⟨ends, .refl _⟩
  | onward side moved rest inductionHypothesis =>
      obtain ⟨stillWithin, restLeads⟩ :=
        inductionHypothesis (keeps _ side _ moved begins) ends
      obtain ⟨starts, embedded⟩ := simulates _ side _ moved begins stillWithin
      exact ⟨starts, .onward side embedded restLeads⟩

/-- Some moves lead from one state to another. -/
def Reaches
    (actLeft : Left → Action Left ToRight ToLeft)
    (actRight : Right → Action Right ToLeft ToRight)
    (link final : Link Left Right ToRight ToLeft) : Prop :=
  ∃ count, Leads actLeft actRight count link final

theorem Leads.reaches
    {count : Nat}
    (leads : Leads actLeft actRight count link final) :
    Reaches actLeft actRight link final :=
  ⟨count, leads⟩

theorem Reaches.refl
    (link : Link Left Right ToRight ToLeft) :
    Reaches actLeft actRight link link :=
  ⟨0, .refl link⟩

theorem Reaches.trans
    {middle : Link Left Right ToRight ToLeft}
    (first : Reaches actLeft actRight link middle)
    (second : Reaches actLeft actRight middle final) :
    Reaches actLeft actRight link final := by
  obtain ⟨count, leads⟩ := first
  obtain ⟨more, further⟩ := second
  exact ⟨count + more, leads.trans further⟩

end Moves

end RadminPro.FifoLink
