import RadminPro.SessionMediation

namespace RadminPro

open ByteCodec

/-!
# What a session owes to its login

`authenticate` answers from outside the session.  When every answer that grants
something is vouched for, everything guarded that the session does comes after
credentials that are vouched for, with the user and the rights of the session.
-/

open TracePolicy

/-- Who may log in with which password, and with which rights. -/
abbrev Vouching := Bytes → Bytes → UInt32 → Prop

/-- Credentials of the user were received, and they are good for these rights. -/
def Credited
    (vouching : Vouching)
    (trace : List Effect)
    (user : Bytes)
    (rights : UInt32) : Prop :=
  ∃ m password,
    m.op = .known .authRequest ∧
      AuthRequestMsg.decode m.payload = .ok { username := user, password } ∧
      vouching user password rights ∧
      .received m ∈ trace

/-- If the session answers credentials in this turn, its answer is vouched for. -/
def AnswersVouched
    (vouching : Vouching)
    (session : Session)
    (turn : Turn) : Prop :=
  session.phase = .auth →
    ∀ m areq,
      turn.read = .ok m →
      m.op = .known .authRequest →
      AuthRequestMsg.decode m.payload = .ok areq →
      (turn.outside.authenticate areq.username areq.password).status = .known .ok →
      vouching areq.username areq.password
        (turn.outside.authenticate areq.username areq.password).rights

/-- Nothing guarded was done before the credentials came. -/
def CreditedFirst
    (vouching : Vouching)
    (user : Bytes)
    (rights : UInt32)
    (trace : List Effect) : Prop :=
  ∃ opening rest,
    trace = opening ++ rest ∧
      (∀ effect ∈ opening, ¬isGuarded effect) ∧
      Credited vouching opening user rights

/-- A session that has started, after credentials that are vouched for. -/
structure GoesCredited
    (vouching : Vouching)
    (setup : SessionSetup)
    (ctx : SessionContext)
    (session : Session) : Prop where
  goes : Goes setup ctx session
  credited : CreditedFirst vouching ctx.user ctx.rights session.trace

/-- What is known in each phase about the credentials that came. -/
def Endorsed
    (vouching : Vouching)
    (setup : SessionSetup)
    (session : Session) : Prop :=
  match session.phase with
  | .handshake | .hello | .auth => True
  | .mode user rights => Credited vouching session.trace user rights
  | .live .. => ∃ ctx, GoesCredited vouching setup ctx session
  | .closed _ | .terminated _ | .stuck =>
      (∀ effect ∈ session.trace, ¬isGuarded effect) ∨
        ∃ ctx, GoesCredited vouching setup ctx session

/--
A guarded effect comes after good credentials of the user and after the start of
the session, and is permitted.
-/
def Warranted
    (vouching : Vouching)
    (setup : SessionSetup)
    (user : Bytes)
    (rights : UInt32)
    (mode : ConnectionMode) : List Effect → Effect → Prop :=
  fun before effect =>
    isGuarded effect →
      Credited vouching before user rights ∧
        Established setup user rights mode before ∧
        Permits rights mode effect

section Sessions

variable {sha256 : Bytes → Hash256}
variable {vouching : Vouching}
variable {setup : SessionSetup}
variable {session : Session}
variable {user : Bytes}
variable {rights : UInt32}

/-- Credentials that came stay in the trace. -/
theorem Credited.append
    {trace : List Effect}
    (credited : Credited vouching trace user rights)
    (effects : List Effect) :
    Credited vouching (trace ++ effects) user rights := by
  obtain ⟨m, password, op, decoded, vouched, member⟩ := credited
  exact ⟨m, password, op, decoded, vouched, List.mem_append_left _ member⟩

theorem CreditedFirst.append
    {trace : List Effect}
    (credited : CreditedFirst vouching user rights trace)
    (effects : List Effect) :
    CreditedFirst vouching user rights (trace ++ effects) := by
  obtain ⟨opening, rest, rfl, calm, came⟩ := credited
  exact ⟨opening, rest ++ effects, by simp, calm, came⟩

/-- What is done before the event loop is not guarded. -/
theorem enters_unguarded
    {turn : Turn}
    {phase : SessionPhase}
    {result : SessionPhase × List Effect}
    (enters : Enters setup turn phase result) :
    ∀ effect ∈ result.2, ¬isGuarded effect := by
  cases enters with
  | left early only =>
      intro effect member
      rcases List.mem_append.mp member with isOnly | isSlot
      · exact (only effect isOnly).unguarded
      · rw [List.mem_singleton.mp isSlot]
        exact not_false
  | shaken =>
      simp
  | greeted only =>
      exact fun effect member => (only effect member).unguarded
  | authenticated m user payload detail rights sessionId ok isResult =>
      simp [isGuarded, isFrameOp, isFileEffect]
  | started m text detail authorized op decoded =>
      simp [isGuarded, isFileEffect]
  | threw early =>
      simp [isGuarded, isFileEffect]

/-- Before the event loop nothing guarded has been done. -/
theorem Mediates.calm
    (mediates : Mediates setup session)
    (early : session.phase.early) :
    ∀ effect ∈ session.trace, ¬isGuarded effect := by
  rw [Mediates] at mediates
  cases phase : session.phase with
  | handshake =>
      rw [phase] at mediates
      exact mediates
  | hello =>
      rw [phase] at mediates
      exact mediates
  | auth =>
      rw [phase] at mediates
      exact mediates
  | mode user rights =>
      rw [phase] at mediates
      exact mediates.1
  | live ctx loop =>
      rw [phase] at early
      exact early.elim
  | closed unfinished =>
      rw [phase] at early
      exact early.elim
  | terminated error =>
      rw [phase] at early
      exact early.elim
  | stuck =>
      rw [phase] at early
      exact early.elim

/-- A login that succeeds has been answered so from outside. -/
theorem authTurn_mode
    {turn : Turn}
    (logged : (authTurn setup turn).1 = .mode user rights) :
    ∃ m password,
      turn.read = .ok m ∧
        m.op = .known .authRequest ∧
        AuthRequestMsg.decode m.payload = .ok { username := user, password } ∧
        turn.outside.authenticate user password = ⟨.known .ok, rights⟩ ∧
        .received m ∈ (authTurn setup turn).2 := by
  unfold authTurn at logged ⊢
  cases read : turn.read with
  | timeout =>
      rw [read] at logged
      cases logged
  | closed =>
      rw [read] at logged
      cases logged
  | ok m =>
      rw [read] at logged
      dsimp only at logged ⊢
      by_cases isAuth : m.op = .known .authRequest
      · rw [if_neg (not_not.mpr isAuth)] at logged ⊢
        cases decoded : AuthRequestMsg.decode m.payload with
        | error error =>
            rw [decoded] at logged
            cases logged
        | ok areq =>
            rw [decoded] at logged
            dsimp only at logged ⊢
            by_cases ok :
              (turn.outside.authenticate areq.username areq.password).status =
                .known .ok
            · rw [if_pos ok] at logged ⊢
              obtain ⟨sameUser, sameRights⟩ := SessionPhase.mode.inj logged
              subst sameUser sameRights
              refine ⟨m, areq.password, rfl, isAuth, decoded, ?_, by simp⟩
              rw [← ok]
            · rw [if_neg ok] at logged
              cases logged
      · rw [if_pos isAuth] at logged
        cases logged

/-- A session that goes on with credentials is endorsed. -/
theorem GoesCredited.endorsed
    {ctx : SessionContext}
    (goesOn : GoesCredited vouching setup ctx session) :
    Endorsed vouching setup session := by
  have pinned := goesOn.goes.pinned
  rw [Endorsed]
  cases phase : session.phase with
  | live now loop =>
      exact ⟨ctx, goesOn⟩
  | closed unfinished =>
      exact .inr ⟨ctx, goesOn⟩
  | terminated error =>
      exact .inr ⟨ctx, goesOn⟩
  | _ =>
      rw [phase] at pinned
      exact pinned.elim

/-- It stays so in every turn. -/
theorem GoesCredited.step
    {ctx : SessionContext}
    (turn : Turn)
    (goesOn : GoesCredited vouching setup ctx session) :
    GoesCredited vouching setup ctx (session.step sha256 setup turn) where
  goes := goes_step session turn goesOn.goes
  credited := goesOn.credited.append _

/-- A session whose answers are vouched for stays endorsed. -/
theorem endorsed_step
    {turn : Turn}
    (vouched : AnswersVouched vouching session turn)
    (mediates : Mediates setup session)
    (endorsed : Endorsed vouching setup session) :
    Endorsed vouching setup (session.step sha256 setup turn) := by
  have next : Mediates setup (session.step sha256 setup turn) :=
    mediates_step session turn mediates
  obtain ⟨phase, trace⟩ := session
  by_cases early : phase.early
  · have enters := turn_enters sha256 setup early turn
    have calm :
        ∀ effect ∈ trace ++ (phase.turn sha256 setup turn).2,
          ¬isGuarded effect := by
      intro effect member
      rcases List.mem_append.mp member with earlier | now
      · exact mediates.calm early effect earlier
      · exact enters_unguarded enters effect now
    have logged :
        ∀ user rights,
          phase = .auth →
          (phase.turn sha256 setup turn).1 = .mode user rights →
          Credited vouching (trace ++ (phase.turn sha256 setup turn).2) user
            rights := by
      rintro user rights rfl isMode
      obtain ⟨m, password, read, op, decoded, answered, member⟩ :=
        authTurn_mode isMode
      have good := vouched rfl m _ read op decoded
      rw [answered] at good
      exact ⟨m, password, op, decoded, good rfl, List.mem_append_right _ member⟩
    rw [Session.step] at next ⊢
    generalize phase.turn sha256 setup turn = result
      at enters calm logged next ⊢
    cases enters with
    | left isEarly only =>
        exact .inl calm
    | shaken =>
        trivial
    | greeted only =>
        trivial
    | authenticated m user payload detail rights sessionId ok isResult =>
        exact logged user rights rfl rfl
    | started m text detail authorized op decoded =>
        obtain ⟨ctx, goes⟩ := next
        have same := goes.pinned
        subst same
        exact ⟨_, goes, _, [], (List.append_nil _).symm, calm, endorsed.append _⟩
    | threw isEarly =>
        exact .inl calm
  · cases phase with
    | live ctx loop =>
        obtain ⟨ctx, goesOn⟩ := endorsed
        exact (goesOn.step turn).endorsed
    | closed unfinished =>
        simpa [Session.step, SessionPhase.turn] using endorsed
    | terminated error =>
        simpa [Session.step, SessionPhase.turn] using endorsed
    | stuck =>
        simpa [Session.step, SessionPhase.turn] using endorsed
    | _ => exact absurd trivial early

/-- Whatever an endorsed session has done was warranted. -/
theorem Endorsed.warranted
    (mediates : Mediates setup session)
    (endorsed : Endorsed vouching setup session) :
    ∃ user rights mode,
      Obeys (Warranted vouching setup user rights mode) session.trace := by
  have settled :
      (∀ effect ∈ session.trace, ¬isGuarded effect) ∨
        ∃ ctx, GoesCredited vouching setup ctx session := by
    by_cases early : session.phase.early
    · exact .inl (mediates.calm early)
    · rw [Endorsed] at endorsed
      cases phase : session.phase with
      | live ctx loop =>
          rw [phase] at endorsed
          exact .inr endorsed
      | closed unfinished =>
          rwa [phase] at endorsed
      | terminated error =>
          rwa [phase] at endorsed
      | stuck =>
          rwa [phase] at endorsed
      | _ =>
          rw [phase] at early
          exact absurd trivial early
  rcases settled with calm | ⟨ctx, goesOn⟩
  · exact ⟨[], R_None, .known .viewOnly,
      obeys_of_forall fun effect member _ guarded =>
        absurd guarded (calm effect member)⟩
  · refine ⟨ctx.user, ctx.rights, ctx.mode, ?_⟩
    intro before effect after shape guarded
    obtain ⟨opening, rest, split, calm, credited⟩ := goesOn.credited
    obtain ⟨established, permits⟩ :=
      goesOn.goes.started.obeys before effect after shape guarded
    refine ⟨?_, established, permits⟩
    rcases List.append_eq_append_iff.mp (split.symm.trans shape) with
      ⟨between, rfl, tail⟩ | ⟨between, rfl, tail⟩
    · exact credited.append between
    · cases between with
      | nil =>
          simpa using credited
      | cons head others =>
          rw [List.cons_append, List.cons.injEq] at tail
          exact absurd guarded (calm effect (by simp [← tail.1]))

end Sessions

end RadminPro
