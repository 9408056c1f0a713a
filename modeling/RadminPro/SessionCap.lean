import RadminPro.AcceptLoop
import Mathlib.Order.Interval.Finset.Nat

namespace RadminPro

open ByteCodec

/-!
# The session cap

The accept loop and the session threads interleave as they like.  The counter
is always the number of slots that are held, by the accept loop for the
connection at hand or by a thread that has not left its session; the slots of
running sessions never exceed the cap.
-/

/-! ## The slot of one session -/

section Release

variable {sha256 : Bytes → Hash256}
variable {setup : SessionSetup}
variable {ctx : SessionContext}
variable {out : Outside}
variable {loop : LoopState}

/-- A session returns its slot once, with its last effect, when it is closed. -/
def ReleasesLast (session : Session) : Prop :=
  match session.phase with
  | .closed _ =>
      ∃ front,
        session.trace = front ++ [.releaseSlot] ∧ .releaseSlot ∉ front
  | _ => .releaseSlot ∉ session.trace

/-- Quiet effects do not return the slot. -/
theorem not_mem_quiet
    {trace effects : List Effect}
    (absent : .releaseSlot ∉ trace)
    (quiet : ∀ effect ∈ effects, Quiet effect) :
    .releaseSlot ∉ trace ++ effects := by
  intro member
  rcases List.mem_append.mp member with before | isNew
  · exact absent before
  · exact (quiet _ isNew).1 rfl

/-- The end of the event loop returns the slot last. -/
theorem releasesLast_finishSession
    {trace effects : List Effect}
    (absent : .releaseSlot ∉ trace)
    (quiet : ∀ effect ∈ effects, Quiet effect) :
    ReleasesLast
      ⟨(finishSession setup ctx out loop effects).1,
        trace ++ (finishSession setup ctx out loop effects).2⟩ := by
  refine ⟨trace ++ (effects ++ (loop.uploads.toList.flatMap (discard out) ++
    [.audit (.session ctx.user setup.peerStr false []), .overlayHide])), ?_, ?_⟩
  · rw [finishSession_effects]
    simp
  · have discarded :
        .releaseSlot ∉ loop.uploads.toList.flatMap (discard out) := by
      intro member
      obtain ⟨entry, -, isEffect⟩ := List.mem_flatMap.mp member
      exact (discard_quiet isEffect).1.1 rfl
    have noEffect : .releaseSlot ∉ effects :=
      fun member => (quiet _ member).1 rfl
    simp [absent, noEffect, discarded]

/-- However a turn of the event loop ends, the slot is returned last. -/
theorem releasesLast_streams
    {trace effects : List Effect}
    {result : SessionPhase × List Effect}
    (absent : .releaseSlot ∉ trace)
    (quiet : ∀ effect ∈ effects, Quiet effect)
    (streams : Streams setup ctx out loop effects result) :
    ReleasesLast ⟨result.1, trace ++ result.2⟩ := by
  cases streams with
  | @live next uploads ids shown only =>
      apply not_mem_quiet absent
      intro effect member
      rcases List.mem_append.mp member with before | isShown
      · exact quiet effect before
      · exact (only effect isShown).quiet
  | @finished next uploads shown only =>
      apply releasesLast_finishSession absent
      intro effect member
      rcases List.mem_append.mp member with before | isShown
      · exact quiet effect before
      · exact (only effect isShown).quiet

/-- A turn before the event loop returns the slot last if it leaves. -/
theorem releasesLast_enters
    {trace : List Effect}
    {turn : Turn}
    {phase : SessionPhase}
    {result : SessionPhase × List Effect}
    (absent : .releaseSlot ∉ trace)
    (enters : Enters setup turn phase result) :
    ReleasesLast ⟨result.1, trace ++ result.2⟩ := by
  cases enters with
  | @left _ effects early only =>
      refine ⟨trace ++ effects, by simp [leave], ?_⟩
      exact not_mem_quiet absent fun effect member => (only effect member).quiet
  | shaken =>
      simpa [ReleasesLast] using absent
  | greeted only =>
      exact not_mem_quiet absent fun effect member => (only effect member).quiet
  | authenticated m user payload detail rights sessionId ok isResult =>
      simpa [ReleasesLast] using absent
  | started m text detail authorized op decoded =>
      simpa [ReleasesLast] using absent
  | threw early =>
      simpa [ReleasesLast] using absent

/-- Every turn keeps the slot until the last effect of a closed session. -/
theorem releasesLast_step
    {session : Session}
    (releases : ReleasesLast session)
    (turn : Turn) :
    ReleasesLast (session.step sha256 setup turn) := by
  obtain ⟨phase, trace⟩ := session
  cases phase with
  | handshake =>
      have early : SessionPhase.handshake.early := trivial
      exact releasesLast_enters releases (turn_enters sha256 setup early turn)
  | hello => exact releasesLast_enters releases (helloTurn_enters setup turn)
  | auth => exact releasesLast_enters releases (authTurn_enters setup turn)
  | mode user rights =>
      exact releasesLast_enters releases (modeTurn_enters setup user rights turn)
  | live ctx loop =>
      have inverted := liveTurn_liveTurn sha256 setup ctx loop turn
      have shape :
          Session.step sha256 setup ⟨.live ctx loop, trace⟩ turn =
            ⟨(liveTurn sha256 setup ctx loop turn).1,
              trace ++ (liveTurn sha256 setup ctx loop turn).2⟩ :=
        rfl
      rw [shape]
      generalize liveTurn sha256 setup ctx loop turn = result at inverted
      cases inverted with
      | unread streams =>
          exact releasesLast_streams releases (by simp) streams
      | handled running read handles streams =>
          refine releasesLast_streams releases (fun effect member => ?_) streams
          rcases List.mem_cons.mp member with rfl | isHandled
          · exact ⟨by simp, by simp⟩
          · exact (handles.mayDo effect isHandled).quiet
      | threw running read failed =>
          simpa [ReleasesLast] using releases
  | closed unfinished =>
      rw [Session.step]
      dsimp only [SessionPhase.turn]
      rwa [List.append_nil]
  | terminated error =>
      rw [Session.step]
      dsimp only [SessionPhase.turn]
      rwa [List.append_nil]
  | stuck =>
      rw [Session.step]
      dsimp only [SessionPhase.turn]
      rwa [List.append_nil]

end Release

/-! ## The accept loop and its threads -/

namespace AcceptPoint

/-- The connection at hand. -/
def connections : AcceptPoint → List Accepted
  | .screening c | .refused c _ | .claiming c | .overCap c | .admitted c
  | .wrapping c | .unwrapped c | .spawning c => [c]
  | .starting | .testing | .accepting | .failed | .closing | .returned _ => []

/-- The socket that the accept loop still has to close or to hand on. -/
def sockets : AcceptPoint → List Socket
  | .screening c | .refused c _ | .claiming c | .overCap c | .admitted c
  | .wrapping c | .spawning c => [c.fd]
  | .starting | .testing | .accepting | .failed | .unwrapped _ | .closing
  | .returned _ => []

/-- The connection at hand, while the accept loop holds a slot for it. -/
def holders : AcceptPoint → List Nat
  | .overCap c | .admitted c | .wrapping c | .unwrapped c | .spawning c =>
      [c.number]
  | _ => []

/-- The connection at hand, if it has been granted its slot. -/
def granted : AcceptPoint → List Accepted
  | .admitted c | .wrapping c | .unwrapped c | .spawning c => [c]
  | _ => []

/-- The connection at hand, if it has not taken a slot yet. -/
def unclaimed : AcceptPoint → List Accepted
  | .screening c | .claiming c => [c]
  | _ => []

/-- The connection at hand, if it has passed the allow-list. -/
def screened : AcceptPoint → List Accepted
  | .claiming c | .overCap c | .admitted c | .wrapping c | .unwrapped c
  | .spawning c => [c]
  | _ => []

end AcceptPoint

/-- The slot of a thread that has not left its session. -/
def SessionThread.slot? (thread : SessionThread) : Option Nat :=
  if thread.exited then none else some thread.connection.number

namespace ServerApp

/-- The sessions that were started and have not exited. -/
def runningSessions (app : ServerApp) : List SessionThread :=
  app.threads.filter fun thread => !thread.exited

/-- The sockets that are open on behalf of connections. -/
def openSockets (app : ServerApp) : List Socket :=
  app.point.sockets ++ app.threads.map fun thread => thread.connection.fd

/-- Who holds a slot. -/
def holders (app : ServerApp) : List Nat :=
  app.point.holders ++ app.threads.filterMap SessionThread.slot?

end ServerApp

/--
`accept` returns handles that are not open already, are not null and fit into 32
bits.
-/
def FreshHandle (app : ServerApp) (event : ServerEvent) : Prop :=
  match event with
  | .acceptLoop answer =>
      ∀ fd peer,
        answer.connection = some (fd, peer) →
        fd ≠ kInvalidSocket →
        fd ∉ app.openSockets ∧ 0 < fd.toNat ∧ fd.toNat < 2 ^ 32
  | _ => True

instance (app : ServerApp) : (event : ServerEvent) → Decidable (FreshHandle app event)
  | .acceptLoop answer =>
      decidable_of_iff
        (∀ accepted ∈ answer.connection,
          accepted.1 ≠ kInvalidSocket →
          accepted.1 ∉ app.openSockets ∧
            0 < accepted.1.toNat ∧ accepted.1.toNat < 2 ^ 32)
        (by simp [FreshHandle, Prod.forall])
  | .session .. => inferInstanceAs (Decidable True)
  | .clearRunning => inferInstanceAs (Decidable True)
  | .closeListener => inferInstanceAs (Decidable True)

/-- What holds between any two actions. -/
structure Orderly (inetPtonA : InetPton) (app : ServerApp) : Prop where
  unstarted : app.point = .starting → app.threads = []
  distinct : app.openSockets.Nodup
  inRange : ∀ fd ∈ app.openSockets, 0 < fd.toNat ∧ fd.toNat < 2 ^ 32
  releases :
    ∀ thread ∈ app.threads,
      ReleasesLast thread.session ∧
        thread.performed ≤ thread.session.trace.length
  allowed :
    ∀ thread ∈ app.threads,
      app.isPeerAllowed inetPtonA thread.connection.peer.ip = true
  screened :
    ∀ c ∈ app.point.screened, app.isPeerAllowed inetPtonA c.peer.ip = true
  counts : app.activeSessions.Counts app.holders
  numbered : ∀ n ∈ app.activeSessions.takers, n < app.accepted
  unclaimed :
    ∀ c ∈ app.point.unclaimed,
      c.number < app.accepted ∧ c.number ∉ app.activeSessions.takers
  capped :
    app.point.granted.length +
        (app.threads.filterMap SessionThread.slot?).length ≤
      app.cfg.maxSessions.toNat

/-- An element of a list by its place, with what replacing or removing it does. -/
theorem split_at
    {α : Type}
    {items : List α}
    {index : Nat}
    {item : α}
    (found : items[index]? = some item) :
    ∃ before after,
      items = before ++ item :: after ∧
        (∀ other, items.set index other = before ++ other :: after) ∧
        items.eraseIdx index = before ++ after := by
  obtain ⟨inside, rfl⟩ := List.getElem?_eq_some_iff.mp found
  refine ⟨items.take index, items.drop (index + 1), ?_, fun other => ?_, ?_⟩
  · rw [List.getElem_cons_drop, List.take_append_drop]
  · exact List.set_eq_take_append_cons_drop.trans (if_pos inside)
  · exact List.eraseIdx_eq_take_drop_succ _ _

section Preserved

variable {sha256 : Bytes → Hash256}
variable {inetPtonA : InetPton}
variable {app : ServerApp}

/-- Fewer than `2 ^ 32` sockets are open. -/
theorem Orderly.openSockets_lt
    (orderly : Orderly inetPtonA app) :
    app.openSockets.length < 2 ^ 32 := by
  have distinct : (app.openSockets.map UInt64.toNat).Nodup :=
    orderly.distinct.map fun _ _ same => UInt64.toNat_inj.mp same
  have inside :
      (app.openSockets.map UInt64.toNat).toFinset ⊆ Finset.Ioo 0 (2 ^ 32) := by
    intro handle member
    obtain ⟨fd, isOpen, rfl⟩ := List.mem_map.mp (List.mem_toFinset.mp member)
    exact Finset.mem_Ioo.mpr (orderly.inRange fd isOpen)
  have counted := Finset.card_le_card inside
  rw [List.toFinset_card_of_nodup distinct, List.length_map, Nat.card_Ioo]
    at counted
  omega

/-- Every running session has a socket. -/
theorem slots_le_threads
    (threads : List SessionThread) :
    (threads.filterMap SessionThread.slot?).length ≤ threads.length :=
  List.length_filterMap_le _ _

/-- The server object before `run`. -/
theorem orderly_constructed
    (inetPtonA : InetPton)
    (cfg : ServerConfig) :
    Orderly inetPtonA { cfg } where
  unstarted := fun _ => rfl
  distinct := List.nodup_nil
  inRange := by
    simp [ServerApp.openSockets, AcceptPoint.sockets]
  releases := by
    simp
  allowed := by
    simp
  screened := by
    simp [AcceptPoint.screened]
  counts := SlotCounter.counts_nil
  numbered := by
    simp [SlotCounter.takers]
  unclaimed := by
    simp [AcceptPoint.unclaimed]
  capped := by
    simp [AcceptPoint.granted]

/-! ## One action of the accept loop -/

/-- Going on to a point that holds no more than the one before. -/
theorem Orderly.moveTo
    (orderly : Orderly inetPtonA app)
    {point : AcceptPoint}
    (started : point ≠ .starting)
    (sockets : point.sockets.Sublist app.point.sockets)
    (holders : point.holders = app.point.holders)
    (granted : point.granted = app.point.granted)
    (unclaimed : point.unclaimed ⊆ app.point.unclaimed)
    (screened :
      ∀ c ∈ point.screened, app.isPeerAllowed inetPtonA c.peer.ip = true) :
    Orderly inetPtonA { app with point } where
  unstarted := fun isStarting => (started isStarting).elim
  distinct :=
    orderly.distinct.sublist (sockets.append_right _)
  inRange := fun fd member =>
    orderly.inRange fd ((sockets.append_right _).subset member)
  releases := orderly.releases
  allowed := orderly.allowed
  screened := screened
  counts := by
    have counts := orderly.counts
    rw [ServerApp.holders, ← holders] at counts
    exact counts
  numbered := orderly.numbered
  unclaimed := fun c member => orderly.unclaimed c (unclaimed member)
  capped := by
    rw [granted]
    exact orderly.capped

/-- `run` up to its loop. -/
theorem Orderly.startUp
    (orderly : Orderly inetPtonA app)
    (here : app.point = .starting)
    (answer : AcceptAnswer) :
    Orderly inetPtonA (app.startUp inetPtonA answer) := by
  have noThread : app.threads = [] :=
    orderly.unstarted here
  have settled :
      ∀ (filter : SubnetFilter) (listening : Bool) (point : AcceptPoint),
        point ≠ .starting →
        point.connections = [] →
        Orderly inetPtonA { app with filter, listening, point } := by
    intro filter listening point started idle
    have nothing :
        point.sockets = [] ∧ point.holders = [] ∧ point.granted = [] ∧
          point.unclaimed = [] ∧ point.screened = [] := by
      cases point with
      | starting => exact ⟨rfl, rfl, rfl, rfl, rfl⟩
      | testing => exact ⟨rfl, rfl, rfl, rfl, rfl⟩
      | accepting => exact ⟨rfl, rfl, rfl, rfl, rfl⟩
      | failed => exact ⟨rfl, rfl, rfl, rfl, rfl⟩
      | closing => exact ⟨rfl, rfl, rfl, rfl, rfl⟩
      | returned code => exact ⟨rfl, rfl, rfl, rfl, rfl⟩
      | screening c => cases idle
      | refused c detail => cases idle
      | claiming c => cases idle
      | overCap c => cases idle
      | admitted c => cases idle
      | wrapping c => cases idle
      | unwrapped c => cases idle
      | spawning c => cases idle
    obtain ⟨noSocket, noHolder, noGrant, noClaim, noScreened⟩ := nothing
    have counts := orderly.counts
    rw [ServerApp.holders, here, noThread] at counts
    exact
      { unstarted := fun isStarting => (started isStarting).elim
        distinct := by
          simp [ServerApp.openSockets, noSocket, noThread]
        inRange := by
          simp [ServerApp.openSockets, noSocket, noThread]
        releases := by
          simp [noThread]
        allowed := by
          simp [noThread]
        screened := by
          simp [noScreened]
        counts := by
          rw [ServerApp.holders, noHolder, noThread]
          exact counts
        numbered := orderly.numbered
        unclaimed := by
          simp [noClaim]
        capped := by
          simp [noGrant, noThread] }
  unfold ServerApp.startUp
  split
  · exact settled app.filter app.listening (.returned 2) (by simp) rfl
  · dsimp only
    split
    · exact settled app.filter app.listening (.returned 3) (by simp) rfl
    · split
      · exact settled _ app.listening (.returned 4) (by simp) rfl
      · split
        · exact settled _ app.listening (.returned 5) (by simp) rfl
        · split
          · exact settled _ app.listening (.returned 6) (by simp) rfl
          · exact settled _ true .testing (by simp) rfl

/-- A connection that is accepted has no slot yet. -/
theorem Orderly.acceptReturned
    (orderly : Orderly inetPtonA app)
    (here : app.point = .accepting)
    {answer : AcceptAnswer}
    (fresh : FreshHandle app (.acceptLoop answer)) :
    Orderly inetPtonA (app.acceptReturned answer) := by
  have failed : Orderly inetPtonA { app with point := .failed } :=
    orderly.moveTo (by simp) (List.nil_sublist _) (by rw [here]; rfl)
      (by rw [here]; rfl) (by simp [AcceptPoint.unclaimed])
      (by simp [AcceptPoint.screened])
  unfold ServerApp.acceptReturned
  split
  · next fd peer listening returned =>
      split
      · exact failed
      · next valid =>
          obtain ⟨isNew, positive, small⟩ := fresh fd peer returned valid
          have noPoint : app.point.sockets = [] := by
            rw [here]
            rfl
          have before : app.openSockets =
              app.threads.map fun thread => thread.connection.fd := by
            rw [ServerApp.openSockets, noPoint, List.nil_append]
          have counts := orderly.counts
          have capped := orderly.capped
          rw [ServerApp.holders, here] at counts
          rw [here] at capped
          exact
            { unstarted := by
                simp
              distinct := by
                have distinct := orderly.distinct
                rw [before] at isNew distinct
                exact List.nodup_cons.mpr ⟨isNew, distinct⟩
              inRange := by
                have inRange := orderly.inRange
                rw [before] at inRange
                exact List.forall_mem_cons.mpr ⟨⟨positive, small⟩, inRange⟩
              releases := orderly.releases
              allowed := orderly.allowed
              screened := by
                simp [AcceptPoint.screened]
              counts := counts
              numbered := fun n member =>
                Nat.lt_succ_of_lt (orderly.numbered n member)
              unclaimed := by
                intro c member
                rw [List.mem_singleton.mp member]
                exact ⟨Nat.lt_succ_self _, fun taken =>
                  Nat.lt_irrefl _ (orderly.numbered _ taken)⟩
              capped := capped }
  · exact failed

/-- Taking the slot for the connection at hand. -/
theorem Orderly.claim
    {c : Accepted}
    (orderly : Orderly inetPtonA app)
    (here : app.point = .claiming c) :
    Orderly inetPtonA
      { app with
        activeSessions := app.activeSessions.fetchAdd c.number
        point :=
          if app.activeSessions.value ≥ app.cfg.maxSessions then
            .overCap c
          else
            .admitted c } := by
  obtain ⟨hasNumber, hasNoSlot⟩ :=
    orderly.unclaimed c (by rw [here]; exact List.mem_singleton_self c)
  have passed :=
    orderly.screened c (by rw [here]; exact List.mem_singleton_self c)
  have counts := orderly.counts
  rw [ServerApp.holders, here] at counts
  have room :
      (app.threads.filterMap SessionThread.slot?).length + 1 < 2 ^ 32 := by
    have sockets := orderly.openSockets_lt
    have fewer := slots_le_threads app.threads
    rw [ServerApp.openSockets, here, List.length_append, List.length_map]
      at sockets
    have one : (AcceptPoint.claiming c).sockets.length = 1 := rfl
    omega
  have claimed := counts.fetchAdd room hasNoSlot
  have value : app.activeSessions.value.toNat =
      (app.threads.filterMap SessionThread.slot?).length :=
    counts.value
  have sockets : app.point.sockets = [c.fd] := by
    rw [here]
    rfl
  have distinct := orderly.distinct
  have inRange := orderly.inRange
  rw [ServerApp.openSockets, sockets] at distinct inRange
  have capped := orderly.capped
  rw [here] at capped
  have numbered :
      ∀ n ∈ (app.activeSessions.fetchAdd c.number).takers, n < app.accepted := by
    intro n member
    rw [SlotCounter.takers_fetchAdd] at member
    rcases List.mem_append.mp member with before | isNew
    · exact orderly.numbered n before
    · rw [List.mem_singleton.mp isNew]
      exact hasNumber
  by_cases full : app.activeSessions.value ≥ app.cfg.maxSessions
  · rw [if_pos full]
    exact
      { unstarted := by
          simp
        distinct := distinct
        inRange := inRange
        releases := orderly.releases
        allowed := orderly.allowed
        screened := by
          intro other member
          rw [List.mem_singleton.mp member]
          exact passed
        counts := claimed
        numbered := numbered
        unclaimed := by
          simp [AcceptPoint.unclaimed]
        capped := capped }
  · rw [if_neg full]
    exact
      { unstarted := by
          simp
        distinct := distinct
        inRange := inRange
        releases := orderly.releases
        allowed := orderly.allowed
        screened := by
          intro other member
          rw [List.mem_singleton.mp member]
          exact passed
        counts := claimed
        numbered := numbered
        unclaimed := by
          simp [AcceptPoint.unclaimed]
        capped := by
          rw [ge_iff_le, UInt32.le_iff_toNat_le, value] at full
          simp only [AcceptPoint.granted, List.length_singleton]
          omega }

/-- Returning the slot of the connection at hand. -/
theorem Orderly.giveBack
    (orderly : Orderly inetPtonA app)
    {c : Accepted}
    (held : app.point.holders = [c.number])
    {point : AcceptPoint}
    (started : point ≠ .starting)
    (sockets : point.sockets = app.point.sockets)
    (holders : point.holders = [])
    (granted : point.granted = [])
    (unclaimed : point.unclaimed = [])
    (screened : point.screened = []) :
    Orderly inetPtonA
      { app with
        activeSessions := app.activeSessions.fetchSub c.number
        point } where
  unstarted := fun isStarting => (started isStarting).elim
  distinct := by
    rw [ServerApp.openSockets, sockets]
    exact orderly.distinct
  inRange := by
    rw [ServerApp.openSockets, sockets]
    exact orderly.inRange
  releases := orderly.releases
  allowed := orderly.allowed
  screened := by
    simp [screened]
  counts := by
    have counts := orderly.counts
    rw [ServerApp.holders, held] at counts
    rw [ServerApp.holders, holders]
    exact counts.fetchSub
  numbered := by
    rw [SlotCounter.takers_fetchSub]
    exact orderly.numbered
  unclaimed := by
    simp [unclaimed]
  capped := by
    have capped := orderly.capped
    simp only [granted, List.length_nil, Nat.zero_add]
    exact Nat.le_trans (Nat.le_add_left _ _) capped

/-- The thread of an admitted connection takes over its slot and its socket. -/
theorem Orderly.spawn
    {c : Accepted}
    (orderly : Orderly inetPtonA app)
    (here : app.point = .spawning c) :
    Orderly inetPtonA
      { app with
        threads := app.threads ++ [app.newThread c]
        point := .testing } := by
  have slot : (app.newThread c).slot? = some c.number :=
    rfl
  have sockets := orderly.distinct
  have inRange := orderly.inRange
  rw [ServerApp.openSockets, here] at sockets inRange
  have handedOn :
      (app.threads ++ [app.newThread c]).map
          (fun thread => thread.connection.fd) =
        app.threads.map (fun thread => thread.connection.fd) ++ [c.fd] := by
    simp [ServerApp.newThread]
  have swapped :
      ([c.fd] ++ app.threads.map fun thread => thread.connection.fd).Perm
        (app.threads.map (fun thread => thread.connection.fd) ++ [c.fd]) :=
    List.perm_append_comm
  exact
    { unstarted := by
        simp
      distinct := by
        rw [ServerApp.openSockets, handedOn]
        exact swapped.nodup_iff.mp sockets
      inRange := by
        intro fd member
        rw [ServerApp.openSockets, handedOn] at member
        exact inRange fd (swapped.mem_iff.mpr member)
      releases := by
        intro thread member
        rcases List.mem_append.mp member with before | isNew
        · exact orderly.releases thread before
        · rw [List.mem_singleton.mp isNew]
          exact ⟨by simp [ServerApp.newThread, ReleasesLast], Nat.zero_le _⟩
      allowed := by
        intro thread member
        rcases List.mem_append.mp member with before | isNew
        · exact orderly.allowed thread before
        · rw [List.mem_singleton.mp isNew]
          apply orderly.screened c
          rw [here]
          exact List.mem_singleton_self c
      screened := by
        simp [AcceptPoint.screened]
      counts := by
        have counts := orderly.counts
        rw [ServerApp.holders, here] at counts
        apply counts.perm
        rw [ServerApp.holders, List.filterMap_append]
        exact List.perm_append_comm
      numbered := orderly.numbered
      unclaimed := by
        simp [AcceptPoint.unclaimed]
      capped := by
        have capped := orderly.capped
        rw [here] at capped
        simp only [AcceptPoint.granted, List.length_singleton] at capped
        simp only [AcceptPoint.granted, List.filterMap_append, List.length_append,
          List.length_nil, List.filterMap_cons, slot, List.filterMap_nil,
          List.length_singleton]
        omega }

/-- Every action of the accept loop keeps order. -/
theorem Orderly.acceptStep
    (orderly : Orderly inetPtonA app)
    {answer : AcceptAnswer}
    (fresh : FreshHandle app (.acceptLoop answer)) :
    Orderly inetPtonA (app.acceptStep inetPtonA answer) := by
  unfold ServerApp.acceptStep
  have idle :
      ∀ {point : AcceptPoint},
        app.point.holders = [] →
        app.point.granted = [] →
        point = .testing ∨ point = .accepting ∨ point = .closing →
        Orderly inetPtonA { app with point } := by
    rintro point noHolder noGrant (rfl | rfl | rfl)
    · exact orderly.moveTo (by simp) (List.nil_sublist _) noHolder.symm
        noGrant.symm (by simp [AcceptPoint.unclaimed])
        (by simp [AcceptPoint.screened])
    · exact orderly.moveTo (by simp) (List.nil_sublist _) noHolder.symm
        noGrant.symm (by simp [AcceptPoint.unclaimed])
        (by simp [AcceptPoint.screened])
    · exact orderly.moveTo (by simp) (List.nil_sublist _) noHolder.symm
        noGrant.symm (by simp [AcceptPoint.unclaimed])
        (by simp [AcceptPoint.screened])
  cases here : app.point with
  | starting =>
      exact orderly.startUp here answer
  | testing =>
      apply idle (by rw [here]; rfl) (by rw [here]; rfl)
      cases app.running with
      | true => exact .inr (.inl rfl)
      | false => exact .inr (.inr rfl)
  | accepting =>
      exact orderly.acceptReturned here fresh
  | failed =>
      apply idle (by rw [here]; rfl) (by rw [here]; rfl)
      cases app.running with
      | true => exact .inl rfl
      | false => exact .inr (.inr rfl)
  | screening c =>
      have onward :
          ∀ {point : AcceptPoint},
            point = .refused c (ascii "outside allow-list") ∨
              point = .claiming c ∧
                app.isPeerAllowed inetPtonA c.peer.ip = true →
            Orderly inetPtonA { app with point } := by
        rintro point (rfl | ⟨rfl, passed⟩)
        · apply orderly.moveTo (by simp)
          · rw [here]
            exact List.Sublist.refl _
          · rw [here]
            rfl
          · rw [here]
            rfl
          · exact List.nil_subset _
          · simp [AcceptPoint.screened]
        · apply orderly.moveTo (by simp)
          · rw [here]
            exact List.Sublist.refl _
          · rw [here]
            rfl
          · rw [here]
            rfl
          · rw [here]
            exact List.Subset.refl _
          · intro other member
            rw [List.mem_singleton.mp member]
            exact passed
      cases passed : app.isPeerAllowed inetPtonA c.peer.ip with
      | false =>
          simp only [passed]
          exact onward (.inl rfl)
      | true =>
          simp only [passed]
          exact onward (.inr ⟨rfl, passed⟩)
  | refused c detail =>
      exact idle (by rw [here]; rfl) (by rw [here]; rfl) (.inl rfl)
  | claiming c =>
      exact orderly.claim here
  | overCap c =>
      apply orderly.giveBack (by rw [here]; rfl) (by simp) (by rw [here]; rfl)
      · rfl
      · rfl
      · rfl
      · rfl
  | admitted c =>
      have passed :=
        orderly.screened c (by rw [here]; exact List.mem_singleton_self c)
      apply orderly.moveTo (by simp)
      · rw [here]
        exact List.Sublist.refl _
      · rw [here]
        rfl
      · rw [here]
        rfl
      · exact List.nil_subset _
      · intro other member
        rw [List.mem_singleton.mp member]
        exact passed
  | wrapping c =>
      have passed :=
        orderly.screened c (by rw [here]; exact List.mem_singleton_self c)
      have onward :
          ∀ {point : AcceptPoint},
            point = .spawning c ∨ point = .unwrapped c →
            Orderly inetPtonA { app with point } := by
        rintro point (rfl | rfl)
        · apply orderly.moveTo (by simp)
          · rw [here]
            exact List.Sublist.refl _
          · rw [here]
            rfl
          · rw [here]
            rfl
          · exact List.nil_subset _
          · intro other member
            rw [List.mem_singleton.mp member]
            exact passed
        · apply orderly.moveTo (by simp)
          · exact List.nil_sublist _
          · rw [here]
            rfl
          · rw [here]
            rfl
          · exact List.nil_subset _
          · intro other member
            rw [List.mem_singleton.mp member]
            exact passed
      cases answer.wrapped with
      | true => exact onward (.inl rfl)
      | false => exact onward (.inr rfl)
  | unwrapped c =>
      apply orderly.giveBack (by rw [here]; rfl) (by simp) (by rw [here]; rfl)
      · rfl
      · rfl
      · rfl
      · rfl
  | spawning c =>
      exact orderly.spawn here
  | closing =>
      have moved : Orderly inetPtonA { app with point := .returned 0 } :=
        orderly.moveTo (by simp) (List.nil_sublist _) (by rw [here]; rfl)
          (by rw [here]; rfl) (List.nil_subset _) (by simp [AcceptPoint.screened])
      exact { moved with }
  | returned code =>
      exact orderly

/-! ## One action of a session thread -/

/-- Replacing a thread by one of the same connection, with the slots that are left. -/
theorem Orderly.replace
    (orderly : Orderly inetPtonA app)
    {before after : List SessionThread}
    {thread other : SessionThread}
    {counter : SlotCounter Nat}
    (split : app.threads = before ++ thread :: after)
    (connection : other.connection = thread.connection)
    (releases :
      ReleasesLast other.session ∧
        other.performed ≤ other.session.trace.length)
    (counts :
      counter.Counts
        (app.point.holders ++
          (before ++ other :: after).filterMap SessionThread.slot?))
    (takers : counter.takers = app.activeSessions.takers)
    (fewer :
      ((before ++ other :: after).filterMap SessionThread.slot?).length ≤
        (app.threads.filterMap SessionThread.slot?).length) :
    Orderly inetPtonA
      { app with
        threads := before ++ other :: after
        activeSessions := counter } where
  unstarted := fun isStarting => by
    have noThread := orderly.unstarted isStarting
    rw [split] at noThread
    simp at noThread
  distinct := by
    have distinct := orderly.distinct
    rw [ServerApp.openSockets, split] at distinct
    simpa [ServerApp.openSockets, connection] using distinct
  inRange := by
    have inRange := orderly.inRange
    rw [ServerApp.openSockets, split] at inRange
    simpa [ServerApp.openSockets, connection] using inRange
  releases := by
    have others := orderly.releases
    rw [split] at others
    intro some member
    rcases List.mem_append.mp member with inBefore | behind
    · exact others some (List.mem_append_left _ inBefore)
    · rcases List.mem_cons.mp behind with rfl | inAfter
      · exact releases
      · exact others some
          (List.mem_append_right _ (List.mem_cons_of_mem _ inAfter))
  allowed := by
    have others := orderly.allowed
    rw [split] at others
    intro some member
    rcases List.mem_append.mp member with inBefore | behind
    · exact others some (List.mem_append_left _ inBefore)
    · rcases List.mem_cons.mp behind with rfl | inAfter
      · rw [connection]
        exact others thread (by simp)
      · exact others some
          (List.mem_append_right _ (List.mem_cons_of_mem _ inAfter))
  screened := orderly.screened
  counts := counts
  numbered := by
    rw [takers]
    exact orderly.numbered
  unclaimed := by
    rw [takers]
    exact orderly.unclaimed
  capped := Nat.le_trans (Nat.add_le_add_left fewer _) orderly.capped

/-- Replacing a thread by one that holds what it held. -/
theorem Orderly.replace_same
    (orderly : Orderly inetPtonA app)
    {before after : List SessionThread}
    {thread other : SessionThread}
    (split : app.threads = before ++ thread :: after)
    (connection : other.connection = thread.connection)
    (releases :
      ReleasesLast other.session ∧
        other.performed ≤ other.session.trace.length)
    (slot : other.slot? = thread.slot?) :
    Orderly inetPtonA { app with threads := before ++ other :: after } := by
  have sameSlots :
      (before ++ other :: after).filterMap SessionThread.slot? =
        app.threads.filterMap SessionThread.slot? := by
    simp [split, List.filterMap_cons, slot]
  apply orderly.replace split connection releases
  · rw [sameSlots]
    exact orderly.counts
  · rfl
  · rw [sameSlots]

/-- A thread that does not return its slot keeps it. -/
theorem slot_of_other_effect
    {thread : SessionThread}
    {effect : Effect}
    (next : thread.next? = some effect)
    (other : effect ≠ .releaseSlot) :
    { thread with performed := thread.performed + 1 }.slot? = thread.slot? := by
  have kept :
      { thread with performed := thread.performed + 1 }.exited =
        thread.exited := by
    rw [SessionThread.exited, SessionThread.exited, done_succ next]
    simp [Ne.symm other]
  rw [SessionThread.slot?, SessionThread.slot?, kept]

/-- A thread that returns its slot has it until then. -/
theorem slot_of_release
    {thread : SessionThread}
    (releases : ReleasesLast thread.session)
    (next : thread.next? = some .releaseSlot) :
    thread.slot? = some thread.connection.number ∧
      { thread with performed := thread.performed + 1 }.slot? = none := by
  have inTrace : .releaseSlot ∈ thread.session.trace :=
    List.mem_of_getElem? next
  have notYet : .releaseSlot ∉ thread.done := by
    unfold ReleasesLast at releases
    split at releases
    · obtain ⟨front, shape, absent⟩ := releases
      rw [SessionThread.next?, shape] at next
      by_cases early : thread.performed < front.length
      · rw [List.getElem?_append_left early] at next
        exact (absent (List.mem_of_getElem? next)).elim
      · have last : thread.performed = front.length := by
          obtain ⟨inside, -⟩ := List.getElem?_eq_some_iff.mp next
          rw [List.length_append, List.length_singleton] at inside
          omega
        rwa [SessionThread.done, shape, last, List.take_left]
    · exact (releases inTrace).elim
  constructor
  · simp [SessionThread.slot?, SessionThread.exited, notYet]
  · rw [SessionThread.slot?, SessionThread.exited, done_succ next]
    simp

/-- A thread whose session is over has returned its slot. -/
theorem slot_none_of_closed
    {thread : SessionThread}
    {unfinished : Uploads}
    (releases : ReleasesLast thread.session)
    (closed : thread.session.phase = .closed unfinished)
    (exhausted : thread.next? = none) :
    thread.slot? = none := by
  rw [ReleasesLast, closed] at releases
  obtain ⟨front, shape, -⟩ := releases
  have allDone : thread.done = thread.session.trace :=
    List.take_of_length_le (List.getElem?_eq_none_iff.mp exhausted)
  simp [SessionThread.slot?, SessionThread.exited, allDone, shape]

/-- Taking a turn returns no slot. -/
theorem slot_of_turn
    {thread : SessionThread}
    (inside : thread.performed ≤ thread.session.trace.length)
    (turn : Turn) :
    { thread with
        session := thread.session.step sha256 thread.setup turn }.slot? =
      thread.slot? := by
  have extended :
      ∃ effects,
        (thread.session.step sha256 thread.setup turn).trace =
          thread.session.trace ++ effects :=
    ⟨_, rfl⟩
  obtain ⟨effects, shape⟩ := extended
  have sameDone :
      { thread with
          session := thread.session.step sha256 thread.setup turn }.done =
        thread.done := by
    rw [SessionThread.done, SessionThread.done]
    dsimp only
    rw [shape, List.take_append_of_le_length inside]
  rw [SessionThread.slot?, SessionThread.slot?, SessionThread.exited,
    SessionThread.exited, sameDone]

/-- A thread returns its slot. -/
theorem Orderly.release
    (orderly : Orderly inetPtonA app)
    {before after : List SessionThread}
    {thread : SessionThread}
    (split : app.threads = before ++ thread :: after)
    (releases : ReleasesLast thread.session)
    (next : thread.next? = some .releaseSlot) :
    Orderly inetPtonA
      { app with
        threads :=
          before ++ { thread with performed := thread.performed + 1 } :: after
        activeSessions :=
          app.activeSessions.fetchSub thread.connection.number } := by
  obtain ⟨held, returned⟩ := slot_of_release releases next
  have atMost : thread.performed + 1 ≤ thread.session.trace.length :=
    (List.getElem?_eq_some_iff.mp next).1
  have left :
      (before ++
          { thread with performed := thread.performed + 1 } :: after).filterMap
          SessionThread.slot? =
        before.filterMap SessionThread.slot? ++
          after.filterMap SessionThread.slot? := by
    simp [returned]
  have was :
      app.threads.filterMap SessionThread.slot? =
        before.filterMap SessionThread.slot? ++
          thread.connection.number :: after.filterMap SessionThread.slot? := by
    simp [split, held]
  refine orderly.replace split ?_ ?_ ?_ ?_ ?_
  · rfl
  · exact ⟨releases, atMost⟩
  · have counts := orderly.counts
    rw [ServerApp.holders, was, ← List.append_assoc] at counts
    rw [left, ← List.append_assoc]
    exact (counts.perm List.perm_middle).fetchSub
  · exact SlotCounter.takers_fetchSub _ _
  · rw [left, was]
    simp

/-- A thread that has returned its slot ends. -/
theorem Orderly.finish
    (orderly : Orderly inetPtonA app)
    {before after : List SessionThread}
    {thread : SessionThread}
    (split : app.threads = before ++ thread :: after)
    (slot : thread.slot? = none) :
    Orderly inetPtonA { app with threads := before ++ after } := by
  have fewer : (before ++ after).Sublist app.threads := by
    rw [split]
    exact (List.sublist_cons_self _ _).append_left _
  have sameSlots :
      (before ++ after).filterMap SessionThread.slot? =
        app.threads.filterMap SessionThread.slot? := by
    simp [split, slot]
  have fewerSockets :
      ({ app with threads := before ++ after } : ServerApp).openSockets.Sublist
        app.openSockets :=
    (fewer.map _).append_left _
  exact
    { unstarted := fun isStarting => by
        have noThread := orderly.unstarted isStarting
        rw [noThread] at fewer
        exact List.sublist_nil.mp fewer
      distinct := orderly.distinct.sublist fewerSockets
      inRange := fun fd member => orderly.inRange fd (fewerSockets.subset member)
      releases := fun other member =>
        orderly.releases other (fewer.subset member)
      allowed := fun other member => orderly.allowed other (fewer.subset member)
      screened := orderly.screened
      counts := by
        rw [ServerApp.holders, sameSlots]
        exact orderly.counts
      numbered := orderly.numbered
      unclaimed := orderly.unclaimed
      capped := by
        rw [sameSlots]
        exact orderly.capped }

/-- Every action of a session thread keeps order. -/
theorem Orderly.sessionStep
    (orderly : Orderly inetPtonA app)
    (index : Nat)
    (turn : Turn) :
    Orderly inetPtonA (app.sessionStep sha256 index turn) := by
  unfold ServerApp.sessionStep
  cases found : app.threads[index]? with
  | none =>
      exact orderly
  | some thread =>
      obtain ⟨before, after, split, replaced, erased⟩ := split_at found
      obtain ⟨releases, inside⟩ :=
        orderly.releases thread (List.mem_of_getElem? found)
      dsimp only
      split
      · next effect next =>
          have atMost : thread.performed + 1 ≤ thread.session.trace.length :=
            (List.getElem?_eq_some_iff.mp next).1
          rw [replaced]
          by_cases isRelease : effect = .releaseSlot
          · subst isRelease
            exact orderly.release split releases next
          · rw [if_neg isRelease]
            exact orderly.replace_same split rfl ⟨releases, atMost⟩
              (slot_of_other_effect next isRelease)
      · next unfinished exhausted closed =>
          rw [erased]
          exact orderly.finish split (slot_none_of_closed releases closed exhausted)
      · next exhausted =>
          rw [replaced]
          have taken :
              ReleasesLast
                (thread.session.step sha256 thread.setup
                  { turn with running := app.running }) :=
            releasesLast_step releases { turn with running := app.running }
          have longer :
              thread.performed ≤
                (thread.session.step sha256 thread.setup
                  { turn with running := app.running }).trace.length := by
            have extended :
                ∃ effects,
                  (thread.session.step sha256 thread.setup
                      { turn with running := app.running }).trace =
                    thread.session.trace ++ effects :=
              ⟨_, rfl⟩
            obtain ⟨effects, shape⟩ := extended
            rw [shape, List.length_append]
            exact Nat.le_add_right_of_le inside
          exact orderly.replace_same split rfl ⟨taken, longer⟩
            (slot_of_turn inside _)

/-- Every action keeps order. -/
theorem Orderly.step
    (orderly : Orderly inetPtonA app)
    {event : ServerEvent}
    (fresh : FreshHandle app event) :
    Orderly inetPtonA (app.step sha256 inetPtonA event) := by
  unfold ServerApp.step
  split
  · exact orderly
  · cases event with
    | acceptLoop answer => exact orderly.acceptStep fresh
    | session index turn => exact orderly.sessionStep index turn
    | clearRunning => exact { orderly with }
    | closeListener => exact { orderly with }

end Preserved

/-! ## The cap -/

/--
The sessions that are running were let in by the allow-list, are at most
`maxSessions`, and are what the counter counts whenever the accept loop has no
connection at hand.  The counter never goes below zero, and every slot that was
granted is held by the accept loop or a running session, or was returned once.
-/
structure KeepsCap (inetPtonA : InetPton) (app : ServerApp) : Prop where
  allowed :
    ∀ thread ∈ app.runningSessions,
      app.isPeerAllowed inetPtonA thread.connection.peer.ip = true
  capped : app.runningSessions.length ≤ app.cfg.maxSessions.toNat
  noUnderflow :
    ∀ owner old, .returned owner old ∈ app.activeSessions.history → old ≠ 0
  returnedOnce :
    app.activeSessions.takers.Nodup ∧
      app.activeSessions.takers.Perm
        (app.activeSessions.returners ++
          (app.point.holders ++
            app.runningSessions.map fun thread => thread.connection.number))
  counted :
    app.point.connections = [] →
      app.activeSessions.value.toNat = app.runningSessions.length

/-- The slots of the threads are those of the running sessions. -/
theorem slots_eq_running
    (app : ServerApp) :
    app.threads.filterMap SessionThread.slot? =
      app.runningSessions.map fun thread => thread.connection.number := by
  rw [ServerApp.runningSessions]
  induction app.threads with
  | nil =>
      rfl
  | cons thread rest inductionHypothesis =>
      cases gone : thread.exited with
      | true =>
          simp [SessionThread.slot?, gone, inductionHypothesis]
      | false =>
          simp [SessionThread.slot?, gone, inductionHypothesis]

/-- What is orderly keeps the cap. -/
theorem Orderly.keepsCap
    {inetPtonA : InetPton}
    {app : ServerApp}
    (orderly : Orderly inetPtonA app) :
    KeepsCap inetPtonA app := by
  have counts := orderly.counts
  have capped := orderly.capped
  rw [ServerApp.holders, slots_eq_running] at counts
  rw [slots_eq_running, List.length_map] at capped
  refine
    { allowed := fun thread member =>
        orderly.allowed thread (List.mem_of_mem_filter member)
      capped := Nat.le_trans (Nat.le_add_left _ _) capped
      noUnderflow := counts.noUnderflow
      returnedOnce := ⟨counts.distinct, counts.once⟩
      counted := fun idle => ?_ }
  have noHolder : app.point.holders = [] := by
    cases here : app.point with
    | overCap c => rw [here] at idle; cases idle
    | admitted c => rw [here] at idle; cases idle
    | wrapping c => rw [here] at idle; cases idle
    | unwrapped c => rw [here] at idle; cases idle
    | spawning c => rw [here] at idle; cases idle
    | _ => rfl
  rw [counts.value, noHolder, List.nil_append, List.length_map]

/--
In every run of the accept loop, its session threads and `stop`, the session cap
is kept.
-/
theorem session_cap
    (sha256 : Bytes → Hash256)
    (inetPtonA : InetPton)
    (cfg : ServerConfig)
    (events : List ServerEvent)
    (fresh :
      StepRuns.Allowed (ServerApp.step sha256 inetPtonA) FreshHandle { cfg }
        events) :
    KeepsCap inetPtonA
      (StepRuns.run (ServerApp.step sha256 inetPtonA) { cfg } events) := by
  have orderly :
      Orderly inetPtonA
        (StepRuns.run (ServerApp.step sha256 inetPtonA) { cfg } events) :=
    fresh.invariant (fun _ _ isFresh before => before.step isFresh)
      (orderly_constructed inetPtonA cfg)
  exact orderly.keepsCap

/-- A resolver that knows one address. -/
def loopbackPton : InetPton
  | .inet, text =>
      if text = ascii "127.0.0.1" then some ⟨[127, 0, 0, 1], rfl⟩ else none
  | .inet6, _ => none

/-- A server that one peer may reach. -/
def loopbackConfig : ServerConfig where
  allowSubnets := ascii "127.0.0.1"
  maxSessions := 1
  users := [{ username := ascii "a", argon2Hash := ascii "h" }]

/-- A connection that `accept` returns, and what `run` then does about it. -/
def connectionFrom (fd : Socket) (ip : String) (actions : Nat) :
    List ServerEvent :=
  .acceptLoop {} ::
    .acceptLoop { connection := some (fd, { ip := ascii ip, port := 50000 }) } ::
      List.replicate actions (.acceptLoop {})

/--
A first session fails in its handshake while a second connection is refused for
the cap; then a stranger is refused, and a fourth connection gets the slot.
-/
def reusedSlot : List ServerEvent :=
  [.acceptLoop {}] ++
    connectionFrom 4 "127.0.0.1" 5 ++
    [.session 0 {}, .session 0 { handshake := false }] ++
    connectionFrom 5 "127.0.0.1" 4 ++
    [.session 0 {}, .session 0 {}] ++
    connectionFrom 6 "10.0.0.1" 2 ++
    connectionFrom 7 "127.0.0.1" 5

/-- The server after that. -/
def reusedServer : ServerApp :=
  StepRuns.run (ServerApp.step evpSha256 loopbackPton) { cfg := loopbackConfig }
    reusedSlot

theorem session_cap_reusedSlot :
    reusedServer.activeSessions.takers = [0, 1, 3] ∧
      reusedServer.activeSessions.returners = [1, 0] ∧
      (reusedServer.runningSessions.map fun thread =>
          thread.connection.number) =
        [3] ∧
      KeepsCap loopbackPton reusedServer :=
  ⟨by decide +kernel, by decide +kernel, by decide +kernel,
    session_cap evpSha256 loopbackPton loopbackConfig reusedSlot
      (by decide +kernel)⟩

end RadminPro
