import RadminPro.SessionMediation

namespace RadminPro

open ByteCodec
open TracePolicy

/-!
# The ledger of uploads

A client may send blocks and completions for any id in any order.  A verdict
speaks about one accepted request all the same: about the blocks that carried
its id since it was accepted.  The entries of the upload map are tied to the
history of the session by an invariant.
-/

/-! ## Reading a history -/

/-- The transfer id that an effect announces to the client. -/
def acceptedId : Effect → Option UInt32
  | .send (.known .fileAccept) payload _ =>
      match FileAcceptMsg.decode payload with
      | .ok acc => some acc.transferId
      | .error _ => none
  | _ => none

/-- The verdict that an effect sends to the client. -/
def verdictOf : Effect → Option FileVerifyMsg
  | .send (.known .fileVerify) payload _ =>
      match FileVerifyMsg.decode payload with
      | .ok v => some v
      | .error _ => none
  | _ => none

/-- The data that an effect brings in for a transfer. -/
def blockOf (id : UInt32) : Effect → Bytes
  | .received m =>
      if m.op = .known .fileBlock then
        match FileBlockMsg.decode m.payload with
        | .ok blk => if blk.transferId = id then blk.data else []
        | .error _ => []
      else
        []
  | _ => []

/-- The blocks of a transfer, in the order they came in. -/
def blockData (id : UInt32) (trace : List Effect) : Bytes :=
  trace.flatMap (blockOf id)

/-- The number of transfers that were accepted. -/
def accepts (trace : List Effect) : Nat :=
  trace.countP fun effect => (acceptedId effect).isSome

/-- The message that an effect takes in. -/
def receivedMessage : Effect → Option Message
  | .received m => some m
  | _ => none

/-- The last message that came in asked for this upload. -/
def Requested (req : FileUploadReqMsg) (trace : List Effect) : Prop :=
  ∃ m,
    (trace.filterMap receivedMessage).getLast? = some m ∧
      m.op = .known .fileUploadReq ∧
      FileUploadReqMsg.decode m.payload = .ok req

/--
A request for an upload was accepted under this id and has not been answered;
since then the blocks with this id have brought in this data.
-/
structure OpenUpload
    (id : UInt32)
    (req : FileUploadReqMsg)
    (data : Bytes)
    (trace : List Effect) : Prop where
  accepted :
    ∃ earlier accept between,
      trace = earlier ++ accept :: between ∧
        acceptedId accept = some id ∧
        Requested req earlier ∧
        data = blockData id between ∧
        (∀ effect ∈ earlier, acceptedId effect ≠ some id) ∧
        ∀ effect ∈ between, acceptedId effect ≠ some id
  unanswered : ∀ effect ∈ trace, ∀ v, verdictOf effect = some v → v.transferId ≠ id

/--
A verdict answers an open upload.  It is `Ok` only if the data has the declared
size, as far as it is measured, and the declared hash; it is `HashMismatch` only
if it lacks one of the two.
-/
def VerdictFair
    (sha256 : Bytes → Hash256)
    (measured : Nat → Nat) : List Effect → Effect → Prop :=
  fun before effect =>
    ∀ v,
      verdictOf effect = some v →
      ∃ req data,
        OpenUpload v.transferId req data before ∧
          (v.status = .known .ok →
            measured data.length = req.size.toNat ∧
              sha256 data = req.sha256) ∧
          (v.status = .known .hashMismatch →
            data.length ≠ req.size.toNat ∨ sha256 data ≠ req.sha256)

/-! ## Histories that grow -/

/-- The effect neither announces a transfer nor answers one. -/
def Silent (effect : Effect) : Prop :=
  acceptedId effect = none ∧ verdictOf effect = none

@[simp] theorem blockData_nil (id : UInt32) : blockData id [] = [] :=
  rfl

@[simp] theorem blockData_cons
    (id : UInt32)
    (effect : Effect)
    (rest : List Effect) :
    blockData id (effect :: rest) = blockOf id effect ++ blockData id rest :=
  List.flatMap_cons

@[simp] theorem blockData_append
    (id : UInt32)
    (earlier later : List Effect) :
    blockData id (earlier ++ later) =
      blockData id earlier ++ blockData id later :=
  List.flatMap_append

@[simp] theorem accepts_append
    (earlier later : List Effect) :
    accepts (earlier ++ later) = accepts earlier + accepts later :=
  List.countP_append

/-- Silent effects accept nothing. -/
theorem accepts_of_silent
    {effects : List Effect}
    (silent : ∀ effect ∈ effects, Silent effect) :
    accepts effects = 0 :=
  List.countP_eq_zero.mpr fun effect member => by
    simp [(silent effect member).1]

/-- What is not received brings in no data. -/
theorem blockData_of_unreceived
    {effects : List Effect}
    (unreceived : ∀ effect ∈ effects, receivedMessage effect = none)
    (id : UInt32) :
    blockData id effects = [] := by
  refine List.flatMap_eq_nil_iff.mpr fun effect member => ?_
  have none := unreceived effect member
  cases effect with
  | received m => cases none
  | _ => rfl

/-- An open upload stays open while others are accepted and answered. -/
theorem OpenUpload.append
    {id : UInt32}
    {req : FileUploadReqMsg}
    {data : Bytes}
    {trace : List Effect}
    (effects : List Effect)
    (isOpen : OpenUpload id req data trace)
    (notAccepted : ∀ effect ∈ effects, acceptedId effect ≠ some id)
    (notAnswered :
      ∀ effect ∈ effects, ∀ v, verdictOf effect = some v → v.transferId ≠ id) :
    OpenUpload id req (data ++ blockData id effects) (trace ++ effects) := by
  obtain ⟨⟨earlier, accept, between, rfl, accepted, requested, rfl, before,
    after⟩, unanswered⟩ := isOpen
  refine ⟨⟨earlier, accept, between ++ effects, by simp, accepted, requested,
    by simp, before, fun effect member => ?_⟩, fun effect member => ?_⟩
  · rcases List.mem_append.mp member with inBetween | isNew
    · exact after effect inBetween
    · exact notAccepted effect isNew
  · rcases List.mem_append.mp member with inTrace | isNew
    · exact unanswered effect inTrace
    · exact notAnswered effect isNew

/-- An open upload stays open through silent effects. -/
theorem OpenUpload.silent
    {id : UInt32}
    {req : FileUploadReqMsg}
    {data : Bytes}
    {trace effects : List Effect}
    (isOpen : OpenUpload id req data trace)
    (silent : ∀ effect ∈ effects, Silent effect) :
    OpenUpload id req (data ++ blockData id effects) (trace ++ effects) :=
  isOpen.append effects
    (fun effect member => by simp [(silent effect member).1])
    (fun effect member v isVerdict => by
      rw [(silent effect member).2] at isVerdict
      cases isVerdict)

/-! ## The invariant -/

/-- What the history says about the variables of the event loop. -/
structure Ledger
    (sha256 : Bytes → Hash256)
    (trace : List Effect)
    (loop : LoopState) : Prop where
  counted : loop.nextTransferId = UInt32.ofNat (accepts trace + 1)
  issued :
    ∀ effect ∈ trace, ∀ id,
      acceptedId effect = some id →
      0 < id.toNat ∧ id.toNat ≤ accepts trace
  answered :
    ∀ effect ∈ trace, ∀ v,
      verdictOf effect = some v →
      ∃ accept ∈ trace, acceptedId accept = some v.transferId
  uploads :
    ∀ (id : UInt32) (st : UploadState),
      loop.uploads[id]? = some st →
      ∃ req,
        OpenUpload id req st.hasher.fed trace ∧
          st.expected = req.size ∧
          st.declared = req.sha256 ∧
          st.received = UInt64.ofNat st.hasher.fed.length
  fair : Obeys (VerdictFair sha256 (· % 2 ^ 64)) trace

section Ledgers

variable {sha256 : Bytes → Hash256}
variable {trace effects : List Effect}
variable {loop : LoopState}

/-- A silent effect is a fair one. -/
theorem obeys_of_silent
    {measured : Nat → Nat}
    (silent : ∀ effect ∈ effects, Silent effect) :
    Obeys (fun before => VerdictFair sha256 measured (trace ++ before))
      effects :=
  obeys_of_forall fun effect member before v isVerdict => by
    rw [(silent effect member).2] at isVerdict
    cases isVerdict

/-- The ledger stays true through silent effects without data for its uploads. -/
theorem Ledger.silent
    (ledger : Ledger sha256 trace loop)
    (silent : ∀ effect ∈ effects, Silent effect)
    (noData :
      ∀ (id : UInt32) (st : UploadState),
        loop.uploads[id]? = some st → blockData id effects = []) :
    Ledger sha256 (trace ++ effects) loop := by
  have sameCount : accepts (trace ++ effects) = accepts trace := by
    rw [accepts_append, accepts_of_silent silent, Nat.add_zero]
  constructor
  · rw [sameCount]
    exact ledger.counted
  · intro effect member id accepted
    rw [sameCount]
    rcases List.mem_append.mp member with earlier | isNew
    · exact ledger.issued effect earlier id accepted
    · rw [(silent effect isNew).1] at accepted
      cases accepted
  · intro effect member v isVerdict
    rcases List.mem_append.mp member with earlier | isNew
    · obtain ⟨accept, isAccept, same⟩ :=
        ledger.answered effect earlier v isVerdict
      exact ⟨accept, List.mem_append_left _ isAccept, same⟩
    · rw [(silent effect isNew).2] at isVerdict
      cases isVerdict
  · intro id st found
    obtain ⟨req, isOpen, rest⟩ := ledger.uploads id st found
    have stillOpen := isOpen.silent silent
    rw [noData id st found, List.append_nil] at stillOpen
    exact ⟨req, stillOpen, rest⟩
  · exact obeys_append.mpr ⟨ledger.fair, obeys_of_silent silent⟩

/-- The ledger stays true through silent effects that receive nothing. -/
theorem Ledger.inert
    (ledger : Ledger sha256 trace loop)
    (silent : ∀ effect ∈ effects, Silent effect)
    (unreceived : ∀ effect ∈ effects, receivedMessage effect = none) :
    Ledger sha256 (trace ++ effects) loop :=
  ledger.silent silent fun id _ _ => blockData_of_unreceived unreceived id

/-- Ids that are still to be issued have not been announced. -/
theorem Ledger.fresh
    (ledger : Ledger sha256 trace loop)
    (bounded : accepts trace + 1 < 2 ^ 32) :
    loop.nextTransferId.toNat = accepts trace + 1 ∧
      ∀ effect ∈ trace, acceptedId effect ≠ some loop.nextTransferId := by
  have next : loop.nextTransferId.toNat = accepts trace + 1 := by
    rw [ledger.counted]
    exact UInt32.toNat_ofNat_of_lt' bounded
  refine ⟨next, fun effect member accepted => ?_⟩
  have isIssued := (ledger.issued effect member _ accepted).2
  omega

/-- An upload under way was announced. -/
theorem OpenUpload.announced
    {id : UInt32}
    {req : FileUploadReqMsg}
    {data : Bytes}
    (isOpen : OpenUpload id req data trace) :
    ∃ accept ∈ trace, acceptedId accept = some id := by
  obtain ⟨earlier, accept, between, rfl, accepted, _⟩ := isOpen.accepted
  exact ⟨accept, by simp, accepted⟩

/-- A transfer is announced under the next id. -/
theorem Ledger.accept
    {accept : Effect}
    (ledger : Ledger sha256 trace loop)
    (bounded : accepts trace + 1 < 2 ^ 32)
    (accepted : acceptedId accept = some loop.nextTransferId)
    (noVerdict : verdictOf accept = none)
    (unreceived : receivedMessage accept = none) :
    Ledger sha256 (trace ++ [accept])
      { loop with nextTransferId := loop.nextTransferId + 1 } := by
  obtain ⟨next, fresh⟩ := ledger.fresh bounded
  have count : accepts (trace ++ [accept]) = accepts trace + 1 := by
    simp [accepts, accepted]
  have noAnswer :
      ∀ effect ∈ [accept], ∀ v, verdictOf effect ≠ some v := by
    intro effect member v isVerdict
    rw [List.mem_singleton.mp member, noVerdict] at isVerdict
    cases isVerdict
  constructor
  · rw [count]
    change loop.nextTransferId + 1 = _
    rw [ledger.counted]
    simp
  · intro effect member id isAccepted
    rw [count]
    rcases List.mem_append.mp member with earlier | isNew
    · have isIssued := ledger.issued effect earlier id isAccepted
      omega
    · rw [List.mem_singleton.mp isNew, accepted] at isAccepted
      cases isAccepted
      omega
  · intro effect member v isVerdict
    rcases List.mem_append.mp member with earlier | isNew
    · obtain ⟨other, isAccept, same⟩ :=
        ledger.answered effect earlier v isVerdict
      exact ⟨other, List.mem_append_left _ isAccept, same⟩
    · exact absurd isVerdict (noAnswer effect isNew v)
  · intro id st found
    obtain ⟨req, isOpen, rest⟩ := ledger.uploads id st found
    have stillOpen :=
      isOpen.append [accept]
        (fun effect isNew isAccepted => by
          obtain ⟨other, member, same⟩ := isOpen.announced
          rw [List.mem_singleton.mp isNew, accepted] at isAccepted
          cases isAccepted
          exact fresh other member same)
        (fun effect isNew v isVerdict =>
          absurd isVerdict (noAnswer effect isNew v))
    rw [blockData_of_unreceived (by simpa using unreceived), List.append_nil]
      at stillOpen
    exact ⟨req, stillOpen, rest⟩
  · refine obeys_append.mpr ⟨ledger.fair, obeys_of_forall ?_⟩
    exact fun effect member before v isVerdict =>
      absurd isVerdict (noAnswer effect member v)

/-- An announced upload is open and has no data yet. -/
theorem Ledger.opened
    {accept : Effect}
    {req : FileUploadReqMsg}
    (ledger : Ledger sha256 trace loop)
    (bounded : accepts trace + 1 < 2 ^ 32)
    (requested : Requested req trace)
    (accepted : acceptedId accept = some loop.nextTransferId)
    (noVerdict : verdictOf accept = none) :
    OpenUpload loop.nextTransferId req [] (trace ++ [accept]) := by
  obtain ⟨_, fresh⟩ := ledger.fresh bounded
  refine ⟨⟨trace, accept, [], rfl, accepted, requested, rfl, fresh, by simp⟩, ?_⟩
  intro effect member v isVerdict same
  rcases List.mem_append.mp member with earlier | isNew
  · obtain ⟨other, isAccept, announced⟩ :=
      ledger.answered effect earlier v isVerdict
    rw [same] at announced
    exact fresh other isAccept announced
  · rw [List.mem_singleton.mp isNew, noVerdict] at isVerdict
    cases isVerdict

/-- An open upload can be entered into the map. -/
theorem Ledger.insert
    {id : UInt32}
    {st : UploadState}
    {req : FileUploadReqMsg}
    (ledger : Ledger sha256 trace loop)
    (isOpen : OpenUpload id req st.hasher.fed trace)
    (expected : st.expected = req.size)
    (declared : st.declared = req.sha256)
    (received : st.received = UInt64.ofNat st.hasher.fed.length) :
    Ledger sha256 trace { loop with uploads := loop.uploads.insert id st } := by
  refine ⟨ledger.counted, ledger.issued, ledger.answered, ?_, ledger.fair⟩
  intro other otherState found
  simp only [Std.TreeMap.getElem?_insert] at found
  split at found
  · next same =>
      cases found
      rw [← Std.compare_eq_iff_eq.mp same]
      exact ⟨req, isOpen, expected, declared, received⟩
  · exact ledger.uploads other otherState found

/-- A block goes into the upload that it names. -/
theorem Ledger.block
    {m : Message}
    {blk : FileBlockMsg}
    {st next : UploadState}
    (ledger : Ledger sha256 trace loop)
    (op : m.op = .known .fileBlock)
    (decoded : FileBlockMsg.decode m.payload = .ok blk)
    (found : loop.uploads[blk.transferId]? = some st)
    (expected : next.expected = st.expected)
    (declared : next.declared = st.declared)
    (fed : next.hasher.fed = st.hasher.fed ++ blk.data)
    (received : next.received = st.received + UInt64.ofNat blk.data.length) :
    Ledger sha256 (trace ++ [.received m])
      { loop with uploads := loop.uploads.insert blk.transferId next } := by
  have silent : ∀ effect ∈ [Effect.received m], Silent effect := by
    simp [Silent, acceptedId, verdictOf]
  have data :
      ∀ id,
        blockData id [.received m] =
          if blk.transferId = id then blk.data else [] := by
    intro id
    simp [blockOf, op, decoded]
  -- Without the entry that the block goes into, the block is nobody's data.
  have others :
      Ledger sha256 (trace ++ [.received m])
        { loop with uploads := loop.uploads.erase blk.transferId } := by
    refine Ledger.silent ?_ silent ?_
    · refine ⟨ledger.counted, ledger.issued, ledger.answered, ?_, ledger.fair⟩
      intro id other isOther
      simp only [Std.TreeMap.getElem?_erase] at isOther
      split at isOther
      · cases isOther
      · exact ledger.uploads id other isOther
    · intro id other isOther
      simp only [Std.TreeMap.getElem?_erase] at isOther
      split at isOther
      · cases isOther
      · next different =>
          rw [data, if_neg fun same =>
            different (Std.compare_eq_iff_eq.mpr same)]
  obtain ⟨req, isOpen, wasExpected, wasDeclared, wasReceived⟩ :=
    ledger.uploads _ st found
  have stillOpen := isOpen.silent silent
  rw [data, if_pos rfl, ← fed] at stillOpen
  refine ⟨others.counted, others.issued, others.answered, ?_, others.fair⟩
  intro id other isOther
  simp only [Std.TreeMap.getElem?_insert] at isOther
  split at isOther
  · next same =>
      cases isOther
      rw [← Std.compare_eq_iff_eq.mp same]
      refine ⟨req, stillOpen, expected.trans wasExpected,
        declared.trans wasDeclared, ?_⟩
      rw [received, wasReceived, fed, List.length_append, UInt64.ofNat_add]
  · next different =>
      refine others.uploads id other ?_
      simpa [Std.TreeMap.getElem?_erase, different] using isOther

/-- An upload is answered once, by what was received and fed for it. -/
theorem Ledger.answer
    {answer : Effect}
    {v : FileVerifyMsg}
    {st : UploadState}
    (ledger : Ledger sha256 trace loop)
    (found : loop.uploads[v.transferId]? = some st)
    (isVerdict : verdictOf answer = some v)
    (noAccept : acceptedId answer = none)
    (unreceived : receivedMessage answer = none)
    (accepted :
      v.status = .known .ok →
        st.received = st.expected ∧ sha256 st.hasher.fed = st.declared)
    (refused :
      v.status = .known .hashMismatch →
        st.received ≠ st.expected ∨ sha256 st.hasher.fed ≠ st.declared) :
    Ledger sha256 (trace ++ [answer])
      { loop with uploads := loop.uploads.erase v.transferId } := by
  have sameCount : accepts (trace ++ [answer]) = accepts trace := by
    simp [accepts, noAccept]
  obtain ⟨req, isOpen, expected, declared, received⟩ :=
    ledger.uploads _ st found
  constructor
  · rw [sameCount]
    exact ledger.counted
  · intro effect member id isAccepted
    rw [sameCount]
    rcases List.mem_append.mp member with earlier | isNew
    · exact ledger.issued effect earlier id isAccepted
    · rw [List.mem_singleton.mp isNew, noAccept] at isAccepted
      cases isAccepted
  · intro effect member other isOther
    rcases List.mem_append.mp member with earlier | isNew
    · obtain ⟨accept, isAccept, same⟩ :=
        ledger.answered effect earlier other isOther
      exact ⟨accept, List.mem_append_left _ isAccept, same⟩
    · rw [List.mem_singleton.mp isNew, isVerdict] at isOther
      cases isOther
      obtain ⟨accept, isAccept, same⟩ := isOpen.announced
      exact ⟨accept, List.mem_append_left _ isAccept, same⟩
  · intro id other isOther
    simp only [Std.TreeMap.getElem?_erase] at isOther
    split at isOther
    · cases isOther
    · next different =>
        obtain ⟨otherReq, otherOpen, rest⟩ := ledger.uploads id other isOther
        have stillOpen :=
          otherOpen.append [answer]
            (by simp [noAccept])
            (fun effect member w isOtherVerdict same => by
              rw [List.mem_singleton.mp member, isVerdict] at isOtherVerdict
              cases isOtherVerdict
              exact different (Std.compare_eq_iff_eq.mpr same))
        rw [blockData_of_unreceived (by simpa using unreceived),
          List.append_nil] at stillOpen
        exact ⟨otherReq, stillOpen, rest⟩
  · refine obeys_append.mpr ⟨ledger.fair, ?_⟩
    intro before effect after shape w isOther
    obtain ⟨rfl, rfl⟩ : before = [] ∧ effect = answer := by
      cases before with
      | nil =>
          rw [List.nil_append, List.cons.injEq] at shape
          exact ⟨rfl, shape.1.symm⟩
      | cons head tail => simp at shape
    rw [isVerdict] at isOther
    cases isOther
    have length : st.received = UInt64.ofNat st.hasher.fed.length := received
    refine ⟨req, st.hasher.fed, by rwa [List.append_nil], ?_, ?_⟩
    · intro isOk
      obtain ⟨sizeOk, hashOk⟩ := accepted isOk
      refine ⟨?_, hashOk.trans declared⟩
      rw [← expected, ← sizeOk, length]
      rfl
    · intro isMismatch
      rcases refused isMismatch with size | hash
      · refine .inl fun same => size ?_
        rw [length, same, expected]
        simp
      · refine .inr fun same => hash ?_
        rw [same, declared]

end Ledgers

end RadminPro
