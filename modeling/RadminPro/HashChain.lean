import Mathlib.Data.List.Induction

namespace RadminPro.HashChain

/-!
# Hash chains

A log of rows in which every link is computed from the previous link and the
row it belongs to, starting from a genesis link.  The tip of the log is the
link that the next row must continue from.
-/

variable {Row Link : Type}

/-- Every link continues from the one before it, the first from `genesis`. -/
def Linked (hash : Link → Row → Link) : Link → List (Row × Link) → Prop
  | _, [] => True
  | previous, (row, link) :: rest =>
      link = hash previous row ∧ Linked hash link rest

/-- Being linked can be checked by recomputing every link. -/
instance Linked.decidable
    [DecidableEq Link]
    (hash : Link → Row → Link) :
    ∀ (genesis : Link) (log : List (Row × Link)),
      Decidable (Linked hash genesis log)
  | _, [] => .isTrue trivial
  | _, (_, link) :: rest =>
      have := Linked.decidable hash link rest
      inferInstanceAs (Decidable (_ ∧ _))

/-- The last link of a log, or the genesis link of an empty one. -/
def tip (genesis : Link) (log : List (Row × Link)) : Link :=
  (log.getLast?.map Prod.snd).getD genesis

/-- An empty log stands at its genesis link. -/
@[simp] theorem tip_nil
    (genesis : Link) :
    tip genesis ([] : List (Row × Link)) = genesis :=
  rfl

/-- A log stands at the link appended last. -/
@[simp] theorem tip_append_singleton
    (genesis : Link)
    (log : List (Row × Link))
    (entry : Row × Link) :
    tip genesis (log ++ [entry]) = entry.2 := by
  simp [tip]

/-- The first link is behind the tip of the rest. -/
theorem tip_cons
    (genesis : Link)
    (row : Row)
    (link : Link)
    (rest : List (Row × Link)) :
    tip genesis ((row, link) :: rest) = tip link rest := by
  cases rest with
  | nil =>
      rfl
  | cons next later =>
      simp [tip, List.getLast?_cons]

/-- Linked logs concatenate where the second continues from the first's tip. -/
theorem linked_append
    {hash : Link → Row → Link}
    {genesis : Link}
    {first second : List (Row × Link)} :
    Linked hash genesis (first ++ second) ↔
      Linked hash genesis first ∧
        Linked hash (tip genesis first) second := by
  induction first generalizing genesis with
  | nil =>
      simp [Linked]
  | cons entry rest inductionHypothesis =>
      obtain ⟨row, link⟩ := entry
      simp only [List.cons_append, Linked, tip_cons, inductionHypothesis,
        and_assoc]

/-- Appending the row that hashes from the tip keeps a log linked. -/
theorem linked_snoc
    {hash : Link → Row → Link}
    {genesis : Link}
    {log : List (Row × Link)}
    (linked : Linked hash genesis log)
    (row : Row) :
    Linked hash genesis (log ++ [(row, hash (tip genesis log) row)]) :=
  linked_append.mpr ⟨linked, rfl, trivial⟩

/-! ## Binding -/

/-- What is hashed along a log: each row with the link before it. -/
def steps : Link → List (Row × Link) → List (Link × Row)
  | _, [] => []
  | previous, (row, link) :: rest => (previous, row) :: steps link rest

/-- The steps of a longer log are those of its parts. -/
theorem steps_append
    (genesis : Link)
    (first second : List (Row × Link)) :
    steps genesis (first ++ second) =
      steps genesis first ++ steps (tip genesis first) second := by
  induction first generalizing genesis with
  | nil =>
      rfl
  | cons entry rest inductionHypothesis =>
      obtain ⟨row, link⟩ := entry
      simp [steps, inductionHypothesis, tip_cons]

/-- No two of the steps hash alike, and none hashes to the genesis link. -/
structure Binding
    (hash : Link → Row → Link)
    (genesis : Link)
    (hashed : List (Link × Row)) : Prop where
  injective :
    ∀ first ∈ hashed, ∀ second ∈ hashed,
      hash first.1 first.2 = hash second.1 second.2 → first = second
  notGenesis : ∀ step ∈ hashed, hash step.1 step.2 ≠ genesis

/-- Fewer steps are bound as well. -/
theorem Binding.mono
    {hash : Link → Row → Link}
    {genesis : Link}
    {fewer more : List (Link × Row)}
    (binding : Binding hash genesis more)
    (subset : fewer ⊆ more) :
    Binding hash genesis fewer where
  injective first isFirst second isSecond :=
    binding.injective first (subset isFirst) second (subset isSecond)
  notGenesis step isStep := binding.notGenesis step (subset isStep)

/-- A linked log that is not empty does not stand at the genesis link. -/
theorem tip_ne_genesis
    {hash : Link → Row → Link}
    {genesis : Link}
    {log : List (Row × Link)}
    {entry : Row × Link}
    (linked : Linked hash genesis (log ++ [entry]))
    (binding : Binding hash genesis (steps genesis (log ++ [entry]))) :
    tip genesis (log ++ [entry]) ≠ genesis := by
  have lastLinked := (linked_append.mp linked).2.1
  rw [tip_append_singleton, lastLinked]
  apply binding.notGenesis (tip genesis log, entry.1)
  simp [steps_append, steps]

/-- The tip binds the whole log: linked logs with the same tip are the same. -/
theorem eq_of_tip_eq
    {hash : Link → Row → Link}
    {genesis : Link}
    {first second : List (Row × Link)}
    (firstLinked : Linked hash genesis first)
    (secondLinked : Linked hash genesis second)
    (binding : Binding hash genesis (steps genesis first ++ steps genesis second))
    (sameTip : tip genesis first = tip genesis second) :
    first = second := by
  induction first using List.reverseRecOn generalizing second with
  | nil =>
      rcases List.eq_nil_or_concat second with rfl | ⟨other, last, rfl⟩
      · rfl
      · rw [List.concat_eq_append] at *
        have reached := tip_ne_genesis secondLinked
          (binding.mono (List.subset_append_right _ _))
        exact absurd sameTip.symm reached
  | append_singleton earlier entry inductionHypothesis =>
      rcases List.eq_nil_or_concat second with rfl | ⟨other, last, rfl⟩
      · have reached := tip_ne_genesis firstLinked
          (binding.mono (List.subset_append_left _ _))
        exact absurd sameTip reached
      · rw [List.concat_eq_append] at *
        obtain ⟨row, link⟩ := entry
        obtain ⟨otherRow, otherLink⟩ := last
        obtain ⟨earlierLinked, isLink, _⟩ := linked_append.mp firstLinked
        obtain ⟨otherLinked, isOtherLink, _⟩ := linked_append.mp secondLinked
        simp only [tip_append_singleton] at sameTip
        -- Equal links were hashed from the same row and the same link before it.
        have sameStep :
            (tip genesis earlier, row) = (tip genesis other, otherRow) := by
          apply binding.injective
          · simp [steps_append, steps]
          · simp [steps_append, steps]
          · rw [← isLink, ← isOtherLink, sameTip]
        obtain ⟨sameBefore, rfl⟩ := Prod.mk.inj sameStep
        have sameEarlier : earlier = other := by
          apply inductionHypothesis earlierLinked otherLinked _ sameBefore
          apply binding.mono
          simp only [steps_append]
          intro step member
          rcases List.mem_append.mp member with inEarlier | inOther
          · simp [inEarlier]
          · simp [inOther]
        rw [sameEarlier, sameTip]

end RadminPro.HashChain
