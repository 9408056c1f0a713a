import Mathlib.Data.List.DropRight

namespace RadminPro.TrimmedText

/-!
# Texts without blanks at their ends

Trimming removes the blanks at both ends of a text.  What stands before a solid
symbol is kept at the right end, what stands behind one at the left end.
-/

variable {Symbol : Type} (blank : Symbol → Bool)

/-- The text without the blanks at its ends. -/
def trim (text : List Symbol) : List Symbol :=
  (text.dropWhile blank).rdropWhile blank

variable {blank}

@[simp] theorem trim_nil : trim blank ([] : List Symbol) = [] := by
  simp [trim]

/-- Only the right end of a text that starts with a solid symbol is trimmed. -/
theorem trim_cons_solid
    {first : Symbol}
    (solid : blank first = false)
    (rest : List Symbol) :
    trim blank (first :: rest) = (first :: rest).rdropWhile blank := by
  rw [trim, List.dropWhile_cons_of_neg (by simp [solid])]

/-- Nothing before a solid symbol is removed at the right end. -/
theorem rdropWhile_append_solid
    {middle : Symbol}
    (solid : blank middle = false)
    (front back : List Symbol) :
    (front ++ middle :: back).rdropWhile blank =
      front ++ middle :: back.rdropWhile blank := by
  induction back using List.reverseRecOn with
  | nil =>
      rw [List.rdropWhile_concat_neg _ _ _ (by simp [solid])]
      simp
  | append_singleton earlier last inductionHypothesis =>
      have shape :
          front ++ middle :: (earlier ++ [last]) =
            (front ++ middle :: earlier) ++ [last] := by
        simp
      rw [shape]
      cases isBlank : blank last with
      | true =>
          rw [List.rdropWhile_concat_pos _ _ _ isBlank,
            List.rdropWhile_concat_pos _ _ _ isBlank, inductionHypothesis]
      | false =>
          rw [List.rdropWhile_concat_neg _ _ _ (by simp [isBlank]),
            List.rdropWhile_concat_neg _ _ _ (by simp [isBlank]), shape]

/-- Blanks at the left end do not keep those at the right end. -/
theorem dropWhile_rdropWhile
    (text : List Symbol) :
    (text.rdropWhile blank).dropWhile blank =
      (text.dropWhile blank).rdropWhile blank := by
  induction text with
  | nil =>
      simp
  | cons first rest inductionHypothesis =>
      cases isBlank : blank first with
      | false =>
          have kept := rdropWhile_append_solid isBlank [] rest
          rw [List.nil_append, List.nil_append] at kept
          rw [kept, List.dropWhile_cons_of_neg (by simp [isBlank]),
            List.dropWhile_cons_of_neg (by simp [isBlank]), kept]
      | true =>
          rw [List.dropWhile_cons_of_pos isBlank, ← inductionHypothesis]
          by_cases allBlank : ∀ symbol ∈ rest, blank symbol = true
          · have restGone : rest.rdropWhile blank = [] :=
              List.rdropWhile_eq_nil_iff.mpr allBlank
            have allGone : (first :: rest).rdropWhile blank = [] := by
              apply List.rdropWhile_eq_nil_iff.mpr
              simpa [isBlank] using allBlank
            rw [restGone, allGone]
          · push Not at allBlank
            obtain ⟨symbol, member, solid⟩ := allBlank
            obtain ⟨before, behind, rfl⟩ := List.append_of_mem member
            have isSolid : blank symbol = false := by
              simpa using solid
            have kept := rdropWhile_append_solid isSolid (first :: before) behind
            rw [List.cons_append] at kept
            rw [kept, rdropWhile_append_solid isSolid before behind,
              List.cons_append, List.dropWhile_cons_of_pos isBlank]

/-- Trimming the right end first changes nothing. -/
theorem trim_rdropWhile
    (text : List Symbol) :
    trim blank (text.rdropWhile blank) = trim blank text := by
  rw [trim, dropWhile_rdropWhile, List.rdropWhile_idempotent, trim]

/-- A trimmed text is trimmed. -/
theorem trim_trim
    (text : List Symbol) :
    trim blank (trim blank text) = trim blank text := by
  rw [trim, trim, dropWhile_rdropWhile, List.dropWhile_idempotent,
    List.rdropWhile_idempotent]

/-- A text with solid ends is trimmed. -/
theorem trim_solid_ends
    {text : List Symbol}
    (first : ∀ symbol ∈ text.head?, blank symbol = false)
    (last : ∀ symbol ∈ text.getLast?, blank symbol = false) :
    trim blank text = text := by
  cases text with
  | nil =>
      simp
  | cons head tail =>
      rw [trim_cons_solid (first head rfl), List.rdropWhile_eq_self_iff]
      intro nonempty
      rw [last _ (List.getLast?_eq_getLast_of_ne_nil nonempty)]
      exact Bool.false_ne_true

/-- Trimming keeps a property of all symbols. -/
theorem mem_of_mem_trim
    {text : List Symbol}
    {symbol : Symbol}
    (member : symbol ∈ trim blank text) :
    symbol ∈ text :=
  (List.dropWhile_suffix blank).subset
    ((List.rdropWhile_prefix blank _).subset member)

end RadminPro.TrimmedText
