import Mathlib.Data.List.Basic

namespace RadminPro.TokenList

/-!
# Tokens between separators

The tokens of a text are its maximal non-empty stretches without a separator.
Splitting at separators yields exactly these, in order.
-/

variable {Symbol : Type} (separator : Symbol → Bool)

/-- The tokens of a text, in order. -/
def tokens (text : List Symbol) : List (List Symbol) :=
  (text.splitOnP separator).filter fun piece => !piece.isEmpty

/-- A non-empty stretch without separators that cannot be extended. -/
structure Maximal (text token : List Symbol) : Prop where
  nonempty : token ≠ []
  clean : ∀ symbol ∈ token, separator symbol = false
  bounded :
    ∃ before after,
      text = before ++ token ++ after ∧
        (∀ symbol ∈ before.getLast?, separator symbol = true) ∧
        ∀ symbol ∈ after.head?, separator symbol = true

variable {separator}

/-- A text without separators is at most one token. -/
theorem tokens_of_clean
    {text : List Symbol}
    (clean : ∀ symbol ∈ text, separator symbol = false) :
    tokens separator text = if text.isEmpty then [] else [text] := by
  rw [tokens, List.splitOnP_eq_singleton (by simpa using clean)]
  cases text with
  | nil => rfl
  | cons head tail => rfl

/-- A separator ends the tokens before it. -/
theorem tokens_append_separator
    (before after : List Symbol)
    {symbol : Symbol}
    (isSeparator : separator symbol = true) :
    tokens separator (before ++ symbol :: after) =
      tokens separator before ++ tokens separator after := by
  rw [tokens, List.splitOnP_append_cons before after isSeparator,
    List.filter_append]
  rfl

/-- A text without separators, or one cut at its first separator. -/
theorem clean_or_cut (separator : Symbol → Bool) (text : List Symbol) :
    (∀ symbol ∈ text, separator symbol = false) ∨
      ∃ front symbol rest,
        text = front ++ symbol :: rest ∧
          separator symbol = true ∧
          ∀ other ∈ front, separator other = false := by
  induction text with
  | nil =>
      exact .inl (by simp)
  | cons head tail inductionHypothesis =>
      cases isSeparator : separator head with
      | true =>
          exact .inr ⟨[], head, tail, rfl, isSeparator, by simp⟩
      | false =>
          rcases inductionHypothesis
            with clean | ⟨front, symbol, rest, rfl, ends, clean⟩
          · left
            simpa [isSeparator] using clean
          · right
            refine ⟨head :: front, symbol, rest, rfl, ends, ?_⟩
            simpa [isSeparator] using clean

/-- A maximal stretch of what follows a separator is one of the whole. -/
theorem Maximal.after_separator
    {rest token : List Symbol}
    (maximal : Maximal separator rest token)
    (front : List Symbol)
    {symbol : Symbol}
    (isSeparator : separator symbol = true) :
    Maximal separator (front ++ symbol :: rest) token := by
  obtain ⟨nonempty, clean, before, after, rfl, left, right⟩ := maximal
  refine ⟨nonempty, clean, front ++ symbol :: before, after, by simp, ?_, right⟩
  cases before with
  | nil =>
      simpa using isSeparator
  | cons head tail =>
      simpa using left

/-- Every token is a maximal stretch. -/
theorem maximal_of_mem
    {text token : List Symbol}
    (member : token ∈ tokens separator text) :
    Maximal separator text token := by
  induction sized : text.length using Nat.strongRecOn generalizing text with
  | ind size inductionHypothesis =>
      rcases clean_or_cut separator text
        with clean | ⟨front, symbol, rest, rfl, isSeparator, clean⟩
      · rw [tokens_of_clean clean] at member
        split at member
        · cases member
        · next nonempty =>
            rw [List.mem_singleton] at member
            subst member
            exact ⟨by simpa using nonempty, clean, [], [], by simp, by simp,
              by simp⟩
      · rw [tokens_append_separator front rest isSeparator,
          List.mem_append] at member
        rcases member with inFront | inRest
        · rw [tokens_of_clean clean] at inFront
          split at inFront
          · cases inFront
          · next nonempty =>
              rw [List.mem_singleton] at inFront
              subst inFront
              exact ⟨by simpa using nonempty, clean, [], symbol :: rest,
                by simp, by simp, by simpa using isSeparator⟩
        · have shorter : rest.length < size := by
            rw [← sized, List.length_append, List.length_cons]
            omega
          exact (inductionHypothesis _ shorter inRest rfl).after_separator front
            isSeparator

/-- Every maximal stretch is a token. -/
theorem mem_of_maximal
    {text token : List Symbol}
    (maximal : Maximal separator text token) :
    token ∈ tokens separator text := by
  obtain ⟨nonempty, clean, before, after, rfl, left, right⟩ := maximal
  have alone : token ∈ tokens separator token := by
    rw [tokens_of_clean clean, if_neg (by simpa using nonempty)]
    exact List.mem_singleton_self token
  have withAfter : token ∈ tokens separator (token ++ after) := by
    cases after with
    | nil =>
        rwa [List.append_nil]
    | cons symbol rest =>
        have isSeparator : separator symbol = true := by
          simpa using right
        rw [tokens_append_separator token rest isSeparator]
        exact List.mem_append_left _ alone
  rcases List.eq_nil_or_concat before with rfl | ⟨front, symbol, rfl⟩
  · simpa using withAfter
  · have isSeparator : separator symbol = true := by
      simpa using left
    have shape :
        front.concat symbol ++ token ++ after =
          front ++ symbol :: (token ++ after) := by
      simp
    rw [shape, tokens_append_separator front _ isSeparator]
    exact List.mem_append_right _ withAfter

/-- The tokens are exactly the maximal stretches. -/
theorem mem_tokens_iff
    {text token : List Symbol} :
    token ∈ tokens separator text ↔ Maximal separator text token :=
  ⟨maximal_of_mem, mem_of_maximal⟩

/-- Pieces without separators, put together with separators between them. -/
def joined (first : List Symbol) (rest : List (Symbol × List Symbol)) :
    List Symbol :=
  first ++ rest.flatMap fun part => part.1 :: part.2

/-- Pieces that are put together are the tokens again, but for empty ones. -/
theorem tokens_joined
    {first : List Symbol}
    {rest : List (Symbol × List Symbol)}
    (firstClean : ∀ symbol ∈ first, separator symbol = false)
    (separators : ∀ part ∈ rest, separator part.1 = true)
    (restClean : ∀ part ∈ rest, ∀ symbol ∈ part.2, separator symbol = false) :
    tokens separator (joined first rest) =
      (first :: rest.map Prod.snd).filter fun piece => !piece.isEmpty := by
  induction rest generalizing first with
  | nil =>
      rw [joined, List.flatMap_nil, List.append_nil, tokens_of_clean firstClean]
      cases first with
      | nil => rfl
      | cons head tail => rfl
  | cons part rest inductionHypothesis =>
      rw [List.forall_mem_cons] at separators restClean
      have others :=
        inductionHypothesis restClean.1 separators.2 restClean.2
      have cut :
          joined first (part :: rest) =
            first ++ part.1 :: joined part.2 rest := by
        simp [joined]
      rw [cut, tokens_append_separator first _ separators.1, others,
        tokens_of_clean firstClean]
      cases first with
      | nil => rfl
      | cons head tail => rfl

/-- Splitting at fewer symbols first makes no difference. -/
theorem tokens_of_coarser
    {coarser : Symbol → Bool}
    (separates : ∀ symbol, coarser symbol = true → separator symbol = true)
    (text : List Symbol) :
    (tokens coarser text).flatMap (tokens separator) =
      tokens separator text := by
  induction sized : text.length using Nat.strongRecOn generalizing text with
  | ind size inductionHypothesis =>
      rcases clean_or_cut coarser text
        with clean | ⟨front, symbol, rest, rfl, isEnd, clean⟩
      · rw [tokens_of_clean clean]
        cases text with
        | nil => rfl
        | cons head tail => simp
      · have shorter : rest.length < size := by
          rw [← sized, List.length_append, List.length_cons]
          exact Nat.lt_add_left _ (Nat.lt_succ_self _)
        have restSame := inductionHypothesis rest.length shorter rest rfl
        rw [tokens_append_separator front rest isEnd,
          tokens_append_separator front rest (separates symbol isEnd),
          List.flatMap_append, restSame, tokens_of_clean clean]
        cases front with
        | nil => rfl
        | cons head tail => simp

end RadminPro.TokenList
