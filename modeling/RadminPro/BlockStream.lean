import Mathlib.Data.List.Infix

namespace RadminPro.BlockStream

/-!
# Blocks on a stream

A sequence of blocks is sent as one stream, the encodings one after another.
A stream that is cut anywhere still begins with the blocks that end before the
cut; behind them stands a part of the next block at most.
-/

variable {Block Item : Type}

/-- The encodings of the blocks, one after another. -/
def stream (encode : Block → List Item) (blocks : List Block) : List Item :=
  blocks.flatMap encode

/-- The leading blocks that end within the first `cut` items. -/
def complete (encode : Block → List Item) : Nat → List Block → List Block
  | _, [] => []
  | cut, block :: rest =>
      if (encode block).length ≤ cut then
        block :: complete encode (cut - (encode block).length) rest
      else
        []

section Cuts

variable (encode : Block → List Item)

@[simp] theorem stream_nil : stream encode [] = [] :=
  rfl

@[simp] theorem stream_cons (block : Block) (rest : List Block) :
    stream encode (block :: rest) = encode block ++ stream encode rest :=
  rfl

@[simp] theorem stream_append (first second : List Block) :
    stream encode (first ++ second) =
      stream encode first ++ stream encode second :=
  List.flatMap_append

/-- A cut behind the first block keeps that block. -/
theorem take_stream_of_le
    {block : Block}
    {cut : Nat}
    (whole : (encode block).length ≤ cut)
    (rest : List Block) :
    (stream encode (block :: rest)).take cut =
      encode block ++ (stream encode rest).take (cut - (encode block).length) := by
  rw [stream_cons, List.take_append, List.take_of_length_le whole]

/-- A cut within the first block keeps a part of that block. -/
theorem take_stream_of_lt
    {block : Block}
    {cut : Nat}
    (partly : cut < (encode block).length)
    (rest : List Block) :
    (stream encode (block :: rest)).take cut = (encode block).take cut := by
  rw [stream_cons, List.take_append_of_le_length (Nat.le_of_lt partly)]

/-- The complete blocks are the first ones, and the next one is not complete. -/
theorem complete_maximal
    (cut : Nat)
    (blocks : List Block) :
    ∃ rest,
      blocks = complete encode cut blocks ++ rest ∧
        stream encode (complete encode cut blocks) <+:
          (stream encode blocks).take cut ∧
        ∀ next ∈ rest.head?,
          cut < (stream encode (complete encode cut blocks ++ [next])).length := by
  induction blocks generalizing cut with
  | nil =>
      exact ⟨[], rfl, by simp [complete], by simp⟩
  | cons block later inductionHypothesis =>
      by_cases whole : (encode block).length ≤ cut
      · obtain ⟨rest, shape, begins, stops⟩ :=
          inductionHypothesis (cut - (encode block).length)
        refine ⟨rest, ?_, ?_, ?_⟩
        · simp only [complete, if_pos whole, List.cons_append, ← shape]
        · rw [take_stream_of_le encode whole]
          simpa only [complete, if_pos whole, stream_cons] using
            (List.prefix_append_right_inj _).mpr begins
        · intro next isNext
          have nextStops := stops next isNext
          simp only [complete, if_pos whole, List.cons_append, stream_cons,
            List.length_append] at nextStops ⊢
          omega
      · refine ⟨block :: later, ?_, ?_, ?_⟩
        · simp [complete, whole]
        · simp [complete, whole]
        · intro next isNext
          obtain rfl : block = next := by
            simpa using isNext
          simpa [complete, whole] using Nat.lt_of_not_le whole

/-- Nothing is missing before the end of the stream. -/
theorem complete_all
    {cut : Nat}
    {blocks : List Block}
    (whole : (stream encode blocks).length ≤ cut) :
    complete encode cut blocks = blocks := by
  induction blocks generalizing cut with
  | nil =>
      rfl
  | cons block later inductionHypothesis =>
      simp only [stream_cons, List.length_append] at whole
      have first : (encode block).length ≤ cut := by
        omega
      have restWhole :
          (stream encode later).length ≤ cut - (encode block).length := by
        omega
      simp [complete, first, inductionHypothesis restWhole]

end Cuts

end RadminPro.BlockStream
