import RadminPro.BufferWindow

namespace RadminPro.RowPacking

open BufferWindow

/-!
# Packing rows

A picture stands in memory row by row, with something behind each row.  Copied
row by row into a buffer without gaps it is the rows one after the other.
-/

variable {α : Type}

/-- The memory of a picture with padding behind its rows. -/
def padded (rows : List (List α)) (padding : Nat → List α) : List α :=
  (rows.zipIdx.map fun row => row.1 ++ padding row.2).flatten

/-- Copy `height` rows from a memory with a pitch into a buffer without gaps. -/
def repack
    (memory : List α)
    (pitch rowSize height : Nat)
    (buffer : List α) : List α :=
  (List.range height).foldl
    (fun buffer y =>
      overlay buffer (y * rowSize) (window memory (y * pitch) rowSize))
    buffer

/-- A shorter window is the front of a longer one. -/
theorem window_take
    (memory : List α)
    (offset : Nat)
    {short long : Nat}
    (shorter : short ≤ long) :
    window memory offset short = (window memory offset long).take short := by
  rw [window, window, List.take_take, Nat.min_eq_left shorter]

/-- Each row stands where the pitch says. -/
theorem window_padded
    {rows : List (List α)}
    {padding : Nat → List α}
    {rowSize extra y : Nat}
    (uniform : ∀ row ∈ rows, row.length = rowSize)
    (padLength : ∀ y, (padding y).length = extra)
    (inside : y < rows.length) :
    window (padded rows padding) (y * (rowSize + extra)) rowSize = rows[y] := by
  let blocks := rows.zipIdx.map fun row => row.1 ++ padding row.2
  have blockLength : ∀ block ∈ blocks, block.length = rowSize + extra := by
    intro block member
    obtain ⟨⟨row, index⟩, inZip, rfl⟩ := List.mem_map.mp member
    have isRow : row ∈ rows := List.fst_mem_of_mem_zipIdx inZip
    rw [List.length_append, uniform row isRow, padLength index]
  have blockInside : y < blocks.length := by
    simpa [blocks] using inside
  have whole : window (padded rows padding) (y * (rowSize + extra))
      (rowSize + extra) = blocks[y] :=
    window_flatten blockLength blockInside
  have block : blocks[y] = rows[y] ++ padding y := by
    simp [blocks]
  have rowLength : rows[y].length = rowSize :=
    uniform _ (List.getElem_mem inside)
  rw [window_take _ _ (Nat.le_add_right rowSize extra), whole, block,
    List.take_left' rowLength]

/-- The rows that have been copied stand in front, the rest is as it was. -/
theorem repack_take
    {memory : List α}
    {pitch rowSize : Nat}
    {rows : List (List α)}
    {buffer : List α}
    (uniform : ∀ row ∈ rows, row.length = rowSize)
    (stands :
      ∀ y (inside : y < rows.length),
        window memory (y * pitch) rowSize = rows[y])
    {height : Nat}
    (within : height ≤ rows.length)
    (roomy : height * rowSize ≤ buffer.length) :
    repack memory pitch rowSize height buffer =
      (rows.take height).flatten ++ buffer.drop (height * rowSize) := by
  induction height with
  | zero =>
      simp [repack]
  | succ height inductionHypothesis =>
      have earlier :=
        inductionHypothesis (Nat.le_of_succ_le within)
          (Nat.le_trans (Nat.mul_le_mul_right _ (Nat.le_succ height)) roomy)
      have row := stands height within
      have rowLength : rows[height].length = rowSize :=
        uniform _ (List.getElem_mem within)
      have front : (rows.take height).flatten.length = height * rowSize := by
        have each :
            ∀ row ∈ rows.take height, row.length = rowSize :=
          fun row member => uniform row (List.mem_of_mem_take member)
        rw [List.length_flatten, List.map_congr_left each, List.map_const',
          List.sum_replicate_nat,
          List.length_take_of_le (Nat.le_of_succ_le within)]
      have unfolded :
          repack memory pitch rowSize (height + 1) buffer =
            overlay (repack memory pitch rowSize height buffer)
              (height * rowSize) (window memory (height * pitch) rowSize) := by
        simp only [repack, List.range_succ, List.foldl_append, List.foldl_cons,
          List.foldl_nil]
      rw [unfolded, earlier, row, overlay, List.take_left' front, rowLength,
        ← List.drop_drop, List.drop_left' front, List.drop_drop,
        List.take_succ_eq_append_getElem within, List.flatten_append,
        Nat.succ_mul]
      simp

/-- A picture is repacked to its rows. -/
theorem repack_padded
    {rows : List (List α)}
    {padding : Nat → List α}
    {rowSize extra : Nat}
    {buffer : List α}
    (uniform : ∀ row ∈ rows, row.length = rowSize)
    (padLength : ∀ y, (padding y).length = extra)
    (fits : buffer.length = rowSize * rows.length) :
    repack (padded rows padding) (rowSize + extra) rowSize rows.length buffer =
      rows.flatten := by
  rw [Nat.mul_comm] at fits
  rw [repack_take uniform (fun _ inside => window_padded uniform padLength inside)
    (Nat.le_refl _) (Nat.le_of_eq fits.symm), List.take_length, ← fits,
    List.drop_length, List.append_nil]

end RadminPro.RowPacking
