import Mathlib.Data.List.Basic

namespace RadminPro.BufferWindow

/-!
# Windows of a buffer

Reading a window of a buffer, writing one, and copying one from a source.  A
buffer agrees with its source at the positions it has been brought up to date
at; copying windows of the source never loses an agreement.
-/

variable {α : Type}

/-- The `size` elements from `offset` on. -/
def window (buffer : List α) (offset size : Nat) : List α :=
  (buffer.drop offset).take size

/-- The buffer with `data` written from `offset` on. -/
def overlay (buffer : List α) (offset : Nat) (data : List α) : List α :=
  buffer.take offset ++ data ++ buffer.drop (offset + data.length)

/-- The buffer with one window of `source` copied over it. -/
def copyWindow (source buffer : List α) (offset size : Nat) : List α :=
  overlay buffer offset (window source offset size)

/-- The buffers hold the same element at a position. -/
def AgreeAt (source buffer : List α) (position : Nat) : Prop :=
  buffer[position]? = source[position]?

theorem length_window
    {buffer : List α}
    {offset size : Nat}
    (inside : offset + size ≤ buffer.length) :
    (window buffer offset size).length = size := by
  simp [window]
  omega

theorem getElem?_window
    (buffer : List α)
    (offset : Nat)
    {size position : Nat}
    (inside : position < size) :
    (window buffer offset size)[position]? = buffer[offset + position]? := by
  rw [window, List.getElem?_take_of_lt inside, List.getElem?_drop]

/-- Writing inside a buffer keeps its length. -/
theorem length_overlay
    {buffer data : List α}
    {offset : Nat}
    (inside : offset + data.length ≤ buffer.length) :
    (overlay buffer offset data).length = buffer.length := by
  simp [overlay]
  omega

/-- Inside the written range the data is read back. -/
theorem getElem?_overlay_inside
    {buffer data : List α}
    {offset position : Nat}
    (fits : offset ≤ buffer.length)
    (inside : position < data.length) :
    (overlay buffer offset data)[offset + position]? = data[position]? := by
  have front : (buffer.take offset).length = offset :=
    List.length_take_of_le fits
  rw [overlay, List.append_assoc,
    List.getElem?_append_right (by rw [front]; exact Nat.le_add_right _ _),
    front, Nat.add_sub_cancel_left, List.getElem?_append_left inside]

/-- Outside the written range nothing changes. -/
theorem getElem?_overlay_outside
    {buffer data : List α}
    {offset position : Nat}
    (fits : offset ≤ buffer.length)
    (outside : position < offset ∨ offset + data.length ≤ position) :
    (overlay buffer offset data)[position]? = buffer[position]? := by
  have front : (buffer.take offset).length = offset :=
    List.length_take_of_le fits
  rcases outside with before | after
  · rw [overlay, List.append_assoc,
      List.getElem?_append_left (by rw [front]; exact before),
      List.getElem?_take_of_lt before]
  · rw [overlay, List.getElem?_append_right (by
        rw [List.length_append, front]
        exact after),
      List.length_append, front, List.getElem?_drop]
    congr 1
    omega

/-- Copying a window inside both buffers keeps the length. -/
theorem length_copyWindow
    {source buffer : List α}
    {offset size : Nat}
    (sameLength : buffer.length = source.length)
    (inside : offset + size ≤ source.length) :
    (copyWindow source buffer offset size).length = buffer.length := by
  rw [copyWindow, length_overlay]
  rw [length_window inside, sameLength]
  exact inside

/-- A copied window agrees with its source. -/
theorem agreeAt_copyWindow_inside
    {source buffer : List α}
    {offset size position : Nat}
    (sameLength : buffer.length = source.length)
    (inside : offset + size ≤ source.length)
    (from_ : offset ≤ position)
    (below : position < offset + size) :
    AgreeAt source (copyWindow source buffer offset size) position := by
  obtain ⟨within, rfl⟩ := Nat.exists_eq_add_of_le from_
  have short : within < size := by
    omega
  rw [AgreeAt, copyWindow,
    getElem?_overlay_inside (by omega) (by rwa [length_window inside]),
    getElem?_window source offset short]

/-- Copying a window loses no agreement. -/
theorem AgreeAt.copyWindow
    {source buffer : List α}
    {offset size position : Nat}
    (agrees : AgreeAt source buffer position)
    (sameLength : buffer.length = source.length)
    (inside : offset + size ≤ source.length) :
    AgreeAt source (copyWindow source buffer offset size) position := by
  by_cases copied : offset ≤ position ∧ position < offset + size
  · exact agreeAt_copyWindow_inside sameLength inside copied.1 copied.2
  · rw [AgreeAt, BufferWindow.copyWindow, getElem?_overlay_outside (by omega)]
    · exact agrees
    · rw [length_window inside]
      omega

/-- Windows of `source`, given by offset and size, copied one after the other. -/
def copyWindows (source buffer : List α) (windows : List (Nat × Nat)) : List α :=
  windows.foldl
    (fun buffer range => copyWindow source buffer range.1 range.2) buffer

/-- Copying windows inside both buffers keeps the length. -/
theorem length_copyWindows
    {source buffer : List α}
    {windows : List (Nat × Nat)}
    (sameLength : buffer.length = source.length)
    (inside : ∀ range ∈ windows, range.1 + range.2 ≤ source.length) :
    (copyWindows source buffer windows).length = source.length := by
  induction windows generalizing buffer with
  | nil =>
      exact sameLength
  | cons range rest inductionHypothesis =>
      have headInside := inside range List.mem_cons_self
      refine inductionHypothesis ?_ fun other member =>
        inside other (List.mem_cons_of_mem _ member)
      rw [length_copyWindow sameLength headInside, sameLength]

/-- After copying windows, every position that agreed or was covered agrees. -/
theorem agreeAt_copyWindows
    {source buffer : List α}
    {windows : List (Nat × Nat)}
    {position : Nat}
    (sameLength : buffer.length = source.length)
    (inside : ∀ range ∈ windows, range.1 + range.2 ≤ source.length)
    (reached :
      AgreeAt source buffer position ∨
        ∃ range ∈ windows,
          range.1 ≤ position ∧ position < range.1 + range.2) :
    AgreeAt source (copyWindows source buffer windows) position := by
  induction windows generalizing buffer with
  | nil =>
      simpa [copyWindows] using reached
  | cons range rest inductionHypothesis =>
      have headInside := inside range List.mem_cons_self
      refine inductionHypothesis
        (by rw [length_copyWindow sameLength headInside, sameLength])
        (fun other member => inside other (List.mem_cons_of_mem _ member)) ?_
      rcases reached with agrees | ⟨covering, member, from_, below⟩
      · exact .inl (agrees.copyWindow sameLength headInside)
      · rcases List.mem_cons.mp member with isHead | inRest
        · subst isHead
          exact .inl
            (agreeAt_copyWindow_inside sameLength headInside from_ below)
        · exact .inr ⟨covering, inRest, from_, below⟩

/-- Equal windows agree position by position. -/
theorem agreeAt_of_window_eq
    {source buffer : List α}
    {offset size position : Nat}
    (same : window buffer offset size = window source offset size)
    (from_ : offset ≤ position)
    (below : position < offset + size) :
    AgreeAt source buffer position := by
  obtain ⟨within, rfl⟩ := Nat.exists_eq_add_of_le from_
  have short : within < size := by
    omega
  rw [AgreeAt, ← getElem?_window buffer offset short, same,
    getElem?_window source offset short]

/-- A buffer that agrees everywhere with a source of its length is the source. -/
theorem eq_of_agreeAt
    {source buffer : List α}
    (sameLength : buffer.length = source.length)
    (agrees : ∀ position, position < source.length →
      AgreeAt source buffer position) :
    buffer = source := by
  refine List.ext_getElem? fun position => ?_
  by_cases inside : position < source.length
  · exact agrees position inside
  · rw [List.getElem?_eq_none (by omega), List.getElem?_eq_none (by omega)]

/-- The first windows of equal size, concatenated, are the front of a buffer. -/
theorem flatten_windows_take
    (buffer : List α)
    (size count : Nat) :
    ((List.range count).map fun index =>
        window buffer (index * size) size).flatten =
      buffer.take (count * size) := by
  induction count with
  | zero =>
      simp
  | succ count inductionHypothesis =>
      rw [List.range_succ, List.map_append, List.flatten_append,
        inductionHypothesis, Nat.succ_mul, List.take_add]
      simp [window]

/-- Enough windows of equal size, concatenated, are the whole buffer. -/
theorem flatten_windows
    (buffer : List α)
    {size : Nat}
    (positive : 0 < size) :
    ((List.range ((buffer.length + size - 1) / size)).map fun index =>
        window buffer (index * size) size).flatten = buffer := by
  rw [flatten_windows_take]
  apply List.take_of_length_le
  have rounded := Nat.lt_div_mul_add positive (a := buffer.length + size - 1)
  omega

/-- Consecutive windows of equal size, concatenated, are read back by index. -/
theorem window_flatten
    {blocks : List (List α)}
    {size index : Nat}
    (uniform : ∀ block ∈ blocks, block.length = size)
    (inside : index < blocks.length) :
    window blocks.flatten (index * size) size = blocks[index] := by
  induction blocks generalizing index with
  | nil =>
      simp at inside
  | cons block rest inductionHypothesis =>
      have blockSize := uniform block List.mem_cons_self
      cases index with
      | zero =>
          simp [window, ← blockSize]
      | succ index =>
          have restUniform : ∀ other ∈ rest, other.length = size :=
            fun other member => uniform other (List.mem_cons_of_mem _ member)
          have skip :
              (block ++ rest.flatten).drop ((index + 1) * size) =
                rest.flatten.drop (index * size) := by
            rw [List.drop_append, List.drop_eq_nil_of_le (by
              rw [blockSize, Nat.succ_mul]
              exact Nat.le_add_left _ _), List.nil_append, blockSize,
              Nat.succ_mul, Nat.add_sub_cancel]
          rw [window, List.flatten_cons, skip]
          exact inductionHypothesis restUniform (by simpa using inside)

end RadminPro.BufferWindow
