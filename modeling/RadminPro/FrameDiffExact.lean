import RadminPro.TileCover

namespace RadminPro

open ByteCodec
open BufferWindow

/-!
# The tile difference is exact

For every geometry whose counters do not wrap, the changed tiles come in
row-major order, do not overlap, and are those in which a pixel differs.
-/

/-- The four bytes of a pixel. -/
def pixelAt (buffer : Bytes) (stride x y : Nat) : Bytes :=
  window buffer (y * stride + x * 4) 4

namespace RectU

/-- A pixel lies in the rectangle. -/
def Covers (rc : RectU) (x y : Nat) : Prop :=
  (rc.x ≤ x ∧ x < rc.x + rc.w) ∧ rc.y ≤ y ∧ y < rc.y + rc.h

/-- No pixel lies in both rectangles. -/
def Apart (first second : RectU) : Prop :=
  ∀ x y, first.Covers x y → ¬second.Covers x y

/-- The order by rows from the top, each from the left. -/
def Precedes (first second : RectU) : Prop :=
  first.y < second.y ∨ first.y = second.y ∧ first.x < second.x

end RectU

/-- A tile inside the frame, at multiples of the tile size. -/
structure AlignedTile (width height tile : Nat) (rc : RectU) : Prop where
  column : tile ∣ rc.x
  row : tile ∣ rc.y
  widthPositive : 0 < rc.w
  heightPositive : 0 < rc.h
  widthLimit : rc.w ≤ tile
  heightLimit : rc.h ≤ tile
  right : rc.x + rc.w ≤ width
  bottom : rc.y + rc.h ≤ height

/-- Rectangles that say exactly which pixels of a frame have changed. -/
structure ExactDiff
    (prev cur : Bytes)
    (width height stride tile : Nat)
    (rects : List RectU) : Prop where
  tiles : ∀ rc ∈ rects, AlignedTile width height tile rc
  apart : rects.Pairwise RectU.Apart
  rowMajor : rects.Pairwise RectU.Precedes
  covered :
    ∀ x y,
      x < width →
      y < height →
      pixelAt prev stride x y ≠ pixelAt cur stride x y →
      ∃! rc, rc ∈ rects ∧ rc.Covers x y
  changed :
    ∀ rc ∈ rects, ∃ x y,
      rc.Covers x y ∧ pixelAt prev stride x y ≠ pixelAt cur stride x y
  empty :
    rects = [] ↔
      ∀ x y,
        x < width →
        y < height →
        pixelAt prev stride x y = pixelAt cur stride x y

/-! ## The order of the tiles -/

/-- A counter that does not wrap goes up. -/
theorem sorted_countUp
    {limit step : Nat}
    (positive : 0 < step)
    (noWrap : limit + step ≤ 2 ^ 32)
    {fuel position : Nat}
    {starts : List Nat}
    (counted : countUp limit step fuel position = some starts) :
    (∀ start ∈ starts, position ≤ start) ∧ starts.Pairwise (· < ·) := by
  induction fuel generalizing position starts with
  | zero =>
      by_cases below : position < limit
      · simp [countUp, below] at counted
      · simp only [countUp, if_neg below, Option.some.injEq] at counted
        subst counted
        simp
  | succ fuel inductionHypothesis =>
      by_cases below : position < limit
      · have next : u32 (position + step) = position + step :=
          Nat.mod_eq_of_lt (by omega)
        simp only [countUp, if_pos below, next, Option.map_eq_map,
          Option.map_eq_some_iff] at counted
        obtain ⟨rest, restCounted, rfl⟩ := counted
        obtain ⟨above, sorted⟩ := inductionHypothesis restCounted
        constructor
        · intro start member
          rcases List.mem_cons.mp member with rfl | later
          · exact Nat.le_refl start
          · exact Nat.le_trans (Nat.le_add_right _ _) (above start later)
        · apply List.pairwise_cons.mpr
          refine ⟨fun start later => ?_, sorted⟩
          exact Nat.lt_of_lt_of_le (Nat.lt_add_of_pos_right positive)
            (above start later)
      · simp only [countUp, if_neg below, Option.some.injEq] at counted
        subst counted
        simp

/-- So the tiles of one side start from left to right. -/
theorem sorted_tileStarts
    {limit tile : Nat}
    (positive : 0 < tile)
    (noWrap : limit + tile ≤ 2 ^ 32)
    {starts : List Nat}
    (counted : tileStarts limit tile = some starts) :
    starts.Pairwise (· < ·) :=
  (sorted_countUp positive noWrap counted).2

/-- The changed tiles come row by row. -/
theorem rowMajor_changedTiles
    {prev cur : Bytes}
    {width height stride tile : Nat}
    (sameLength : prev.length = cur.length)
    (positive : 0 < tile)
    (widthFits : width + tile ≤ 2 ^ 32)
    (heightFits : height + tile ≤ 2 ^ 32)
    {rects : List RectU}
    (shape : changedTiles prev cur width height stride tile = some rects) :
    rects.Pairwise RectU.Precedes := by
  obtain ⟨columns, columnShape, -⟩ := mem_tileStarts positive widthFits
  obtain ⟨rows, rowShape, -⟩ := mem_tileStarts positive heightFits
  have columnsSorted := sorted_tileStarts positive widthFits columnShape
  have rowsSorted := sorted_tileStarts positive heightFits rowShape
  rw [changedTiles_eq sameLength positive columnShape rowShape,
    Option.some.injEq] at shape
  subst shape
  apply List.pairwise_flatten.mpr
  constructor
  · intro tiles member
    obtain ⟨ty, -, rfl⟩ := List.mem_map.mp member
    apply List.Pairwise.filter
    apply List.pairwise_map.mpr
    exact columnsSorted.imp fun before => .inr ⟨rfl, before⟩
  · apply List.pairwise_map.mpr
    refine rowsSorted.imp fun before first inFirst second inSecond => ?_
    obtain ⟨tx, -, rfl⟩ := List.mem_map.mp (List.mem_of_mem_filter inFirst)
    obtain ⟨tx', -, rfl⟩ := List.mem_map.mp (List.mem_of_mem_filter inSecond)
    exact .inl before

/-! ## The tiles of a frame -/

section Geometry

variable {width height tile : Nat}

/-- A tile that starts inside the frame is one of it. -/
theorem alignedTile_tileAt
    (positive : 0 < tile)
    {tx ty : Nat}
    (column : tx < width ∧ tile ∣ tx)
    (row : ty < height ∧ tile ∣ ty) :
    AlignedTile width height tile (tileAt width height tile tx ty) where
  column := column.2
  row := row.2
  widthPositive := Nat.lt_min.mpr ⟨positive, Nat.sub_pos_of_lt column.1⟩
  heightPositive := Nat.lt_min.mpr ⟨positive, Nat.sub_pos_of_lt row.1⟩
  widthLimit := Nat.min_le_left _ _
  heightLimit := Nat.min_le_left _ _
  right := by
    have within : min tile (width - tx) ≤ width - tx :=
      Nat.min_le_right _ _
    exact Nat.add_le_of_le_sub' (Nat.le_of_lt column.1) within
  bottom := by
    have within : min tile (height - ty) ≤ height - ty :=
      Nat.min_le_right _ _
    exact Nat.add_le_of_le_sub' (Nat.le_of_lt row.1) within

/-- Two multiples of the tile size are a whole tile apart. -/
theorem add_tile_le
    {first second : Nat}
    (isFirst : tile ∣ first)
    (isSecond : tile ∣ second)
    (before : first < second) :
    first + tile ≤ second := by
  obtain ⟨count, rfl⟩ := isFirst
  obtain ⟨more, rfl⟩ := isSecond
  have fewer : count < more :=
    Nat.lt_of_mul_lt_mul_left before
  rw [← Nat.mul_succ]
  exact Nat.mul_le_mul_left tile fewer

/-- Two tiles in row-major order do not overlap. -/
theorem AlignedTile.apart
    {first second : RectU}
    (isFirst : AlignedTile width height tile first)
    (isSecond : AlignedTile width height tile second)
    (precedes : first.Precedes second) :
    first.Apart second := by
  rintro x y ⟨⟨-, left⟩, -, above⟩ ⟨⟨right, -⟩, below, -⟩
  rcases precedes with earlierRow | ⟨-, earlierColumn⟩
  · have := add_tile_le isFirst.row isSecond.row earlierRow
    have := isFirst.heightLimit
    omega
  · have := add_tile_le isFirst.column isSecond.column earlierColumn
    have := isFirst.widthLimit
    omega

/-- Every pixel of the frame lies in the tile that starts before it. -/
theorem tileAt_covers
    (positive : 0 < tile)
    {x y : Nat}
    (inWidth : x < width)
    (inHeight : y < height) :
    (tileAt width height tile (x / tile * tile) (y / tile * tile)).Covers x y := by
  have reaches :
      ∀ place limit,
        place < limit →
        place / tile * tile ≤ place ∧
          place < place / tile * tile +
            min tile (limit - place / tile * tile) := by
    intro place limit inside
    have start : place / tile * tile ≤ place :=
      Nat.div_mul_le_self place tile
    have next : place < place / tile * tile + tile :=
      Nat.lt_div_mul_add positive
    exact ⟨start, by omega⟩
  exact ⟨reaches x width inWidth, reaches y height inHeight⟩

/-- It is the only one that covers the pixel. -/
theorem AlignedTile.start_eq
    {rc : RectU}
    (isTile : AlignedTile width height tile rc)
    {x y : Nat}
    (covers : rc.Covers x y) :
    rc.x = x / tile * tile ∧ rc.y = y / tile * tile := by
  have start_eq :
      ∀ start size place,
        tile ∣ start →
        size ≤ tile →
        start ≤ place →
        place < start + size →
        start = place / tile * tile := by
    rintro start size place ⟨count, rfl⟩ small below above
    have here : place / tile = count := by
      apply Nat.div_eq_of_lt_le
      · rw [Nat.mul_comm]
        exact below
      · rw [Nat.succ_mul, Nat.mul_comm]
        exact Nat.lt_of_lt_of_le above (Nat.add_le_add_left small _)
    rw [here, Nat.mul_comm]
  exact
    ⟨start_eq _ _ x isTile.column isTile.widthLimit covers.1.1 covers.1.2,
      start_eq _ _ y isTile.row isTile.heightLimit covers.2.1 covers.2.2⟩

end Geometry

/-! ## The pixels of a tile -/

section Pixels

variable {prev cur : Bytes}
variable {width height stride tile : Nat}

/-- Rows of pixels are equal when every pixel is. -/
theorem window_eq_iff_pixels
    (offset count : Nat) :
    window cur offset (count * 4) = window prev offset (count * 4) ↔
      ∀ index < count,
        window cur (offset + index * 4) 4 = window prev (offset + index * 4) 4 := by
  have cut :
      ∀ buffer : Bytes, ∀ index < count,
        window buffer (offset + index * 4) 4 =
          window (window buffer offset (count * 4)) (index * 4) 4 := by
    intro buffer index inside
    simp only [window, List.drop_take, List.drop_drop, List.take_take]
    congr 1
    omega
  constructor
  · intro same index inside
    rw [cut cur index inside, cut prev index inside, same]
  · intro same
    have joined :
        ∀ buffer : Bytes, ∀ sofar ≤ count,
          window buffer offset (sofar * 4) =
            ((List.range sofar).map fun index =>
              window buffer (offset + index * 4) 4).flatten := by
      intro buffer sofar within
      induction sofar with
      | zero =>
          simp [window]
      | succ sofar inductionHypothesis =>
          rw [List.range_succ, List.map_append, List.flatten_append,
            ← inductionHypothesis (Nat.le_of_succ_le within), Nat.succ_mul]
          simp [window, List.take_add, List.drop_drop]
    rw [joined cur count (Nat.le_refl count),
      joined prev count (Nat.le_refl count)]
    congr 1
    apply List.map_congr_left
    intro index member
    exact same index (List.mem_range.mp member)

/-- A row of a frame whose sizes are 32 bits wide does not wrap. -/
theorem rowOffset_eq_of_inside
    (strideFits : stride < 2 ^ 32)
    (heightFits : height < 2 ^ 32)
    (wide : 4 * width ≤ stride)
    {x y r : Nat}
    (column : x ≤ width)
    (row : y + r < height) :
    rowOffset stride x y r = (y + r) * stride + x * 4 ∧
      (y + r) * stride + stride ≤ stride * height := by
  have below : (y + r) * stride + stride ≤ stride * height := by
    rw [← Nat.succ_mul, Nat.mul_comm stride]
    exact Nat.mul_le_mul_right stride row
  have bounded : stride * height < 2 ^ 64 :=
    lt_of_lt_of_eq (Nat.mul_lt_mul'' strideFits heightFits) (by norm_num)
  have rowFits : u32 (y + r) = y + r :=
    Nat.mod_eq_of_lt (Nat.lt_trans row heightFits)
  refine ⟨?_, below⟩
  rw [rowOffset, rowFits]
  apply Nat.mod_eq_of_lt
  by_cases empty : stride = 0
  · subst empty
    have : x = 0 := by omega
    simp [this]
  · omega

/-- A tile of the frame is changed if a pixel in it is. -/
theorem tileDiffers_iff
    (strideFits : stride < 2 ^ 32)
    (heightFits : height < 2 ^ 32)
    (wide : 4 * width ≤ stride)
    (curSize : cur.length = stride * height)
    {rc : RectU}
    (isTile : AlignedTile width height tile rc) :
    tileDiffers prev cur stride rc = true ↔
      ∃ x y,
        rc.Covers x y ∧ pixelAt prev stride x y ≠ pixelAt cur stride x y := by
  have right := isTile.right
  have bottom := isTile.bottom
  have rowDiffers :
      ∀ r < rc.h,
        (sizeT (rowOffset stride rc.x rc.y r + rc.w * 4) > cur.length ||
            window cur (rowOffset stride rc.x rc.y r) (rc.w * 4) !=
              window prev (rowOffset stride rc.x rc.y r) (rc.w * 4)) =
          true ↔
        ∃ index < rc.w,
          pixelAt prev stride (rc.x + index) (rc.y + r) ≠
            pixelAt cur stride (rc.x + index) (rc.y + r) := by
    intro r inTile
    obtain ⟨offset, below⟩ :=
      rowOffset_eq_of_inside strideFits heightFits wide (x := rc.x) (y := rc.y)
        (r := r) (by omega) (by omega)
    have bounded : stride * height < 2 ^ 64 :=
      lt_of_lt_of_eq (Nat.mul_lt_mul'' strideFits heightFits) (by norm_num)
    have fits :
        sizeT ((rc.y + r) * stride + rc.x * 4 + rc.w * 4) =
          (rc.y + r) * stride + rc.x * 4 + rc.w * 4 :=
      Nat.mod_eq_of_lt (by omega)
    have within :
        ¬(rc.y + r) * stride + rc.x * 4 + rc.w * 4 > cur.length := by
      omega
    have place :
        ∀ (buffer : Bytes) (index : Nat),
          pixelAt buffer stride (rc.x + index) (rc.y + r) =
            window buffer ((rc.y + r) * stride + rc.x * 4 + index * 4) 4 := by
      intro buffer index
      rw [pixelAt, Nat.add_mul rc.x, Nat.add_assoc]
    rw [offset, fits, decide_eq_false within, Bool.false_or, bne_iff_ne, ne_eq,
      window_eq_iff_pixels]
    push Not
    simp only [place, ne_comm]
  simp only [tileDiffers, List.any_eq_true, List.mem_range]
  constructor
  · rintro ⟨r, inTile, differs⟩
    obtain ⟨index, inRow, changed⟩ := (rowDiffers r inTile).mp differs
    exact ⟨rc.x + index, rc.y + r,
      ⟨⟨Nat.le_add_right _ _, Nat.add_lt_add_left inRow _⟩,
        Nat.le_add_right _ _, Nat.add_lt_add_left inTile _⟩,
      changed⟩
  · rintro ⟨x, y, ⟨⟨fromLeft, toRight⟩, fromTop, toBottom⟩, changed⟩
    obtain ⟨index, rfl⟩ := Nat.exists_eq_add_of_le fromLeft
    obtain ⟨r, rfl⟩ := Nat.exists_eq_add_of_le fromTop
    have inTile : r < rc.h :=
      Nat.lt_of_add_lt_add_left toBottom
    refine ⟨r, inTile, (rowDiffers r inTile).mpr ⟨index, ?_, changed⟩⟩
    exact Nat.lt_of_add_lt_add_left toRight

end Pixels

/-- The tile difference ends and says exactly which pixels have changed. -/
theorem changedTiles_exact
    (prev cur : Bytes)
    (width height stride tile : UInt32)
    (wide : 4 * width.toNat ≤ stride.toNat)
    (positive : 1 ≤ tile.toNat)
    (widthFits : width.toNat + tile.toNat < 2 ^ 32)
    (heightFits : height.toNat + tile.toNat < 2 ^ 32)
    (prevSize : prev.length = stride.toNat * height.toNat)
    (curSize : cur.length = stride.toNat * height.toNat) :
    ∃ rects,
      changedTiles prev cur width.toNat height.toNat stride.toNat tile.toNat =
          some rects ∧
        ExactDiff prev cur width.toNat height.toNat stride.toNat tile.toNat
          rects := by
  have sameLength : prev.length = cur.length :=
    prevSize.trans curSize.symm
  have strideFits : stride.toNat < 2 ^ 32 :=
    stride.toNat_lt
  have heightBound : height.toNat < 2 ^ 32 :=
    height.toNat_lt
  generalize width.toNat = width, height.toNat = height,
    stride.toNat = stride, tile.toNat = tile at *
  obtain ⟨rects, shape, isRect⟩ :=
    mem_changedTiles width height stride tile sameLength positive
      (Nat.le_of_lt widthFits) (Nat.le_of_lt heightFits)
  have tiles : ∀ rc ∈ rects, AlignedTile width height tile rc := by
    intro rc member
    obtain ⟨tx, ty, column, row, rfl, -⟩ := (isRect rc).mp member
    exact alignedTile_tileAt positive column row
  have rowMajor :=
    rowMajor_changedTiles sameLength positive (Nat.le_of_lt widthFits)
      (Nat.le_of_lt heightFits) shape
  have apart : rects.Pairwise RectU.Apart := by
    apply rowMajor.imp_of_mem
    intro first second isFirst isSecond precedes
    exact (tiles first isFirst).apart (tiles second isSecond) precedes
  have changed :
      ∀ rc ∈ rects, ∃ x y,
        rc.Covers x y ∧ pixelAt prev stride x y ≠ pixelAt cur stride x y := by
    intro rc member
    obtain ⟨tx, ty, column, row, rfl, differs⟩ := (isRect rc).mp member
    exact
      (tileDiffers_iff strideFits heightBound wide curSize
        (alignedTile_tileAt positive column row)).mp differs
  have present :
      ∀ x y,
        x < width →
        y < height →
        pixelAt prev stride x y ≠ pixelAt cur stride x y →
        ∃ rc, rc ∈ rects ∧ rc.Covers x y := by
    intro x y inWidth inHeight differs
    have column : x / tile * tile < width :=
      Nat.lt_of_le_of_lt (Nat.div_mul_le_self x tile) inWidth
    have row : y / tile * tile < height :=
      Nat.lt_of_le_of_lt (Nat.div_mul_le_self y tile) inHeight
    have covers := tileAt_covers positive inWidth inHeight
    have isTile :=
      alignedTile_tileAt positive ⟨column, Nat.dvd_mul_left tile (x / tile)⟩
        ⟨row, Nat.dvd_mul_left tile (y / tile)⟩
    refine ⟨_, (isRect _).mpr ⟨_, _, ⟨column, Nat.dvd_mul_left _ _⟩,
      ⟨row, Nat.dvd_mul_left _ _⟩, rfl, ?_⟩, covers⟩
    exact
      (tileDiffers_iff strideFits heightBound wide curSize isTile).mpr
        ⟨x, y, covers, differs⟩
  refine ⟨rects, shape, tiles, apart, rowMajor, ?_, changed, ?_⟩
  · intro x y inWidth inHeight differs
    obtain ⟨rc, member, covers⟩ := present x y inWidth inHeight differs
    refine ⟨rc, ⟨member, covers⟩, fun other isOther => ?_⟩
    obtain ⟨column, row⟩ := (tiles rc member).start_eq covers
    obtain ⟨otherColumn, otherRow⟩ :=
      (tiles other isOther.1).start_eq isOther.2
    obtain ⟨tx, ty, -, -, rfl, -⟩ := (isRect rc).mp member
    obtain ⟨tx', ty', -, -, rfl, -⟩ := (isRect other).mp isOther.1
    have sameColumn : tx' = tx :=
      otherColumn.trans column.symm
    have sameRow : ty' = ty :=
      otherRow.trans row.symm
    rw [sameColumn, sameRow]
  · constructor
    · rintro rfl x y inWidth inHeight
      by_contra differs
      obtain ⟨rc, member, -⟩ := present x y inWidth inHeight differs
      cases member
    · intro same
      apply List.eq_nil_iff_forall_not_mem.mpr
      intro rc member
      obtain ⟨x, y, ⟨⟨-, inRow⟩, -, inColumn⟩, differs⟩ := changed rc member
      have isTile := tiles rc member
      exact differs
        (same x y (Nat.lt_of_lt_of_le inRow isTile.right)
          (Nat.lt_of_lt_of_le inColumn isTile.bottom))

/-- Five pixels by three, of which three have changed. -/
def threeChanges : Bytes :=
  (((List.replicate 60 0).set 3 1).set 29 1).set 56 1

/-- Of six tiles, two whole ones and the one in the corner have changed. -/
theorem changedTiles_exact_threeChanges :
    changedTiles (List.replicate 60 0) threeChanges 5 3 20 2 =
        some [⟨0, 0, 2, 2⟩, ⟨2, 0, 2, 2⟩, ⟨4, 2, 1, 1⟩] ∧
      ExactDiff (List.replicate 60 0) threeChanges 5 3 20 2
        [⟨0, 0, 2, 2⟩, ⟨2, 0, 2, 2⟩, ⟨4, 2, 1, 1⟩] := by
  have shape :
      changedTiles (List.replicate 60 0) threeChanges 5 3 20 2 =
        some [⟨0, 0, 2, 2⟩, ⟨2, 0, 2, 2⟩, ⟨4, 2, 1, 1⟩] := by
    decide +kernel
  obtain ⟨rects, isShape, exactly⟩ :=
    changedTiles_exact (List.replicate 60 0) threeChanges 5 3 20 2 (by decide)
      (by decide) (by decide) (by decide) rfl rfl
  obtain rfl := Option.some.inj (isShape.symm.trans shape)
  exact ⟨shape, exactly⟩

end RadminPro
