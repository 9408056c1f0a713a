import RadminPro.VideoStream

namespace RadminPro

open ByteCodec
open BufferWindow

/-!
# Tiles cover the frame

The tiles of a frame that the capture can produce lie inside it and cover every
byte of it, so bringing the changed tiles up to date brings the whole frame up
to date.
-/

/-- A frame as the capture produces it, within the Direct3D texture limit. -/
structure Acquired (frame : Frame) : Prop where
  widthPositive : 1 ≤ frame.width
  widthLimit : frame.width ≤ 16384
  heightPositive : 1 ≤ frame.height
  heightLimit : frame.height ≤ 16384
  stride : frame.stride = 4 * frame.width
  pixels : frame.pixels.length = frame.stride * frame.height

/-- A counter that cannot wrap takes every `step`-th value below its limit. -/
theorem mem_countUp
    {limit step : Nat}
    (fuel position : Nat)
    (positive : 0 < step)
    (noWrap : limit + step ≤ 2 ^ 32)
    (enough : limit ≤ position + fuel) :
    ∃ starts,
      countUp limit step fuel position = some starts ∧
        ∀ start,
          start ∈ starts ↔
            start < limit ∧ ∃ turns, start = position + turns * step := by
  induction fuel generalizing position with
  | zero =>
      have done : ¬position < limit := by
        omega
      refine ⟨[], by simp [countUp, done], fun start => ?_⟩
      simp only [List.not_mem_nil, false_iff]
      rintro ⟨below, turns, rfl⟩
      omega
  | succ fuel inductionHypothesis =>
      by_cases below : position < limit
      · obtain ⟨rest, shape, member⟩ :=
          inductionHypothesis (position + step) (by omega)
        have next : u32 (position + step) = position + step :=
          Nat.mod_eq_of_lt (by omega)
        refine ⟨position :: rest, by simp [countUp, below, next, shape],
          fun start => ?_⟩
        rw [List.mem_cons, member]
        constructor
        · rintro (rfl | ⟨inside, turns, rfl⟩)
          · exact ⟨below, 0, by simp⟩
          · exact ⟨inside, turns + 1, by ring⟩
        · rintro ⟨inside, turns, rfl⟩
          cases turns with
          | zero =>
              exact .inl (by simp)
          | succ turns =>
              exact .inr ⟨inside, turns, by ring⟩
      · refine ⟨[], by simp [countUp, below], fun start => ?_⟩
        simp only [List.not_mem_nil, false_iff]
        rintro ⟨inside, turns, rfl⟩
        omega

/-- The tiles of one side start at the multiples of the tile size. -/
theorem mem_tileStarts
    {limit tile : Nat}
    (positive : 0 < tile)
    (noWrap : limit + tile ≤ 2 ^ 32) :
    ∃ starts,
      tileStarts limit tile = some starts ∧
        ∀ start, start ∈ starts ↔ start < limit ∧ tile ∣ start := by
  obtain ⟨starts, shape, member⟩ :=
    mem_countUp limit 0 positive noWrap (by omega)
  refine ⟨starts, shape, fun start => ?_⟩
  rw [member]
  refine and_congr_right fun _ => ⟨?_, ?_⟩
  · rintro ⟨turns, rfl⟩
    exact ⟨turns, by ring⟩
  · rintro ⟨turns, rfl⟩
    exact ⟨turns, by ring⟩

/-- The tile that starts at `(tx, ty)`, clamped at the edges. -/
def tileAt (width height tile tx ty : Nat) : RectU where
  x := tx
  y := ty
  w := min tile (width - tx)
  h := min tile (height - ty)

/-- The tiles of a frame, row by row, of which only the changed ones are kept. -/
theorem changedTiles_eq
    {prev cur : Bytes}
    {width height stride tile : Nat}
    (sameLength : prev.length = cur.length)
    (positive : 0 < tile)
    {columns rows : List Nat}
    (columnShape : tileStarts width tile = some columns)
    (rowShape : tileStarts height tile = some rows) :
    changedTiles prev cur width height stride tile =
      some
        (rows.map fun ty =>
          (columns.map fun tx => tileAt width height tile tx ty).filter
            (tileDiffers prev cur stride)).flatten := by
  have notZero : tile ≠ 0 :=
    Nat.ne_of_gt positive
  simp only [changedTiles, sameLength, ne_eq, not_true_eq_false, if_false,
    if_neg notZero, columnShape, rowShape, Option.bind_eq_bind,
    Option.bind_some, tileAt]
  rw [List.mapM_pure]
  rfl

/-- The changed tiles are the tiles of the frame whose pixels differ. -/
theorem mem_changedTiles
    {prev cur : Bytes}
    (width height stride tile : Nat)
    (sameLength : prev.length = cur.length)
    (positive : 0 < tile)
    (widthFits : width + tile ≤ 2 ^ 32)
    (heightFits : height + tile ≤ 2 ^ 32) :
    ∃ rects,
      changedTiles prev cur width height stride tile = some rects ∧
        ∀ rc,
          rc ∈ rects ↔
            ∃ tx ty,
              (tx < width ∧ tile ∣ tx) ∧ (ty < height ∧ tile ∣ ty) ∧
                rc = tileAt width height tile tx ty ∧
                tileDiffers prev cur stride rc = true := by
  obtain ⟨columns, columnShape, isColumn⟩ := mem_tileStarts positive widthFits
  obtain ⟨rows, rowShape, isRow⟩ := mem_tileStarts positive heightFits
  refine ⟨(rows.map fun ty =>
      (columns.map fun tx => tileAt width height tile tx ty).filter
        (tileDiffers prev cur stride)).flatten, ?_, fun rc => ?_⟩
  · exact changedTiles_eq sameLength positive columnShape rowShape
  · simp only [List.mem_flatten, List.mem_map, exists_exists_and_eq_and,
      List.mem_filter, isRow, isColumn]
    constructor
    · rintro ⟨ty, rowStart, ⟨tx, columnStart, rfl⟩, differs⟩
      exact ⟨tx, ty, columnStart, rowStart, rfl, differs⟩
    · rintro ⟨tx, ty, columnStart, rowStart, rfl, differs⟩
      exact ⟨ty, rowStart, ⟨tx, columnStart, rfl⟩, differs⟩

section Coverage

variable {frame : Frame}

/-- A rectangle of tile size or less inside a frame. -/
structure TileInside (frame : Frame) (rc : RectU) : Prop where
  right : rc.x + rc.w ≤ frame.width
  bottom : rc.y + rc.h ≤ frame.height
  width : rc.w ≤ kDefaultTile
  height : rc.h ≤ kDefaultTile
  widthPositive : 0 < rc.w
  heightPositive : 0 < rc.h

theorem tileAt_inside
    {tx ty : Nat}
    (column : tx < frame.width)
    (row : ty < frame.height) :
    TileInside frame (tileAt frame.width frame.height kDefaultTile tx ty) := by
  constructor <;>
    simp only [tileAt, kDefaultTile] <;>
    omega

/-- Below the texture limit row offsets do not wrap. -/
theorem Acquired.rowOffset_eq
    (acquired : Acquired frame)
    {x y r : Nat}
    (column : x ≤ frame.width)
    (row : y + r < frame.height) :
    rowOffset frame.stride x y r = (y + r) * frame.stride + x * 4 := by
  have widthLimit := acquired.widthLimit
  have heightLimit := acquired.heightLimit
  have strideLimit : frame.stride ≤ 65536 := by
    have := acquired.stride
    omega
  have rowsLimit : (y + r) * frame.stride ≤ 16384 * 65536 :=
    Nat.mul_le_mul (by omega) strideLimit
  have rowFits : u32 (y + r) = y + r :=
    Nat.mod_eq_of_lt (by omega)
  rw [rowOffset, rowFits]
  exact Nat.mod_eq_of_lt (by omega)

/-- A row of a tile inside the frame lies inside its pixels. -/
theorem Acquired.row_inside
    (acquired : Acquired frame)
    {rc : RectU}
    (inside : TileInside frame rc)
    {r : Nat}
    (row : r < rc.h) :
    rowOffset frame.stride rc.x rc.y r + rc.w * 4 ≤ frame.pixels.length := by
  have right := inside.right
  have bottom := inside.bottom
  rw [acquired.rowOffset_eq (by omega) (by omega), acquired.pixels]
  calc
    (rc.y + r) * frame.stride + rc.x * 4 + rc.w * 4
        ≤ (rc.y + r) * frame.stride + frame.stride := by
          have := acquired.stride
          omega
    _ = (rc.y + r + 1) * frame.stride := by
          ring
    _ ≤ frame.height * frame.stride :=
          Nat.mul_le_mul_right _ (by omega)
    _ = frame.stride * frame.height :=
          Nat.mul_comm _ _

/-- The byte ranges of the rows of a tile. -/
def tileWindows (stride : Nat) (rc : RectU) : List (Nat × Nat) :=
  (List.range rc.h).map fun r => (rowOffset stride rc.x rc.y r, rc.w * 4)

theorem Acquired.tileWindows_inside
    (acquired : Acquired frame)
    {rc : RectU}
    (inside : TileInside frame rc) :
    ∀ range ∈ tileWindows frame.stride rc,
      range.1 + range.2 ≤ frame.pixels.length := by
  intro range member
  obtain ⟨r, isRow, rfl⟩ := List.mem_map.mp member
  exact acquired.row_inside inside (List.mem_range.mp isRow)

/-- Mirroring a tile copies its rows. -/
theorem mirrorTile_eq
    (frame : Frame)
    (prevFrame : Bytes)
    (rc : RectU) :
    mirrorTile frame prevFrame rc =
      copyWindows frame.pixels prevFrame (tileWindows frame.stride rc) := by
  rw [copyWindows, tileWindows, List.foldl_map]
  rfl

/-- The tile that covers a byte of the frame. -/
theorem Acquired.covering_tile
    (acquired : Acquired frame)
    {position : Nat}
    (inFrame : position < frame.pixels.length) :
    ∃ tx ty,
      (tx < frame.width ∧ kDefaultTile ∣ tx) ∧
        (ty < frame.height ∧ kDefaultTile ∣ ty) ∧
          ∃ range ∈ tileWindows frame.stride
              (tileAt frame.width frame.height kDefaultTile tx ty),
            range.1 ≤ position ∧ position < range.1 + range.2 := by
  have strideShape := acquired.stride
  have widthPositive := acquired.widthPositive
  have stridePositive : 0 < frame.stride := by
    omega
  rw [acquired.pixels] at inFrame
  have row : position / frame.stride < frame.height :=
    Nat.div_lt_of_lt_mul inFrame
  have column : position % frame.stride < frame.stride :=
    Nat.mod_lt _ stridePositive
  have place : position / frame.stride * frame.stride +
      position % frame.stride = position := by
    rw [Nat.mul_comm]
    exact Nat.div_add_mod position frame.stride
  generalize position / frame.stride = y at row place
  generalize position % frame.stride = c at column place
  refine ⟨c / 4 / kDefaultTile * kDefaultTile,
    y / kDefaultTile * kDefaultTile,
    ⟨?_, Nat.dvd_mul_left _ _⟩, ⟨?_, Nat.dvd_mul_left _ _⟩,
    (y * frame.stride + c / 4 / kDefaultTile * kDefaultTile * 4,
      min kDefaultTile (frame.width - c / 4 / kDefaultTile * kDefaultTile) * 4),
    List.mem_map.mpr ⟨y % kDefaultTile, ?_, ?_⟩, ?_, ?_⟩
  · unfold kDefaultTile
    omega
  · unfold kDefaultTile
    omega
  · simp only [List.mem_range, tileAt]
    unfold kDefaultTile
    omega
  · have sum : y / kDefaultTile * kDefaultTile + y % kDefaultTile = y := by
      unfold kDefaultTile
      omega
    simp only [tileAt]
    rw [acquired.rowOffset_eq (by unfold kDefaultTile; omega) (by omega), sum]
  · simp only
    unfold kDefaultTile
    omega
  · simp only
    unfold kDefaultTile
    omega

/-- An unchanged tile agrees with the new frame already. -/
theorem agreeAt_of_unchanged
    {prev : Bytes}
    {rc : RectU}
    (unchanged : tileDiffers prev frame.pixels frame.stride rc = false)
    {position : Nat}
    {range : Nat × Nat}
    (member : range ∈ tileWindows frame.stride rc)
    (from_ : range.1 ≤ position)
    (below : position < range.1 + range.2) :
    AgreeAt frame.pixels prev position := by
  obtain ⟨r, isRow, rfl⟩ := List.mem_map.mp member
  have rowSame := List.any_eq_false.mp unchanged r isRow
  simp only [Bool.or_eq_true, bne_iff_ne, ne_eq, not_or, not_not] at rowSame
  exact agreeAt_of_window_eq rowSame.2.symm from_ below

/-- Mirroring the changed tiles brings the mirror up to date. -/
theorem Acquired.mirror_changedTiles
    (acquired : Acquired frame)
    (prev : Bytes)
    (sameLength : prev.length = frame.pixels.length) :
    ∃ rects,
      changedTiles prev frame.pixels frame.width frame.height frame.stride =
          some rects ∧
        (∀ rc ∈ rects, TileInside frame rc) ∧
          rects.foldl (mirrorTile frame) prev = frame.pixels := by
  have widthLimit := acquired.widthLimit
  have heightLimit := acquired.heightLimit
  obtain ⟨rects, shape, isRect⟩ :=
    mem_changedTiles frame.width frame.height frame.stride kDefaultTile
      sameLength (by decide) (by unfold kDefaultTile; omega)
      (by unfold kDefaultTile; omega)
  have inside : ∀ rc ∈ rects, TileInside frame rc := by
    intro rc member
    obtain ⟨tx, ty, column, row, rfl, _⟩ := (isRect rc).mp member
    exact tileAt_inside column.1 row.1
  have asWindows :
      rects.foldl (mirrorTile frame) prev =
        copyWindows frame.pixels prev
          (rects.flatMap (tileWindows frame.stride)) := by
    clear shape isRect inside sameLength
    induction rects generalizing prev with
    | nil =>
        rfl
    | cons rc rest inductionHypothesis =>
        rw [List.foldl_cons, inductionHypothesis, mirrorTile_eq,
          List.flatMap_cons, copyWindows, copyWindows, copyWindows,
          List.foldl_append]
  have windowsInside :
      ∀ range ∈ rects.flatMap (tileWindows frame.stride),
        range.1 + range.2 ≤ frame.pixels.length := by
    intro range member
    obtain ⟨rc, isChanged, inTile⟩ := List.mem_flatMap.mp member
    exact acquired.tileWindows_inside (inside rc isChanged) range inTile
  refine ⟨rects, shape, inside, ?_⟩
  rw [asWindows]
  refine eq_of_agreeAt (length_copyWindows sameLength windowsInside)
    fun position inFrame =>
      agreeAt_copyWindows sameLength windowsInside ?_
  obtain ⟨tx, ty, column, row, range, inTile, from_, below⟩ :=
    acquired.covering_tile inFrame
  cases differs :
      tileDiffers prev frame.pixels frame.stride
        (tileAt frame.width frame.height kDefaultTile tx ty) with
  | false =>
      exact .inl (agreeAt_of_unchanged differs inTile from_ below)
  | true =>
      exact .inr ⟨range, List.mem_flatMap.mpr
        ⟨_, (isRect _).mpr ⟨tx, ty, column, row, rfl, differs⟩, inTile⟩,
        from_, below⟩

end Coverage

end RadminPro
