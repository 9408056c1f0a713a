import RadminPro.NearestDivision
import RadminPro.SessionContainment
import RadminPro.ViewerReader

namespace RadminPro

open ByteCodec
open NearestDivision

/-!
# From the viewer's mouse to the pointer of the host

`sendMouse` scales a position in the viewer's window to a pixel of the captured
frame; `injectMouse` scales that pixel to the normalised coordinates of the
primary screen.  The pixel survives when the primary screen has it and the
coordinates are fine enough to tell it from the others.
-/

/-! ## The viewer -/

/-- A value of an `int`; arithmetic that leaves the range is undefined. -/
def asInt (value : Int) : Option Int :=
  if -2 ^ 31 ≤ value ∧ value < 2 ^ 31 then some value else none

/-- `std::clamp`. -/
def clamp (value low high : Int) : Int :=
  if value < low then low else if high < value then high else value

/-- What `sendMouse` comes to. -/
inductive MouseSend where
  | nothing
  | overflow
  | sent (m : Message)
  deriving DecidableEq

/-- The payload of `InputMouse`. -/
def mousePayload (x y : UInt16) (action : UInt32) : Bytes :=
  putU16 x ++ putU16 y ++ putU32 action

/-- A position of the window as a pixel of the frame. -/
def toRemote (position remote client : Int) : Option Int :=
  (asInt (position * remote)).map fun product =>
    clamp (product.tdiv client) 0 (remote - 1)

/-- `sendMouse`. -/
def sendMouse
    (st : ViewerState)
    (cx cy : Int)
    (action : UInt32)
    (clientW clientH : Int) : MouseSend :=
  if st.remoteW ≤ 0 ∨ st.remoteH ≤ 0 ∨ clientW ≤ 0 ∨ clientH ≤ 0 then
    .nothing
  else
    match toRemote cx st.remoteW clientW, toRemote cy st.remoteH clientH with
    | some rx, some ry =>
        .sent
          ⟨.known .inputMouse,
            mousePayload (.ofInt rx) (.ofInt ry) action⟩
    | _, _ => .overflow

/-! ## The host -/

/-- The largest `int`. -/
def intMax : Int := 2 ^ 31 - 1

/-- `MulDiv` rounds to a nearest integer, or returns -1 when that overflows. -/
structure MulDiv where
  mulDiv : Int → Int → Int → Int
  rounds :
    ∀ number numerator denominator,
      0 ≤ number →
      0 ≤ numerator →
      0 < denominator →
      IsNearest (number * numerator) denominator
          (mulDiv number numerator denominator) ∨
        (mulDiv number numerator denominator = -1 ∧
          intMax * denominator < number * numerator)

def MOUSEEVENTF_MOVE : UInt32 := (1 : UInt32) <<< 0
def MOUSEEVENTF_LEFTDOWN : UInt32 := (1 : UInt32) <<< 1
def MOUSEEVENTF_LEFTUP : UInt32 := (1 : UInt32) <<< 2
def MOUSEEVENTF_RIGHTDOWN : UInt32 := (1 : UInt32) <<< 3
def MOUSEEVENTF_RIGHTUP : UInt32 := (1 : UInt32) <<< 4
def MOUSEEVENTF_ABSOLUTE : UInt32 := (1 : UInt32) <<< 15

/-- What `SendInput` is given. -/
structure MouseInput where
  dx : Int
  dy : Int
  dwFlags : UInt32
  deriving DecidableEq

/-- The button of an action. -/
def buttonFlag (action : UInt32) : UInt32 :=
  if action = 1 then
    MOUSEEVENTF_LEFTDOWN
  else if action = 2 then
    MOUSEEVENTF_LEFTUP
  else if action = 3 then
    MOUSEEVENTF_RIGHTDOWN
  else if action = 4 then
    MOUSEEVENTF_RIGHTUP
  else
    0

/-- `injectMouse`. -/
def injectMouse
    (api : MulDiv)
    (sw sh : Int)
    (x y : UInt16)
    (action : UInt32) : Option MouseInput :=
  if sw ≤ 1 ∨ sh ≤ 1 then
    none
  else
    some
      { dx := api.mulDiv x.toNat 65535 (sw - 1)
        dy := api.mulDiv y.toNat 65535 (sh - 1)
        dwFlags :=
          MOUSEEVENTF_ABSOLUTE ||| MOUSEEVENTF_MOVE ||| buttonFlag action }

/-! ## Faithful pointers -/

/-- A viewer with the geometry it was announced, its window and the host. -/
structure PointerSetup where
  st : ViewerState
  remoteW : UInt16
  remoteH : UInt16
  clientW : Int
  clientH : Int
  sw : Int
  sh : Int
  announced : st.remoteW = remoteW.toNat ∧ st.remoteH = remoteH.toNat
  captured : 0 < remoteW.toNat ∧ 0 < remoteH.toNat
  shown : 1 ≤ clientW ∧ 1 ≤ clientH
  screened : 2 ≤ sw ∧ 2 ≤ sh

/-- Normalised coordinates lie on the screen and denote the pixel. -/
def Denotes (screen coordinate pixel : Int) : Prop :=
  (0 ≤ coordinate ∧ coordinate ≤ 65535) ∧
    nearest (coordinate * (screen - 1)) 65535 = pixel

/-- What the viewer sends for a position. -/
def PointerSetup.send
    (setup : PointerSetup)
    (cx cy : Int16)
    (action : UInt32) : MouseSend :=
  sendMouse setup.st cx.toInt cy.toInt action setup.clientW setup.clientH

/--
A position is sent as a pixel of the frame, no further left or up than those of
positions further right or down; the host reads that pixel and injects
coordinates that denote it.
-/
structure PointerFaithful
    (api : MulDiv)
    (setup : PointerSetup)
    (cx cy : Int16)
    (action : UInt32)
    (rx ry : UInt16) : Prop where
  sent :
    setup.send cx cy action =
      .sent ⟨.known .inputMouse, mousePayload rx ry action⟩
  inside : rx < setup.remoteW ∧ ry < setup.remoteH
  monotone :
    ∀ cx' cy' rx' ry',
      setup.send cx' cy' action =
        .sent ⟨.known .inputMouse, mousePayload rx' ry' action⟩ →
      (cx ≤ cx' → rx ≤ rx') ∧ (cy ≤ cy' → ry ≤ ry')
  handled :
    ∀ ctx loop,
      ctx.canControl = true →
      handleInputMouse ctx loop (mousePayload rx ry action) =
        .ok { loop, effects := [.injectMouse rx ry action] }
  injected :
    ∃ input,
      injectMouse api setup.sw setup.sh rx ry action = some input ∧
        Denotes setup.sw input.dx rx.toNat ∧
        Denotes setup.sh input.dy ry.toNat

/-- The pixel of the frame under a position of the window. -/
def pixelUnder (position remote client : Int) : Int :=
  max 0 (min (position * remote / client) (remote - 1))

/--
The screen has the pixel, and a normalised coordinate lies less than half a
pixel away from it.
-/
def Addressable (screen pixel : Int) : Prop :=
  pixel ≤ screen - 1 ∧ 2 * gap (pixel * 65535) (screen - 1) < 65535

instance (screen pixel : Int) : Decidable (Addressable screen pixel) :=
  inferInstanceAs (Decidable (_ ∧ _))

/-! ## The viewer's half -/

section Viewer

variable {position remote client : Int}

/-- A position of 16 bits times a size of 16 bits is an `int`. -/
theorem asInt_product
    (position : Int16)
    (remote : UInt16) :
    asInt (position.toInt * remote.toNat) =
      some (position.toInt * remote.toNat) := by
  have lower : -2 ^ 15 ≤ position.toInt :=
    position.le_toInt
  have upper : position.toInt < 2 ^ 15 :=
    position.toInt_lt
  have size : remote.toNat < 2 ^ 16 :=
    remote.toNat_lt
  rw [asInt, if_pos]
  constructor
  · nlinarith
  · nlinarith

theorem clamp_tdiv
    (positive : 0 < client)
    (captured : 0 < remote) :
    clamp ((position * remote).tdiv client) 0 (remote - 1) =
      pixelUnder position remote client := by
  unfold clamp pixelUnder
  generalize position * remote = product
  rcases lt_or_ge product 0 with negative | nonneg
  · have truncated : product.tdiv client ≤ 0 := by
      have opposite : 0 ≤ (-product).tdiv client :=
        Int.tdiv_nonneg (by omega) positive.le
      rw [Int.neg_tdiv] at opposite
      omega
    have floored : product / client < 0 :=
      Int.ediv_neg_of_neg_of_pos negative positive
    split
    · omega
    · rw [if_neg (by omega)]
      omega
  · have quotient : 0 ≤ product / client :=
      Int.ediv_nonneg nonneg positive.le
    rw [Int.tdiv_eq_ediv_of_nonneg nonneg, if_neg (by omega)]
    split
    · omega
    · omega

/-- `sendMouse` finds the pixel under the pointer. -/
theorem toRemote_eq
    (position : Int16)
    (remote : UInt16)
    (positive : 0 < client)
    (captured : 0 < remote.toNat) :
    toRemote position.toInt remote.toNat client =
      some (pixelUnder position.toInt remote.toNat client) := by
  rw [toRemote, asInt_product, Option.map_some,
    clamp_tdiv positive (by exact_mod_cast captured)]

/-- The pixel is one of the frame. -/
theorem pixelUnder_mem
    (position client : Int)
    (captured : 0 < remote) :
    0 ≤ pixelUnder position remote client ∧
      pixelUnder position remote client < remote := by
  unfold pixelUnder
  omega

/-- Further right is no further left in the frame. -/
theorem pixelUnder_mono
    {other : Int}
    (ordered : position ≤ other)
    (positive : 0 < client)
    (captured : 0 ≤ remote) :
    pixelUnder position remote client ≤ pixelUnder other remote client := by
  have quotients : position * remote / client ≤ other * remote / client :=
    Int.ediv_le_ediv positive (Int.mul_le_mul_of_nonneg_right ordered captured)
  unfold pixelUnder
  omega

/-- Narrowed to 16 bits the pixel is itself. -/
theorem toNat_ofInt
    {pixel : Int}
    {remote : UInt16}
    (nonneg : 0 ≤ pixel)
    (inside : pixel < remote.toNat) :
    ((UInt16.ofInt pixel).toNat : Int) = pixel := by
  have small : remote.toNat < 2 ^ 16 := remote.toNat_lt
  rw [UInt16.ofInt, UInt16.toNat_ofNat']
  omega

end Viewer

/-! ## The message -/

/-- The host reads the fields of the payload. -/
theorem parse_mousePayload
    (x y : UInt16)
    (action : UInt32) :
    parseAll
        (do
          let x ← ByteReader.u16
          let y ← ByteReader.u16
          let action ← ByteReader.u32
          pure (x, y, action))
        (mousePayload x y action) =
      .ok (x, y, action) := by
  rw [parseAll_ok_iff
    (ByteReader.u16_reads.bind fun x =>
      ByteReader.u16_reads.bind fun y =>
      ByteReader.u32_reads.bind fun action =>
      ByteCodec.Reads.pure (x, y, action))]
  refine ⟨mousePayload x y action, ?_, [], (List.append_nil _).symm⟩
  simp [mousePayload]

/-- So a payload has one pixel. -/
theorem mousePayload_inj
    {x y x' y' : UInt16}
    {action action' : UInt32}
    (same : mousePayload x y action = mousePayload x' y' action') :
    x = x' ∧ y = y' := by
  have parsed := parse_mousePayload x y action
  rw [same, parse_mousePayload, Except.ok.injEq, Prod.mk.injEq,
    Prod.mk.injEq] at parsed
  exact ⟨parsed.1.symm, parsed.2.1.symm⟩

theorem handleInputMouse_mousePayload
    {ctx : SessionContext}
    (permitted : ctx.canControl = true)
    (loop : LoopState)
    (x y : UInt16)
    (action : UInt32) :
    handleInputMouse ctx loop (mousePayload x y action) =
      .ok { loop, effects := [.injectMouse x y action] } := by
  rw [handleInputMouse, permitted, parse_mousePayload]
  rfl

/-! ## The host's half -/

/-- Injected as it is, a pixel is denoted exactly when it is addressable. -/
theorem denotes_iff
    (api : MulDiv)
    {screen : Int}
    (screened : 2 ≤ screen)
    (x : UInt16)
    (pixel : x.toNat < 65535) :
    Denotes screen (api.mulDiv x.toNat 65535 (screen - 1)) x.toNat ↔
      Addressable screen x.toNat := by
  have positive : 0 < screen - 1 := by
    omega
  unfold Denotes Addressable
  rcases api.rounds x.toNat 65535 (screen - 1) (by omega) (by omega) positive with
    isNearest | ⟨overflow, large⟩
  · rw [nearest_back_iff isNearest positive (by decide) (by decide)]
    apply and_congr_left
    intro _
    have between := two_mul_abs_le_iff.mp isNearest
    generalize api.mulDiv x.toNat 65535 (screen - 1) = scaled at *
    constructor
    · rintro ⟨-, upper⟩
      have product : scaled * (screen - 1) ≤ 65535 * (screen - 1) :=
        Int.mul_le_mul_of_nonneg_right upper positive.le
      omega
    · intro onScreen
      constructor
      · by_contra negative
        have product : scaled * (screen - 1) ≤ -1 * (screen - 1) :=
          Int.mul_le_mul_of_nonneg_right (by omega) positive.le
        omega
      · by_contra large
        have product : 65536 * (screen - 1) ≤ scaled * (screen - 1) :=
          Int.mul_le_mul_of_nonneg_right (by omega) positive.le
        omega
  · refine iff_of_false ?_ ?_
    · rintro ⟨⟨nonneg, -⟩, -⟩
      omega
    · rintro ⟨onScreen, -⟩
      unfold intMax at large
      omega

/-! ## Both halves -/

namespace PointerSetup

variable (setup : PointerSetup)

/-- The column of the frame under a position. -/
def column (cx : Int16) : Int :=
  pixelUnder cx.toInt setup.remoteW.toNat setup.clientW

/-- The row of the frame under a position. -/
def row (cy : Int16) : Int :=
  pixelUnder cy.toInt setup.remoteH.toNat setup.clientH

theorem toNat_column (cx : Int16) :
    ((UInt16.ofInt (setup.column cx)).toNat : Int) = setup.column cx := by
  have inside :=
    pixelUnder_mem cx.toInt setup.clientW
      (Int.natCast_pos.mpr setup.captured.1)
  exact toNat_ofInt inside.1 inside.2

theorem toNat_row (cy : Int16) :
    ((UInt16.ofInt (setup.row cy)).toNat : Int) = setup.row cy := by
  have inside :=
    pixelUnder_mem cy.toInt setup.clientH
      (Int.natCast_pos.mpr setup.captured.2)
  exact toNat_ofInt inside.1 inside.2

/-- What is sent is the pixel under the position. -/
theorem send_eq
    (cx cy : Int16)
    (action : UInt32) :
    setup.send cx cy action =
      .sent
        ⟨.known .inputMouse,
          mousePayload (.ofInt (setup.column cx)) (.ofInt (setup.row cy))
            action⟩ := by
  have captured := setup.captured
  have shown := setup.shown
  unfold send sendMouse
  rw [setup.announced.1, setup.announced.2, if_neg (by omega),
    toRemote_eq cx setup.remoteW shown.1 captured.1,
    toRemote_eq cy setup.remoteH shown.2 captured.2]
  rfl

theorem send_inj
    {cx cy : Int16}
    {action : UInt32}
    {rx ry : UInt16}
    (sent :
      setup.send cx cy action =
        .sent ⟨.known .inputMouse, mousePayload rx ry action⟩) :
    (rx.toNat : Int) = setup.column cx ∧ (ry.toNat : Int) = setup.row cy := by
  rw [send_eq, MouseSend.sent.injEq, Message.mk.injEq] at sent
  obtain ⟨rfl, rfl⟩ := mousePayload_inj sent.2
  exact ⟨setup.toNat_column cx, setup.toNat_row cy⟩

end PointerSetup

/-- The screen denotes a pixel of the frame exactly when it is addressable. -/
theorem injectMouse_denotes_iff
    (api : MulDiv)
    (setup : PointerSetup)
    {rx ry : UInt16}
    (inside : rx < setup.remoteW ∧ ry < setup.remoteH)
    (action : UInt32) :
    (∃ input,
        injectMouse api setup.sw setup.sh rx ry action = some input ∧
          Denotes setup.sw input.dx rx.toNat ∧
          Denotes setup.sh input.dy ry.toNat) ↔
      Addressable setup.sw rx.toNat ∧ Addressable setup.sh ry.toNat := by
  have screened := setup.screened
  have column : rx.toNat < 65535 :=
    Nat.lt_of_lt_of_le (UInt16.lt_iff_toNat_lt.mp inside.1)
      (Nat.le_of_lt_succ setup.remoteW.toNat_lt)
  have row : ry.toNat < 65535 :=
    Nat.lt_of_lt_of_le (UInt16.lt_iff_toNat_lt.mp inside.2)
      (Nat.le_of_lt_succ setup.remoteH.toNat_lt)
  unfold injectMouse
  rw [if_neg (by omega), ← denotes_iff api screened.1 rx column,
    ← denotes_iff api screened.2 ry row]
  simp

/--
The pointer goes where the viewer points exactly when the primary screen of the
host has the pixel and normalised coordinates can denote it.
-/
theorem pointer_faithful_iff
    (api : MulDiv)
    (setup : PointerSetup)
    (cx cy : Int16)
    (action : UInt32) :
    (∃ rx ry, PointerFaithful api setup cx cy action rx ry) ↔
      Addressable setup.sw
          (pixelUnder cx.toInt setup.remoteW.toNat setup.clientW) ∧
        Addressable setup.sh
          (pixelUnder cy.toInt setup.remoteH.toNat setup.clientH) := by
  constructor
  · rintro ⟨rx, ry, faithful⟩
    obtain ⟨isColumn, isRow⟩ := setup.send_inj faithful.sent
    have denoted :=
      (injectMouse_denotes_iff api setup faithful.inside action).mp
        faithful.injected
    rw [isColumn, isRow] at denoted
    exact denoted
  · intro addressable
    let rx := UInt16.ofInt (setup.column cx)
    let ry := UInt16.ofInt (setup.row cy)
    have isColumn : (rx.toNat : Int) = setup.column cx :=
      setup.toNat_column cx
    have isRow : (ry.toNat : Int) = setup.row cy :=
      setup.toNat_row cy
    have columnInside :=
      pixelUnder_mem cx.toInt setup.clientW
        (Int.natCast_pos.mpr setup.captured.1)
    have rowInside :=
      pixelUnder_mem cy.toInt setup.clientH
        (Int.natCast_pos.mpr setup.captured.2)
    have inside : rx < setup.remoteW ∧ ry < setup.remoteH := by
      constructor
      · rw [UInt16.lt_iff_toNat_lt]
        exact_mod_cast isColumn.trans_lt columnInside.2
      · rw [UInt16.lt_iff_toNat_lt]
        exact_mod_cast isRow.trans_lt rowInside.2
    refine ⟨rx, ry, setup.send_eq cx cy action, inside, ?_,
      fun _ loop permitted => handleInputMouse_mousePayload permitted loop ..,
      ?_⟩
    · intro cx' cy' rx' ry' sent
      obtain ⟨isColumn', isRow'⟩ := setup.send_inj sent
      constructor
      · intro ordered
        have columns : setup.column cx ≤ setup.column cx' :=
          pixelUnder_mono (Int16.le_iff_toInt_le.mp ordered)
            (by have := setup.shown; omega) (by omega)
        rw [UInt16.le_iff_toNat_le]
        omega
      · intro ordered
        have rows : setup.row cy ≤ setup.row cy' :=
          pixelUnder_mono (Int16.le_iff_toInt_le.mp ordered)
            (by have := setup.shown; omega) (by omega)
        rw [UInt16.le_iff_toNat_le]
        omega
    · rw [injectMouse_denotes_iff api setup inside, isColumn, isRow]
      exact addressable

/-- `MulDiv` with ties rounded up. -/
def win32MulDiv : MulDiv where
  mulDiv := fun number numerator denominator =>
    let quotient := nearest (number * numerator) denominator
    if quotient ≤ intMax then quotient else -1
  rounds := by
    intro number numerator denominator nonneg positive divides
    have isNearest :=
      isNearest_nearest (number * numerator) divides
    dsimp only
    split
    case isTrue fits =>
        exact .inl isNearest
    case isFalse overflows =>
        refine .inr ⟨rfl, ?_⟩
        have between := two_mul_abs_le_iff.mp isNearest
        have large :
            (intMax + 1) * denominator ≤
              nearest (number * numerator) denominator * denominator :=
          Int.mul_le_mul_of_nonneg_right (by omega) divides.le
        rw [Int.add_mul, Int.one_mul] at large
        omega

/-- The wider of two monitors is captured, the other one is the primary. -/
def widerMonitor : PointerSetup where
  st := { remoteW := 2560, remoteH := 1440 }
  remoteW := 2560
  remoteH := 1440
  clientW := 2560
  clientH := 1440
  sw := 1920
  sh := 1080
  announced := by decide
  captured := by decide
  shown := by decide
  screened := by decide

/-- A click on the right of the captured monitor is injected off the screen. -/
theorem click_past_the_screen :
    ¬∃ rx ry, PointerFaithful win32MulDiv widerMonitor 2000 0 1 rx ry := by
  rw [pointer_faithful_iff]
  decide +kernel

end RadminPro
