import RadminPro.ViewerReader

namespace RadminPro

open ByteCodec

/-!
# The life of the reader thread

`readerLoop` runs in a thread of its own.  Beside the messages there are the run
flag, which the window's thread clears as well, reads that fail, and the copy of
a finished frame, which may find no memory.
-/

/-- What the thread posts to the viewer's window. -/
inductive WindowMessage where
  | appFrame
  | close
  deriving DecidableEq

/-- The thread, its run flag and what it has posted. -/
structure ReaderThread where
  reader : Reader := .running {}
  running : Bool := true
  posted : List WindowMessage := []

/--
What one pass of the loop meets; `read` is `none` when `readMessage` fails.  The
heap is asked only for a buffer that a vector has no room for.
-/
structure ReaderTurn where
  closing : Bool := false
  read : Option Message := none
  heap : Nat → Bool := fun _ => true

namespace ReaderThread

/-- The loop is left. -/
def finish (thread : ReaderThread) (st : ViewerState) : ReaderThread where
  reader := .stopped st
  running := false
  posted := thread.posted ++ [.close]

/-- `st->front = st->pending` finds the memory it needs. -/
def frameCopied (heap : Nat → Bool) (st : ViewerState) : Bool :=
  st.pending.length ≤ st.front.length || heap st.pending.length

/-- A message in the loop. -/
def receive
    (thread : ReaderThread)
    (heap : Nat → Bool)
    (st : ViewerState)
    (m : Message) : ReaderThread :=
  if m.op = .known .frameEnd ∧ frameCopied heap st = false then
    { thread with reader := .escaped .badAlloc }
  else
    match readerStep heap st m with
    | .error exception => { thread with reader := .escaped exception }
    | .ok (.running next) =>
        { thread with
          reader := .running next
          posted :=
            if m.op = .known .frameEnd then
              thread.posted ++ [.appFrame]
            else
              thread.posted }
    | .ok _ => thread.finish st

/-- One pass of the loop. -/
def step (thread : ReaderThread) (turn : ReaderTurn) : ReaderThread :=
  match thread.reader with
  | .running st =>
      if turn.closing then
        thread.finish st
      else
        match turn.read with
        | none => thread.finish st
        | some m => thread.receive turn.heap st m
  | .stopped _ | .escaped _ => thread

/--
The thread is in its loop, or it has left the loop with the run flag cleared and
the window told to close.
-/
def Orderly (thread : ReaderThread) : Prop :=
  match thread.reader with
  | .running _ => True
  | .stopped _ =>
      thread.running = false ∧ WindowMessage.close ∈ thread.posted
  | .escaped _ => False

/-! ## The geometry of a keyframe -/

/-- The buffer of a keyframe can be had. -/
def Affordable (heap : Nat → Bool) (fi : FrameInfoMsg) : Prop :=
  (fi.height = 0 ∨ fi.stride.toNat < 2 ^ 31) ∧
    heap (fi.stride.toNat * fi.height.toNat) = true

section Geometry

variable {fi : FrameInfoMsg}

/-- A keyframe's bytes are few when its stride stays positive as an `int`. -/
theorem keyframe_small
    (positive : fi.stride.toNat < 2 ^ 31) :
    fi.stride.toNat * fi.height.toNat < 2 ^ 31 * 2 ^ 16 :=
  Nat.mul_lt_mul'' positive fi.height.toNat_lt

/-- They fit into a vector. -/
theorem keyframe_fits
    (fine : fi.height = 0 ∨ fi.stride.toNat < 2 ^ 31) :
    fi.stride.toNat * fi.height.toNat ≤ vectorMaxSize := by
  rcases fine with noRows | positive
  · simp [noRows]
  · exact Nat.le_trans (Nat.le_of_lt (keyframe_small positive)) (by decide)

/-- They are what is asked for. -/
theorem keyframe_size
    (fine : fi.height = 0 ∨ fi.stride.toNat < 2 ^ 31) :
    sizeT (sizeOfInt (intOfU32 fi.stride) * sizeOfInt fi.height.toNat) =
      fi.stride.toNat * fi.height.toNat := by
  rcases fine with noRows | positive
  · simp [noRows, sizeOfInt, sizeT]
  · have height := fi.height.toNat_lt
    have small := keyframe_small positive
    have asInt : intOfU32 fi.stride = fi.stride.toNat :=
      BitVec.toInt_eq_toNat_of_lt (by simp; omega)
    rw [asInt, sizeOfInt_natCast (by omega), sizeOfInt_natCast (by omega)]
    exact Nat.mod_eq_of_lt (by omega)

/-- A stride that turns negative asks for more than a vector can hold. -/
theorem keyframe_too_long
    (rows : fi.height ≠ 0)
    (negative : 2 ^ 31 ≤ fi.stride.toNat) :
    vectorMaxSize <
      sizeT (sizeOfInt (intOfU32 fi.stride) * sizeOfInt fi.height.toNat) := by
  have height := fi.height.toNat_lt
  have narrow := fi.stride.toNat_lt
  have someRow : 0 < fi.height.toNat :=
    UInt16.lt_iff_toNat_lt.mp (UInt16.pos_iff_ne_zero.mpr rows)
  obtain ⟨missing, isMissing⟩ := Nat.exists_eq_add_of_lt narrow
  have asInt : intOfU32 fi.stride = -((missing + 1 : Nat) : Int) := by
    rw [intOfU32, BitVec.toInt_eq_toNat_cond, if_neg (by simp; omega)]
    simp
    omega
  have asSize : sizeOfInt (intOfU32 fi.stride) = 2 ^ 64 - (missing + 1) := by
    rw [asInt, sizeOfInt]
    omega
  -- The product falls short of a multiple of 2 ^ 64 by less than 2 ^ 47.
  have few : (missing + 1) * fi.height.toNat ≤ 2 ^ 31 * 2 ^ 16 :=
    Nat.mul_le_mul (by omega) (by omega)
  have some : 0 < (missing + 1) * fi.height.toNat :=
    Nat.mul_pos (Nat.succ_pos _) someRow
  have product :
      (2 ^ 64 - (missing + 1)) * fi.height.toNat =
        2 ^ 64 * (fi.height.toNat - 1) +
          (2 ^ 64 - (missing + 1) * fi.height.toNat) := by
    rw [Nat.sub_mul, Nat.mul_sub]
    omega
  rw [asSize, sizeOfInt_natCast (by omega), sizeT, product,
    Nat.mul_add_mod, Nat.mod_eq_of_lt (by omega)]
  unfold vectorMaxSize
  omega

end Geometry

end ReaderThread

end RadminPro
