import RadminPro.WireUtil
import Mathlib.Data.List.Basic
import Mathlib.Data.List.Forall2

namespace RadminPro

open ByteCodec

/-!
# The reader on 64-bit sizes

`ByteReader` as the code computes it: the bound is checked in `size_t`
arithmetic, which may wrap, and bytes are fetched through a bare pointer.  A
fetch past the buffer is a fault of its own, so its absence is a theorem.  The
cursor of `WireUtil` simulates this reader on every buffer a vector can hold.
-/

/-- Why a read stops: an exception, or a fetch past the buffer. -/
inductive ReadFault where
  | thrown (failure : DeserializeError)
  | pastEnd
  deriving DecidableEq

/-- The members of a `ByteReader`; `p` is what lies behind its pointer. -/
structure Reader64 where
  p : Bytes
  n : UInt64
  off : UInt64 := 0

/-- A parsing step over the members of a `ByteReader`. -/
abbrev Parse64 (α : Type) := StateT Reader64 (Except ReadFault) α

namespace Reader64

/-- The reader of a whole payload. -/
def start (payload : Bytes) : Reader64 where
  p := payload
  n := UInt64.ofNat payload.length

/-- Throw unless `size` more bytes are there; the sum may wrap. -/
def need (size : UInt64) : Parse64 Unit := fun reader =>
  if reader.off + size > reader.n then
    .error (.thrown ByteReader.underrun)
  else
    .ok ((), reader)

/-- `p_[off_ + index]`. -/
def fetch (index : UInt64) : Parse64 UInt8 := fun reader =>
  match reader.p[(reader.off + index).toNat]? with
  | some byte => .ok (byte, reader)
  | none => .error .pastEnd

/-- `off_ += size`. -/
def skip (size : UInt64) : Parse64 Unit := fun reader =>
  .ok ((), { reader with off := reader.off + size })

/-- Copy the bytes from `p_ + off_` to `p_ + off_ + size`. -/
def copy (size : UInt64) : Parse64 Bytes := fun reader =>
  if reader.off.toNat + size.toNat ≤ reader.p.length then
    .ok ((reader.p.drop reader.off.toNat).take size.toNat, reader)
  else
    .error .pastEnd

/-- Every read checks the bound, collects its bytes and steps over them. -/
def reading {α : Type} (size : UInt64) (collect : Parse64 α) : Parse64 α := do
  need size
  let value ← collect
  skip size
  pure value

/-- One byte. -/
def u8 : Parse64 UInt8 :=
  reading 1 (fetch 0)

/-- Two bytes, high byte first. -/
def u16 : Parse64 UInt16 :=
  reading 2 do
    let high ← fetch 0
    let low ← fetch 1
    pure (high.toUInt16 <<< 8 ||| low.toUInt16)

/-- Four bytes, high byte first. -/
def u32 : Parse64 UInt32 :=
  reading 4 do
    let first ← fetch 0
    let second ← fetch 1
    let third ← fetch 2
    let fourth ← fetch 3
    pure
      (first.toUInt32 <<< 24 ||| second.toUInt32 <<< 16 |||
        third.toUInt32 <<< 8 ||| fourth.toUInt32)

/-- Shift one more byte into a word. -/
def shiftIn (value : UInt64) (byte : UInt8) : UInt64 :=
  value <<< 8 ||| byte.toUInt64

/-- Eight bytes, high byte first. -/
def u64 : Parse64 UInt64 :=
  reading 8
    ([0, 1, 2, 3, 4, 5, 6, 7].foldlM
      (fun value index => shiftIn value <$> fetch index) 0)

/-- `size` bytes. -/
def bytes (size : UInt64) : Parse64 Bytes :=
  reading size (copy size)

/-- A blob behind its 32-bit length. -/
def blob : Parse64 Bytes := do
  let size ← u32
  bytes size.toUInt64

/-- A string is read as a blob. -/
def str : Parse64 Bytes :=
  blob

/-! ## The cursor simulates the reader -/

/-- The reader and the cursor stand at the same place of the same buffer. -/
structure At (cursor : Cursor) (reader : Reader64) : Prop where
  buffer : reader.p = cursor.buffer
  size : reader.n.toNat = cursor.buffer.length
  offset : reader.off.toNat = cursor.offset
  addressable : cursor.buffer.length < 2 ^ 63

/-- The same value at the same place, or the same exception. -/
inductive Agrees {α : Type} :
    Except ReadFault (α × Reader64) →
    Except DeserializeError (α × Cursor) → Prop where
  | ok (value : α) {reader : Reader64} {cursor : Cursor}
      (sameplace : At cursor reader) :
      Agrees (.ok (value, reader)) (.ok (value, cursor))
  | thrown (failure : DeserializeError) :
      Agrees (.error (.thrown failure)) (.error failure)

/-- Wherever they stand, the reader does what the cursor does. -/
def Simulates {α : Type} (parse64 : Parse64 α) (parse : Parse α) : Prop :=
  ∀ cursor reader, At cursor reader → Agrees (parse64 reader) (parse cursor)

namespace Simulates

variable {α β : Type}

theorem pure (value : α) :
    Simulates (Pure.pure value) (Pure.pure value) := by
  intro cursor reader sameplace
  exact .ok value sameplace

theorem bind
    {first64 : Parse64 α}
    {first : Parse α}
    {next64 : α → Parse64 β}
    {next : α → Parse β}
    (simulatesFirst : Simulates first64 first)
    (simulatesNext : ∀ value, Simulates (next64 value) (next value)) :
    Simulates (first64 >>= next64) (first >>= next) := by
  intro cursor reader sameplace
  change Agrees
    (first64 reader >>= fun step => next64 step.1 step.2)
    (first cursor >>= fun step => next step.1 step.2)
  have agrees := simulatesFirst cursor reader sameplace
  generalize first64 reader = outcome64 at agrees ⊢
  generalize first cursor = outcome at agrees ⊢
  cases agrees with
  | ok value moved =>
      exact simulatesNext value _ _ moved
  | thrown failure =>
      exact .thrown failure

theorem map
    {parse64 : Parse64 α}
    {parse : Parse α}
    (simulates : Simulates parse64 parse)
    (transform : α → β) :
    Simulates (transform <$> parse64) (transform <$> parse) := by
  intro cursor reader sameplace
  change Agrees
    (parse64 reader >>= fun step => Except.ok (transform step.1, step.2))
    (parse cursor >>= fun step => Except.ok (transform step.1, step.2))
  have agrees := simulates cursor reader sameplace
  generalize parse64 reader = outcome64 at agrees ⊢
  generalize parse cursor = outcome at agrees ⊢
  cases agrees with
  | ok value moved =>
      exact .ok (transform value) moved
  | thrown failure =>
      exact .thrown failure

end Simulates

/-- On a buffer that fits the address space the bound does not wrap. -/
theorem At.sum
    {cursor : Cursor}
    {reader : Reader64}
    (sameplace : At cursor reader)
    {size : UInt64}
    (narrow : size.toNat < 2 ^ 32) :
    (reader.off + size).toNat = cursor.offset + size.toNat := by
  have inside := cursor.inside
  have addressable := sameplace.addressable
  simp only [UInt64.toNat_add, sameplace.offset]
  omega

/-- `need` passes exactly when the bytes are there. -/
theorem At.need
    {cursor : Cursor}
    {reader : Reader64}
    (sameplace : At cursor reader)
    {size : UInt64}
    (narrow : size.toNat < 2 ^ 32) :
    Reader64.need size reader =
      if cursor.offset + size.toNat ≤ cursor.buffer.length then
        .ok ((), reader)
      else
        .error (.thrown ByteReader.underrun) := by
  have sum := sameplace.sum narrow
  simp only [Reader64.need, gt_iff_lt, UInt64.lt_iff_toNat_lt, sum,
    sameplace.size]
  split
  · rw [if_neg (by omega)]
  · rw [if_pos (by omega)]

/-- A fetch inside the unread bytes yields that byte. -/
theorem At.fetch
    {cursor : Cursor}
    {reader : Reader64}
    (sameplace : At cursor reader)
    {index : UInt64}
    {byte : UInt8}
    (narrow : index.toNat < 2 ^ 32)
    (present : cursor.unread[index.toNat]? = some byte) :
    Reader64.fetch index reader = .ok (byte, reader) := by
  have found : reader.p[(reader.off + index).toNat]? = some byte := by
    rw [sameplace.sum narrow, sameplace.buffer]
    simpa [Cursor.unread] using present
  simp only [Reader64.fetch, found]

/-- Both stand at the same place after the same step forward. -/
theorem At.skip
    {cursor : Cursor}
    {reader : Reader64}
    (sameplace : At cursor reader)
    {size : UInt64}
    (narrow : size.toNat < 2 ^ 32)
    (fits : cursor.offset + size.toNat ≤ cursor.buffer.length) :
    At ⟨cursor.buffer, cursor.offset + size.toNat, fits⟩
      { reader with off := reader.off + size } where
  buffer := sameplace.buffer
  size := sameplace.size
  offset := sameplace.sum narrow
  addressable := sameplace.addressable

/-- A read that collects a value from its window simulates the cursor's. -/
theorem reading_simulates
    {α : Type}
    {size : UInt64}
    {width : Nat}
    (isWidth : size.toNat = width)
    (narrow : width < 2 ^ 32)
    {collect : Parse64 α}
    {value : Bytes → α}
    (collects : ∀ cursor reader,
      At cursor reader →
      cursor.offset + width ≤ cursor.buffer.length →
      collect reader = .ok (value (cursor.unread.take width), reader)) :
    Simulates (reading size collect) (value <$> ByteReader.bytes width) := by
  subst isWidth
  intro cursor reader sameplace
  change Agrees
    (need size reader >>= fun passed =>
      collect passed.2 >>= fun step =>
        skip size step.2 >>= fun skipped =>
          Except.ok (step.1, skipped.2))
    (ByteReader.bytes size.toNat cursor >>= fun step =>
      Except.ok (value step.1, step.2))
  rw [sameplace.need narrow, ByteReader.bytes]
  by_cases fits : cursor.offset + size.toNat ≤ cursor.buffer.length
  · rw [if_pos fits, dif_pos fits]
    simp only [bind, Except.bind, collects cursor reader sameplace fits, skip]
    exact .ok _ (sameplace.skip narrow fits)
  · rw [if_neg fits, dif_neg fits]
    exact .thrown _

/-- A window that fits has the size asked for. -/
theorem window_length
    {cursor : Cursor}
    {size : Nat}
    (fits : cursor.offset + size ≤ cursor.buffer.length) :
    (cursor.unread.take size).length = size := by
  simp only [Cursor.unread, List.length_take, List.length_drop]
  omega

/-- A fetch inside a window that fits yields the byte of the window. -/
theorem At.fetch_window
    {cursor : Cursor}
    {reader : Reader64}
    (sameplace : At cursor reader)
    {size : Nat}
    {window : Bytes}
    (isWindow : cursor.unread.take size = window)
    {index : UInt64}
    {byte : UInt8}
    (narrow : index.toNat < 2 ^ 32)
    (present : window[index.toNat]? = some byte) :
    Reader64.fetch index reader = .ok (byte, reader) := by
  apply sameplace.fetch narrow
  subst isWindow
  rw [List.getElem?_take] at present
  split at present
  · exact present
  · cases present

/-! ## Words from their bytes -/

/-- Shifting a field in below another adds it. -/
theorem shiftLeft_or (high : Nat) {low width : Nat} (narrow : low < 2 ^ width) :
    high <<< width ||| low = high * 2 ^ width + low := by
  rw [← Nat.shiftLeft_add_eq_or_of_lt narrow, Nat.shiftLeft_eq]

/-- The word of two bytes. -/
theorem word16 (high low : UInt8) :
    high.toUInt16 <<< 8 ||| low.toUInt16 =
      UInt16.ofNat (bigEndianValue [high, low]) := by
  have highBound := high.toNat_lt
  have lowBound := low.toNat_lt
  apply UInt16.toNat_inj.mp
  have packed := shiftLeft_or high.toNat (show low.toNat < 2 ^ 8 from lowBound)
  simp only [UInt16.toNat_or, UInt16.toNat_shiftLeft, UInt8.toNat_toUInt16,
    UInt16.toNat_ofNat', bigEndianValue, List.foldl_cons, List.foldl_nil]
  change high.toNat <<< 8 % 2 ^ 16 ||| low.toNat = _
  rw [Nat.mod_eq_of_lt (by rw [Nat.shiftLeft_eq]; omega), packed]
  omega

/-- The word of four bytes. -/
theorem word32 (first second third fourth : UInt8) :
    first.toUInt32 <<< 24 ||| second.toUInt32 <<< 16 |||
        third.toUInt32 <<< 8 ||| fourth.toUInt32 =
      UInt32.ofNat (bigEndianValue [first, second, third, fourth]) := by
  have firstBound := first.toNat_lt
  have secondBound := second.toNat_lt
  have thirdBound := third.toNat_lt
  have fourthBound := fourth.toNat_lt
  apply UInt32.toNat_inj.mp
  simp only [UInt32.toNat_or, UInt32.toNat_shiftLeft, UInt8.toNat_toUInt32,
    UInt32.toNat_ofNat', bigEndianValue, List.foldl_cons, List.foldl_nil]
  change
    first.toNat <<< 24 % 2 ^ 32 ||| second.toNat <<< 16 % 2 ^ 32 |||
      third.toNat <<< 8 % 2 ^ 32 ||| fourth.toNat = _
  rw [Nat.mod_eq_of_lt (by rw [Nat.shiftLeft_eq]; omega),
    Nat.mod_eq_of_lt (by rw [Nat.shiftLeft_eq]; omega),
    Nat.mod_eq_of_lt (by rw [Nat.shiftLeft_eq]; omega),
    Nat.or_assoc, Nat.or_assoc,
    shiftLeft_or third.toNat (show fourth.toNat < 2 ^ 8 from fourthBound),
    shiftLeft_or second.toNat (by omega),
    shiftLeft_or first.toNat (by omega)]
  omega

/-- Shifting a byte into a word that has room for it. -/
theorem shiftIn_toNat (value : UInt64) (byte : UInt8) :
    (shiftIn value byte).toNat =
      (value.toNat * 256 + byte.toNat) % 2 ^ 64 := by
  have byteBound := byte.toNat_lt
  have valueBound := value.toNat_lt
  simp only [shiftIn, UInt64.toNat_or, UInt64.toNat_shiftLeft,
    UInt8.toNat_toUInt64]
  change value.toNat <<< 8 % 2 ^ 64 ||| byte.toNat = _
  have shifted :
      value.toNat <<< 8 % 2 ^ 64 = (value.toNat % 2 ^ 56) <<< 8 := by
    simp only [Nat.shiftLeft_eq]
    omega
  rw [shifted, shiftLeft_or _ (show byte.toNat < 2 ^ 8 from byteBound)]
  omega

/-- Shifting bytes in one by one reads them as a big-endian number. -/
theorem foldl_shiftIn (bytes : Bytes) :
    (bytes.foldl shiftIn 0).toNat = bigEndianValue bytes % 2 ^ 64 := by
  induction bytes using List.reverseRecOn with
  | nil =>
      rfl
  | append_singleton earlier last inductionHypothesis =>
      simp only [List.foldl_append, List.foldl_cons, List.foldl_nil,
        shiftIn_toNat, inductionHypothesis, bigEndianValue]
      omega

/-! ## Every operation of the reader -/

/-- A byte that was fetched is handed on. -/
theorem fetch_bind
    {α : Type}
    {index : UInt64}
    {reader : Reader64}
    {byte : UInt8}
    (fetched : fetch index reader = .ok (byte, reader))
    (next : UInt8 → Parse64 α) :
    (fetch index >>= next) reader = next byte reader := by
  change (fetch index reader >>= fun step => next step.1 step.2) = _
  rw [fetched]
  rfl

/-- Fetching one index after the other folds over the bytes fetched. -/
theorem foldlM_fetch
    {reader : Reader64}
    {indices : List UInt64}
    {window : Bytes}
    (fetched :
      List.Forall₂ (fun index byte => fetch index reader = .ok (byte, reader))
        indices window)
    (value : UInt64) :
    indices.foldlM (fun value index => shiftIn value <$> fetch index) value
        reader =
      .ok (window.foldl shiftIn value, reader) := by
  induction fetched generalizing value with
  | nil =>
      rfl
  | cons head tail inductionHypothesis =>
      rw [List.foldlM_cons, map_eq_pure_bind, bind_assoc, fetch_bind head]
      exact inductionHypothesis _

theorem u8_simulates : Simulates u8 ByteReader.u8 := by
  apply reading_simulates (show UInt64.toNat 1 = 1 from rfl) (by decide)
  intro cursor reader sameplace fits
  obtain ⟨byte, isWindow⟩ := List.length_eq_one_iff.mp (window_length fits)
  have fetched :=
    sameplace.fetch_window isWindow (show UInt64.toNat 0 < _ by decide) rfl
  rw [isWindow, fetched]
  simp [bigEndianValue]

theorem u16_simulates : Simulates u16 ByteReader.u16 := by
  apply reading_simulates (show UInt64.toNat 2 = 2 from rfl) (by decide)
  intro cursor reader sameplace fits
  obtain ⟨high, low, isWindow⟩ := List.length_eq_two.mp (window_length fits)
  have fetchHigh :=
    sameplace.fetch_window isWindow (show UInt64.toNat 0 < _ by decide) rfl
  have fetchLow :=
    sameplace.fetch_window isWindow (show UInt64.toNat 1 < _ by decide) rfl
  rw [isWindow, ← word16, fetch_bind fetchHigh, fetch_bind fetchLow]
  rfl

theorem u32_simulates : Simulates u32 ByteReader.u32 := by
  apply reading_simulates (show UInt64.toNat 4 = 4 from rfl) (by decide)
  intro cursor reader sameplace fits
  obtain ⟨first, second, third, fourth, isWindow⟩ :=
    List.length_eq_four.mp (window_length fits)
  have fetchFirst :=
    sameplace.fetch_window isWindow (show UInt64.toNat 0 < _ by decide) rfl
  have fetchSecond :=
    sameplace.fetch_window isWindow (show UInt64.toNat 1 < _ by decide) rfl
  have fetchThird :=
    sameplace.fetch_window isWindow (show UInt64.toNat 2 < _ by decide) rfl
  have fetchFourth :=
    sameplace.fetch_window isWindow (show UInt64.toNat 3 < _ by decide) rfl
  rw [isWindow, ← word32, fetch_bind fetchFirst, fetch_bind fetchSecond,
    fetch_bind fetchThird, fetch_bind fetchFourth]
  rfl

theorem u64_simulates : Simulates u64 ByteReader.u64 := by
  apply reading_simulates (show UInt64.toNat 8 = 8 from rfl) (by decide)
  intro cursor reader sameplace fits
  have isWindow : cursor.unread.take 8 = cursor.unread.take 8 := rfl
  have indexed :
      ∀ index : Fin 8,
        UInt64.toNat ([0, 1, 2, 3, 4, 5, 6, 7].get index) = index := by
    decide
  have fetched :
      List.Forall₂ (fun index byte => fetch index reader = .ok (byte, reader))
        [0, 1, 2, 3, 4, 5, 6, 7] (cursor.unread.take 8) := by
    apply List.forall₂_iff_get.mpr
    refine ⟨(window_length fits).symm, ?_⟩
    intro index first second
    apply sameplace.fetch_window isWindow
    · rw [indexed ⟨index, first⟩]
      exact first.trans (by decide)
    · rw [indexed ⟨index, first⟩]
      exact List.getElem?_eq_getElem second
  rw [foldlM_fetch fetched]
  congr 2
  apply UInt64.toNat_inj.mp
  rw [foldl_shiftIn, UInt64.toNat_ofNat']

theorem bytes_simulates
    {size : UInt64}
    (narrow : size.toNat < 2 ^ 32) :
    Simulates (bytes size) (ByteReader.bytes size.toNat) := by
  have collected : Simulates (bytes size) (id <$> ByteReader.bytes size.toNat) := by
    apply reading_simulates rfl narrow
    intro cursor reader sameplace fits
    rw [copy, if_pos (by rw [sameplace.offset, sameplace.buffer]; exact fits),
      sameplace.offset, sameplace.buffer]
    rfl
  simpa using collected

theorem blob_simulates : Simulates blob ByteReader.blob := by
  apply u32_simulates.bind
  intro size
  exact bytes_simulates size.toNat_lt

theorem str_simulates : Simulates str ByteReader.str :=
  blob_simulates

end Reader64

end RadminPro
