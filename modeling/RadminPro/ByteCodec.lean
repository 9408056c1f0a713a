import Mathlib.Tactic.Linarith
import Mathlib.Tactic.Positivity
import Mathlib.Tactic.Ring
import Mathlib.Data.Nat.ModEq

namespace RadminPro

/-! A buffer of raw bytes; text is kept as its bytes too. -/

/-- Raw bytes, in order. -/
abbrev Bytes := List UInt8

namespace ByteCodec

/-!
# Big-endian byte formats read through a bounds-checked cursor

A `Cursor` is a buffer with a read position that cannot leave it.  A decoder is
a state computation over a cursor which may fail, and `Reads` says exactly
which byte strings it consumes for which values: everything it accepts was
written that way, and everything written that way is accepted.  Exactness is
closed under sequencing, so a record decoder inherits it from its fields.
-/

/-- The bytes of an ASCII text. -/
def ascii (text : String) : Bytes :=
  text.toList.map fun character => UInt8.ofNat character.toNat

/-- The `width` low bytes of a number, most significant first. -/
def bigEndian : Nat → Nat → Bytes
  | 0, _ => []
  | width + 1, value =>
      UInt8.ofNat (value >>> (8 * width)) :: bigEndian width value

/-- The number written by a big-endian byte string. -/
def bigEndianValue (bytes : Bytes) : Nat :=
  bytes.foldl (fun value byte => value * 256 + byte.toNat) 0

/-- A big-endian field occupies exactly its width. -/
@[simp] theorem bigEndian_length
    (width value : Nat) :
    (bigEndian width value).length = width := by
  induction width with
  | zero =>
      rfl
  | succ width inductionHypothesis =>
      simp [bigEndian, inductionHypothesis]

/-- The leading byte carries the highest power of 256. -/
theorem bigEndianValue_cons
    (byte : UInt8)
    (rest : Bytes) :
    bigEndianValue (byte :: rest) =
      byte.toNat * 256 ^ rest.length + bigEndianValue rest := by
  have shifted :
      ∀ (bytes : Bytes) (start : Nat),
        bytes.foldl (fun value byte => value * 256 + byte.toNat) start =
          start * 256 ^ bytes.length + bigEndianValue bytes := by
    intro bytes
    induction bytes with
    | nil =>
        simp [bigEndianValue]
    | cons head tail inductionHypothesis =>
        intro start
        have fromStart := inductionHypothesis (start * 256 + head.toNat)
        have fromZero := inductionHypothesis (0 * 256 + head.toNat)
        simp only [bigEndianValue, List.foldl_cons, List.length_cons, pow_succ]
          at fromStart fromZero ⊢
        rw [fromStart, fromZero]
        ring
  have headStart := shifted rest (0 * 256 + byte.toNat)
  simpa [bigEndianValue] using headStart

/-- A byte string denotes a number below the next power of 256. -/
theorem bigEndianValue_lt
    (bytes : Bytes) :
    bigEndianValue bytes < 256 ^ bytes.length := by
  induction bytes with
  | nil =>
      simp [bigEndianValue]
  | cons head tail inductionHypothesis =>
      rw [bigEndianValue_cons, List.length_cons, pow_succ]
      have headBound : head.toNat + 1 ≤ 256 := head.toNat_lt
      have scaled :=
        Nat.mul_le_mul_right (256 ^ tail.length) headBound
      rw [Nat.add_mul, Nat.one_mul, Nat.mul_comm 256] at scaled
      omega

/-- Only the low `width` bytes of a number are written. -/
theorem bigEndianValue_bigEndian
    (width value : Nat) :
    bigEndianValue (bigEndian width value) = value % 256 ^ width := by
  induction width with
  | zero =>
      simp [bigEndian, bigEndianValue, Nat.mod_one]
  | succ width inductionHypothesis =>
      rw [bigEndian, bigEndianValue_cons, inductionHypothesis, bigEndian_length]
      have powers : (2 : Nat) ^ (8 * width) = 256 ^ width := by
        rw [pow_mul]
        norm_num
      have headByte :
          (UInt8.ofNat (value >>> (8 * width))).toNat =
            value / 256 ^ width % 256 := by
        rw [UInt8.toNat_ofNat', Nat.shiftRight_eq_div_pow, powers]
      rw [headByte, pow_succ, Nat.mod_mul]
      ring

/-- A byte string is the big-endian form of the number it denotes. -/
theorem bigEndian_bigEndianValue
    (bytes : Bytes) :
    bigEndian bytes.length (bigEndianValue bytes) = bytes := by
  have sameBytes :
      ∀ (first second : Bytes),
        first.length = second.length →
        bigEndianValue first = bigEndianValue second →
        first = second := by
    intro first
    induction first with
    | nil =>
        intro second sameLength _
        exact (List.length_eq_zero_iff.mp sameLength.symm).symm
    | cons head tail inductionHypothesis =>
        intro second sameLength sameValue
        cases second with
        | nil =>
            simp at sameLength
        | cons otherHead otherTail =>
            have tailLength : tail.length = otherTail.length := by
              simpa using sameLength
            rw [bigEndianValue_cons, bigEndianValue_cons, tailLength] at sameValue
            have tailBound := bigEndianValue_lt tail
            have otherBound := bigEndianValue_lt otherTail
            rw [tailLength] at tailBound
            have headSame : head.toNat = otherHead.toNat := by
              have divided := congrArg (· / 256 ^ otherTail.length) sameValue
              simp only [Nat.mul_comm _ (256 ^ otherTail.length)] at divided
              have scalePositive : 0 < 256 ^ otherTail.length := by
                positivity
              rw [Nat.mul_add_div scalePositive, Nat.div_eq_of_lt tailBound,
                Nat.mul_add_div scalePositive, Nat.div_eq_of_lt otherBound]
                at divided
              simpa using divided
            rw [headSame] at sameValue
            have tailSame : bigEndianValue tail = bigEndianValue otherTail := by
              omega
            rw [inductionHypothesis otherTail tailLength tailSame,
              UInt8.toNat_inj.mp headSame]
  apply sameBytes
  · simp
  · rw [bigEndianValue_bigEndian, Nat.mod_eq_of_lt (bigEndianValue_lt bytes)]

/-! ## One-byte enumerations -/

/-- The named values of a one-byte enumeration, each with its own code. -/
class ByteEnum (Name : Type) where
  code : Name → UInt8
  named : List Name
  complete : ∀ name, name ∈ named
  distinct : ∀ {first second}, code first = code second → first = second

/--
A one-byte enumeration that a cast can fill with any byte: either a named value
or a byte that no name has.
-/
inductive EnumByte (Name : Type) [ByteEnum Name] where
  | known (name : Name)
  | other (byte : UInt8) (unnamed : ∀ name : Name, ByteEnum.code name ≠ byte)
  deriving DecidableEq

namespace EnumByte

variable {Name : Type} [ByteEnum Name]

/-- The byte of an enumeration value. -/
def toByte : EnumByte Name → UInt8
  | known name => ByteEnum.code name
  | other byte _ => byte

/-- The cast from a byte. -/
def ofByte (Name : Type) [ByteEnum Name] (byte : UInt8) : EnumByte Name :=
  match found :
      (ByteEnum.named : List Name).find? fun name =>
        ByteEnum.code name = byte with
  | some name => known name
  | none => other byte fun name same =>
      List.find?_eq_none.mp found name (ByteEnum.complete name)
        (by simpa using same)

/-- A cast byte is kept. -/
@[simp] theorem toByte_ofByte
    (byte : UInt8) :
    (ofByte Name byte).toByte = byte := by
  unfold ofByte
  split
  · next name found =>
      have matched := List.find?_some found
      simpa [toByte] using matched
  · rfl

/-- Equal bytes are equal values. -/
theorem toByte_injective
    {first second : EnumByte Name}
    (same : first.toByte = second.toByte) :
    first = second := by
  cases first with
  | known firstName =>
      cases second with
      | known secondName =>
          exact congrArg known (ByteEnum.distinct same)
      | other byte unnamed =>
          exact (unnamed firstName same).elim
  | other byte unnamed =>
      cases second with
      | known secondName =>
          exact (unnamed secondName same.symm).elim
      | other otherByte otherUnnamed =>
          cases same
          rfl

/-- Casting the byte of a value gives the value back. -/
@[simp] theorem ofByte_toByte
    (value : EnumByte Name) :
    ofByte Name value.toByte = value :=
  toByte_injective (toByte_ofByte value.toByte)

end EnumByte

/-! ## Cursors -/

/-- A buffer and a read position inside it. -/
structure Cursor where
  buffer : Bytes
  offset : Nat
  inside : offset ≤ buffer.length
  deriving DecidableEq

namespace Cursor

/-- A cursor at the start of a buffer. -/
def start (buffer : Bytes) : Cursor where
  buffer := buffer
  offset := 0
  inside := Nat.zero_le _

/-- What the cursor has not read yet. -/
def unread (cursor : Cursor) : Bytes :=
  cursor.buffer.drop cursor.offset

/-- A fresh cursor has the whole buffer ahead of it. -/
@[simp] theorem unread_start
    (buffer : Bytes) :
    (start buffer).unread = buffer := by
  simp [start, unread]

end Cursor

/-- A failing computation that moves a cursor. -/
abbrev Decoder (ε α : Type) := StateT Cursor (Except ε) α

variable {ε α β : Type}

/--
`Reads decoder format`: the decoder accepts exactly the byte strings that
`format` relates to some value, consuming those bytes and nothing else.
-/
structure Reads
    (decoder : Decoder ε α)
    (format : α → Bytes → Prop) : Prop where
  sound :
    ∀ {cursor value after},
      decoder cursor = .ok (value, after) →
      ∃ bytes,
        format value bytes ∧
          cursor.unread = bytes ++ after.unread
  complete :
    ∀ {cursor value bytes rest},
      format value bytes →
      cursor.unread = bytes ++ rest →
      ∃ after,
        decoder cursor = .ok (value, after) ∧
          after.unread = rest

namespace Reads

/-- Returning a value consumes nothing. -/
theorem pure
    (value : α) :
    Reads (Pure.pure value : Decoder ε α)
      (fun read bytes => read = value ∧ bytes = []) where
  sound := by
    intro cursor read after accepted
    cases accepted
    exact ⟨[], ⟨rfl, rfl⟩, rfl⟩
  complete := by
    rintro cursor read bytes rest ⟨rfl, rfl⟩ unread
    exact ⟨cursor, rfl, by simpa using unread⟩

/-- Sequencing decoders concatenates their formats. -/
theorem bind
    {first : Decoder ε α}
    {next : α → Decoder ε β}
    {firstFormat : α → Bytes → Prop}
    {nextFormat : α → β → Bytes → Prop}
    (readsFirst : Reads first firstFormat)
    (readsNext : ∀ value, Reads (next value) (nextFormat value)) :
    Reads (first >>= next)
      (fun read bytes =>
        ∃ value front back,
          firstFormat value front ∧
            nextFormat value read back ∧
            bytes = front ++ back) where
  sound := by
    intro cursor read after accepted
    change (first cursor >>= fun step => next step.1 step.2) = _ at accepted
    cases firstStep : first cursor with
    | error failure =>
        rw [firstStep] at accepted
        cases accepted
    | ok step =>
        obtain ⟨value, middle⟩ := step
        rw [firstStep] at accepted
        obtain ⟨front, frontFormat, frontUnread⟩ :=
          readsFirst.sound firstStep
        obtain ⟨back, backFormat, backUnread⟩ :=
          (readsNext value).sound accepted
        refine ⟨front ++ back,
          ⟨value, front, back, frontFormat, backFormat, rfl⟩, ?_⟩
        rw [frontUnread, backUnread, List.append_assoc]
  complete := by
    rintro cursor read bytes rest
      ⟨value, front, back, frontFormat, backFormat, rfl⟩ unread
    rw [List.append_assoc] at unread
    obtain ⟨middle, firstStep, middleUnread⟩ :=
      readsFirst.complete frontFormat unread
    obtain ⟨after, nextStep, afterUnread⟩ :=
      (readsNext value).complete backFormat middleUnread
    refine ⟨after, ?_, afterUnread⟩
    change (first cursor >>= fun step => next step.1 step.2) = _
    rw [firstStep]
    exact nextStep

/-- Mapping the result keeps the bytes read. -/
theorem map
    {decoder : Decoder ε α}
    {format : α → Bytes → Prop}
    (reads : Reads decoder format)
    (transform : α → β) :
    Reads (transform <$> decoder)
      (fun read bytes => ∃ value, format value bytes ∧ read = transform value) where
  sound := by
    intro cursor read after accepted
    change (decoder cursor >>= fun step =>
      Except.ok (transform step.1, step.2)) = _ at accepted
    cases step : decoder cursor with
    | error failure =>
        rw [step] at accepted
        cases accepted
    | ok pair =>
        obtain ⟨value, middle⟩ := pair
        rw [step] at accepted
        cases accepted
        obtain ⟨bytes, written, unread⟩ := reads.sound step
        exact ⟨bytes, ⟨value, written, rfl⟩, unread⟩
  complete := by
    rintro cursor read bytes rest ⟨value, written, rfl⟩ unread
    obtain ⟨after, step, afterUnread⟩ := reads.complete written unread
    refine ⟨after, ?_, afterUnread⟩
    change (decoder cursor >>= fun step =>
      Except.ok (transform step.1, step.2)) = _
    rw [step]
    rfl

/-- Replace a format by an equivalent one. -/
theorem congr
    {decoder : Decoder ε α}
    {format other : α → Bytes → Prop}
    (reads : Reads decoder format)
    (same : ∀ value bytes, format value bytes ↔ other value bytes) :
    Reads decoder other where
  sound := by
    intro cursor value after accepted
    obtain ⟨bytes, written, unread⟩ := reads.sound accepted
    exact ⟨bytes, (same value bytes).mp written, unread⟩
  complete := by
    intro cursor value bytes rest written unread
    exact reads.complete ((same value bytes).mpr written) unread

/-- Running an exact decoder on a whole buffer, trailing bytes ignored. -/
theorem decode_ok_iff
    {decoder : Decoder ε α}
    {format : α → Bytes → Prop}
    (reads : Reads decoder format)
    {buffer : Bytes}
    {value : α} :
    decoder.run' (Cursor.start buffer) = .ok value ↔
      ∃ bytes tail, format value bytes ∧ buffer = bytes ++ tail := by
  have runShape :
      decoder.run' (Cursor.start buffer) =
        (decoder (Cursor.start buffer)).map Prod.fst :=
    rfl
  rw [runShape]
  constructor
  · intro accepted
    cases step : decoder (Cursor.start buffer) with
    | error failure =>
        rw [step] at accepted
        cases accepted
    | ok pair =>
        rw [step] at accepted
        cases accepted
        obtain ⟨bytes, written, unread⟩ :=
          reads.sound (show decoder (Cursor.start buffer) = .ok (pair.1, pair.2) from step)
        exact ⟨bytes, pair.2.unread, written, by simpa using unread⟩
  · rintro ⟨bytes, tail, written, shape⟩
    obtain ⟨after, step, _⟩ :=
      reads.complete written
        (show (Cursor.start buffer).unread = bytes ++ tail by simpa using shape)
    rw [step]
    rfl

end Reads

end ByteCodec

end RadminPro
