import RadminPro.Sha256Digest

namespace RadminPro

open ByteCodec

/-!
# Byte plumbing shared by the wire protocol and the audit log

The `put` functions are modelled by the bytes they append to their output
buffer.  `ByteReader` is the cursor of `ByteCodec`: its `need` check is the
bound that every read carries, so a read past the buffer cannot be written down.
-/

/-- Thrown when a buffer is too short for the field being read. -/
structure DeserializeError where
  what : String
  deriving Repr, DecidableEq

/-- A SHA-256 value, always 32 bytes. -/
structure Hash256 where
  bytes : Bytes
  size : bytes.length = 32
  deriving DecidableEq

/-- Copy a buffer into a zero-initialised hash array. -/
def Hash256.ofBytes (bytes : Bytes) : Hash256 where
  bytes := (bytes ++ List.replicate 32 0).take 32
  size := by simp

/-- A full-width buffer is copied unchanged. -/
@[simp] theorem Hash256.ofBytes_bytes
    (hash : Hash256) :
    Hash256.ofBytes hash.bytes = hash := by
  obtain ⟨bytes, size⟩ := hash
  simp [Hash256.ofBytes, ← size]

/-- One-shot SHA-256 as the crypto library computes it. -/
def evpSha256 (data : Bytes) : Hash256 where
  bytes := Sha256Digest.digest data
  size := Sha256Digest.digest_length data

/-- Streaming SHA-256: what has been fed so far. -/
structure Sha256 where
  fed : Bytes

namespace Sha256

/-- A freshly initialised hash. -/
def empty : Sha256 where
  fed := []

/-- Feed one more chunk. -/
def update (hasher : Sha256) (data : Bytes) : Sha256 where
  fed := hasher.fed ++ data

/-- The digest of everything fed. -/
def finish (sha256 : Bytes → Hash256) (hasher : Sha256) : Hash256 :=
  sha256 hasher.fed

end Sha256

/-- The lower-case hexadecimal digits. -/
def hexDigits : Bytes :=
  ascii "0123456789abcdef"

/-- The digit of a value below sixteen. -/
def hexDigit (value : UInt8) : UInt8 :=
  hexDigits.getD value.toNat 0

/-- Two lower-case digits for each byte. -/
def toHex (bytes : Bytes) : Bytes :=
  bytes.flatMap fun byte : UInt8 =>
    [hexDigit (byte >>> 4), hexDigit (byte &&& 0x0F)]

example :
    toHex (evpSha256 (ascii "abc")).bytes =
      ascii "ba7816bf8f01cfea414140de5dae2223b00361a396177a9cb410ff61f20015ad" := by
  decide +kernel

/-- Hexadecimal text is twice as long as what it shows. -/
@[simp] theorem toHex_length
    (bytes : Bytes) :
    (toHex bytes).length = 2 * bytes.length := by
  induction bytes with
  | nil =>
      rfl
  | cons head tail inductionHypothesis =>
      simp only [toHex, List.flatMap_cons, List.length_append,
        List.length_cons, List.length_nil] at inductionHypothesis ⊢
      omega

/-- Decimal text of a number. -/
def decimal (value : Nat) : Bytes :=
  ascii (toString value)

/-! ## Big-endian writers -/

/-- One byte. -/
def putU8 (value : UInt8) : Bytes :=
  [value]

/-- Two bytes, high byte first. -/
def putU16 (value : UInt16) : Bytes :=
  bigEndian 2 value.toNat

/-- Four bytes, high byte first. -/
def putU32 (value : UInt32) : Bytes :=
  bigEndian 4 value.toNat

/-- Eight bytes, high byte first. -/
def putU64 (value : UInt64) : Bytes :=
  bigEndian 8 value.toNat

/-- A blob behind its length, which is narrowed to 32 bits. -/
def putBlob (data : Bytes) : Bytes :=
  putU32 (UInt32.ofNat data.length) ++ data

/-- A string is written as a blob. -/
def putString (text : Bytes) : Bytes :=
  putBlob text

@[simp] theorem length_putU8 (value : UInt8) : (putU8 value).length = 1 :=
  rfl

@[simp] theorem length_putU16 (value : UInt16) : (putU16 value).length = 2 :=
  bigEndian_length ..

@[simp] theorem length_putU32 (value : UInt32) : (putU32 value).length = 4 :=
  bigEndian_length ..

@[simp] theorem length_putU64 (value : UInt64) : (putU64 value).length = 8 :=
  bigEndian_length ..

@[simp] theorem length_putBlob (data : Bytes) :
    (putBlob data).length = 4 + data.length := by
  simp [putBlob]

@[simp] theorem length_putString (text : Bytes) :
    (putString text).length = 4 + text.length :=
  length_putBlob text

/-! ## The bounds-checked reader -/

/-- A reader over a message payload. -/
abbrev ByteReader := Cursor

/-- A parsing step over a `ByteReader`. -/
abbrev Parse (α : Type) := Decoder DeserializeError α

namespace ByteReader

/-- What `need` throws. -/
def underrun : DeserializeError where
  what := "buffer underrun while parsing message"

/-- `need(n)`, then the `n` bytes at the read position. -/
def bytes (size : Nat) : Parse Bytes := fun reader =>
  if fits : reader.offset + size ≤ reader.buffer.length then
    .ok (reader.unread.take size, ⟨reader.buffer, reader.offset + size, fits⟩)
  else
    .error underrun

/-- One byte. -/
def u8 : Parse UInt8 :=
  (fun window => UInt8.ofNat (bigEndianValue window)) <$> bytes 1

/-- Two bytes, high byte first. -/
def u16 : Parse UInt16 :=
  (fun window => UInt16.ofNat (bigEndianValue window)) <$> bytes 2

/-- Four bytes, high byte first. -/
def u32 : Parse UInt32 :=
  (fun window => UInt32.ofNat (bigEndianValue window)) <$> bytes 4

/-- Eight bytes, high byte first. -/
def u64 : Parse UInt64 :=
  (fun window => UInt64.ofNat (bigEndianValue window)) <$> bytes 8

/-- A blob behind its 32-bit length. -/
def blob : Parse Bytes := do
  let size ← u32
  bytes size.toNat

/-- A string is read as a blob. -/
def str : Parse Bytes :=
  blob

/-- A fixed-width read takes exactly that many bytes. -/
theorem bytes_reads
    (size : Nat) :
    Reads (bytes size) (fun value written =>
      written = value ∧ value.length = size) where
  sound := by
    intro reader value after accepted
    unfold bytes at accepted
    split at accepted
    · next fits =>
        cases accepted
        refine ⟨_, ⟨rfl, ?_⟩, ?_⟩
        · simp only [Cursor.unread, List.length_take, List.length_drop]
          omega
        · simp only [Cursor.unread, ← List.drop_drop]
          exact (List.take_append_drop size _).symm
    · cases accepted
  complete := by
    rintro reader value written rest ⟨rfl, sized⟩ unread
    have remaining : reader.offset + size ≤ reader.buffer.length := by
      have lengths := congrArg List.length unread
      simp only [Cursor.unread, List.length_drop, List.length_append]
        at lengths
      have inside := reader.inside
      omega
    refine ⟨⟨reader.buffer, reader.offset + size, remaining⟩, ?_, ?_⟩
    · rw [bytes, dif_pos remaining, unread, List.take_left' sized]
    · have dropped : reader.unread.drop size = rest := by
        rw [unread, ← sized, List.drop_left]
      rw [← dropped]
      simp [Cursor.unread, List.drop_drop]

/--
An unsigned field of `width` bytes, for any word type whose values are the
numbers below `256 ^ width`.
-/
theorem word_reads
    {Word : Type}
    (width : Nat)
    (ofNat : Nat → Word)
    (toNat : Word → Nat)
    (toNat_ofNat : ∀ value, value < 256 ^ width → toNat (ofNat value) = value)
    (ofNat_toNat : ∀ word, ofNat (toNat word) = word)
    (toNat_lt : ∀ word, toNat word < 256 ^ width) :
    Reads ((fun window => ofNat (bigEndianValue window)) <$> bytes width)
      (fun word written => written = bigEndian width (toNat word)) := by
  refine ((bytes_reads width).map _).congr ?_
  intro word written
  constructor
  · rintro ⟨window, ⟨rfl, sized⟩, rfl⟩
    have bound := bigEndianValue_lt written
    rw [sized] at bound
    rw [toNat_ofNat _ bound, ← sized, bigEndian_bigEndianValue]
  · rintro rfl
    refine ⟨_, ⟨rfl, bigEndian_length _ _⟩, ?_⟩
    rw [bigEndianValue_bigEndian, Nat.mod_eq_of_lt (toNat_lt word),
      ofNat_toNat]

/-- `u8` inverts `putU8`. -/
theorem u8_reads :
    Reads u8 (fun value written => written = putU8 value) := by
  refine (word_reads 1 UInt8.ofNat UInt8.toNat ?_ ?_ ?_).congr ?_
  · intro value bound
    exact UInt8.toNat_ofNat_of_lt' bound
  · exact fun value => UInt8.ofNat_toNat
  · exact fun value => value.toNat_lt
  · intro value written
    simp [bigEndian, putU8]

/-- `u16` inverts `putU16`. -/
theorem u16_reads :
    Reads u16 (fun value written => written = putU16 value) :=
  word_reads 2 UInt16.ofNat UInt16.toNat
    (fun _ bound => UInt16.toNat_ofNat_of_lt' bound)
    (fun _ => UInt16.ofNat_toNat)
    (fun value => value.toNat_lt)

/-- `u32` inverts `putU32`. -/
theorem u32_reads :
    Reads u32 (fun value written => written = putU32 value) :=
  word_reads 4 UInt32.ofNat UInt32.toNat
    (fun _ bound => UInt32.toNat_ofNat_of_lt' bound)
    (fun _ => UInt32.ofNat_toNat)
    (fun value => value.toNat_lt)

/-- `u64` inverts `putU64`. -/
theorem u64_reads :
    Reads u64 (fun value written => written = putU64 value) :=
  word_reads 8 UInt64.ofNat UInt64.toNat
    (fun _ bound => UInt64.toNat_ofNat_of_lt' bound)
    (fun _ => UInt64.ofNat_toNat)
    (fun value => value.toNat_lt)

/-- `blob` inverts `putBlob` on blobs whose length fits its prefix. -/
theorem blob_reads :
    Reads blob (fun value written =>
      written = putBlob value ∧ value.length < 2 ^ 32) := by
  refine (u32_reads.bind fun size => bytes_reads size.toNat).congr ?_
  intro value written
  constructor
  · rintro ⟨size, front, back, rfl, ⟨rfl, sized⟩, rfl⟩
    have bound := size.toNat_lt
    refine ⟨?_, by omega⟩
    simp [putBlob, sized]
  · rintro ⟨rfl, bound⟩
    refine ⟨UInt32.ofNat value.length, _, _, rfl, ⟨rfl, ?_⟩, rfl⟩
    rw [UInt32.toNat_ofNat_of_lt' bound]

/-- `str` inverts `putString` on strings whose length fits its prefix. -/
theorem str_reads :
    Reads str (fun value written =>
      written = putString value ∧ value.length < 2 ^ 32) :=
  blob_reads

end ByteReader

end RadminPro
