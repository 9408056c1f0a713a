import RadminPro.ByteCodec

namespace RadminPro.BitPrefix

open ByteCodec

/-!
# Leading bits of byte strings

A byte string read big-endian is a number, and its first bits are the number
without its low bits.  Whether two strings agree in their first bits can be
decided byte by byte, with one masked comparison at the end.
-/

/-- The number written by the first `count` bits of a byte string. -/
def firstBits (count : Nat) (bytes : Bytes) : Nat :=
  bigEndianValue bytes >>> (8 * bytes.length - count)

/-- The mask of the `keep` high bits of a byte. -/
def highMask (keep : Nat) : UInt8 :=
  UInt8.ofNat (0xFF <<< (8 - keep))

/-- Masking a byte clears its low bits. -/
theorem and_highMask (byte : UInt8) {keep : Nat} (inByte : keep ≤ 8) :
    (byte &&& highMask keep).toNat =
      byte.toNat / 2 ^ (8 - keep) * 2 ^ (8 - keep) := by
  have table :
      ∀ kept : Fin 9, ∀ value : Fin 256,
        (UInt8.ofNat value &&& highMask kept).toNat =
          value / 2 ^ (8 - kept.val) * 2 ^ (8 - kept.val) := by
    decide +kernel
  simpa using table ⟨keep, by omega⟩ ⟨byte.toNat, byte.toNat_lt⟩

/-- Masked bytes are equal when their high bits are. -/
theorem and_highMask_eq_iff
    {first second : UInt8}
    {keep : Nat}
    (inByte : keep ≤ 8) :
    first &&& highMask keep = second &&& highMask keep ↔
      first.toNat / 2 ^ (8 - keep) = second.toNat / 2 ^ (8 - keep) := by
  rw [← UInt8.toNat_inj, and_highMask first inByte, and_highMask second inByte]
  exact Nat.mul_left_inj (Nat.two_pow_pos _).ne'

/-- The bits within the first byte. -/
theorem firstBits_cons_of_le
    (byte : UInt8)
    (rest : Bytes)
    {count : Nat}
    (inByte : count ≤ 8) :
    firstBits count (byte :: rest) = byte.toNat / 2 ^ (8 - count) := by
  have width : 8 * (byte :: rest).length - count = 8 * rest.length + (8 - count) := by
    rw [List.length_cons]
    omega
  have below := bigEndianValue_lt rest
  have scale : (2 : Nat) ^ (8 * rest.length) = 256 ^ rest.length := by
    rw [pow_mul]
    norm_num
  rw [firstBits, width, Nat.shiftRight_eq_div_pow, pow_add, scale,
    ← Nat.div_div_eq_div_mul, bigEndianValue_cons, Nat.mul_comm,
    Nat.mul_add_div (by positivity), Nat.div_eq_of_lt below, Nat.add_zero]

/-- The bits beyond the first byte. -/
theorem firstBits_cons
    (byte : UInt8)
    {rest : Bytes}
    {count : Nat}
    (inRest : count ≤ 8 * rest.length) :
    firstBits (8 + count) (byte :: rest) =
      byte.toNat * 2 ^ count + firstBits count rest := by
  have width :
      8 * (byte :: rest).length - (8 + count) = 8 * rest.length - count := by
    rw [List.length_cons]
    omega
  have scale :
      (256 : Nat) ^ rest.length = 2 ^ count * 2 ^ (8 * rest.length - count) := by
    rw [← pow_add, Nat.add_sub_cancel' inRest, pow_mul]
    norm_num
  rw [firstBits, firstBits, width, Nat.shiftRight_eq_div_pow,
    Nat.shiftRight_eq_div_pow, bigEndianValue_cons, scale, ← Nat.mul_assoc,
    Nat.add_comm, Nat.add_mul_div_right _ _ (Nat.two_pow_pos _), Nat.add_comm]

/-- The first bits are a number of that many bits. -/
theorem firstBits_lt
    {bytes : Bytes}
    {count : Nat}
    (inside : count ≤ 8 * bytes.length) :
    firstBits count bytes < 2 ^ count := by
  have below := bigEndianValue_lt bytes
  have scale :
      (256 : Nat) ^ bytes.length = 2 ^ count * 2 ^ (8 * bytes.length - count) := by
    rw [← pow_add, Nat.add_sub_cancel' inside, pow_mul]
    norm_num
  rw [firstBits, Nat.shiftRight_eq_div_pow]
  apply Nat.div_lt_of_lt_mul
  rwa [Nat.mul_comm, ← scale]

/-- Strings agree beyond their first byte when they agree in it and after it. -/
theorem firstBits_cons_eq_iff
    {first second : UInt8}
    {rest other : Bytes}
    {count : Nat}
    (inRest : count ≤ 8 * rest.length)
    (inOther : count ≤ 8 * other.length) :
    firstBits (8 + count) (first :: rest) =
        firstBits (8 + count) (second :: other) ↔
      first = second ∧ firstBits count rest = firstBits count other := by
  rw [firstBits_cons first inRest, firstBits_cons second inOther]
  have below := firstBits_lt inRest
  have otherBelow := firstBits_lt inOther
  constructor
  · intro same
    have heads := congrArg (· / 2 ^ count) same
    have positive : 0 < 2 ^ count := Nat.two_pow_pos count
    simp only [Nat.mul_comm _ (2 ^ count), Nat.mul_add_div positive,
      Nat.div_eq_of_lt below, Nat.div_eq_of_lt otherBelow, Nat.add_zero] at heads
    rw [heads] at same
    exact ⟨UInt8.toNat_inj.mp heads, Nat.add_left_cancel same⟩
  · rintro ⟨rfl, sameRest⟩
    rw [sameRest]

/--
Agreement in the first bits, decided by whole bytes and the high bits of one
more byte.
-/
theorem firstBits_eq_iff
    {first second : Bytes}
    (sameLength : first.length = second.length)
    {count : Nat}
    (inside : count ≤ 8 * first.length) :
    firstBits count first = firstBits count second ↔
      first.take (count / 8) = second.take (count / 8) ∧
        (count % 8 = 0 ∨
          first.getD (count / 8) 0 &&& highMask (count % 8) =
            second.getD (count / 8) 0 &&& highMask (count % 8)) := by
  induction first generalizing second count with
  | nil =>
      have isEmpty := List.length_eq_zero_iff.mp sameLength.symm
      subst isEmpty
      have none : count = 0 := by simpa using inside
      subst none
      simp
  | cons byte rest inductionHypothesis =>
      cases second with
      | nil =>
          simp at sameLength
      | cons other others =>
          have sameRest : rest.length = others.length := by
            simpa using sameLength
          by_cases within : count < 8
          · have noBytes : count / 8 = 0 := by omega
            have allBits : count % 8 = count := by omega
            rw [firstBits_cons_of_le byte rest within.le,
              firstBits_cons_of_le other others within.le, noBytes, allBits]
            simp only [List.take_zero, true_and, List.getD_cons_zero]
            rw [and_highMask_eq_iff within.le]
            constructor
            · intro same
              exact .inr same
            · rintro (rfl | same)
              · rw [Nat.div_eq_of_lt byte.toNat_lt, Nat.div_eq_of_lt other.toNat_lt]
              · exact same
          · obtain ⟨more, rfl⟩ : ∃ more, count = 8 + more :=
              ⟨count - 8, by omega⟩
            have inRest : more ≤ 8 * rest.length := by
              rw [List.length_cons] at inside
              omega
            have oneMore : (8 + more) / 8 = more / 8 + 1 := by omega
            have sameBits : (8 + more) % 8 = more % 8 := by omega
            rw [firstBits_cons_eq_iff inRest (sameRest ▸ inRest),
              inductionHypothesis sameRest inRest, oneMore, sameBits]
            simp [and_assoc]

end RadminPro.BitPrefix
