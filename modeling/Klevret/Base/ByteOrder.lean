import Mathlib.Data.Int.Notation
import Mathlib.Data.Nat.Digits.Defs

/-! # Numbers as byte strings

A number of `width` bytes in the two byte orders.  `littleEndianValue` and
`bigEndianValue` read a byte string of any length, `littleEndianBytes` and
`bigEndianBytes` write the lowest `width` bytes of a number.  Reading and
writing are inverse to each other up to the modulus `256 ^ width`
(`bigEndianValue_bytes`, `bigEndianBytes_value`). -/

namespace Klevret.Base

/-- The number whose bytes, lowest first, are `bytes`. -/
def littleEndianValue (bytes : List UInt8) : ℕ :=
  Nat.ofDigits 256 (bytes.map UInt8.toNat)

/-- The lowest `width` bytes of `value`, lowest first. -/
def littleEndianBytes : ℕ → ℕ → List UInt8
  | 0, _ => []
  | width + 1, value => UInt8.ofNat value :: littleEndianBytes width (value / 256)

/-- The number whose bytes, highest first, are `bytes`. -/
def bigEndianValue (bytes : List UInt8) : ℕ :=
  littleEndianValue bytes.reverse

/-- The lowest `width` bytes of `value`, highest first. -/
def bigEndianBytes (width value : ℕ) : List UInt8 :=
  (littleEndianBytes width value).reverse

/-! ## Little-endian -/

@[simp] theorem littleEndianValue_nil : littleEndianValue [] = 0 := rfl

@[simp] theorem littleEndianValue_cons (byte : UInt8) (bytes : List UInt8) :
    littleEndianValue (byte :: bytes) = byte.toNat + 256 * littleEndianValue bytes := by
  simp [littleEndianValue, Nat.ofDigits_cons]

theorem littleEndianValue_append (low high : List UInt8) :
    littleEndianValue (low ++ high) =
      littleEndianValue low + 256 ^ low.length * littleEndianValue high := by
  simp [littleEndianValue, Nat.ofDigits_append]

theorem littleEndianValue_lt (bytes : List UInt8) :
    littleEndianValue bytes < 256 ^ bytes.length := by
  have digitsSmall : ∀ digit ∈ bytes.map UInt8.toNat, digit < 256 := by
    intro digit member
    obtain ⟨byte, -, rfl⟩ := List.mem_map.mp member
    exact byte.toNat_lt
  simpa [littleEndianValue] using Nat.ofDigits_lt_base_pow_length (by decide) digitsSmall

@[simp] theorem length_littleEndianBytes (width value : ℕ) :
    (littleEndianBytes width value).length = width := by
  induction width generalizing value with
  | zero => rfl
  | succ width inductionHypothesis => simp [littleEndianBytes, inductionHypothesis]

theorem littleEndianValue_bytes (width value : ℕ) :
    littleEndianValue (littleEndianBytes width value) = value % 256 ^ width := by
  induction width generalizing value with
  | zero => simp [littleEndianBytes, Nat.mod_one]
  | succ width inductionHypothesis =>
    rw [littleEndianBytes, littleEndianValue_cons, inductionHypothesis, pow_succ',
      Nat.mod_mul, UInt8.toNat_ofNat']

theorem littleEndianBytes_value (bytes : List UInt8) :
    littleEndianBytes bytes.length (littleEndianValue bytes) = bytes := by
  induction bytes with
  | nil => rfl
  | cons byte bytes inductionHypothesis =>
    -- the lowest byte and the rest of the number come apart again
    have low : UInt8.ofNat (byte.toNat + 256 * littleEndianValue bytes) = byte := by
      apply UInt8.toNat_inj.mp
      rw [UInt8.toNat_ofNat']
      have small := byte.toNat_lt
      omega
    have high : (byte.toNat + 256 * littleEndianValue bytes) / 256 = littleEndianValue bytes := by
      have small := byte.toNat_lt
      omega
    rw [List.length_cons, littleEndianValue_cons, littleEndianBytes, low, high, inductionHypothesis]

/-! ## Big-endian -/

theorem bigEndianValue_lt (bytes : List UInt8) : bigEndianValue bytes < 256 ^ bytes.length := by
  simpa [bigEndianValue] using littleEndianValue_lt bytes.reverse

@[simp] theorem bigEndianValue_nil : bigEndianValue [] = 0 := rfl

theorem bigEndianValue_cons (byte : UInt8) (bytes : List UInt8) :
    bigEndianValue (byte :: bytes) = byte.toNat * 256 ^ bytes.length + bigEndianValue bytes := by
  rw [bigEndianValue, List.reverse_cons, littleEndianValue_append, List.length_reverse,
    bigEndianValue]
  simp only [littleEndianValue_cons, littleEndianValue_nil]
  ring

@[simp] theorem length_bigEndianBytes (width value : ℕ) :
    (bigEndianBytes width value).length = width := by
  simp [bigEndianBytes]

theorem bigEndianValue_bytes (width value : ℕ) :
    bigEndianValue (bigEndianBytes width value) = value % 256 ^ width := by
  rw [bigEndianValue, bigEndianBytes, List.reverse_reverse, littleEndianValue_bytes]

theorem bigEndianBytes_value (bytes : List UInt8) :
    bigEndianBytes bytes.length (bigEndianValue bytes) = bytes := by
  have inverse := littleEndianBytes_value bytes.reverse
  rw [List.length_reverse] at inverse
  rw [bigEndianBytes, bigEndianValue, inverse, List.reverse_reverse]

/-- Byte strings of one length are equal when their numbers are. -/
theorem eq_of_bigEndianValue_eq {left right : List UInt8} (sameLength : left.length = right.length)
    (sameValue : bigEndianValue left = bigEndianValue right) : left = right := by
  rw [← bigEndianBytes_value left, ← bigEndianBytes_value right, sameLength, sameValue]

/-- Byte strings of one length compare as their first bytes, then as the rest. -/
theorem bigEndianValue_cons_lt_cons {first second : UInt8} {left right : List UInt8}
    (sameLength : left.length = right.length) :
    bigEndianValue (first :: left) < bigEndianValue (second :: right) ↔
      first < second ∨ first = second ∧ bigEndianValue left < bigEndianValue right := by
  have leftSmall := bigEndianValue_lt left
  have rightSmall := bigEndianValue_lt right
  rw [sameLength] at leftSmall
  rw [bigEndianValue_cons, bigEndianValue_cons, sameLength, UInt8.lt_iff_toNat_lt,
    ← UInt8.toNat_inj]
  generalize 256 ^ right.length = base at *
  constructor
  · intro smaller
    by_contra notLess
    obtain less | same | greater := Nat.lt_trichotomy first.toNat second.toNat
    · exact notLess (Or.inl less)
    · rw [same] at smaller
      exact notLess (Or.inr ⟨same, by omega⟩)
    -- a greater first byte outweighs every tail
    · have gap : second.toNat * base + base ≤ first.toNat * base := by
        rw [← Nat.succ_mul]
        exact Nat.mul_le_mul_right base greater
      omega
  · rintro (less | ⟨same, tailLess⟩)
    · have gap : first.toNat * base + base ≤ second.toNat * base := by
        rw [← Nat.succ_mul]
        exact Nat.mul_le_mul_right base less
      omega
    · rw [same]
      omega

/-- The order of the numbers is the lexicographic order of the byte strings. -/
theorem bigEndianValue_lt_iff {left right : List UInt8} (sameLength : left.length = right.length) :
    bigEndianValue left < bigEndianValue right ↔ left < right := by
  induction left generalizing right with
  | nil =>
    cases right with
    | nil => simp
    | cons _ _ => cases sameLength
  | cons first left inductionHypothesis =>
    cases right with
    | nil => cases sameLength
    | cons second right =>
      have tailLength : left.length = right.length := Nat.succ.inj sameLength
      rw [bigEndianValue_cons_lt_cons tailLength, List.cons_lt_cons_iff,
        inductionHypothesis tailLength]

/-- The signed number of `width` bytes that has the digits of `number`. -/
def twosComplement (width number : ℕ) : ℤ :=
  if 2 * number < 256 ^ width then number else number - (256 ^ width : ℕ)

/-! ## Machine words

Putting a word together from its bytes and taking it apart by shifts and masks. -/

/-- A byte moved up in a word keeps all its bits. -/
theorem toNat_shiftLeft_byte (byte : UInt8) {shift : UInt32} (fits : shift.toNat ≤ 24) :
    (byte.toUInt32 <<< shift).toNat = 2 ^ shift.toNat * byte.toNat := by
  have small := byte.toNat_lt
  have bound : byte.toNat * 2 ^ shift.toNat < 2 ^ 32 := by
    calc byte.toNat * 2 ^ shift.toNat < 2 ^ 8 * 2 ^ shift.toNat :=
          Nat.mul_lt_mul_of_pos_right small (Nat.two_pow_pos _)
      _ = 2 ^ (8 + shift.toNat) := (Nat.pow_add ..).symm
      _ ≤ 2 ^ 32 := Nat.pow_le_pow_right (by decide) (by omega)
  have inRange : shift.toNat % 32 = shift.toNat := Nat.mod_eq_of_lt (by omega)
  rw [UInt32.toNat_shiftLeft, UInt8.toNat_toUInt32, Nat.shiftLeft_eq, inRange,
    Nat.mod_eq_of_lt bound, Nat.mul_comm]

/-- Four bytes put together by shifts. -/
theorem toNat_uint32_of_bytes (b3 b2 b1 b0 : UInt8) :
    (b3.toUInt32 <<< 24 ||| b2.toUInt32 <<< 16 ||| b1.toUInt32 <<< 8 ||| b0.toUInt32).toNat =
      bigEndianValue [b3, b2, b1, b0] := by
  have small2 := b2.toNat_lt
  have small1 := b1.toNat_lt
  have small0 := b0.toNat_lt
  -- the bytes do not overlap, so every `|||` is an addition
  have first : 2 ^ 24 * b3.toNat ||| 2 ^ 16 * b2.toNat =
      2 ^ 16 * (2 ^ 8 * b3.toNat + b2.toNat) := by
    rw [← Nat.two_pow_add_eq_or_of_lt (by omega)]
    omega
  have second : 2 ^ 16 * (2 ^ 8 * b3.toNat + b2.toNat) ||| 2 ^ 8 * b1.toNat =
      2 ^ 8 * (2 ^ 8 * (2 ^ 8 * b3.toNat + b2.toNat) + b1.toNat) := by
    rw [← Nat.two_pow_add_eq_or_of_lt (by omega)]
    omega
  rw [UInt32.toNat_or, UInt32.toNat_or, UInt32.toNat_or, toNat_shiftLeft_byte b3 (by decide),
    toNat_shiftLeft_byte b2 (by decide), toNat_shiftLeft_byte b1 (by decide),
    UInt8.toNat_toUInt32]
  show 2 ^ 24 * b3.toNat ||| 2 ^ 16 * b2.toNat ||| 2 ^ 8 * b1.toNat ||| b0.toNat = _
  rw [first, second, ← Nat.two_pow_add_eq_or_of_lt small0]
  simp only [bigEndianValue_cons, bigEndianValue_nil, List.length_cons, List.length_nil]
  omega

theorem toNat_uint16_of_bytes (b1 b0 : UInt8) :
    (b1.toUInt16 <<< 8 ||| b0.toUInt16).toNat = bigEndianValue [b1, b0] := by
  have small1 := b1.toNat_lt
  have small0 := b0.toNat_lt
  have shifted : (b1.toUInt16 <<< 8).toNat = 2 ^ 8 * b1.toNat := by
    rw [UInt16.toNat_shiftLeft, UInt8.toNat_toUInt16, Nat.shiftLeft_eq]
    show b1.toNat * 2 ^ 8 % 2 ^ 16 = _
    omega
  rw [UInt16.toNat_or, shifted, UInt8.toNat_toUInt16, ← Nat.two_pow_add_eq_or_of_lt small0]
  simp only [bigEndianValue_cons, bigEndianValue_nil, List.length_cons, List.length_nil]
  omega

/-- One byte of a word, taken out by a shift and a mask. -/
theorem toNat_byte_of_uint32 (word shift : UInt32) :
    ((word >>> shift) &&& 0xFF).toUInt8.toNat = word.toNat / 2 ^ (shift.toNat % 32) % 256 := by
  have mask : (0xFF : UInt32).toNat = 2 ^ 8 - 1 := rfl
  rw [UInt32.toNat_toUInt8, UInt32.toNat_and, UInt32.toNat_shiftRight, mask,
    Nat.and_two_pow_sub_one_eq_mod, Nat.mod_mod, Nat.shiftRight_eq_div_pow]

theorem uint32_of_bytes (word : UInt32) :
    (word >>> 24).toUInt8.toUInt32 <<< 24 ||| ((word >>> 16) &&& 0xFF).toUInt8.toUInt32 <<< 16
      ||| ((word >>> 8) &&& 0xFF).toUInt8.toUInt32 <<< 8 ||| (word &&& 0xFF).toUInt8.toUInt32 =
      word := by
  have bound := word.toNat_lt
  -- the masked shifts are the digits of the word in base 256
  have highest : (word >>> 24).toUInt8.toNat = word.toNat / 2 ^ 24 % 256 := by
    rw [UInt32.toNat_toUInt8, UInt32.toNat_shiftRight, Nat.shiftRight_eq_div_pow]
    rfl
  have lowest : (word &&& 0xFF).toUInt8.toNat = word.toNat % 256 := by
    have mask : (0xFF : UInt32).toNat = 2 ^ 8 - 1 := rfl
    rw [UInt32.toNat_toUInt8, UInt32.toNat_and, mask, Nat.and_two_pow_sub_one_eq_mod, Nat.mod_mod]
  apply UInt32.toNat_inj.mp
  rw [toNat_uint32_of_bytes]
  simp only [bigEndianValue_cons, bigEndianValue_nil, List.length_cons, List.length_nil, highest,
    lowest, toNat_byte_of_uint32]
  show word.toNat / 2 ^ 24 % 256 * 256 ^ 3 + (word.toNat / 2 ^ 16 % 256 * 256 ^ 2 +
    (word.toNat / 2 ^ 8 % 256 * 256 ^ 1 + (word.toNat % 256 * 256 ^ 0 + 0))) = _
  omega

theorem uint16_of_bytes (word : UInt16) :
    ((word >>> 8) &&& 0xFF).toUInt8.toUInt16 <<< 8 ||| (word &&& 0xFF).toUInt8.toUInt16 = word := by
  have bound := word.toNat_lt
  have mask : (0xFF : UInt16).toNat = 2 ^ 8 - 1 := rfl
  have high : ((word >>> 8) &&& 0xFF).toUInt8.toNat = word.toNat / 2 ^ 8 % 256 := by
    rw [UInt16.toNat_toUInt8, UInt16.toNat_and, UInt16.toNat_shiftRight, mask,
      Nat.and_two_pow_sub_one_eq_mod, Nat.mod_mod, Nat.shiftRight_eq_div_pow]
    rfl
  have low : (word &&& 0xFF).toUInt8.toNat = word.toNat % 256 := by
    rw [UInt16.toNat_toUInt8, UInt16.toNat_and, mask, Nat.and_two_pow_sub_one_eq_mod, Nat.mod_mod]
  apply UInt16.toNat_inj.mp
  rw [toNat_uint16_of_bytes]
  simp only [bigEndianValue_cons, bigEndianValue_nil, List.length_cons, List.length_nil, high, low]
  omega

/-- The masked shifts are the bytes of the word, highest first. -/
theorem bigEndianBytes_uint32 (word : UInt32) :
    [(word >>> 24).toUInt8, ((word >>> 16) &&& 0xFF).toUInt8, ((word >>> 8) &&& 0xFF).toUInt8,
      (word &&& 0xFF).toUInt8] = bigEndianBytes 4 word.toNat := by
  have value := toNat_uint32_of_bytes (word >>> 24).toUInt8 ((word >>> 16) &&& 0xFF).toUInt8
    ((word >>> 8) &&& 0xFF).toUInt8 (word &&& 0xFF).toUInt8
  rw [uint32_of_bytes] at value
  rw [value]
  exact (bigEndianBytes_value _).symm

/-- A word that was put together from bytes comes apart into them again. -/
theorem bytes_of_uint32 {word : UInt32} {b3 b2 b1 b0 : UInt8}
    (isWord : b3.toUInt32 <<< 24 ||| b2.toUInt32 <<< 16 ||| b1.toUInt32 <<< 8 ||| b0.toUInt32 = word) :
    (word >>> 24).toUInt8 = b3 ∧ ((word >>> 16) &&& 0xFF).toUInt8 = b2 ∧
      ((word >>> 8) &&& 0xFF).toUInt8 = b1 ∧ (word &&& 0xFF).toUInt8 = b0 := by
  have value := toNat_uint32_of_bytes b3 b2 b1 b0
  rw [isWord] at value
  have again := uint32_of_bytes word
  rw [← UInt32.toNat_inj, toNat_uint32_of_bytes, value] at again
  -- four bytes are determined by their number
  have sameBytes := eq_of_bigEndianValue_eq (by rfl) again
  simpa using sameBytes

theorem bytes_of_uint16 {word : UInt16} {b1 b0 : UInt8}
    (isWord : b1.toUInt16 <<< 8 ||| b0.toUInt16 = word) :
    ((word >>> 8) &&& 0xFF).toUInt8 = b1 ∧ (word &&& 0xFF).toUInt8 = b0 := by
  have value := toNat_uint16_of_bytes b1 b0
  rw [isWord] at value
  have again := uint16_of_bytes word
  rw [← UInt16.toNat_inj, toNat_uint16_of_bytes, value] at again
  have sameBytes := eq_of_bigEndianValue_eq (by rfl) again
  simpa using sameBytes

end Klevret.Base
