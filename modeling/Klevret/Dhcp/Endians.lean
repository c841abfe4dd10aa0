import Klevret.Base.ByteOrder
import Klevret.Base.Cpp

/-! # Byte order of integers (`endians.hpp`)

An integer of `size` bytes is a `BitVec (8 * size)`, signed or unsigned alike.
`std::endian::native` is the one thing the helpers depend on: it is the field of
the class `Host`, and every definition that goes through an integer's memory
image is stated for an arbitrary host. -/

namespace Klevret.Dhcp

open Klevret.Base

inductive Endian where
  | little
  | big
deriving DecidableEq, Repr

/-- The machine the program runs on: `std::endian::native`. -/
class Host where
  native : Endian

/-- A little-endian host. -/
abbrev littleEndianHost : Host := ⟨.little⟩

/-- There are two hosts, so what is decidable on a host is decidable on all. -/
instance Host.decidableForall {holds : Host → Prop} [∀ host, Decidable (holds host)] :
    Decidable (∀ [host : Host], holds host) :=
  decidable_of_iff (holds ⟨.little⟩ ∧ holds ⟨.big⟩)
    ⟨fun both host => match host with
      | ⟨.little⟩ => both.1
      | ⟨.big⟩ => both.2,
    fun all => ⟨@all ⟨.little⟩, @all ⟨.big⟩⟩⟩

variable [Host]

/-- `std::bit_cast` to an integer: the value whose memory image is `image`. -/
def bitCastToInteger (size : ℕ) (image : List UInt8) : BitVec (8 * size) :=
  .ofNat _ (match Host.native with
    | .little => littleEndianValue image
    | .big => bigEndianValue image)

/-- `std::bit_cast` to an array, which is also what a byte pointer into the
    integer walks over: the memory image of `value`. -/
def memoryImage {size : ℕ} (value : BitVec (8 * size)) : List UInt8 :=
  match Host.native with
  | .little => littleEndianBytes size value.toNat
  | .big => bigEndianBytes size value.toNat

@[simp] theorem length_memoryImage {size : ℕ} (value : BitVec (8 * size)) :
    (memoryImage value).length = size := by
  unfold memoryImage
  split <;> simp

omit [Host] in
/-- `std::byteswap`. -/
def byteswap {size : ℕ} (value : BitVec (8 * size)) : BitVec (8 * size) :=
  .ofNat _ (bigEndianValue (littleEndianBytes size value.toNat))

/-- `network_array_to_host_endian<T, SIZE>`.  `std::bit_cast` compiles only for
    `SIZE == sizeof(T)`, so the size test of the source cannot fail. -/
def networkArrayToHostEndian {size : ℕ} (arr : Vector UInt8 size) : BitVec (8 * size) :=
  let result := bitCastToInteger size arr.toList
  if Host.native = .little then byteswap result else result

/-- `network_to_host_endian<T>(begin, end)` with `sizeof(T) = size`. -/
def networkToHostEndian (size : ℕ) (buffer : List UInt8) (first last : ℕ) :
    Cpp (BitVec (8 * size)) :=
  let distance := last - first
  if distance ≠ size then
    throwRuntimeError ("Ожидалось байт - " ++ toString size ++ "." ++
      "Получено байт - " ++ toString distance ++ ".")
  else do
    let image ← copyRange buffer first distance
    let result := bitCastToInteger size image
    return if Host.native = .little then byteswap result else result

/-- `network_to_host_endian<T>(value)`. -/
def networkToHostEndianValue {size : ℕ} (value : BitVec (8 * size)) : BitVec (8 * size) :=
  if Host.native = .little then byteswap value else value

/-- `host_to_network_endian_array<T, SIZE>`, again only with `SIZE == sizeof(T)`. -/
def hostToNetworkEndianArray {size : ℕ} (value : BitVec (8 * size)) : Vector UInt8 size :=
  let value := if Host.native = .little then byteswap value else value
  ⟨(memoryImage value).toArray, by simp⟩

/-! ## What the helpers compute on every host -/

omit [Host] in
theorem pow_bytes (size : ℕ) : 2 ^ (8 * size) = 256 ^ size := by
  rw [pow_mul]
  norm_num

/-- A number is determined by its memory image, and every image is the one of a number. -/
theorem memoryImage_bitCastToInteger {size : ℕ} {image : List UInt8} (whole : image.length = size) :
    memoryImage (bitCastToInteger size image) = image := by
  subst whole
  unfold memoryImage bitCastToInteger
  cases Host.native with
  | little =>
    have bound := littleEndianValue_lt image
    rw [← pow_bytes] at bound
    simp only [BitVec.toNat_ofNat, Nat.mod_eq_of_lt bound, littleEndianBytes_value]
  | big =>
    have bound := bigEndianValue_lt image
    rw [← pow_bytes] at bound
    simp only [BitVec.toNat_ofNat, Nat.mod_eq_of_lt bound, bigEndianBytes_value]

theorem bitCastToInteger_memoryImage {size : ℕ} (value : BitVec (8 * size)) :
    bitCastToInteger size (memoryImage value) = value := by
  apply BitVec.eq_of_toNat_eq
  unfold memoryImage bitCastToInteger
  cases Host.native with
  | little =>
    simp only [littleEndianValue_bytes, BitVec.toNat_ofNat, ← pow_bytes, Nat.mod_mod]
    exact Nat.mod_eq_of_lt value.isLt
  | big =>
    simp only [bigEndianValue_bytes, BitVec.toNat_ofNat, ← pow_bytes, Nat.mod_mod]
    exact Nat.mod_eq_of_lt value.isLt

/-- Swapping a little-endian reading, and only that, makes it big-endian. -/
theorem swapped_toNat {size : ℕ} {image : List UInt8} (whole : image.length = size) :
    (if Host.native = .little then byteswap (bitCastToInteger size image)
      else bitCastToInteger size image).toNat = bigEndianValue image := by
  subst whole
  have bound := bigEndianValue_lt image
  rw [← pow_bytes] at bound
  unfold bitCastToInteger
  cases Host.native with
  | little =>
    have littleBound := littleEndianValue_lt image
    rw [← pow_bytes] at littleBound
    simp only [↓reduceIte, byteswap, BitVec.toNat_ofNat, Nat.mod_eq_of_lt littleBound,
      littleEndianBytes_value, Nat.mod_eq_of_lt bound]
  | big => simp [Nat.mod_eq_of_lt bound]

theorem networkArrayToHostEndian_toNat {size : ℕ} (arr : Vector UInt8 size) :
    (networkArrayToHostEndian arr).toNat = bigEndianValue arr.toList :=
  swapped_toNat (by simp)

theorem networkToHostEndianValue_bitCastToInteger {size : ℕ} (arr : Vector UInt8 size) :
    networkToHostEndianValue (bitCastToInteger size arr.toList) = networkArrayToHostEndian arr := rfl

theorem hostToNetworkEndianArray_toList {size : ℕ} (value : BitVec (8 * size)) :
    (hostToNetworkEndianArray value).toList = bigEndianBytes size value.toNat := by
  have bound : value.toNat < 256 ^ size := by
    rw [← pow_bytes]
    exact value.isLt
  show (memoryImage (if Host.native = .little then byteswap value else value)) = _
  unfold memoryImage
  cases Host.native with
  | little =>
    -- the image of the swapped value is the big-endian string of the value
    have swappedBound := bigEndianValue_lt (littleEndianBytes size value.toNat)
    rw [length_littleEndianBytes, ← pow_bytes] at swappedBound
    have inverse := littleEndianBytes_value (bigEndianBytes size value.toNat)
    simp only [length_bigEndianBytes] at inverse
    simp only [↓reduceIte, byteswap, BitVec.toNat_ofNat, Nat.mod_eq_of_lt swappedBound]
    simpa [bigEndianValue, bigEndianBytes] using inverse
  | big => simp

theorem networkToHostEndian_of_le {size : ℕ} {buffer : List UInt8} {first : ℕ}
    (inside : first + size ≤ buffer.length) :
    ∃ value, networkToHostEndian size buffer first (first + size) = .ok value ∧
      value.toNat = bigEndianValue ((buffer.drop first).take size) := by
  have whole : ((buffer.drop first).take size).length = size := by
    rw [List.length_take, List.length_drop]
    omega
  refine ⟨_, ?_, swapped_toNat whole⟩
  simp [networkToHostEndian, copyRange_of_le inside]

theorem networkToHostEndian_of_lt {size : ℕ} {buffer : List UInt8} {first : ℕ} (nonempty : 0 < size)
    (outside : buffer.length < first + size) :
    networkToHostEndian size buffer first (first + size) = undefinedBehaviour := by
  simp [networkToHostEndian, copyRange_of_lt nonempty outside, undefinedBehaviour]

theorem networkToHostEndian_middle {size : ℕ} (before : List UInt8) {payload : List UInt8}
    (after : List UInt8) {first : ℕ} (inside : first + size ≤ payload.length) :
    networkToHostEndian size (before ++ payload ++ after) (before.length + first)
        (before.length + (first + size)) =
      networkToHostEndian size payload first (first + size) := by
  have distance : before.length + (first + size) - (before.length + first) = size := by omega
  simp only [networkToHostEndian, distance, Nat.add_sub_cancel_left,
    copyRange_middle before after inside]

/-- The two array helpers are inverse to each other. -/
theorem hostToNetworkEndianArray_networkArrayToHostEndian {size : ℕ} (arr : Vector UInt8 size) :
    hostToNetworkEndianArray (networkArrayToHostEndian arr) = arr := by
  apply Vector.toList_inj.mp
  rw [hostToNetworkEndianArray_toList, networkArrayToHostEndian_toNat]
  simpa using bigEndianBytes_value arr.toList

theorem networkArrayToHostEndian_hostToNetworkEndianArray {size : ℕ} (value : BitVec (8 * size)) :
    networkArrayToHostEndian (hostToNetworkEndianArray value) = value := by
  apply BitVec.eq_of_toNat_eq
  rw [networkArrayToHostEndian_toNat, hostToNetworkEndianArray_toList, bigEndianValue_bytes,
    ← pow_bytes]
  exact Nat.mod_eq_of_lt value.isLt

end Klevret.Dhcp
