import Klevret.Dhcp.Endians
import Klevret.Dhcp.WrapperForParsing
import Klevret.Base.OrderedMap

/-! # IPv4 addresses and subnet masks (`IpAddress.hpp`, `IpAddress.cpp`) -/

namespace Klevret.Dhcp

open Klevret.Base

/-- `IP_V4_ADDRESS_LENGTH`. -/
abbrev ipV4AddressLength : ℕ := 4

/-- `IP_V4_SUBNET_MASK_LENGTH`. -/
abbrev ipV4SubnetMaskLength : ℕ := 4

/-- Four octets in network order. -/
@[ext] structure IPv4Address where
  data : Vector UInt8 ipV4AddressLength
deriving DecidableEq, Repr

/-- Four octets in network order. -/
@[ext] structure IPv4SubnetMask where
  data : Vector UInt8 ipV4SubnetMaskLength
deriving DecidableEq, Repr

/-! ## Octets in decimal -/

/-- The value of a decimal digit as the code computes it, `ch - '0'`. -/
def digitValue (ch : Char) : UInt64 := UInt64.ofNat (ch.toNat - '0'.toNat)

/-- The digit loop of `parse_octet`; `octet` is a `size_t` and wraps. -/
def parseOctetDigits (octet : UInt64) (wrap : WrapperForParsing) : UInt64 × WrapperForParsing :=
  if digit : '0' ≤ wrap.ch ∧ wrap.ch ≤ '9' then
    parseOctetDigits (octet * 10 + digitValue wrap.ch) wrap.getNext
  else
    (octet, wrap)
termination_by wrap.remaining
decreasing_by
  apply WrapperForParsing.remaining_getNext
  rintro marker
  rw [marker] at digit
  exact absurd digit.1 (by decide)

def parseOctet (wrap : WrapperForParsing) : Cpp (UInt64 × WrapperForParsing) :=
  let (octet, wrap) := parseOctetDigits 0 wrap
  if octet > 255 then
    throwRuntimeError "Ошибка парсинга IP-адреса, октет не может быть больше 255"
  else
    return (octet, wrap)

/-- The octets that are still to be read; a dot must follow each but the last. -/
def parseOctets (wrap : WrapperForParsing) : (missing : ℕ) → Cpp (List UInt8 × WrapperForParsing)
  | 0 => return ([], wrap)
  | missing + 1 => do
    let (octet, wrap) ← parseOctet wrap
    if 0 < missing ∧ wrap.ch ≠ '.' then
      throwRuntimeError "Ошибка парсинга IP-адреса, ожидалась точка"
    else
      let (octets, wrap) ← parseOctets wrap.getNext missing
      return (octet.toUInt8 :: octets, wrap)

/-- What both `to_string` functions write: the octets in decimal with dots between them. -/
def octetsToString (data : Vector UInt8 4) : List Char :=
  ['.'].intercalate ((data.toList.map UInt8.toNat).map (Nat.toDigits 10))

namespace IPv4Address

/-- `IPv4Address(std::string)`.  The message of the last error adds the character
    to a string literal, which moves the pointer instead of appending. -/
def ofString (ipAddr : List Char) : Cpp IPv4Address := do
  let (octets, wrap) ← parseOctets (.ofString ipAddr) ipV4AddressLength
  if wrap.ch ≠ WrapperForParsing.EOT then
    throwRuntimeErrorFrom "Ошибка парсинга IP-адреса, неизвестный символ: " wrap.ch
  else if full : octets.length = ipV4AddressLength then
    return ⟨⟨octets.toArray, full⟩⟩
  else
    .error (.thrown .outOfRange)

def fromBigEndianBytes (buffer : List UInt8) (first last : ℕ) : Cpp IPv4Address := do
  let data ← fillArray ipV4AddressLength buffer first last "Не хватает октетов для IP адреса"
  return ⟨data⟩

/-- `to_string`. -/
def toString (address : IPv4Address) : List Char := octetsToString address.data

def toNetworkData (address : IPv4Address) : List UInt8 := address.data.toList

@[simp] theorem length_toNetworkData (address : IPv4Address) :
    address.toNetworkData.length = ipV4AddressLength := by
  simp [toNetworkData]

section FromBigEndianBytes

variable {buffer : List UInt8} {first last : ℕ} (enough : first + ipV4AddressLength ≤ last)

include enough in
theorem fromBigEndianBytes_of_le (inside : first + ipV4AddressLength ≤ buffer.length) :
    ∃ address, fromBigEndianBytes buffer first last = .ok address ∧
      address.toNetworkData = (buffer.drop first).take ipV4AddressLength := by
  obtain ⟨data, filled, bytes⟩ := fillArray_of_le enough inside
  exact ⟨⟨data⟩, by rw [fromBigEndianBytes, filled]; rfl, bytes⟩

include enough in
theorem fromBigEndianBytes_of_lt (outside : buffer.length < first + ipV4AddressLength) :
    fromBigEndianBytes buffer first last = undefinedBehaviour := by
  rw [fromBigEndianBytes, fillArray_of_lt (by decide) enough outside]
  rfl

include enough in
theorem fromBigEndianBytes_middle (before after : List UInt8)
    (inside : first + ipV4AddressLength ≤ buffer.length) :
    fromBigEndianBytes (before ++ buffer ++ after) (before.length + first) (before.length + last) =
      fromBigEndianBytes buffer first last := by
  rw [fromBigEndianBytes, fillArray_middle before after enough inside, fromBigEndianBytes]

end FromBigEndianBytes

variable [Host]

/-- `IPv4Address(uint32_t)`. -/
def ofUInt32 (ipAddr : UInt32) : IPv4Address := ⟨hostToNetworkEndianArray ipAddr.toBitVec⟩

/-- `IPv4Address()`. -/
instance : Inhabited IPv4Address := ⟨ofUInt32 0⟩

/-- `_to_uint32_t`. -/
def toUInt32 (address : IPv4Address) : UInt32 := .ofBitVec (networkArrayToHostEndian address.data)

/-- `operator++`, which steps through all addresses and wraps at the last one. -/
def increment (address : IPv4Address) : IPv4Address := ofUInt32 (address.toUInt32 + 1)

/-- `operator<`. -/
def less (left right : IPv4Address) : Bool := left.toUInt32 < right.toUInt32

/-- The comparison of the ordered containers keyed by addresses. -/
abbrev cmp : IPv4Address → IPv4Address → Ordering := comparing less

/-! ### The numeric form -/

@[simp] theorem toUInt32_ofUInt32 (number : UInt32) : (ofUInt32 number).toUInt32 = number := by
  unfold toUInt32 ofUInt32
  rw [networkArrayToHostEndian_hostToNetworkEndianArray]

@[simp] theorem ofUInt32_toUInt32 (address : IPv4Address) : ofUInt32 address.toUInt32 = address := by
  unfold toUInt32 ofUInt32
  ext1
  exact hostToNetworkEndianArray_networkArrayToHostEndian address.data

theorem toUInt32_injective : Function.Injective toUInt32 := by
  intro left right same
  rw [← ofUInt32_toUInt32 left, ← ofUInt32_toUInt32 right, same]

@[simp] theorem toUInt32_increment (address : IPv4Address) :
    address.increment.toUInt32 = address.toUInt32 + 1 := toUInt32_ofUInt32 _

theorem less_eq (left right : IPv4Address) :
    less left right = decide (left.toUInt32.toNat < right.toUInt32.toNat) := by
  simp only [less, UInt32.lt_iff_toNat_lt]

theorem toNat_toUInt32_injective :
    Function.Injective fun address : IPv4Address => address.toUInt32.toNat := by
  intro left right same
  exact toUInt32_injective (UInt32.toNat_inj.mp same)

instance : Std.TransCmp cmp := transCmp_comparing less_eq

instance : Std.LawfulEqCmp cmp := lawfulEqCmp_comparing less_eq toNat_toUInt32_injective

/-- Walking up to `last` the distance that is left shrinks, whatever the two ends are. -/
theorem distance_increment {current last : IPv4Address} (notLast : current ≠ last) :
    (last.toUInt32 - current.increment.toUInt32).toNat <
      (last.toUInt32 - current.toUInt32).toNat := by
  have different : current.toUInt32.toNat ≠ last.toUInt32.toNat := by
    intro same
    exact notLast (toNat_toUInt32_injective same)
  have currentBound := current.toUInt32.toNat_lt
  have lastBound := last.toUInt32.toNat_lt
  -- both distances are taken modulo 2 ^ 32
  rw [toUInt32_increment, UInt32.toNat_sub, UInt32.toNat_sub, UInt32.toNat_add, UInt32.toNat_one]
  omega

end IPv4Address

namespace IPv4SubnetMask

def fromBigEndianBytes (buffer : List UInt8) (first last : ℕ) : Cpp IPv4SubnetMask := do
  let data ← fillArray ipV4SubnetMaskLength buffer first last "Не хватает октетов для маски подсети"
  return ⟨data⟩

/-- `IPv4SubnetMask(uint32_t)`. -/
def ofUInt32 [Host] (mask : UInt32) : IPv4SubnetMask := ⟨hostToNetworkEndianArray mask.toBitVec⟩

def allowedMaskValues : List UInt64 := [128, 192, 224, 240, 248, 252, 254, 255]

/-- The loop of the constructor from a text; a dot must follow each octet but the last. -/
def parseMaskOctets (previousValue : UInt8) (wrap : WrapperForParsing) :
    (missing : ℕ) → Cpp WrapperForParsing
  | 0 => return wrap
  | missing + 1 => do
    let (octet, wrap) ← parseOctet wrap
    -- 0 is not among them
    if octet ∉ allowedMaskValues then
      throwRuntimeError "Ошибка парсинга маски подсети: недопустимое значение октета"
    else if previousValue ≠ 255 then
      throwRuntimeError
        "Ошибка парсинга маски подсети: маска должна быть непрерывной цепочкой бит равных 1"
    else if missing = 0 then parseMaskOctets octet.toUInt8 wrap missing
    else if wrap.ch ≠ '.' then
      throwRuntimeError "Ошибка парсинга маски подсети: ожидалась точка"
    else parseMaskOctets octet.toUInt8 wrap.getNext missing

/-- `IPv4SubnetMask(std::string)`.  No octet is stored: the array of the object keeps
    what is in its memory. -/
def ofString (memory : Vector UInt8 ipV4SubnetMaskLength) (mask : List Char) :
    Cpp IPv4SubnetMask := do
  let wrap ← parseMaskOctets 255 (.ofString mask) ipV4SubnetMaskLength
  if wrap.ch ≠ WrapperForParsing.EOT then
    throwRuntimeErrorFrom "Ошибка парсинга маски подсети: неизвестный символ: " wrap.ch
  else
    return ⟨memory⟩

/-- The loop of `from_prefix`. -/
def addOnes : (count : ℕ) → (one mask : UInt32) → UInt32
  | 0, _, mask => mask
  | count + 1, one, mask => addOnes count (one >>> 1) (mask ||| one)

/-- `from_prefix`. -/
def fromPrefix [Host] (length : ℤ) : Cpp IPv4SubnetMask :=
  if length < 0 ∨ length > 32 then
    throwRuntimeError "Неверный префикс (маска подсети). Допустимые значения [0..32]"
  else
    -- the first bit is `128u`, the highest of an octet and the eighth of the number
    return ofUInt32 (addOnes length.toNat 128 0)

/-- `to_string`. -/
def toString (mask : IPv4SubnetMask) : List Char := octetsToString mask.data

/-- The inner loop of `to_prefix`, over the bits of an octet. -/
def countOnes (octet : UInt8) : (count : ℕ) → (one : UInt8) → (length : ℤ) → ℤ
  | 0, _, length => length
  | count + 1, one, length =>
    countOnes octet count (one >>> 1) (if octet &&& one ≠ 0 then length + 1 else length)

/-- `to_prefix`. -/
def toPrefix (mask : IPv4SubnetMask) : ℤ :=
  mask.data.toList.foldl (fun length octet => countOnes octet 8 128 length) 0

def toNetworkData (mask : IPv4SubnetMask) : List UInt8 := mask.data.toList

section FromBigEndianBytes

variable {buffer : List UInt8} {first last : ℕ} (enough : first + ipV4SubnetMaskLength ≤ last)

include enough in
theorem fromBigEndianBytes_of_le (inside : first + ipV4SubnetMaskLength ≤ buffer.length) :
    ∃ mask, fromBigEndianBytes buffer first last = .ok mask ∧
      mask.toNetworkData = (buffer.drop first).take ipV4SubnetMaskLength := by
  obtain ⟨data, filled, bytes⟩ := fillArray_of_le enough inside
  exact ⟨⟨data⟩, by rw [fromBigEndianBytes, filled]; rfl, bytes⟩

include enough in
theorem fromBigEndianBytes_of_lt (outside : buffer.length < first + ipV4SubnetMaskLength) :
    fromBigEndianBytes buffer first last = undefinedBehaviour := by
  rw [fromBigEndianBytes, fillArray_of_lt (by decide) enough outside]
  rfl

include enough in
theorem fromBigEndianBytes_middle (before after : List UInt8)
    (inside : first + ipV4SubnetMaskLength ≤ buffer.length) :
    fromBigEndianBytes (before ++ buffer ++ after) (before.length + first) (before.length + last) =
      fromBigEndianBytes buffer first last := by
  rw [fromBigEndianBytes, fillArray_middle before after enough inside, fromBigEndianBytes]

end FromBigEndianBytes

end IPv4SubnetMask

end Klevret.Dhcp
