import Klevret.Base.ByteOrder
import Klevret.Base.Cpp
import Klevret.Base.OrderedMap

/-! # Hardware addresses (`HardwareAddress.hpp`, `HardwareAddress.cpp`)

`HardwareAddressType` is an enumeration over `uint8_t` that the code also makes
from arbitrary bytes, so it is the byte itself; the one named value the code
branches on is `ethernet10Mb`. -/

namespace Klevret.Dhcp

open Klevret.Base

abbrev HardwareAddressType := UInt8

def HardwareAddressType.ethernet10Mb : HardwareAddressType := 1

/-- `get_hardware_address_length`: six bytes for Ethernet, unknown (`-1`) for the
    other named types and zero for a byte that names no type. -/
def getHardwareAddressLength (htype : HardwareAddressType) : ℤ :=
  if htype = .ethernet10Mb then 6
  else if 2 ≤ htype ∧ htype ≤ 21 then -1
  else 0

/-- `DHCP_HARDWARE_ADDRESS_MAX_LENGTH`. -/
abbrev dhcpHardwareAddressMaxLength : ℕ := 16

/-- `MAC_ADDRESS_LENGTH`. -/
abbrev macAddressLength : ℕ := (getHardwareAddressLength .ethernet10Mb).toNat

@[ext] structure MacAddress where
  data : Vector UInt8 macAddressLength
deriving DecidableEq, Repr

/-- The loop of `operator<` over the bytes of two addresses. -/
def bytesLess : List UInt8 → List UInt8 → Bool
  | left :: lefts, right :: rights =>
    if left > right then false
    else if left < right then true
    else bytesLess lefts rights
  | _, _ => false

namespace MacAddress

/-- `MacAddress()` as a container creates it, with zero bytes. -/
instance : Inhabited MacAddress := ⟨⟨Vector.replicate _ 0⟩⟩

/-- `from_big_endian_bytes` and `make_ptr_from_big_endian_bytes`. -/
def fromBigEndianBytes (buffer : List UInt8) (first last : ℕ) : Cpp MacAddress := do
  let data ← fillArray macAddressLength buffer first last "MAC адрес заполнен не полностью"
  return ⟨data⟩

/-- The bytes of the address, padded with zeros. -/
def toChaddr (mac : MacAddress) : List UInt8 :=
  mac.data.toList ++ List.replicate (dhcpHardwareAddressMaxLength - macAddressLength) 0

/-- `std::setfill('0') << std::setw(2)` in `std::hex`. -/
def hexByte (byte : UInt8) : List Char :=
  let digits := Nat.toDigits 16 byte.toNat
  List.replicate (2 - digits.length) '0' ++ digits

/-- `to_string`. -/
def toString (mac : MacAddress) : List Char :=
  [':'].intercalate (mac.data.toList.map hexByte)

/-- `operator<`. -/
def less (left right : MacAddress) : Bool := bytesLess left.data.toList right.data.toList

/-- The comparison of the ordered containers keyed by hardware addresses. -/
abbrev cmp : MacAddress → MacAddress → Ordering := comparing less

end MacAddress

/-! ## The key order -/

/-- The early-exit loop compares the bytes as one number. -/
theorem bytesLess_eq {left right : List UInt8} (sameLength : left.length = right.length) :
    bytesLess left right = decide (bigEndianValue left < bigEndianValue right) := by
  induction left generalizing right with
  | nil =>
    cases right with
    | nil => rfl
    | cons _ _ => cases sameLength
  | cons first left inductionHypothesis =>
    cases right with
    | nil => cases sameLength
    | cons second right =>
      have tailLength : left.length = right.length := Nat.succ.inj sameLength
      simp only [bytesLess, bigEndianValue_cons_lt_cons tailLength, inductionHypothesis tailLength]
      -- the loop stops at the first two bytes that differ
      by_cases greater : first > second
      · have notSmaller : ¬ first < second := UInt8.lt_asymm greater
        have different : first ≠ second := (UInt8.ne_of_lt greater).symm
        simp [greater, notSmaller, different]
      · by_cases smaller : first < second
        · simp [greater, smaller]
        · have same : first = second :=
            UInt8.le_antisymm (UInt8.not_lt.mp greater) (UInt8.not_lt.mp smaller)
          simp [same]

namespace MacAddress

theorem less_eq (left right : MacAddress) :
    less left right =
      decide (bigEndianValue left.data.toList < bigEndianValue right.data.toList) :=
  bytesLess_eq (by simp)

theorem bigEndianValue_injective :
    Function.Injective fun mac : MacAddress => bigEndianValue mac.data.toList := by
  intro left right same
  ext1
  exact Vector.toList_inj.mp (eq_of_bigEndianValue_eq (by simp) same)

instance : Std.TransCmp cmp := transCmp_comparing less_eq

instance : Std.LawfulEqCmp cmp := lawfulEqCmp_comparing less_eq bigEndianValue_injective

end MacAddress

end Klevret.Dhcp
