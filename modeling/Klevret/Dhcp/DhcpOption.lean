import Klevret.Dhcp.IpAddress

/-! # DHCP options (`DhcpOption.hpp`, `DhcpOption.cpp`)

An option is read from an iterator range that lies in a longer buffer, so the
constructor takes the buffer and the two iterators.  A list payload is read
element by element; the loop stops only when the iterator meets the end of the
range exactly. -/

namespace Klevret.Dhcp

open Klevret.Base

inductive IntConstraintType where
  | none
  | range
  | fromMin
  | uintEnum
deriving DecidableEq, Repr

structure IntConstraint where
  type : IntConstraintType
  min : ℤ
  max : ℤ
  allowedValues : List ℕ
deriving DecidableEq, Repr

def noConstraint : IntConstraint := ⟨.none, 0, 0, []⟩

inductive DhcpOptionPayloadType where
  | none
  | vendorSpecificField
  | byteArray
  | string
  | ipAddress
  | subnetMask
  | ipAddressWithSubnetMask
  | twoIpAddresses
  | uint8
  | uint16
  | uint32
  | int32
  | flag
  | uintEnum
deriving DecidableEq, Repr

/-- `dhcp_option_field_real_value_t`. -/
inductive DhcpOptionFieldRealValue where
  | int32 (value : BitVec 32)
  | uint32 (value : UInt32)
  | uint16 (value : UInt16)
  | uint8 (value : UInt8)
  | byteVector (value : List UInt8)
  | byteString (value : List UInt8)
  | ipAddress (value : IPv4Address)
  | subnetMask (value : IPv4SubnetMask)
  | ipAddressAndMask (address : IPv4Address) (mask : IPv4SubnetMask)
  | ipAddressPair (first second : IPv4Address)
  | flag (value : Bool)
deriving DecidableEq, Repr

structure DhcpOptionPayloadDescription where
  type : DhcpOptionPayloadType
  isList : Bool
  minLenInElements : ℤ
  intConstraint : IntConstraint
deriving DecidableEq, Repr

def noPayload : DhcpOptionPayloadDescription := ⟨.none, false, 0, noConstraint⟩

/-- `VARIABLE_DHCP_OPTION_LENGTH`. -/
def variableDhcpOptionLength : ℤ := -1

structure DhcpOptionDescription where
  code : ℤ
  payloadLength : ℤ
  payloadDescription : DhcpOptionPayloadDescription
deriving DecidableEq, Repr

namespace DhcpOptionPayloadDescription

def getOneElementPayloadLengthInBytes (description : DhcpOptionPayloadDescription) : ℤ :=
  match description.type with
  | .byteArray => 1
  | .flag => 1
  | .int32 => 4
  | .ipAddress => 4
  | .ipAddressWithSubnetMask => 8
  | .twoIpAddresses => 8
  | .none => 0
  | .string => 1
  | .subnetMask => 4
  | .uint16 => 2
  | .uint32 => 4
  | .uint8 => 1
  | .uintEnum => 1
  | .vendorSpecificField => variableDhcpOptionLength

/-- The value tests shared by `is_correct_uint` and `is_correct_int`: the value
    as the range tests see it, and as it is compared with the allowed values. -/
def meetsConstraint (constraint : IntConstraint) (value : ℤ) (unsignedValue : ℕ) : Bool :=
  match constraint.type with
  | .none => true
  | .fromMin => value ≥ constraint.min
  | .range => value ≥ constraint.min ∧ value ≤ constraint.max
  | .uintEnum => constraint.allowedValues.any (· == unsignedValue)

def isCorrectUint (description : DhcpOptionPayloadDescription) (value : UInt32) : Cpp Bool :=
  if ¬ (description.type = .uint32 ∨ description.type = .uint16
      ∨ description.type = .uint8 ∨ description.type = .uintEnum) then
    throwRuntimeError "несоответствие типа DhcpOptionPayloadType"
  else
    return meetsConstraint description.intConstraint value.toNat value.toNat

def isCorrectInt (description : DhcpOptionPayloadDescription) (value : BitVec 32) : Cpp Bool :=
  if description.type ≠ .int32 then
    throwRuntimeError "несоответствие типа DhcpOptionPayloadType"
  else
    return meetsConstraint description.intConstraint value.toInt value.toNat

end DhcpOptionPayloadDescription

/-- `options_descriptions`. -/
def optionsDescriptions : List (ℤ × DhcpOptionDescription) := [
  (0, ⟨0, 0, noPayload⟩),
  (255, ⟨255, 0, noPayload⟩),
  (1, ⟨1, 4, ⟨.subnetMask, false, 0, noConstraint⟩⟩),
  (2, ⟨2, 4, ⟨.int32, false, 0, noConstraint⟩⟩),
  (3, ⟨3, variableDhcpOptionLength, ⟨.ipAddress, true, 1, noConstraint⟩⟩),
  (4, ⟨4, variableDhcpOptionLength, ⟨.ipAddress, true, 1, noConstraint⟩⟩),
  (5, ⟨5, variableDhcpOptionLength, ⟨.ipAddress, true, 1, noConstraint⟩⟩),
  (6, ⟨6, variableDhcpOptionLength, ⟨.ipAddress, true, 1, noConstraint⟩⟩),
  (7, ⟨7, variableDhcpOptionLength, ⟨.ipAddress, true, 1, noConstraint⟩⟩),
  (8, ⟨8, variableDhcpOptionLength, ⟨.ipAddress, true, 1, noConstraint⟩⟩),
  (9, ⟨9, variableDhcpOptionLength, ⟨.ipAddress, true, 1, noConstraint⟩⟩),
  (10, ⟨10, variableDhcpOptionLength, ⟨.ipAddress, true, 1, noConstraint⟩⟩),
  (11, ⟨11, variableDhcpOptionLength, ⟨.ipAddress, true, 1, noConstraint⟩⟩),
  (12, ⟨12, variableDhcpOptionLength, ⟨.string, false, 1, noConstraint⟩⟩),
  (13, ⟨13, 2, ⟨.uint16, false, 0, noConstraint⟩⟩),
  (14, ⟨14, variableDhcpOptionLength, ⟨.string, false, 1, noConstraint⟩⟩),
  (15, ⟨15, variableDhcpOptionLength, ⟨.string, false, 1, noConstraint⟩⟩),
  (16, ⟨16, 4, ⟨.ipAddress, false, 0, noConstraint⟩⟩),
  (17, ⟨17, variableDhcpOptionLength, ⟨.string, false, 1, noConstraint⟩⟩),
  (18, ⟨18, variableDhcpOptionLength, ⟨.string, false, 1, noConstraint⟩⟩),
  (19, ⟨19, 1, ⟨.flag, false, 0, noConstraint⟩⟩),
  (20, ⟨20, 1, ⟨.flag, false, 0, noConstraint⟩⟩),
  (21, ⟨21, variableDhcpOptionLength, ⟨.ipAddressWithSubnetMask, true, 1, noConstraint⟩⟩),
  (22, ⟨22, 2, ⟨.uint16, false, 0, ⟨.fromMin, 576, 0, []⟩⟩⟩),
  (23, ⟨23, 1, ⟨.uint8, false, 0, ⟨.range, 1, 255, []⟩⟩⟩),
  (24, ⟨24, 4, ⟨.uint32, false, 0, noConstraint⟩⟩),
  (25, ⟨25, variableDhcpOptionLength, ⟨.uint16, true, 2, noConstraint⟩⟩),
  (26, ⟨26, 2, ⟨.uint16, false, 0, ⟨.fromMin, 68, 0, []⟩⟩⟩),
  (27, ⟨27, 1, ⟨.flag, false, 0, noConstraint⟩⟩),
  (28, ⟨28, 4, ⟨.ipAddress, false, 0, noConstraint⟩⟩),
  (29, ⟨29, 1, ⟨.flag, false, 0, noConstraint⟩⟩),
  (30, ⟨30, 1, ⟨.flag, false, 0, noConstraint⟩⟩),
  (31, ⟨31, 1, ⟨.flag, false, 0, noConstraint⟩⟩),
  (32, ⟨32, 4, ⟨.ipAddress, false, 0, noConstraint⟩⟩),
  (33, ⟨33, variableDhcpOptionLength, ⟨.twoIpAddresses, true, 1, noConstraint⟩⟩),
  (34, ⟨34, 1, ⟨.flag, false, 0, noConstraint⟩⟩),
  (35, ⟨35, 4, ⟨.uint32, false, 0, noConstraint⟩⟩),
  (36, ⟨36, 1, ⟨.flag, false, 0, noConstraint⟩⟩),
  (37, ⟨37, 1, ⟨.uint8, false, 0, ⟨.fromMin, 1, 0, []⟩⟩⟩),
  (38, ⟨38, 4, ⟨.uint32, false, 0, noConstraint⟩⟩),
  (39, ⟨39, 1, ⟨.flag, false, 0, noConstraint⟩⟩),
  (40, ⟨40, variableDhcpOptionLength, ⟨.string, false, 1, noConstraint⟩⟩),
  (41, ⟨41, variableDhcpOptionLength, ⟨.ipAddress, true, 1, noConstraint⟩⟩),
  (42, ⟨42, variableDhcpOptionLength, ⟨.ipAddress, true, 1, noConstraint⟩⟩),
  (43, ⟨43, variableDhcpOptionLength, ⟨.vendorSpecificField, false, 1, noConstraint⟩⟩),
  (44, ⟨44, variableDhcpOptionLength, ⟨.ipAddress, true, 1, noConstraint⟩⟩),
  (45, ⟨45, variableDhcpOptionLength, ⟨.ipAddress, true, 1, noConstraint⟩⟩),
  (46, ⟨46, 1, ⟨.uintEnum, false, 0, ⟨.uintEnum, 0, 0, [1, 2, 4, 8]⟩⟩⟩),
  (47, ⟨47, variableDhcpOptionLength, ⟨.string, false, 1, noConstraint⟩⟩),
  (48, ⟨48, variableDhcpOptionLength, ⟨.ipAddress, true, 1, noConstraint⟩⟩),
  (49, ⟨49, variableDhcpOptionLength, ⟨.ipAddress, true, 1, noConstraint⟩⟩),
  (64, ⟨64, variableDhcpOptionLength, ⟨.string, false, 1, noConstraint⟩⟩),
  (65, ⟨65, variableDhcpOptionLength, ⟨.ipAddress, true, 1, noConstraint⟩⟩),
  (68, ⟨68, variableDhcpOptionLength, ⟨.ipAddress, true, 0, noConstraint⟩⟩),
  (69, ⟨69, variableDhcpOptionLength, ⟨.ipAddress, true, 1, noConstraint⟩⟩),
  (70, ⟨70, variableDhcpOptionLength, ⟨.ipAddress, true, 1, noConstraint⟩⟩),
  (71, ⟨71, variableDhcpOptionLength, ⟨.ipAddress, true, 1, noConstraint⟩⟩),
  (72, ⟨72, variableDhcpOptionLength, ⟨.ipAddress, true, 1, noConstraint⟩⟩),
  (73, ⟨73, variableDhcpOptionLength, ⟨.ipAddress, true, 1, noConstraint⟩⟩),
  (74, ⟨74, variableDhcpOptionLength, ⟨.ipAddress, true, 1, noConstraint⟩⟩),
  (75, ⟨75, variableDhcpOptionLength, ⟨.ipAddress, true, 1, noConstraint⟩⟩),
  (76, ⟨76, variableDhcpOptionLength, ⟨.ipAddress, true, 1, noConstraint⟩⟩),
  (50, ⟨50, 4, ⟨.ipAddress, false, 0, noConstraint⟩⟩),
  (51, ⟨51, 4, ⟨.uint32, false, 0, noConstraint⟩⟩),
  (52, ⟨52, 1, ⟨.uintEnum, false, 0, ⟨.uintEnum, 0, 0, [1, 2, 3]⟩⟩⟩),
  (66, ⟨66, variableDhcpOptionLength, ⟨.string, false, 1, noConstraint⟩⟩),
  (67, ⟨67, variableDhcpOptionLength, ⟨.string, false, 1, noConstraint⟩⟩),
  (53, ⟨53, 1, ⟨.uintEnum, false, 0, ⟨.uintEnum, 0, 0, [1, 2, 3, 4, 5, 6, 7, 8]⟩⟩⟩),
  (54, ⟨54, 4, ⟨.ipAddress, false, 0, noConstraint⟩⟩),
  (55, ⟨55, variableDhcpOptionLength, ⟨.byteArray, false, 1, noConstraint⟩⟩),
  (56, ⟨56, variableDhcpOptionLength, ⟨.string, false, 1, noConstraint⟩⟩),
  (57, ⟨57, 2, ⟨.uint16, false, 0, ⟨.fromMin, 576, 0, []⟩⟩⟩),
  (58, ⟨58, 4, ⟨.uint32, false, 0, noConstraint⟩⟩),
  (59, ⟨59, 4, ⟨.uint32, false, 0, noConstraint⟩⟩),
  (60, ⟨60, variableDhcpOptionLength, ⟨.string, false, 1, noConstraint⟩⟩),
  (61, ⟨61, variableDhcpOptionLength, ⟨.byteArray, false, 2, noConstraint⟩⟩)]

/-! ## Reading one element -/

def processVendorSpecificField (buffer : List UInt8) (first last : ℕ) :
    Cpp DhcpOptionFieldRealValue := do
  return .byteVector (← copyRange buffer first (last - first))

def processByteArray (description : DhcpOptionDescription) (buffer : List UInt8)
    (first last : ℕ) : Cpp DhcpOptionFieldRealValue := do
  let byteArray ← copyRange buffer first (last - first)
  if description.payloadLength = variableDhcpOptionLength ∧
      byteArray.length < (UInt32.ofInt description.payloadDescription.minLenInElements).toNat then
    throwRuntimeError "длина опции меньше чем минимальная"
  else if description.payloadLength ≠ variableDhcpOptionLength ∧
      description.payloadLength ≠ byteArray.length then
    throwRuntimeError ("несовпадение длины, ожидаемая длина опции: " ++
      toString description.payloadLength ++ ", фактическая длина опции: " ++
      toString byteArray.length)
  else
    return .byteVector byteArray

def processString (buffer : List UInt8) (first last : ℕ) : Cpp DhcpOptionFieldRealValue := do
  return .byteString (← copyRange buffer first (last - first))

def processIpAddress (buffer : List UInt8) (first last : ℕ) : Cpp DhcpOptionFieldRealValue := do
  return .ipAddress (← IPv4Address.fromBigEndianBytes buffer first last)

def processSubnetMask (buffer : List UInt8) (first last : ℕ) : Cpp DhcpOptionFieldRealValue := do
  return .subnetMask (← IPv4SubnetMask.fromBigEndianBytes buffer first last)

def processIpAddressWithMask (buffer : List UInt8) (first last : ℕ) :
    Cpp DhcpOptionFieldRealValue := do
  let ipAddress ← IPv4Address.fromBigEndianBytes buffer first (first + 4)
  let subnetMask ← IPv4SubnetMask.fromBigEndianBytes buffer (first + 4) last
  return .ipAddressAndMask ipAddress subnetMask

def processTwoIpAddresses (buffer : List UInt8) (first last : ℕ) :
    Cpp DhcpOptionFieldRealValue := do
  let ip1 ← IPv4Address.fromBigEndianBytes buffer first (first + 4)
  let ip2 ← IPv4Address.fromBigEndianBytes buffer (first + 4) last
  return .ipAddressPair ip1 ip2

/-- The value if its check lets it through. -/
def checkedValue (check : Cpp Bool) (value : DhcpOptionFieldRealValue) :
    Cpp DhcpOptionFieldRealValue := do
  if ← check then return value
  else throwRuntimeError "Значение опции не соответствует ограничениям"

section

variable (description : DhcpOptionPayloadDescription) (buffer : List UInt8)

def processUint8 (iter : ℕ) : Cpp DhcpOptionFieldRealValue := do
  let value ← deref buffer iter
  checkedValue (description.isCorrectUint value.toUInt32) (.uint8 value)

def processUintEnum (iter : ℕ) : Cpp DhcpOptionFieldRealValue := do
  let value ← deref buffer iter
  checkedValue (description.isCorrectUint value.toUInt32) (.uint8 value)

def processFlag (iter : ℕ) : Cpp DhcpOptionFieldRealValue := do
  let value ← deref buffer iter
  return .flag (value ≠ 0)

variable [Host]

def processUint16 (first last : ℕ) : Cpp DhcpOptionFieldRealValue := do
  let value := UInt16.ofBitVec (← networkToHostEndian 2 buffer first last)
  checkedValue (description.isCorrectUint value.toUInt32) (.uint16 value)

def processUint32 (first last : ℕ) : Cpp DhcpOptionFieldRealValue := do
  let value := UInt32.ofBitVec (← networkToHostEndian 4 buffer first last)
  checkedValue (description.isCorrectUint value) (.uint32 value)

def processInt32 (first last : ℕ) : Cpp DhcpOptionFieldRealValue := do
  let value ← networkToHostEndian 4 buffer first last
  checkedValue (description.isCorrectInt value) (.int32 value)

/-- The `switch` of the constructor over the types whose elements may repeat. -/
def processElement (first last : ℕ) : Cpp DhcpOptionFieldRealValue :=
  match description.type with
  | .ipAddress => processIpAddress buffer first last
  | .subnetMask => processSubnetMask buffer first last
  | .ipAddressWithSubnetMask => processIpAddressWithMask buffer first last
  | .twoIpAddresses => processTwoIpAddresses buffer first last
  | .uint8 => processUint8 description buffer first
  | .uint16 => processUint16 description buffer first last
  | .uint32 => processUint32 description buffer first last
  | .int32 => processInt32 description buffer first last
  | .flag => processFlag buffer first
  | .uintEnum => processUintEnum description buffer first
  | .none | .vendorSpecificField | .byteArray | .string =>
    throwRuntimeError "данный тип полезной нагрузки опции не может использоваться в списке"

end

/-- The types whose elements the constructor reads one by one. -/
def DhcpOptionPayloadType.isElement : DhcpOptionPayloadType → Bool
  | .none | .vendorSpecificField | .byteArray | .string => false
  | _ => true

/-- `getOneElementPayloadLengthInBytes` as a distance to step an iterator by. -/
def DhcpOptionPayloadDescription.elementSize (description : DhcpOptionPayloadDescription) : ℕ :=
  description.getOneElementPayloadLengthInBytes.toNat

section

variable {description : DhcpOptionPayloadDescription} {buffer : List UInt8} {first : ℕ}

theorem elementSize_pos (element : description.type.isElement) : 0 < description.elementSize := by
  obtain ⟨type, isList, minLen, constraint⟩ := description
  cases type <;> first | exact Nat.succ_pos _ | cases element

variable [Host]

/-- An element that does not end inside the buffer is read past the buffer's end. -/
theorem processElement_of_lt (element : description.type.isElement)
    (outside : buffer.length < first + description.elementSize) :
    processElement description buffer first (first + description.elementSize) =
      undefinedBehaviour := by
  obtain ⟨type, isList, minLen, constraint⟩ := description
  cases type with
  | none | vendorSpecificField | byteArray | string => cases element
  | ipAddress =>
    show processIpAddress buffer first (first + 4) = _
    rw [processIpAddress, IPv4Address.fromBigEndianBytes_of_lt (Nat.le_refl _) outside]
    rfl
  | subnetMask =>
    show processSubnetMask buffer first (first + 4) = _
    rw [processSubnetMask, IPv4SubnetMask.fromBigEndianBytes_of_lt (Nat.le_refl _) outside]
    rfl
  | ipAddressWithSubnetMask =>
    show processIpAddressWithMask buffer first (first + 4 + 4) = _
    rw [processIpAddressWithMask]
    -- the first half may already end outside, or only the second
    by_cases firstInside : first + 4 ≤ buffer.length
    · obtain ⟨address, read, -⟩ := IPv4Address.fromBigEndianBytes_of_le (Nat.le_refl _) firstInside
      rw [read, ok_bind, IPv4SubnetMask.fromBigEndianBytes_of_lt (Nat.le_refl _) outside]
      rfl
    · rw [IPv4Address.fromBigEndianBytes_of_lt (Nat.le_refl _) (Nat.lt_of_not_le firstInside)]
      rfl
  | twoIpAddresses =>
    show processTwoIpAddresses buffer first (first + 4 + 4) = _
    rw [processTwoIpAddresses]
    by_cases firstInside : first + 4 ≤ buffer.length
    · obtain ⟨address, read, -⟩ := IPv4Address.fromBigEndianBytes_of_le (Nat.le_refl _) firstInside
      rw [read, ok_bind, IPv4Address.fromBigEndianBytes_of_lt (Nat.le_refl _) outside]
      rfl
    · rw [IPv4Address.fromBigEndianBytes_of_lt (Nat.le_refl _) (Nat.lt_of_not_le firstInside)]
      rfl
  | uint8 | uintEnum | flag =>
    have atEnd : deref buffer first = undefinedBehaviour := deref_of_le (Nat.le_of_lt_succ outside)
    simp [processElement, processUint8, processUintEnum, processFlag, atEnd, undefinedBehaviour]
  | uint16 =>
    show processUint16 _ buffer first (first + 2) = _
    have pastEnd : buffer.length < first + 2 := outside
    rw [processUint16, networkToHostEndian_of_lt (by decide) pastEnd]
    rfl
  | uint32 =>
    show processUint32 _ buffer first (first + 4) = _
    have pastEnd : buffer.length < first + 4 := outside
    rw [processUint32, networkToHostEndian_of_lt (by decide) pastEnd]
    rfl
  | int32 =>
    show processInt32 _ buffer first (first + 4) = _
    have pastEnd : buffer.length < first + 4 := outside
    rw [processInt32, networkToHostEndian_of_lt (by decide) pastEnd]
    rfl

/-- Only the types of `isElement` are read element by element. -/
theorem isElement_of_ok {last : ℕ} {value : DhcpOptionFieldRealValue}
    (read : processElement description buffer first last = .ok value) :
    description.type.isElement := by
  obtain ⟨type, isList, minLen, constraint⟩ := description
  cases type <;> first | rfl | cases read

theorem le_length_of_ok {value : DhcpOptionFieldRealValue}
    (read : processElement description buffer first (first + description.elementSize) = .ok value) :
    first + description.elementSize ≤ buffer.length := by
  by_contra outside
  rw [processElement_of_lt (isElement_of_ok read) (Nat.lt_of_not_le outside)] at read
  cases read

/-- An element in the middle of a buffer is read as if it stood alone. -/
theorem processElement_middle (before after : List UInt8) (element : description.type.isElement)
    (inside : first + description.elementSize ≤ buffer.length) :
    processElement description (before ++ buffer ++ after) (before.length + first)
        (before.length + (first + description.elementSize)) =
      processElement description buffer first (first + description.elementSize) := by
  obtain ⟨type, isList, minLen, constraint⟩ := description
  cases type with
  | none | vendorSpecificField | byteArray | string => cases element
  | ipAddress =>
    show processIpAddress _ _ (before.length + (first + 4)) = processIpAddress _ _ (first + 4)
    rw [processIpAddress, IPv4Address.fromBigEndianBytes_middle (Nat.le_refl _) before after inside]
    rfl
  | subnetMask =>
    show processSubnetMask _ _ (before.length + (first + 4)) = processSubnetMask _ _ (first + 4)
    rw [processSubnetMask,
      IPv4SubnetMask.fromBigEndianBytes_middle (Nat.le_refl _) before after inside]
    rfl
  | ipAddressWithSubnetMask =>
    show processIpAddressWithMask _ _ (before.length + (first + 4 + 4)) =
      processIpAddressWithMask _ _ (first + 4 + 4)
    have bothInside : first + 4 + 4 ≤ buffer.length := inside
    have firstInside : first + 4 ≤ buffer.length := Nat.le_of_add_right_le bothInside
    rw [processIpAddressWithMask, Nat.add_assoc before.length first 4,
      IPv4Address.fromBigEndianBytes_middle (Nat.le_refl _) before after firstInside,
      IPv4SubnetMask.fromBigEndianBytes_middle (Nat.le_refl _) before after inside]
    rfl
  | twoIpAddresses =>
    show processTwoIpAddresses _ _ (before.length + (first + 4 + 4)) =
      processTwoIpAddresses _ _ (first + 4 + 4)
    have bothInside : first + 4 + 4 ≤ buffer.length := inside
    have firstInside : first + 4 ≤ buffer.length := Nat.le_of_add_right_le bothInside
    rw [processTwoIpAddresses, Nat.add_assoc before.length first 4,
      IPv4Address.fromBigEndianBytes_middle (Nat.le_refl _) before after firstInside,
      IPv4Address.fromBigEndianBytes_middle (Nat.le_refl _) before after inside]
    rfl
  | uint8 | uintEnum | flag =>
    have same := deref_middle before after (Nat.lt_of_succ_le inside)
    simp only [processElement, processUint8, processUintEnum, processFlag, same]
  | uint16 =>
    show processUint16 _ _ _ (before.length + (first + 2)) = processUint16 _ _ _ (first + 2)
    have toEnd : first + 2 ≤ buffer.length := inside
    rw [processUint16, networkToHostEndian_middle before after toEnd]
    rfl
  | uint32 =>
    show processUint32 _ _ _ (before.length + (first + 4)) = processUint32 _ _ _ (first + 4)
    have toEnd : first + 4 ≤ buffer.length := inside
    rw [processUint32, networkToHostEndian_middle before after toEnd]
    rfl
  | int32 =>
    show processInt32 _ _ _ (before.length + (first + 4)) = processInt32 _ _ _ (first + 4)
    have toEnd : first + 4 ≤ buffer.length := inside
    rw [processInt32, networkToHostEndian_middle before after toEnd]
    rfl

end

/-! ## The constructor -/

set_option linter.unusedVariables false in
/-- The loop of the constructor over the payload range.  The last three types take
    the rest of the range at once. -/
def processPayload [Host] (description : DhcpOptionDescription) (buffer : List UInt8)
    (iter payloadEnd : ℕ) : Cpp (List DhcpOptionFieldRealValue) :=
  if iter = payloadEnd then return []
  else
    match description.payloadDescription.type with
    | .vendorSpecificField => return [← processVendorSpecificField buffer iter payloadEnd]
    | .byteArray => return [← processByteArray description buffer iter payloadEnd]
    | .string => return [← processString buffer iter payloadEnd]
    | _ =>
      let next := iter + description.payloadDescription.elementSize
      match read : processElement description.payloadDescription buffer iter next with
      | .error fault => .error fault
      | .ok value => do
        let values ← processPayload description buffer next payloadEnd
        return value :: values
termination_by buffer.length - iter
decreasing_by
  have inside := le_length_of_ok read
  have positive := elementSize_pos (isElement_of_ok read)
  omega

structure DhcpOption where
  realPayloadLength : ℤ
  description : DhcpOptionDescription
  realValues : List DhcpOptionFieldRealValue
deriving DecidableEq, Repr

namespace DhcpOption

/-- The constructor, with the iterators of the payload in `buffer`. -/
def construct [Host] (code realPayloadLength : ℤ) (buffer : List UInt8)
    (payloadBegin payloadEnd : ℕ) : Cpp DhcpOption :=
  match optionsDescriptions.lookup code with
  | none => .error (.thrown .outOfRange)
  | some description =>
    if description.payloadLength ≠ variableDhcpOptionLength ∧
        description.payloadLength ≠ realPayloadLength then
      throwRuntimeError "несовпадение реальной длины свойства и длины в стандарте"
    else if description.payloadDescription.type = .none then
      throwRuntimeError "Нельзя задать пустое значение"
    else do
      let realValues ← processPayload description buffer payloadBegin payloadEnd
      return {
        realPayloadLength :=
          if description.payloadLength = variableDhcpOptionLength then realPayloadLength
          else description.payloadLength
        description
        realValues }

end DhcpOption

/-! ## Writing an option -/

/-- `dhcp_option_field_real_value_to_network_data`.  Integers are written as their
    memory image, and a `bool` runs off the end of the function. -/
def DhcpOptionFieldRealValue.toNetworkData [Host] : DhcpOptionFieldRealValue → Cpp (List UInt8)
  | .int32 value => return @memoryImage _ 4 value
  | .uint32 value => return @memoryImage _ 4 value.toBitVec
  | .uint16 value => return @memoryImage _ 2 value.toBitVec
  | .uint8 value => return [value]
  | .byteVector value => return value
  | .byteString value => return value
  | .ipAddress value => return value.toNetworkData
  | .subnetMask value => return value.toNetworkData
  | .ipAddressAndMask address mask => return address.toNetworkData ++ mask.toNetworkData
  | .ipAddressPair first second => return first.toNetworkData ++ second.toNetworkData
  | .flag _ => undefinedBehaviour

/-- The values one after the other. -/
def realValuesToNetworkData [Host] : List DhcpOptionFieldRealValue → Cpp (List UInt8)
  | [] => return []
  | value :: values => do
    let valueData ← value.toNetworkData
    let rest ← realValuesToNetworkData values
    return valueData ++ rest

def DhcpOption.toNetworkData [Host] (option : DhcpOption) : Cpp (List UInt8) :=
  if option.description.code = 0 then return [0]
  else if option.description.code = 255 then return [255]
  else do
    let length :=
      if option.description.payloadLength = variableDhcpOptionLength then option.realPayloadLength
      else option.description.payloadLength
    let values ← realValuesToNetworkData option.realValues
    return UInt8.ofInt option.description.code :: UInt8.ofInt length :: values

end Klevret.Dhcp
