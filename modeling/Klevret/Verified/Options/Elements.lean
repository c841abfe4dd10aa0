import Klevret.Dhcp.DhcpOption

/-! # Reading and writing one element

`readElement` is one turn of the constructor's loop on an element that stands
alone.  It returns exactly when the integer constraint lets the element through
(`elementAllowed`), and the values of the types of `isCopied` are written back as
the bytes they were read from. -/

namespace Klevret.Verified.Options

open Klevret.Base Klevret.Dhcp DhcpOptionPayloadDescription

/-- The integer constraint on one element. -/
def elementAllowed (description : DhcpOptionPayloadDescription) (element : List UInt8) : Bool :=
  match description.type with
  | .uint8 | .uint16 | .uint32 | .uintEnum =>
    meetsConstraint description.intConstraint (bigEndianValue element) (bigEndianValue element)
  | .int32 =>
    meetsConstraint description.intConstraint (BitVec.ofNat 32 (bigEndianValue element)).toInt
      (bigEndianValue element)
  | _ => true

/-- The types whose values keep the order of their bytes. -/
def isCopied : DhcpOptionPayloadType → Bool
  | .ipAddress | .subnetMask | .ipAddressWithSubnetMask | .twoIpAddresses => true
  | .string | .byteArray | .vendorSpecificField | .uint8 | .uintEnum => true
  | .none | .uint16 | .uint32 | .int32 | .flag => false

variable [Host] {description : DhcpOptionPayloadDescription} {element : List UInt8}

def readElement (description : DhcpOptionPayloadDescription) (element : List UInt8) :
    Cpp DhcpOptionFieldRealValue :=
  processElement description element 0 (0 + description.elementSize)

/-- The value is what the element reads as: it can be written back where the type
    keeps the order of the bytes. -/
structure Reads (description : DhcpOptionPayloadDescription) (element : List UInt8)
    (value : DhcpOptionFieldRealValue) : Prop where
  read : readElement description element = .ok value
  written : isCopied description.type → value.toNetworkData = .ok element

/-! ## The integer constraint -/

section Constraint

omit [Host]

theorem checkedValue_isCorrectUint {value : UInt32} {number : ℕ}
    {result : DhcpOptionFieldRealValue} (same : value.toNat = number)
    (unsigned : description.type = .uint32 ∨ description.type = .uint16 ∨
      description.type = .uint8 ∨ description.type = .uintEnum) :
    checkedValue (description.isCorrectUint value) result =
      if meetsConstraint description.intConstraint number number then .ok result
      else throwRuntimeError "Значение опции не соответствует ограничениям" := by
  subst same
  rw [isCorrectUint, if_neg (not_not.mpr unsigned), checkedValue, pure_eq_ok, ok_bind]
  rfl

theorem checkedValue_isCorrectInt {value : BitVec 32} {result : DhcpOptionFieldRealValue}
    (signed : description.type = .int32) :
    checkedValue (description.isCorrectInt value) result =
      if meetsConstraint description.intConstraint value.toInt value.toNat then .ok result
      else throwRuntimeError "Значение опции не соответствует ограничениям" := by
  rw [isCorrectInt, if_neg (not_not.mpr signed), checkedValue, pure_eq_ok, ok_bind]
  rfl

theorem bigEndianValue_singleton (byte : UInt8) : bigEndianValue [byte] = byte.toNat := by
  rw [bigEndianValue_cons, bigEndianValue_nil, List.length_nil, pow_zero, Nat.mul_one,
    Nat.add_zero]

theorem drop_zero_take {size : ℕ} (whole : element.length = size) :
    (element.drop 0).take size = element := by
  rw [List.drop_zero, List.take_of_length_le whole.le]

theorem toNat_toUInt32_eq {byte : UInt8} : byte.toUInt32.toNat = bigEndianValue [byte] := by
  rw [bigEndianValue_singleton, UInt8.toNat_toUInt32]

theorem halves_append {size : ℕ} (whole : element.length = size + size) :
    (element.drop 0).take size ++ (element.drop (0 + size)).take size = element := by
  have rest : (element.drop size).length = size := by
    rw [List.length_drop, whole, Nat.add_sub_cancel]
  rw [List.drop_zero, Nat.zero_add, List.take_of_length_le rest.le, List.take_append_drop]

theorem elementAllowed_of_unconstrained (unconstrained : description.intConstraint = noConstraint) :
    elementAllowed description element := by
  unfold elementAllowed
  rw [unconstrained]
  split <;> rfl

end Constraint

/-- A number that takes up the whole element. -/
theorem networkToHostEndian_of_whole {size : ℕ} (whole : element.length = size) :
    ∃ number, networkToHostEndian size element 0 (0 + size) = .ok number ∧
      number.toNat = bigEndianValue element := by
  have inside : 0 + size ≤ element.length := by rw [Nat.zero_add, whole]
  obtain ⟨number, read, numberEq⟩ := networkToHostEndian_of_le inside
  rw [drop_zero_take whole] at numberEq
  exact ⟨number, read, numberEq⟩

/-- A value that is read in every case. -/
theorem reads_of_unconstrained (value : DhcpOptionFieldRealValue)
    (unconstrained : elementAllowed description element = true)
    (reads : Reads description element value) :
    (elementAllowed description element → ∃ value, Reads description element value) ∧
      (¬ elementAllowed description element → Throws (readElement description element)) :=
  ⟨fun _ => ⟨value, reads⟩, fun refused => absurd unconstrained refused⟩

/-- A value that is read when the constraint lets it through. -/
theorem reads_of_constrained (value : DhcpOptionFieldRealValue)
    (read : readElement description element =
      if elementAllowed description element then .ok value
      else throwRuntimeError "Значение опции не соответствует ограничениям")
    (written : isCopied description.type → value.toNetworkData = .ok element) :
    (elementAllowed description element → ∃ value, Reads description element value) ∧
      (¬ elementAllowed description element → Throws (readElement description element)) := by
  constructor
  · intro allowed
    rw [if_pos allowed] at read
    exact ⟨value, read, written⟩
  · intro refused
    rw [if_neg refused] at read
    rw [read]
    exact throws_runtimeError _

/-- An element of the right size is read, unless the constraint refuses it. -/
theorem readElement_cases (repeats : description.type.isElement)
    (whole : element.length = description.elementSize) :
    (elementAllowed description element → ∃ value, Reads description element value) ∧
      (¬ elementAllowed description element → Throws (readElement description element)) := by
  obtain ⟨type, isList, minLen, constraint⟩ := description
  cases type with
  | none | vendorSpecificField | byteArray | string => cases repeats
  | ipAddress =>
    have length : element.length = 4 := whole
    have inside : 0 + 4 ≤ element.length := length.ge
    obtain ⟨address, read, bytes⟩ := IPv4Address.fromBigEndianBytes_of_le (Nat.le_refl _) inside
    rw [drop_zero_take length] at bytes
    refine reads_of_unconstrained (.ipAddress address) rfl ⟨?_, fun _ => ?_⟩
    · show processIpAddress element 0 (0 + 4) = .ok (.ipAddress address)
      rw [processIpAddress, read]
      rfl
    · rw [DhcpOptionFieldRealValue.toNetworkData, bytes]
      rfl
  | subnetMask =>
    have length : element.length = 4 := whole
    have inside : 0 + 4 ≤ element.length := length.ge
    obtain ⟨mask, read, bytes⟩ := IPv4SubnetMask.fromBigEndianBytes_of_le (Nat.le_refl _) inside
    rw [drop_zero_take length] at bytes
    refine reads_of_unconstrained (.subnetMask mask) rfl ⟨?_, fun _ => ?_⟩
    · show processSubnetMask element 0 (0 + 4) = .ok (.subnetMask mask)
      rw [processSubnetMask, read]
      rfl
    · rw [DhcpOptionFieldRealValue.toNetworkData, bytes]
      rfl
  | ipAddressWithSubnetMask =>
    have length : element.length = 4 + 4 := whole
    have firstInside : 0 + 4 ≤ element.length := by omega
    have secondInside : 0 + 4 + 4 ≤ element.length := by omega
    obtain ⟨address, readFirst, firstBytes⟩ :=
      IPv4Address.fromBigEndianBytes_of_le (Nat.le_refl _) firstInside
    obtain ⟨mask, readSecond, secondBytes⟩ :=
      IPv4SubnetMask.fromBigEndianBytes_of_le (Nat.le_refl _) secondInside
    refine reads_of_unconstrained (.ipAddressAndMask address mask) rfl ⟨?_, fun _ => ?_⟩
    · show processIpAddressWithMask element 0 (0 + 4 + 4) = .ok (.ipAddressAndMask address mask)
      rw [processIpAddressWithMask, readFirst, ok_bind, readSecond]
      rfl
    · rw [DhcpOptionFieldRealValue.toNetworkData, firstBytes, secondBytes, halves_append length]
      rfl
  | twoIpAddresses =>
    have length : element.length = 4 + 4 := whole
    have firstInside : 0 + 4 ≤ element.length := by omega
    have secondInside : 0 + 4 + 4 ≤ element.length := by omega
    obtain ⟨first, readFirst, firstBytes⟩ :=
      IPv4Address.fromBigEndianBytes_of_le (Nat.le_refl _) firstInside
    obtain ⟨second, readSecond, secondBytes⟩ :=
      IPv4Address.fromBigEndianBytes_of_le (Nat.le_refl _) secondInside
    refine reads_of_unconstrained (.ipAddressPair first second) rfl ⟨?_, fun _ => ?_⟩
    · show processTwoIpAddresses element 0 (0 + 4 + 4) = .ok (.ipAddressPair first second)
      rw [processTwoIpAddresses, readFirst, ok_bind, readSecond]
      rfl
    · rw [DhcpOptionFieldRealValue.toNetworkData, firstBytes, secondBytes, halves_append length]
      rfl
  | uint8 =>
    obtain ⟨byte, rfl⟩ := List.length_eq_one_iff.mp whole
    refine reads_of_constrained (.uint8 byte) ?_ fun _ => rfl
    show checkedValue (isCorrectUint ⟨.uint8, isList, minLen, constraint⟩ byte.toUInt32) _ = _
    exact checkedValue_isCorrectUint toNat_toUInt32_eq (by simp)
  | uintEnum =>
    obtain ⟨byte, rfl⟩ := List.length_eq_one_iff.mp whole
    refine reads_of_constrained (.uint8 byte) ?_ fun _ => rfl
    show checkedValue (isCorrectUint ⟨.uintEnum, isList, minLen, constraint⟩ byte.toUInt32) _ = _
    exact checkedValue_isCorrectUint toNat_toUInt32_eq (by simp)
  | flag =>
    obtain ⟨byte, rfl⟩ := List.length_eq_one_iff.mp whole
    exact reads_of_unconstrained (.flag (byte ≠ 0)) rfl
      ⟨rfl, fun copied => by cases copied⟩
  | uint16 =>
    have length : element.length = 2 := whole
    obtain ⟨number, read, numberEq⟩ := networkToHostEndian_of_whole length
    refine reads_of_constrained (.uint16 (.ofBitVec number)) ?_ (fun copied => by cases copied)
    show processUint16 _ element 0 (0 + 2) = _
    rw [processUint16, read, ok_bind]
    refine checkedValue_isCorrectUint numberEq ?_
    simp
  | uint32 =>
    have length : element.length = 4 := whole
    obtain ⟨number, read, numberEq⟩ := networkToHostEndian_of_whole length
    refine reads_of_constrained (.uint32 (.ofBitVec number)) ?_ (fun copied => by cases copied)
    show processUint32 _ element 0 (0 + 4) = _
    rw [processUint32, read, ok_bind]
    refine checkedValue_isCorrectUint numberEq ?_
    simp
  | int32 =>
    have length : element.length = 4 := whole
    obtain ⟨number, read, numberEq⟩ := networkToHostEndian_of_whole length
    -- the constraint sees the signed value, `elementAllowed` the bytes
    have sameBits : BitVec.ofNat 32 (bigEndianValue element) = number := by
      rw [← numberEq, BitVec.ofNat_toNat]
      exact BitVec.setWidth_eq number
    refine reads_of_constrained (.int32 number) ?_ (fun copied => by cases copied)
    show processInt32 _ element 0 (0 + 4) = _
    rw [processInt32, read, ok_bind, checkedValue_isCorrectInt rfl, elementAllowed]
    simp only [sameBits, numberEq]

end Klevret.Verified.Options
