import Klevret.Dhcp.HardwareAddress
import Klevret.Dhcp.IpAddress

/-! # Network byte order and the key orders

Whatever the host, the endian helpers read and write the big-endian digits of an integer, and
the value form reads the digits off its memory image.  The orders of the containers keyed by
addresses are the lexicographic order of the same digits, and `operator++` is its successor. -/

namespace Klevret.Verified.Address

open Klevret.Base Klevret.Dhcp

/-! ## Integers from network bytes -/

/-- The integer whose big-endian digits are `bytes`, as `T` is unsigned or signed. -/
structure HasDigits {size : ℕ} (value : BitVec (8 * size)) (bytes : List UInt8) : Prop where
  unsigned : value.toNat = bigEndianValue bytes
  signed : value.toInt = twosComplement size (bigEndianValue bytes)

theorem hasDigits_of_toNat {size : ℕ} {value : BitVec (8 * size)} {bytes : List UInt8}
    (unsigned : value.toNat = bigEndianValue bytes) : HasDigits value bytes := by
  refine ⟨unsigned, ?_⟩
  rw [BitVec.toInt_eq_toNat_cond, unsigned, twosComplement, pow_bytes]

/-- What the helpers do with `bytes`: the two readings of a byte string, the writing, the
    reading of a number in memory, and the length that is asked for. -/
structure BigEndianHelpers [Host] {size : ℕ} (bytes : Vector UInt8 size) : Prop where
  array : HasDigits (networkArrayToHostEndian bytes) bytes.toList
  range : ∀ before after : List UInt8, ∃ value,
    networkToHostEndian size (before ++ bytes.toList ++ after) before.length
        (before.length + size) = .ok value ∧ HasDigits value bytes.toList
  written : hostToNetworkEndianArray (networkArrayToHostEndian bytes) = bytes
  readBack : ∀ value : BitVec (8 * size),
    networkArrayToHostEndian (hostToNetworkEndianArray value) = value
  inMemory : ∃ number : BitVec (8 * size), memoryImage number = bytes.toList
  value : ∀ number : BitVec (8 * size), memoryImage number = bytes.toList →
    HasDigits (networkToHostEndianValue number) bytes.toList
  otherLength : ∀ (buffer : List UInt8) (first last : ℕ), last - first ≠ size →
    Throws (networkToHostEndian size buffer first last)

variable [Host]

theorem networkArrayToHostEndian_hasDigits {size : ℕ} (bytes : Vector UInt8 size) :
    HasDigits (networkArrayToHostEndian bytes) bytes.toList :=
  hasDigits_of_toNat (networkArrayToHostEndian_toNat bytes)

/-- The bytes may stand anywhere in the buffer. -/
theorem networkToHostEndian_hasDigits {size : ℕ} (bytes : Vector UInt8 size)
    (before after : List UInt8) :
    ∃ value, networkToHostEndian size (before ++ bytes.toList ++ after) before.length
        (before.length + size) = .ok value ∧ HasDigits value bytes.toList := by
  have inside : before.length + size ≤ (before ++ bytes.toList ++ after).length := by
    rw [List.length_append, List.length_append, Vector.length_toList]
    omega
  obtain ⟨value, read, unsigned⟩ := networkToHostEndian_of_le inside
  rw [List.append_assoc, List.drop_left, List.take_left' Vector.length_toList] at unsigned
  exact ⟨value, read, hasDigits_of_toNat unsigned⟩

theorem networkToHostEndianValue_hasDigits {size : ℕ} {bytes : Vector UInt8 size}
    {number : BitVec (8 * size)} (image : memoryImage number = bytes.toList) :
    HasDigits (networkToHostEndianValue number) bytes.toList := by
  rw [← bitCastToInteger_memoryImage number, image, networkToHostEndianValue_bitCastToInteger]
  exact networkArrayToHostEndian_hasDigits bytes

theorem throws_networkToHostEndian {size first last : ℕ} (buffer : List UInt8)
    (otherLength : last - first ≠ size) : Throws (networkToHostEndian size buffer first last) := by
  rw [networkToHostEndian]
  dsimp only
  rw [if_pos otherLength]
  exact throws_runtimeError _

/-- The helpers implement big-endian exactly, at every width and on every host. -/
theorem bigEndianHelpers {size : ℕ} (bytes : Vector UInt8 size) : BigEndianHelpers bytes where
  array := networkArrayToHostEndian_hasDigits bytes
  range := networkToHostEndian_hasDigits bytes
  written := hostToNetworkEndianArray_networkArrayToHostEndian bytes
  readBack := networkArrayToHostEndian_hostToNetworkEndianArray
  inMemory := ⟨_, memoryImage_bitCastToInteger Vector.length_toList⟩
  value _ := networkToHostEndianValue_hasDigits
  otherLength buffer _ _ := throws_networkToHostEndian buffer

/-! ## The orders of the keys -/

/-- `less` is a strict total order of the keys, the lexicographic one of their bytes. -/
structure KeyOrder {Key : Type*} (less : Key → Key → Bool) (bytes : Key → List UInt8) : Prop where
  irreflexive : ∀ key, less key key = false
  transitive : ∀ first second third, less first second → less second third → less first third
  sameBytes : ∀ left right, less left right = false → less right left = false →
    bytes left = bytes right
  lexicographic : ∀ left right, less left right ↔ bytes left < bytes right

omit [Host] in
/-- A comparison of byte strings of one length as big-endian numbers. -/
theorem keyOrder_of_numbers {Key : Type*} {less : Key → Key → Bool} {bytes : Key → List UInt8}
    (length : ℕ) (sameLength : ∀ key, (bytes key).length = length)
    (numbers : ∀ left right,
      less left right = decide (bigEndianValue (bytes left) < bigEndianValue (bytes right))) :
    KeyOrder less bytes where
  irreflexive key := by
    rw [numbers, decide_eq_false_iff_not]
    exact Nat.lt_irrefl _
  transitive first second third := by
    rw [numbers, numbers, numbers, decide_eq_true_iff, decide_eq_true_iff, decide_eq_true_iff]
    exact Nat.lt_trans
  sameBytes left right := by
    rw [numbers, numbers, decide_eq_false_iff_not, decide_eq_false_iff_not]
    intro notLess notGreater
    -- neither number is the smaller one, and the bytes are its digits
    have sameNumber := Nat.le_antisymm (Nat.le_of_not_lt notGreater) (Nat.le_of_not_lt notLess)
    exact eq_of_bigEndianValue_eq ((sameLength left).trans (sameLength right).symm) sameNumber
  lexicographic left right := by
    rw [numbers, decide_eq_true_iff]
    exact bigEndianValue_lt_iff ((sameLength left).trans (sameLength right).symm)

omit [Host] in
theorem macAddress_keyOrder : KeyOrder MacAddress.less fun mac => mac.data.toList :=
  keyOrder_of_numbers macAddressLength (fun _ => Vector.length_toList) MacAddress.less_eq

theorem toNat_toUInt32 (address : IPv4Address) :
    address.toUInt32.toNat = bigEndianValue address.toNetworkData :=
  networkArrayToHostEndian_toNat address.data

theorem ipv4Address_keyOrder : KeyOrder IPv4Address.less IPv4Address.toNetworkData := by
  apply keyOrder_of_numbers ipV4AddressLength IPv4Address.length_toNetworkData
  intro left right
  rw [IPv4Address.less_eq, toNat_toUInt32, toNat_toUInt32]

/-! ## The successor of an address -/

/-- The address 255.255.255.255. -/
def lastAddress : IPv4Address := ⟨#v[255, 255, 255, 255]⟩

/-- Nothing lies between the address and `next`. -/
structure ImmediateSuccessor (address next : IPv4Address) : Prop where
  less : address.less next
  nothingBetween : ∀ between : IPv4Address,
    (address.less between && between.less next) = false

theorem toNat_lt_of_ne_lastAddress {address : IPv4Address} (notLast : address ≠ lastAddress) :
    address.toUInt32.toNat < 2 ^ 32 - 1 := by
  have different : address.toUInt32.toNat ≠ lastAddress.toUInt32.toNat := by
    intro same
    exact notLast (IPv4Address.toNat_toUInt32_injective same)
  have last : lastAddress.toUInt32.toNat = 2 ^ 32 - 1 := by
    rw [toNat_toUInt32]
    decide
  have bound := address.toUInt32.toNat_lt
  omega

theorem immediateSuccessor_increment {address : IPv4Address} (notLast : address ≠ lastAddress) :
    ImmediateSuccessor address address.increment := by
  have small := toNat_lt_of_ne_lastAddress notLast
  -- the carry runs through the number and is not lost at its upper end
  have next : address.increment.toUInt32.toNat = address.toUInt32.toNat + 1 := by
    rw [IPv4Address.toUInt32_increment, UInt32.toNat_add, UInt32.toNat_one]
    exact Nat.mod_eq_of_lt (by omega)
  constructor
  · rw [IPv4Address.less_eq, next, decide_eq_true_iff]
    exact Nat.lt_succ_self _
  · intro between
    rw [IPv4Address.less_eq, IPv4Address.less_eq, next, Bool.and_eq_false_iff,
      decide_eq_false_iff_not, decide_eq_false_iff_not]
    omega

/-- The orders that the sets and maps of the pool rest on. -/
structure PoolKeyOrders : Prop where
  addresses : KeyOrder IPv4Address.less IPv4Address.toNetworkData
  hardwareAddresses : KeyOrder MacAddress.less fun mac => mac.data.toList
  successor : ∀ address, address ≠ lastAddress → ImmediateSuccessor address address.increment

theorem poolKeyOrders : PoolKeyOrders where
  addresses := ipv4Address_keyOrder
  hardwareAddresses := macAddress_keyOrder
  successor _ := immediateSuccessor_increment

end Klevret.Verified.Address
