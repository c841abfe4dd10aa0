import Mathlib.Data.List.ReduceOption
import Mathlib.Data.Nat.Bitwise
import Klevret.Dhcp.NetworkInterface

/-! # The interfaces that are listed

What `main` prints of the interfaces, read off the memory that the kernel has filled: the octets in
the order in which they lie there, on hosts of either byte order, and the number of ones in the
mask (`interfaces_printed`).  An entry without an address, which `getifaddrs` may make for any
interface, is dereferenced all the same. -/

namespace Klevret.Verified.Server

open Klevret.Base Klevret.Dhcp

/-! ## The number of ones in a mask -/

/-- The bits of an octet, from the lowest to the highest. -/
def bitsOf (octet : UInt8) : List Bool := (List.range 8).map octet.toNat.testBit

/-- How many bits of the octets are set. -/
def ones (octets : List UInt8) : ℕ := (octets.flatMap bitsOf).count true

theorem toNat_halfPower {count : ℕ} (small : count ≤ 8) :
    (UInt8.ofNat (2 ^ count / 2)).toNat = 2 ^ count / 2 := by
  have bound : 2 ^ count ≤ 2 ^ 8 := Nat.pow_le_pow_right (by omega) small
  rw [UInt8.toNat_ofNat', Nat.mod_eq_of_lt]
  omega

theorem halfPower_shift {count : ℕ} (small : count < 8) :
    UInt8.ofNat (2 ^ (count + 1) / 2) >>> 1 = UInt8.ofNat (2 ^ count / 2) := by
  apply UInt8.toNat_inj.mp
  rw [UInt8.toNat_shiftRight, toNat_halfPower small, toNat_halfPower (by omega), Nat.pow_succ,
    Nat.mul_div_cancel _ (by omega)]
  simp [Nat.shiftRight_eq_div_pow]

/-- One turn of the inner loop looks at one bit. -/
theorem and_halfPower_ne_zero_iff (octet : UInt8) {count : ℕ} (small : count < 8) :
    octet &&& UInt8.ofNat (2 ^ (count + 1) / 2) ≠ 0 ↔ octet.toNat.testBit count = true := by
  rw [Ne, ← UInt8.toNat_inj, UInt8.toNat_and, toNat_halfPower small, Nat.pow_succ,
    Nat.mul_div_cancel _ (by omega), Nat.and_two_pow]
  have positive := Nat.two_pow_pos count
  cases octet.toNat.testBit count with
  | true => simp
  | false => simp

/-- The inner loop goes from the highest bit that is left to the lowest. -/
theorem countOnes_eq (octet : UInt8) {count : ℕ} (small : count ≤ 8) (length : ℤ) :
    IPv4SubnetMask.countOnes octet count (UInt8.ofNat (2 ^ count / 2)) length =
      length + (List.range count).countP octet.toNat.testBit := by
  induction count generalizing length with
  | zero => simp [IPv4SubnetMask.countOnes]
  | succ count inductionHypothesis =>
    rw [IPv4SubnetMask.countOnes, halfPower_shift small, inductionHypothesis (by omega),
      List.range_succ, List.countP_append, List.countP_singleton]
    simp only [and_halfPower_ne_zero_iff octet small]
    split <;> push_cast <;> omega

theorem foldl_countOnes (octets : List UInt8) (length : ℤ) :
    octets.foldl (fun length octet => IPv4SubnetMask.countOnes octet 8 128 length) length =
      length + ones octets := by
  induction octets generalizing length with
  | nil => simp [ones]
  | cons octet octets inductionHypothesis =>
    have first := countOnes_eq octet (Nat.le_refl 8) length
    have counted : (List.range 8).countP octet.toNat.testBit = (bitsOf octet).count true := by
      rw [bitsOf, List.count, List.countP_map]
      exact List.countP_congr fun index _ => by simp
    rw [List.foldl_cons, inductionHypothesis, ones, ones, List.flatMap_cons, List.count_append,
      ← counted]
    change IPv4SubnetMask.countOnes octet 8 128 length = _ at first
    rw [first]
    push_cast
    omega

theorem toPrefix_eq_ones (mask : IPv4SubnetMask) : mask.toPrefix = ones mask.data.toList := by
  rw [IPv4SubnetMask.toPrefix, foldl_countOnes, Int.zero_add]

/-! ## Reading the list -/

/-- No pointer that is looked into is null, and the name has room in `ifrn_name`. -/
def Readable (entry : IfAddrs) : Prop :=
  ∃ ifaAddr ∈ entry.ifaAddr,
    ifaAddr.saFamily = afInet → entry.ifaNetmask ≠ none ∧ entry.ifaName.length < ifNameSize

instance (entry : IfAddrs) : Decidable (Readable entry) :=
  inferInstanceAs (Decidable (∃ ifaAddr ∈ entry.ifaAddr,
    ifaAddr.saFamily = afInet → entry.ifaNetmask ≠ none ∧ entry.ifaName.length < ifNameSize))

/-- The bytes of `sa_data` that are the hardware address. -/
def hardwareAddress (saData : Vector UInt8 14) : Vector UInt8 macAddressLength :=
  (saData.take macAddressLength).cast (by decide)

theorem toList_hardwareAddress (saData : Vector UInt8 14) :
    (hardwareAddress saData).toList = saData.toList.take macAddressLength := by
  rw [hardwareAddress, Vector.toList_cast, Vector.toList_take]

/-- What the kernel knows of an IPv4 interface, all octets in network order. -/
structure Configured where
  name : List Char
  address : Vector UInt8 ipV4AddressLength
  netmask : Vector UInt8 ipV4SubnetMaskLength
  mac : Vector UInt8 macAddressLength
deriving DecidableEq, Repr

/-- The IPv4 interface that an entry is about. -/
def configured (entry : IfAddrs) : Option Configured :=
  match entry.ifaAddr, entry.ifaNetmask with
  | some ifaAddr, some ifaNetmask =>
    if ifaAddr.saFamily = afInet then
      some ⟨entry.ifaName, ifaAddr.sAddr, ifaNetmask.sAddr, hardwareAddress entry.saData⟩
    else none
  | _, _ => none

/-- The line of an interface. -/
def Configured.line (interface : Configured) : List Char :=
  interface.name ++ ": ".toList ++ octetsToString interface.address ++ "/".toList ++
    (ones interface.netmask.toList).repr.toList ++ "  ".toList ++
    [':'].intercalate (interface.mac.toList.map MacAddress.hexByte) ++ ['\n']

/-- The interface as the program keeps it. -/
def Configured.networkInterface (interface : Configured) : NetworkInterface where
  name := interface.name
  networkAddress := ⟨interface.address⟩
  subnetMask := ⟨interface.netmask⟩
  type := .ipV4
  macAddress := ⟨interface.mac⟩

theorem line_networkInterface (interface : Configured) :
    interface.networkInterface.line = interface.line := by
  rw [NetworkInterface.line, toPrefix_eq_ones]
  rfl

section

variable [Host]

/-- The octets come back in the order in which they lie in memory. -/
theorem ofUInt32_address (sockaddr : SockAddr) :
    IPv4Address.ofUInt32 sockaddr.address = ⟨sockaddr.sAddr⟩ := by
  -- the bytes are swapped on the way in and again on the way out, or never
  ext1
  have octets := hostToNetworkEndianArray_networkArrayToHostEndian sockaddr.sAddr
  rwa [← networkToHostEndianValue_bitCastToInteger] at octets

theorem ofUInt32_netmask (sockaddr : SockAddr) :
    IPv4SubnetMask.ofUInt32 sockaddr.address = ⟨sockaddr.sAddr⟩ := by
  ext1
  have octets := hostToNetworkEndianArray_networkArrayToHostEndian sockaddr.sAddr
  rwa [← networkToHostEndianValue_bitCastToInteger] at octets

omit [Host] in
theorem fromBigEndianBytes_saData (saData : Vector UInt8 14) :
    let macData := saData.toList.take macAddressLength
    MacAddress.fromBigEndianBytes macData 0 macData.length = .ok ⟨hardwareAddress saData⟩ := by
  intro macData
  have length : macData.length = macAddressLength := by
    rw [List.length_take, Vector.length_toList]
    decide
  have enough : 0 + macAddressLength ≤ macData.length := by rw [length, Nat.zero_add]
  obtain ⟨data, filled, bytes⟩ := @fillArray_of_le macAddressLength macData 0 _
    "MAC адрес заполнен не полностью" enough enough
  have same : data = hardwareAddress saData := by
    apply Vector.toList_inj.mp
    rw [bytes, toList_hardwareAddress, List.drop_zero, List.take_take, Nat.min_self]
  rw [MacAddress.fromBigEndianBytes, filled, same]
  rfl

theorem readInterface_eq (entry : IfAddrs) :
    readInterface entry =
      if Readable entry then .ok ((configured entry).map Configured.networkInterface)
      else undefinedBehaviour := by
  obtain ⟨name, address, netmask, saData⟩ := entry
  cases address with
  | none => simp [readInterface, Readable]
  | some ifaAddr =>
    by_cases isInet : ifaAddr.saFamily = afInet
    · cases netmask with
      | none => simp [readInterface, Readable, isInet]
      | some ifaNetmask =>
        by_cases long : name.length ≥ ifNameSize
        · simp [readInterface, Readable, isInet, long, Nat.not_lt.mpr long]
        · have readable : Readable ⟨name, some ifaAddr, some ifaNetmask, saData⟩ :=
            ⟨ifaAddr, rfl, fun _ => ⟨by simp, Nat.not_le.mp long⟩⟩
          rw [if_pos readable]
          simp only [readInterface, isInet, if_true, if_neg long, fromBigEndianBytes_saData,
            ok_bind, ofUInt32_address, ofUInt32_netmask, configured]
          rfl
    · -- an entry of another family is read without its netmask
      cases netmask with
      | none => simp [readInterface, Readable, configured, isInet]
      | some ifaNetmask => simp [readInterface, Readable, configured, isInet]

theorem mapM_readInterface (entries : List IfAddrs) :
    entries.mapM readInterface =
      if ∀ entry ∈ entries, Readable entry then
        .ok (entries.map fun entry => (configured entry).map Configured.networkInterface)
      else undefinedBehaviour := by
  induction entries with
  | nil => simp
  | cons entry entries inductionHypothesis =>
    rw [List.mapM_cons, readInterface_eq, inductionHypothesis]
    simp only [List.forall_mem_cons]
    by_cases readable : Readable entry
    · by_cases rest : ∀ entry ∈ entries, Readable entry
      · rw [if_pos readable, if_pos rest, if_pos ⟨readable, rest⟩]
        rfl
      · have notAll : ¬ (Readable entry ∧ ∀ entry ∈ entries, Readable entry) :=
          fun both => rest both.2
        rw [if_pos readable, if_neg rest, if_neg notAll]
        rfl
    · have notAll : ¬ (Readable entry ∧ ∀ entry ∈ entries, Readable entry) :=
        fun both => readable both.1
      rw [if_neg readable, if_neg notAll]
      rfl

omit [Host] in
theorem reduceOption_configured (entries : List IfAddrs) :
    (entries.map fun entry => (configured entry).map Configured.networkInterface).reduceOption =
      (entries.filterMap configured).map Configured.networkInterface := by
  induction entries with
  | nil => rfl
  | cons entry entries inductionHypothesis =>
    rw [List.map_cons, List.filterMap_cons]
    cases configured entry with
    | none => rw [Option.map_none, List.reduceOption_cons_of_none, inductionHypothesis]
    | some kept =>
      rw [Option.map_some, List.reduceOption_cons_of_some, inductionHypothesis, List.map_cons]

/-- The interfaces that are kept are the IPv4 entries of the list, in its order. -/
theorem getAllInterfaces_eq (calls : InterfaceCalls) (succeeds : calls.getifaddrs = 0) :
    getAllInterfaces calls =
      if ∀ entry ∈ calls.ifaddrs, Readable entry then
        .ok ((calls.ifaddrs.filterMap configured).map Configured.networkInterface)
      else undefinedBehaviour := by
  rw [getAllInterfaces, if_neg (not_not_intro succeeds), mapM_readInterface]
  split
  next => exact congrArg Except.ok (reduceOption_configured calls.ifaddrs)
  next => rfl

/-- What is printed of the interfaces is what the kernel knows of them. -/
theorem interfaces_printed (ifaddrs : List IfAddrs) :
    (getAllInterfaces ⟨0, ifaddrs⟩).map printInterfaces =
      if ∀ entry ∈ ifaddrs, Readable entry then
        .ok ((ifaddrs.filterMap configured).map Configured.line)
      else undefinedBehaviour := by
  rw [getAllInterfaces_eq _ rfl]
  split
  next =>
    refine congrArg Except.ok ?_
    have allInet : ∀ iface ∈ (ifaddrs.filterMap configured).map Configured.networkInterface,
        decide (iface.type = .ipV4) = true := by
      intro iface member
      obtain ⟨interface, _, rfl⟩ := List.mem_map.mp member
      rfl
    rw [printInterfaces, List.filter_eq_self.mpr allInet, List.map_map]
    exact List.map_congr_left fun interface _ => line_networkInterface interface
  next => rfl

end

end Klevret.Verified.Server
