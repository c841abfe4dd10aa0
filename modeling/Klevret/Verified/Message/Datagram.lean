import Klevret.Verified.Message.OptionArea

/-! # Datagrams

The fixed header is 236 bytes of fields at fixed offsets (`readHeader_layout`).
Behind it `ofData` reads the option area, so what it does follows from the
header alone (`HasOptionArea`) and from the grammar of the area. -/

namespace Klevret.Verified.Message

open Klevret.Base Klevret.Dhcp DhcpMessage Klevret.Verified.Options

/-! ## The fixed header -/

/-- The bytes of a header, field by field.  `fixed` is what comes before `ciaddr`. -/
structure Header where
  fixed : Vector UInt8 12
  ciaddr : IPv4Address
  yiaddr : IPv4Address
  siaddr : IPv4Address
  giaddr : IPv4Address
  mac : MacAddress
  padding : Vector UInt8 10
  sname : Vector UInt8 64
  file : Vector UInt8 128

namespace Header

def bytes (header : Header) : List UInt8 :=
  header.fixed.toList ++ header.ciaddr.toNetworkData ++ header.yiaddr.toNetworkData ++
    header.siaddr.toNetworkData ++ header.giaddr.toNetworkData ++ header.mac.data.toList ++
    header.padding.toList ++ header.sname.toList ++ header.file.toList

def op (header : Header) : DhcpMessageType := header.fixed[0]

def htype (header : Header) : HardwareAddressType := header.fixed[1]

def message (header : Header) : DhcpMessage where
  op := header.op
  htype := header.htype
  hlen := header.fixed[2]
  hops := header.fixed[3]
  xid := header.fixed[4].toUInt32 <<< 24 ||| header.fixed[5].toUInt32 <<< 16
    ||| header.fixed[6].toUInt32 <<< 8 ||| header.fixed[7].toUInt32
  secs := header.fixed[8].toUInt16 <<< 8 ||| header.fixed[9].toUInt16
  flags := header.fixed[10].toUInt16 <<< 8 ||| header.fixed[11].toUInt16
  ciaddr := header.ciaddr
  yiaddr := header.yiaddr
  siaddr := header.siaddr
  giaddr := header.giaddr
  chaddr := some header.mac
  sname := header.sname.toList
  file := header.file.toList
  options := []

theorem length_bytes (header : Header) : header.bytes.length = dhcpMessageMinLength := by
  simp only [bytes, List.length_append, Vector.length_toList, IPv4Address.length_toNetworkData]
  rfl

end Header

section Fields

variable {data : List UInt8} {offset : ℕ}

theorem addressAt (before : List UInt8) {address : IPv4Address}
    (isPrefix : before ++ address.toNetworkData <+: data) (here : before.length = offset) :
    IPv4Address.fromBigEndianBytes data offset (offset + ipV4AddressLength) = .ok address := by
  obtain ⟨after, rfl⟩ := isPrefix
  subst here
  rw [IPv4Address.fromBigEndianBytes, IPv4Address.toNetworkData, fillArray_field]
  rfl

theorem macAt (before : List UInt8) {mac : MacAddress}
    (isPrefix : before ++ mac.data.toList <+: data) (here : before.length = offset) :
    MacAddress.fromBigEndianBytes data offset (offset + macAddressLength) = .ok mac := by
  obtain ⟨after, rfl⟩ := isPrefix
  subst here
  rw [MacAddress.fromBigEndianBytes, fillArray_field]
  rfl

theorem bytesAt (before : List UInt8) {count : ℕ} {field : Vector UInt8 count}
    (isPrefix : before ++ field.toList <+: data) (here : before.length = offset) :
    copyRange data offset count = .ok field.toList := by
  obtain ⟨after, rfl⟩ := isPrefix
  subst here
  have copied := copyRange_field before after field.toList
  rwa [Vector.length_toList] at copied

theorem byteAt {count : ℕ} {fixed : Vector UInt8 count} (isPrefix : fixed.toList <+: data)
    {index : ℕ} (inside : index < count) : checkedAt data index = .ok fixed[index] := by
  obtain ⟨after, rfl⟩ := isPrefix
  have insideList : index < fixed.toList.length := by simpa using inside
  rw [checkedAt, List.getElem?_append_left insideList, List.getElem?_eq_getElem insideList]
  rfl

end Fields

theorem Header.htype_at (header : Header) (area : List UInt8) :
    (header.bytes ++ area)[1]? = some header.htype := by
  have isPrefix : header.fixed.toList <+: header.bytes ++ area := by simp [Header.bytes]
  have read := byteAt isPrefix (by decide : 1 < 12)
  rw [checkedAt] at read
  split at read
  next byte found =>
    rw [found]
    exact congrArg some (Except.ok.inj read)
  next => cases read

/-- A header is read field by field. -/
theorem readHeader_bytes (header : Header) (area : List UInt8) :
    readHeader (header.bytes ++ area) =
      if header.htype ≠ HardwareAddressType.ethernet10Mb then
        throwRuntimeError "Неподдерживаемый тип адреса"
      else .ok header.message := by
  obtain ⟨fixed, ciaddr, yiaddr, siaddr, giaddr, mac, padding, sname, file⟩ := header
  have long : ¬ (Header.bytes ⟨fixed, ciaddr, yiaddr, siaddr, giaddr, mac, padding, sname, file⟩ ++
      area).length < dhcpMessageMinLength := by
    rw [List.length_append, Header.length_bytes]
    exact Nat.not_lt.mpr (Nat.le_add_right _ _)
  rw [readHeader, if_neg long]
  -- from here on only the prefixes of the datagram matter
  generalize dataEq : Header.bytes ⟨fixed, ciaddr, yiaddr, siaddr, giaddr, mac, padding, sname, file⟩ ++
      area = data
  dsimp only [Header.bytes] at dataEq
  have byteIs : ∀ index (inside : index < 12), checkedAt data index = .ok fixed[index] :=
    fun _ inside => byteAt (by simp [← dataEq]) inside
  have readCiaddr : IPv4Address.fromBigEndianBytes data 12 16 = .ok ciaddr :=
    addressAt fixed.toList (by simp [← dataEq]) (by simp)
  have readYiaddr : IPv4Address.fromBigEndianBytes data 16 20 = .ok yiaddr :=
    addressAt (fixed.toList ++ ciaddr.toNetworkData) (by simp [← dataEq])
      (by simp [ipV4AddressLength])
  have readSiaddr : IPv4Address.fromBigEndianBytes data 20 24 = .ok siaddr :=
    addressAt (fixed.toList ++ ciaddr.toNetworkData ++ yiaddr.toNetworkData)
      (by simp [← dataEq]) (by simp [ipV4AddressLength])
  have readGiaddr : IPv4Address.fromBigEndianBytes data 24 28 = .ok giaddr :=
    addressAt (fixed.toList ++ ciaddr.toNetworkData ++ yiaddr.toNetworkData ++
      siaddr.toNetworkData) (by simp [← dataEq]) (by simp [ipV4AddressLength])
  have readMac : MacAddress.fromBigEndianBytes data 28 (28 + macAddressLength) = .ok mac :=
    macAt (fixed.toList ++ ciaddr.toNetworkData ++ yiaddr.toNetworkData ++ siaddr.toNetworkData ++
      giaddr.toNetworkData) (by simp [← dataEq]) (by simp [ipV4AddressLength])
  have readSname : copyRange data 44 64 = .ok sname.toList :=
    bytesAt (fixed.toList ++ ciaddr.toNetworkData ++ yiaddr.toNetworkData ++
      siaddr.toNetworkData ++ giaddr.toNetworkData ++ mac.data.toList ++ padding.toList)
      (by simp [← dataEq]) (by
        simp only [List.length_append, Vector.length_toList, IPv4Address.length_toNetworkData]
        rfl)
  have readFile : copyRange data 108 128 = .ok file.toList :=
    bytesAt (fixed.toList ++ ciaddr.toNetworkData ++ yiaddr.toNetworkData ++
      siaddr.toNetworkData ++ giaddr.toNetworkData ++ mac.data.toList ++ padding.toList ++
      sname.toList) (by simp [← dataEq]) (by
        simp only [List.length_append, Vector.length_toList, IPv4Address.length_toNetworkData]
        rfl)
  simp only [byteIs 0 (by decide), byteIs 1 (by decide), byteIs 2 (by decide),
    byteIs 3 (by decide), byteIs 4 (by decide), byteIs 5 (by decide), byteIs 6 (by decide),
    byteIs 7 (by decide), byteIs 8 (by decide), byteIs 9 (by decide), byteIs 10 (by decide),
    byteIs 11 (by decide), readCiaddr, readYiaddr, readSiaddr, readGiaddr, readMac, readSname,
    readFile, ok_bind, pure_eq_ok]
  rfl

theorem exists_vector {list : List UInt8} {count : ℕ} (enough : count ≤ list.length) :
    ∃ (front : Vector UInt8 count) (back : List UInt8), list = front.toList ++ back := by
  have size : (list.take count).length = count := by
    rw [List.length_take]
    exact Nat.min_eq_left enough
  exact ⟨⟨(list.take count).toArray, size⟩, list.drop count, (List.take_append_drop count list).symm⟩

/-- Every long enough datagram starts with a header. -/
theorem exists_header {data : List UInt8} (long : dhcpMessageMinLength ≤ data.length) :
    ∃ (header : Header) (area : List UInt8), data = header.bytes ++ area := by
  have length : 12 + 4 + 4 + 4 + 4 + 6 + 10 + 64 + 128 ≤ data.length := long
  have macLength : macAddressLength = 6 := rfl
  obtain ⟨fixed, data, rfl⟩ := exists_vector (by omega : 12 ≤ data.length)
  rw [List.length_append, Vector.length_toList] at length
  obtain ⟨ciaddr, data, rfl⟩ := exists_vector (by omega : 4 ≤ data.length)
  rw [List.length_append, Vector.length_toList] at length
  obtain ⟨yiaddr, data, rfl⟩ := exists_vector (by omega : 4 ≤ data.length)
  rw [List.length_append, Vector.length_toList] at length
  obtain ⟨siaddr, data, rfl⟩ := exists_vector (by omega : 4 ≤ data.length)
  rw [List.length_append, Vector.length_toList] at length
  obtain ⟨giaddr, data, rfl⟩ := exists_vector (by omega : 4 ≤ data.length)
  rw [List.length_append, Vector.length_toList] at length
  obtain ⟨mac, data, rfl⟩ := exists_vector (by omega : macAddressLength ≤ data.length)
  rw [List.length_append, Vector.length_toList] at length
  obtain ⟨padding, data, rfl⟩ := exists_vector (by omega : 10 ≤ data.length)
  rw [List.length_append, Vector.length_toList] at length
  obtain ⟨sname, data, rfl⟩ := exists_vector (by omega : 64 ≤ data.length)
  rw [List.length_append, Vector.length_toList] at length
  obtain ⟨file, area, rfl⟩ := exists_vector (by omega : 128 ≤ data.length)
  exact ⟨⟨fixed, ⟨ciaddr⟩, ⟨yiaddr⟩, ⟨siaddr⟩, ⟨giaddr⟩, ⟨mac⟩, padding, sname, file⟩, area,
    by simp [Header.bytes, IPv4Address.toNetworkData]⟩

/-! ## The whole datagram -/

def magicCookie : List UInt8 := [99, 130, 83, 99]

/-- The constructor gets as far as the option loop. -/
structure HasOptionArea (data : List UInt8) : Prop where
  long : dhcpMessageMinLength + 4 ≤ data.length
  ethernet : data[1]? = some HardwareAddressType.ethernet10Mb
  cookie : (data.drop dhcpMessageMinLength).take 4 = magicCookie

/-- What follows the magic cookie. -/
def optionArea (data : List UInt8) : List UInt8 := data.drop (dhcpMessageMinLength + 4)

/-- The datagrams that get to the option loop, split there. -/
theorem HasOptionArea.split {data : List UInt8} (has : HasOptionArea data) :
    ∃ header : Header, data = header.bytes ++ magicCookie ++ optionArea data ∧
      header.htype = HardwareAddressType.ethernet10Mb := by
  obtain ⟨long, ethernet, cookie⟩ := has
  obtain ⟨header, area, rfl⟩ := exists_header (by omega : dhcpMessageMinLength ≤ data.length)
  refine ⟨header, ?_, ?_⟩
  · have skip : (header.bytes ++ area).drop dhcpMessageMinLength = area := by
      rw [← header.length_bytes, List.drop_left]
    rw [skip] at cookie
    rw [optionArea, ← List.drop_drop, skip, List.append_assoc, ← cookie, List.take_append_drop]
  · rw [header.htype_at area] at ethernet
    exact Option.some.inj ethernet

section Datagram

variable [Host]

theorem ofData_bytes (header : Header) (area : List UInt8)
    (ethernet : header.htype = HardwareAddressType.ethernet10Mb) :
    ofData (header.bytes ++ magicCookie ++ area) = (do
      let options ← readOptions (header.bytes ++ magicCookie ++ area)
        (header.bytes ++ magicCookie).length
      return { header.message with options }) := by
  have startLength : (header.bytes ++ magicCookie).length = dhcpMessageMinLength + 4 := by
    rw [List.length_append, header.length_bytes]
    rfl
  have long : ¬ (header.bytes ++ magicCookie ++ area).length < dhcpMessageMinLength + 4 := by
    rw [List.length_append, startLength]
    exact Nat.not_lt.mpr (Nat.le_add_right _ _)
  have cookie : copyRange (header.bytes ++ magicCookie ++ area) dhcpMessageMinLength 4 =
      .ok magicCookie := by
    rw [← header.length_bytes]
    exact copyRange_field header.bytes area magicCookie
  have readHeader : readHeader (header.bytes ++ magicCookie ++ area) = .ok header.message := by
    rw [List.append_assoc, readHeader_bytes, if_neg (not_not.mpr ethernet)]
  rw [ofData, readHeader, ok_bind, if_neg long, cookie, ok_bind, startLength]
  exact if_neg (not_not.mpr rfl)

/-- Where there is no room for the magic cookie the header is all there is. -/
theorem ofData_header (header : Header) {rest : List UInt8} (short : rest.length < 4)
    (ethernet : header.htype = HardwareAddressType.ethernet10Mb) :
    ofData (header.bytes ++ rest) = .ok header.message := by
  have headerRead : readHeader (header.bytes ++ rest) = .ok header.message := by
    rw [readHeader_bytes, if_neg (not_not.mpr ethernet)]
  have noArea : (header.bytes ++ rest).length < dhcpMessageMinLength + 4 := by
    rw [List.length_append, header.length_bytes]
    exact Nat.add_lt_add_left short _
  rw [ofData, headerRead, ok_bind, if_pos noArea]
  rfl

/-- Without an option area the datagram is a header, or it is refused. -/
theorem bare_or_refused {data : List UInt8} (lacks : ¬ HasOptionArea data) :
    (∃ (header : Header) (rest : List UInt8), data = header.bytes ++ rest ∧ rest.length < 4 ∧
      header.htype = HardwareAddressType.ethernet10Mb) ∨ Throws (ofData data) := by
  by_cases tooShort : data.length < dhcpMessageMinLength
  · have refused : Throws (readHeader data) := by
      rw [readHeader, if_pos tooShort]
      exact throws_runtimeError _
    exact Or.inr (refused.bind _)
  obtain ⟨header, area, rfl⟩ := exists_header (Nat.le_of_not_lt tooShort)
  by_cases ethernet : header.htype = HardwareAddressType.ethernet10Mb
  · by_cases noArea : area.length < 4
    · exact Or.inl ⟨header, area, rfl, noArea, ethernet⟩
    · have accepted : readHeader (header.bytes ++ area) = .ok header.message := by
        rw [readHeader_bytes, if_neg (not_not.mpr ethernet)]
      have long : dhcpMessageMinLength + 4 ≤ (header.bytes ++ area).length := by
        rw [List.length_append, header.length_bytes]
        exact Nat.add_le_add_left (Nat.le_of_not_lt noArea) _
      -- the right cookie would start an option area
      have cookie : ((header.bytes ++ area).drop dhcpMessageMinLength).take 4 ≠
          [99, 130, 83, 99] := by
        intro cookie
        exact lacks ⟨long, (header.htype_at area).trans (congrArg some ethernet), cookie⟩
      rw [ofData, accepted, ok_bind, if_neg (Nat.not_lt.mpr long), copyRange_of_le long, ok_bind,
        if_pos cookie]
      exact Or.inr (throws_runtimeError _)
  · have refused : Throws (readHeader (header.bytes ++ area)) := by
      rw [readHeader_bytes, if_pos ethernet]
      exact throws_runtimeError _
    exact Or.inr (refused.bind _)

/-- Otherwise its fate is that of the option area. -/
theorem HasOptionArea.ofData_eq {data : List UInt8} (has : HasOptionArea data) :
    ∃ (header : Header) (before : List UInt8), ofData data = (do
      let options ← readOptions (before ++ optionArea data) before.length
      return { header.message with options }) := by
  obtain ⟨header, split, ethernet⟩ := has.split
  refine ⟨header, header.bytes ++ magicCookie, ?_⟩
  conv_lhs => rw [split]
  exact ofData_bytes header (optionArea data) ethernet

/-! ## Bounds -/

/-- `DhcpMessage(data)` returns or throws without a read outside of `data`, and a
    datagram whose last option is cut off is rejected.  Only bytes that are read count:
    the range of an option that is refused unread may end behind the datagram. -/
structure ReadSafely (data : List UInt8) : Prop where
  answered : Returns (ofData data) ∨ Throws (ofData data)
  cutOffRejected : HasOptionArea data → CutOff (optionArea data) → Throws (ofData data)

/-- A datagram is read safely exactly when its option area, if it has one, is in bounds. -/
theorem readSafely_iff (data : List UInt8) :
    ReadSafely data ↔ (HasOptionArea data → InBounds (optionArea data)) := by
  constructor
  · intro safely has
    obtain ⟨header, before, read⟩ := has.ofData_eq
    rw [← readOptions_defined_iff before]
    -- an undefined option loop makes the constructor undefined
    intro undefinedArea
    rw [undefinedArea] at read
    exact defined_iff.mpr safely.answered read
  · intro inBounds
    by_cases has : HasOptionArea data
    · obtain ⟨header, before, read⟩ := has.ofData_eq
      have defined := (readOptions_defined_iff before).mpr (inBounds has)
      have answered : Returns (ofData data) ∨ Throws (ofData data) := by
        rw [read]
        exact defined_iff.mp (defined_bind defined fun options => ok_ne_undefinedBehaviour _)
      refine ⟨answered, fun _ cutOff => answered.resolve_left ?_⟩
      rw [read]
      exact not_returns_bind (not_returns_of_cutOff cutOff before) _
    · refine ⟨?_, fun hasToo => absurd hasToo has⟩
      obtain ⟨header, rest, rfl, short, ethernet⟩ | refused := bare_or_refused has
      · rw [ofData_header header short ethernet]
        exact Or.inl (returns_ok _)
      · exact Or.inr refused

end Datagram

section

attribute [local instance] littleEndianHost

/-- An Ethernet datagram that ends with the code of its only option. -/
theorem cutOff_read_outside :
    ¬ ReadSafely ([1, 1] ++ List.replicate 234 0 ++ magicCookie ++ [53]) := by
  intro safely
  have undefinedData :
      ofData ([1, 1] ++ List.replicate 234 0 ++ magicCookie ++ [53]) = undefinedBehaviour := by
    decide +kernel
  exact defined_iff.mpr safely.answered undefinedData

end

end Klevret.Verified.Message
