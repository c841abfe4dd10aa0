import Klevret.Verified.Message.Datagram

/-! # Decoding what was encoded

A message is written as a header, which reads back field by field, and an option
area that spells its options (`area_of_options`), so the reader of the grammar
finds the same options again (`ofData_toNetworkData`). -/

namespace Klevret.Verified.Message

open Klevret.Base Klevret.Dhcp DhcpMessage Klevret.Verified.Options

section RoundTrip

variable [Host]

/-- The option comes out of the constructor, for a payload that lies somewhere in a
    buffer, fits the length byte, and has a type that keeps the order of its bytes. -/
def Produced (option : DhcpOption) : Prop :=
  ∃ (code : ℤ) (before payload after : List UInt8),
    DhcpOption.construct code payload.length (before ++ payload ++ after) before.length
      (before.length + payload.length) = .ok option ∧
    payload.length ≤ 255 ∧
    WholeElements option.description.payloadDescription payload.length ∧
    isCopied option.description.payloadDescription.type

/-! ## The option area -/

/-- An option is written as the item it is read from. -/
theorem item_of_produced {option : DhcpOption} (produced : Produced option) :
    ∃ (code length : UInt8) (payload : List UInt8),
      option.toNetworkData = .ok (code :: length :: payload) ∧ IsItemCode code ∧
      payload.length = length.toNat ∧ Accepted code.toNat payload ∧
      optionOf code.toNat payload = .ok option := by
  obtain ⟨code, before, payload, after, constructed, fits, _, copied⟩ := produced
  have alone := optionOf_of_construct constructed
  have accepted := accepted_of_optionOf alone
  have codeRange := accepted.code_range
  have codeByte : ((UInt8.ofInt code).toNat : ℤ) = code := by
    rw [UInt8.ofInt, UInt8.toNat_ofNat']
    omega
  have lengthByte : (UInt8.ofInt payload.length).toNat = payload.length := by
    rw [UInt8.ofInt, UInt8.toNat_ofNat']
    omega
  refine ⟨UInt8.ofInt code, UInt8.ofInt payload.length, payload,
    toNetworkData_of_optionOf alone copied, ⟨?_, ?_⟩, lengthByte.symm, ?_, ?_⟩
  · intro isPad
    rw [isPad] at codeByte
    exact absurd codeByte.symm codeRange.1.ne'
  · intro isEnd
    rw [isEnd] at codeByte
    exact absurd codeByte.symm codeRange.2.ne
  -- the code byte reads back as the code of the option
  · rw [codeByte]
    exact accepted
  · rw [codeByte]
    exact alone

/-- The written options, with the end marker behind them, spell the options. -/
theorem area_of_options {options : List DhcpOption}
    (produced : ∀ option ∈ options, Produced option) :
    ∃ (written : List UInt8) (items : List (UInt8 × List UInt8)),
      optionsToNetworkData options = .ok written ∧ OptionArea (written ++ [255]) items ∧
      (∀ item ∈ items, Accepted item.1.toNat item.2) ∧ optionsOf items = .ok options := by
  induction options with
  | nil => exact ⟨[], [], rfl, .ended [], nofun, rfl⟩
  | cons option options inductionHypothesis =>
    obtain ⟨optionProduced, restProduced⟩ := List.forall_mem_cons.mp produced
    obtain ⟨code, length, payload, optionWritten, isItem, exact, accepted, made⟩ :=
      item_of_produced optionProduced
    obtain ⟨written, items, restWritten, spelled, restAccepted, restMade⟩ :=
      inductionHypothesis restProduced
    refine ⟨code :: length :: (payload ++ written), (code, payload) :: items, ?_, ?_, ?_, ?_⟩
    · rw [optionsToNetworkData, optionWritten, ok_bind, restWritten]
      rfl
    · have area := OptionArea.item isItem exact spelled
      rw [← List.append_assoc] at area
      exact area
    · exact List.forall_mem_cons.mpr ⟨accepted, restAccepted⟩
    · rw [optionsOf_cons, made, ok_bind, restMade]
      rfl

/-! ## The header -/

/-- The header as it is written: `sname` and `file` are left out. -/
def headerOf (message : DhcpMessage) (mac : MacAddress) : Header where
  fixed := #v[message.op, message.htype, message.hlen, message.hops,
    (message.xid >>> 24).toUInt8, ((message.xid >>> 16) &&& 0xFF).toUInt8,
    ((message.xid >>> 8) &&& 0xFF).toUInt8, (message.xid &&& 0xFF).toUInt8,
    ((message.secs >>> 8) &&& 0xFF).toUInt8, (message.secs &&& 0xFF).toUInt8,
    ((message.flags >>> 8) &&& 0xFF).toUInt8, (message.flags &&& 0xFF).toUInt8]
  ciaddr := message.ciaddr
  yiaddr := message.yiaddr
  siaddr := message.siaddr
  giaddr := message.giaddr
  mac
  padding := Vector.replicate 10 0
  sname := Vector.replicate 64 0
  file := Vector.replicate 128 0

omit [Host] in
theorem headerToNetworkData_eq {message : DhcpMessage} {mac : MacAddress}
    (chaddr : message.chaddr = some mac) :
    headerToNetworkData message = .ok (headerOf message mac).bytes := by
  have padding : dhcpHardwareAddressMaxLength - macAddressLength = 10 := rfl
  rw [headerToNetworkData, chaddr]
  simp only [Header.bytes, headerOf, MacAddress.toChaddr, padding, Vector.toList_replicate,
    List.append_assoc]
  rfl

omit [Host] in
theorem message_headerOf {message : DhcpMessage} {mac : MacAddress}
    (chaddr : message.chaddr = some mac) :
    (headerOf message mac).message =
      { message with sname := List.replicate 64 0, file := List.replicate 128 0, options := [] } := by
  conv_rhs =>
    rw [chaddr, ← uint32_of_bytes message.xid, ← uint16_of_bytes message.secs,
      ← uint16_of_bytes message.flags]
  rfl

/-! ## The message -/

/-- An encoded message is decoded to itself, except for `sname` and `file`, which are
    written as zeros. -/
theorem ofData_toNetworkData {message : DhcpMessage} {mac : MacAddress}
    (ethernet : message.htype = HardwareAddressType.ethernet10Mb)
    (chaddr : message.chaddr = some mac)
    (produced : ∀ option ∈ message.options, Produced option) :
    ∃ data, message.toNetworkData = .ok data ∧
      ofData data =
        .ok { message with sname := List.replicate 64 0, file := List.replicate 128 0 } := by
  have headerEthernet : (headerOf message mac).htype = HardwareAddressType.ethernet10Mb :=
    ethernet
  rw [toNetworkData, headerToNetworkData_eq chaddr, ok_bind]
  by_cases empty : message.options.length = 0
  · refine ⟨(headerOf message mac).bytes, if_pos empty, ?_⟩
    have noOptions : message.options = [] := List.eq_nil_of_length_eq_zero empty
    have decoded := ofData_header _ (by decide : ([] : List UInt8).length < 4) headerEthernet
    rw [List.append_nil] at decoded
    rw [decoded, message_headerOf chaddr, noOptions]
  · obtain ⟨written, items, writtenEq, spelled, accepted, made⟩ := area_of_options produced
    refine ⟨(headerOf message mac).bytes ++ magicCookie ++ (written ++ [255]), ?_, ?_⟩
    · rw [if_neg empty, writtenEq, ok_bind, ← List.append_assoc]
      rfl
    · rw [ofData_bytes _ _ headerEthernet, readOptions_of_area spelled accepted, made, ok_bind,
        message_headerOf chaddr]
      rfl

end RoundTrip

section

attribute [local instance] littleEndianHost

/-- A request with the name of its host. -/
def requestMessage : DhcpMessage :=
  { DhcpMessage.new with
    xid := 0x07d0d90d
    chaddr := some ⟨#v[0x38, 0x01, 0x22, 0xe4, 0xb2, 0xa8]⟩
    options := [
      ⟨1, ⟨53, 1, ⟨.uintEnum, false, 0, ⟨.uintEnum, 0, 0, [1, 2, 3, 4, 5, 6, 7, 8]⟩⟩⟩, [.uint8 3]⟩,
      ⟨2, ⟨12, variableDhcpOptionLength, ⟨.string, false, 1, noConstraint⟩⟩,
        [.byteString [0x69, 0x74]]⟩] }

theorem ofData_toNetworkData_sample :
    ∃ data, requestMessage.toNetworkData = .ok data ∧
      ofData data =
        .ok { requestMessage with sname := List.replicate 64 0, file := List.replicate 128 0 } := by
  apply ofData_toNetworkData
  · rfl
  · rfl
  · intro option isOption
    obtain rfl | rfl := List.mem_pair.mp isOption
    · exact ⟨53, [], [3], [], by decide +kernel, by decide, fun _ => ⟨1, rfl⟩, by decide⟩
    · exact ⟨12, [], [0x69, 0x74], [], by decide +kernel, by decide, nofun, by decide⟩

end

end Klevret.Verified.Message
