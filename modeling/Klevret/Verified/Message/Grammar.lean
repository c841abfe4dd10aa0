import Klevret.Verified.Message.Datagram

/-! # The datagrams that are accepted

`WellFormed` is the grammar of a whole datagram: a header, and behind it either
nothing that matters or the magic cookie and an area of accepted items.  It is what
`DhcpMessage(data)` accepts, and it names the bytes that a message is made of. -/

namespace Klevret.Verified.Message

open Klevret.Base Klevret.Dhcp DhcpMessage Klevret.Verified.Options

inductive WellFormed : List UInt8 → Header → List (UInt8 × List UInt8) → Prop where
  | bare {header : Header} {rest : List UInt8}
      (ethernet : header.htype = HardwareAddressType.ethernet10Mb) (short : rest.length < 4) :
      WellFormed (header.bytes ++ rest) header []
  | withOptions {header : Header} {area : List UInt8} {items : List (UInt8 × List UInt8)}
      (ethernet : header.htype = HardwareAddressType.ethernet10Mb)
      (spelled : OptionArea area items) (accepted : ∀ item ∈ items, Accepted item.1.toNat item.2) :
      WellFormed (header.bytes ++ magicCookie ++ area) header items

variable [Host] {data : List UInt8} {header : Header} {items : List (UInt8 × List UInt8)}

omit [Host] in
theorem WellFormed.accepted (wellFormed : WellFormed data header items) :
    ∀ item ∈ items, Accepted item.1.toNat item.2 := by
  cases wellFormed with
  | bare ethernet short => exact nofun
  | withOptions ethernet spelled accepted => exact accepted

theorem optionsOf_accepted (accepted : ∀ item ∈ items, Accepted item.1.toNat item.2) :
    ∃ options, optionsOf items = .ok options := by
  induction items with
  | nil => exact ⟨[], rfl⟩
  | cons item items inductionHypothesis =>
    obtain ⟨itemAccepted, restAccepted⟩ := List.forall_mem_cons.mp accepted
    obtain ⟨option, made⟩ := optionOf_accepted itemAccepted
    obtain ⟨options, restMade⟩ := inductionHypothesis restAccepted
    exact ⟨option :: options, by rw [optionsOf_cons, made, ok_bind, restMade]; rfl⟩

/-- A well-formed datagram is read as its header and the options of its items. -/
theorem WellFormed.decoded (wellFormed : WellFormed data header items) :
    ∃ options, optionsOf items = .ok options ∧
      ofData data = .ok { header.message with options } := by
  obtain ⟨options, made⟩ := optionsOf_accepted wellFormed.accepted
  refine ⟨options, made, ?_⟩
  cases wellFormed with
  | bare ethernet short =>
    have noOptions : [] = options := Except.ok.inj made
    rw [ofData_header header short ethernet, ← noOptions]
    rfl
  | withOptions ethernet spelled accepted =>
    rw [ofData_bytes header _ ethernet, readOptions_of_area spelled accepted, made]
    rfl

/-- Whatever is decoded is well formed. -/
theorem wellFormed_of_returns (returned : Returns (ofData data)) :
    ∃ header items, WellFormed data header items := by
  -- only a datagram with an option area can be refused behind its header
  by_cases has : HasOptionArea data
  · obtain ⟨header, split, ethernet⟩ := has.split
    rw [split, ofData_bytes header _ ethernet] at returned
    obtain ⟨message, returned⟩ := returned
    obtain ⟨options, read, _⟩ := bind_eq_ok.mp returned
    obtain ⟨items, spelled, accepted⟩ := area_of_readOptions _ ⟨options, read⟩
    rw [split]
    exact ⟨header, items, .withOptions ethernet spelled accepted⟩
  · obtain ⟨header, rest, rfl, short, ethernet⟩ | refused := bare_or_refused has
    · exact ⟨header, [], .bare ethernet short⟩
    · exact absurd returned refused.not_returns

/-- A decoded message is made of the header and the items of its datagram. -/
theorem wellFormed_of_decoded {message : DhcpMessage} (decoded : ofData data = .ok message) :
    ∃ header items, WellFormed data header items ∧ optionsOf items = .ok message.options ∧
      message = { header.message with options := message.options } := by
  obtain ⟨header, items, wellFormed⟩ := wellFormed_of_returns ⟨message, decoded⟩
  obtain ⟨options, made, decodedToo⟩ := wellFormed.decoded
  rw [decoded] at decodedToo
  cases decodedToo
  exact ⟨header, items, wellFormed, made, rfl⟩

/-! ## What of an option area decides the result -/

theorem accepted_of_optionsOf {options : List DhcpOption} (made : optionsOf items = .ok options) :
    ∀ item ∈ items, Accepted item.1.toNat item.2 := by
  induction items generalizing options with
  | nil => exact List.forall_mem_nil _
  | cons item items inductionHypothesis =>
    rw [optionsOf_cons] at made
    obtain ⟨option, itemMade, restMade⟩ := bind_eq_ok.mp made
    obtain ⟨restOptions, restMade, -⟩ := bind_eq_ok.mp restMade
    exact List.forall_mem_cons.mpr ⟨accepted_of_optionOf itemMade, inductionHypothesis restMade⟩

/-- A header that is accepted alone, split into its fields. -/
theorem header_of_ofData {headerBytes : List UInt8} {message : DhcpMessage}
    (whole : headerBytes.length = dhcpMessageMinLength)
    (accepted : ofData headerBytes = .ok message) :
    ∃ header : Header, headerBytes = header.bytes ∧
      header.htype = HardwareAddressType.ethernet10Mb ∧
      message = { header.message with options := message.options } := by
  obtain ⟨header, items, wellFormed, -, isMessage⟩ := wellFormed_of_decoded accepted
  cases wellFormed with
  | bare ethernet short =>
    rw [List.length_append, header.length_bytes] at whole
    have nothing := List.eq_nil_of_length_eq_zero (Nat.add_eq_left.mp whole)
    exact ⟨header, by rw [nothing, List.append_nil], ethernet, isMessage⟩
  | withOptions ethernet spelled allAccepted =>
    have cookieLength : magicCookie.length = 4 := rfl
    rw [List.length_append, List.length_append, header.length_bytes, cookieLength] at whole
    omega

/-- Behind an accepted header only the items of the option area matter: not the pads between
    them, and nothing behind the end. -/
theorem ofData_of_optionArea {headerBytes area : List UInt8} {message : DhcpMessage}
    {options : List DhcpOption} (whole : headerBytes.length = dhcpMessageMinLength)
    (accepted : ofData headerBytes = .ok message) (spelled : OptionArea area items)
    (made : optionsOf items = .ok options) :
    ofData (headerBytes ++ magicCookie ++ area) = .ok { message with options } ∧
      ∀ area', OptionArea area' items →
        ofData (headerBytes ++ magicCookie ++ area') =
          ofData (headerBytes ++ magicCookie ++ area) := by
  obtain ⟨header, rfl, ethernet, isMessage⟩ := header_of_ofData whole accepted
  have read : ∀ area, OptionArea area items →
      ofData (header.bytes ++ magicCookie ++ area) = .ok { message with options } := by
    intro area spelled
    rw [ofData_bytes header area ethernet,
      readOptions_of_area spelled (accepted_of_optionsOf made), made, isMessage]
    rfl
  refine ⟨read area spelled, ?_⟩
  intro area' spelled'
  rw [read area' spelled', read area spelled]

omit [Host] in
/-- An Ethernet header with nothing else set. -/
def blankHeader : Header where
  fixed := ⟨#[1, 1, 0, 0, 0, 0, 0, 0, 0, 0, 0, 0], rfl⟩
  ciaddr := ⟨.replicate 4 0⟩
  yiaddr := ⟨.replicate 4 0⟩
  siaddr := ⟨.replicate 4 0⟩
  giaddr := ⟨.replicate 4 0⟩
  mac := ⟨.replicate 6 0⟩
  padding := .replicate 10 0
  sname := .replicate 64 0
  file := .replicate 128 0

omit [Host] in
/-- A DHCPDISCOVER in its option. -/
def discoverOption : DhcpOption :=
  ⟨1, ⟨53, 1, ⟨.uintEnum, false, 0, ⟨.uintEnum, 0, 0, [1, 2, 3, 4, 5, 6, 7, 8]⟩⟩⟩, [.uint8 1]⟩

omit [Host] in
/-- A pad before the option and bytes behind the end. -/
theorem ofData_of_optionArea_sample :
    @ofData littleEndianHost (blankHeader.bytes ++ magicCookie ++ [0, 53, 1, 1, 255, 255, 7]) =
        .ok { blankHeader.message with options := [discoverOption] } ∧
      ∀ area', OptionArea area' [(53, [1])] →
        @ofData littleEndianHost (blankHeader.bytes ++ magicCookie ++ area') =
          @ofData littleEndianHost
            (blankHeader.bytes ++ magicCookie ++ [0, 53, 1, 1, 255, 255, 7]) := by
  have accepted : @ofData littleEndianHost blankHeader.bytes = .ok blankHeader.message := by
    have alone := @ofData_header littleEndianHost blankHeader [] (by decide) rfl
    rwa [List.append_nil] at alone
  have spelled : OptionArea [0, 53, 1, 1, 255, 255, 7] [(53, [1])] :=
    .pad (.item ⟨by decide, by decide⟩ (by decide : [(1 : UInt8)].length = (1 : UInt8).toNat)
      (.ended [255, 7]))
  have made : @optionsOf littleEndianHost [(53, [1])] = .ok [discoverOption] := by
    decide +kernel
  exact @ofData_of_optionArea littleEndianHost _ _ _ _ _ blankHeader.length_bytes accepted
    spelled made

end Klevret.Verified.Message
