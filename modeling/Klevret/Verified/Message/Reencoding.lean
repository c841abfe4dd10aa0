import Mathlib.Tactic.IntervalCases
import Klevret.Verified.Message.Grammar
import Klevret.Verified.Message.RoundTrip
import Klevret.Verified.Options.Wire

/-! # Encoding what was decoded

A decoded datagram is written back with its own header, but the encoder fills
`sname` and `file` with zeros (`headerOf_message`), and it cannot write a flag at
all (`optionsToNetworkData_returns_iff`).  The fixed header survives exactly when
neither matters (`header_survives_iff`). -/

namespace Klevret.Verified.Message

open Klevret.Base Klevret.Dhcp DhcpMessage Klevret.Verified.Options

/-! ## The header -/

/-- The header of a decoded message, as it is written back. -/
def Header.blanked (header : Header) : Header :=
  { header with
    padding := Vector.replicate 10 0
    sname := Vector.replicate 64 0
    file := Vector.replicate 128 0 }

theorem headerOf_message (header : Header) :
    headerOf header.message header.mac = header.blanked := by
  obtain ⟨fixed, ciaddr, yiaddr, siaddr, giaddr, mac, padding, sname, file⟩ := header
  obtain ⟨xid3, xid2, xid1, xid0⟩ :=
    bytes_of_uint32 (rfl : fixed[4].toUInt32 <<< 24 ||| fixed[5].toUInt32 <<< 16
      ||| fixed[6].toUInt32 <<< 8 ||| fixed[7].toUInt32 = _)
  obtain ⟨secs1, secs0⟩ :=
    bytes_of_uint16 (rfl : fixed[8].toUInt16 <<< 8 ||| fixed[9].toUInt16 = _)
  obtain ⟨flags1, flags0⟩ :=
    bytes_of_uint16 (rfl : fixed[10].toUInt16 <<< 8 ||| fixed[11].toUInt16 = _)
  have sameFixed : (headerOf (Header.message ⟨fixed, ciaddr, yiaddr, siaddr, giaddr, mac, padding,
      sname, file⟩) mac).fixed = fixed := by
    refine Vector.ext fun index inside => ?_
    -- the numbers of the message come apart into the bytes they were put together from
    interval_cases index
    exacts [rfl, rfl, rfl, rfl, xid3, xid2, xid1, xid0, secs1, secs0, flags1, flags0]
  exact congrArg (fun fixed => Header.blanked ⟨fixed, ciaddr, yiaddr, siaddr, giaddr, mac, padding,
    sname, file⟩) sameFixed

/-- The fixed headers agree, but for the padding of `chaddr`. -/
def SameHeader (left right : List UInt8) : Prop :=
  ∀ index, index < dhcpMessageMinLength → (index < 34 ∨ 44 ≤ index) → left[index]? = right[index]?

/-- With the same front, only what is behind the padding can differ. -/
theorem sameHeader_iff {front padding tail padding' tail' : List UInt8} (rest rest' : List UInt8)
    (frontLength : front.length = 34) (paddingLength : padding.length = 10)
    (paddingLength' : padding'.length = 10) (tailLength : tail.length = 192)
    (tailLength' : tail'.length = 192) :
    SameHeader (front ++ (padding ++ (tail ++ rest))) (front ++ (padding' ++ (tail' ++ rest'))) ↔
      tail = tail' := by
  have inTail : ∀ (padding tail rest : List UInt8), padding.length = 10 → tail.length = 192 →
      ∀ index, index < 192 →
        (front ++ (padding ++ (tail ++ rest)))[44 + index]? = tail[index]? := by
    intro padding tail rest paddingLength tailLength index inside
    rw [List.getElem?_append_right (by omega), List.getElem?_append_right (by omega),
      List.getElem?_append_left (by omega), frontLength, paddingLength]
    congr 1
    omega
  constructor
  · intro same
    apply List.ext_getElem?
    intro index
    by_cases inside : index < 192
    · rw [← inTail padding tail rest paddingLength tailLength index inside,
        ← inTail padding' tail' rest' paddingLength' tailLength' index inside]
      exact same (44 + index) (by show 44 + index < 236; omega) (Or.inr (Nat.le_add_right _ _))
    · rw [List.getElem?_eq_none (by omega), List.getElem?_eq_none (by omega)]
  · rintro rfl index insideHeader (inFront | behindPadding)
    · rw [List.getElem?_append_left (by omega), List.getElem?_append_left (by omega)]
    · obtain ⟨offset, rfl⟩ := Nat.exists_eq_add_of_le behindPadding
      have inside : offset < 192 := by
        change 44 + offset < 236 at insideHeader
        omega
      rw [inTail padding tail rest paddingLength tailLength offset inside,
        inTail padding' tail rest' paddingLength' tailLength offset inside]

/-- Nothing was written into `sname` and `file`. -/
structure Header.Blank (header : Header) : Prop where
  sname : header.sname = Vector.replicate 64 0
  file : header.file = Vector.replicate 128 0

/-- Everything in front of the padding. -/
def Header.front (header : Header) : List UInt8 :=
  header.fixed.toList ++ header.ciaddr.toNetworkData ++ header.yiaddr.toNetworkData ++
    header.siaddr.toNetworkData ++ header.giaddr.toNetworkData ++ header.mac.data.toList

theorem Header.bytes_append (header : Header) (rest : List UInt8) :
    header.bytes ++ rest =
      header.front ++ (header.padding.toList ++ (header.sname.toList ++ header.file.toList ++ rest)) := by
  simp only [Header.bytes, Header.front, List.append_assoc]

theorem sameHeader_blanked_iff (header : Header) (rest rest' : List UInt8) :
    SameHeader (header.blanked.bytes ++ rest) (header.bytes ++ rest') ↔ header.Blank := by
  have tailLength : ∀ header : Header, (header.sname.toList ++ header.file.toList).length = 192 := by
    intro header
    rw [List.length_append, Vector.length_toList, Vector.length_toList]
  have frontLength : header.front.length = 34 := by
    simp only [Header.front, List.length_append, Vector.length_toList,
      IPv4Address.length_toNetworkData]
    rfl
  have sameFront : header.blanked.front = header.front := rfl
  rw [Header.bytes_append, Header.bytes_append, sameFront,
    sameHeader_iff rest rest' frontLength Vector.length_toList Vector.length_toList
      (tailLength header.blanked) (tailLength header)]
  constructor
  · intro same
    have snameLength : header.blanked.sname.toList.length = header.sname.toList.length := by
      rw [Vector.length_toList, Vector.length_toList]
    obtain ⟨sameSname, sameFile⟩ := List.append_inj same snameLength
    exact ⟨(Vector.toList_inj.mp sameSname).symm, (Vector.toList_inj.mp sameFile).symm⟩
  · rintro ⟨sname, file⟩
    rw [sname, file]
    rfl

/-! ## The options -/

/-- The code of an option that carries a flag. -/
def IsFlagCode (code : UInt8) : Prop :=
  ∃ description, optionsDescriptions.lookup (code.toNat : ℤ) = some description ∧
    description.payloadDescription.type = .flag

section Options

variable [Host] {items : List (UInt8 × List UInt8)} {options : List DhcpOption}

theorem toNetworkData_returns_iff {code : UInt8} {payload : List UInt8} {option : DhcpOption}
    (made : optionOf code.toNat payload = .ok option) :
    Returns option.toNetworkData ↔ ¬ IsFlagCode code := by
  have constructed := constructed_of_optionOf made
  by_cases isFlag : option.description.payloadDescription.type = .flag
  · rw [constructed.toNetworkData_of_flag isFlag]
    refine iff_of_false (not_returns_error _) ?_
    exact not_not.mpr ⟨option.description, constructed.admits.found, isFlag⟩
  · rw [constructed.toNetworkData_of_notFlag isFlag]
    refine iff_of_true (returns_ok _) ?_
    rintro ⟨description, found, isFlagToo⟩
    rw [constructed.admits.found] at found
    cases found
    exact isFlag isFlagToo

/-- Only flags keep the options from being written. -/
theorem optionsToNetworkData_returns_iff (made : optionsOf items = .ok options) :
    Returns (optionsToNetworkData options) ↔ ∀ item ∈ items, ¬ IsFlagCode item.1 := by
  induction items generalizing options with
  | nil =>
    cases made
    exact iff_of_true (returns_ok []) nofun
  | cons item items inductionHypothesis =>
    obtain ⟨code, payload⟩ := item
    rw [optionsOf_cons] at made
    obtain ⟨option, optionMade, rest⟩ := bind_eq_ok.mp made
    obtain ⟨restOptions, restMade, isOptions⟩ := bind_eq_ok.mp rest
    cases isOptions
    have restReturns := inductionHypothesis restMade
    rw [List.forall_mem_cons, ← restReturns, ← toNetworkData_returns_iff optionMade,
      optionsToNetworkData]
    constructor
    · rintro ⟨bytes, returned⟩
      obtain ⟨optionBytes, optionReturned, restBind⟩ := bind_eq_ok.mp returned
      obtain ⟨restBytes, restReturned, _⟩ := bind_eq_ok.mp restBind
      exact ⟨⟨optionBytes, optionReturned⟩, ⟨restBytes, restReturned⟩⟩
    · rintro ⟨⟨optionBytes, optionReturned⟩, ⟨restBytes, restReturned⟩⟩
      rw [optionReturned, ok_bind, restReturned]
      exact returns_ok _

/-! ## The datagram -/

/-- The fixed header of a decoded datagram is written back as it was. -/
def HeaderSurvives (data : List UInt8) : Prop :=
  ∀ message, ofData data = .ok message →
    ∃ written, message.toNetworkData = .ok written ∧ SameHeader written data

/-- Nothing in the datagram is beyond the encoder. -/
structure Reencodable (header : Header) (items : List (UInt8 × List UInt8)) : Prop where
  blank : header.Blank
  noFlag : ∀ item ∈ items, ¬ IsFlagCode item.1

/-- A decoded message is written, if at all, behind its own header. -/
theorem toNetworkData_decoded {header : Header} (made : optionsOf items = .ok options) :
    (Returns ({ header.message with options } : DhcpMessage).toNetworkData ↔
        ∀ item ∈ items, ¬ IsFlagCode item.1) ∧
      ∀ written, ({ header.message with options } : DhcpMessage).toNetworkData = .ok written →
        ∃ rest, written = header.blanked.bytes ++ rest := by
  have headerWritten :
      headerToNetworkData ({ header.message with options } : DhcpMessage) =
        .ok header.blanked.bytes := by
    rw [← headerOf_message]
    exact headerToNetworkData_eq rfl
  rw [toNetworkData, headerWritten, ok_bind, ← optionsToNetworkData_returns_iff made]
  dsimp only
  split
  next empty =>
    rw [List.eq_nil_of_length_eq_zero empty]
    refine ⟨iff_of_true (returns_ok _) (returns_ok _), ?_⟩
    intro written isWritten
    cases isWritten
    exact ⟨[], (List.append_nil _).symm⟩
  next =>
    cases optionsToNetworkData options with
    | error fault =>
      refine ⟨iff_of_false (not_returns_error _) (not_returns_error _), ?_⟩
      intro written impossible
      cases impossible
    | ok optionsData =>
      refine ⟨iff_of_true (returns_ok _) (returns_ok _), ?_⟩
      intro written isWritten
      cases isWritten
      exact ⟨magicCookie ++ optionsData ++ [255], by simp [magicCookie]⟩

/-- The header survives exactly when `sname` and `file` are zeros and no option is a flag. -/
theorem header_survives_iff (data : List UInt8) :
    HeaderSurvives data ↔ ∀ header items, WellFormed data header items → Reencodable header items := by
  have startsWith : ∀ {header items}, WellFormed data header items →
      ∃ rest, data = header.bytes ++ rest := by
    intro header items wellFormed
    cases wellFormed with
    | bare ethernet short => exact ⟨_, rfl⟩
    | withOptions ethernet spelled accepted => exact ⟨_, List.append_assoc _ _ _⟩
  constructor
  · intro survives header items wellFormed
    obtain ⟨options, made, decoded⟩ := wellFormed.decoded
    obtain ⟨written, isWritten, same⟩ := survives _ decoded
    obtain ⟨returns_iff, behindHeader⟩ := toNetworkData_decoded made
    obtain ⟨rest, rfl⟩ := behindHeader written isWritten
    obtain ⟨area, isData⟩ := startsWith wellFormed
    rw [isData] at same
    exact ⟨(sameHeader_blanked_iff header rest area).mp same, returns_iff.mp ⟨_, isWritten⟩⟩
  · intro reencodable message decoded
    obtain ⟨header, items, wellFormed, made, isMessage⟩ := wellFormed_of_decoded decoded
    obtain ⟨blank, noFlag⟩ := reencodable header items wellFormed
    obtain ⟨returns_iff, behindHeader⟩ := toNetworkData_decoded made
    obtain ⟨written, isWritten⟩ := returns_iff.mpr noFlag
    obtain ⟨rest, rfl⟩ := behindHeader written isWritten
    obtain ⟨area, isData⟩ := startsWith wellFormed
    rw [isMessage]
    refine ⟨_, isWritten, ?_⟩
    rw [isData]
    exact (sameHeader_blanked_iff header rest area).mpr blank

end Options

section

attribute [local instance] littleEndianHost

/-- A bare Ethernet header with one byte in `sname`. -/
theorem sname_lost :
    ¬ HeaderSurvives ([1, 1] ++ List.replicate 42 0 ++ [65] ++ List.replicate 191 0) := by
  intro survives
  have reencoded : (do
      let message ← ofData ([1, 1] ++ List.replicate 42 0 ++ [65] ++ List.replicate 191 0)
      message.toNetworkData) = .ok ([1, 1] ++ List.replicate 234 0) := by
    decide +kernel
  obtain ⟨message, decoded, isWritten⟩ := bind_eq_ok.mp reencoded
  obtain ⟨written, isWrittenToo, same⟩ := survives message decoded
  rw [isWritten] at isWrittenToo
  cases isWrittenToo
  exact absurd (same 44 (by decide) (Or.inr (by decide))) (by decide)

end

end Klevret.Verified.Message
