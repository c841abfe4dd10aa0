import Klevret.Verified.Address.Octets

/-! # Addresses in text form

What the constructor of an address makes of an arbitrary text.  Besides the dotted quads
it accepts empty octets, octets that wrap into range and one more character at the end;
the theorem says for which texts none of this matters (`readsDottedQuads_iff`). -/

namespace Klevret.Verified.Address

open Klevret.Base Klevret.Dhcp
open Klevret.Dhcp.WrapperForParsing (EOT ofString)

variable {s text tail : List Char} {runs : List (List Char)} {values : List ℕ}

/-- Four numerals of value at most 255, with one dot between each two and nothing else. -/
def DottedQuad (text : List Char) (values : List ℕ) : Prop :=
  DottedNumerals text values ∧ values.length = 4 ∧ ∀ value ∈ values, value ≤ 255

/-- The runs of a dotted quad. -/
theorem exists_runs_of_dottedQuad (quad : DottedQuad s values) :
    ∃ runs, DottedRuns s runs [] ∧ runs.length = 4 ∧ runs.map numeralValue = values ∧
      ∀ run ∈ runs, run ≠ [] ∧ numeralValue run ≤ 255 := by
  obtain ⟨⟨runs, isRuns, nonempty, rfl⟩, length, small⟩ := quad
  rw [List.length_map] at length
  refine ⟨runs, isRuns, length, rfl, ?_⟩
  intro run member
  exact ⟨nonempty run member, small _ (List.mem_map_of_mem member)⟩

theorem dottedQuad_of_runs (isRuns : DottedRuns s runs []) (length : runs.length = 4)
    (octets : ∀ run ∈ runs, run ≠ [] ∧ numeralValue run ≤ 255) :
    DottedQuad s (runs.map numeralValue) := by
  refine ⟨⟨runs, isRuns, fun run member => (octets run member).1, rfl⟩, ?_, ?_⟩
  · rw [List.length_map, length]
  · intro value member
    obtain ⟨run, isRun, rfl⟩ := List.mem_map.mp member
    exact (octets run isRun).2

theorem ne_nil_of_length_eq_four {α : Type} {list : List α} (length : list.length = 4) :
    list ≠ [] := by
  intro empty
  rw [empty] at length
  cases length

/-! ## The constructor -/

theorem map_toNat_storedOctet (small : ∀ run ∈ runs, numeralValue run ≤ 255) :
    (runs.map storedOctet).map UInt8.toNat = runs.map numeralValue := by
  rw [List.map_map]
  exact List.map_congr_left fun run member => toNat_storedOctet (small run member)

/-- How many bytes the text of the last error has. -/
abbrev unknownCharacterSize : ℕ :=
  "Ошибка парсинга IP-адреса, неизвестный символ: ".utf8ByteSize

section Outcome

variable (isRuns : DottedRuns s runs tail) (length : runs.length = 4)
  (passes : ∀ run ∈ runs, Passes run)

include isRuns length passes

theorem parseOctets_four :
    parseOctets (ofString s) 4 = .ok (runs.map storedOctet, ofString tail.tail) := by
  have parsed := parseOctets_of_runs isRuns (ne_nil_of_length_eq_four length) passes
  rw [length] at parsed
  rw [parsed]
  -- the step after the last octet is taken without a test
  cases tail with
  | nil => rfl
  | cons ch tail => rw [WrapperForParsing.getNext_ofString_cons, List.tail_cons]

theorem ofString_of_end (atEnd : (ofString tail.tail).ch = EOT) :
    ∃ address, IPv4Address.ofString s = .ok address ∧
      address.data.toList = runs.map storedOctet := by
  have full : (runs.map storedOctet).length = 4 := by rw [List.length_map, length]
  refine ⟨⟨⟨(runs.map storedOctet).toArray, full⟩⟩, ?_, rfl⟩
  rw [IPv4Address.ofString, parseOctets_four isRuns length passes, ok_bind]
  dsimp only
  rw [if_neg (not_not_intro atEnd), dif_pos full]
  rfl

theorem ofString_of_not_end (notEnd : (ofString tail.tail).ch ≠ EOT) :
    Throws (IPv4Address.ofString s) ↔ (ofString tail.tail).ch.toNat ≤ unknownCharacterSize := by
  rw [IPv4Address.ofString, parseOctets_four isRuns length passes, ok_bind]
  dsimp only
  rw [if_pos notEnd, throwRuntimeErrorFrom]
  split
  next inside => exact iff_of_true ⟨_, rfl⟩ inside
  next outside => exact iff_of_false not_throws_undefinedBehaviour outside

end Outcome

/-- A text with two characters behind the last octet shows the second of them. -/
theorem ch_ofString_tail_ne_EOT :
    (ofString tail.tail).ch ≠ EOT ↔ ∃ ch next rest, tail = ch :: next :: rest ∧ next ≠ EOT := by
  constructor
  · intro notEnd
    match tail with
    | [] => exact absurd rfl notEnd
    | [ch] => exact absurd rfl notEnd
    | ch :: next :: rest => exact ⟨ch, next, rest, rfl, notEnd⟩
  · rintro ⟨ch, next, rest, rfl, notEnd⟩
    exact notEnd

/-! ## Which texts are read as they should be -/

/-- The constructor gives the octets of every dotted quad and refuses every other text. -/
def ReadsDottedQuads (s : List Char) : Prop :=
  (∀ values, DottedQuad s values → ∃ address, IPv4Address.ofString s = .ok address ∧
    address.data.toList.map UInt8.toNat = values) ∧
  ((∀ values, ¬ DottedQuad s values) → Throws (IPv4Address.ofString s))

/-- Where the text begins with four runs of digits that pass, it is a dotted quad or is
    refused for the second character behind them. -/
def WellRead (s : List Char) : Prop :=
  ∀ runs tail, DottedRuns s runs tail → runs.length = 4 →
    (∀ run ∈ runs, numeralValue run % 2 ^ 64 ≤ 255) →
    (tail = [] ∧ ∀ run ∈ runs, run ≠ [] ∧ numeralValue run ≤ 255) ∨
    ∃ ch next rest, tail = ch :: next :: rest ∧ next ≠ EOT ∧ next.toNat ≤ unknownCharacterSize

theorem wellRead_of_reads (reads : ReadsDottedQuads s) : WellRead s := by
  intro runs tail isRuns length passes
  by_cases isQuad : ∃ values, DottedQuad s values
  · obtain ⟨values, quad⟩ := isQuad
    obtain ⟨runs', isRuns', length', -, octets⟩ := exists_runs_of_dottedQuad quad
    -- four runs can be read in one way, so these are the runs of the quad
    obtain ⟨rfl, rfl⟩ :=
      isRuns.unique isRuns' (ne_nil_of_length_eq_four length) (length.trans length'.symm)
    exact Or.inl ⟨rfl, octets⟩
  · have throws := reads.2 fun values quad => isQuad ⟨values, quad⟩
    -- the runs pass, so it is the test for the end that refuses the text
    have notEnd : (ofString tail.tail).ch ≠ EOT := by
      intro atEnd
      obtain ⟨address, returned, -⟩ := ofString_of_end isRuns length passes atEnd
      rw [returned] at throws
      exact not_throws_ok _ throws
    have inside := (ofString_of_not_end isRuns length passes notEnd).mp throws
    obtain ⟨ch, next, rest, rfl, notMarker⟩ := ch_ofString_tail_ne_EOT.mp notEnd
    exact Or.inr ⟨ch, next, rest, rfl, notMarker, inside⟩

/-- Every dotted quad is read, whatever the condition. -/
theorem ofString_of_dottedQuad (quad : DottedQuad s values) :
    ∃ address, IPv4Address.ofString s = .ok address ∧
      address.data.toList.map UInt8.toNat = values := by
  obtain ⟨runs, isRuns, length, rfl, octets⟩ := exists_runs_of_dottedQuad quad
  have small : ∀ run ∈ runs, numeralValue run ≤ 255 := fun run member => (octets run member).2
  have passes : ∀ run ∈ runs, Passes run := fun run member => passes_of_le (small run member)
  obtain ⟨address, returned, stored⟩ := ofString_of_end isRuns length passes rfl
  exact ⟨address, returned, by rw [stored, map_toNat_storedOctet small]⟩

theorem throws_of_wellRead (wellRead : WellRead s) (noQuad : ∀ values, ¬ DottedQuad s values) :
    Throws (IPv4Address.ofString s) := by
  obtain throws | ⟨runs, tail, isRuns, length, passes⟩ := throws_or_runs_of_parseOctets s 3
  · exact throws.bind _
  obtain ⟨rfl, octets⟩ | ⟨ch, next, rest, rfl, notMarker, inside⟩ :=
    wellRead runs tail isRuns length passes
  · exact absurd (dottedQuad_of_runs isRuns length octets) (noQuad _)
  · exact (ofString_of_not_end isRuns length passes notMarker).mpr inside

theorem readsDottedQuads_iff (s : List Char) : ReadsDottedQuads s ↔ WellRead s :=
  ⟨wellRead_of_reads, fun wellRead =>
    ⟨fun _ => ofString_of_dottedQuad, throws_of_wellRead wellRead⟩⟩

/-- Three dots and no digit are accepted. -/
theorem not_readsDottedQuads_of_dots : ¬ ReadsDottedQuads "...".toList := by
  intro reads
  have isRuns : DottedRuns "...".toList [[], [], [], []] [] := ⟨rfl, by decide, trivial⟩
  obtain ⟨-, octets⟩ | ⟨ch, next, rest, split, -⟩ :=
    wellRead_of_reads reads _ _ isRuns rfl (by decide)
  · exact (octets [] List.mem_cons_self).1 rfl
  · cases split

/-! ## The three forms of an address -/

theorem fromBigEndianBytes_toNetworkData (address : IPv4Address) :
    IPv4Address.fromBigEndianBytes address.toNetworkData 0 address.toNetworkData.length =
      .ok address := by
  have length := address.length_toNetworkData
  obtain ⟨read, isRead, bytes⟩ := IPv4Address.fromBigEndianBytes_of_le
    (Nat.le_of_eq (Nat.zero_add ipV4AddressLength))
    (Nat.le_of_eq ((Nat.zero_add ipV4AddressLength).trans length.symm))
  rw [List.drop_zero, List.take_of_length_le (Nat.le_of_eq length)] at bytes
  have same : read = address := IPv4Address.ext (Vector.toList_inj.mp bytes)
  rw [length, isRead, same]

section Numbers

variable [Host] {address : IPv4Address} {number : UInt32}

theorem ofUInt32_of_bytes (bytes : bigEndianBytes 4 number.toNat = address.toNetworkData) :
    IPv4Address.ofUInt32 number = address := by
  have written : (IPv4Address.ofUInt32 number).data.toList = bigEndianBytes 4 number.toNat :=
    hostToNetworkEndianArray_toList _
  exact IPv4Address.ext (Vector.toList_inj.mp (written.trans bytes))

theorem bytes_toUInt32 (address : IPv4Address) :
    bigEndianBytes 4 address.toUInt32.toNat = address.toNetworkData := by
  have value : address.toUInt32.toNat = bigEndianValue address.toNetworkData :=
    networkArrayToHostEndian_toNat address.data
  have inverse := bigEndianBytes_value address.toNetworkData
  rwa [address.length_toNetworkData, ← value] at inverse

end Numbers

/-- Text, bytes and number denote the same address. -/
theorem forms_agree [Host] (address : IPv4Address) :
    IPv4Address.ofString address.toString = .ok address ∧
      IPv4Address.fromBigEndianBytes address.toNetworkData 0 address.toNetworkData.length =
        .ok address ∧
      ∃ number : UInt32, bigEndianBytes 4 number.toNat = address.toNetworkData ∧
        IPv4Address.ofUInt32 number = address ∧
        ∀ other : UInt32, bigEndianBytes 4 other.toNat = address.toNetworkData →
          other = number := by
  refine ⟨ofString_octetsToString address.data, fromBigEndianBytes_toNetworkData address,
    address.toUInt32, bytes_toUInt32 address, address.ofUInt32_toUInt32, ?_⟩
  intro other bytes
  rw [← ofUInt32_of_bytes bytes, IPv4Address.toUInt32_ofUInt32]

end Klevret.Verified.Address
