import Klevret.Cli.Command
import Klevret.Verified.Address.Octets

/-! # The three readers of IPv4 addresses

The constructor of the CLI follows the validator of the CLI step by step
(`parseOctets_of_validated`).  The constructor of the DHCP component reads back
every address that the CLI prints (`ofString_toString`). -/

namespace Klevret.Verified.Cli

open Klevret.Base Klevret.Cli

/-! ## The validator and the constructor of the CLI -/

section Constructor

variable {wrap last : WrapperForParsing} {octet : Int32} {octets : List Int32} {missing : ℕ}

/-- A value that the validator lets through. -/
def InRange (octet : Int32) : Prop := 0 ≤ octet.toInt ∧ octet.toInt ≤ 255

theorem inRange_of_passed (passed : ¬ (octet < 0 ∨ octet > 255)) : InRange octet := by
  rw [not_or, Int32.lt_iff_toInt_lt, gt_iff_lt, Int32.lt_iff_toInt_lt] at passed
  exact ⟨Int.not_lt.mp passed.1, Int.not_lt.mp passed.2⟩

theorem toNat_toOctet (inRange : InRange octet) : ((toOctet octet).toNat : ℤ) = octet.toInt := by
  obtain ⟨lower, upper⟩ := inRange
  have nonnegative : 0 ≤ octet := Int32.le_iff_toInt_le.mpr lower
  have clamped : octet.toUInt32.toNat = octet.toInt.toNat :=
    Int32.toNat_toUInt32_of_le nonnegative
  rw [toOctet, UInt32.toNat_toUInt8, clamped]
  omega

theorem readDigits_of_parseNumber (isNumber : parseNumber wrap = .ok (octet, last)) :
    readDigits wrap = (octet, last) := by
  unfold parseNumber at isNumber
  split at isNumber
  next =>
    cases isNumber
    rfl
  next => cases isNumber

theorem checkDot_of_dotted (dotted : ¬ (missing ≠ 0 ∧ wrap.ch ≠ '.')) :
    checkDot wrap missing = .ok (if missing ≠ 0 then wrap.getNext else wrap) := by
  unfold checkDot
  split
  next more =>
    have atDot : wrap.ch = '.' := by
      by_contra notDot
      exact dotted ⟨more, notDot⟩
    rw [Dhcp.WrapperForParsing.check, if_pos atDot]
    rfl
  next => rfl

/-- Where the validator goes on, so does the constructor, with the same octets. -/
theorem parseOctets_of_validated (validated : parseIpV4Octets wrap missing = some (octets, last)) :
    parseOctets wrap missing = .ok (octets.map toOctet, last) ∧ octets.length = missing ∧
      ∀ octet ∈ octets, InRange octet := by
  induction missing generalizing wrap octets with
  | zero =>
    cases validated
    exact ⟨rfl, rfl, List.forall_mem_nil _⟩
  | succ missing inductionHypothesis =>
    rw [parseIpV4Octets] at validated
    split at validated
    next => cases validated
    next octet afterNumber isNumber =>
      split at validated
      next => cases validated
      next passed =>
        split at validated
        next => cases validated
        next dotted =>
          split at validated
          next => cases validated
          next restOctets restLast restValidated =>
            cases validated
            obtain ⟨restParsed, restLength, restInRange⟩ := inductionHypothesis restValidated
            have octetParsed : parseOctet wrap = .ok (octet, afterNumber) := by
              rw [parseOctet, readDigits_of_parseNumber isNumber]
              exact if_neg passed
            refine ⟨?_, by rw [List.length_cons, restLength], ?_⟩
            · simp only [parseOctets, octetParsed, ok_bind, checkDot_of_dotted dotted, restParsed]
              rfl
            · exact List.forall_mem_cons.mpr ⟨inRange_of_passed passed, restInRange⟩

end Constructor

/-! ## Printing and the constructor of the DHCP component -/

/-- The CLI and the DHCP component print an address alike. -/
theorem toString_eq (address : IPv4Address) :
    address.toString = Dhcp.octetsToString address.data := by
  obtain ⟨⟨array, size⟩⟩ := address
  match array, size with
  | ⟨[first, second, third, fourth]⟩, _ =>
    simp [IPv4Address.toString, octetToString, Dhcp.octetsToString, List.intercalate_cons_cons,
      List.intercalate_singleton]

/-- The DHCP component reads every address that the CLI prints. -/
theorem ofString_toString (address : IPv4Address) :
    Dhcp.IPv4Address.ofString address.toString = .ok ⟨address.data⟩ := by
  rw [toString_eq]
  exact Address.ofString_octetsToString address.data

/-! ## The three readers -/

/-- The constructor of the CLI accepts what its validator accepts, with the same octets. -/
theorem ofString_of_validated {s : List Char} {values : List Int32}
    (isValues : ipV4AddressValues s = some values) :
    ∃ address, IPv4Address.ofString s = .ok address ∧
      (address.data.toList.map fun octet => (octet.toNat : ℤ)) = values.map Int32.toInt := by
  unfold ipV4AddressValues at isValues
  split at isValues
  next => cases isValues
  next octets last isOctets =>
    split at isValues
    next atEnd =>
      cases isValues
      obtain ⟨parsed, length, inRange⟩ := parseOctets_of_validated isOctets
      have full : (values.map toOctet).length = 4 := by rw [List.length_map, length]
      refine ⟨⟨⟨(values.map toOctet).toArray, full⟩⟩, ?_, ?_⟩
      · rw [IPv4Address.ofString, parsed, ok_bind]
        exact dif_pos full
      · change ((values.map toOctet).map fun octet => (octet.toNat : ℤ)) = _
        rw [List.map_map]
        exact List.map_congr_left fun octet member => toNat_toOctet (inRange octet member)
    next => cases isValues

/-- The three readers make the same of a text. -/
def ReadersAgree (s : List Char) : Prop :=
  ∃ values address, ipV4AddressValues s = some values ∧ IPv4Address.ofString s = .ok address ∧
    (address.data.toList.map fun octet => (octet.toNat : ℤ)) = values.map Int32.toInt ∧
    Dhcp.IPv4Address.ofString address.toString = .ok ⟨address.data⟩

theorem readers_agree (s : List Char) (accepted : parseIpV4Address s = true) : ReadersAgree s := by
  obtain ⟨values, isValues⟩ := Option.isSome_iff_exists.mp accepted
  obtain ⟨address, isAddress, sameOctets⟩ := ofString_of_validated isValues
  exact ⟨values, address, isValues, isAddress, sameOctets, ofString_toString address⟩

/-- Leading zeros, and a number that is ten modulo `2 ^ 32`. -/
theorem readers_agree_sample : ReadersAgree "007.0.255.4294967306".toList :=
  readers_agree "007.0.255.4294967306".toList (by decide +kernel)

end Klevret.Verified.Cli
