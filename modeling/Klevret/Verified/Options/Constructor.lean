import Klevret.Verified.Options.Payload

/-! # The constructor of an option

`Accepted` is what the constructor accepts.  A payload that no description admits
is refused before anything is read, an admitted whole one inside the buffer is
read as if it stood alone (`construct_framed`), and any other one is read past
the end of the buffer (`construct_beyond`). -/

namespace Klevret.Verified.Options

open Klevret.Base Klevret.Dhcp

variable [Host] {code : ℤ} {length : ℕ} {description : DhcpOptionDescription}
  {buffer payload : List UInt8} {first : ℕ}

/-- The tests the constructor makes before it reads. -/
structure Admits (code : ℤ) (length : ℕ) (description : DhcpOptionDescription) : Prop where
  found : optionsDescriptions.lookup code = some description
  fits : description.payloadLength = variableDhcpOptionLength ∨ description.payloadLength = length
  payloaded : description.payloadDescription.type ≠ .none

theorem construct_of_admits (admits : Admits code length description) (last : ℕ) :
    DhcpOption.construct code length buffer first last = (do
      let realValues ← processPayload description buffer first last
      return ⟨length, description, realValues⟩) := by
  obtain ⟨found, fits, payloaded⟩ := admits
  have lengthFits : ¬ (description.payloadLength ≠ variableDhcpOptionLength ∧
      description.payloadLength ≠ length) := by
    rintro ⟨fixed, different⟩
    exact fits.elim fixed different
  have realLength : (if description.payloadLength = variableDhcpOptionLength then (length : ℤ)
      else description.payloadLength) = length := by
    split
    next => rfl
    next fixed => exact fits.resolve_left fixed
  rw [DhcpOption.construct, found]
  dsimp only
  rw [if_neg lengthFits, if_neg payloaded, realLength]

/-- Without an admitting description nothing is read, and the memory does not matter. -/
theorem refusal_of_not_admits (refused : ∀ description, ¬ Admits code length description) :
    ∃ exception, ∀ buffer first last,
      DhcpOption.construct code length buffer first last = .error (.thrown exception) := by
  cases found : optionsDescriptions.lookup code with
  | none =>
    refine ⟨.outOfRange, ?_⟩
    intro buffer first last
    rw [DhcpOption.construct, found]
  | some description =>
    by_cases misfits : description.payloadLength ≠ variableDhcpOptionLength ∧
        description.payloadLength ≠ length
    · apply Exists.intro
      intro buffer first last
      rw [DhcpOption.construct, found]
      exact if_pos misfits
    · have fits : description.payloadLength = variableDhcpOptionLength ∨
          description.payloadLength = length := by
        tauto
      have unpayloaded : description.payloadDescription.type = .none := by
        by_contra payloaded
        exact refused description ⟨found, fits, payloaded⟩
      apply Exists.intro
      intro buffer first last
      rw [DhcpOption.construct, found]
      exact (if_neg misfits).trans (if_pos unpayloaded)

theorem construct_of_not_admits (refused : ∀ description, ¬ Admits code length description)
    (last : ℕ) : Throws (DhcpOption.construct code length buffer first last) := by
  obtain ⟨exception, refusal⟩ := refusal_of_not_admits refused
  exact ⟨exception, refusal buffer first last⟩

/-- An admitted payload that is not whole, or not inside the buffer, is read past
    the end of the buffer. -/
theorem construct_beyond (admits : Admits code length description)
    (inside : first ≤ buffer.length)
    (never : ¬ (WholeElements description.payloadDescription length ∧
      first + length ≤ buffer.length)) :
    DhcpOption.construct code length buffer first (first + length) = undefinedBehaviour := by
  have row := rowSound admits.found
  have read : processPayload description buffer first (first + length) = undefinedBehaviour := by
    by_cases repeats : description.payloadDescription.type.isElement
    · by_cases variableLength : description.payloadLength = variableDhcpOptionLength
      · refine processPayload_beyond repeats (row.unconstrained variableLength) inside ?_
        rintro ⟨_, divides, lastInside⟩
        rw [Nat.add_sub_cancel_left] at divides
        exact never ⟨fun _ => divides, lastInside⟩
      -- the one element of a fixed-length option is whole, so it ends outside
      · have size : length = description.payloadDescription.elementSize := by
          have fixed := (row.oneElement variableLength admits.payloaded).2
          have fits := admits.fits.resolve_left variableLength
          omega
        subst size
        have outside : buffer.length < first + description.payloadDescription.elementSize := by
          by_contra notOutside
          exact never ⟨fun _ => Nat.dvd_refl _, Nat.le_of_not_lt notOutside⟩
        have positive := elementSize_pos repeats
        rw [processPayload_element repeats (by omega), processElement_of_lt repeats outside]
        rfl
    · have outside : buffer.length < first + length := by
        by_contra notOutside
        exact never ⟨fun repeatsToo => absurd repeatsToo repeats, Nat.le_of_not_lt notOutside⟩
      rw [processPayload_atOnce repeats admits.payloaded
        (row.variableLength admits.payloaded repeats) row.minLenSmall (by omega),
        Nat.add_sub_cancel_left, copyRange_of_lt (by omega) outside]
      rfl
  rw [construct_of_admits admits, read]
  rfl

/-- The option that is made of a payload that stands alone. -/
def optionOf (code : ℤ) (payload : List UInt8) : Cpp DhcpOption :=
  DhcpOption.construct code payload.length payload 0 payload.length

theorem construct_framed (admits : Admits code payload.length description)
    (whole : WholeElements description.payloadDescription payload.length)
    (before after : List UInt8) :
    DhcpOption.construct code payload.length (before ++ payload ++ after) before.length
        (before.length + payload.length) = optionOf code payload := by
  rw [optionOf, construct_of_admits admits, construct_of_admits admits,
    processPayload_framed (rowSound admits.found) admits.payloaded before after whole]

/-- What is accepted: an admitting description, whole elements, allowed values. -/
def Accepted (code : ℤ) (payload : List UInt8) : Prop :=
  ∃ description, Admits code payload.length description ∧
    WholeElements description.payloadDescription payload.length ∧
    payloadAllowed description.payloadDescription payload

theorem optionOf_accepted (accepted : Accepted code payload) :
    ∃ option, optionOf code payload = .ok option := by
  obtain ⟨description, admits, whole, allowed⟩ := accepted
  obtain ⟨values, reads⟩ := (payload_cases (rowSound admits.found) admits.payloaded whole).1 allowed
  rw [optionOf, construct_of_admits admits, reads.read]
  exact ⟨_, rfl⟩

theorem optionOf_refused (admits : Admits code payload.length description)
    (whole : WholeElements description.payloadDescription payload.length)
    (refused : ¬ payloadAllowed description.payloadDescription payload) :
    Throws (optionOf code payload) := by
  rw [optionOf, construct_of_admits admits]
  exact ((payload_cases (rowSound admits.found) admits.payloaded whole).2 refused).bind _

/-- Only an accepted payload makes an option. -/
theorem accepted_of_optionOf {option : DhcpOption} (constructed : optionOf code payload = .ok option) :
    Accepted code payload := by
  by_contra notAccepted
  by_cases admitted : ∃ description, Admits code payload.length description
  · obtain ⟨description, admits⟩ := admitted
    -- a payload that is not whole would be read past its end
    by_cases whole : WholeElements description.payloadDescription payload.length
    · have refused : ¬ payloadAllowed description.payloadDescription payload := by
        intro allowed
        exact notAccepted ⟨description, admits, whole, allowed⟩
      have throws := optionOf_refused admits whole refused
      rw [constructed] at throws
      exact not_throws_ok option throws
    · have beyond := construct_beyond admits (Nat.zero_le payload.length)
        (fun wholeInside => whole wholeInside.1)
      rw [Nat.zero_add, ← optionOf, constructed] at beyond
      cases beyond
  · have throws : Throws (optionOf code payload) :=
      construct_of_not_admits (not_exists.mp admitted) payload.length
    rw [constructed] at throws
    exact not_throws_ok option throws

/-- Wherever the payload lies, the option is the one it makes alone. -/
theorem optionOf_of_construct {before after : List UInt8} {option : DhcpOption}
    (constructed : DhcpOption.construct code payload.length (before ++ payload ++ after)
      before.length (before.length + payload.length) = .ok option) :
    optionOf code payload = .ok option := by
  by_cases admitted : ∃ description, Admits code payload.length description
  · obtain ⟨description, admits⟩ := admitted
    by_cases whole : WholeElements description.payloadDescription payload.length
    · rw [← constructed, construct_framed admits whole]
    · have inside : before.length ≤ (before ++ payload ++ after).length := by
        simp only [List.length_append]
        omega
      rw [construct_beyond admits inside (fun wholeInside => whole wholeInside.1)] at constructed
      cases constructed
  · have throws : Throws (DhcpOption.construct code payload.length (before ++ payload ++ after)
        before.length (before.length + payload.length)) :=
      construct_of_not_admits (not_exists.mp admitted) _
    rw [constructed] at throws
    exact absurd throws (not_throws_ok option)

omit [Host] in
/-- An accepted code is a byte other than PAD and END. -/
theorem Accepted.code_range (accepted : Accepted code payload) : 0 < code ∧ code < 255 := by
  obtain ⟨description, admits, _, _⟩ := accepted
  have row := rowSound admits.found
  have notPad : code ≠ 0 := fun isPad => admits.payloaded (row.unpayloaded.mpr (Or.inl isPad))
  have notEnd : code ≠ 255 := fun isEnd => admits.payloaded (row.unpayloaded.mpr (Or.inr isEnd))
  have isByte := row.codeIsByte
  omega

/-! ## Writing an option back -/

/-- An option that was constructed from a payload. -/
structure Constructed (code : ℤ) (payload : List UInt8) (option : DhcpOption) : Prop where
  admits : Admits code payload.length option.description
  whole : WholeElements option.description.payloadDescription payload.length
  realLength : option.realPayloadLength = payload.length
  reads : PayloadReads option.description payload option.realValues

theorem constructed_of_optionOf {option : DhcpOption} (made : optionOf code payload = .ok option) :
    Constructed code payload option := by
  obtain ⟨description, admits, whole, allowed⟩ := accepted_of_optionOf made
  obtain ⟨values, reads⟩ := (payload_cases (rowSound admits.found) admits.payloaded whole).1 allowed
  rw [optionOf, construct_of_admits admits, reads.read] at made
  cases made
  exact ⟨admits, whole, rfl, reads⟩

namespace Constructed

variable {option : DhcpOption} (constructed : Constructed code payload option)

include constructed

theorem optionOf_eq : optionOf code payload = .ok option := by
  obtain ⟨realLength, description, values⟩ := option
  obtain ⟨admits, whole, rfl, reads⟩ := constructed
  rw [optionOf, construct_of_admits admits, reads.read]
  rfl

theorem code_eq : option.description.code = code := (rowSound constructed.admits.found).sameCode

theorem code_range : 0 < code ∧ code < 255 :=
  (accepted_of_optionOf constructed.optionOf_eq).code_range

/-- An option is written as its code, its length and its values. -/
theorem toNetworkData_eq :
    option.toNetworkData = (do
      let values ← realValuesToNetworkData option.realValues
      return UInt8.ofInt code :: UInt8.ofInt payload.length :: values) := by
  have codeRange := constructed.code_range
  have sameCode := constructed.code_eq
  have notPad : option.description.code ≠ 0 := by omega
  have notEnd : option.description.code ≠ 255 := by omega
  have lengthByte : (if option.description.payloadLength = variableDhcpOptionLength then
      option.realPayloadLength else option.description.payloadLength) = payload.length := by
    split
    next => exact constructed.realLength
    next fixed => exact constructed.admits.fits.resolve_left fixed
  rw [DhcpOption.toNetworkData, if_neg notPad, if_neg notEnd, lengthByte, sameCode]

end Constructed

/-- The types that keep the order of their bytes are written with their payload. -/
theorem toNetworkData_of_optionOf {option : DhcpOption}
    (made : optionOf code payload = .ok option)
    (copied : isCopied option.description.payloadDescription.type) :
    option.toNetworkData = .ok (UInt8.ofInt code :: UInt8.ofInt payload.length :: payload) := by
  have constructed := constructed_of_optionOf made
  rw [constructed.toNetworkData_eq, constructed.reads.written copied]
  rfl

end Klevret.Verified.Options
