import Klevret.Verified.Options.Constructor

/-! # Which payloads the constructor accepts

Two tests are missing from the constructor.  A payload of variable length need not be made
of whole elements, and is then read past its end (`staysInside_iff`).  The minimal number of
elements is asked of a byte array that is not empty, and of nothing else
(`acceptsDescribed_iff`). -/

namespace Klevret.Verified.Options

open Klevret.Base Klevret.Dhcp

variable [Host] {code : ℤ} {description : DhcpOptionDescription} {payload : List UInt8}

/-! ## Reading inside the range -/

/-- On a range that is all the memory there is the constructor returns or throws, in any
    longer buffer it does the same, and it refuses a range with a broken element. -/
structure StaysInside (code : ℤ) (payload : List UInt8) : Prop where
  ends : Returns (optionOf code payload) ∨ Throws (optionOf code payload)
  framed : ∀ before after,
    DhcpOption.construct code payload.length (before ++ payload ++ after) before.length
      (before.length + payload.length) = optionOf code payload
  refuses : ∀ description, optionsDescriptions.lookup code = some description →
    description.payloadDescription.type.isElement →
    ¬ description.payloadDescription.elementSize ∣ payload.length →
    Throws (optionOf code payload)

omit [Host] in
/-- A payload of variable length that is read element by element has no broken element. -/
def ListsWhole (code : ℤ) (payload : List UInt8) : Prop :=
  ∀ description, optionsDescriptions.lookup code = some description →
    description.payloadLength = variableDhcpOptionLength →
    description.payloadDescription.type.isElement →
    description.payloadDescription.elementSize ∣ payload.length

omit [Host] in
/-- The length test leaves an option of fixed length one whole element. -/
theorem ListsWhole.whole (listsWhole : ListsWhole code payload)
    (admits : Admits code payload.length description) :
    WholeElements description.payloadDescription payload.length := by
  intro repeats
  by_cases variableLength : description.payloadLength = variableDhcpOptionLength
  · exact listsWhole description admits.found variableLength repeats
  · have oneElement := (rowSound admits.found).oneElement variableLength admits.payloaded
    have fits := admits.fits.resolve_left variableLength
    have length : payload.length = description.payloadDescription.elementSize := by omega
    rw [length]

theorem optionOf_framed (listsWhole : ListsWhole code payload) (before after : List UInt8) :
    DhcpOption.construct code payload.length (before ++ payload ++ after) before.length
      (before.length + payload.length) = optionOf code payload := by
  by_cases admitted : ∃ description, Admits code payload.length description
  · obtain ⟨description, admits⟩ := admitted
    exact construct_framed admits (listsWhole.whole admits) before after
  · obtain ⟨exception, refusal⟩ := refusal_of_not_admits (not_exists.mp admitted)
    rw [refusal, optionOf, refusal]

/-- A whole payload of an admitting description makes an option if its values are allowed. -/
theorem returns_optionOf_iff (admits : Admits code payload.length description)
    (whole : WholeElements description.payloadDescription payload.length) :
    Returns (optionOf code payload) ↔ payloadAllowed description.payloadDescription payload := by
  constructor
  · intro returns
    by_contra refused
    exact (optionOf_refused admits whole refused).not_returns returns
  · intro allowed
    exact optionOf_accepted ⟨description, admits, whole, allowed⟩

theorem returns_or_throws_optionOf (listsWhole : ListsWhole code payload) :
    Returns (optionOf code payload) ∨ Throws (optionOf code payload) := by
  by_cases admitted : ∃ description, Admits code payload.length description
  · obtain ⟨description, admits⟩ := admitted
    have whole := listsWhole.whole admits
    by_cases allowed : payloadAllowed description.payloadDescription payload
    · exact Or.inl ((returns_optionOf_iff admits whole).mpr allowed)
    · exact Or.inr (optionOf_refused admits whole allowed)
  · exact Or.inr (construct_of_not_admits (not_exists.mp admitted) _)

theorem throws_of_broken (listsWhole : ListsWhole code payload)
    (found : optionsDescriptions.lookup code = some description)
    (repeats : description.payloadDescription.type.isElement)
    (broken : ¬ description.payloadDescription.elementSize ∣ payload.length) :
    Throws (optionOf code payload) := by
  apply construct_of_not_admits
  intro other admits
  have same : other = description := Option.some.inj (admits.found.symm.trans found)
  subst same
  exact broken (listsWhole.whole admits repeats)

theorem listsWhole_of_staysInside (inside : StaysInside code payload) :
    ListsWhole code payload := by
  intro description found variableLength repeats
  by_contra broken
  have payloaded : description.payloadDescription.type ≠ .none := by
    intro none
    rw [none] at repeats
    cases repeats
  -- the read past the end is undefined, and undefined is not refused
  have beyond := construct_beyond ⟨found, Or.inl variableLength, payloaded⟩
    (Nat.zero_le payload.length) (fun wholeInside => broken (wholeInside.1 repeats))
  have throws := inside.refuses description found repeats broken
  rw [Nat.zero_add, ← optionOf] at beyond
  exact throws.defined beyond

theorem staysInside_iff (code : ℤ) (payload : List UInt8) :
    StaysInside code payload ↔ ListsWhole code payload :=
  ⟨listsWhole_of_staysInside, fun listsWhole =>
    ⟨returns_or_throws_optionOf listsWhole, optionOf_framed listsWhole,
      fun _ => throws_of_broken listsWhole⟩⟩

omit [Host] in
/-- An address list of five bytes is read past its end. -/
theorem not_staysInside_of_five :
    ¬ @StaysInside littleEndianHost 3 [192, 168, 1, 1, 192] := by
  intro inside
  have whole := @listsWhole_of_staysInside littleEndianHost _ _ inside _ rfl rfl rfl
  revert whole
  decide

/-! ## Descriptions and payloads -/

omit [Host] in
/-- How many elements a payload has.  What is read at once is counted in bytes. -/
def elementCount (description : DhcpOptionPayloadDescription) (length : ℕ) : ℕ :=
  if description.type.isElement then length / description.elementSize else length

omit [Host] in
/-- What the description of an option asks of a payload. -/
structure Describes (description : DhcpOptionDescription) (payload : List UInt8) : Prop where
  fixedLength : description.payloadLength ≠ variableDhcpOptionLength →
    description.payloadLength = payload.length
  minLen : description.payloadLength = variableDhcpOptionLength →
    description.payloadDescription.minLenInElements ≤
      elementCount description.payloadDescription payload.length
  constraint : description.payloadDescription.type.isElement →
    ∀ element ∈ pieces description.payloadDescription.elementSize payload,
      elementAllowed description.payloadDescription element

/-- The constructor returns for the payloads that are described and throws for all others. -/
structure AcceptsDescribed (code : ℤ) (description : DhcpOptionDescription)
    (payload : List UInt8) : Prop where
  accepts : Returns (optionOf code payload) ↔ Describes description payload
  refuses : ¬ Describes description payload → Throws (optionOf code payload)

omit [Host] in
/-- A payload of variable length has the elements it needs, or is a byte array, whose
    length is tested unless it is empty. -/
def MinimumMet (description : DhcpOptionDescription) (payload : List UInt8) : Prop :=
  description.payloadLength = variableDhcpOptionLength →
    description.payloadDescription.minLenInElements ≤
      elementCount description.payloadDescription payload.length ∨
    description.payloadDescription.type = .byteArray ∧ payload ≠ []

section Described

variable (row : RowSound code description)
  (payloaded : description.payloadDescription.type ≠ .none)

omit [Host]

include row payloaded

theorem allowed_iff_of_fixed (fixed : description.payloadLength ≠ variableDhcpOptionLength)
    (sameLength : description.payloadLength = payload.length) :
    payloadAllowed description.payloadDescription payload ↔ Describes description payload := by
  have repeats := (row.oneElement fixed payloaded).1
  rw [payloadAllowed_of_repeats repeats, List.all_eq_true]
  constructor
  · intro allowed
    exact ⟨fun _ => sameLength, fun variableLength => absurd variableLength fixed,
      fun _ => allowed⟩
  · intro describes
    exact describes.constraint repeats

omit payloaded in
/-- No description of variable length has a constraint. -/
theorem describes_iff_of_variable
    (variableLength : description.payloadLength = variableDhcpOptionLength) :
    Describes description payload ↔ description.payloadDescription.minLenInElements ≤
      elementCount description.payloadDescription payload.length := by
  constructor
  · intro describes
    exact describes.minLen variableLength
  · intro enough
    exact ⟨fun fixed => absurd variableLength fixed, fun _ => enough,
      fun _ _ _ => elementAllowed_of_unconstrained (row.unconstrained variableLength)⟩

theorem allowed_iff_of_variable
    (variableLength : description.payloadLength = variableDhcpOptionLength) :
    payloadAllowed description.payloadDescription payload ↔
      (description.payloadDescription.type = .byteArray → payload ≠ [] →
        description.payloadDescription.minLenInElements ≤ payload.length) := by
  by_cases repeats : description.payloadDescription.type.isElement
  · refine iff_of_true ?_ ?_
    · rw [payloadAllowed_of_repeats repeats, List.all_eq_true]
      intro element _
      exact elementAllowed_of_unconstrained (row.unconstrained variableLength)
    · intro isByteArray
      rw [isByteArray] at repeats
      cases repeats
  · -- what is read at once is not read at all when it is empty
    by_cases empty : payload = []
    · subst empty
      exact iff_of_true (payloadAllowed_nil payloaded) fun _ nonempty => absurd rfl nonempty
    · rw [payloadAllowed_of_atOnce repeats payloaded empty, not_and, Int.not_lt]
      exact ⟨fun enough isByteArray _ => enough isByteArray,
        fun enough isByteArray => enough isByteArray empty⟩

/-- Where the length fits, what the constructor asks of the values is what the description
    asks of the payload, but for the minimum. -/
theorem allowed_iff_describes (fits : description.payloadLength = variableDhcpOptionLength ∨
      description.payloadLength = payload.length) :
    (payloadAllowed description.payloadDescription payload ↔ Describes description payload) ↔
      MinimumMet description payload := by
  by_cases variableLength : description.payloadLength = variableDhcpOptionLength
  · rw [allowed_iff_of_variable row payloaded variableLength,
      describes_iff_of_variable row variableLength]
    constructor
    · intro agree _
      -- outside of byte arrays the minimum is asked of nobody, so agreement means it is met
      by_cases tested : description.payloadDescription.type = .byteArray ∧ payload ≠ []
      · exact Or.inr tested
      · exact Or.inl (agree.mp fun isByteArray nonempty => absurd ⟨isByteArray, nonempty⟩ tested)
    · intro met
      constructor
      · intro allowed
        obtain enough | ⟨isByteArray, nonempty⟩ := met variableLength
        · exact enough
        · rw [elementCount, isByteArray]
          exact allowed isByteArray nonempty
      · intro enough isByteArray _
        rwa [elementCount, isByteArray] at enough
  · have sameLength := fits.resolve_left variableLength
    exact iff_of_true (allowed_iff_of_fixed row payloaded variableLength sameLength)
      fun isVariable => absurd isVariable variableLength

end Described

theorem acceptsDescribed_of_not_fits (found : optionsDescriptions.lookup code = some description)
    (misfits : ¬ (description.payloadLength = variableDhcpOptionLength ∨
      description.payloadLength = payload.length)) :
    AcceptsDescribed code description payload := by
  have throws : Throws (optionOf code payload) := by
    apply construct_of_not_admits
    intro other admits
    have same : other = description := Option.some.inj (admits.found.symm.trans found)
    exact misfits (same ▸ admits.fits)
  refine ⟨iff_of_false throws.not_returns ?_, fun _ => throws⟩
  intro describes
  rw [not_or] at misfits
  exact misfits.2 (describes.fixedLength misfits.1)

/-- The constructor follows the description except for the minimal number of elements. -/
theorem acceptsDescribed_iff (found : optionsDescriptions.lookup code = some description)
    (payloaded : description.payloadDescription.type ≠ .none)
    (whole : WholeElements description.payloadDescription payload.length) :
    AcceptsDescribed code description payload ↔ MinimumMet description payload := by
  by_cases fits : description.payloadLength = variableDhcpOptionLength ∨
      description.payloadLength = payload.length
  · have admits : Admits code payload.length description := ⟨found, fits, payloaded⟩
    have returns := returns_optionOf_iff admits whole
    rw [← allowed_iff_describes (rowSound found) payloaded fits, ← returns]
    constructor
    · intro accepts
      exact accepts.accepts
    · intro agree
      refine ⟨agree, ?_⟩
      intro notDescribed
      exact optionOf_refused admits whole fun allowed =>
        notDescribed (agree.mp (returns.mpr allowed))
  · have minimum : MinimumMet description payload := fun variableLength =>
      absurd (Or.inl variableLength) fits
    exact iff_of_true (acceptsDescribed_of_not_fits found fits) minimum

omit [Host] in
/-- The row of the router option. -/
def routerDescription : DhcpOptionDescription :=
  ⟨3, variableDhcpOptionLength, ⟨.ipAddress, true, 1, noConstraint⟩⟩

omit [Host] in
theorem acceptsDescribed_iff_sample :
    @AcceptsDescribed littleEndianHost 3 routerDescription [192, 168, 1, 1] ↔
      MinimumMet routerDescription [192, 168, 1, 1] :=
  @acceptsDescribed_iff littleEndianHost 3 routerDescription [192, 168, 1, 1] rfl (by decide)
    fun _ => ⟨1, rfl⟩

omit [Host] in
/-- A router option without a router is accepted. -/
theorem empty_router_accepted : ¬ @AcceptsDescribed littleEndianHost 3 routerDescription [] := by
  intro accepts
  have returns := (@returns_optionOf_iff littleEndianHost 3 routerDescription []
    ⟨rfl, Or.inl rfl, by decide⟩ fun _ => ⟨0, rfl⟩).mpr rfl
  have described := (@AcceptsDescribed.accepts littleEndianHost _ _ _ accepts).mp returns
  have enough := described.minLen rfl
  revert enough
  decide

end Klevret.Verified.Options
