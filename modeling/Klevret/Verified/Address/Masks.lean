import Klevret.Verified.Address.Text

/-! # Subnet masks

The constructor from a text checks the octets one by one and stores none of them
(`readsMasks_iff`).  `from_prefix` fills the lowest octet instead of the highest, so that
it recovers the mask `0.0.0.0` only (`recovered_iff`). -/

namespace Klevret.Verified.Address

open Klevret.Base Klevret.Dhcp
open Klevret.Dhcp.WrapperForParsing (EOT ofString)

variable {s text tail : List Char} {run : List Char} {runs : List (List Char)}
  {previous : UInt8} {missing length : ℕ} {values : List ℕ}

/-- The one bits of the mask are its first `length` bits. -/
def LeadingOnes (mask : BitVec 32) (length : ℕ) : Prop :=
  length ≤ 32 ∧ ∀ i < 32, mask.getMsbD i = decide (i < length)

instance (mask : BitVec 32) (length : ℕ) : Decidable (LeadingOnes mask length) :=
  inferInstanceAs (Decidable (_ ∧ _))

/-! ## The loop of the constructor -/

/-- The runs that the loop lets through after an octet `previous`. -/
def MaskRuns : (previous : UInt8) → (runs : List (List Char)) → Prop
  | _, [] => True
  | previous, run :: runs =>
    octetValue run ∈ IPv4SubnetMask.allowedMaskValues ∧ previous = 255 ∧
      MaskRuns (storedOctet run) runs

theorem passes_of_allowed (allowed : octetValue run ∈ IPv4SubnetMask.allowedMaskValues) :
    Passes run := by
  have inRange : (IPv4SubnetMask.allowedMaskValues.all fun value => ¬ value > 255) = true := rfl
  exact passes_iff.mpr (of_decide_eq_true (List.all_eq_true.mp inRange _ allowed))

theorem parseMaskOctets_of_runs (isRuns : DottedRuns text runs tail) (nonempty : runs ≠ [])
    (maskRuns : MaskRuns previous runs) :
    IPv4SubnetMask.parseMaskOctets previous (ofString text) runs.length = .ok (ofString tail) := by
  induction runs generalizing text previous with
  | nil => exact absurd rfl nonempty
  | cons run runs inductionHypothesis =>
    obtain ⟨allowed, atFull, restRuns⟩ := maskRuns
    have passes := passes_of_allowed allowed
    cases runs with
    | nil =>
      obtain ⟨rfl, digits, stops⟩ := dottedRuns_singleton.mp isRuns
      rw [List.length_cons, IPv4SubnetMask.parseMaskOctets,
        parseOctet_of_passes digits stops passes, ok_bind]
      dsimp only
      rw [if_neg (not_not_intro allowed), if_neg (not_not_intro atFull), List.length_nil,
        if_pos rfl]
      rfl
    | cons next runs =>
      obtain ⟨rest, rfl, digits, isRest⟩ := dottedRuns_cons_cons.mp isRuns
      rw [List.length_cons, IPv4SubnetMask.parseMaskOctets,
        parseOctet_of_passes digits (noDigitFirst_dot rest) passes, ok_bind]
      dsimp only
      rw [if_neg (not_not_intro allowed), if_neg (not_not_intro atFull),
        if_neg (by simp), if_neg (by simp), WrapperForParsing.getNext_ofString_cons]
      exact inductionHypothesis isRest (List.cons_ne_nil _ _) restRuns

theorem throws_or_runs_of_parseMaskOctets (previous : UInt8) (text : List Char) (missing : ℕ) :
    Throws (IPv4SubnetMask.parseMaskOctets previous (ofString text) (missing + 1)) ∨
      ∃ runs tail, DottedRuns text runs tail ∧ runs.length = missing + 1 ∧
        MaskRuns previous runs := by
  obtain ⟨run, tail, rfl, digits, stops⟩ := exists_run text
  by_cases passes : Passes run
  · rw [IPv4SubnetMask.parseMaskOctets, parseOctet_of_passes digits stops passes, ok_bind]
    dsimp only
    by_cases allowed : octetValue run ∈ IPv4SubnetMask.allowedMaskValues
    · rw [if_neg (not_not_intro allowed)]
      by_cases atFull : previous = 255
      · rw [if_neg (not_not_intro atFull)]
        -- a dot is asked for behind all octets but the last
        cases missing with
        | zero =>
          exact Or.inr ⟨[run], tail, dottedRuns_singleton.mpr ⟨rfl, digits, stops⟩, rfl,
            allowed, atFull, trivial⟩
        | succ missing =>
          rw [if_neg (Nat.succ_ne_zero missing)]
          by_cases atDot : (ofString tail).ch = '.'
          · obtain ⟨rest, rfl⟩ := exists_rest_of_ch atDot (by decide)
            rw [if_neg (not_not_intro atDot), WrapperForParsing.getNext_ofString_cons]
            obtain throws | ⟨runs, tail, isRuns, length, restRuns⟩ :=
              throws_or_runs_of_parseMaskOctets (octetValue run).toUInt8 rest missing
            · exact Or.inl throws
            · have nonempty : runs ≠ [] := List.ne_nil_of_length_eq_add_one length
              exact Or.inr ⟨run :: runs, tail, isRuns.cons digits nonempty,
                congrArg (· + 1) length, allowed, atFull, restRuns⟩
          · rw [if_pos atDot]
            exact Or.inl (throws_runtimeError _)
      · rw [if_pos atFull]
        exact Or.inl (throws_runtimeError _)
    · rw [if_pos allowed]
      exact Or.inl (throws_runtimeError _)
  · rw [IPv4SubnetMask.parseMaskOctets]
    exact Or.inl ((throws_parseOctet digits stops passes).bind _)

/-- The rule of the loop for four octets, in numbers. -/
def MaskOctets (first second third last : List Char) : Prop :=
  (∀ run ∈ [first, second, third], numeralValue run % 2 ^ 64 = 255) ∧
    numeralValue last % 2 ^ 64 ∈ [128, 192, 224, 240, 248, 252, 254, 255]

theorem toNat_octetValue (run : List Char) :
    (octetValue run).toNat = numeralValue run % 2 ^ 64 :=
  UInt64.toNat_ofNat'

theorem allowed_iff : octetValue run ∈ IPv4SubnetMask.allowedMaskValues ↔
    numeralValue run % 2 ^ 64 ∈ [128, 192, 224, 240, 248, 252, 254, 255] := by
  rw [← toNat_octetValue]
  simp [IPv4SubnetMask.allowedMaskValues, ← UInt64.toNat_inj]

theorem storedOctet_eq_full (allowed : octetValue run ∈ IPv4SubnetMask.allowedMaskValues) :
    storedOctet run = 255 ↔ numeralValue run % 2 ^ 64 = 255 := by
  have eachFull : (IPv4SubnetMask.allowedMaskValues.all fun octet =>
      (octet.toUInt8 = 255 ↔ octet.toNat = 255)) = true := rfl
  rw [← toNat_octetValue]
  exact of_decide_eq_true (List.all_eq_true.mp eachFull _ allowed)

theorem maskRuns_iff {first second third last : List Char} :
    MaskRuns 255 [first, second, third, last] ↔ MaskOctets first second third last := by
  have fullAllowed : ∀ {run : List Char}, numeralValue run % 2 ^ 64 = 255 →
      octetValue run ∈ IPv4SubnetMask.allowedMaskValues := by
    intro run isFull
    rw [allowed_iff, isFull]
    decide
  constructor
  · rintro ⟨allowed₁, -, allowed₂, full₁, allowed₃, full₂, allowed₄, full₃, -⟩
    refine ⟨?_, allowed_iff.mp allowed₄⟩
    simp only [List.forall_mem_cons]
    exact ⟨(storedOctet_eq_full allowed₁).mp full₁, (storedOctet_eq_full allowed₂).mp full₂,
      (storedOctet_eq_full allowed₃).mp full₃, List.forall_mem_nil _⟩
  · rintro ⟨full, allowed⟩
    simp only [List.forall_mem_cons] at full
    obtain ⟨full₁, full₂, full₃, -⟩ := full
    exact ⟨fullAllowed full₁, rfl,
      fullAllowed full₂, (storedOctet_eq_full (fullAllowed full₁)).mpr full₁,
      fullAllowed full₃, (storedOctet_eq_full (fullAllowed full₂)).mpr full₂,
      allowed_iff.mpr allowed, (storedOctet_eq_full (fullAllowed full₃)).mpr full₃, trivial⟩

/-! ## Which texts are read as they should be -/

/-- A dotted quad whose 32 bits begin with `length` ones and have no others. -/
def MaskText (text : List Char) (values : List ℕ) (length : ℕ) : Prop :=
  DottedQuad text values ∧
    LeadingOnes (.ofNat 32 (bigEndianValue (values.map UInt8.ofNat))) length

/-- Whatever was in the memory of the object, the constructor gives the mask that a mask
    text denotes and refuses every other text. -/
def ReadsMasks (s : List Char) : Prop :=
  ∀ memory,
    (∀ values length, MaskText s values length →
      ∃ mask, IPv4SubnetMask.ofString memory s = .ok mask ∧
        mask.data.toList.map UInt8.toNat = values ∧ DottedQuad mask.toString values ∧
        mask.toPrefix = length) ∧
    ((∀ values length, ¬ MaskText s values length) → Throws (IPv4SubnetMask.ofString memory s))

/-- How many bytes the text of the last error has. -/
abbrev unknownMaskCharacterSize : ℕ :=
  "Ошибка парсинга маски подсети: неизвестный символ: ".utf8ByteSize

/-- Four octets that pass are refused for the character behind them. -/
def RefusedBehind (s : List Char) : Prop :=
  ∀ first second third last tail, DottedRuns s [first, second, third, last] tail →
    MaskOctets first second third last →
    ∃ next rest, tail = next :: rest ∧ next ≠ EOT ∧ next.toNat ≤ unknownMaskCharacterSize

section Outcome

variable {memory : Vector UInt8 ipV4SubnetMaskLength}

theorem ofString_of_runs {first second third last : List Char}
    (isRuns : DottedRuns s [first, second, third, last] tail)
    (octets : MaskOctets first second third last) :
    IPv4SubnetMask.ofString memory s =
      if (ofString tail).ch ≠ EOT then
        throwRuntimeErrorFrom "Ошибка парсинга маски подсети: неизвестный символ: "
          (ofString tail).ch
      else .ok ⟨memory⟩ := by
  have parsed := parseMaskOctets_of_runs isRuns (List.cons_ne_nil _ _) (maskRuns_iff.mpr octets)
  have four : [first, second, third, last].length = ipV4SubnetMaskLength := rfl
  rw [four] at parsed
  rw [IPv4SubnetMask.ofString, parsed]
  rfl

theorem throws_or_octets_of_ofString (memory : Vector UInt8 ipV4SubnetMaskLength)
    (s : List Char) :
    Throws (IPv4SubnetMask.ofString memory s) ∨
      ∃ first second third last tail, DottedRuns s [first, second, third, last] tail ∧
        MaskOctets first second third last := by
  obtain throws | ⟨runs, tail, isRuns, length, maskRuns⟩ :=
    throws_or_runs_of_parseMaskOctets 255 s 3
  · exact Or.inl (throws.bind _)
  · match runs, length with
    | [first, second, third, last], _ =>
      exact Or.inr ⟨first, second, third, last, tail, isRuns, maskRuns_iff.mp maskRuns⟩

/-- No octet is stored: what the constructor returns is what was there before. -/
theorem eq_memory_of_ofString {mask : IPv4SubnetMask}
    (returned : IPv4SubnetMask.ofString memory s = .ok mask) : mask.data = memory := by
  obtain throws | ⟨first, second, third, last, tail, isRuns, octets⟩ :=
    throws_or_octets_of_ofString memory s
  · exact absurd (returned ▸ returns_ok mask) throws.not_returns
  · rw [ofString_of_runs isRuns octets] at returned
    split at returned
    next =>
      unfold throwRuntimeErrorFrom at returned
      split at returned
      next => cases returned
      next => cases returned
    next =>
      cases returned
      rfl

end Outcome

/-- A mask text is never read: the memory of the object may hold anything. -/
theorem not_maskText_of_reads (reads : ReadsMasks s) (values : List ℕ) (length : ℕ) :
    ¬ MaskText s values length := by
  intro isMask
  -- two memories that differ would both have to show the octets of the text
  obtain ⟨zeros, zerosRead, zerosValues, -⟩ := (reads (.replicate 4 0)).1 values length isMask
  obtain ⟨ones, onesRead, onesValues, -⟩ := (reads (.replicate 4 1)).1 values length isMask
  rw [eq_memory_of_ofString zerosRead] at zerosValues
  rw [eq_memory_of_ofString onesRead] at onesValues
  have same := zerosValues.trans onesValues.symm
  revert same
  decide

theorem refusedBehind_of_reads (reads : ReadsMasks s) : RefusedBehind s := by
  intro first second third last tail isRuns octets
  have throws := (reads (.replicate 4 0)).2 (not_maskText_of_reads reads)
  rw [ofString_of_runs isRuns octets] at throws
  split at throws
  next notEnd =>
    unfold throwRuntimeErrorFrom at throws
    split at throws
    next inside =>
      cases tail with
      | nil => exact absurd rfl notEnd
      | cons next rest => exact ⟨next, rest, rfl, notEnd, inside⟩
    next => exact absurd throws not_throws_undefinedBehaviour
  next => exact absurd throws (not_throws_ok _)

theorem throws_of_refusedBehind (refused : RefusedBehind s)
    (memory : Vector UInt8 ipV4SubnetMaskLength) : Throws (IPv4SubnetMask.ofString memory s) := by
  obtain throws | ⟨first, second, third, last, tail, isRuns, octets⟩ :=
    throws_or_octets_of_ofString memory s
  · exact throws
  · obtain ⟨next, rest, rfl, notEnd, inside⟩ := refused _ _ _ _ _ isRuns octets
    rw [ofString_of_runs isRuns octets, WrapperForParsing.ch_ofString_cons, if_pos notEnd,
      throwRuntimeErrorFrom, if_pos inside]
    exact ⟨_, rfl⟩

theorem readsMasks_iff (s : List Char) :
    ReadsMasks s ↔ (∀ values length, ¬ MaskText s values length) ∧ RefusedBehind s := by
  constructor
  · intro reads
    exact ⟨not_maskText_of_reads reads, refusedBehind_of_reads reads⟩
  · rintro ⟨noMask, refused⟩ memory
    exact ⟨fun values length isMask => absurd isMask (noMask values length),
      fun _ => throws_of_refusedBehind refused memory⟩

/-- The usual mask of a network with 256 addresses. -/
theorem not_readsMasks_of_24 : ¬ ReadsMasks "255.255.255.0".toList := by
  intro reads
  have isRuns : DottedRuns "255.255.255.0".toList
      ["255".toList, "255".toList, "255".toList, "0".toList] [] := ⟨rfl, by decide, trivial⟩
  refine not_maskText_of_reads reads [255, 255, 255, 0] 24 ⟨?_, by decide +kernel⟩
  exact dottedQuad_of_runs isRuns rfl (by decide)

/-! ## Prefixes -/

/-- The numbers that the loop of `from_prefix` can arrive at. -/
def prefixNumbers : List UInt32 := [0, 128, 192, 224, 240, 248, 252, 254, 255]

theorem addOnes_mem_prefixNumbers (small : length ≤ 32) :
    IPv4SubnetMask.addOnes length 128 0 ∈ prefixNumbers := by
  have all : ∀ length < 33, IPv4SubnetMask.addOnes length 128 0 ∈ prefixNumbers := by
    decide +kernel
  exact all length (Nat.lt_succ_of_le small)

section Prefixes

variable [Host] {v : UInt32}

theorem number_ofUInt32 (v : UInt32) :
    UInt32.ofBitVec (networkArrayToHostEndian (IPv4SubnetMask.ofUInt32 v).data) = v := by
  unfold IPv4SubnetMask.ofUInt32
  rw [networkArrayToHostEndian_hostToNetworkEndianArray]

theorem ofUInt32_injective : Function.Injective IPv4SubnetMask.ofUInt32 := by
  intro left right same
  rw [← number_ofUInt32 left, ← number_ofUInt32 right, same]

theorem fromPrefix_eq_ok {length : ℤ} :
    IPv4SubnetMask.fromPrefix length = .ok (.ofUInt32 v) ↔
      0 ≤ length ∧ length ≤ 32 ∧ IPv4SubnetMask.addOnes length.toNat 128 0 = v := by
  unfold IPv4SubnetMask.fromPrefix
  split
  next outside =>
    constructor
    · intro impossible
      cases impossible
    · rintro ⟨lower, upper, -⟩
      omega
  next inside =>
    rw [pure_eq_ok, Except.ok.injEq, ofUInt32_injective.eq_iff]
    constructor
    · intro same
      exact ⟨by omega, by omega, same⟩
    · rintro ⟨-, -, same⟩
      exact same

/-- The bits that `to_prefix` counts are those of the number, on every host. -/
theorem toPrefix_ofUInt32 (v : UInt32) :
    (IPv4SubnetMask.ofUInt32 v).toPrefix =
      (bigEndianBytes 4 v.toNat).foldl
        (fun length octet => IPv4SubnetMask.countOnes octet 8 128 length) 0 := by
  have bytes : (IPv4SubnetMask.ofUInt32 v).data.toList = bigEndianBytes 4 v.toNat :=
    hostToNetworkEndianArray_toList _
  rw [IPv4SubnetMask.toPrefix, bytes]

/-- `from_prefix` gives the mask back for its number of ones. -/
def Recovered (v : UInt32) : Prop :=
  IPv4SubnetMask.fromPrefix (IPv4SubnetMask.ofUInt32 v).toPrefix = .ok (.ofUInt32 v)

theorem recovered_iff_mem : Recovered v ↔ v ∈ prefixNumbers := by
  unfold Recovered
  rw [fromPrefix_eq_ok, toPrefix_ofUInt32]
  constructor
  · -- whatever the number of ones is, the loop arrives at one of nine numbers
    rintro ⟨lower, upper, same⟩
    rw [← same]
    exact addOnes_mem_prefixNumbers (by omega)
  · intro member
    have all : (prefixNumbers.all fun v =>
        let length := (bigEndianBytes 4 v.toNat).foldl
          (fun length octet => IPv4SubnetMask.countOnes octet 8 128 length) 0
        0 ≤ length ∧ length ≤ 32 ∧ IPv4SubnetMask.addOnes length.toNat 128 0 = v) = true := by
      decide +kernel
    exact of_decide_eq_true (List.all_eq_true.mp all v member)

/-- The one bits of the number are contiguous and begin with the highest. -/
def ContiguousOnes (v : UInt32) : Prop := ∃ length, LeadingOnes v.toBitVec length

omit [Host] in
theorem eq_zero_of_contiguousOnes (contiguous : ContiguousOnes v) (member : v ∈ prefixNumbers) :
    v = 0 := by
  obtain ⟨length, small, bits⟩ := contiguous
  have notHighest : (prefixNumbers.all fun v => v.toBitVec.getMsbD 0 = false) = true := rfl
  -- a leading run that is not empty has the highest bit
  have noOnes : length = 0 := by
    have highest := bits 0 (by decide)
    rw [of_decide_eq_true (List.all_eq_true.mp notHighest v member)] at highest
    simpa using highest.symm
  subst noOnes
  apply UInt32.toBitVec_inj.mp
  apply BitVec.eq_of_getMsbD_eq
  intro i small
  rw [bits i small]
  simp

/-- Recovery from the number of ones and contiguity agree on the mask 0 and where both fail. -/
theorem recovered_iff (v : UInt32) :
    (Recovered v ↔ ContiguousOnes v) ↔
      v = 0 ∨ (¬ ContiguousOnes v ∧ v ∉ [128, 192, 224, 240, 248, 252, 254, 255]) := by
  have zeroContiguous : ContiguousOnes 0 := ⟨0, by decide⟩
  have split : v ∈ prefixNumbers ↔
      v = 0 ∨ v ∈ [128, 192, 224, 240, 248, 252, 254, 255] := List.mem_cons
  rw [recovered_iff_mem]
  by_cases isZero : v = 0
  · subst isZero
    exact iff_of_true (iff_of_true (by decide) zeroContiguous) (Or.inl rfl)
  · rw [split, or_iff_right isZero, or_iff_right isZero]
    constructor
    · intro agree
      by_cases contiguous : ContiguousOnes v
      · have member := split.mpr (Or.inr (agree.mpr contiguous))
        exact absurd (eq_zero_of_contiguousOnes contiguous member) isZero
      · exact ⟨contiguous, fun member => contiguous (agree.mp member)⟩
    · rintro ⟨notContiguous, notMember⟩
      exact iff_of_false notMember notContiguous

end Prefixes

/-- The mask `255.255.255.0` comes back as `0.0.0.255`. -/
theorem not_recovered_of_24 :
    ¬ (@Recovered littleEndianHost 0xFFFFFF00 ↔ ContiguousOnes 0xFFFFFF00) := by
  intro agree
  have contiguous : ContiguousOnes 0xFFFFFF00 := ⟨24, by decide +kernel⟩
  have member := (@recovered_iff_mem littleEndianHost _).mp (agree.mpr contiguous)
  revert member
  decide

end Klevret.Verified.Address
