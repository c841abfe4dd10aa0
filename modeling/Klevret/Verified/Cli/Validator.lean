import Klevret.Verified.Address.Text
import Klevret.Verified.Cli.Numbers

/-! # The address validator of the CLI

The validator is right about every token whose numerals it can read, unless a dotted quad
is followed by the character that also marks the end of the text
(`validatesDottedQuads_iff`).  Where no `int` overflows it is the validator of the machine
(`parseIpV4Address_of_checked`). -/

namespace Klevret.Verified.Cli

open Klevret.Base Klevret.Cli
open Klevret.Dhcp.WrapperForParsing (EOT ofString getNext_ofString_cons)
open Klevret.Verified.Address (DottedQuad exists_runs_of_dottedQuad dottedQuad_of_runs
  not_isDigit_of_noDigitFirst exists_rest_of_ch)

variable {s text run tail : List Char} {runs : List (List Char)} {missing : ℕ}

/-! ## The loop over the octets -/

/-- A numeral that is not empty, of value at most 255. -/
def IsOctet (run : List Char) : Prop := run ≠ [] ∧ numeralValue run ≤ 255

/-- The turns of the loop from the text on.  A turn depends on the run of digits in front, and
    on the dot behind it where one must follow. -/
inductive Scan : (missing : ℕ) → (text : List Char) → Prop
  | overflows {missing : ℕ} {run tail : List Char} (digits : run.all Char.isDigit)
      (stops : NoDigitFirst tail) (large : 2 ^ 31 ≤ numeralValue run)
      (outcome : Checked.parseIpV4Octets (ofString (run ++ tail)) (missing + 1) =
        undefinedBehaviour) : Scan missing (run ++ tail)
  | refuses {missing : ℕ} {run tail : List Char} (digits : run.all Char.isDigit)
      (stops : NoDigitFirst tail) (small : numeralValue run < 2 ^ 31)
      (wrong : ¬ (IsOctet run ∧ (missing ≠ 0 → ∃ rest, tail = '.' :: rest)))
      (outcome : Checked.parseIpV4Octets (ofString (run ++ tail)) (missing + 1) = .ok none) :
      Scan missing (run ++ tail)
  | ends {run tail : List Char} (digits : run.all Char.isDigit) (stops : NoDigitFirst tail)
      (octet : IsOctet run)
      (outcome : Checked.parseIpV4Octets (ofString (run ++ tail)) 1 =
        .ok (some (ofString tail))) : Scan 0 (run ++ tail)
  | goesOn {missing : ℕ} {run rest : List Char} (digits : run.all Char.isDigit)
      (octet : IsOctet run)
      (outcome : Checked.parseIpV4Octets (ofString (run ++ '.' :: rest)) (missing + 2) =
        Checked.parseIpV4Octets (ofString rest) (missing + 1))
      (scan : Scan missing rest) : Scan (missing + 1) (run ++ '.' :: rest)

/-- A numeral below `2 ^ 31` in front of the text. -/
theorem parseIpV4Octets_of_small (nonempty : run ≠ []) (digits : run.all Char.isDigit)
    (stops : NoDigitFirst tail) (small : numeralValue run < 2 ^ 31) :
    Checked.parseIpV4Octets (ofString (run ++ tail)) (missing + 1) =
      if numeralValue run > 255 then .ok none
      else if missing ≠ 0 ∧ (ofString tail).ch ≠ '.' then .ok none
      else Checked.parseIpV4Octets
        (if missing ≠ 0 then (ofString tail).getNext else ofString tail) missing := by
  have inRange : ((numeralValue run : ℤ) < 0 ∨ (numeralValue run : ℤ) > 255) ↔
      numeralValue run > 255 := by omega
  rw [Checked.parseIpV4Octets, parseNumber_run nonempty digits stops, if_pos small]
  simp only [inRange]
  rfl

theorem scan (missing : ℕ) (text : List Char) : Scan missing text := by
  obtain ⟨run, tail, rfl, digits, stops⟩ := exists_run text
  by_cases empty : run = []
  · -- the exception of `parse_number`, which the loop catches
    subst empty
    obtain ⟨exception, thrown⟩ := throws_parseNumber stops
    refine .refuses digits stops (by decide) (fun right => right.1.1 rfl) ?_
    rw [List.nil_append, Checked.parseIpV4Octets, thrown]
    rfl
  by_cases small : numeralValue run < 2 ^ 31
  · have outcome := @parseIpV4Octets_of_small run tail missing empty digits stops small
    by_cases octet : numeralValue run > 255
    · rw [if_pos octet] at outcome
      exact .refuses digits stops small (fun right => Nat.not_lt.mpr right.1.2 octet) outcome
    · have isOctet : IsOctet run := ⟨empty, Nat.not_lt.mp octet⟩
      rw [if_neg octet] at outcome
      cases missing with
      | zero => exact .ends digits stops isOctet outcome
      | succ missing =>
        have more : missing + 1 ≠ 0 := Nat.succ_ne_zero missing
        by_cases atDot : (ofString tail).ch = '.'
        · obtain ⟨rest, rfl⟩ := exists_rest_of_ch atDot (by decide)
          rw [if_neg (fun noDot => noDot.2 atDot), if_pos more, getNext_ofString_cons] at outcome
          exact .goesOn digits isOctet outcome (scan missing rest)
        · rw [if_pos ⟨more, atDot⟩] at outcome
          refine .refuses digits stops small ?_ outcome
          intro right
          obtain ⟨rest, rfl⟩ := right.2 more
          exact atDot rfl
  · refine .overflows digits stops (Nat.le_of_not_lt small) ?_
    rw [Checked.parseIpV4Octets, parseNumber_run empty digits stops, if_neg small]
    rfl

/-- Octets with dots between them are scanned to their end. -/
theorem parseIpV4Octets_of_runs (isRuns : DottedRuns text runs tail) (nonempty : runs ≠ [])
    (octets : ∀ run ∈ runs, IsOctet run) :
    Checked.parseIpV4Octets (ofString text) runs.length = .ok (some (ofString tail)) := by
  induction runs generalizing text with
  | nil => exact absurd rfl nonempty
  | cons run runs inductionHypothesis =>
    obtain ⟨⟨notEmpty, inRange⟩, restOctets⟩ := List.forall_mem_cons.mp octets
    have small : numeralValue run < 2 ^ 31 := Nat.lt_of_le_of_lt inRange (by decide)
    have notLarge : ¬ numeralValue run > 255 := Nat.not_lt.mpr inRange
    cases runs with
    | nil =>
      obtain ⟨rfl, digits, stops⟩ := dottedRuns_singleton.mp isRuns
      rw [List.length_cons, parseIpV4Octets_of_small notEmpty digits stops small,
        if_neg notLarge]
      rfl
    | cons next runs =>
      obtain ⟨rest, rfl, digits, isRest⟩ := dottedRuns_cons_cons.mp isRuns
      have more : (next :: runs).length ≠ 0 := Nat.succ_ne_zero _
      rw [List.length_cons,
        parseIpV4Octets_of_small notEmpty digits (noDigitFirst_dot rest) small, if_neg notLarge,
        if_neg (fun noDot => noDot.2 rfl), if_pos more, getNext_ofString_cons]
      exact inductionHypothesis isRest (List.cons_ne_nil _ _) restOctets

theorem runs_of_parseIpV4Octets {last : WrapperForParsing}
    (scanned : Checked.parseIpV4Octets (ofString text) (missing + 1) = .ok (some last)) :
    ∃ runs tail, DottedRuns text runs tail ∧ runs.length = missing + 1 ∧
      (∀ run ∈ runs, IsOctet run) ∧ last = ofString tail := by
  induction scan missing text with
  | overflows digits stops large outcome =>
    rw [outcome] at scanned
    cases scanned
  | refuses digits stops small wrong outcome =>
    rw [outcome] at scanned
    cases scanned
  | @ends run tail digits stops octet outcome =>
    rw [outcome] at scanned
    cases scanned
    exact ⟨[run], tail, dottedRuns_singleton.mpr ⟨rfl, digits, stops⟩, rfl,
      List.forall_mem_singleton.mpr octet, rfl⟩
  | @goesOn missing run rest digits octet outcome scan inductionHypothesis =>
    rw [outcome] at scanned
    obtain ⟨runs, tail, isRuns, length, octets, isLast⟩ := inductionHypothesis scanned
    have nonempty : runs ≠ [] := List.ne_nil_of_length_eq_add_one length
    exact ⟨run :: runs, tail, isRuns.cons digits nonempty, congrArg (· + 1) length,
      List.forall_mem_cons.mpr ⟨octet, octets⟩, isLast⟩

/-! ## The numerals that the validator reads -/

/-- `run` is one of the first `count` runs of digits, a dot between each two, and the runs
    before it are octets. -/
def ReadsNumeral (count : ℕ) (text run : List Char) : Prop :=
  ∃ before tail, before.length < count ∧ (∀ octet ∈ before, IsOctet octet) ∧
    DottedRuns text (before ++ [run]) tail

theorem readsNumeral_iff {count : ℕ} {other : List Char} (split : text = run ++ tail)
    (digits : run.all Char.isDigit) (stops : NoDigitFirst tail) :
    ReadsNumeral (count + 1) text other ↔
      other = run ∨ IsOctet run ∧ ∃ rest, tail = '.' :: rest ∧ ReadsNumeral count rest other := by
  constructor
  · rintro ⟨before, last, fewer, octets, isRuns⟩
    cases before with
    | nil =>
      obtain ⟨split', digits', stops'⟩ := dottedRuns_singleton.mp isRuns
      exact Or.inl (run_unique digits' stops' digits stops (split'.symm.trans split)).1
    | cons first before =>
      obtain ⟨octet, restOctets⟩ := List.forall_mem_cons.mp octets
      obtain ⟨rest, split', digits', isRest⟩ := isRuns.uncons (List.concat_ne_nil other before)
      obtain ⟨rfl, rfl⟩ :=
        run_unique digits' (noDigitFirst_dot rest) digits stops (split'.symm.trans split)
      exact Or.inr ⟨octet, rest, rfl, before, last, Nat.lt_of_succ_lt_succ fewer, restOctets,
        isRest⟩
  · rintro (rfl | ⟨octet, rest, rfl, before, last, fewer, octets, isRest⟩)
    · exact ⟨[], tail, Nat.succ_pos count, List.forall_mem_nil _,
        dottedRuns_singleton.mpr ⟨split, digits, stops⟩⟩
    · subst split
      exact ⟨run :: before, last, Nat.succ_lt_succ fewer,
        List.forall_mem_cons.mpr ⟨octet, octets⟩,
        isRest.cons digits (List.concat_ne_nil other before)⟩

theorem not_readsNumeral_zero : ¬ ReadsNumeral 0 text run := by
  rintro ⟨before, tail, fewer, -⟩
  exact Nat.not_lt_zero _ fewer

/-- The loop reads no numeral behind a run that it stops at. -/
theorem not_reads_large {count : ℕ} (split : text = run ++ tail) (digits : run.all Char.isDigit)
    (stops : NoDigitFirst tail) (small : numeralValue run < 2 ^ 31)
    (stuck : IsOctet run → (∃ rest, tail = '.' :: rest) → count = 0) :
    ¬ ∃ other, ReadsNumeral (count + 1) text other ∧ 2 ^ 31 ≤ numeralValue other := by
  rintro ⟨other, reads, large⟩
  obtain rfl | ⟨octet, rest, isRest, reads⟩ := (readsNumeral_iff split digits stops).mp reads
  · exact absurd small (Nat.not_lt.mpr large)
  · rw [stuck octet ⟨rest, isRest⟩] at reads
    exact not_readsNumeral_zero reads

theorem IsOctet.small (octet : IsOctet run) : numeralValue run < 2 ^ 31 :=
  Nat.lt_of_le_of_lt octet.2 (by decide)

/-- The loop is undefined where a numeral that it reads does not fit. -/
theorem parseIpV4Octets_undefined_iff :
    Checked.parseIpV4Octets (ofString text) (missing + 1) = undefinedBehaviour ↔
      ∃ run, ReadsNumeral (missing + 1) text run ∧ 2 ^ 31 ≤ numeralValue run := by
  induction scan missing text with
  | @overflows missing run tail digits stops large outcome =>
    exact iff_of_true outcome ⟨run, (readsNumeral_iff rfl digits stops).mpr (Or.inl rfl), large⟩
  | @refuses missing run tail digits stops small wrong outcome =>
    rw [outcome]
    refine iff_of_false (ok_ne_undefinedBehaviour _) (not_reads_large rfl digits stops small ?_)
    intro octet atDot
    exact absurd ⟨octet, fun _ => atDot⟩ wrong
  | ends digits stops octet outcome =>
    rw [outcome]
    exact iff_of_false (ok_ne_undefinedBehaviour _)
      (not_reads_large rfl digits stops octet.small fun _ _ => rfl)
  | @goesOn missing run rest digits octet outcome scan inductionHypothesis =>
    have stops := noDigitFirst_dot rest
    rw [outcome, inductionHypothesis]
    constructor
    · rintro ⟨other, readsRest, large⟩
      have reads := (readsNumeral_iff rfl digits stops).mpr
        (Or.inr ⟨octet, rest, rfl, readsRest⟩)
      exact ⟨other, reads, large⟩
    · rintro ⟨other, reads, large⟩
      obtain rfl | ⟨-, rest', isRest, readsRest⟩ := (readsNumeral_iff rfl digits stops).mp reads
      · exact absurd octet.small (Nat.not_lt.mpr large)
      · cases isRest
        exact ⟨other, readsRest, large⟩

theorem not_throws_parseIpV4Octets :
    ¬ Throws (Checked.parseIpV4Octets (ofString text) (missing + 1)) := by
  induction scan missing text with
  | overflows digits stops large outcome =>
    rw [outcome]
    exact not_throws_undefinedBehaviour
  | refuses digits stops small wrong outcome =>
    rw [outcome]
    exact not_throws_ok none
  | ends digits stops octet outcome =>
    rw [outcome]
    exact not_throws_ok _
  | goesOn digits octet outcome scan inductionHypothesis =>
    rw [outcome]
    exact inductionHypothesis

/-! ## The validator -/

/-- The validator is defined on the token and accepts it if and only if it is a dotted quad. -/
def ValidatesDottedQuads (s : List Char) : Prop :=
  ∃ accepted, Checked.parseIpV4Address s = .ok accepted ∧
    (accepted = true ↔ ∃ values, DottedQuad s values)

/-- Every numeral that the validator reads fits into an `int`. -/
def NumeralsFit (s : List Char) : Prop :=
  ∀ run, ReadsNumeral 4 s run → numeralValue run < 2 ^ 31

/-- A dotted quad and then the character that marks the end, with anything behind it. -/
def MarkedQuad (s : List Char) : Prop :=
  ∃ text values rest, DottedQuad text values ∧ s = text ++ EOT :: rest

theorem parseIpV4Address_undefined_iff :
    Checked.parseIpV4Address s = undefinedBehaviour ↔ ¬ NumeralsFit s := by
  have octets := @parseIpV4Octets_undefined_iff s 3
  have sameCondition : (∃ run, ReadsNumeral 4 s run ∧ 2 ^ 31 ≤ numeralValue run) ↔
      ¬ NumeralsFit s := by
    simp only [NumeralsFit, not_forall, Nat.not_lt, exists_prop]
  rw [← sameCondition, ← octets, Checked.parseIpV4Address]
  cases Checked.parseIpV4Octets (ofString s) (3 + 1) with
  | error fault =>
    rw [error_bind]
    simp [undefinedBehaviour]
  | ok scanned =>
    cases scanned with
    | none => exact iff_of_false (ok_ne_undefinedBehaviour _) (ok_ne_undefinedBehaviour _)
    | some wrap => exact iff_of_false (ok_ne_undefinedBehaviour _) (ok_ne_undefinedBehaviour _)

theorem parseIpV4Address_accepts_iff :
    Checked.parseIpV4Address s = .ok true ↔
      ∃ runs tail, DottedRuns s runs tail ∧ runs.length = 4 ∧ (∀ run ∈ runs, IsOctet run) ∧
        (ofString tail).ch = EOT := by
  rw [Checked.parseIpV4Address, bind_eq_ok]
  constructor
  · rintro ⟨scanned, isScanned, accepted⟩
    cases scanned with
    | none => cases accepted
    | some last =>
      obtain ⟨runs, tail, isRuns, length, octets, rfl⟩ := runs_of_parseIpV4Octets isScanned
      exact ⟨runs, tail, isRuns, length, octets, of_decide_eq_true (Except.ok.inj accepted)⟩
  · rintro ⟨runs, tail, isRuns, length, octets, atEnd⟩
    have scanned := parseIpV4Octets_of_runs isRuns (Address.ne_nil_of_length_eq_four length) octets
    rw [length] at scanned
    exact ⟨some (ofString tail), scanned, congrArg Except.ok (decide_eq_true atEnd)⟩

theorem ch_ofString_eq_EOT_iff :
    (ofString tail).ch = EOT ↔ tail = [] ∨ ∃ rest, tail = EOT :: rest := by
  cases tail with
  | nil => exact iff_of_true rfl (Or.inl rfl)
  | cons ch tail => simp

theorem markedQuad_iff : MarkedQuad s ↔
    ∃ runs rest, DottedRuns s runs (EOT :: rest) ∧ runs.length = 4 ∧
      ∀ run ∈ runs, IsOctet run := by
  constructor
  · rintro ⟨text, values, rest, quad, rfl⟩
    obtain ⟨runs, isRuns, length, -, octets⟩ := exists_runs_of_dottedQuad quad
    refine ⟨runs, rest, ⟨?_, isRuns.digits, (rfl : EOT.isDigit = false)⟩, length, octets⟩
    rw [isRuns.text_eq, List.append_nil]
  · rintro ⟨runs, rest, isRuns, length, octets⟩
    have alone : DottedRuns (['.'].intercalate runs) runs [] :=
      ⟨(List.append_nil _).symm, isRuns.digits, trivial⟩
    exact ⟨_, _, rest, dottedQuad_of_runs alone length octets, isRuns.text_eq⟩

/-- What is accepted is a dotted quad, alone or followed by the marker. -/
theorem accepted_iff : Checked.parseIpV4Address s = .ok true ↔
    (∃ values, DottedQuad s values) ∨ MarkedQuad s := by
  rw [parseIpV4Address_accepts_iff, markedQuad_iff]
  constructor
  · rintro ⟨runs, tail, isRuns, length, octets, atEnd⟩
    obtain rfl | ⟨rest, rfl⟩ := ch_ofString_eq_EOT_iff.mp atEnd
    · exact Or.inl ⟨_, dottedQuad_of_runs isRuns length octets⟩
    · exact Or.inr ⟨runs, rest, isRuns, length, octets⟩
  · rintro (⟨values, quad⟩ | ⟨runs, rest, isRuns, length, octets⟩)
    · obtain ⟨runs, isRuns, length, -, octets⟩ := exists_runs_of_dottedQuad quad
      exact ⟨runs, [], isRuns, length, octets, rfl⟩
    · exact ⟨runs, EOT :: rest, isRuns, length, octets, rfl⟩

theorem not_dottedQuad_of_marked (marked : MarkedQuad s) : ¬ ∃ values, DottedQuad s values := by
  rintro ⟨values, quad⟩
  obtain ⟨runs, rest, isRuns, length, -⟩ := markedQuad_iff.mp marked
  obtain ⟨runs', isRuns', length', -⟩ := exists_runs_of_dottedQuad quad
  have sameTail := (isRuns.unique isRuns' (Address.ne_nil_of_length_eq_four length)
    (length.trans length'.symm)).2
  cases sameTail

theorem not_throws_parseIpV4Address : ¬ Throws (Checked.parseIpV4Address s) := by
  rw [Checked.parseIpV4Address, throws_bind_iff, not_or]
  refine ⟨not_throws_parseIpV4Octets, ?_⟩
  rintro ⟨scanned, -, throws⟩
  cases scanned with
  | none => exact not_throws_ok _ throws
  | some last => exact not_throws_ok _ throws

theorem parseIpV4Address_defined (fit : NumeralsFit s) :
    ∃ accepted, Checked.parseIpV4Address s = .ok accepted := by
  have defined : Checked.parseIpV4Address s ≠ undefinedBehaviour := fun undefined =>
    parseIpV4Address_undefined_iff.mp undefined fit
  exact (defined_iff.mp defined).resolve_right not_throws_parseIpV4Address

theorem numeralsFit_of_validates (validates : ValidatesDottedQuads s) : NumeralsFit s := by
  obtain ⟨accepted, isOk, -⟩ := validates
  by_contra unfit
  rw [parseIpV4Address_undefined_iff.mpr unfit] at isOk
  cases isOk

theorem validatesDottedQuads_iff (s : List Char) :
    ValidatesDottedQuads s ↔ NumeralsFit s ∧ ¬ MarkedQuad s := by
  constructor
  · intro validates
    refine ⟨numeralsFit_of_validates validates, ?_⟩
    intro marked
    obtain ⟨accepted, isOk, right⟩ := validates
    rw [accepted_iff.mpr (Or.inr marked), Except.ok.injEq] at isOk
    exact not_dottedQuad_of_marked marked (right.mp isOk.symm)
  · rintro ⟨fit, unmarked⟩
    obtain ⟨accepted, isOk⟩ := parseIpV4Address_defined fit
    have accepts := @accepted_iff s
    rw [isOk, Except.ok.injEq, or_iff_left unmarked] at accepts
    exact ⟨accepted, isOk, accepts⟩

/-- Ten digits overflow the `int`. -/
theorem not_validatesDottedQuads_of_ten_digits :
    ¬ ValidatesDottedQuads "9999999999".toList := by
  intro validates
  have isRuns : DottedRuns "9999999999".toList ["9999999999".toList] [] :=
    ⟨rfl, by decide, trivial⟩
  have small := numeralsFit_of_validates validates "9999999999".toList
    ⟨[], [], by decide, List.forall_mem_nil _, isRuns⟩
  revert small
  decide

/-! ## The validator of the machine -/

/-- Where no `int` overflows, the machine scans the octets that are scanned under the rules. -/
theorem map_snd_parseIpV4Octets {scanned : Option WrapperForParsing}
    (defined : Checked.parseIpV4Octets (ofString text) missing = .ok scanned) :
    (parseIpV4Octets (ofString text) missing).map Prod.snd = scanned := by
  induction missing generalizing text with
  | zero =>
    cases defined
    rfl
  | succ missing inductionHypothesis =>
    obtain ⟨run, tail, rfl, digits, stops⟩ := exists_run text
    by_cases empty : run = []
    · subst empty
      obtain ⟨exception, thrown⟩ := throws_parseNumber stops
      rw [List.nil_append, Checked.parseIpV4Octets, thrown] at defined
      cases defined
      rw [List.nil_append, parseIpV4Octets, parseNumber, not_isDigit_of_noDigitFirst stops]
      rfl
    by_cases small : numeralValue run < 2 ^ 31
    · have inRange : (Int32.ofNat (numeralValue run) < 0 ∨
          Int32.ofNat (numeralValue run) > 255) ↔ numeralValue run > 255 :=
        lt_zero_or_gt_iff small (by decide)
      rw [parseIpV4Octets_of_small empty digits stops small] at defined
      rw [parseIpV4Octets, parseNumber_wrapping empty digits stops]
      dsimp only
      simp only [inRange]
      split at defined
      next large =>
        cases defined
        rw [if_pos large]
        rfl
      next octet =>
        rw [if_neg octet]
        split at defined
        next noDot =>
          cases defined
          rw [if_pos noDot]
          rfl
        next dotted =>
          rw [if_neg dotted]
          obtain ⟨rest, isRest⟩ : ∃ rest,
              (if missing ≠ 0 then (ofString tail).getNext else ofString tail) = ofString rest :=
            Dhcp.WrapperForParsing.exists_ofString _
          rw [isRest] at defined ⊢
          rw [← inductionHypothesis defined]
          cases parseIpV4Octets (ofString rest) missing with
          | none => rfl
          | some scanned => rfl
    · rw [Checked.parseIpV4Octets, parseNumber_run empty digits stops, if_neg small] at defined
      cases defined

/-- The validator of the machine is the one under the rules where that one is defined. -/
theorem parseIpV4Address_of_checked {accepted : Bool}
    (defined : Checked.parseIpV4Address s = .ok accepted) : parseIpV4Address s = accepted := by
  obtain ⟨scanned, isScanned, isAccepted⟩ := bind_eq_ok.mp defined
  have same := map_snd_parseIpV4Octets isScanned
  rw [parseIpV4Address, ipV4AddressValues]
  cases wrapping : parseIpV4Octets (ofString s) 4 with
  | none =>
    rw [wrapping] at same
    cases same
    cases isAccepted
    rfl
  | some result =>
    obtain ⟨octets, last⟩ := result
    rw [wrapping] at same
    cases same
    cases isAccepted
    dsimp only
    split
    next atEnd => exact (decide_eq_true atEnd).symm
    next notEnd => exact (decide_eq_false notEnd).symm

end Klevret.Verified.Cli
