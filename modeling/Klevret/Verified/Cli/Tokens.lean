import Klevret.Base.Separated
import Klevret.Verified.Cli.Analysis
import Klevret.Verified.Cli.Validator

/-! # String literals and prefix lengths among the words of a line

Neither check looks at what comes behind the literal, and the one for prefix lengths throws
on a word without a number in front.  The exception leaves `analyze_command` as soon as such
a word is tried against such an element (`throws_analyzeCommand_iff`). -/

namespace Klevret.Verified.Cli

open Klevret.Base Klevret.Cli
open RoseTree (Descends Move)
open Klevret.Dhcp.WrapperForParsing (EOT ofString ch_ofString_cons getNext_ofString_cons
  readWhile_ofString)
open Klevret.Verified.Address (exists_rest_of_ch not_isDigit_of_noDigitFirst)

variable {s run tail : List Char}

/-! ## String literals -/

/-- Letters between two double quotes. -/
def IsStringLiteral (s : List Char) : Prop :=
  ∃ letters : List Char, letters.all Char.isAlpha ∧ s = '"' :: (letters ++ ['"'])

theorem parseString_iff : parseString s ↔
    ∃ letters rest : List Char, letters.all Char.isAlpha ∧ s = '"' :: (letters ++ '"' :: rest) := by
  have notMarker : EOT.isAlpha = false := rfl
  have unfolded : parseString s = if (ofString s).ch ≠ '"' then false else
      decide (((ofString s).getNext.readWhile Char.isAlpha notMarker).2.ch = '"') := rfl
  rw [unfolded]
  constructor
  · intro accepted
    split at accepted
    next => cases accepted
    next opening =>
      -- the letters are the longest run of them behind the quote
      obtain ⟨text, rfl⟩ := exists_rest_of_ch (not_not.mp opening) (by decide)
      rw [getNext_ofString_cons, readWhile_ofString, decide_eq_true_eq] at accepted
      obtain ⟨rest, isRest⟩ := exists_rest_of_ch accepted (by decide)
      refine ⟨text.takeWhile Char.isAlpha, rest, List.all_takeWhile, ?_⟩
      rw [← isRest, List.takeWhile_append_dropWhile]
  · rintro ⟨letters, rest, alpha, rfl⟩
    have opening : ¬ (ofString ('"' :: (letters ++ '"' :: rest))).ch ≠ '"' := not_not_intro rfl
    rw [if_neg opening, getNext_ofString_cons, readWhile_ofString,
      List.dropWhile_append_of_pos (List.all_eq_true.mp alpha)]
    rfl

/-- The check of a string element returns, and accepts the literals. -/
def ChecksString (Handler : Type) (s : List Char) : Prop :=
  ∀ element : CommandElement Handler, element.type = .string →
    ∃ accepted, Checked.checkCommandElement s element = .ok accepted ∧
      (accepted = true ↔ IsStringLiteral s)

/-- No text behind a literal. -/
def NothingBehindLiteral (s : List Char) : Prop :=
  ∀ letters rest : List Char, letters.all Char.isAlpha → s = '"' :: (letters ++ '"' :: rest) →
    rest = []

theorem checkCommandElement_string {Handler : Type} {element : CommandElement Handler}
    (isString : element.type = .string) :
    Checked.checkCommandElement s element = .ok (parseString s) := by
  unfold Checked.checkCommandElement checkCommandElement
  rw [isString]
  rfl

/-- Where a literal ends is determined by its letters. -/
theorem nothingBehind_of_literal (literal : IsStringLiteral s) : NothingBehindLiteral s := by
  obtain ⟨letters, alpha, rfl⟩ := literal
  intro letters' rest alpha' same
  have sameText := (List.cons.inj same).2
  have sameRest := congrArg (List.dropWhile Char.isAlpha) sameText
  rw [List.dropWhile_append_of_pos (List.all_eq_true.mp alpha),
    List.dropWhile_append_of_pos (List.all_eq_true.mp alpha')] at sameRest
  exact (List.cons.inj sameRest).2.symm

theorem checksString_iff {Handler : Type} :
    ChecksString Handler s ↔ NothingBehindLiteral s := by
  constructor
  · intro checks letters rest alpha split
    obtain ⟨accepted, isOk, right⟩ := checks ⟨.string, [], none⟩ rfl
    rw [checkCommandElement_string rfl, Except.ok.injEq] at isOk
    have literal := right.mp (isOk ▸ parseString_iff.mpr ⟨letters, rest, alpha, split⟩)
    exact nothingBehind_of_literal literal letters rest alpha split
  · intro nothing element isString
    refine ⟨parseString s, checkCommandElement_string isString, ?_⟩
    rw [parseString_iff]
    constructor
    · rintro ⟨letters, rest, alpha, split⟩
      have empty := nothing letters rest alpha split
      subst empty
      exact ⟨letters, alpha, split⟩
    · rintro ⟨letters, alpha, split⟩
      exact ⟨letters, [], alpha, split⟩

/-! ## Prefix lengths -/

/-- A numeral of value at most 32. -/
def IsMaskNumeral (s : List Char) : Prop :=
  s ≠ [] ∧ s.all Char.isDigit ∧ numeralValue s ≤ 32

/-- The check of a subnet mask element returns, and accepts the numerals up to 32. -/
def ChecksMask (Handler : Type) (s : List Char) : Prop :=
  ∀ element : CommandElement Handler, element.type = .ipV4SubnetMask →
    ∃ accepted, Checked.checkCommandElement s element = .ok accepted ∧
      (accepted = true ↔ IsMaskNumeral s)

/-- The word starts with a number that fits into an `int`; behind a number up to 32 there is
    nothing else. -/
def StartsWithNumber (s : List Char) : Prop :=
  ∃ run tail, s = run ++ tail ∧ run ≠ [] ∧ run.all Char.isDigit ∧ NoDigitFirst tail ∧
    numeralValue run < 2 ^ 31 ∧ (numeralValue run ≤ 32 → tail = [])

theorem checkCommandElement_mask {Handler : Type} {element : CommandElement Handler}
    (isMask : element.type = .ipV4SubnetMask) :
    Checked.checkCommandElement s element = Checked.parseIpV4SubnetMask s := by
  unfold Checked.checkCommandElement
  rw [isMask]

theorem parseIpV4SubnetMask_run (nonempty : run ≠ []) (digits : run.all Char.isDigit)
    (stops : NoDigitFirst tail) :
    Checked.parseIpV4SubnetMask (run ++ tail) =
      if numeralValue run < 2 ^ 31 then .ok (decide (numeralValue run ≤ 32))
      else undefinedBehaviour := by
  rw [Checked.parseIpV4SubnetMask, parseNumber_run nonempty digits stops]
  split
  next small =>
    rw [ok_bind]
    apply congrArg Except.ok
    rw [decide_eq_decide]
    omega
  next => rfl

/-- Whether the whole word is a numeral is decided by the run of digits in front of it. -/
theorem isMaskNumeral_iff (digits : run.all Char.isDigit) (stops : NoDigitFirst tail) :
    IsMaskNumeral (run ++ tail) ↔ run ≠ [] ∧ tail = [] ∧ numeralValue run ≤ 32 := by
  constructor
  · rintro ⟨nonempty, allDigits, small⟩
    have empty : tail = [] := by
      cases tail with
      | nil => rfl
      | cons ch tail =>
        rw [List.all_append, List.all_cons, Bool.and_eq_true, Bool.and_eq_true] at allDigits
        rw [NoDigitFirst, allDigits.2.1] at stops
        cases stops
    subst empty
    rw [List.append_nil] at nonempty small
    exact ⟨nonempty, rfl, small⟩
  · rintro ⟨nonempty, rfl, small⟩
    rw [List.append_nil]
    exact ⟨nonempty, digits, small⟩

theorem startsWithNumber_iff (digits : run.all Char.isDigit) (stops : NoDigitFirst tail) :
    StartsWithNumber (run ++ tail) ↔
      run ≠ [] ∧ numeralValue run < 2 ^ 31 ∧ (numeralValue run ≤ 32 → tail = []) := by
  constructor
  · rintro ⟨run', tail', split, nonempty, digits', stops', small, alone⟩
    obtain ⟨rfl, rfl⟩ := run_unique digits stops digits' stops' split
    exact ⟨nonempty, small, alone⟩
  · rintro ⟨nonempty, small, alone⟩
    exact ⟨run, tail, rfl, nonempty, digits, stops, small, alone⟩

theorem checksMask_iff {Handler : Type} : ChecksMask Handler s ↔ StartsWithNumber s := by
  have oneElement : ChecksMask Handler s ↔ ∃ accepted,
      Checked.parseIpV4SubnetMask s = .ok accepted ∧ (accepted = true ↔ IsMaskNumeral s) := by
    constructor
    · intro checks
      rw [← checkCommandElement_mask (rfl : (⟨.ipV4SubnetMask, [], none⟩ :
        CommandElement Handler).type = .ipV4SubnetMask)]
      exact checks _ rfl
    · intro returned element isMask
      rwa [checkCommandElement_mask isMask]
  obtain ⟨run, tail, rfl, digits, stops⟩ := exists_run s
  rw [oneElement, isMaskNumeral_iff digits stops, startsWithNumber_iff digits stops]
  by_cases nonempty : run = []
  · -- the check throws before it can answer
    subst nonempty
    refine iff_of_false ?_ fun starts => starts.1 rfl
    rintro ⟨accepted, isOk, -⟩
    obtain ⟨number, isNumber, -⟩ := bind_eq_ok.mp isOk
    exact (throws_parseNumber stops).not_returns ⟨number, isNumber⟩
  · rw [parseIpV4SubnetMask_run nonempty digits stops]
    by_cases small : numeralValue run < 2 ^ 31
    · rw [if_pos small]
      constructor
      · rintro ⟨accepted, isOk, right⟩
        cases isOk
        rw [decide_eq_true_iff] at right
        exact ⟨nonempty, small, fun inRange => (right.mp inRange).2.1⟩
      · rintro ⟨-, -, alone⟩
        refine ⟨_, rfl, ?_⟩
        rw [decide_eq_true_iff]
        exact ⟨fun inRange => ⟨nonempty, alone inRange, inRange⟩, fun isNumeral => isNumeral.2.2⟩
    · rw [if_neg small]
      refine iff_of_false ?_ fun starts => small starts.2.1
      rintro ⟨accepted, isOk, -⟩
      cases isOk

/-! ## Lines -/

section Lines

variable {Handler : Type} {part : List Char} {element : CommandElement Handler}
  {forest : List (CommandTree Handler)} {root : CommandTree Handler} {index : ℕ}
  {analysis : Analysis Handler}

theorem throws_parseNumber_iff :
    Throws (parseNumber (ofString part)) ↔ NoDigitFirst part := by
  rw [parseNumber]
  cases part with
  | nil => exact iff_of_true (throws_runtimeError _) trivial
  | cons ch part =>
    rw [ch_ofString_cons, NoDigitFirst]
    cases ch.isDigit with
    | true => exact iff_of_false (not_throws_ok _) Bool.noConfusion
    | false => exact iff_of_true (throws_runtimeError _) rfl

/-- Only the check of a prefix length throws. -/
theorem throws_checkCommandElement_iff :
    Throws (checkCommandElement part element) ↔
      element.type = .ipV4SubnetMask ∧ NoDigitFirst part := by
  unfold checkCommandElement
  cases element.type with
  | ipV4SubnetMask =>
    rw [parseIpV4SubnetMask, throws_bind_iff, throws_parseNumber_iff, eq_self, true_and]
    apply or_iff_left
    rintro ⟨number, -, throws⟩
    exact not_throws_ok _ throws
  | none | fixedWord | string | name | ipV4Address | ipV6Address | ipV6SubnetMask =>
    exact iff_of_false (not_throws_ok _) fun isMask => CommandElementType.noConfusion isMask.1

/-- The part is tried against a subnet mask element among the children, and has no digit in
    front. -/
def TriesAmong (part : List Char) (forest : List (CommandTree Handler)) : Prop :=
  ∃ before mask after, forest = before ++ mask :: after ∧
    (∀ other ∈ before, Rejects part other.label) ∧ mask.label.type = .ipV4SubnetMask ∧
      NoDigitFirst part

theorem throws_findChild_iff : Throws (findChild part index forest) ↔ TriesAmong part forest := by
  induction forest generalizing index with
  | nil =>
    refine iff_of_false (not_throws_ok _) ?_
    rintro ⟨before, mask, after, split, -⟩
    exact List.append_ne_nil_of_right_ne_nil before (List.cons_ne_nil mask after) split.symm
  | cons child forest inductionHypothesis =>
    rw [findChild, throws_bind_iff]
    constructor
    · rintro (throws | ⟨accepted, isChecked, throws⟩)
      · obtain ⟨isMask, noDigit⟩ := throws_checkCommandElement_iff.mp throws
        exact ⟨[], child, forest, rfl, List.forall_mem_nil _, isMask, noDigit⟩
      · cases accepted with
        | true => exact absurd throws (not_throws_ok _)
        | false =>
          obtain ⟨before, mask, after, rfl, passed, tried⟩ := inductionHypothesis.mp throws
          exact ⟨child :: before, mask, after, rfl,
            List.forall_mem_cons.mpr ⟨isChecked, passed⟩, tried⟩
    · rintro ⟨before, mask, after, split, passed, tried⟩
      cases before with
      | nil =>
        cases split
        exact Or.inl (throws_checkCommandElement_iff.mpr tried)
      | cons first before =>
        cases split
        obtain ⟨firstRejected, restRejected⟩ := List.forall_mem_cons.mp passed
        exact Or.inr ⟨false, firstRejected,
          inductionHypothesis.mpr ⟨before, mask, after, rfl, restRejected, tried⟩⟩

/-- A part that is accepted goes down without an exception. -/
theorem throws_next_iff :
    Throws (analysis.next part) ↔ TriesAmong part analysis.current.children := by
  rw [Analysis.next, throws_bind_iff, throws_findChild_iff]
  -- the constructors of the values accept what the elements accept
  apply or_iff_left
  rintro ⟨found, isFound, throws⟩
  cases found with
  | none => exact not_throws_ok _ throws
  | some found =>
    obtain ⟨index, child⟩ := found
    obtain ⟨before, after, split, passed, accepted, isIndex⟩ := findChild_eq_some_iff.mp isFound
    obtain ⟨value, built⟩ := exists_builtFrom accepted
    dsimp only at throws
    rw [realValue_eq_ok_iff.mpr built] at throws
    exact not_throws_ok _ throws

/-- The words in front lead to a node below which a word without a digit in front is tried
    against a subnet mask element. -/
def TriesMask (split : Split) (line : List Char) (root : CommandTree Handler) : Prop :=
  ∃ moves word after last, split line = moves.map Move.item ++ word :: after ∧
    Descends Accepts Rejects root moves last ∧ TriesAmong word last.children

theorem throws_analyzeCommand_iff {split : Split} {line : List Char} :
    Throws (analyzeCommand split line root) ↔ TriesMask split line root := by
  rw [analyzeCommand, throws_foldlM_iff]
  constructor
  · rintro ⟨before, word, after, state, isSplit, isState, throws⟩
    obtain ⟨moves, rfl, analyzed⟩ := analyzed_of_foldlM isState
    exact ⟨moves, word, after, state.current, isSplit, analyzed.descends,
      throws_next_iff.mp throws⟩
  · rintro ⟨moves, word, after, last, isSplit, descends, tries⟩
    obtain ⟨state, isState, rfl, -⟩ := @foldlM_of_descends Handler last moves ⟨[], root, []⟩ descends
    exact ⟨moves.map Move.item, word, after, state, isSplit, isState, throws_next_iff.mpr tries⟩

end Lines

/-! ## The checks of the machine -/

theorem parseIpV4SubnetMask_of_defined (defined : Checked.parseIpV4SubnetMask s ≠ undefinedBehaviour) :
    parseIpV4SubnetMask s = Checked.parseIpV4SubnetMask s := by
  obtain ⟨run, tail, rfl, digits, stops⟩ := exists_run s
  by_cases empty : run = []
  · subst empty
    rw [List.nil_append, parseIpV4SubnetMask, parseNumber, Checked.parseIpV4SubnetMask,
      Checked.parseNumber, not_isDigit_of_noDigitFirst stops]
    rfl
  · rw [parseIpV4SubnetMask_run empty digits stops] at defined ⊢
    by_cases small : numeralValue run < 2 ^ 31
    · rw [if_pos small, parseIpV4SubnetMask, parseNumber_wrapping empty digits stops, ok_bind]
      apply congrArg Except.ok
      rw [decide_eq_decide, ← Nat.not_lt]
      exact not_congr (lt_zero_or_gt_iff small (by decide))
    · exact absurd (if_neg small) defined

/-- The machine checks a word as the rules of C++ say, where they define the check. -/
theorem checkCommandElement_of_defined {Handler : Type} {element : CommandElement Handler}
    (defined : Checked.checkCommandElement s element ≠ undefinedBehaviour) :
    checkCommandElement s element = Checked.checkCommandElement s element := by
  unfold Checked.checkCommandElement at defined ⊢
  cases isType : element.type with
  | ipV4Address =>
    rw [isType] at defined
    rw [checkCommandElement, isType]
    have fit : NumeralsFit s := by
      by_contra unfit
      exact defined (parseIpV4Address_undefined_iff.mpr unfit)
    obtain ⟨accepted, isOk⟩ := parseIpV4Address_defined fit
    dsimp only
    rw [isOk, parseIpV4Address_of_checked isOk]
    rfl
  | ipV4SubnetMask =>
    rw [isType] at defined
    rw [checkCommandElement, isType]
    exact parseIpV4SubnetMask_of_defined defined
  | none | fixedWord | string | name | ipV6Address | ipV6SubnetMask => rfl

/-! ## Checks and lines -/

theorem checks_and_lines_iff (Handler : Type) :
    (∀ s, ChecksString Handler s ↔ NothingBehindLiteral s) ∧
      (∀ s, ChecksMask Handler s ↔ StartsWithNumber s) ∧
        ∀ (split : Split) (line : List Char) (root : CommandTree Handler),
          ¬ Throws (analyzeCommand split line root) ↔ ¬ TriesMask split line root :=
  ⟨fun _ => checksString_iff, fun _ => checksMask_iff,
    fun _ _ _ => not_congr throws_analyzeCommand_iff⟩

/-- Text behind the closing quote, text behind a prefix length, and a word where `set` wants a
    prefix length. -/
theorem word_for_prefix_throws :
    ¬ ChecksString Unit "\"a\"b".toList ∧ ¬ ChecksMask Unit "24x".toList ∧
      ¬ ChecksMask Unit "foo".toList ∧
        Throws (analyzeCommand (cutAtRuns ' ') "set foo".toList
          (.node ⟨.none, [], none⟩ [.node ⟨.fixedWord, "set".toList, none⟩
            [.node ⟨.ipV4SubnetMask, [], none⟩ [.node ⟨.none, [], some ()⟩ []]]])) := by
  refine ⟨?_, ?_, ?_, ?_⟩
  · rw [checksString_iff]
    intro nothing
    cases nothing "a".toList "b".toList rfl rfl
  · rw [checksMask_iff]
    intro starts
    have alone := (@startsWithNumber_iff "24".toList "x".toList rfl rfl).mp starts
    cases alone.2.2 (by decide)
  · rw [checksMask_iff]
    intro starts
    have nonempty := (@startsWithNumber_iff [] "foo".toList rfl rfl).mp starts
    exact nonempty.1 rfl
  · exact ⟨_, rfl⟩

end Klevret.Verified.Cli
