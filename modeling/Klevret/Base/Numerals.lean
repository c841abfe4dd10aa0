import Mathlib.Data.List.Basic
import Mathlib.Tactic.Common

/-! # Dotted decimal numerals

A text is read as the runs of digits that it starts with, one dot between each two, and
what stands behind the last run (`DottedRuns`).  For a given number of runs a text can be
read so in one way only (`DottedRuns.unique`).  A run may be empty, and then its value is 0. -/

namespace Klevret.Base

variable {text rest run run' tail tail' next : List Char} {runs runs' : List (List Char)}

/-- The value of a run of decimal digits. -/
def numeralValue (run : List Char) : ℕ := Nat.ofDigitChars 10 run 0

@[simp] theorem numeralValue_toDigits (number : ℕ) :
    numeralValue (Nat.toDigits 10 number) = number :=
  Nat.ofDigitChars_ten_toDigits

/-- A text that has no digit in front. -/
def NoDigitFirst : (text : List Char) → Prop
  | [] => True
  | ch :: _ => ch.isDigit = false

theorem noDigitFirst_dot (text : List Char) : NoDigitFirst ('.' :: text) := rfl

theorem noDigitFirst_dropWhile (text : List Char) :
    NoDigitFirst (text.dropWhile Char.isDigit) := by
  induction text with
  | nil => trivial
  | cons ch text inductionHypothesis =>
    by_cases isDigit : ch.isDigit
    · rwa [List.dropWhile_cons_of_pos isDigit]
    · rw [List.dropWhile_cons_of_neg isDigit]
      exact Bool.eq_false_iff.mpr isDigit

/-! ## One run -/

theorem dropWhile_run (digits : run.all Char.isDigit) (stops : NoDigitFirst tail) :
    (run ++ tail).dropWhile Char.isDigit = tail := by
  rw [List.dropWhile_append_of_pos (List.all_eq_true.mp digits)]
  cases tail with
  | nil => rfl
  | cons ch tail => exact List.dropWhile_cons_of_neg (Bool.eq_false_iff.mp stops)

theorem takeWhile_run (digits : run.all Char.isDigit) (stops : NoDigitFirst tail) :
    (run ++ tail).takeWhile Char.isDigit = run := by
  have whole := (run ++ tail).takeWhile_append_dropWhile (p := Char.isDigit)
  rw [dropWhile_run digits stops] at whole
  exact List.append_cancel_right whole

/-- Where the digits in front of a text end. -/
theorem exists_run (text : List Char) :
    ∃ run tail, text = run ++ tail ∧ run.all Char.isDigit ∧ NoDigitFirst tail :=
  ⟨text.takeWhile Char.isDigit, text.dropWhile Char.isDigit, List.takeWhile_append_dropWhile.symm,
    List.all_takeWhile, noDigitFirst_dropWhile text⟩

theorem run_unique (digits : run.all Char.isDigit) (stops : NoDigitFirst tail)
    (digits' : run'.all Char.isDigit) (stops' : NoDigitFirst tail')
    (same : run ++ tail = run' ++ tail') : run = run' ∧ tail = tail' := by
  have sameTail : tail = tail' := by
    rw [← dropWhile_run digits stops, same, dropWhile_run digits' stops']
  subst sameTail
  exact ⟨List.append_cancel_right same, rfl⟩

/-! ## Several runs -/

/-- The runs of digits in front of `text`, a dot between each two, and what is behind them. -/
structure DottedRuns (text : List Char) (runs : List (List Char)) (tail : List Char) : Prop where
  text_eq : text = ['.'].intercalate runs ++ tail
  digits : ∀ run ∈ runs, run.all Char.isDigit
  stops : NoDigitFirst tail

theorem dottedRuns_singleton : DottedRuns text [run] tail ↔
    text = run ++ tail ∧ run.all Char.isDigit ∧ NoDigitFirst tail := by
  constructor
  · intro isRuns
    refine ⟨?_, isRuns.digits run List.mem_cons_self, isRuns.stops⟩
    rw [isRuns.text_eq, List.intercalate_singleton]
  · rintro ⟨split, digits, stops⟩
    refine ⟨?_, List.forall_mem_singleton.mpr digits, stops⟩
    rw [split, List.intercalate_singleton]

theorem dottedRuns_cons_cons : DottedRuns text (run :: next :: runs) tail ↔
    ∃ rest, text = run ++ '.' :: rest ∧ run.all Char.isDigit ∧
      DottedRuns rest (next :: runs) tail := by
  constructor
  · intro isRuns
    obtain ⟨digits, restDigits⟩ := List.forall_mem_cons.mp isRuns.digits
    refine ⟨['.'].intercalate (next :: runs) ++ tail, ?_, digits, rfl, restDigits, isRuns.stops⟩
    rw [isRuns.text_eq, List.intercalate_cons_cons, List.append_assoc, List.append_assoc]
    rfl
  · rintro ⟨rest, split, digits, isRest⟩
    refine ⟨?_, List.forall_mem_cons.mpr ⟨digits, isRest.digits⟩, isRest.stops⟩
    rw [split, isRest.text_eq, List.intercalate_cons_cons, List.append_assoc, List.append_assoc]
    rfl

/-- One more run in front, with a dot behind it. -/
theorem DottedRuns.cons (digits : run.all Char.isDigit) (isRest : DottedRuns text runs tail)
    (nonempty : runs ≠ []) : DottedRuns (run ++ '.' :: text) (run :: runs) tail := by
  obtain ⟨next, runs, rfl⟩ := List.exists_cons_of_ne_nil nonempty
  exact dottedRuns_cons_cons.mpr ⟨text, rfl, digits, isRest⟩

theorem DottedRuns.uncons (isRuns : DottedRuns text (run :: runs) tail) (nonempty : runs ≠ []) :
    ∃ rest, text = run ++ '.' :: rest ∧ run.all Char.isDigit ∧ DottedRuns rest runs tail := by
  obtain ⟨next, runs, rfl⟩ := List.exists_cons_of_ne_nil nonempty
  exact dottedRuns_cons_cons.mp isRuns

theorem DottedRuns.unique (isRuns : DottedRuns text runs tail)
    (isRuns' : DottedRuns text runs' tail') (nonempty : runs ≠ [])
    (sameLength : runs.length = runs'.length) : runs = runs' ∧ tail = tail' := by
  induction runs generalizing text runs' with
  | nil => exact absurd rfl nonempty
  | cons run runs inductionHypothesis =>
    cases runs' with
    | nil => cases sameLength
    | cons run' runs' =>
      cases runs with
      | nil =>
        cases runs' with
        | nil =>
          obtain ⟨split, digits, stops⟩ := dottedRuns_singleton.mp isRuns
          obtain ⟨split', digits', stops'⟩ := dottedRuns_singleton.mp isRuns'
          obtain ⟨sameRun, sameTail⟩ :=
            run_unique digits stops digits' stops' (split.symm.trans split')
          exact ⟨by rw [sameRun], sameTail⟩
        | cons next' runs' => cases sameLength
      | cons next runs =>
        cases runs' with
        | nil => cases sameLength
        | cons next' runs' =>
          obtain ⟨rest, split, digits, isRest⟩ := dottedRuns_cons_cons.mp isRuns
          obtain ⟨rest', split', digits', isRest'⟩ := dottedRuns_cons_cons.mp isRuns'
          obtain ⟨sameRun, sameRest⟩ :=
            run_unique digits (noDigitFirst_dot rest) digits' (noDigitFirst_dot rest')
              (split.symm.trans split')
          cases sameRest
          obtain ⟨sameRuns, sameTail⟩ :=
            inductionHypothesis isRest isRest' (List.cons_ne_nil _ _) (Nat.succ.inj sameLength)
          exact ⟨by rw [sameRun, sameRuns], sameTail⟩

/-! ## Numerals -/

/-- `text` is a numeral for each of the values, one dot between each two, and nothing else. -/
def DottedNumerals (text : List Char) (values : List ℕ) : Prop :=
  ∃ runs, DottedRuns text runs [] ∧ (∀ run ∈ runs, run ≠ []) ∧ runs.map numeralValue = values

/-- The decimal forms of the numbers with dots between them. -/
theorem dottedRuns_toDigits (numbers : List ℕ) :
    DottedRuns (['.'].intercalate (numbers.map (Nat.toDigits 10)))
      (numbers.map (Nat.toDigits 10)) [] := by
  refine ⟨(List.append_nil _).symm, ?_, trivial⟩
  intro run member
  obtain ⟨number, -, rfl⟩ := List.mem_map.mp member
  rw [List.all_eq_true]
  intro digit isDigit
  exact Nat.isDigit_of_mem_toDigits (by decide) (by decide) isDigit

end Klevret.Base
