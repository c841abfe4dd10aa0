import Klevret.Cli.Overflow
import Klevret.Verified.Address.Octets

/-! # Reading a number in the CLI

With signed overflow undefined, `parse_number` is defined for a numeral below `2 ^ 31`
(`parseNumber_run`).  The machine reads every numeral, and wraps (`parseNumber_wrapping`). -/

namespace Klevret.Verified.Cli

open Klevret.Base Klevret.Cli
open Klevret.Dhcp.WrapperForParsing (EOT ofString ch_ofString_cons getNext_ofString_cons
  readWhile_ofString)
open Klevret.Verified.Address (not_isDigit_of_noDigitFirst)

variable {run tail : List Char}

/-! ## Under the rules of C++ -/

theorem le_ofDigitChars (run : List Char) (start : ℕ) : start ≤ Nat.ofDigitChars 10 run start := by
  rw [Nat.ofDigitChars_eq_ofDigitChars_zero]
  exact Nat.le_add_right_of_le (Nat.le_mul_of_pos_left start (Nat.pow_pos (by decide)))

theorem intResult_of_lt {value : ℕ} (small : value < 2 ^ 31) :
    Checked.intResult value = .ok (value : ℤ) :=
  if_pos (by omega)

theorem intResult_of_le {value : ℕ} (large : 2 ^ 31 ≤ value) :
    Checked.intResult value = undefinedBehaviour :=
  if_neg (by omega)

/-- The loop reads on from `start` until the digits end or the `int` overflows. -/
theorem readDigits_run (digits : run.all Char.isDigit) (stops : NoDigitFirst tail) {start : ℕ}
    (small : start < 2 ^ 31) :
    Checked.readDigits start (ofString (run ++ tail)) =
      if Nat.ofDigitChars 10 run start < 2 ^ 31 then
        .ok ((Nat.ofDigitChars 10 run start : ℤ), ofString tail)
      else undefinedBehaviour := by
  induction run generalizing start with
  | nil =>
    have atEnd : ¬ (ofString tail).ch.isDigit := by
      rw [not_isDigit_of_noDigitFirst stops]
      exact Bool.false_ne_true
    rw [List.nil_append, Checked.readDigits, dif_neg atEnd, Nat.ofDigitChars_nil, if_pos small]
    rfl
  | cons digit run inductionHypothesis =>
    rw [List.all_cons, Bool.and_eq_true] at digits
    rw [List.cons_append, Checked.readDigits, dif_pos (by simpa using digits.1), ch_ofString_cons,
      getNext_ofString_cons, Nat.ofDigitChars_cons]
    have grows := le_ofDigitChars run (10 * start + (digit.toNat - '0'.toNat))
    have sameProduct : (start : ℤ) * 10 = ((10 * start : ℕ) : ℤ) := by omega
    have sameSum : ((10 * start : ℕ) : ℤ) + ((digit.toNat - '0'.toNat : ℕ) : ℤ) =
        ((10 * start + (digit.toNat - '0'.toNat) : ℕ) : ℤ) := by omega
    -- either operation may be the one that overflows
    by_cases productSmall : 10 * start < 2 ^ 31
    · rw [sameProduct, intResult_of_lt productSmall, ok_bind, sameSum]
      by_cases sumSmall : 10 * start + (digit.toNat - '0'.toNat) < 2 ^ 31
      · rw [intResult_of_lt sumSmall, ok_bind]
        exact inductionHypothesis digits.2 sumSmall
      · rw [intResult_of_le (Nat.le_of_not_lt sumSmall), if_neg (by omega)]
        rfl
    · rw [sameProduct, intResult_of_le (Nat.le_of_not_lt productSmall), if_neg (by omega)]
      rfl

theorem isDigit_ch_run (nonempty : run ≠ []) (digits : run.all Char.isDigit) :
    (ofString (run ++ tail)).ch.isDigit := by
  cases run with
  | nil => exact absurd rfl nonempty
  | cons digit rest =>
    rw [List.all_cons, Bool.and_eq_true] at digits
    simpa using digits.1

theorem parseNumber_run (nonempty : run ≠ []) (digits : run.all Char.isDigit)
    (stops : NoDigitFirst tail) :
    Checked.parseNumber (ofString (run ++ tail)) =
      if numeralValue run < 2 ^ 31 then .ok ((numeralValue run : ℤ), ofString tail)
      else undefinedBehaviour := by
  rw [Checked.parseNumber, if_pos (isDigit_ch_run nonempty digits)]
  exact readDigits_run digits stops (by decide)

theorem throws_parseNumber (stops : NoDigitFirst tail) :
    Throws (Checked.parseNumber (ofString tail)) := by
  rw [Checked.parseNumber, not_isDigit_of_noDigitFirst stops]
  exact throws_runtimeError _

/-! ## On the machine -/

theorem foldl_int32 (run : List Char) (start : ℕ) :
    run.foldl (fun result ch => result * 10 + Int32.ofNat (ch.toNat - '0'.toNat))
      (Int32.ofNat start) = Int32.ofNat (Nat.ofDigitChars 10 run start) := by
  induction run generalizing start with
  | nil => rw [List.foldl_nil, Nat.ofDigitChars_nil]
  | cons digit run inductionHypothesis =>
    have step : Int32.ofNat start * 10 + Int32.ofNat (digit.toNat - '0'.toNat) =
        Int32.ofNat (10 * start + (digit.toNat - '0'.toNat)) := by
      rw [Int32.ofNat_add, Int32.ofNat_mul, Int32.mul_comm]
      rfl
    rw [List.foldl_cons, step, inductionHypothesis, Nat.ofDigitChars_cons]

theorem readDigits_eq (wrap : WrapperForParsing) (notMarker : EOT.isDigit = false) :
    readDigits wrap = ((wrap.readWhile Char.isDigit notMarker).1.foldl
      (fun result ch => result * 10 + Int32.ofNat (ch.toNat - '0'.toNat)) 0,
      (wrap.readWhile Char.isDigit notMarker).2) := rfl

/-- The wrapping loop stops where the digits end. -/
theorem readDigits_wrapping (digits : run.all Char.isDigit) (stops : NoDigitFirst tail) :
    readDigits (ofString (run ++ tail)) = (Int32.ofNat (numeralValue run), ofString tail) := by
  have notMarker : EOT.isDigit = false := rfl
  rw [readDigits_eq _ notMarker, readWhile_ofString, takeWhile_run digits stops,
    dropWhile_run digits stops]
  exact congrArg (·, ofString tail) (foldl_int32 run 0)

theorem parseNumber_wrapping (nonempty : run ≠ []) (digits : run.all Char.isDigit)
    (stops : NoDigitFirst tail) :
    parseNumber (ofString (run ++ tail)) = .ok (Int32.ofNat (numeralValue run), ofString tail) := by
  rw [parseNumber, if_pos (isDigit_ch_run nonempty digits), readDigits_wrapping digits stops]
  rfl

theorem lt_zero_or_gt_iff {value bound : ℕ} (small : value < 2 ^ 31) (smallBound : bound < 2 ^ 31) :
    (Int32.ofNat value < 0 ∨ Int32.ofNat value > Int32.ofNat bound) ↔ value > bound := by
  rw [gt_iff_lt, Int32.lt_iff_toInt_lt, Int32.lt_iff_toInt_lt, Int32.toInt_ofNat_of_lt small,
    Int32.toInt_ofNat_of_lt smallBound, Int32.toInt_zero]
  omega

end Klevret.Verified.Cli
