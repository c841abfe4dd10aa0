import Klevret.Base.Numerals
import Klevret.Dhcp.IpAddress

/-! # Octets in decimal

`parse_octet` takes the run of digits at the cursor, an empty one too, and computes its
value modulo `2 ^ 64`.  The loop of the address constructor succeeds on the texts that begin
with enough such runs, and steps over the character behind the last (`parseOctets_of_runs`,
`throws_or_runs_of_parseOctets`). -/

namespace Klevret.Verified.Address

open Klevret.Base Klevret.Dhcp
open Klevret.Dhcp.WrapperForParsing (EOT ofString)

variable {text run tail : List Char} {runs : List (List Char)} {missing : ℕ}

/-! ## One octet -/

theorem isDigit_iff (ch : Char) : ch.isDigit ↔ '0' ≤ ch ∧ ch ≤ '9' := by
  simp [Char.isDigit, Char.le_def]

/-- The digit loops stop in front of such a text, at its end too. -/
theorem not_isDigit_of_noDigitFirst (stops : NoDigitFirst tail) :
    (ofString tail).ch.isDigit = false := by
  cases tail with
  | nil => rfl
  | cons ch tail => exact stops

/-- What the cursor shows is the first character of the text, unless it is the marker. -/
theorem exists_rest_of_ch {ch : Char} (shown : (ofString tail).ch = ch) (notMarker : ch ≠ EOT) :
    ∃ rest, tail = ch :: rest := by
  cases tail with
  | nil => exact absurd shown.symm notMarker
  | cons first rest => exact ⟨rest, congrArg (· :: rest) shown⟩

theorem parseOctetDigits_run (digits : run.all Char.isDigit) (stops : NoDigitFirst tail)
    (start : ℕ) :
    parseOctetDigits (UInt64.ofNat start) (ofString (run ++ tail)) =
      (UInt64.ofNat (Nat.ofDigitChars 10 run start), ofString tail) := by
  induction run generalizing start with
  | nil =>
    have atEnd : ¬ ('0' ≤ (ofString tail).ch ∧ (ofString tail).ch ≤ '9') := by
      rw [← isDigit_iff, not_isDigit_of_noDigitFirst stops]
      exact Bool.false_ne_true
    rw [List.nil_append, parseOctetDigits, dif_neg atEnd, Nat.ofDigitChars_nil]
  | cons digit run inductionHypothesis =>
    rw [List.all_cons, Bool.and_eq_true] at digits
    have inDigits : '0' ≤ digit ∧ digit ≤ '9' := (isDigit_iff digit).mp digits.1
    -- the accumulator is the value of the digits so far modulo `2 ^ 64`
    have step : UInt64.ofNat start * 10 + digitValue digit =
        UInt64.ofNat (10 * start + (digit.toNat - '0'.toNat)) := by
      rw [digitValue, UInt64.ofNat_add, UInt64.ofNat_mul, UInt64.mul_comm]
      rfl
    rw [List.cons_append, parseOctetDigits, dif_pos (by simpa using inDigits),
      WrapperForParsing.ch_ofString_cons, WrapperForParsing.getNext_ofString_cons, step,
      inductionHypothesis digits.2, Nat.ofDigitChars_cons]

/-- The value that a `size_t` has after the digits of the run. -/
def octetValue (run : List Char) : UInt64 := UInt64.ofNat (numeralValue run)

/-- A run that `parse_octet` lets through: the value is compared after it has wrapped. -/
def Passes (run : List Char) : Prop := numeralValue run % 2 ^ 64 ≤ 255

theorem passes_iff : Passes run ↔ ¬ octetValue run > 255 := by
  rw [gt_iff_lt, UInt64.lt_iff_toNat_lt, octetValue, UInt64.toNat_ofNat', Passes, Nat.not_lt]
  rfl

theorem passes_of_le (small : numeralValue run ≤ 255) : Passes run :=
  Nat.le_trans (Nat.mod_le _ _) small

section OneOctet

variable (digits : run.all Char.isDigit) (stops : NoDigitFirst tail)

include digits stops

theorem parseOctet_of_passes (passes : Passes run) :
    parseOctet (ofString (run ++ tail)) = .ok (octetValue run, ofString tail) := by
  have fromZero : UInt64.ofNat 0 = 0 := rfl
  have read := parseOctetDigits_run digits stops 0
  rw [fromZero] at read
  rw [parseOctet, read]
  exact if_neg (passes_iff.mp passes)

theorem throws_parseOctet (large : ¬ Passes run) :
    Throws (parseOctet (ofString (run ++ tail))) := by
  have fromZero : UInt64.ofNat 0 = 0 := rfl
  have read := parseOctetDigits_run digits stops 0
  rw [passes_iff, not_not] at large
  rw [fromZero] at read
  rw [parseOctet, read]
  change Throws (if octetValue run > 255 then _ else _)
  rw [if_pos large]
  exact throws_runtimeError _

end OneOctet

/-! ## The loop of the address constructor -/

/-- The octet that is stored for a run. -/
def storedOctet (run : List Char) : UInt8 := (octetValue run).toUInt8

theorem toNat_storedOctet (small : numeralValue run ≤ 255) :
    (storedOctet run).toNat = numeralValue run := by
  rw [storedOctet, octetValue, UInt64.toUInt8_ofNat', UInt8.toNat_ofNat']
  omega

theorem parseOctets_of_runs (isRuns : DottedRuns text runs tail) (nonempty : runs ≠ [])
    (passes : ∀ run ∈ runs, Passes run) :
    parseOctets (ofString text) runs.length =
      .ok (runs.map storedOctet, (ofString tail).getNext) := by
  induction runs generalizing text with
  | nil => exact absurd rfl nonempty
  | cons run runs inductionHypothesis =>
    obtain ⟨runPasses, restPasses⟩ := List.forall_mem_cons.mp passes
    cases runs with
    | nil =>
      obtain ⟨rfl, digits, stops⟩ := dottedRuns_singleton.mp isRuns
      rw [List.length_cons, parseOctets, parseOctet_of_passes digits stops runPasses]
      rfl
    | cons next runs =>
      obtain ⟨rest, rfl, digits, isRest⟩ := dottedRuns_cons_cons.mp isRuns
      have atDot : ¬ (0 < (next :: runs).length ∧ (ofString ('.' :: rest)).ch ≠ '.') := by
        simp
      rw [List.length_cons, parseOctets,
        parseOctet_of_passes digits (noDigitFirst_dot rest) runPasses, ok_bind]
      dsimp only
      rw [if_neg atDot, WrapperForParsing.getNext_ofString_cons,
        inductionHypothesis isRest (List.cons_ne_nil _ _) restPasses]
      rfl

/-- The loop throws unless the text begins with runs that pass. -/
theorem throws_or_runs_of_parseOctets (text : List Char) (missing : ℕ) :
    Throws (parseOctets (ofString text) (missing + 1)) ∨
      ∃ runs tail, DottedRuns text runs tail ∧ runs.length = missing + 1 ∧
        ∀ run ∈ runs, Passes run := by
  obtain ⟨run, tail, rfl, digits, stops⟩ := exists_run text
  by_cases passes : Passes run
  · rw [parseOctets, parseOctet_of_passes digits stops passes, ok_bind]
    dsimp only
    cases missing with
    | zero =>
      -- behind the last octet anything may stand
      exact Or.inr ⟨[run], tail, dottedRuns_singleton.mpr ⟨rfl, digits, stops⟩, rfl,
        List.forall_mem_singleton.mpr passes⟩
    | succ missing =>
      by_cases atDot : (ofString tail).ch = '.'
      · obtain ⟨rest, rfl⟩ := exists_rest_of_ch atDot (by decide)
        rw [if_neg (by simp), WrapperForParsing.getNext_ofString_cons]
        obtain throws | ⟨runs, tail, isRuns, length, restPasses⟩ :=
          throws_or_runs_of_parseOctets rest missing
        · exact Or.inl (throws.bind _)
        · have nonempty : runs ≠ [] := List.ne_nil_of_length_eq_add_one length
          exact Or.inr ⟨run :: runs, tail, isRuns.cons digits nonempty, congrArg (· + 1) length,
            List.forall_mem_cons.mpr ⟨passes, restPasses⟩⟩
      · rw [if_pos ⟨Nat.succ_pos missing, atDot⟩]
        exact Or.inl (throws_runtimeError _)
  · rw [parseOctets]
    exact Or.inl ((throws_parseOctet digits stops passes).bind _)

/-! ## Printing and reading back -/

theorem storedOctet_toDigits (octet : UInt8) :
    storedOctet (Nat.toDigits 10 octet.toNat) = octet := by
  rw [storedOctet, octetValue, numeralValue_toDigits, UInt64.toUInt8_ofNat', UInt8.ofNat_toNat]

/-- The address constructor reads back what either `to_string` writes. -/
theorem ofString_octetsToString (data : Vector UInt8 4) :
    IPv4Address.ofString (octetsToString data) = .ok ⟨data⟩ := by
  have length : data.toList.length = 4 := Vector.length_toList
  have nonempty : (data.toList.map UInt8.toNat).map (Nat.toDigits 10) ≠ [] := by
    intro empty
    rw [List.map_eq_nil_iff, List.map_eq_nil_iff] at empty
    rw [empty] at length
    cases length
  have passes : ∀ run ∈ (data.toList.map UInt8.toNat).map (Nat.toDigits 10), Passes run := by
    intro run member
    rw [List.map_map] at member
    obtain ⟨octet, -, rfl⟩ := List.mem_map.mp member
    apply passes_of_le
    change numeralValue (Nat.toDigits 10 octet.toNat) ≤ 255
    rw [numeralValue_toDigits]
    exact Nat.le_of_lt_succ octet.toNat_lt
  have stored : ((data.toList.map UInt8.toNat).map (Nat.toDigits 10)).map storedOctet =
      data.toList := by
    rw [List.map_map, List.map_map]
    exact List.map_id'' storedOctet_toDigits data.toList
  have parsed := parseOctets_of_runs
    (dottedRuns_toDigits (data.toList.map UInt8.toNat)) nonempty passes
  rw [stored, List.length_map, List.length_map, length] at parsed
  rw [IPv4Address.ofString, octetsToString, parsed, ok_bind]
  dsimp only
  rw [if_neg (by decide), dif_pos length]
  rfl

end Klevret.Verified.Address
