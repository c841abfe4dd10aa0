import Mathlib.Algebra.Group.Int.Defs
import Klevret.Cli.Command

/-! # The checks of a word with signed overflow (`Command.cpp`)

`parseNumber` lets its `int` wrap, which is what the machine does.  In C++ an `int`
operation whose result is out of range is undefined behaviour; the definitions here are
the same functions under that rule. -/

namespace Klevret.Cli.Checked

open Klevret.Base
open Dhcp.WrapperForParsing (EOT remaining_getNext_of_accepted)

/-- The result of an operation on `int`s. -/
def intResult (value : ℤ) : Cpp ℤ :=
  if -2 ^ 31 ≤ value ∧ value < 2 ^ 31 then .ok value else undefinedBehaviour

/-- The digit loop of `parse_number`. -/
def readDigits (result : ℤ) (wrap : WrapperForParsing) : Cpp (ℤ × WrapperForParsing) :=
  if _isDigit : wrap.ch.isDigit then do
    let product ← intResult (result * 10)
    let sum ← intResult (product + (wrap.ch.toNat - '0'.toNat : ℕ))
    readDigits sum wrap.getNext
  else
    return (result, wrap)
termination_by wrap.remaining
decreasing_by exact remaining_getNext_of_accepted rfl _isDigit

def parseNumber (wrap : WrapperForParsing) : Cpp (ℤ × WrapperForParsing) :=
  if wrap.ch.isDigit then readDigits 0 wrap
  else throwRuntimeError "Ошибка парсинга числа: ожидалась цифра"

/-- The loop of `parse_ipv4_address`; `none` is `return false`, also from `catch (...)`. -/
def parseIpV4Octets (wrap : WrapperForParsing) : (missing : ℕ) → Cpp (Option WrapperForParsing)
  | 0 => return some wrap
  | missing + 1 =>
    match parseNumber wrap with
    -- `catch (...)` sees exceptions only
    | .error (.thrown _) => return none
    | .error .undefinedBehaviour => undefinedBehaviour
    | .ok (octet, wrap) =>
      if octet < 0 ∨ octet > 255 then return none
      else if missing ≠ 0 ∧ wrap.ch ≠ '.' then return none
      else parseIpV4Octets (if missing ≠ 0 then wrap.getNext else wrap) missing

def parseIpV4Address (str : List Char) : Cpp Bool := do
  let scanned ← parseIpV4Octets (.ofString str) 4
  match scanned with
  | none => return false
  | some wrap => return wrap.ch = EOT

/-- What comes after the number is not looked at. -/
def parseIpV4SubnetMask (str : List Char) : Cpp Bool := do
  let (mask, _) ← parseNumber (.ofString str)
  return ¬ (mask < 0 ∨ mask > 32)

def checkCommandElement {Handler : Type} (str : List Char) (element : CommandElement Handler) :
    Cpp Bool :=
  match element.type with
  | .ipV4Address => parseIpV4Address str
  | .ipV4SubnetMask => parseIpV4SubnetMask str
  | .none | .fixedWord | .string | .name | .ipV6Address | .ipV6SubnetMask =>
    Cli.checkCommandElement str element

end Klevret.Cli.Checked
