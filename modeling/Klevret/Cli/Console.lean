import Mathlib.Algebra.Group.Nat.Defs
import Klevret.Cli.Main
import Klevret.Cli.Overflow

/-! # The console and its keys (`Console.hpp`, `Console.cpp`, `main.cpp`)

One turn of the loop of `main` takes what `getkey` returns and changes the line that is being
typed.  The position of the cursor is an `int`, whose overflow is undefined.  What is written to
the terminal is kept as the calls of the console; where an exception leaves `main`, the loop is
over.  `split` cuts a line as in `analyzeCommand`, and `handle` says whether a handler returns or
throws. -/

namespace Klevret.Cli

open Klevret.Base
open Checked (intResult)

inductive Color where
  | black
  | red
  | green
  | yellow
  | blue
  | purple
  | darkGreen
  | white
deriving DecidableEq, Repr

inductive ConsoleCall where
  | moveCursorToLeft (number : ℤ)
  | clearLineFromCursorPosition
  | writeStr (str : List Char)
  | changeTextColor (color : Color)
deriving DecidableEq, Repr

/-- The line and its cursor, and what has been done to the terminal so far. -/
structure Console where
  currentCommandInput : List Char
  currentCommandInputCursorPos : ℤ
  currentTextColor : Color
  calls : List ConsoleCall
deriving DecidableEq, Repr

namespace Console

def BACKSPACE : Char := Char.ofNat 127
def TAB : Char := Char.ofNat 9
def ENTER : Char := Char.ofNat 13
def ESC : Char := Char.ofNat 27
def SPACE : Char := ' '

def moveCursorToLeft (number : ℤ) (console : Console) : Console :=
  { console with calls := console.calls ++ [.moveCursorToLeft number] }

def clearLineFromCursorPosition (console : Console) : Console :=
  { console with calls := console.calls ++ [.clearLineFromCursorPosition] }

def writeStr (str : List Char) (console : Console) : Console :=
  { console with calls := console.calls ++ [.writeStr str] }

def changeTextColor (color : Color) (console : Console) : Console :=
  { console with
    currentTextColor := color
    calls := console.calls ++ [.changeTextColor color] }

def printTitle (console : Console) : Console :=
  let oldColor := console.currentTextColor
  ((console.changeTextColor .green).writeStr "klevret> ".toList).changeTextColor oldColor

/-- The value that a `size_t` has after an `int` has been converted to it. -/
def sizeT (value : ℤ) : ℕ := (value % 2 ^ 64).toNat

/-- `str.erase(index, 1)`. -/
def erase (str : List Char) (index : ℕ) : Cpp (List Char) :=
  if index > str.length then .error (.thrown .outOfRange)
  else return str.eraseIdx index

/-- `length() - cursor_pos`, computed in `size_t` and passed as an `int`. -/
def distanceToEnd (console : Console) : ℤ :=
  Int.bmod (sizeT (console.currentCommandInput.length - console.currentCommandInputCursorPos))
    (2 ^ 32)

/-- `case Console::SPACE` and `default`. -/
def typeChar (c : Char) (console : Console) : Cpp Console := do
  let pos ← intResult (console.currentCommandInputCursorPos + 1)
  return { console with
    currentCommandInput := console.currentCommandInput ++ [c]
    currentCommandInputCursorPos := pos }

/-- What `case Console::BACKSPACE` does unless the cursor is at the start. -/
def deleteChar (console : Console) : Cpp Console := do
  let index ← intResult (console.currentCommandInputCursorPos - 1)
  let input ← erase console.currentCommandInput (sizeT index)
  let pos ← intResult (console.currentCommandInputCursorPos - 1)
  return { ({ console with currentCommandInput := input }.writeStr input) with
    currentCommandInputCursorPos := pos }

/-- `case Console::BACKSPACE`. -/
def pressBackspace (console : Console) : Cpp Console := do
  let back ← intResult (console.currentCommandInputCursorPos + 2)
  let console := (console.moveCursorToLeft back).clearLineFromCursorPosition
  let console ←
    if console.currentCommandInputCursorPos ≠ 0 then deleteChar console else pure console
  return console.moveCursorToLeft console.distanceToEnd

/-- How both arrows begin: the line is written again. -/
def rewrite (console : Console) : Cpp Console := do
  let back ← intResult (console.currentCommandInputCursorPos + 4)
  return ((console.moveCursorToLeft back).clearLineFromCursorPosition).writeStr
    console.currentCommandInput

/-- `case ESC_sequense::ARROW_LEFT`. -/
def pressArrowLeft (console : Console) : Cpp Console := do
  let console ← console.rewrite
  let pos ←
    if console.currentCommandInputCursorPos ≠ 0 then
      intResult (console.currentCommandInputCursorPos - 1)
    else pure console.currentCommandInputCursorPos
  let console := { console with currentCommandInputCursorPos := pos }
  return console.moveCursorToLeft console.distanceToEnd

/-- `case ESC_sequense::ARROW_RIGHT`; the comparison is made in `size_t`. -/
def pressArrowRight (console : Console) : Cpp Console := do
  let console ← console.rewrite
  let pos ←
    if sizeT console.currentCommandInputCursorPos < console.currentCommandInput.length then
      intResult (console.currentCommandInputCursorPos + 1)
    else pure console.currentCommandInputCursorPos
  let console := { console with currentCommandInputCursorPos := pos }
  return console.moveCursorToLeft console.distanceToEnd

end Console

/-- `ESC_sequense`. -/
inductive EscSequence where
  | arrowLeft
  | arrowRight
  | arrowUp
  | arrowDown
  | unknown
deriving DecidableEq, Repr

/-- What `getkey` returns in one turn of the loop, `none` being -1 (also for a byte 255).  Only
    behind `ESC` it is called a second and a third time. -/
structure KeyPress where
  c : Option Char
  ch1 : Option Char
  ch2 : Option Char
deriving DecidableEq, Repr

/-- `to_esq_sequence`. -/
def toEsqSequence (ch1 ch2 : Option Char) : EscSequence :=
  if ch1 = some '[' ∧ ch2 = some 'D' then .arrowLeft
  else if ch1 = some '[' ∧ ch2 = some 'C' then .arrowRight
  else .unknown

/-! ## The loop -/

/-- The console, and the variable `prev` of `main`. -/
structure KeyLoop where
  console : Console
  prev : Char
deriving DecidableEq, Repr

namespace KeyLoop

section

variable {Handler : Type} (split : Split) (root : CommandTree Handler)
  (handle : HandlerCall Handler → Except Exception Unit)

/-- `case Console::TAB`. -/
def pressTab (loop : KeyLoop) : Cpp KeyLoop := do
  let console := (loop.console.moveCursorToLeft 1).clearLineFromCursorPosition.writeStr ['\n']
  let analysis ← analyzeCommand split console.currentCommandInput root
  let console := analysis.current.children.foldl
    (fun console node => console.writeStr (node.label.toString ++ ['\n'])) console
  let console := (console.writeStr ['\r']).printTitle
  let console :=
    if loop.prev = Console.ENTER then
      { console with currentCommandInput := console.currentCommandInput ++
          (List.replicate 9 [Char.ofNat 27, '[', 'C']).flatten }
    else console
  return { loop with console := console.writeStr console.currentCommandInput }

/-- `case Console::ENTER`. -/
def enter (loop : KeyLoop) : Cpp KeyLoop := do
  let console := (loop.console.moveCursorToLeft 2).clearLineFromCursorPosition.writeStr ['\n']
  let call ← pressEnter split console.currentCommandInput root
  match call with
  | none => pure ⟨⟩
  | some call => (handle call).mapError .thrown
  let console := { console with
    currentCommandInput := []
    currentCommandInputCursorPos := 0 }
  return { loop with console := console.printTitle }

/-- The `switch` over the first key. -/
def turn (press : KeyPress) (loop : KeyLoop) : Cpp KeyLoop :=
  match press.c with
  | none => return loop
  | some c =>
    if c = Console.TAB then loop.pressTab split root
    else if c = Console.ENTER then loop.enter split root handle
    else if c = Console.BACKSPACE then do
      let console ← loop.console.pressBackspace
      return { loop with console }
    else if c = Console.SPACE then do
      let console ← loop.console.typeChar c
      return { loop with console }
    else if c = Console.ESC then
      match toEsqSequence press.ch1 press.ch2 with
      | .arrowLeft => do
        let console ← loop.console.pressArrowLeft
        return { loop with console }
      | .arrowRight => do
        let console ← loop.console.pressArrowRight
        return { loop with console }
      | .arrowUp | .arrowDown | .unknown => return loop
    else do
      let console ← loop.console.typeChar c
      return { loop with console }

/-- The loop in front of its first turn. -/
def start : KeyLoop where
  console := Console.printTitle ⟨[], 0, .white, []⟩
  prev := Char.ofNat 0

/-- The loop after some turns. -/
def after (presses : List KeyPress) : Cpp KeyLoop :=
  presses.foldlM (fun loop press => loop.turn split root handle press) start

end

end KeyLoop

end Klevret.Cli
