import Klevret.Base.Terminal
import Klevret.Cli.Console

/-! # The console and the terminal (`Console.cpp`, `main.cpp`)

What the calls of the console write, and what a display makes of it in the row in which the line is
typed.  `getkey` leaves the echo of the driver switched on, so that the keys of a turn, which come
while it waits for them, are in the row before the turn begins; the numbers 2 and 4 that are added
to the position of the cursor are the columns that they take.  The driver translates a newline that
is written, so that the next row begins at its left edge.  A handler writes whole lines behind the
newline of ENTER, which leave the row empty and are left out. -/

namespace Klevret.Cli

open Klevret.Base

/-- The value of the enumerator. -/
def Color.number : Color → ℕ
  | .black => 0
  | .red => 1
  | .green => 2
  | .yellow => 3
  | .blue => 4
  | .purple => 5
  | .darkGreen => 6
  | .white => 7

/-- `std::to_string`. -/
def intToString : ℤ → List Char
  | .ofNat number => Nat.toDigits 10 number
  | .negSucc number => '-' :: Nat.toDigits 10 (number + 1)

/-- What a call writes. -/
def ConsoleCall.written : ConsoleCall → List Char
  | .moveCursorToLeft number =>
    if number = 0 then [] else sequenceStart ++ intToString number ++ ['D']
  | .clearLineFromCursorPosition => sequenceStart ++ ['K']
  | .writeStr str => str
  | .changeTextColor color => sequenceStart ++ '3' :: Nat.toDigits 10 color.number ++ ['m']

section

variable {State : Type} (display : Display State)

/-- What the driver shows of the keys of a turn. -/
def KeyPress.echo (press : KeyPress) : List Char :=
  match press.c with
  | none => []
  | some c =>
    if c = Console.ESC then
      display.echo c ++ (press.ch1.toList ++ press.ch2.toList).flatMap display.echo
    else display.echo c

/-- The loop on its terminal. -/
structure Screen (State : Type) where
  loop : KeyLoop
  terminal : State

namespace Screen

variable {Handler : Type} (split : Split) (root : CommandTree Handler)
  (handle : HandlerCall Handler → Except Exception Unit)

/-- What is written, once the calls are known to be made. -/
def feedCalls (terminal : State) (calls : List ConsoleCall) : State :=
  display.feed terminal (calls.flatMap ConsoleCall.written)

/-- A turn of the loop: the keys are echoed, and then the new calls are made. -/
def turn (press : KeyPress) (screen : Screen State) : Cpp (Screen State) := do
  let terminal := display.feed screen.terminal (press.echo display)
  let loop ← screen.loop.turn split root handle press
  let newCalls := loop.console.calls.drop screen.loop.console.calls.length
  return ⟨loop, feedCalls display terminal newCalls⟩

/-- Behind `print_tree` and `print_title`, on a terminal whose cursor was in an empty row. -/
def start : Screen State where
  loop := .start
  terminal := feedCalls display (display.feed (display.showing .empty) (printTree root 0))
    KeyLoop.start.console.calls

/-- The screen after some turns. -/
def after (presses : List KeyPress) : Cpp (Screen State) :=
  presses.foldlM (fun screen press => screen.turn display split root handle press)
    (start display root)

end Screen

end

end Klevret.Cli
