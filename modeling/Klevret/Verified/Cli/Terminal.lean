import Klevret.Cli.Screen
import Klevret.Verified.Cli.Outline
import Klevret.Verified.Cli.Registry

/-! # What the loop writes to the terminal

The echo of the keys (`isEcho_of_plain`), and what the calls of each key make of the row: those that
draw the line again go back to the end of the prompt, clear the rest and write it
(`feedCalls_arrowCalls`, `feedCalls_pressBackspace`), and the others begin a new row with the prompt
(`feedCalls_enterCalls`, `feedCalls_tabCalls`). -/

namespace Klevret.Verified.Cli

open Klevret.Base Klevret.Cli
open Klevret.Cli.Checked (intResult)

/-! ## Keys -/

/-- Characters with a cell each are typed, and escape sequences consist of such. -/
structure Plain (press : KeyPress) : Prop where
  character : ∀ c, eventOf press = .character c → Printable c
  sequence : press.c = some Console.ESC → ∀ c ∈ press.ch1.toList ++ press.ch2.toList, Printable c

structure PlainKey where
  press : KeyPress
  plain : Plain press

/-- What is seen of the keys of a turn. -/
def IsEcho (echo : List Char) : KeyEvent → Prop
  | .nothing => echo = []
  | .character c => echo = [c]
  | .tab => echo = ['\t']
  | .backspace | .enter => (∀ c ∈ echo, Printable c) ∧ echo.length = 2
  | .arrowLeft | .arrowRight => (∀ c ∈ echo, Printable c) ∧ echo.length = 4
  | .unknownEscape => (∀ c ∈ echo, Printable c) ∧ 2 ≤ echo.length

/-- An escape sequence is that of an arrow or unknown. -/
theorem eventOf_escape (ch1 ch2 : Option Char) :
    ch1 = some '[' ∧ ch2 = some 'D' ∧ eventOf ⟨some Console.ESC, ch1, ch2⟩ = .arrowLeft ∨
      ch1 = some '[' ∧ ch2 = some 'C' ∧ eventOf ⟨some Console.ESC, ch1, ch2⟩ = .arrowRight ∨
      eventOf ⟨some Console.ESC, ch1, ch2⟩ = .unknownEscape := by
  by_cases left : ch1 = some '[' ∧ ch2 = some 'D'
  · obtain ⟨rfl, rfl⟩ := left
    exact Or.inl ⟨rfl, rfl, rfl⟩
  by_cases right : ch1 = some '[' ∧ ch2 = some 'C'
  · obtain ⟨rfl, rfl⟩ := right
    exact Or.inr (Or.inl ⟨rfl, rfl, rfl⟩)
  · have unknown : toEsqSequence ch1 ch2 = .unknown := by
      rw [toEsqSequence, if_neg left, if_neg right]
    refine Or.inr (Or.inr ?_)
    unfold eventOf
    rw [unknown]
    rfl

section Echo

variable {State : Type} (display : Display State)

theorem isEcho_escape {ch1 ch2 : Option Char}
    (printable : ∀ c ∈ ch1.toList ++ ch2.toList, Printable c) :
    IsEcho (KeyPress.echo display ⟨some Console.ESC, ch1, ch2⟩)
      (eventOf ⟨some Console.ESC, ch1, ch2⟩) := by
  have echo : KeyPress.echo display ⟨some Console.ESC, ch1, ch2⟩ =
      display.echo Console.ESC ++ (ch1.toList ++ ch2.toList) := by
    simp only [KeyPress.echo, if_pos, display.flatMap_echo printable]
  obtain ⟨escPrintable, escLength⟩ :=
    @display.echo_control Console.ESC (by decide) (by decide) (by decide)
  have allPrintable : ∀ c ∈ display.echo Console.ESC ++ (ch1.toList ++ ch2.toList), Printable c :=
    List.forall_mem_append.mpr ⟨escPrintable, printable⟩
  rw [echo]
  obtain ⟨rfl, rfl, isEvent⟩ | ⟨rfl, rfl, isEvent⟩ | isEvent := eventOf_escape ch1 ch2
  · rw [isEvent]
    exact ⟨allPrintable, by simp [escLength]⟩
  · rw [isEvent]
    exact ⟨allPrintable, by simp [escLength]⟩
  · rw [isEvent]
    exact ⟨allPrintable, by simp [escLength]⟩

theorem isEcho_of_plain {press : KeyPress} (plain : Plain press) :
    IsEcho (press.echo display) (eventOf press) := by
  obtain ⟨key, ch1, ch2⟩ := press
  cases key with
  | none => rfl
  | some c =>
    by_cases esc : c = Console.ESC
    · subst esc
      exact isEcho_escape display (plain.sequence rfl)
    have echo : KeyPress.echo display ⟨some c, ch1, ch2⟩ = display.echo c := if_neg esc
    by_cases tab : c = Console.TAB
    · subst tab
      exact echo.trans display.echo_tab
    by_cases enter : c = Console.ENTER
    · subst enter
      rw [echo]
      exact display.echo_control (by decide) (by decide) (by decide)
    by_cases backspace : c = Console.BACKSPACE
    · subst backspace
      rw [echo]
      exact display.echo_control (by decide) (by decide) (by decide)
    · have isCharacter : eventOf ⟨some c, ch1, ch2⟩ = .character c := by
        simp only [eventOf, if_neg tab, if_neg enter, if_neg backspace, if_neg esc]
      rw [echo, isCharacter]
      exact display.echo_printable (plain.character c isCharacter)

end Echo

/-! ## What the calls do -/

section Calls

variable {State : Type} {display : Display State} {row : Row} {calls : List ConsoleCall}

theorem feed_moveCursorToLeft (row : Row) (number : ℤ) :
    display.feed (display.showing row) (ConsoleCall.moveCursorToLeft number).written =
      display.showing (row.moveLeft number.toNat) := by
  cases number with
  | ofNat number =>
    rw [ConsoleCall.written]
    split
    next isZero =>
      rw [isZero, display.feed_nil]
      rfl
    next nonzero =>
      have positive : 0 < number := Nat.pos_of_ne_zero fun isZero => nonzero (by rw [isZero]; rfl)
      exact display.feed_cursorLeft row positive
  | negSucc number => exact display.feed_cursorLeft_negative row (number + 1)

theorem feed_changeTextColor (row : Row) (color : Color) :
    display.feed (display.showing row) (ConsoleCall.changeTextColor color).written =
      display.showing row := by
  refine display.feed_colour row ?_
  rw [List.forall_mem_cons]
  exact ⟨by decide, fun c => Nat.isDigit_of_mem_toDigits (by decide) (by decide)⟩

theorem feedCalls_cons (terminal : State) (call : ConsoleCall) :
    Screen.feedCalls display terminal (call :: calls) =
      Screen.feedCalls display (display.feed terminal call.written) calls := by
  rw [Screen.feedCalls, List.flatMap_cons, display.feed_append, Screen.feedCalls]

theorem feedCalls_append (terminal : State) (calls more : List ConsoleCall) :
    Screen.feedCalls display terminal (calls ++ more) =
      Screen.feedCalls display (Screen.feedCalls display terminal calls) more := by
  rw [Screen.feedCalls, List.flatMap_append, display.feed_append, Screen.feedCalls,
    Screen.feedCalls]

@[simp] theorem feedCalls_nil (terminal : State) :
    Screen.feedCalls display terminal [] = terminal := display.feed_nil terminal

@[simp] theorem feedCalls_moveCursorToLeft (number : ℤ) :
    Screen.feedCalls display (display.showing row) (.moveCursorToLeft number :: calls) =
      Screen.feedCalls display (display.showing (row.moveLeft number.toNat)) calls := by
  rw [feedCalls_cons, feed_moveCursorToLeft]

@[simp] theorem feedCalls_clearLine :
    Screen.feedCalls display (display.showing row) (.clearLineFromCursorPosition :: calls) =
      Screen.feedCalls display (display.showing row.clearToEnd) calls := by
  rw [feedCalls_cons, ConsoleCall.written, display.feed_clear]

@[simp] theorem feedCalls_changeTextColor (color : Color) :
    Screen.feedCalls display (display.showing row) (.changeTextColor color :: calls) =
      Screen.feedCalls display (display.showing row) calls := by
  rw [feedCalls_cons, feed_changeTextColor]

theorem feedCalls_writeStr {str : List Char} (printable : ∀ c ∈ str, Printable c) :
    Screen.feedCalls display (display.showing row) (.writeStr str :: calls) =
      Screen.feedCalls display (display.showing (row.write str)) calls := by
  rw [feedCalls_cons, ConsoleCall.written, display.feed_printable row printable]

@[simp] theorem feedCalls_newline :
    Screen.feedCalls display (display.showing row) (.writeStr ['\n'] :: calls) =
      Screen.feedCalls display (display.showing .empty) calls := by
  rw [feedCalls_cons, ConsoleCall.written, display.feed_newline]

/-- The prompt. -/
def title : List Char := "klevret> ".toList

/-- A row that begins with the prompt. -/
def titled (text : List Char) (column : ℕ) : Row := ⟨title ++ text, column⟩

theorem feedCalls_titleCalls (color : Color) :
    Screen.feedCalls display (display.showing .empty) (titleCalls color) =
      display.showing (titled [] title.length) := by
  have printable : ∀ c ∈ "klevret> ".toList, Printable c := printable_of_all rfl
  rw [titleCalls, feedCalls_changeTextColor, feedCalls_writeStr printable, feedCalls_changeTextColor,
    feedCalls_nil]
  rfl

/-- The line behind the prompt. -/
theorem write_titled (text : List Char) :
    (titled [] title.length).write text = titled text (title.length + text.length) :=
  Row.write_atEnd title text

end Calls

/-! ## What the keys do to the row -/

section Turns

variable {Handler : Type} {split : Split} {root : CommandTree Handler}
  {commands : List (Command Handler)} {handle : HandlerCall Handler → Except Exception Unit}
  {loop nextLoop : KeyLoop} {console next : Console} {press : KeyPress} {row : Row}
  {State : Type} {display : Display State}

theorem eq_of_intResult {value result : ℤ} (returned : intResult value = .ok result) :
    result = value := by
  unfold intResult at returned
  split at returned
  next => exact (Except.ok.inj returned).symm
  next => cases returned

theorem distanceToEnd_moveCursorToLeft (console : Console) (number : ℤ) :
    (console.moveCursorToLeft number).distanceToEnd = console.distanceToEnd := by
  unfold Console.distanceToEnd
  rfl

/-- The calls of BACKSPACE. -/
theorem calls_pressBackspace (returned : console.pressBackspace = .ok next) :
    next.calls = console.calls ++
      ([.moveCursorToLeft (console.currentCommandInputCursorPos + 2), .clearLineFromCursorPosition] ++
        (if console.currentCommandInputCursorPos ≠ 0 then [.writeStr next.currentCommandInput]
          else []) ++
        [.moveCursorToLeft next.distanceToEnd]) := by
  obtain ⟨back, isBack, rest⟩ := bind_eq_ok.mp returned
  obtain rfl := eq_of_intResult isBack
  dsimp only at rest
  -- the position is tested behind the clearing, which does not change it
  generalize isCleared : (console.moveCursorToLeft
    (console.currentCommandInputCursorPos + 2)).clearLineFromCursorPosition = cleared at rest
  have position : console.currentCommandInputCursorPos = cleared.currentCommandInputCursorPos := by
    rw [← isCleared]
    rfl
  have calls : cleared.calls = console.calls ++
      [.moveCursorToLeft (console.currentCommandInputCursorPos + 2), .clearLineFromCursorPosition] := by
    rw [← isCleared]
    exact List.append_assoc _ _ _
  rw [← List.append_assoc, ← List.append_assoc, ← calls, position]
  by_cases inside : cleared.currentCommandInputCursorPos ≠ 0
  · rw [if_pos inside] at rest ⊢
    obtain ⟨edited, isEdited, isNext⟩ := bind_eq_ok.mp rest
    obtain ⟨index, _, deleted⟩ := bind_eq_ok.mp isEdited
    obtain ⟨input, _, moved⟩ := bind_eq_ok.mp deleted
    obtain ⟨position, _, isEdited⟩ := bind_eq_ok.mp moved
    obtain rfl := Except.ok.inj isEdited
    obtain rfl := Except.ok.inj isNext
    rfl
  · rw [if_neg inside] at rest ⊢
    obtain rfl := Except.ok.inj rest
    rw [List.append_nil]
    rfl

/-- The calls of the arrows. -/
def arrowCalls (console next : Console) : List ConsoleCall :=
  [.moveCursorToLeft (console.currentCommandInputCursorPos + 4), .clearLineFromCursorPosition,
    .writeStr next.currentCommandInput, .moveCursorToLeft next.distanceToEnd]

theorem calls_rewrite (returned : console.rewrite = .ok next) :
    next.calls = console.calls ++
      [.moveCursorToLeft (console.currentCommandInputCursorPos + 4), .clearLineFromCursorPosition,
        .writeStr next.currentCommandInput] := by
  obtain ⟨back, isBack, isNext⟩ := bind_eq_ok.mp returned
  obtain rfl := eq_of_intResult isBack
  obtain rfl := Except.ok.inj isNext
  simp [Console.clearLineFromCursorPosition, Console.moveCursorToLeft, Console.writeStr]

theorem calls_pressArrowLeft (returned : console.pressArrowLeft = .ok next) :
    next.calls = console.calls ++ arrowCalls console next := by
  obtain ⟨rewritten, isRewritten, rest⟩ := bind_eq_ok.mp returned
  have calls := calls_rewrite isRewritten
  by_cases inside : rewritten.currentCommandInputCursorPos ≠ 0
  · rw [if_pos inside] at rest
    obtain ⟨position, _, isNext⟩ := bind_eq_ok.mp rest
    obtain rfl := Except.ok.inj isNext
    rw [arrowCalls, distanceToEnd_moveCursorToLeft]
    generalize Console.distanceToEnd _ = distance
    simp [Console.moveCursorToLeft, calls]
  · rw [if_neg inside] at rest
    obtain rfl := Except.ok.inj rest
    rw [arrowCalls, distanceToEnd_moveCursorToLeft]
    generalize Console.distanceToEnd _ = distance
    simp [Console.moveCursorToLeft, calls]

theorem calls_pressArrowRight (returned : console.pressArrowRight = .ok next) :
    next.calls = console.calls ++ arrowCalls console next := by
  obtain ⟨rewritten, isRewritten, rest⟩ := bind_eq_ok.mp returned
  have calls := calls_rewrite isRewritten
  by_cases inside : Console.sizeT rewritten.currentCommandInputCursorPos <
      rewritten.currentCommandInput.length
  · rw [if_pos inside] at rest
    obtain ⟨position, _, isNext⟩ := bind_eq_ok.mp rest
    obtain rfl := Except.ok.inj isNext
    rw [arrowCalls, distanceToEnd_moveCursorToLeft]
    generalize Console.distanceToEnd _ = distance
    simp [Console.moveCursorToLeft, calls]
  · rw [if_neg inside] at rest
    obtain rfl := Except.ok.inj rest
    rw [arrowCalls, distanceToEnd_moveCursorToLeft]
    generalize Console.distanceToEnd _ = distance
    simp [Console.moveCursorToLeft, calls]

/-- The calls of ENTER. -/
def enterCalls (console : Console) : List ConsoleCall :=
  [.moveCursorToLeft 2, .clearLineFromCursorPosition, .writeStr ['\n']] ++
    titleCalls console.currentTextColor

theorem calls_enter (returned : loop.enter split root handle = .ok nextLoop) :
    nextLoop.console.calls = loop.console.calls ++ enterCalls loop.console := by
  obtain ⟨called, _, rest⟩ := bind_eq_ok.mp returned
  -- what the handler writes is no call of the console
  cases called with
  | none =>
    obtain rfl := Except.ok.inj rest
    simp [enterCalls, titleCalls, Console.printTitle, Console.changeTextColor, Console.writeStr,
      Console.moveCursorToLeft, Console.clearLineFromCursorPosition]
  | some call =>
    obtain ⟨_, _, isNext⟩ := bind_eq_ok.mp rest
    obtain rfl := Except.ok.inj isNext
    simp [enterCalls, titleCalls, Console.printTitle, Console.changeTextColor, Console.writeStr,
      Console.moveCursorToLeft, Console.clearLineFromCursorPosition]

/-! ### The hints -/

theorem printable_of_isAlpha {c : Char} (alpha : c.isAlpha) : Printable c := by
  have bounds : 'A'.toNat ≤ c.toNat ∧ c.toNat ≤ 'Z'.toNat ∨
      'a'.toNat ≤ c.toNat ∧ c.toNat ≤ 'z'.toNat := by
    obtain upper | lower := Bool.or_eq_true_iff.mp alpha
    · exact Or.inl (of_decide_eq_true upper)
    · obtain ⟨above, below⟩ := Bool.and_eq_true_iff.mp lower
      exact Or.inr ⟨of_decide_eq_true above, of_decide_eq_true below⟩
  change 65 ≤ c.toNat ∧ c.toNat ≤ 90 ∨ 97 ≤ c.toNat ∧ c.toNat ≤ 122 at bounds
  unfold Printable
  omega

theorem printable_of_label {element : CommandElement Handler}
    (kind : isEnd element ∨ element.Parsed) : ∀ c ∈ element.toString, Printable c := by
  have printable : ∀ entry ∈ variableTexts, entry.1.all (fun c => decide (Printable c)) = true := by
    decide
  have texts : ∀ entry ∈ variableTexts, ∀ c ∈ entry.1, Printable c := fun entry isEntry =>
    printable_of_all (printable entry isEntry)
  obtain ends | parsed := kind
  · have isNone : element.type = .none :=
      congrArg Prod.fst (of_decide_eq_true ends : element.key = (.none, []))
    refine texts (element.toString, .none) ?_
    simp [variableTexts, CommandElement.new, CommandElement.toString, isNone]
  · cases parsed with
    | word nonempty alpha =>
      intro c isLetter
      exact printable_of_isAlpha (List.all_eq_true.mp alpha c isLetter)
    | @variableElement type known =>
      refine texts (CommandElement.toString (.new type [] : CommandElement Handler), type) ?_
      revert known
      cases type <;>
        simp [variableTexts, CommandElement.new, CommandElement.toString, strToElementTypeMap]

theorem printable_of_hint {path : List (CommandElementType × List Char)}
    {element : CommandElement Handler} (isHint : element ∈ hints commands path) :
    ∀ c ∈ element.toString, Printable c := by
  obtain ⟨command, _, goesOn⟩ := List.mem_filterMap.mp (RoseTree.keepFirst_subset isHint)
  obtain rfl | member := RoseTree.mem_of_continuation goesOn
  · exact printable_of_label (Or.inl rfl)
  · exact printable_of_label (Or.inr (command.parsed element member))

/-! ### What the calls make of the row -/

/-- The row when a key has gone back to the prompt and cleared what stood behind it. -/
theorem row_cleared (isTitle : row.cells.take title.length = title)
    (inside : row.column ≤ row.cells.length) {cursor : ℕ}
    (column : row.column = title.length + cursor) (echo : List Char) :
    ((row.write echo).moveLeft (cursor + echo.length)).clearToEnd = titled [] title.length := by
  have back : row.column - title.length = cursor := by omega
  have behind : title.length ≤ row.column := by omega
  have cleared := @Row.clearToEnd_back row echo inside title.length behind
  rw [back, isTitle] at cleared
  rw [cleared, titled, List.append_nil]

theorem feedCalls_arrowCalls {cursor : ℕ} {echo : List Char}
    (position : console.currentCommandInputCursorPos = cursor) (length : echo.length = 4)
    (isTitle : row.cells.take title.length = title) (inside : row.column ≤ row.cells.length)
    (column : row.column = title.length + cursor)
    (printable : ∀ c ∈ next.currentCommandInput, Printable c) :
    Screen.feedCalls display (display.showing (row.write echo)) (arrowCalls console next) =
      display.showing (titled next.currentCommandInput
        (title.length + next.currentCommandInput.length - next.distanceToEnd.toNat)) := by
  have back : ((cursor : ℤ) + 4).toNat = cursor + echo.length := by omega
  rw [arrowCalls, position, feedCalls_moveCursorToLeft, back, feedCalls_clearLine,
    row_cleared isTitle inside column, feedCalls_writeStr printable, write_titled,
    feedCalls_moveCursorToLeft, feedCalls_nil]
  rfl

theorem feedCalls_enterCalls (row : Row) (console : Console) :
    Screen.feedCalls display (display.showing row) (enterCalls console) =
      display.showing (titled [] title.length) := by
  rw [enterCalls, feedCalls_append, feedCalls_moveCursorToLeft, feedCalls_clearLine,
    feedCalls_newline, feedCalls_nil, feedCalls_titleCalls]

theorem feedCalls_hints {elements : List (CommandElement Handler)}
    (printable : ∀ element ∈ elements, ∀ c ∈ element.toString, Printable c) :
    Screen.feedCalls display (display.showing .empty)
        (elements.map fun element => .writeStr (element.toString ++ ['\n'])) =
      display.showing .empty := by
  have lines := display.feed_lines (List.forall_mem_map.mpr printable)
  rw [List.flatMap_map] at lines
  rwa [Screen.feedCalls, List.flatMap_map]

theorem feedCalls_tabCalls (row : Row) {path : List (CommandElementType × List Char)}
    (printable : ∀ c ∈ console.currentCommandInput, Printable c) :
    Screen.feedCalls display (display.showing row) (tabCalls console (hints commands path)) =
      display.showing (titled console.currentCommandInput
        (title.length + console.currentCommandInput.length)) := by
  have returned : Screen.feedCalls display (display.showing .empty) [.writeStr ['\r']] =
      display.showing .empty := by
    rw [feedCalls_cons, feedCalls_nil]
    exact display.feed_return .empty
  rw [tabCalls, feedCalls_append, feedCalls_append, feedCalls_append, feedCalls_append,
    feedCalls_moveCursorToLeft, feedCalls_clearLine, feedCalls_newline, feedCalls_nil,
    feedCalls_hints fun _ => printable_of_hint, returned, feedCalls_titleCalls,
    feedCalls_writeStr printable, write_titled, feedCalls_nil]

/-- BACKSPACE in front of the line clears it from the row. -/
theorem feedCalls_pressBackspace {cursor : ℕ} {echo : List Char}
    (returned : console.pressBackspace = .ok next)
    (position : console.currentCommandInputCursorPos = cursor) (length : echo.length = 2)
    (isTitle : row.cells.take title.length = title) (inside : row.column ≤ row.cells.length)
    (column : row.column = title.length + cursor)
    (printable : ∀ c ∈ next.currentCommandInput, Printable c) :
    Screen.feedCalls display (display.showing (row.write echo))
        (next.calls.drop console.calls.length) =
      display.showing
        (if cursor = 0 then titled [] (title.length - next.distanceToEnd.toNat)
        else titled next.currentCommandInput
          (title.length + next.currentCommandInput.length - next.distanceToEnd.toNat)) := by
  have back : ((cursor : ℤ) + 2).toNat = cursor + echo.length := by omega
  rw [calls_pressBackspace returned, List.drop_left, position, feedCalls_append, feedCalls_append,
    feedCalls_moveCursorToLeft, back, feedCalls_clearLine, row_cleared isTitle inside column,
    feedCalls_nil]
  by_cases atStart : cursor = 0
  · -- the line is not written again, and the cursor goes left into the prompt
    rw [if_pos atStart, if_neg (by simp [atStart]), feedCalls_nil, feedCalls_moveCursorToLeft,
      feedCalls_nil]
    rfl
  · rw [if_neg atStart, if_pos (by simpa using atStart), feedCalls_writeStr printable, write_titled,
      feedCalls_nil, feedCalls_moveCursorToLeft, feedCalls_nil]
    rfl

end Turns

end Klevret.Verified.Cli
