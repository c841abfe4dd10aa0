import Klevret.Cli.Console
import Klevret.Verified.Cli.Analysis
import Klevret.Verified.Cli.Numbers

/-! # What one key does to the line

The key that is pressed decides how the line and its cursor change (`lineAfter`), which numbers
are passed to `move_cursor_to_left` (`movesOf`), and how far from the largest `int` the position
must be for the turn to be defined (`Computes`).  `turn_of_computes` and
`turn_of_not_computes` say so for all keys. -/

namespace Klevret.Verified.Cli

open Klevret.Base Klevret.Cli
open Klevret.Cli.Checked (intResult)

/-! ## Keys -/

/-- What a turn of the loop is about. -/
inductive KeyEvent where
  | nothing
  | character (c : Char)
  | backspace
  | arrowLeft
  | arrowRight
  | tab
  | unknownEscape
  | enter
deriving DecidableEq, Repr

/-- The key that was pressed. -/
def eventOf (press : KeyPress) : KeyEvent :=
  match press.c with
  | none => .nothing
  | some c =>
    if c = Console.TAB then .tab
    else if c = Console.ENTER then .enter
    else if c = Console.BACKSPACE then .backspace
    else if c = Console.ESC then
      match toEsqSequence press.ch1 press.ch2 with
      | .arrowLeft => .arrowLeft
      | .arrowRight => .arrowRight
      | .arrowUp | .arrowDown | .unknown => .unknownEscape
    else .character c

section Turns

variable {Handler : Type} {split : Split} {root : CommandTree Handler}
  {handle : HandlerCall Handler → Except Exception Unit} {loop : KeyLoop} {console : Console}
  {input : List Char} {position : ℕ} {moves : List ℤ} {c : Char} {press : KeyPress}

/-- The handlers of the keys; only the console is touched by most of them. -/
theorem turn_eq : loop.turn split root handle press =
    match eventOf press with
    | .nothing | .unknownEscape => .ok loop
    | .character c => do return { loop with console := ← loop.console.typeChar c }
    | .backspace => do return { loop with console := ← loop.console.pressBackspace }
    | .arrowLeft => do return { loop with console := ← loop.console.pressArrowLeft }
    | .arrowRight => do return { loop with console := ← loop.console.pressArrowRight }
    | .tab => loop.pressTab split root
    | .enter => loop.enter split root handle := by
  obtain ⟨key, ch1, ch2⟩ := press
  cases key with
  | none => rfl
  | some c =>
    simp only [KeyLoop.turn, eventOf]
    by_cases tab : c = Console.TAB
    · simp only [if_pos tab]
    by_cases enter : c = Console.ENTER
    · simp only [if_neg tab, if_pos enter]
    by_cases backspace : c = Console.BACKSPACE
    · simp only [if_neg tab, if_neg enter, if_pos backspace]
    by_cases space : c = Console.SPACE
    · have notEsc : c ≠ Console.ESC := by
        rw [space]
        decide
      simp only [if_neg tab, if_neg enter, if_neg backspace, if_pos space, if_neg notEsc]
    by_cases esc : c = Console.ESC
    · simp only [if_neg tab, if_neg enter, if_neg backspace, if_neg space, if_pos esc]
      cases toEsqSequence ch1 ch2 <;> rfl
    · simp only [if_neg tab, if_neg enter, if_neg backspace, if_neg space, if_neg esc]

/-! ## The line -/

/-- The numbers that were passed to `move_cursor_to_left`. -/
def leftMoves (console : Console) : List ℤ :=
  console.calls.filterMap fun call => match call with
    | .moveCursorToLeft number => some number
    | _ => none

/-- The line, the cursor in it, and the numbers. -/
structure Shows (console : Console) (input : List Char) (position : ℕ) (moves : List ℤ) : Prop where
  input : console.currentCommandInput = input
  position : console.currentCommandInputCursorPos = position
  moves : leftMoves console = moves

theorem Shows.moveCursorToLeft (shows : Shows console input position moves) (number : ℤ) :
    Shows (console.moveCursorToLeft number) input position (moves ++ [number]) := by
  refine ⟨shows.input, shows.position, ?_⟩
  simp [← shows.moves, leftMoves, Console.moveCursorToLeft]

theorem Shows.clearLineFromCursorPosition (shows : Shows console input position moves) :
    Shows console.clearLineFromCursorPosition input position moves := by
  refine ⟨shows.input, shows.position, ?_⟩
  simp [← shows.moves, leftMoves, Console.clearLineFromCursorPosition]

theorem Shows.writeStr (shows : Shows console input position moves) (str : List Char) :
    Shows (console.writeStr str) input position moves := by
  refine ⟨shows.input, shows.position, ?_⟩
  simp [← shows.moves, leftMoves, Console.writeStr]

theorem Shows.printTitle (shows : Shows console input position moves) :
    Shows console.printTitle input position moves := by
  refine ⟨shows.input, shows.position, ?_⟩
  simp [← shows.moves, leftMoves, Console.printTitle, Console.writeStr, Console.changeTextColor]

theorem Shows.setLine (shows : Shows console input position moves) (input' : List Char)
    (position' : ℕ) :
    Shows { console with currentCommandInput := input', currentCommandInputCursorPos := position' }
      input' position' moves :=
  ⟨rfl, rfl, shows.moves⟩

/-! ## Distances -/

/-- What becomes of a distance that is passed as an `int`. -/
def narrowed (distance : ℕ) : ℤ := Int.bmod distance (2 ^ 32)

theorem narrowed_nonneg_iff (distance : ℕ) :
    0 ≤ narrowed distance ↔ distance % 2 ^ 32 < 2 ^ 31 := by
  change 0 ≤ Int.bmod distance 4294967296 ↔ distance % 4294967296 < 2147483648
  rw [Int.bmod_def]
  split <;> omega

theorem sizeT_natCast (value : ℕ) : Console.sizeT value = value % 2 ^ 64 := by
  rw [Console.sizeT]
  omega

/-- The 32 bits that are left are not touched by the conversion to `size_t`. -/
theorem bmod_sizeT (value : ℕ) : Int.bmod (Console.sizeT value) (2 ^ 32) = narrowed value := by
  have divides : ((2 ^ 32 : ℕ) : ℤ) ∣ ((2 ^ 64 : ℕ) : ℤ) := by decide
  unfold narrowed
  rw [sizeT_natCast, Int.natCast_emod, ← Int.emod_bmod, Int.emod_emod_of_dvd _ divides,
    Int.emod_bmod]

theorem distanceToEnd_eq (shows : Shows console input position moves)
    (inside : position ≤ input.length) :
    console.distanceToEnd = narrowed (input.length - position) := by
  unfold Console.distanceToEnd
  rw [shows.input, shows.position, ← Int.ofNat_sub inside]
  exact bmod_sizeT _

theorem intResult_pred (nonzero : position ≠ 0) (small : position < 2 ^ 31) :
    intResult ((position : ℤ) - 1) = .ok ((position - 1 : ℕ) : ℤ) := by
  have pred : (position : ℤ) - 1 = ((position - 1 : ℕ) : ℤ) := by omega
  rw [pred]
  exact intResult_of_lt (by omega)

/-! ## The keys that touch the console only -/

theorem typeChar_of_lt (shows : Shows console input position moves)
    (small : position + 1 < 2 ^ 31) (c : Char) :
    ∃ next, console.typeChar c = .ok next ∧ Shows next (input ++ [c]) (position + 1) moves := by
  have moved : intResult ((position : ℤ) + 1) = .ok ((position + 1 : ℕ) : ℤ) := intResult_of_lt small
  rw [Console.typeChar, shows.position, moved, shows.input]
  exact ⟨_, rfl, shows.setLine _ _⟩

theorem typeChar_of_le (shows : Shows console input position moves)
    (large : 2 ^ 31 ≤ position + 1) (c : Char) : console.typeChar c = undefinedBehaviour := by
  have overflows : intResult ((position : ℤ) + 1) = undefinedBehaviour := intResult_of_le large
  rw [Console.typeChar, shows.position, overflows]
  rfl

theorem deleteChar_of_ne_zero (shows : Shows console input position moves)
    (inside : position ≤ input.length) (nonzero : position ≠ 0) (small : position < 2 ^ 31) :
    ∃ next, console.deleteChar = .ok next ∧
      Shows next (input.eraseIdx (position - 1)) (position - 1) moves := by
  have erased : Console.erase input (Console.sizeT ((position - 1 : ℕ) : ℤ)) =
      .ok (input.eraseIdx (position - 1)) := by
    rw [sizeT_natCast, Nat.mod_eq_of_lt (by omega), Console.erase, if_neg (by omega)]
    rfl
  rw [Console.deleteChar, shows.position, intResult_pred nonzero small, ok_bind, shows.input, erased]
  exact ⟨_, rfl, (shows.setLine _ _ |>.writeStr _).setLine _ _⟩

/-- What is left of the line behind a BACKSPACE. -/
def deletedAt (input : List Char) (position : ℕ) : List Char :=
  if position = 0 then input else input.eraseIdx (position - 1)

theorem le_length_deletedAt (inside : position ≤ input.length) :
    position - 1 ≤ (deletedAt input position).length := by
  unfold deletedAt
  split
  · omega
  · rw [List.length_eraseIdx]
    split <;> omega

theorem pressBackspace_of_lt (shows : Shows console input position moves)
    (inside : position ≤ input.length) (small : position + 2 < 2 ^ 31) :
    ∃ next, console.pressBackspace = .ok next ∧
      Shows next (deletedAt input position) (position - 1) (moves ++ [((position + 2 : ℕ) : ℤ),
        narrowed ((deletedAt input position).length - (position - 1))]) := by
  have back : intResult ((position : ℤ) + 2) = .ok ((position + 2 : ℕ) : ℤ) := intResult_of_lt small
  have cleared := (shows.moveCursorToLeft ((position + 2 : ℕ) : ℤ)).clearLineFromCursorPosition
  have shorter := le_length_deletedAt inside
  simp only [Console.pressBackspace, shows.position, back, ok_bind, cleared.position]
  by_cases atStart : position = 0
  · rw [deletedAt, if_pos atStart] at shorter ⊢
    subst atStart
    refine ⟨_, rfl, ?_⟩
    rw [distanceToEnd_eq cleared inside]
    simpa using cleared.moveCursorToLeft (narrowed input.length)
  · obtain ⟨next, isNext, shows'⟩ := deleteChar_of_ne_zero cleared inside atStart (by omega)
    rw [deletedAt, if_neg atStart] at shorter ⊢
    rw [if_pos (by simpa using atStart), isNext, ok_bind, distanceToEnd_eq shows' shorter]
    refine ⟨_, rfl, ?_⟩
    simpa using shows'.moveCursorToLeft _

theorem pressBackspace_of_le (shows : Shows console input position moves)
    (large : 2 ^ 31 ≤ position + 2) : console.pressBackspace = undefinedBehaviour := by
  have overflows : intResult ((position : ℤ) + 2) = undefinedBehaviour := intResult_of_le large
  rw [Console.pressBackspace, shows.position, overflows]
  rfl

theorem rewrite_of_lt (shows : Shows console input position moves)
    (small : position + 4 < 2 ^ 31) :
    ∃ next, console.rewrite = .ok next ∧
      Shows next input position (moves ++ [((position + 4 : ℕ) : ℤ)]) := by
  have back : intResult ((position : ℤ) + 4) = .ok ((position + 4 : ℕ) : ℤ) := intResult_of_lt small
  rw [Console.rewrite, shows.position, back, ok_bind]
  exact ⟨_, rfl, (shows.moveCursorToLeft _).clearLineFromCursorPosition.writeStr _⟩

theorem rewrite_of_le (shows : Shows console input position moves)
    (large : 2 ^ 31 ≤ position + 4) : console.rewrite = undefinedBehaviour := by
  have overflows : intResult ((position : ℤ) + 4) = undefinedBehaviour := intResult_of_le large
  rw [Console.rewrite, shows.position, overflows]
  rfl

/-- An arrow ends at the new position of the cursor. -/
theorem Shows.moveTo (shows : Shows console input position moves) {position' : ℕ}
    (inside : position' ≤ input.length) :
    Shows (Console.moveCursorToLeft
        { console with currentCommandInputCursorPos := (position' : ℤ) }.distanceToEnd
        { console with currentCommandInputCursorPos := (position' : ℤ) })
      input position' (moves ++ [narrowed (input.length - position')]) := by
  have moved : Shows { console with currentCommandInputCursorPos := (position' : ℤ) } input position'
      moves := ⟨shows.input, rfl, shows.moves⟩
  rw [distanceToEnd_eq moved inside]
  exact moved.moveCursorToLeft _

theorem pressArrowLeft_of_lt (shows : Shows console input position moves)
    (inside : position ≤ input.length) (small : position + 4 < 2 ^ 31) :
    ∃ next, console.pressArrowLeft = .ok next ∧ Shows next input (position - 1)
      (moves ++ [((position + 4 : ℕ) : ℤ), narrowed (input.length - (position - 1))]) := by
  obtain ⟨rewritten, isRewritten, shows'⟩ := rewrite_of_lt shows small
  have beforeIt : position - 1 ≤ input.length := by omega
  have arrived := shows'.moveTo beforeIt
  rw [List.append_assoc, List.singleton_append] at arrived
  simp only [Console.pressArrowLeft, isRewritten, ok_bind, shows'.position]
  by_cases atStart : position = 0
  · subst atStart
    exact ⟨_, rfl, arrived⟩
  · rw [if_pos (by simpa using atStart), intResult_pred atStart (by omega)]
    exact ⟨_, rfl, arrived⟩

theorem pressArrowRight_of_lt (shows : Shows console input position moves)
    (inside : position ≤ input.length) (small : position + 4 < 2 ^ 31) :
    ∃ next, console.pressArrowRight = .ok next ∧ Shows next input (min (position + 1) input.length)
      (moves ++ [((position + 4 : ℕ) : ℤ),
        narrowed (input.length - min (position + 1) input.length)]) := by
  obtain ⟨rewritten, isRewritten, shows'⟩ := rewrite_of_lt shows small
  have arrived := shows'.moveTo (Nat.min_le_right (position + 1) input.length)
  rw [List.append_assoc, List.singleton_append] at arrived
  have compared : Console.sizeT position < rewritten.currentCommandInput.length ↔
      position < input.length := by
    rw [shows'.input, sizeT_natCast, Nat.mod_eq_of_lt (by omega)]
  simp only [Console.pressArrowRight, isRewritten, ok_bind, shows'.position, compared]
  by_cases before : position < input.length
  · have small' : position + 1 < 2 ^ 31 := by omega
    have moved : intResult ((position : ℤ) + 1) = .ok ((position + 1 : ℕ) : ℤ) :=
      intResult_of_lt small'
    rw [Nat.min_eq_left before] at arrived ⊢
    rw [if_pos before, moved]
    exact ⟨_, rfl, arrived⟩
  · have stays : min (position + 1) input.length = position := by omega
    rw [stays] at arrived ⊢
    rw [if_neg before]
    exact ⟨_, rfl, arrived⟩

theorem pressArrowLeft_of_le (shows : Shows console input position moves)
    (large : 2 ^ 31 ≤ position + 4) : console.pressArrowLeft = undefinedBehaviour := by
  rw [Console.pressArrowLeft, rewrite_of_le shows large]
  rfl

theorem pressArrowRight_of_le (shows : Shows console input position moves)
    (large : 2 ^ 31 ≤ position + 4) : console.pressArrowRight = undefinedBehaviour := by
  rw [Console.pressArrowRight, rewrite_of_le shows large]
  rfl

/-! ## The keys that look the line up -/

theorem Shows.foldl_writeStr (shows : Shows console input position moves)
    {α : Type} (items : List α) (str : α → List Char) :
    Shows (items.foldl (fun console item => console.writeStr (str item)) console) input position
      moves := by
  induction items generalizing console with
  | nil => exact shows
  | cons item items inductionHypothesis => exact inductionHypothesis (shows.writeStr (str item))

/-- The hints are written below the line, which stays as it is: nothing sets `prev`. -/
theorem pressTab_spec (shows : Shows loop.console input position moves)
    (prev : loop.prev ≠ Console.ENTER) :
    Throws (loop.pressTab split root) ∨ ∃ next, loop.pressTab split root = .ok next ∧
      Shows next.console input position (moves ++ [1]) := by
  unfold KeyLoop.pressTab
  generalize isConsole : (loop.console.moveCursorToLeft 1).clearLineFromCursorPosition.writeStr
    ['\n'] = console
  have shows' : Shows console input position (moves ++ [1]) :=
    isConsole ▸ (shows.moveCursorToLeft 1).clearLineFromCursorPosition.writeStr _
  obtain ⟨analysis, isAnalysis⟩ | throws :=
    defined_iff.mp (analyzeCommand_defined split console.currentCommandInput root)
  · right
    simp only [isAnalysis, ok_bind, if_neg prev]
    exact ⟨_, rfl, ((shows'.foldl_writeStr _ _).writeStr _).printTitle.writeStr _⟩
  · exact Or.inl (throws.bind _)

/-- Whatever the handler does, the line is empty behind it. -/
theorem enter_spec (shows : Shows loop.console input position moves) :
    Throws (loop.enter split root handle) ∨ ∃ next, loop.enter split root handle = .ok next ∧
      Shows next.console [] 0 (moves ++ [2]) := by
  unfold KeyLoop.enter
  generalize isConsole : (loop.console.moveCursorToLeft 2).clearLineFromCursorPosition.writeStr
    ['\n'] = console
  have shows' : Shows console input position (moves ++ [2]) :=
    isConsole ▸ (shows.moveCursorToLeft 2).clearLineFromCursorPosition.writeStr _
  obtain ⟨call, isCall⟩ | throws :=
    defined_iff.mp (pressEnter_defined split console.currentCommandInput root)
  · simp only [isCall, ok_bind]
    cases call with
    | none => exact Or.inr ⟨_, rfl, (shows'.setLine [] 0).printTitle⟩
    | some call =>
      dsimp only
      cases handle call with
      | ok _ => exact Or.inr ⟨_, rfl, (shows'.setLine [] 0).printTitle⟩
      | error exception => exact Or.inl ⟨exception, rfl⟩
  · exact Or.inl (throws.bind _)

/-! ## What every key does -/

/-- The line and the cursor behind a key. -/
def lineAfter (input : List Char) (position : ℕ) : KeyEvent → List Char × ℕ
  | .character c => (input ++ [c], position + 1)
  | .backspace => (deletedAt input position, position - 1)
  | .arrowLeft => (input, position - 1)
  | .arrowRight => (input, min (position + 1) input.length)
  | .enter => ([], 0)
  | .tab | .unknownEscape | .nothing => (input, position)

/-- The numbers that a key passes to `move_cursor_to_left`. -/
def movesOf (input : List Char) (position : ℕ) (event : KeyEvent) : List ℤ :=
  let (input', position') := lineAfter input position event
  match event with
  | .backspace => [((position + 2 : ℕ) : ℤ), narrowed (input'.length - position')]
  | .arrowLeft | .arrowRight => [((position + 4 : ℕ) : ℤ), narrowed (input'.length - position')]
  | .tab => [1]
  | .enter => [2]
  | .character _ | .unknownEscape | .nothing => []

/-- No `int` overflows in the turn. -/
def Computes (position : ℕ) : KeyEvent → Prop
  | .character _ => position + 1 < 2 ^ 31
  | .backspace => position + 2 < 2 ^ 31
  | .arrowLeft | .arrowRight => position + 4 < 2 ^ 31
  | .enter | .tab | .unknownEscape | .nothing => True

theorem prev_turn {next : KeyLoop} (turned : loop.turn split root handle press = .ok next) :
    next.prev = loop.prev := by
  rw [turn_eq] at turned
  cases event : eventOf press with
  | nothing | unknownEscape =>
    rw [event] at turned
    cases turned
    rfl
  | character c =>
    rw [event] at turned
    obtain ⟨console, _, ⟨⟩⟩ := bind_eq_ok.mp turned
    rfl
  | backspace | arrowLeft | arrowRight | tab =>
    rw [event] at turned
    obtain ⟨console, _, ⟨⟩⟩ := bind_eq_ok.mp turned
    rfl
  | enter =>
    rw [event] at turned
    obtain ⟨call, _, handled⟩ := bind_eq_ok.mp turned
    cases call with
    | none =>
      cases handled
      rfl
    | some call =>
      obtain ⟨_, _, ⟨⟩⟩ := bind_eq_ok.mp handled
      rfl

/-- A key in front of which an `int` can hold what is computed. -/
theorem turn_of_computes (shows : Shows loop.console input position moves)
    (inside : position ≤ input.length) (prev : loop.prev ≠ Console.ENTER)
    (computes : Computes position (eventOf press)) :
    (Throws (loop.turn split root handle press) ∧ (eventOf press = .tab ∨ eventOf press = .enter)) ∨
      ∃ next, loop.turn split root handle press = .ok next ∧ Shows next.console (lineAfter input position (eventOf press)).1
          (lineAfter input position (eventOf press)).2
          (moves ++ movesOf input position (eventOf press)) := by
  rw [turn_eq]
  cases event : eventOf press with
  | nothing | unknownEscape => exact Or.inr ⟨loop, rfl, by simpa [lineAfter, movesOf] using shows⟩
  | character c =>
    rw [event] at computes
    obtain ⟨next, isNext, shows'⟩ := typeChar_of_lt shows computes c
    exact Or.inr ⟨{ loop with console := next }, by simp [isNext],
      by simpa [lineAfter, movesOf] using shows'⟩
  | backspace =>
    rw [event] at computes
    obtain ⟨next, isNext, shows'⟩ := pressBackspace_of_lt shows inside computes
    exact Or.inr ⟨{ loop with console := next }, by simp [isNext], shows'⟩
  | arrowLeft =>
    rw [event] at computes
    obtain ⟨next, isNext, shows'⟩ := pressArrowLeft_of_lt shows inside computes
    exact Or.inr ⟨{ loop with console := next }, by simp [isNext], shows'⟩
  | arrowRight =>
    rw [event] at computes
    obtain ⟨next, isNext, shows'⟩ := pressArrowRight_of_lt shows inside computes
    exact Or.inr ⟨{ loop with console := next }, by simp [isNext], shows'⟩
  | tab =>
    obtain throws | arrived := pressTab_spec shows prev
    · exact Or.inl ⟨throws, Or.inl rfl⟩
    · exact Or.inr arrived
  | enter =>
    obtain throws | arrived := enter_spec shows
    · exact Or.inl ⟨throws, Or.inr rfl⟩
    · exact Or.inr arrived

theorem turn_of_not_computes (shows : Shows loop.console input position moves)
    (overflows : ¬ Computes position (eventOf press)) :
    loop.turn split root handle press = undefinedBehaviour := by
  rw [turn_eq]
  cases event : eventOf press with
  | nothing | unknownEscape | tab | enter =>
    rw [event] at overflows
    exact absurd trivial overflows
  | character c =>
    rw [event] at overflows
    simp only [typeChar_of_le shows (Nat.le_of_not_lt overflows)]
    rfl
  | backspace =>
    rw [event] at overflows
    simp only [pressBackspace_of_le shows (Nat.le_of_not_lt overflows)]
    rfl
  | arrowLeft =>
    rw [event] at overflows
    simp only [pressArrowLeft_of_le shows (Nat.le_of_not_lt overflows)]
    rfl
  | arrowRight =>
    rw [event] at overflows
    simp only [pressArrowRight_of_le shows (Nat.le_of_not_lt overflows)]
    rfl

theorem position_lineAfter_le (inside : position ≤ input.length) (event : KeyEvent) :
    (lineAfter input position event).2 ≤ (lineAfter input position event).1.length := by
  cases event with
  | character c => simpa [lineAfter] using inside
  | backspace => exact le_length_deletedAt inside
  | arrowLeft => exact Nat.le_trans (Nat.sub_le position 1) inside
  | arrowRight => exact Nat.min_le_right _ _
  | enter => exact Nat.le_refl 0
  | tab | unknownEscape | nothing => exact inside

end Turns

end Klevret.Verified.Cli
