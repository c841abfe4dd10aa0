import Klevret.Base.Simulation
import Klevret.Cli.Session
import Klevret.Verified.Cli.LineEditor

/-! # The loop is a shell

A shell keeps the line that is typed and its cursor; TAB looks the line up, and ENTER executes it
and begins a new one.  The loop of `main`, with its terminal, is such a shell for every tree and
all handlers: in every session it does the same, and it ends in the same turn and for the same
reason (`loop_refines_shell`). -/

namespace Klevret.Verified.Cli

open Klevret.Base Klevret.Cli

/-! ## Shells -/

/-- A line, and where the cursor is in it. -/
structure TypedLine where
  text : List Char
  cursor : ℕ
deriving DecidableEq, Repr

namespace TypedLine

def empty : TypedLine := ⟨[], 0⟩

/-- What a key makes of the line. -/
def after (line : TypedLine) (event : KeyEvent) : TypedLine where
  text := (lineAfter line.text line.cursor event).1
  cursor := (lineAfter line.text line.cursor event).2

end TypedLine

instance decidableComputes (position : ℕ) (event : KeyEvent) : Decidable (Computes position event) :=
  match event with
  | .character _ => inferInstanceAs (Decidable (position + 1 < 2 ^ 31))
  | .backspace => inferInstanceAs (Decidable (position + 2 < 2 ^ 31))
  | .arrowLeft | .arrowRight => inferInstanceAs (Decidable (position + 4 < 2 ^ 31))
  | .enter | .tab | .unknownEscape | .nothing => inferInstanceAs (Decidable True)

section Shells

variable {Calls Effect : Type}

/-- What a shell does with a line. -/
@[ext] structure Interpreter (Calls Effect : Type) where
  lookUp : List Char → Cpp Unit
  execute : Calls → List Char → Cpp (Option Effect)

/-- A key that the cursor is not too far for. -/
def Interpreter.handle (interpreter : Interpreter Calls Effect) (line : TypedLine) (calls : Calls) :
    KeyEvent → Option Effect × Cpp TypedLine
  | .tab => (none, (interpreter.lookUp line.text).map fun _ => line)
  | .enter =>
    match interpreter.execute calls line.text with
    | .error fault => (none, .error fault)
    | .ok effect => (effect, .ok .empty)
  | event => (none, .ok (line.after event))

/-- The shell of an interpreter. -/
def Interpreter.shell (interpreter : Interpreter Calls Effect) :
    Machine (Cpp TypedLine) (KeyEvent × Calls) (Option Effect) where
  step
    | .error fault, _ => (none, .error fault)
    | .ok line, (event, calls) =>
      if Computes line.cursor event then interpreter.handle line calls event
      else (none, undefinedBehaviour)

end Shells

/-! ## The loop -/

section Loop

variable {Handler Calls Effect : Type} {split : Split} {root : CommandTree Handler}
  {perform : Calls → HandlerCall Handler → Cpp Effect} {loop : KeyLoop} {press : KeyPress}

/-- What the loop does with a line. -/
def commandInterpreter (split : Split) (root : CommandTree Handler)
    (perform : Calls → HandlerCall Handler → Cpp Effect) : Interpreter Calls Effect where
  lookUp text := (analyzeCommand split text root).map fun _ => ()
  execute calls text :=
    match pressEnter split text root with
    | .error fault => .error fault
    | .ok none => .ok none
    | .ok (some call) => (perform calls call).map some

/-- The line that the loop holds. -/
def typedLine (loop : KeyLoop) : TypedLine where
  text := loop.console.currentCommandInput
  cursor := loop.console.currentCommandInputCursorPos.toNat

/-- The cursor is in the line, and the line stays as it is on a TAB. -/
structure InLine (loop : KeyLoop) : Prop where
  unset : PrevUnset loop
  nonneg : 0 ≤ loop.console.currentCommandInputCursorPos
  le : loop.console.currentCommandInputCursorPos ≤ loop.console.currentCommandInput.length

theorem InLine.shows (inLine : InLine loop) :
    Shows loop.console (typedLine loop).text (typedLine loop).cursor (leftMoves loop.console) :=
  ⟨rfl, (Int.toNat_of_nonneg inLine.nonneg).symm, rfl⟩

theorem InLine.inside (inLine : InLine loop) :
    (typedLine loop).cursor ≤ (typedLine loop).text.length := by
  have le := inLine.le
  simp only [typedLine]
  omega

theorem inLine_of_shows {input : List Char} {position : ℕ} {moves : List ℤ} (unset : PrevUnset loop)
    (shows : Shows loop.console input position moves) (inside : position ≤ input.length) :
    InLine loop ∧ typedLine loop = ⟨input, position⟩ := by
  have le : (position : ℤ) ≤ input.length := by omega
  refine ⟨⟨unset, ?_, ?_⟩, ?_⟩
  · rw [shows.position]
    exact Int.natCast_nonneg position
  · rw [shows.position, shows.input]
    exact le
  · simp only [typedLine, shows.input, shows.position, Int.toNat_natCast]

theorem eventOf_eq_enter_iff : eventOf press = .enter ↔ press.c = some Console.ENTER := by
  obtain ⟨key, ch1, ch2⟩ := press
  cases key with
  | none => simp [eventOf]
  | some c =>
    have apart : Console.TAB ≠ Console.ENTER := by decide
    simp only [eventOf, Option.some.injEq]
    split
    next isTab => simp [isTab, apart]
    next =>
      split
      next isEnter => simp [isEnter]
      next notEnter =>
        refine iff_of_false ?_ notEnter
        split
        · simp
        · split
          · split <;> simp
          · simp

theorem handlerCall_eq : loop.handlerCall split root press =
    if eventOf press = .enter then pressEnter split (typedLine loop).text root else .ok none := by
  unfold KeyLoop.handlerCall
  simp only [eventOf_eq_enter_iff]
  rfl

/-! ## One turn -/

/-- A turn of the loop that the shell makes too: with the same effect it comes to the line of the
    shell, or it ends as the shell does. -/
def Matches (result : Option Effect × Cpp KeyLoop)
    (shellResult : Option Effect × Cpp TypedLine) : Prop :=
  result.1 = shellResult.1 ∧ result.2.map typedLine = shellResult.2 ∧
    ∀ next, result.2 = .ok next → InLine next

theorem matches_of_line {effect : Option Effect} {next : KeyLoop} {line : TypedLine}
    (inLine : InLine next) (isLine : typedLine next = line) :
    Matches (effect, .ok next) (effect, .ok line) := by
  refine ⟨rfl, congrArg Except.ok isLine, ?_⟩
  rintro _ ⟨⟩
  exact inLine

theorem matches_of_fault (fault : Fault) :
    Matches ((none : Option Effect), .error fault) (none, .error fault) := by
  refine ⟨rfl, rfl, ?_⟩
  intro next impossible
  cases impossible

theorem pressTab_of_error {fault : Fault}
    (looked : analyzeCommand split (typedLine loop).text root = .error fault) :
    loop.pressTab split root = .error fault := by
  unfold KeyLoop.pressTab
  change (analyzeCommand split (typedLine loop).text root >>= _) = _
  rw [looked, error_bind]

theorem pressTab_of_ok {analysis : Analysis Handler} (inLine : InLine loop)
    (looked : analyzeCommand split (typedLine loop).text root = .ok analysis) :
    ∃ next, loop.pressTab split root = .ok next ∧ InLine next ∧ typedLine next = typedLine loop := by
  have returns : Returns (loop.pressTab split root) := by
    unfold KeyLoop.pressTab
    change Returns (analyzeCommand split (typedLine loop).text root >>= _)
    rw [looked, ok_bind]
    exact returns_ok _
  obtain throws | ⟨next, isNext, shows⟩ :=
    @pressTab_spec _ split root _ _ _ _ inLine.shows inLine.unset
  · exact absurd returns throws.not_returns
  · have unset : PrevUnset next := by
      unfold PrevUnset
      obtain ⟨analysis, _, rest⟩ := bind_eq_ok.mp isNext
      cases rest
      exact inLine.unset
    obtain ⟨inLine', isLine⟩ := inLine_of_shows unset shows inLine.inside
    exact ⟨next, isNext, inLine', isLine⟩

theorem enter_of_ok {called : Option (HandlerCall Handler)} (inLine : InLine loop)
    (dispatched : pressEnter split (typedLine loop).text root = .ok called) :
    ∃ next, loop.enter split root (fun _ => .ok ()) = .ok next ∧ InLine next ∧
      typedLine next = .empty := by
  have returns : Returns (loop.enter split root fun _ => .ok ()) := by
    unfold KeyLoop.enter
    change Returns (pressEnter split (typedLine loop).text root >>= _)
    rw [dispatched, ok_bind]
    cases called with
    | none => exact returns_ok _
    | some call => exact returns_ok _
  obtain throws | ⟨next, isNext, shows⟩ :=
    @enter_spec _ split root (fun _ => .ok ()) _ _ _ _ inLine.shows
  · exact absurd returns throws.not_returns
  · have unset : PrevUnset next := by
      unfold PrevUnset
      obtain ⟨called, _, rest⟩ := bind_eq_ok.mp isNext
      cases called with
      | none =>
        cases rest
        exact inLine.unset
      | some call =>
        cases rest
        exact inLine.unset
    obtain ⟨inLine', isLine⟩ := inLine_of_shows unset shows (Nat.le_refl 0)
    exact ⟨next, isNext, inLine', isLine⟩

/-- All other keys only change the line. -/
theorem turn_of_line (inLine : InLine loop)
    (computes : Computes (typedLine loop).cursor (eventOf press)) (notTab : eventOf press ≠ .tab)
    (notEnter : eventOf press ≠ .enter) :
    ∃ next, loop.turn split root (fun _ => .ok ()) press = .ok next ∧ InLine next ∧
      typedLine next = (typedLine loop).after (eventOf press) := by
  obtain ⟨_, lookup⟩ | ⟨next, isNext, shows⟩ :=
    @turn_of_computes _ split root (fun _ => .ok ()) _ _ _ _ _ inLine.shows inLine.inside
      inLine.unset computes
  · exact absurd lookup (not_or.mpr ⟨notTab, notEnter⟩)
  · obtain ⟨inLine', isLine⟩ := inLine_of_shows (prevUnset_turn inLine.unset isNext) shows
      (position_lineAfter_le inLine.inside _)
    exact ⟨next, isNext, inLine', isLine⟩

/-- One turn of the loop is one of the shell. -/
theorem matches_step (inLine : InLine loop) (input : SessionInput Calls) :
    Matches ((KeyLoop.machine split root perform).step (.ok loop) input)
      ((commandInterpreter split root perform).shell.step (.ok (typedLine loop))
        (eventOf input.press, input.calls)) := by
  obtain ⟨press, calls⟩ := input
  simp only [KeyLoop.machine, Interpreter.shell, handlerCall_eq, KeyLoop.turnOn]
  -- only ENTER can call a handler, and only TAB and ENTER look the line up
  by_cases computes : Computes (typedLine loop).cursor (eventOf press)
  · rw [if_pos computes]
    cases event : eventOf press with
    | enter =>
      simp only [if_pos, Interpreter.handle, commandInterpreter]
      cases dispatched : pressEnter split (typedLine loop).text root with
      | error fault => exact matches_of_fault _
      | ok called =>
        obtain ⟨next, isNext, inLine', isEmpty⟩ := enter_of_ok inLine dispatched
        simp only [turn_eq, event, isNext]
        cases called with
        | none => exact matches_of_line inLine' isEmpty
        | some call =>
          dsimp only
          cases perform calls call with
          | error fault => exact matches_of_fault _
          | ok effect => exact matches_of_line inLine' isEmpty
    | tab =>
      simp only [turn_eq, event, Interpreter.handle, commandInterpreter]
      cases looked : analyzeCommand split (typedLine loop).text root with
      | error fault =>
        rw [pressTab_of_error looked]
        exact matches_of_fault _
      | ok analysis =>
        obtain ⟨next, isNext, inLine', sameLine⟩ := pressTab_of_ok inLine looked
        rw [isNext]
        exact matches_of_line inLine' sameLine
    | nothing | unknownEscape | character c | backspace | arrowLeft | arrowRight =>
      obtain ⟨next, isNext, inLine', isLine⟩ :=
        @turn_of_line _ split root _ press inLine computes (by simp [event])
          (by simp [event])
      rw [event] at isLine
      rw [isNext]
      exact matches_of_line inLine' isLine
  · -- the cursor is too far, which ENTER never minds
    have notEnter : eventOf press ≠ .enter := by
      intro enter
      rw [enter] at computes
      exact computes trivial
    rw [if_neg computes, if_neg notEnter, turn_of_not_computes inLine.shows computes]
    exact matches_of_fault _

/-! ## Sessions -/

/-- An outcome of the loop keeps the cursor in the line. -/
def InLineIfOk (outcome : Cpp KeyLoop) : Prop := ∀ loop, outcome = .ok loop → InLine loop

theorem matches_outcome (outcome : Cpp KeyLoop) (inLine : InLineIfOk outcome)
    (input : SessionInput Calls) :
    Matches ((KeyLoop.machine split root perform).step outcome input)
      ((commandInterpreter split root perform).shell.step (outcome.map typedLine)
        (eventOf input.press, input.calls)) := by
  cases outcome with
  | error fault => exact matches_of_fault fault
  | ok loop => exact matches_step (inLine loop rfl) input

theorem inLine_start : InLine KeyLoop.start ∧ typedLine KeyLoop.start = .empty :=
  inLine_of_shows prevUnset_start shows_start (Nat.le_refl 0)

/-- The shell gets the keys, and the system calls of its handlers. -/
def shellInputs (inputs : List (SessionInput Calls)) : List (KeyEvent × Calls) :=
  inputs.map fun input => (eventOf input.press, input.calls)

/-- From any state with the cursor in the line on, the loop is the shell on that line. -/
theorem outcome_refined (atStart : InLineIfOk outcome) (inputs : List (SessionInput Calls)) :
    (KeyLoop.machine split root perform).outputs outcome inputs =
        (commandInterpreter split root perform).shell.outputs (outcome.map typedLine)
          (shellInputs inputs) ∧
      ((KeyLoop.machine split root perform).run outcome inputs).map typedLine =
        (commandInterpreter split root perform).shell.run (outcome.map typedLine)
          (shellInputs inputs) := by
  have refined := (KeyLoop.machine split root perform).outputs_refined
    (commandInterpreter split root perform).shell InLineIfOk (Except.map typedLine)
    (fun input => input) (fun input => (eventOf input.press, input.calls)) id
    (fun outcome input inLine => (matches_outcome outcome inLine input).2.2)
    (fun outcome input inLine => (matches_outcome outcome inLine input).1)
    (fun outcome input inLine => (matches_outcome outcome inLine input).2.1) atStart inputs
  rwa [List.map_id', List.map_id] at refined

theorem inLineIfOk_start : InLineIfOk (.ok KeyLoop.start) := by
  rintro _ ⟨⟩
  exact inLine_start.1

theorem map_typedLine_start : Except.map typedLine (.ok KeyLoop.start : Cpp KeyLoop) = .ok .empty :=
  congrArg Except.ok inLine_start.2

theorem loop_refines_shell (split : Split) (root : CommandTree Handler)
    (perform : Calls → HandlerCall Handler → Cpp Effect) (inputs : List (SessionInput Calls)) :
    (KeyLoop.machine split root perform).outputs (.ok .start) inputs =
        (commandInterpreter split root perform).shell.outputs (.ok .empty) (shellInputs inputs) ∧
      ((KeyLoop.machine split root perform).run (.ok .start) inputs).map typedLine =
        (commandInterpreter split root perform).shell.run (.ok .empty) (shellInputs inputs) := by
  rw [← map_typedLine_start]
  exact outcome_refined inLineIfOk_start inputs

end Loop

end Klevret.Verified.Cli
