import Klevret.Verified.Cli.Terminal

/-! # What the user sees

The row of the terminal shows the prompt and the line, with the cursor at its place, exactly while
characters are typed at the end of the line, BACKSPACE is not pressed in front of it, TAB is pressed
behind it, and no other escape sequences come in (`row_shows_line_iff`).  A character that is typed
inside the line is shown at the cursor and kept at the end; the next key that draws the line again
shows where it is (`row_redrawn`).  Both hold on any display. -/

namespace Klevret.Verified.Cli

open Klevret.Base Klevret.Cli
open RoseTree (outline)

section Screens

variable {Handler : Type} {split : Split} {root : CommandTree Handler}
  {commands : List (Command Handler)} {handle : HandlerCall Handler → Except Exception Unit}
  {loop nextLoop : KeyLoop} {press : KeyPress} {row : Row}

/-! ## The screen -/

variable {State : Type} {display : Display State} {screen nextScreen : Screen State}

/-- A row that begins with the prompt, and whose cursor is as far behind it as that of the line is in
    the line. -/
structure AlignedRow (row : Row) (line : TypedLine) : Prop where
  isTitle : row.cells.take title.length = title
  column : row.column = title.length + line.cursor
  inside : row.column ≤ row.cells.length

/-- The row that shows the prompt and the line. -/
def lineRow (line : TypedLine) : Row := titled line.text (title.length + line.cursor)

/-- The display shows a row that is in this relation to the line. -/
def RowIs (display : Display State) (Rel : Row → TypedLine → Prop) (screen : Screen State) : Prop :=
  ∃ row, screen.terminal = display.showing row ∧ Rel row (typedLine screen.loop)

def Aligned (display : Display State) : Screen State → Prop := RowIs display AlignedRow

/-- The row shows the prompt and the line, with the cursor at its place. -/
def ShowsLine (display : Display State) : Screen State → Prop :=
  RowIs display fun row line => row = lineRow line

/-- What a run keeps of the line. -/
structure LineKept (loop : KeyLoop) : Prop where
  inLine : InLine loop
  printable : ∀ c ∈ (typedLine loop).text, Printable c

/-- A display shows one row. -/
theorem rowIs_iff {Rel : Row → TypedLine → Prop} (shown : screen.terminal = display.showing row) :
    RowIs display Rel screen ↔ Rel row (typedLine screen.loop) := by
  constructor
  · rintro ⟨shownRow, isShown, related⟩
    obtain rfl := display.showing_injective (shown.symm.trans isShown)
    exact related
  · intro related
    exact ⟨row, shown, related⟩

theorem alignedRow_lineRow {line : TypedLine} (inside : line.cursor ≤ line.text.length) :
    AlignedRow (lineRow line) line := by
  refine ⟨List.take_left, rfl, ?_⟩
  simp [lineRow, titled]
  omega

theorem aligned_of_showsLine (inLine : InLine screen.loop) (shows : ShowsLine display screen) :
    Aligned display screen := by
  obtain ⟨row, shown, rfl⟩ := shows
  exact ⟨_, shown, alignedRow_lineRow inLine.inside⟩

/-- How far a key that draws the line goes back from its end. -/
def wayBack (line : TypedLine) : ℕ := (narrowed (line.text.length - line.cursor)).toNat

/-- The row behind a key, in front of which it was aligned. -/
def rowAfter (row : Row) (echo : List Char) (line next : TypedLine) : KeyEvent → Row
  | .nothing | .character _ | .unknownEscape => row.write echo
  | .backspace =>
    if line.cursor = 0 then titled [] (title.length - wayBack next)
    else titled next.text (title.length + next.text.length - wayBack next)
  | .arrowLeft | .arrowRight => titled next.text (title.length + next.text.length - wayBack next)
  | .enter => titled [] title.length
  | .tab => titled next.text (title.length + next.text.length)

theorem distanceToEnd_of_inLine (inLine : InLine loop) :
    loop.console.distanceToEnd.toNat = wayBack (typedLine loop) :=
  congrArg Int.toNat (distanceToEnd_eq inLine.shows inLine.inside)

theorem feed_echo {echo : List Char} (shown : screen.terminal = display.showing row)
    (printable : ∀ c ∈ echo, Printable c) :
    display.feed screen.terminal echo = display.showing (row.write echo) := by
  rw [shown, display.feed_printable row printable]

theorem feed_arrow {echo : List Char} (shown : screen.terminal = display.showing row)
    (aligned : AlignedRow row (typedLine screen.loop))
    (position : screen.loop.console.currentCommandInputCursorPos = (typedLine screen.loop).cursor)
    (isEcho : (∀ c ∈ echo, Printable c) ∧ echo.length = 4) (keptNext : LineKept nextLoop)
    (calls : nextLoop.console.calls =
      screen.loop.console.calls ++ arrowCalls screen.loop.console nextLoop.console) :
    Screen.feedCalls display (display.feed screen.terminal echo)
        (nextLoop.console.calls.drop screen.loop.console.calls.length) =
      display.showing (titled (typedLine nextLoop).text
        (title.length + (typedLine nextLoop).text.length - wayBack (typedLine nextLoop))) := by
  rw [feed_echo shown isEcho.1, calls, List.drop_left, ← distanceToEnd_of_inLine keptNext.inLine]
  exact feedCalls_arrowCalls position isEcho.2 aligned.isTitle aligned.inside aligned.column
    keptNext.printable

/-- What a turn from an aligned row makes of the row. -/
theorem terminal_turn (kept : LineKept screen.loop)
    (shown : screen.terminal = display.showing row) (aligned : AlignedRow row (typedLine screen.loop))
    (keptNext : LineKept nextScreen.loop) (plain : Plain press)
    (returned : screen.turn display split (createCommandTree commands) handle press =
      .ok nextScreen) :
    nextScreen.terminal = display.showing (rowAfter row (press.echo display)
      (typedLine screen.loop) (typedLine nextScreen.loop) (eventOf press)) := by
  have isEcho := isEcho_of_plain display plain
  obtain ⟨loop, turned, isNext⟩ := bind_eq_ok.mp returned
  obtain rfl := Except.ok.inj isNext
  have position : screen.loop.console.currentCommandInputCursorPos =
      (typedLine screen.loop).cursor := kept.inLine.shows.position
  rw [turn_eq] at turned
  dsimp only
  cases event : eventOf press with
  | nothing =>
    rw [event] at turned isEcho
    obtain rfl := Except.ok.inj turned
    rw [List.drop_length, feedCalls_nil, isEcho, display.feed_nil]
    exact shown
  | unknownEscape =>
    rw [event] at turned isEcho
    obtain rfl := Except.ok.inj turned
    rw [List.drop_length, feedCalls_nil]
    exact feed_echo shown isEcho.1
  | character c =>
    rw [event] at turned isEcho
    obtain ⟨console, typed, isLoop⟩ := bind_eq_ok.mp turned
    obtain rfl := Except.ok.inj isLoop
    obtain ⟨position, _, isConsole⟩ := bind_eq_ok.mp typed
    obtain rfl := Except.ok.inj isConsole
    have printable : ∀ c ∈ press.echo display, Printable c := by
      rw [isEcho, List.forall_mem_singleton]
      exact plain.character c event
    dsimp only
    rw [List.drop_length, feedCalls_nil]
    exact feed_echo shown printable
  | backspace =>
    rw [event] at turned isEcho
    obtain ⟨console, pressed, isLoop⟩ := bind_eq_ok.mp turned
    obtain rfl := Except.ok.inj isLoop
    rw [feed_echo shown isEcho.1, feedCalls_pressBackspace pressed position isEcho.2 aligned.isTitle
      aligned.inside aligned.column keptNext.printable, distanceToEnd_of_inLine keptNext.inLine]
    rfl
  | arrowLeft =>
    rw [event] at turned isEcho
    obtain ⟨console, pressed, isLoop⟩ := bind_eq_ok.mp turned
    obtain rfl := Except.ok.inj isLoop
    exact feed_arrow shown aligned position isEcho keptNext (calls_pressArrowLeft pressed)
  | arrowRight =>
    rw [event] at turned isEcho
    obtain ⟨console, pressed, isLoop⟩ := bind_eq_ok.mp turned
    obtain rfl := Except.ok.inj isLoop
    exact feed_arrow shown aligned position isEcho keptNext (calls_pressArrowRight pressed)
  | enter =>
    rw [event] at turned isEcho
    rw [feed_echo shown isEcho.1, calls_enter turned, List.drop_left, feedCalls_enterCalls]
    rfl
  | tab =>
    rw [event] at turned isEcho
    change screen.loop.pressTab split (createCommandTree commands) = .ok loop at turned
    rw [pressTab_eq kept.inLine.unset] at turned
    generalize readLine split commands screen.loop.console.currentCommandInput = read at turned
    cases read with
    | error fault => cases turned
    | ok reading =>
      obtain rfl := Except.ok.inj turned
      have newCalls : (afterTab screen.loop (hints commands reading.path)).console.calls =
          screen.loop.console.calls ++ tabCalls screen.loop.console (hints commands reading.path) := rfl
      obtain ⟨column, moved⟩ := display.feed_tab row
      rw [isEcho, shown, moved, newCalls, List.drop_left, feedCalls_tabCalls _ kept.printable]
      rfl

/-! ## The line in the row -/

variable {line : TypedLine} {event : KeyEvent} {echo : List Char}

/-- The way back to the cursor fits into an `int`. -/
def Near (line : TypedLine) : Prop := line.text.length - line.cursor < 2 ^ 31

theorem near_of_short (short : line.text.length < 2 ^ 31) : Near line :=
  Nat.lt_of_le_of_lt (Nat.sub_le _ _) short

/-- The key shows in the row what it does to the line. -/
def InRow (line : TypedLine) : KeyEvent → Prop
  | .nothing | .enter => True
  | .character _ | .tab => line.cursor = line.text.length
  | .backspace => if line.cursor = 0 then line.text = [] else Near (line.after .backspace)
  | .arrowLeft => Near (line.after .arrowLeft)
  | .arrowRight => Near (line.after .arrowRight)
  | .unknownEscape => False

/-- The key leaves the cursor of the row where that of the line is. -/
def InColumn (line : TypedLine) : KeyEvent → Prop
  | .nothing | .enter | .character _ => True
  | .tab => line.cursor = line.text.length
  | .backspace => if line.cursor = 0 then wayBack line = 0 else Near (line.after .backspace)
  | .arrowLeft => Near (line.after .arrowLeft)
  | .arrowRight => Near (line.after .arrowRight)
  | .unknownEscape => False

/-- The keys that draw the line again. -/
def Redraws (line : TypedLine) : KeyEvent → Prop
  | .arrowLeft | .arrowRight | .tab | .enter => True
  | .backspace => line.cursor ≠ 0
  | .nothing | .character _ | .unknownEscape => False

theorem inRow_iff_of_redraws (redraws : Redraws line event) :
    InRow line event ↔ InColumn line event := by
  cases event with
  | backspace => rw [InRow, InColumn, if_neg redraws, if_neg redraws]
  | nothing | character c | unknownEscape => exact redraws.elim
  | arrowLeft | arrowRight | tab | enter => exact Iff.rfl

theorem toNat_narrowed (distance : ℕ) :
    (narrowed distance).toNat ≤ distance ∧
      ((narrowed distance).toNat = distance ↔ distance < 2 ^ 31) := by
  change (Int.bmod distance 4294967296).toNat ≤ distance ∧
    ((Int.bmod distance 4294967296).toNat = distance ↔ distance < 2147483648)
  rw [Int.bmod_def]
  split <;> omega

/-- The cursor comes to its place just when the way is short enough. -/
theorem wayBack_iff (inside : line.cursor ≤ line.text.length) :
    title.length + line.text.length - wayBack line = title.length + line.cursor ↔ Near line := by
  have narrow := toNat_narrowed (line.text.length - line.cursor)
  rw [Near, wayBack, ← narrow.2]
  omega

theorem titled_eq_lineRow_iff {text : List Char} {column : ℕ} :
    titled text column = lineRow line ↔
      text = line.text ∧ column = title.length + line.cursor := by
  rw [lineRow, titled, titled, Row.mk.injEq, List.append_cancel_left_eq]

theorem alignedRow_titled_iff (inside : line.cursor ≤ line.text.length) {column : ℕ} :
    AlignedRow (titled line.text column) line ↔ column = title.length + line.cursor := by
  constructor
  · intro aligned
    exact aligned.column
  · rintro rfl
    exact alignedRow_lineRow inside

/-- A key that draws the line draws all of it, from the end of the prompt on. -/
theorem exists_titled_of_redraws (row : Row) (echo : List Char)
    (inside : line.cursor ≤ line.text.length) (redraws : Redraws line event) :
    ∃ column, rowAfter row echo line (line.after event) event =
        titled (line.after event).text column ∧
      (column = title.length + (line.after event).cursor ↔ InColumn line event) := by
  have insideNext : (line.after event).cursor ≤ (line.after event).text.length :=
    position_lineAfter_le inside event
  have way := wayBack_iff insideNext
  cases event with
  | nothing | character c | unknownEscape => exact redraws.elim
  | backspace =>
    refine ⟨_, if_neg redraws, ?_⟩
    rw [way, InColumn, if_neg redraws]
  | arrowLeft | arrowRight => exact ⟨_, rfl, way⟩
  | enter => exact ⟨title.length, rfl, iff_of_true rfl trivial⟩
  | tab =>
    refine ⟨_, rfl, ?_⟩
    change title.length + line.text.length = title.length + line.cursor ↔
      line.cursor = line.text.length
    omega

/-- A row that shows the line shows it again just behind these keys. -/
theorem rowAfter_lineRow_iff (inside : line.cursor ≤ line.text.length) (isEcho : IsEcho echo event) :
    rowAfter (lineRow line) echo line (line.after event) event = lineRow (line.after event) ↔
      InRow line event := by
  have aligned := alignedRow_lineRow inside
  by_cases redraws : Redraws line event
  · obtain ⟨column, isRow, exact⟩ := exists_titled_of_redraws (lineRow line) echo inside redraws
    rw [isRow, titled_eq_lineRow_iff, and_iff_right rfl, exact, inRow_iff_of_redraws redraws]
  cases event with
  | nothing =>
    rw [isEcho]
    exact iff_of_true rfl trivial
  | character c =>
    rw [isEcho]
    change Row.write _ [c] = lineRow ⟨line.text ++ [c], line.cursor + 1⟩ ↔
      line.cursor = line.text.length
    constructor
    · intro same
      -- a character that is written over another one makes the row no longer
      have length := @Row.length_write _ [c] aligned.inside
      rw [same] at length
      simp only [lineRow, titled, List.length_append, List.length_singleton] at length
      omega
    · intro atEnd
      rw [lineRow, lineRow, atEnd, titled, ← List.length_append, Row.write_atEnd, titled]
      simp [Nat.add_assoc]
  | unknownEscape =>
    -- nothing takes back what the driver has echoed
    refine iff_of_false ?_ id
    intro same
    have column := Row.column_write (lineRow line) echo
    have atLeastTwo := isEcho.2
    change Row.write _ echo = lineRow line at same
    rw [same] at column
    omega
  | backspace =>
    -- in front of the line it clears the row and writes nothing
    have atStart : line.cursor = 0 := not_not.mp redraws
    have sameText : (line.after .backspace).text = line.text := if_pos atStart
    have sameCursor : (line.after .backspace).cursor = 0 := by
      simp [TypedLine.after, lineAfter, atStart]
    have narrow := (toNat_narrowed
      ((line.after .backspace).text.length - (line.after .backspace).cursor)).1
    rw [rowAfter, if_pos atStart, titled_eq_lineRow_iff, InRow, if_pos atStart, sameText, sameCursor]
    constructor
    · rintro ⟨empty, -⟩
      exact empty.symm
    · intro empty
      rw [sameText, empty, List.length_nil, Nat.zero_sub] at narrow
      rw [wayBack, sameText, empty, List.length_nil, Nat.zero_sub, Nat.le_zero.mp narrow]
      exact ⟨rfl, rfl⟩
  | arrowLeft | arrowRight | tab | enter => exact absurd trivial redraws

/-- An aligned row is aligned again just behind these keys. -/
theorem alignedRow_rowAfter_iff (aligned : AlignedRow row line)
    (inside : line.cursor ≤ line.text.length) (isEcho : IsEcho echo event) :
    AlignedRow (rowAfter row echo line (line.after event) event) (line.after event) ↔
      InColumn line event := by
  by_cases redraws : Redraws line event
  · obtain ⟨column, isRow, exact⟩ := exists_titled_of_redraws row echo inside redraws
    rw [isRow, alignedRow_titled_iff (position_lineAfter_le inside event), exact]
  cases event with
  | nothing =>
    rw [isEcho]
    exact iff_of_true aligned trivial
  | character c =>
    rw [isEcho]
    have front : title.length ≤ row.column := by
      rw [aligned.column]
      omega
    refine iff_of_true ⟨?_, ?_, ?_⟩ trivial
    · exact (Row.take_write aligned.inside front).trans aligned.isTitle
    · change row.column + 1 = title.length + (line.cursor + 1)
      rw [aligned.column]
      rfl
    · exact Row.inside_put aligned.inside
  | unknownEscape =>
    refine iff_of_false ?_ id
    intro alignedAfter
    have column := alignedAfter.column
    have atLeastTwo := isEcho.2
    change (row.write echo).column = title.length + line.cursor at column
    rw [Row.column_write, aligned.column] at column
    omega
  | backspace =>
    have atStart : line.cursor = 0 := not_not.mp redraws
    have sameLine : line.after .backspace = line := by
      obtain ⟨text, cursor⟩ := line
      obtain rfl : cursor = 0 := atStart
      rfl
    rw [rowAfter, if_pos atStart, InColumn, if_pos atStart, sameLine]
    have prompt : title.length = 9 := rfl
    constructor
    · intro alignedAfter
      have column := alignedAfter.column
      change title.length - wayBack line = title.length + line.cursor at column
      omega
    · intro noWay
      rw [noWay]
      refine ⟨rfl, ?_, Nat.le_refl _⟩
      rw [atStart]
      rfl
  | arrowLeft | arrowRight | tab | enter => exact absurd trivial redraws

/-! ## Runs -/

/-- No `int` overflows in the turn, and the key is good for the row; a TAB whose look-up throws ends
    the loop. -/
structure Suitable (split : Split) (root : CommandTree Handler)
    (Good : TypedLine → KeyEvent → Prop) (line : TypedLine) (event : KeyEvent) : Prop where
  computes : Computes line.cursor event
  good : (event = .tab → Returns (analyzeCommand split line.text root)) → Good line event

theorem printable_after (printable : ∀ c ∈ line.text, Printable c)
    (character : ∀ c, event = .character c → Printable c) :
    ∀ c ∈ (line.after event).text, Printable c := by
  cases event with
  | character typed =>
    intro c member
    obtain old | new := List.mem_append.mp member
    · exact printable c old
    · rw [List.mem_singleton.mp new]
      exact character typed rfl
  | backspace =>
    intro c member
    change c ∈ deletedAt line.text line.cursor at member
    unfold deletedAt at member
    split at member
    · exact printable c member
    · exact printable c (List.mem_of_mem_eraseIdx member)
  | enter =>
    intro c member
    cases member
  | arrowLeft | arrowRight | tab | unknownEscape | nothing => exact printable

/-- A turn keeps the line. -/
theorem lineKept_turn (kept : LineKept loop) (plain : Plain press)
    (turned : loop.turn split root handle press = .ok nextLoop) :
    LineKept nextLoop ∧ typedLine nextLoop = (typedLine loop).after (eventOf press) := by
  by_cases computes : Computes (typedLine loop).cursor (eventOf press)
  · obtain ⟨throws, _⟩ | ⟨returned, isReturned, shows⟩ :=
      @turn_of_computes _ split root handle _ _ _ _ _ kept.inLine.shows kept.inLine.inside
        kept.inLine.unset computes
    · exact absurd ⟨nextLoop, turned⟩ throws.not_returns
    · obtain rfl := Except.ok.inj (isReturned.symm.trans turned)
      obtain ⟨inLine, isLine⟩ := inLine_of_shows (prevUnset_turn kept.inLine.unset turned) shows
        (position_lineAfter_le kept.inLine.inside _)
      refine ⟨⟨inLine, ?_⟩, isLine⟩
      rw [isLine]
      exact printable_after kept.printable plain.character
  · rw [turn_of_not_computes kept.inLine.shows computes] at turned
    cases turned

theorem loop_of_turn (returned : screen.turn display split root handle press = .ok nextScreen) :
    screen.loop.turn split root handle press = .ok nextScreen.loop := by
  obtain ⟨loop, turned, isNext⟩ := bind_eq_ok.mp returned
  obtain rfl := Except.ok.inj isNext
  exact turned

theorem turn_of_loop (turned : screen.loop.turn split root handle press = .ok nextLoop) :
    ∃ terminal, screen.turn display split root handle press = .ok ⟨nextLoop, terminal⟩ := by
  rw [Screen.turn, turned]
  exact ⟨_, rfl⟩

/-- One turn of an aligned screen is judged by what the row comes to. -/
theorem safe_turn_iff {Rel : Row → TypedLine → Prop} {Good : TypedLine → KeyEvent → Prop}
    (kept : LineKept screen.loop) (shown : screen.terminal = display.showing row)
    (aligned : AlignedRow row (typedLine screen.loop)) (plain : Plain press)
    (exact : Rel (rowAfter row (press.echo display) (typedLine screen.loop)
        ((typedLine screen.loop).after (eventOf press)) (eventOf press))
        ((typedLine screen.loop).after (eventOf press)) ↔
      Good (typedLine screen.loop) (eventOf press)) (ofEnter : Good (typedLine screen.loop) .enter) :
    Safe (RowIs display Rel) (screen.turn display split (createCommandTree commands) handle press) ↔
      Suitable split (createCommandTree commands) Good (typedLine screen.loop) (eventOf press) := by
  by_cases computes : Computes (typedLine screen.loop).cursor (eventOf press)
  · have suitable : Suitable split (createCommandTree commands) Good (typedLine screen.loop)
        (eventOf press) ↔ _ := ⟨Suitable.good, Suitable.mk computes⟩
    rw [suitable]
    obtain ⟨throws, lookUp⟩ | ⟨nextLoop, turned, _⟩ :=
      @turn_of_computes _ split (createCommandTree commands) handle _ _ _ _ _ kept.inLine.shows
        kept.inLine.inside kept.inLine.unset computes
    · -- there is no screen behind an exception, which only a look-up or a handler can throw
      refine iff_of_true ((throws.bind _).safe _) ?_
      intro returns
      obtain tab | enter := lookUp
      · rw [turn_eq, tab] at throws
        obtain ⟨analysis, looked⟩ := returns tab
        obtain ⟨next, isNext, _⟩ := pressTab_of_ok kept.inLine looked
        exact absurd ⟨next, isNext⟩ throws.not_returns
      · rw [enter]
        exact ofEnter
    · obtain ⟨keptNext, isLine⟩ := lineKept_turn kept plain turned
      obtain ⟨terminal, returned⟩ := turn_of_loop turned
      have drawn := terminal_turn kept shown aligned keptNext plain returned
      have lookedUp : eventOf press = .tab →
          Returns (analyzeCommand split (typedLine screen.loop).text (createCommandTree commands)) := by
        intro tab
        rw [turn_eq, tab] at turned
        obtain ⟨analysis, looked, _⟩ := bind_eq_ok.mp turned
        exact ⟨analysis, looked⟩
      rw [returned, safe_ok_iff, forall_prop_of_true lookedUp, ← exact, ← isLine]
      exact rowIs_iff drawn
  · rw [Screen.turn, turn_of_not_computes kept.inLine.shows computes]
    exact iff_of_false (not_safe_undefinedBehaviour _) fun suitable => computes suitable.computes

/-- A turn of a screen that shows the line. -/
theorem showsLine_turn_iff (kept : LineKept screen.loop) (shows : ShowsLine display screen)
    (plain : Plain press) :
    Safe (ShowsLine display) (screen.turn display split (createCommandTree commands) handle press) ↔
      Suitable split (createCommandTree commands) InRow (typedLine screen.loop) (eventOf press) := by
  obtain ⟨row, shown, rfl⟩ := shows
  apply safe_turn_iff kept shown (alignedRow_lineRow kept.inLine.inside) plain
  · exact rowAfter_lineRow_iff kept.inLine.inside (isEcho_of_plain display plain)
  · trivial

theorem aligned_turn_iff (kept : LineKept screen.loop) (aligned : Aligned display screen)
    (plain : Plain press) :
    Safe (Aligned display) (screen.turn display split (createCommandTree commands) handle press) ↔
      Suitable split (createCommandTree commands) InColumn (typedLine screen.loop)
        (eventOf press) := by
  obtain ⟨row, shown, alignedRow⟩ := aligned
  apply safe_turn_iff kept shown alignedRow plain
  · exact alignedRow_rowAfter_iff alignedRow kept.inLine.inside (isEcho_of_plain display plain)
  · trivial

/-- A turn that draws the line again. -/
theorem showsLine_turn_of_redraws (kept : LineKept screen.loop) (aligned : Aligned display screen)
    (plain : Plain press) (redraws : Redraws (typedLine screen.loop) (eventOf press))
    (next : Safe (Aligned display) (screen.turn display split (createCommandTree commands) handle press)) :
    Safe (ShowsLine display)
      (screen.turn display split (createCommandTree commands) handle press) := by
  have suitable := (aligned_turn_iff kept aligned plain).mp next
  obtain ⟨row, shown, alignedRow⟩ := aligned
  refine (safe_turn_iff kept shown alignedRow plain ?_ trivial).mpr suitable
  obtain ⟨column, isRow, exact⟩ := exists_titled_of_redraws row (press.echo display)
    kept.inLine.inside redraws
  rw [isRow, titled_eq_lineRow_iff, and_iff_right rfl, exact]

/-! ### The start -/

theorem showsLine_start (display : Display State) (commands : List (Command Handler)) :
    ShowsLine display (Screen.start display (createCommandTree commands)) := by
  have dashes : ∀ c ∈ "--".toList, Printable c := printable_of_all rfl
  have printable : ∀ line ∈ (outline isShown 0 (createCommandTree commands)).map outlineLine,
      ∀ c ∈ line, Printable c := by
    intro line isLine c member
    obtain ⟨shown, isShown, rfl⟩ := List.mem_map.mp isLine
    obtain inDashes | inText := List.mem_append.mp member
    · obtain ⟨level, isLevel, isIn⟩ := List.mem_flatten.mp inDashes
      rw [List.eq_of_mem_replicate isLevel] at isIn
      exact dashes c isIn
    · exact printable_of_label
        (RoseTree.kind_of_mem_outline (isTrie_createCommandTree commands) isShown) c inText
  -- the listing leaves an empty row for the prompt
  have listed := display.feed_lines printable
  rw [← printTree_eq] at listed
  refine ⟨titled [] title.length, ?_, rfl⟩
  rw [Screen.start, listed]
  exact feedCalls_titleCalls .white

theorem lineKept_start (display : Display State) (root : CommandTree Handler) :
    LineKept (Screen.start display root).loop := by
  refine ⟨inLine_start.1, ?_⟩
  intro c member
  cases member

/-- The screen after some keys. -/
def screenAfter (display : Display State) (split : Split) (commands : List (Command Handler))
    (handle : HandlerCall Handler → Except Exception Unit) (keys : List PlainKey) :
    Cpp (Screen State) :=
  Screen.after display split (createCommandTree commands) handle (keys.map PlainKey.press)

theorem screenAfter_eq (keys : List PlainKey) : screenAfter display split commands handle keys =
    keys.foldlM
      (fun screen key => screen.turn display split (createCommandTree commands) handle key.press)
      (Screen.start display (createCommandTree commands)) :=
  List.foldlM_map

/-- The screen shows the line in every run whose keys are all good for the row, and in no other. -/
theorem row_shows_line_iff (display : Display State) (split : Split)
    (commands : List (Command Handler)) (handle : HandlerCall Handler → Except Exception Unit)
    (keys : List PlainKey) :
    (∀ before, before <+: keys → Safe (ShowsLine display) (screenAfter display split commands handle before)) ↔
      ∀ before key after, keys = before ++ key :: after →
        ∀ screen, screenAfter display split commands handle before = .ok screen →
          Suitable split (createCommandTree commands) InRow (typedLine screen.loop)
            (eventOf key.press) := by
  simp only [screenAfter_eq]
  apply prefixes_safe_iff (fun screen => LineKept screen.loop) (lineKept_start display _)
  · intro screen key next kept returned
    exact (lineKept_turn kept key.plain (loop_of_turn returned)).1
  · exact showsLine_start display commands
  · intro before key screen kept shows
    exact showsLine_turn_iff kept shows key.plain

/-- The cursor is in its column in every run whose keys all leave it there, and in no other. -/
theorem aligned_iff (display : Display State) (split : Split)
    (commands : List (Command Handler)) (handle : HandlerCall Handler → Except Exception Unit)
    (keys : List PlainKey) :
    (∀ before, before <+: keys → Safe (Aligned display) (screenAfter display split commands handle before)) ↔
      ∀ before key after, keys = before ++ key :: after →
        ∀ screen, screenAfter display split commands handle before = .ok screen →
          Suitable split (createCommandTree commands) InColumn (typedLine screen.loop)
            (eventOf key.press) := by
  simp only [screenAfter_eq]
  apply prefixes_safe_iff (fun screen => LineKept screen.loop) (lineKept_start display _)
  · intro screen key next kept returned
    exact (lineKept_turn kept key.plain (loop_of_turn returned)).1
  · exact aligned_of_showsLine inLine_start.1 (showsLine_start display commands)
  · intro before key screen kept aligned
    exact aligned_turn_iff kept aligned key.plain

theorem screenAfter_append (keys : List PlainKey) (key : PlainKey) :
    screenAfter display split commands handle (keys ++ [key]) = screenAfter display split commands handle keys >>=
      fun screen => screen.turn display split (createCommandTree commands) handle key.press := by
  rw [screenAfter_eq, screenAfter_eq]
  exact foldlM_append_singleton _ keys key _

/-- Whatever was typed over before, a key that draws the line again shows it as it is. -/
theorem row_redrawn (display : Display State) (split : Split)
    (commands : List (Command Handler)) (handle : HandlerCall Handler → Except Exception Unit)
    {keys : List PlainKey} {key : PlainKey} {screen : Screen State}
    (good : ∀ before key' after, keys ++ [key] = before ++ key' :: after →
      ∀ screen, screenAfter display split commands handle before = .ok screen →
        Suitable split (createCommandTree commands) InColumn (typedLine screen.loop)
          (eventOf key'.press))
    (reached : screenAfter display split commands handle keys = .ok screen)
    (redraws : Redraws (typedLine screen.loop) (eventOf key.press)) :
    Safe (ShowsLine display) (screenAfter display split commands handle (keys ++ [key])) := by
  have aligned := (aligned_iff display split commands handle (keys ++ [key])).mpr good
  have alignedHere := (aligned keys (List.prefix_append _ _)).2 screen reached
  have alignedNext := aligned _ (List.prefix_refl _)
  have kept : LineKept screen.loop := by
    rw [screenAfter_eq] at reached
    refine foldlM_keeps (fun screen : Screen State => LineKept screen.loop) ?_ (lineKept_start display _) reached
    intro screen key next kept returned
    exact (lineKept_turn kept key.plain (loop_of_turn returned)).1
  rw [screenAfter_append, reached, ok_bind] at alignedNext ⊢
  exact showsLine_turn_of_redraws kept alignedHere key.plain redraws alignedNext

/-- A printable character. -/
def typedKey (c : Char) (printable : Printable c) : PlainKey where
  press := ⟨some c, none, none⟩
  plain := by
    constructor
    · intro typed isCharacter
      simp only [eventOf] at isCharacter
      split_ifs at isCharacter
      · cases isCharacter
      · obtain rfl : c = typed := KeyEvent.character.inj isCharacter
        exact printable
    · intro _ c member
      cases member

/-- `ESC [` and a printable character. -/
def arrowKey (ch2 : Char) (printable : Printable ch2) : PlainKey where
  press := ⟨some Console.ESC, some '[', some ch2⟩
  plain := by
    constructor
    · intro typed isCharacter
      obtain ⟨_, _, isEvent⟩ | ⟨_, _, isEvent⟩ | isEvent := eventOf_escape (some '[') (some ch2)
      · cases isEvent.symm.trans isCharacter
      · cases isEvent.symm.trans isCharacter
      · cases isEvent.symm.trans isCharacter
    · intro _
      have opening : Printable '[' := by decide
      simp [opening, printable]

/-- A character is typed over another one. -/
def overtyped : List PlainKey :=
  [typedKey 'a' (by decide), arrowKey 'D' (by decide), typedKey 'x' (by decide)]

theorem overtyped_redrawn :
    Safe (ShowsLine Terminal.display) (screenAfter Terminal.display (cutAtRuns ' ')
      ([] : List (Command Unit)) (fun _ => .ok ()) (overtyped ++ [arrowKey 'C' (by decide)])) := by
  refine row_redrawn _ _ _ _ ?_ rfl ?_
  · intro before key after isSplit screen reached
    obtain - | ⟨_, - | ⟨_, - | ⟨_, - | ⟨_, before⟩⟩⟩⟩ := before <;>
      simp only [overtyped, List.cons_append, List.nil_append, List.cons.injEq] at isSplit
    · obtain ⟨rfl, -⟩ := isSplit
      cases reached
      exact ⟨by decide, fun _ => trivial⟩
    · obtain ⟨rfl, rfl, -⟩ := isSplit
      cases reached
      exact ⟨by decide, fun _ => near_of_short (by decide)⟩
    · obtain ⟨rfl, rfl, rfl, -⟩ := isSplit
      cases reached
      exact ⟨by decide, fun _ => trivial⟩
    · obtain ⟨rfl, rfl, rfl, rfl, -⟩ := isSplit
      cases reached
      exact ⟨by decide, fun _ => near_of_short (by decide)⟩
    · simp at isSplit
  · trivial

end Screens

end Klevret.Verified.Cli
