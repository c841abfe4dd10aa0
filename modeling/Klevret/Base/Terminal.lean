import Klevret.Base.Numerals

/-! # The row of a terminal

What a terminal makes of the characters that are sent to it, in the row that its cursor is in.  A
`Display` is any terminal, with the driver in front of it, that keeps a few laws: a printable
character is put into the cell at the cursor, a newline opens an empty row, the control sequences
move the cursor and clear the row, and a control key is echoed as two printable characters.  The rows
are as wide as need be.  `Terminal.display` is a display that reads the sequences character by
character; characters beyond ASCII are left out. -/

namespace Klevret.Base

/-- A character with a cell of its own. -/
def Printable (c : Char) : Prop := 32 ≤ c.toNat ∧ c.toNat < 127

instance decidablePrintable (c : Char) : Decidable (Printable c) :=
  inferInstanceAs (Decidable (_ ∧ _))

theorem printable_of_all {text : List Char} (all : text.all fun c => decide (Printable c)) :
    ∀ c ∈ text, Printable c :=
  fun c member => of_decide_eq_true (List.all_eq_true.mp all c member)

/-! ## The row -/

/-- The cells that have been written, and the column of the cursor. -/
@[ext] structure Row where
  cells : List Char
  column : ℕ
deriving DecidableEq, Repr

variable {row : Row} {text : List Char} {c : Char}

namespace Row

def empty : Row := ⟨[], 0⟩

/-- The character comes into the cell at the cursor; cells that were passed over are blank. -/
def put (row : Row) (c : Char) : Row where
  cells := (row.cells.take row.column).rightpad row.column ' ' ++ c :: row.cells.drop (row.column + 1)
  column := row.column + 1

def write (row : Row) (text : List Char) : Row := text.foldl put row

/-- The cursor stops at the left edge. -/
def moveLeft (row : Row) (count : ℕ) : Row := { row with column := row.column - count }

def moveRight (row : Row) (count : ℕ) : Row := { row with column := row.column + count }

def clearToEnd (row : Row) : Row := { row with cells := row.cells.take row.column }

@[simp] theorem write_nil : row.write [] = row := rfl

@[simp] theorem write_cons : row.write (c :: text) = (row.put c).write text := rfl

@[simp] theorem column_put : (row.put c).column = row.column + 1 := rfl

theorem cells_put (inside : row.column ≤ row.cells.length) :
    (row.put c).cells = row.cells.take row.column ++ c :: row.cells.drop (row.column + 1) := by
  have noBlanks : row.column - (row.cells.take row.column).length = 0 := by
    rw [List.length_take, Nat.min_eq_left inside, Nat.sub_self]
  rw [put, List.rightpad, noBlanks, List.replicate_zero, List.append_nil]

theorem length_put (inside : row.column ≤ row.cells.length) :
    (row.put c).cells.length = max row.cells.length (row.column + 1) := by
  rw [cells_put inside]
  simp
  omega

/-- The cursor stays in what is written. -/
theorem inside_put (inside : row.column ≤ row.cells.length) :
    (row.put c).column ≤ (row.put c).cells.length := by
  rw [length_put inside, column_put]
  exact Nat.le_max_right _ _

theorem column_write (row : Row) (text : List Char) :
    (row.write text).column = row.column + text.length := by
  induction text generalizing row with
  | nil => rfl
  | cons c text inductionHypothesis =>
    rw [write_cons, inductionHypothesis, column_put, List.length_cons]
    omega

theorem length_write (inside : row.column ≤ row.cells.length) :
    (row.write text).cells.length = max row.cells.length (row.column + text.length) := by
  induction text generalizing row with
  | nil => exact (Nat.max_eq_left inside).symm
  | cons c text inductionHypothesis =>
    rw [write_cons, inductionHypothesis (inside_put inside), length_put inside, column_put,
      List.length_cons]
    omega

/-- Nothing in front of the cursor is written over. -/
theorem take_write (inside : row.column ≤ row.cells.length) {count : ℕ} (front : count ≤ row.column) :
    (row.write text).cells.take count = row.cells.take count := by
  induction text generalizing row with
  | nil => rfl
  | cons c text inductionHypothesis =>
    -- the first character comes behind the cells that are kept, and the cursor goes on from there
    have kept : (row.put c).cells.take count = row.cells.take count := by
      rw [cells_put inside, List.take_append_of_le_length (by simp; omega), List.take_take,
        Nat.min_eq_left front]
    rw [write_cons, inductionHypothesis (inside_put inside) (Nat.le_succ_of_le front), kept]

/-- At the end of the row, writing appends. -/
theorem write_atEnd (cells text : List Char) :
    Row.write ⟨cells, cells.length⟩ text = ⟨cells ++ text, cells.length + text.length⟩ := by
  induction text generalizing cells with
  | nil => simp
  | cons c text inductionHypothesis =>
    have putAtEnd : Row.put ⟨cells, cells.length⟩ c = ⟨cells ++ [c], (cells ++ [c]).length⟩ := by
      ext1
      · rw [cells_put (Nat.le_refl _)]
        simp
      · simp
    rw [write_cons, putAtEnd, inductionHypothesis]
    simp
    omega

@[simp] theorem moveLeft_zero : row.moveLeft 0 = row := rfl

/-- Going back behind what was echoed, and `count` columns more, and clearing the rest. -/
theorem clearToEnd_back (inside : row.column ≤ row.cells.length) {count : ℕ}
    (front : count ≤ row.column) :
    ((row.write text).moveLeft (row.column - count + text.length)).clearToEnd =
      ⟨row.cells.take count, count⟩ := by
  have column : (row.write text).column - (row.column - count + text.length) = count := by
    rw [column_write]
    omega
  simp only [moveLeft, clearToEnd, column, take_write inside front]

end Row

/-- `ESC [`, the beginning of a control sequence. -/
def sequenceStart : List Char := [Char.ofNat 27, '[']

/-! ## Displays -/

/-- A terminal, as far as the row of its cursor goes, and what its driver echoes of a key. -/
structure Display (State : Type*) where
  /-- The row is this one, and no sequence has begun. -/
  showing : Row → State
  feed : State → List Char → State
  echo : Char → List Char
  showing_injective : Function.Injective showing
  feed_nil : ∀ state, feed state [] = state
  feed_append : ∀ state text rest, feed state (text ++ rest) = feed (feed state text) rest
  feed_printable : ∀ row {text}, (∀ c ∈ text, Printable c) →
    feed (showing row) text = showing (row.write text)
  /-- The driver translates a newline, so that the cursor returns as well. -/
  feed_newline : ∀ row, feed (showing row) ['\n'] = showing .empty
  feed_return : ∀ row, feed (showing row) ['\r'] = showing { row with column := 0 }
  feed_tab : ∀ row, ∃ column, feed (showing row) ['\t'] = showing { row with column }
  feed_cursorLeft : ∀ row {count}, 0 < count →
    feed (showing row) (sequenceStart ++ Nat.toDigits 10 count ++ ['D']) =
      showing (row.moveLeft count)
  /-- A number with a sign in front is none, and the cursor stays where it is. -/
  feed_cursorLeft_negative : ∀ row count,
    feed (showing row) (sequenceStart ++ '-' :: Nat.toDigits 10 count ++ ['D']) = showing row
  feed_clear : ∀ row, feed (showing row) (sequenceStart ++ ['K']) = showing row.clearToEnd
  feed_colour : ∀ row {digits : List Char}, (∀ c ∈ digits, c.isDigit) →
    feed (showing row) (sequenceStart ++ digits ++ ['m']) = showing row
  echo_printable : ∀ {c}, Printable c → echo c = [c]
  echo_tab : echo '\t' = ['\t']
  /-- Two characters stand for a control character. -/
  echo_control : ∀ {c : Char}, c.toNat < 32 ∨ c.toNat = 127 → c ≠ '\t' → c ≠ '\n' →
    (∀ shown ∈ echo c, Printable shown) ∧ (echo c).length = 2

namespace Display

variable {State : Type*} (display : Display State)

/-- Lines are written and left. -/
theorem feed_lines {lines : List (List Char)}
    (printable : ∀ line ∈ lines, ∀ c ∈ line, Printable c) :
    display.feed (display.showing .empty) (lines.flatMap fun line => line ++ ['\n']) =
      display.showing .empty := by
  induction lines with
  | nil => exact display.feed_nil _
  | cons line lines inductionHypothesis =>
    obtain ⟨first, rest⟩ := List.forall_mem_cons.mp printable
    rw [List.flatMap_cons, display.feed_append, display.feed_append, display.feed_printable _ first,
      display.feed_newline, inductionHypothesis rest]

theorem flatMap_echo (printable : ∀ c ∈ text, Printable c) : text.flatMap display.echo = text := by
  induction text with
  | nil => rfl
  | cons c text inductionHypothesis =>
    obtain ⟨first, rest⟩ := List.forall_mem_cons.mp printable
    rw [List.flatMap_cons, display.echo_printable first, inductionHypothesis rest,
      List.singleton_append]

end Display

/-! ## A terminal -/

namespace Row

/-- What a character does that is in no sequence. -/
def receive (row : Row) (c : Char) : Row :=
  if Printable c then row.put c
  else if c = '\r' then { row with column := 0 }
  else if c = '\n' then empty
  else if c = '\t' then { row with column := (row.column / 8 + 1) * 8 }
  else row

/-- The number in a sequence; without one it is 1, as it is for 0. -/
def count (parameters : List Char) : Option ℕ :=
  if parameters.all Char.isDigit then some (max 1 (numeralValue parameters)) else none

/-- What the sequence does that ends with this character.  Colours are not shown in the row. -/
def execute (row : Row) (parameters : List Char) (final : Char) : Row :=
  if final = 'D' then (count parameters).elim row row.moveLeft
  else if final = 'C' then (count parameters).elim row row.moveRight
  else if final = 'K' ∧ parameters = [] then row.clearToEnd
  else row

end Row

/-- Whether the terminal is in a sequence, and how far. -/
inductive SequenceState where
  | text
  | escape
  | control (parameters : List Char)
deriving DecidableEq, Repr

structure Terminal where
  row : Row
  sequence : SequenceState
deriving DecidableEq, Repr

namespace Terminal

/-- The terminal with this row, in no sequence. -/
def showing (row : Row) : Terminal := ⟨row, .text⟩

def feedChar (terminal : Terminal) (c : Char) : Terminal :=
  match terminal.sequence with
  | .text =>
    if c = Char.ofNat 27 then ⟨terminal.row, .escape⟩ else showing (terminal.row.receive c)
  | .escape => if c = '[' then ⟨terminal.row, .control []⟩ else showing terminal.row
  | .control parameters =>
    if 64 ≤ c.toNat ∧ c.toNat < 127 then showing (terminal.row.execute parameters c)
    -- not yet the final character
    else ⟨terminal.row, .control (parameters ++ [c])⟩

def feed (terminal : Terminal) (text : List Char) : Terminal := text.foldl feedChar terminal

end Terminal

/-- What the driver echoes of a key; `^` and a letter stand for a control character. -/
def echoed (c : Char) : List Char :=
  if 32 ≤ c.toNat ∧ c.toNat ≠ 127 ∨ c = '\t' ∨ c = '\n' then [c]
  else ['^', Char.ofNat (c.toNat ^^^ 64)]

theorem echoed_of_printable (printable : Printable c) : echoed c = [c] := by
  obtain ⟨above, below⟩ := printable
  have noDelete : c.toNat ≠ 127 := Nat.ne_of_lt below
  exact if_pos (Or.inl ⟨above, noDelete⟩)

theorem echoed_of_control (control : c.toNat < 32 ∨ c.toNat = 127) (noTab : c ≠ '\t')
    (noNewline : c ≠ '\n') : (∀ shown ∈ echoed c, Printable shown) ∧ (echoed c).length = 2 := by
  have isControl : ¬ (32 ≤ c.toNat ∧ c.toNat ≠ 127 ∨ c = '\t' ∨ c = '\n') := by
    rintro (⟨above, below⟩ | tab | newline)
    · omega
    · exact noTab tab
    · exact noNewline newline
  have letters : ∀ number < 128, number < 32 ∨ number = 127 →
      Printable (Char.ofNat (number ^^^ 64)) := by
    decide
  have caret : Printable '^' := by decide
  rw [echoed, if_neg isControl]
  refine ⟨?_, rfl⟩
  rw [List.forall_mem_cons, List.forall_mem_singleton]
  exact ⟨caret, letters c.toNat (by omega) control⟩

namespace Terminal

theorem feed_append (terminal : Terminal) (text rest : List Char) :
    terminal.feed (text ++ rest) = (terminal.feed text).feed rest :=
  List.foldl_append

@[simp] theorem feed_nil (terminal : Terminal) : terminal.feed [] = terminal := rfl

theorem feed_printable (printable : ∀ c ∈ text, Printable c) :
    (showing row).feed text = showing (row.write text) := by
  induction text generalizing row with
  | nil => rfl
  | cons c text inductionHypothesis =>
    obtain ⟨first, rest⟩ := List.forall_mem_cons.mp printable
    have noEscape : c ≠ Char.ofNat 27 := by
      rintro rfl
      exact absurd first (by decide)
    have received : (showing row).feedChar c = showing (row.put c) := by
      simp only [feedChar, showing, if_neg noEscape, Row.receive, if_pos first]
    change ((showing row).feedChar c).feed text = _
    rw [received, inductionHypothesis rest, Row.write_cons]

/-! ### Control sequences -/

/-- A character of a sequence that does not end it. -/
def IsParameter (c : Char) : Prop := c.toNat < 64

theorem feed_parameters {parameters : List Char} (sofar : List Char)
    (unfinished : ∀ c ∈ parameters, IsParameter c) :
    (⟨row, .control sofar⟩ : Terminal).feed parameters = ⟨row, .control (sofar ++ parameters)⟩ := by
  induction parameters generalizing sofar with
  | nil => rw [List.append_nil, feed_nil]
  | cons c parameters inductionHypothesis =>
    obtain ⟨first, rest⟩ := List.forall_mem_cons.mp unfinished
    have goesOn : ¬ (64 ≤ c.toNat ∧ c.toNat < 127) := fun final => Nat.not_le.mpr first final.1
    have fed : (⟨row, .control sofar⟩ : Terminal).feedChar c = ⟨row, .control (sofar ++ [c])⟩ := by
      simp only [feedChar, if_neg goesOn]
    change ((⟨row, .control sofar⟩ : Terminal).feedChar c).feed parameters = _
    rw [fed, inductionHypothesis (sofar ++ [c]) rest, List.append_assoc, List.singleton_append]

/-- A whole sequence. -/
theorem feed_sequence {parameters : List Char} {final : Char}
    (unfinished : ∀ c ∈ parameters, IsParameter c) (ends : 64 ≤ final.toNat ∧ final.toNat < 127) :
    (showing row).feed (sequenceStart ++ parameters ++ [final]) =
      showing (row.execute parameters final) := by
  have started : (showing row).feed sequenceStart = ⟨row, .control []⟩ := rfl
  rw [feed_append, feed_append, started, feed_parameters [] unfinished, List.nil_append]
  change (⟨row, .control parameters⟩ : Terminal).feedChar final = _
  simp only [feedChar, if_pos ends]

theorem isParameter_of_isDigit (digit : c.isDigit) : IsParameter c := by
  have bounds : c.isDigit = true ↔ '0'.val ≤ c.val ∧ c.val ≤ '9'.val := by
    simp [Char.isDigit]
  have below : c.val.toNat ≤ 57 := UInt32.le_iff_toNat_le.mp (bounds.mp digit).2
  exact Nat.lt_of_le_of_lt below (by decide)

theorem isParameter_of_mem_toDigits {number : ℕ} (member : c ∈ Nat.toDigits 10 number) :
    IsParameter c :=
  isParameter_of_isDigit (Nat.isDigit_of_mem_toDigits (by decide) (by decide) member)

theorem count_toDigits (number : ℕ) :
    Row.count (Nat.toDigits 10 number) = some (max 1 number) := by
  have digits : (Nat.toDigits 10 number).all Char.isDigit := by
    rw [List.all_eq_true]
    intro digit member
    exact Nat.isDigit_of_mem_toDigits (by decide) (by decide) member
  rw [Row.count, if_pos digits, numeralValue_toDigits]

theorem feed_cursorLeft {count : ℕ} (positive : 0 < count) :
    (showing row).feed (sequenceStart ++ Nat.toDigits 10 count ++ ['D']) =
      showing (row.moveLeft count) := by
  rw [feed_sequence (fun _ => isParameter_of_mem_toDigits) (by decide), Row.execute, if_pos rfl,
    count_toDigits, Nat.max_eq_right positive, Option.elim_some]

/-- A number with a sign in front is none, and the cursor stays where it is. -/
theorem feed_cursorLeft_negative (count : ℕ) :
    (showing row).feed (sequenceStart ++ '-' :: Nat.toDigits 10 count ++ ['D']) = showing row := by
  have unfinished : ∀ c ∈ '-' :: Nat.toDigits 10 count, IsParameter c := by
    rw [List.forall_mem_cons]
    exact ⟨by unfold IsParameter; decide, fun _ => isParameter_of_mem_toDigits⟩
  -- the sign is a character of the sequence, but no digit
  have noNumber : Row.count ('-' :: Nat.toDigits 10 count) = none := if_neg (by simp)
  rw [feed_sequence unfinished (by decide), Row.execute, if_pos rfl, noNumber, Option.elim_none]

theorem feed_colour {parameters : List Char} (unfinished : ∀ c ∈ parameters, IsParameter c) :
    (showing row).feed (sequenceStart ++ parameters ++ ['m']) = showing row :=
  feed_sequence unfinished (by decide)

/-- The terminal and the driver's echo keep the laws. -/
def display : Display Terminal where
  showing := showing
  feed := feed
  echo := echoed
  showing_injective _ _ same := (Terminal.mk.inj same).1
  feed_nil := feed_nil
  feed_append := feed_append
  feed_printable _ _ := feed_printable
  feed_newline _ := rfl
  feed_return _ := rfl
  feed_tab row := ⟨(row.column / 8 + 1) * 8, rfl⟩
  feed_cursorLeft _ _ := feed_cursorLeft
  feed_cursorLeft_negative _ := feed_cursorLeft_negative
  feed_clear _ := rfl
  feed_colour _ _ digits := feed_colour fun c member => isParameter_of_isDigit (digits c member)
  echo_printable := echoed_of_printable
  echo_tab := rfl
  echo_control := echoed_of_control

end Terminal

end Klevret.Base
