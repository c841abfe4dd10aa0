import Klevret.Base.Cursor
import Klevret.Base.Separated
import Klevret.Verified.Cli.Keys

/-! # The line editor and its cursor

Two results about every run of the keys.  The cursor stays in the line while no `int` is too
small for what is computed with it (`staysInText_iff`).  The line is that of an editor with an
insertion cursor while each character that is typed meets only copies of itself behind the
cursor, for the loop appends where the editor inserts (`refinesEditor_iff`). -/

namespace Klevret.Verified.Cli

open Klevret.Base Klevret.Cli

section Runs

variable {Handler : Type} {split : Split} {root : CommandTree Handler}
  {handle : HandlerCall Handler → Except Exception Unit} {loop : KeyLoop} {console : Console}
  {input : List Char} {position : ℕ} {moves : List ℤ} {press : KeyPress} {event : KeyEvent}

/-- Nothing sets `prev` to ENTER. -/
def PrevUnset (loop : KeyLoop) : Prop := loop.prev ≠ Console.ENTER

theorem after_append (presses : List KeyPress) (press : KeyPress) :
    KeyLoop.after split root handle (presses ++ [press]) =
      KeyLoop.after split root handle presses >>= fun loop => loop.turn split root handle press :=
  foldlM_append_singleton _ presses press KeyLoop.start

theorem prevUnset_start : PrevUnset KeyLoop.start := by
  unfold PrevUnset
  decide

theorem prevUnset_turn {next : KeyLoop} (unset : PrevUnset loop)
    (turned : loop.turn split root handle press = .ok next) : PrevUnset next := by
  unfold PrevUnset
  rw [prev_turn turned]
  exact unset

/-! ## The cursor stays in the line -/

/-- The cursor is in the line, BACKSPACE erases inside it, and the terminal's cursor is never
    moved by a negative number. -/
structure InText (console : Console) : Prop where
  nonneg : 0 ≤ console.currentCommandInputCursorPos
  le : console.currentCommandInputCursorPos ≤ console.currentCommandInput.length
  erases : ¬ Throws console.pressBackspace
  moves : ∀ number ∈ leftMoves console, 0 ≤ number

/-- The run is defined, and the cursor stays in the line. -/
def StaysInText (split : Split) (root : CommandTree Handler)
    (handle : HandlerCall Handler → Except Exception Unit) (presses : List KeyPress) : Prop :=
  ∀ before, before <+: presses →
    Safe (fun loop => InText loop.console) (KeyLoop.after split root handle before)

/-- What is computed for the key in a line of this length fits into an `int`. -/
def FitsInt (length position : ℕ) : KeyEvent → Prop
  | .character _ => position + 1 < 2 ^ 31
  | .backspace => position + 2 < 2 ^ 31 ∧ (length - position) % 2 ^ 32 < 2 ^ 31
  | .arrowLeft => position + 4 < 2 ^ 31 ∧ (length - (position - 1)) % 2 ^ 32 < 2 ^ 31
  | .arrowRight => position + 4 < 2 ^ 31 ∧ (length - min (position + 1) length) % 2 ^ 32 < 2 ^ 31
  | .enter | .tab | .unknownEscape | .nothing => True

theorem inText_iff (shows : Shows console input position moves) :
    InText console ↔ position ≤ input.length ∧ ∀ number ∈ moves, 0 ≤ number := by
  constructor
  · intro inText
    have le := inText.le
    rw [shows.position, shows.input] at le
    exact ⟨by omega, shows.moves ▸ inText.moves⟩
  · rintro ⟨inside, nonneg⟩
    constructor
    · rw [shows.position]
      omega
    · rw [shows.position, shows.input]
      omega
    · by_cases small : position + 2 < 2 ^ 31
      · obtain ⟨next, isNext, _⟩ := pressBackspace_of_lt shows inside small
        rw [isNext]
        exact not_throws_ok next
      · rw [pressBackspace_of_le shows (Nat.le_of_not_lt small)]
        exact not_throws_undefinedBehaviour
    · rwa [shows.moves]

theorem InText.shows (inText : InText console) :
    Shows console console.currentCommandInput console.currentCommandInputCursorPos.toNat
      (leftMoves console) :=
  ⟨rfl, (Int.toNat_of_nonneg inText.nonneg).symm, rfl⟩

/-- BACKSPACE does not change how far the cursor is from the end. -/
theorem length_deletedAt_sub (inside : position ≤ input.length) :
    (deletedAt input position).length - (position - 1) = input.length - position := by
  unfold deletedAt
  split
  · omega
  · rw [List.length_eraseIdx_of_lt (by omega)]
    omega

theorem fitsInt_iff (inside : position ≤ input.length) :
    FitsInt input.length position event ↔
      Computes position event ∧ ∀ number ∈ movesOf input position event, 0 ≤ number := by
  cases event with
  | backspace =>
    simp [FitsInt, Computes, movesOf, lineAfter, length_deletedAt_sub inside, narrowed_nonneg_iff]
    omega
  | arrowLeft | arrowRight =>
    simp [FitsInt, Computes, movesOf, lineAfter, narrowed_nonneg_iff]
    omega
  | character c => simp [FitsInt, Computes, movesOf]
  | tab | enter | unknownEscape | nothing => simp [FitsInt, Computes, movesOf]

/-- One turn keeps the cursor in the line just when everything fits. -/
theorem inText_turn_iff (unset : PrevUnset loop) (inText : InText loop.console) :
    Safe (fun next => InText next.console) (loop.turn split root handle press) ↔
      FitsInt loop.console.currentCommandInput.length loop.console.currentCommandInputCursorPos.toNat
        (eventOf press) := by
  have shows := inText.shows
  obtain ⟨inside, nonneg⟩ := (inText_iff shows).mp inText
  rw [fitsInt_iff inside]
  by_cases computes : Computes loop.console.currentCommandInputCursorPos.toNat (eventOf press)
  · rw [and_iff_right computes]
    obtain ⟨throws, lookup⟩ | ⟨next, isNext, shows'⟩ :=
      @turn_of_computes _ split root handle _ _ _ _ _ shows inside unset computes
    · apply iff_of_true (throws.safe _)
      obtain tab | enter := lookup
      · simp [tab, movesOf]
      · simp [enter, movesOf]
    · rw [isNext, safe_ok_iff, inText_iff shows', List.forall_mem_append, and_iff_right nonneg,
        and_iff_right (position_lineAfter_le inside _)]
  · rw [turn_of_not_computes shows computes]
    exact iff_of_false (not_safe_undefinedBehaviour _) fun fits => computes fits.1

theorem shows_start : Shows KeyLoop.start.console [] 0 [] := ⟨rfl, rfl, rfl⟩

/-- The cursor stays in the line exactly while everything fits into an `int`. -/
theorem staysInText_iff (split : Split) (root : CommandTree Handler)
    (handle : HandlerCall Handler → Except Exception Unit) (presses : List KeyPress) :
    StaysInText split root handle presses ↔
      ∀ before press rest, presses = before ++ press :: rest →
        ∀ loop, KeyLoop.after split root handle before = .ok loop →
          FitsInt loop.console.currentCommandInput.length
            loop.console.currentCommandInputCursorPos.toNat (eventOf press) := by
  apply prefixes_safe_iff PrevUnset prevUnset_start
  · intro loop press next unset turned
    exact prevUnset_turn unset turned
  · rw [inText_iff shows_start]
    simp
  · intro before press loop unset inText
    exact inText_turn_iff unset inText

/-- Pressing the key `a`. -/
def pressA : KeyPress := ⟨some 'a', none, none⟩

theorem eventOf_pressA : eventOf pressA = .character 'a' := by decide

theorem after_replicate {count : ℕ} (small : count < 2 ^ 31) :
    ∃ loop, KeyLoop.after split root handle (List.replicate count pressA) = .ok loop ∧
      Shows loop.console (List.replicate count 'a') count [] := by
  induction count with
  | zero => exact ⟨KeyLoop.start, rfl, shows_start⟩
  | succ count inductionHypothesis =>
    obtain ⟨loop, reached, shows⟩ := inductionHypothesis (by omega)
    obtain ⟨next, isNext, shows'⟩ := typeChar_of_lt shows small 'a'
    refine ⟨{ loop with console := next }, ?_, List.replicate_succ' ▸ shows'⟩
    rw [List.replicate_succ', after_append, reached, ok_bind, turn_eq]
    simp [eventOf_pressA, isNext]

/-- The position overflows behind so many characters. -/
theorem not_staysInText_of_long :
    ¬ StaysInText (cutAtRuns ' ') (createCommandTree ([] : List (Command Unit))) (fun _ => .ok ())
      (List.replicate (2147483647 + 1) pressA) := by
  intro stays
  have safe := stays _ (List.prefix_refl _)
  obtain ⟨loop, reached, shows⟩ := @after_replicate Unit (cutAtRuns ' ') (createCommandTree [])
    (fun _ => .ok ()) 2147483647 (by decide)
  have overflows : ¬ Computes 2147483647 (eventOf pressA) := by
    rw [eventOf_pressA]
    exact Nat.lt_irrefl (2 ^ 31)
  rw [List.replicate_succ', after_append, reached, ok_bind,
    turn_of_not_computes shows overflows] at safe
  exact not_safe_undefinedBehaviour _ safe

/-! ### Short runs -/

theorem length_lineAfter_le : (lineAfter input position event).1.length ≤ input.length + 1 := by
  cases event with
  | backspace =>
    simp only [lineAfter, deletedAt]
    split
    · exact Nat.le_succ _
    · exact Nat.le_succ_of_le (List.length_eraseIdx_le _ _)
  | character c => simp [lineAfter]
  | arrowLeft | arrowRight | enter | tab | unknownEscape | nothing => simp [lineAfter]

theorem length_turn_le {next : KeyLoop} (unset : PrevUnset loop) (inText : InText loop.console)
    (turned : loop.turn split root handle press = .ok next) :
    next.console.currentCommandInput.length ≤ loop.console.currentCommandInput.length + 1 := by
  have shows := inText.shows
  have inside := ((inText_iff shows).mp inText).1
  by_cases computes : Computes loop.console.currentCommandInputCursorPos.toNat (eventOf press)
  · obtain ⟨throws, _⟩ | ⟨next', isNext, shows'⟩ :=
      @turn_of_computes _ split root handle _ _ _ _ _ shows inside unset computes
    · exact absurd ⟨next, turned⟩ throws.not_returns
    · obtain rfl := Except.ok.inj (isNext.symm.trans turned)
      rw [shows'.input]
      exact length_lineAfter_le
  · rw [turn_of_not_computes shows computes] at turned
    cases turned

theorem fitsInt_of_short {length : ℕ} (inside : position ≤ length) (short : length + 4 < 2 ^ 31) :
    FitsInt length position event := by
  cases event with
  | character c | backspace | arrowLeft | arrowRight =>
    simp only [FitsInt]
    omega
  | enter | tab | unknownEscape | nothing => trivial

/-- The line is no longer than the run, and short runs keep the cursor in it. -/
theorem safe_after_of_short (presses : List KeyPress) (short : presses.length + 4 ≤ 2 ^ 31) :
    Safe (fun loop => PrevUnset loop ∧ InText loop.console ∧
      loop.console.currentCommandInput.length ≤ presses.length)
      (KeyLoop.after split root handle presses) := by
  induction presses using List.reverseRecOn with
  | nil =>
    refine safe_ok_iff.mpr ⟨prevUnset_start, (inText_iff shows_start).mpr ?_, Nat.le_refl 0⟩
    simp
  | append_singleton presses press inductionHypothesis =>
    rw [List.length_append, List.length_singleton] at short ⊢
    rw [after_append, safe_bind_iff]
    have safe := inductionHypothesis (by omega)
    refine ⟨safe.1, ?_⟩
    intro loop reached
    obtain ⟨unset, inText, bound⟩ := safe.2 loop reached
    have inside := ((inText_iff inText.shows).mp inText).1
    have safeTurn := (@inText_turn_iff _ split root handle loop press unset inText).mpr
      (fitsInt_of_short inside (by omega))
    refine ⟨safeTurn.1, ?_⟩
    intro next turned
    have longer := length_turn_le unset inText turned
    exact ⟨prevUnset_turn unset turned, safeTurn.2 next turned, by omega⟩

/-- No run of fewer keys brings the cursor out of the line. -/
theorem staysInText_of_short {presses : List KeyPress} (short : presses.length + 4 ≤ 2 ^ 31) :
    StaysInText split root handle presses := by
  intro before isPrefix
  have safe := @safe_after_of_short _ split root handle before
    (Nat.le_trans (Nat.add_le_add_right isPrefix.length_le 4) short)
  exact ⟨safe.1, fun loop reached => (safe.2 loop reached).2.1⟩

/-! ## The reference editor -/

/-- What a key does in an editor with an insertion cursor. -/
def edit (editor : CursorText Char) : KeyEvent → CursorText Char
  | .character c => editor.insert c
  | .backspace => editor.deleteBefore
  | .arrowLeft => editor.moveLeft
  | .arrowRight => editor.moveRight
  | .enter => .empty
  | .tab | .unknownEscape | .nothing => editor

/-- The editor behind some keys. -/
def editorAfter (presses : List KeyPress) : CursorText Char :=
  presses.foldl (fun editor press => edit editor (eventOf press)) .empty

/-- The line and its cursor are those of the editor. -/
structure ShowsEditor (editor : CursorText Char) (loop : KeyLoop) : Prop where
  input : loop.console.currentCommandInput = editor.text
  position : loop.console.currentCommandInputCursorPos = editor.position

/-- The run is defined, and the loop behaves as the editor. -/
def RefinesEditor (split : Split) (root : CommandTree Handler)
    (handle : HandlerCall Handler → Except Exception Unit) (presses : List KeyPress) : Prop :=
  ∀ before, before <+: presses →
    Safe (ShowsEditor (editorAfter before)) (KeyLoop.after split root handle before)

/-- The turn is defined, and a character meets only copies of itself behind the cursor. -/
structure Suits (editor : CursorText Char) (event : KeyEvent) : Prop where
  computes : Computes editor.position event
  copies : ∀ c, event = .character c → ∀ other ∈ editor.behind, other = c

variable {editor : CursorText Char}

/-- Only a character can tell the line from that of the editor. -/
theorem lineAfter_eq_iff : lineAfter editor.text editor.position event =
    ((edit editor event).text, (edit editor event).position) ↔
      ∀ c, event = .character c → ∀ other ∈ editor.behind, other = c := by
  cases event with
  | character c =>
    simp [lineAfter, edit, CursorText.text_append_eq_insert_iff]
  | backspace =>
    apply iff_of_true _ (by simp)
    by_cases atStart : editor.position = 0
    · simp [lineAfter, edit, deletedAt, atStart, CursorText.deleteBefore_of_position atStart]
    · simp [lineAfter, edit, deletedAt, atStart, CursorText.text_deleteBefore atStart]
  | arrowLeft => simp [lineAfter, edit]
  | arrowRight =>
    apply iff_of_true _ (by simp)
    have inside := editor.position_le
    simp only [lineAfter, edit, CursorText.text_moveRight, CursorText.position_moveRight]
    split <;> grind
  | enter | tab | unknownEscape | nothing => simp [lineAfter, edit]

theorem showsEditor_iff (shows : Shows loop.console input position moves) :
    ShowsEditor editor loop ↔ (input, position) = (editor.text, editor.position) := by
  constructor
  · intro showsEditor
    have samePosition := shows.position.symm.trans showsEditor.position
    rw [← shows.input, showsEditor.input, Int.ofNat_inj.mp samePosition]
  · rintro ⟨⟩
    exact ⟨shows.input, shows.position⟩

/-- One turn follows the editor just when the key suits it. -/
theorem showsEditor_turn_iff (unset : PrevUnset loop) (showsEditor : ShowsEditor editor loop) :
    Safe (ShowsEditor (edit editor (eventOf press))) (loop.turn split root handle press) ↔
      Suits editor (eventOf press) := by
  have shows : Shows loop.console editor.text editor.position (leftMoves loop.console) :=
    ⟨showsEditor.input, showsEditor.position, rfl⟩
  by_cases computes : Computes editor.position (eventOf press)
  · have suits : Suits editor (eventOf press) ↔ _ := ⟨Suits.copies, Suits.mk computes⟩
    rw [suits]
    obtain ⟨throws, lookup⟩ | ⟨next, isNext, shows'⟩ :=
      @turn_of_computes _ split root handle _ _ _ _ _ shows editor.position_le unset computes
    · apply iff_of_true (throws.safe _)
      intro c isCharacter
      obtain tab | enter := lookup
      · cases tab.symm.trans isCharacter
      · cases enter.symm.trans isCharacter
    · rw [isNext, safe_ok_iff, showsEditor_iff shows', ← lineAfter_eq_iff]
  · rw [turn_of_not_computes shows computes]
    exact iff_of_false (not_safe_undefinedBehaviour _) fun suits => computes suits.computes

/-- The loop behaves as the editor exactly while every key suits it. -/
theorem refinesEditor_iff (split : Split) (root : CommandTree Handler)
    (handle : HandlerCall Handler → Except Exception Unit) (presses : List KeyPress) :
    RefinesEditor split root handle presses ↔
      ∀ before press rest, presses = before ++ press :: rest →
        ∀ loop, KeyLoop.after split root handle before = .ok loop →
          Suits (editorAfter before) (eventOf press) := by
  apply prefixes_safe_iff PrevUnset prevUnset_start
  · intro loop press next unset turned
    exact prevUnset_turn unset turned
  · exact ⟨rfl, rfl⟩
  · intro before press loop unset showsEditor
    have next : editorAfter (before ++ [press]) = edit (editorAfter before) (eventOf press) := by
      simp [editorAfter]
    rw [next]
    exact showsEditor_turn_iff unset showsEditor

/-- A character that is typed behind an ARROW_LEFT goes to the end of the line. -/
theorem not_refinesEditor_of_arrowLeft :
    ¬ RefinesEditor (cutAtRuns ' ') (createCommandTree ([] : List (Command Unit))) (fun _ => .ok ())
      [pressA, ⟨some Console.ESC, some '[', some 'D'⟩, ⟨some 'b', none, none⟩] := by
  intro refines
  obtain ⟨loop, reached⟩ : Returns (KeyLoop.after (cutAtRuns ' ')
      (createCommandTree ([] : List (Command Unit))) (fun _ => .ok ())
      [pressA, ⟨some Console.ESC, some '[', some 'D'⟩, ⟨some 'b', none, none⟩]) :=
    ⟨_, rfl⟩
  have shows := (refines _ (List.prefix_refl _)).2 loop reached
  cases reached
  exact absurd shows.input (by decide)

end Runs

end Klevret.Verified.Cli
