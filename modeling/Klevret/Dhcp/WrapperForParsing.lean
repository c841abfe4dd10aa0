import Mathlib.Data.Nat.Notation
import Mathlib.Tactic.Common

/-! # Character cursor (`WrapperForParsing`)

A text is a list of characters and the position of the source is the suffix that
has not been read yet.  Past the end of the text the cursor shows `EOT`. -/

namespace Klevret.Dhcp

structure WrapperForParsing where
  ch : Char
  rest : List Char
deriving DecidableEq, Repr

namespace WrapperForParsing

/-- The end marker, a character like any other. -/
def EOT : Char := Char.ofNat 3

def getNext (wrap : WrapperForParsing) : WrapperForParsing :=
  match wrap.rest with
  | [] => { wrap with ch := EOT }
  | ch :: rest => { ch, rest }

/-- The constructor shows the first character. -/
def ofString (str : List Char) : WrapperForParsing :=
  getNext { ch := EOT, rest := str }

/-- How many characters other than the marker can still be shown. -/
def remaining (wrap : WrapperForParsing) : ℕ :=
  wrap.rest.length + if wrap.ch = EOT then 0 else 1

theorem remaining_getNext {wrap : WrapperForParsing} (notMarker : wrap.ch ≠ EOT) :
    wrap.getNext.remaining < wrap.remaining := by
  have before : wrap.remaining = wrap.rest.length + 1 := by
    rw [remaining, if_neg notMarker]
  rw [before]
  unfold remaining getNext
  cases wrap.rest with
  | nil =>
    show 0 + (if EOT = EOT then 0 else 1) < 0 + 1
    rw [if_pos rfl]
    exact Nat.one_pos
  | cons next rest =>
    show rest.length + (if next = EOT then 0 else 1) < rest.length + 1 + 1
    split <;> omega

/-! ### The cursor as the text that is left -/

@[simp] theorem ch_ofString_nil : (ofString []).ch = EOT := rfl

@[simp] theorem ch_ofString_cons (ch : Char) (text : List Char) : (ofString (ch :: text)).ch = ch :=
  rfl

@[simp] theorem getNext_ofString_nil : (ofString []).getNext = ofString [] := rfl

@[simp] theorem getNext_ofString_cons (ch : Char) (text : List Char) :
    (ofString (ch :: text)).getNext = ofString text := by
  cases text with
  | nil => rfl
  | cons next text => rfl

/-- Every cursor stands in front of some text. -/
theorem exists_ofString (wrap : WrapperForParsing) : ∃ text, wrap = ofString text :=
  ⟨wrap.ch :: wrap.rest, rfl⟩

end WrapperForParsing

end Klevret.Dhcp
