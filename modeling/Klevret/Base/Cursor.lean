import Mathlib.Data.List.Basic
import Mathlib.Tactic.Common

/-! # Texts with an insertion cursor

What stands in front of the cursor, the nearest first, and what stands behind it.  Each
operation is one on the whole text at the position of the cursor (`text_deleteBefore`,
`position_moveRight` and their like), and appending at the end of the text is inserting at the
cursor only in front of copies of the character (`text_append_eq_insert_iff`). -/

namespace Klevret.Base

@[ext] structure CursorText (α : Type*) where
  before : List α
  behind : List α
deriving DecidableEq, Repr

namespace CursorText

variable {α : Type*}

def empty : CursorText α := ⟨[], []⟩

/-- The text from its beginning to its end. -/
def text (editor : CursorText α) : List α := editor.before.reverse ++ editor.behind

/-- How many characters stand in front of the cursor. -/
def position (editor : CursorText α) : ℕ := editor.before.length

def insert (editor : CursorText α) (a : α) : CursorText α :=
  ⟨a :: editor.before, editor.behind⟩

def deleteBefore (editor : CursorText α) : CursorText α :=
  ⟨editor.before.tail, editor.behind⟩

def moveLeft : CursorText α → CursorText α
  | ⟨[], behind⟩ => ⟨[], behind⟩
  | ⟨a :: before, behind⟩ => ⟨before, a :: behind⟩

def moveRight : CursorText α → CursorText α
  | ⟨before, []⟩ => ⟨before, []⟩
  | ⟨before, a :: behind⟩ => ⟨a :: before, behind⟩

variable {editor other : CursorText α} {a : α}

@[simp] theorem text_empty : (empty : CursorText α).text = [] := rfl

@[simp] theorem position_empty : (empty : CursorText α).position = 0 := rfl

theorem length_text (editor : CursorText α) :
    editor.text.length = editor.position + editor.behind.length := by
  simp [text, position]

theorem position_le (editor : CursorText α) : editor.position ≤ editor.text.length := by
  rw [length_text]
  exact Nat.le_add_right _ _

/-! ## What the operations do to the text and the position -/

@[simp] theorem position_insert : (editor.insert a).position = editor.position + 1 := rfl

@[simp] theorem position_deleteBefore : editor.deleteBefore.position = editor.position - 1 := by
  simp [deleteBefore, position]

/-- Deleting takes away the character at the position before the cursor. -/
theorem text_deleteBefore (inside : editor.position ≠ 0) :
    editor.deleteBefore.text = editor.text.eraseIdx (editor.position - 1) := by
  obtain ⟨before, behind⟩ := editor
  cases before with
  | nil => exact absurd rfl inside
  | cons a before => simp [deleteBefore, text, position, List.eraseIdx_append_of_length_le]

theorem deleteBefore_of_position (atStart : editor.position = 0) : editor.deleteBefore = editor := by
  obtain ⟨before, behind⟩ := editor
  cases before with
  | nil => rfl
  | cons a before => cases atStart

@[simp] theorem text_moveLeft : editor.moveLeft.text = editor.text := by
  obtain ⟨before, behind⟩ := editor
  cases before with
  | nil => rfl
  | cons a before => simp [moveLeft, text]

@[simp] theorem position_moveLeft : editor.moveLeft.position = editor.position - 1 := by
  obtain ⟨before, behind⟩ := editor
  cases before with
  | nil => rfl
  | cons a before => rfl

@[simp] theorem text_moveRight : editor.moveRight.text = editor.text := by
  obtain ⟨before, behind⟩ := editor
  cases behind with
  | nil => rfl
  | cons a behind => simp [moveRight, text]

theorem position_moveRight : editor.moveRight.position =
    if editor.position < editor.text.length then editor.position + 1 else editor.position := by
  obtain ⟨before, behind⟩ := editor
  cases behind with
  | nil => simp [moveRight, text, position]
  | cons a behind => simp [moveRight, text, position]

/-! ## Typing at the end -/

/-- A list can be turned round a character only if it has no other one. -/
theorem append_singleton_eq_cons_iff {behind : List α} :
    behind ++ [a] = a :: behind ↔ ∀ b ∈ behind, b = a := by
  induction behind with
  | nil => simp
  | cons first behind inductionHypothesis =>
    rw [List.cons_append, List.cons_eq_cons, List.forall_mem_cons, ← inductionHypothesis]
    constructor
    · rintro ⟨rfl, rest⟩
      exact ⟨rfl, rest⟩
    · rintro ⟨rfl, rest⟩
      exact ⟨rfl, rest⟩

/-- Appending at the end inserts at the cursor just when nothing else stands behind it. -/
theorem text_append_eq_insert_iff :
    editor.text ++ [a] = (editor.insert a).text ↔ ∀ b ∈ editor.behind, b = a := by
  rw [← append_singleton_eq_cons_iff]
  simp [text, insert]

end CursorText

end Klevret.Base
