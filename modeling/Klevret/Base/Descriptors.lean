import Mathlib.Logic.Function.Iterate
import Mathlib.Tactic.Common

/-! # Descriptor tables

A table says who owns each descriptor number.  Opening takes the lowest number that is free,
and closing makes a number free whoever owns it.  A number stays with its owner while others
only open (`ownerOf_place_of_some`), and the number that was closed last is taken next when
those below it are in use (`lowestFree_close`). -/

namespace Klevret.Base

variable {Owner : Type*}

/-- The owner of each number; numbers past the end are free. -/
abbrev DescriptorTable (Owner : Type*) := List (Option Owner)

namespace DescriptorTable

def ownerOf (table : DescriptorTable Owner) (number : ℕ) : Option Owner :=
  table[number]?.join

/-- The lowest number that nobody owns. -/
def lowestFree : DescriptorTable Owner → ℕ
  | [] => 0
  | none :: _ => 0
  | some _ :: table => lowestFree table + 1

/-- The table after `owner` has opened a descriptor. -/
def place (owner : Owner) : DescriptorTable Owner → DescriptorTable Owner
  | [] => [some owner]
  | none :: table => some owner :: table
  | some other :: table => some other :: place owner table

def close (table : DescriptorTable Owner) (number : ℕ) : DescriptorTable Owner :=
  table.set number none

variable {table : DescriptorTable Owner} {number : ℕ} {owner other : Owner}

@[simp] theorem ownerOf_nil : ownerOf ([] : DescriptorTable Owner) number = none := rfl

@[simp] theorem ownerOf_cons_zero (entry : Option Owner) : ownerOf (entry :: table) 0 = entry := rfl

@[simp] theorem ownerOf_cons_succ (entry : Option Owner) :
    ownerOf (entry :: table) (number + 1) = ownerOf table number := rfl

@[simp] theorem ownerOf_lowestFree (table : DescriptorTable Owner) :
    ownerOf table (lowestFree table) = none := by
  induction table with
  | nil => rfl
  | cons entry table inductionHypothesis =>
    cases entry with
    | none => rfl
    | some other => exact inductionHypothesis

theorem isSome_ownerOf_of_lt (below : number < lowestFree table) : (ownerOf table number).isSome := by
  induction table generalizing number with
  | nil => simp [lowestFree] at below
  | cons entry table inductionHypothesis =>
    cases entry with
    | none => simp [lowestFree] at below
    | some other =>
      cases number with
      | zero => rfl
      | succ number =>
        rw [lowestFree] at below
        exact inductionHypothesis (Nat.lt_of_succ_lt_succ below)

/-- A free number with none below it is the lowest one. -/
theorem lowestFree_eq (free : ownerOf table number = none)
    (below : ∀ lower < number, (ownerOf table lower).isSome) : lowestFree table = number := by
  obtain lower | same | higher := Nat.lt_trichotomy (lowestFree table) number
  · have used := below _ lower
    simp at used
  · exact same
  · have used := isSome_ownerOf_of_lt higher
    simp [free] at used

/-! ## Opening and closing -/

theorem ownerOf_place (owner : Owner) (table : DescriptorTable Owner) (number : ℕ) :
    ownerOf (place owner table) number =
      if number = lowestFree table then some owner else ownerOf table number := by
  induction table generalizing number with
  | nil => cases number <;> simp [place, lowestFree]
  | cons entry table inductionHypothesis =>
    cases entry with
    | none => cases number <;> simp [place, lowestFree]
    | some other => cases number <;> simp [place, lowestFree, inductionHypothesis]

theorem ownerOf_close (table : DescriptorTable Owner) (closed number : ℕ) :
    ownerOf (close table closed) number =
      if number = closed then none else ownerOf table number := by
  simp only [ownerOf, close, List.getElem?_set]
  grind

/-- Whoever opens a descriptor, the others keep theirs. -/
theorem ownerOf_place_of_some (owned : ownerOf table number = some owner) (newcomer : Owner) :
    ownerOf (place newcomer table) number = some owner := by
  have different : number ≠ lowestFree table := by
    rintro rfl
    simp at owned
  rw [ownerOf_place, if_neg different, owned]

/-- With the numbers below it in use, a number that is closed is the next to be taken. -/
theorem lowestFree_close (below : ∀ lower < number, (ownerOf table lower).isSome) :
    lowestFree (close table number) = number := by
  apply lowestFree_eq
  · simp [ownerOf_close]
  · intro lower isLower
    rw [ownerOf_close, if_neg (Nat.ne_of_lt isLower)]
    exact below lower isLower

/-! ## Many openings -/

theorem ownerOf_iterate_place_of_some (owned : ownerOf table number = some owner) (newcomer : Owner)
    (count : ℕ) : ownerOf ((place newcomer)^[count] table) number = some owner := by
  induction count generalizing table with
  | zero => exact owned
  | succ count inductionHypothesis => exact inductionHypothesis (ownerOf_place_of_some owned newcomer)

/-- Nobody but the newcomer gets a number. -/
theorem ownerOf_iterate_place (newcomer : Owner) (count : ℕ) :
    ownerOf ((place newcomer)^[count] table) number = ownerOf table number ∨
      ownerOf ((place newcomer)^[count] table) number = some newcomer := by
  induction count generalizing table with
  | zero => exact Or.inl rfl
  | succ count inductionHypothesis =>
    rw [Function.iterate_succ_apply]
    obtain same | taken := @inductionHypothesis (place newcomer table)
    · rw [same, ownerOf_place]
      split
      next => exact Or.inr rfl
      next => exact Or.inl rfl
    · exact Or.inr taken

theorem isSome_ownerOf_iterate_place (used : (ownerOf table number).isSome) (newcomer : Owner)
    (count : ℕ) : (ownerOf ((place newcomer)^[count] table) number).isSome := by
  obtain ⟨owner, owned⟩ := Option.isSome_iff_exists.mp used
  rw [ownerOf_iterate_place_of_some owned]
  rfl

end DescriptorTable

end Klevret.Base
