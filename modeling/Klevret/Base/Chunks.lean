import Mathlib.Data.List.Basic
import Mathlib.Data.List.Flatten
import Mathlib.Tactic.Common

/-! # Lists of equal pieces

`chunks size count list` cuts `count` pieces of `size` off a list, and `pieces`
cuts a list into as many whole ones as there are.  A list whose length is a
multiple of `size` is the concatenation of its pieces. -/

namespace Klevret.Base

variable {α : Type*}

def chunks (size : ℕ) : ℕ → List α → List (List α)
  | 0, _ => []
  | count + 1, list => list.take size :: chunks size count (list.drop size)

/-- The whole pieces of a list. -/
def pieces (size : ℕ) (list : List α) : List (List α) :=
  chunks size (list.length / size) list

theorem flatten_chunks {size count : ℕ} {list : List α} (exact : list.length = size * count) :
    (chunks size count list).flatten = list := by
  induction count generalizing list with
  | zero =>
    have empty : list = [] := List.eq_nil_of_length_eq_zero exact
    rw [empty, chunks, List.flatten_nil]
  | succ count inductionHypothesis =>
    have restExact : (list.drop size).length = size * count := by
      rw [List.length_drop, exact, Nat.mul_succ, Nat.add_sub_cancel]
    rw [chunks, List.flatten_cons, inductionHypothesis restExact, List.take_append_drop]

theorem length_of_mem_chunks {size count : ℕ} {list piece : List α}
    (exact : list.length = size * count) (member : piece ∈ chunks size count list) :
    piece.length = size := by
  induction count generalizing list with
  | zero => cases member
  | succ count inductionHypothesis =>
    rw [chunks] at member
    obtain rfl | later := List.mem_cons.mp member
    · rw [List.length_take, exact, Nat.mul_succ]
      exact Nat.min_eq_left (Nat.le_add_left _ _)
    · refine inductionHypothesis ?_ later
      rw [List.length_drop, exact, Nat.mul_succ, Nat.add_sub_cancel]

/-- A list of whole pieces is their concatenation. -/
theorem flatten_pieces {size : ℕ} {list : List α} (whole : size ∣ list.length) :
    (pieces size list).flatten = list :=
  flatten_chunks (Nat.mul_div_cancel' whole).symm

theorem length_of_mem_pieces {size : ℕ} {list piece : List α} (whole : size ∣ list.length)
    (member : piece ∈ pieces size list) : piece.length = size :=
  length_of_mem_chunks (Nat.mul_div_cancel' whole).symm member

/-- Pieces that a map keeps in their lengths stay apart in the concatenation. -/
theorem flatten_map_eq_iff {f : List α → List α} {list : List (List α)}
    (sameLength : ∀ piece ∈ list, (f piece).length = piece.length) :
    (list.map f).flatten = list.flatten ↔ ∀ piece ∈ list, f piece = piece := by
  induction list with
  | nil => exact iff_of_true rfl nofun
  | cons piece list inductionHypothesis =>
    obtain ⟨headLength, restLength⟩ := List.forall_mem_cons.mp sameLength
    rw [List.map_cons, List.flatten_cons, List.flatten_cons, List.forall_mem_cons,
      ← inductionHypothesis restLength]
    constructor
    · intro same
      exact List.append_inj same headLength
    · rintro ⟨headSame, restSame⟩
      rw [headSame, restSame]

/-- A filter that loses no element of the concatenation loses no piece that has one. -/
theorem filter_eq_self_of_flatten {keep : List α → Bool} {list : List (List α)}
    (nonempty : ∀ piece ∈ list, piece ≠ []) (same : (list.filter keep).flatten = list.flatten) :
    list.filter keep = list := by
  induction list with
  | nil => rfl
  | cons piece list inductionHypothesis =>
    obtain ⟨headNonempty, restNonempty⟩ := List.forall_mem_cons.mp nonempty
    by_cases kept : keep piece
    · rw [List.filter_cons_of_pos kept] at same ⊢
      rw [inductionHypothesis restNonempty (List.append_cancel_left same)]
    · rw [List.filter_cons_of_neg kept] at same
      have shorter := (List.filter_sublist (p := keep) (l := list)).flatten.length_le
      have headLength := List.length_pos_iff.mpr headNonempty
      rw [same, List.flatten_cons, List.length_append] at shorter
      omega

end Klevret.Base
