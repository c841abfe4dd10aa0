import Mathlib.Order.Basic
import Mathlib.Order.Compare
import Mathlib.Order.Lattice
import Std.Data.TreeMap
import Std.Data.TreeSet

/-! # Ordered containers over a strict comparison

The ordered containers of C++ are given a strict comparison `less` and tell two
keys apart only through it.  `comparing less` is the three-way comparison they
make of it, and it is lawful as soon as `less` compares an injective key of a
linear order.  `subscript` is the container's `operator[]`: a lookup that
creates the entry when there is none.

A relation that is kept as a map from either side is an inverse pair of maps
(`InverseMaps`).  Writing a pair into both maps keeps them inverse exactly when
it moves nothing (`InverseMaps.insert_iff`). -/

namespace Klevret.Base

open Std (TreeMap TreeSet TransCmp LawfulEqCmp OrientedCmp)

/-- The three-way comparison an ordered container makes of `less`. -/
def comparing {α : Type*} (less : α → α → Bool) (left right : α) : Ordering :=
  if less left right then .lt
  else if less right left then .gt
  else .eq

section Comparing

variable {α κ : Type*} [LinearOrder κ] {less : α → α → Bool} {key : α → κ}

theorem comparing_eq_compare (byKey : ∀ left right, less left right = decide (key left < key right))
    (left right : α) : comparing less left right = compare (key left) (key right) := by
  simp only [comparing, byKey, decide_eq_true_eq]
  split
  next smaller => exact (compare_lt_iff_lt.mpr smaller).symm
  next notSmaller =>
    split
    next larger => exact (compare_gt_iff_gt.mpr larger).symm
    next notLarger =>
      exact (compare_eq_iff_eq.mpr (le_antisymm (not_lt.mp notLarger) (not_lt.mp notSmaller))).symm

theorem transCmp_comparing
    (byKey : ∀ left right, less left right = decide (key left < key right)) :
    TransCmp (comparing less) where
  eq_swap {left right} := by
    rw [comparing_eq_compare byKey, comparing_eq_compare byKey]
    exact OrientedCmp.eq_swap
  isLE_trans {left middle right} := by
    simp only [comparing_eq_compare byKey]
    exact TransCmp.isLE_trans

theorem lawfulEqCmp_comparing
    (byKey : ∀ left right, less left right = decide (key left < key right))
    (injective : Function.Injective key) : LawfulEqCmp (comparing less) where
  compare_self {element} := by
    rw [comparing_eq_compare byKey]
    exact compare_eq_iff_eq.mpr rfl
  eq_of_compare {left right} same := by
    rw [comparing_eq_compare byKey] at same
    exact injective (compare_eq_iff_eq.mp same)

end Comparing

section Scan

variable {α : Type*} {cmp : α → α → Ordering} [TransCmp cmp] [LawfulEqCmp cmp]

/-- A scan of an ordered set from its beginning stops at the least element that it looks for. -/
theorem isLE_of_find?_toList {set : TreeSet α cmp} {sought : α → Bool} {found other : α}
    (isFound : set.toList.find? sought = some found) (member : other ∈ set)
    (isSought : sought other) : (cmp found other).isLE := by
  obtain ⟨-, before, after, split, notBefore⟩ := List.find?_eq_some_iff_append.mp isFound
  have ordered := set.ordered_toList
  have position := TreeSet.mem_toList.mpr member
  rw [split] at ordered position
  obtain inBefore | atOrAfter := List.mem_append.mp position
  · have refused := notBefore other inBefore
    rw [isSought] at refused
    cases refused
  · obtain rfl | inAfter := List.mem_cons.mp atOrAfter
    · have same : cmp other other = .eq := LawfulEqCmp.compare_eq_iff_eq.mpr rfl
      rw [same]
      rfl
    · have fromFound := (List.pairwise_append.mp ordered).2.1
      rw [List.rel_of_pairwise_cons fromFound inAfter]
      rfl

end Scan

section Subscript

variable {α β : Type*} {cmp : α → α → Ordering} [Inhabited β]

/-- `map[key]`: the value under `key`, which is created when it is missing. -/
def subscript (map : TreeMap α β cmp) (key : α) : β × TreeMap α β cmp :=
  match map[key]? with
  | some value => (value, map)
  | none => (default, map.insert key default)

theorem subscript_of_some {map : TreeMap α β cmp} {key : α} {value : β}
    (present : map[key]? = some value) : subscript map key = (value, map) := by
  simp [subscript, present]

theorem subscript_of_none {map : TreeMap α β cmp} {key : α}
    (missing : map[key]? = none) : subscript map key = (default, map.insert key default) := by
  simp [subscript, missing]

end Subscript

section Lookup

variable {α β : Type*} {cmp : α → α → Ordering} [TransCmp cmp] [LawfulEqCmp cmp] [DecidableEq α]

theorem lookup_insert (map : TreeMap α β cmp) (written key : α) (value : β) :
    (map.insert written value)[key]? = if written = key then some value else map[key]? := by
  simp [TreeMap.getElem?_insert, LawfulEqCmp.compare_eq_iff_eq]

theorem lookup_erase (map : TreeMap α β cmp) (erased key : α) :
    (map.erase erased)[key]? = if erased = key then none else map[key]? := by
  simp [TreeMap.getElem?_erase, LawfulEqCmp.compare_eq_iff_eq]

variable [Inhabited β]

/-- What `operator[]` reads, after a write. -/
theorem subscript_insert (map : TreeMap α β cmp) (written key : α) (value : β) :
    (subscript (map.insert written value) key).1 =
      if written = key then value else (subscript map key).1 := by
  by_cases same : written = key
  · have present : (map.insert written value)[key]? = some value := by
      rw [lookup_insert, if_pos same]
    rw [if_pos same, subscript_of_some present]
  · have untouched : (map.insert written value)[key]? = map[key]? := by
      rw [lookup_insert, if_neg same]
    rw [if_neg same, subscript, subscript, untouched]
    cases map[key]? with
    | some found => rfl
    | none => rfl

/-- The entry that `operator[]` creates changes nothing that `operator[]` reads. -/
theorem subscript_subscript (map : TreeMap α β cmp) (read key : α) :
    (subscript (subscript map read).2 key).1 = (subscript map key).1 := by
  cases found : map[read]? with
  | some value => rw [subscript_of_some found]
  | none =>
    rw [subscript_of_none found, subscript_insert]
    split
    next same =>
      subst same
      rw [subscript_of_none found]
    next => rfl

end Lookup

section Inverse

variable {α β : Type*} {cmpLeft : α → α → Ordering} {cmpRight : β → β → Ordering}

/-- Each map holds the entries of the other, turned around. -/
def InverseMaps (left : TreeMap α β cmpLeft) (right : TreeMap β α cmpRight) : Prop :=
  ∀ (a : α) (b : β), left[a]? = some b ↔ right[b]? = some a

theorem inverseMaps_empty [TransCmp cmpLeft] [TransCmp cmpRight] :
    InverseMaps (∅ : TreeMap α β cmpLeft) (∅ : TreeMap β α cmpRight) := by
  intro a b
  simp

variable [TransCmp cmpLeft] [LawfulEqCmp cmpLeft] [DecidableEq α]
  [TransCmp cmpRight] [LawfulEqCmp cmpRight] [DecidableEq β]
  {left : TreeMap α β cmpLeft} {right : TreeMap β α cmpRight} {a : α} {b : β}

/-- The entry on the left takes nothing from another `b`; what is left to ask is
    that `b` gives up no other `a`. -/
theorem InverseMaps.insert_iff (inverse : InverseMaps left right)
    (available : ∀ {other}, left[a]? = some other → other = b) :
    InverseMaps (left.insert a b) (right.insert b a) ↔
      ∀ other, right[b]? = some other → other = a := by
  constructor
  · intro inverseNext other held
    by_contra moved
    -- the old entry on the left still points to `b`
    have stale : (left.insert a b)[other]? = some b := by
      rw [lookup_insert, if_neg (Ne.symm moved)]
      exact (inverse other b).mpr held
    have heldNext := (inverseNext other b).mp stale
    rw [lookup_insert, if_pos rfl] at heldNext
    exact moved (Option.some.inj heldNext).symm
  · intro notMoved a' b'
    rw [lookup_insert, lookup_insert]
    by_cases sameLeft : a = a' <;> by_cases sameRight : b = b'
    · rw [if_pos sameLeft, if_pos sameRight, sameLeft, sameRight]
      exact iff_of_true rfl rfl
    · rw [if_pos sameLeft, if_neg sameRight]
      -- `a` has the new entry now, and an old one would have been `b`
      refine iff_of_false ?_ ?_
      · intro same
        exact sameRight (Option.some.inj same)
      · intro heldToo
        subst sameLeft
        exact sameRight (available ((inverse a b').mpr heldToo)).symm
    · rw [if_neg sameLeft, if_pos sameRight]
      -- `b` has the new entry now, and gave up no other `a`
      refine iff_of_false ?_ ?_
      · intro heldToo
        subst sameRight
        exact sameLeft (notMoved a' ((inverse a' b).mp heldToo)).symm
      · intro same
        exact sameLeft (Option.some.inj same)
    · rw [if_neg sameLeft, if_neg sameRight]
      exact inverse a' b'

/-- Erasing an entry from both sides. -/
theorem InverseMaps.erase (inverse : InverseMaps left right) (entry : left[a]? = some b) :
    InverseMaps (left.erase a) (right.erase b) := by
  have mirrored := (inverse a b).mp entry
  intro a' b'
  rw [lookup_erase, lookup_erase]
  by_cases sameLeft : a = a' <;> by_cases sameRight : b = b'
  · rw [if_pos sameLeft, if_pos sameRight]
    exact iff_of_false nofun nofun
  · rw [if_pos sameLeft, if_neg sameRight]
    refine iff_of_false nofun ?_
    intro held
    subst sameLeft
    exact sameRight (Option.some.inj (entry.symm.trans ((inverse a b').mpr held)))
  · rw [if_neg sameLeft, if_pos sameRight]
    refine iff_of_false ?_ nofun
    intro held
    subst sameRight
    exact sameLeft (Option.some.inj (mirrored.symm.trans ((inverse a' b).mp held)))
  · rw [if_neg sameLeft, if_neg sameRight]
    exact inverse a' b'

end Inverse

end Klevret.Base
