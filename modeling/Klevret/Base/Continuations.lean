import Klevret.Base.Trie

/-! # What comes next in a trie

The labels below the node at the end of a path are those that the inserted lists go on with there,
in the order of the insertions: every leaf, and of the steps with one key the first
(`labelsAt_insertions`).  So a trie can be followed without building it. -/

namespace Klevret.Base.RoseTree

variable {α κ β : Type*} [DecidableEq κ]

section

variable (key : α → κ) (isLeaf : α → Bool)

/-- What a list of labels goes on with at the end of `path`: its next label, or its leaf. -/
def continuation (leaf : α) : (labels : List α) → (path : List κ) → Option α
  | [], [] => some leaf
  | [], _ :: _ => none
  | next :: _, [] => some next
  | next :: labels, step :: path => if key next = step then continuation leaf labels path else none

/-- Every leaf, and of the steps with one key the first. -/
def keepFirst : List α → List α
  | [] => []
  | first :: rest =>
    first :: (keepFirst rest).filter fun other => isLeaf other || key other ≠ key first

/-- One more label, unless it is a step with a key that is there. -/
def put (below : List α) (label : α) : List α :=
  if isLeaf label || key label ∉ below.map key then below ++ [label] else below

end

variable {key : α → κ} {isLeaf : α → Bool} {isStep : α → Prop} {leaf : α} {labels below : List α}

/-- A list goes on with one of its labels or with its leaf. -/
theorem mem_of_continuation {path : List κ} {label : α}
    (goesOn : continuation key leaf labels path = some label) : label = leaf ∨ label ∈ labels := by
  induction labels generalizing path with
  | nil =>
    cases path with
    | nil => exact Or.inl (Option.some.inj goesOn).symm
    | cons step path => cases goesOn
  | cons next labels inductionHypothesis =>
    cases path with
    | nil =>
      obtain rfl := Option.some.inj goesOn
      exact Or.inr List.mem_cons_self
    | cons step path =>
      rw [continuation, Option.ite_none_right_eq_some] at goesOn
      exact (inductionHypothesis goesOn.2).imp_right (List.mem_cons_of_mem next)

theorem keepFirst_subset : keepFirst key isLeaf labels ⊆ labels := by
  induction labels with
  | nil => exact List.Subset.refl []
  | cons first labels inductionHypothesis =>
    rw [keepFirst]
    exact List.cons_subset_cons first
      (List.Subset.trans (List.filter_subset_self _) inductionHypothesis)

/-- Labels that are put one after the other are those that are kept. -/
theorem foldl_put (labels below : List α) :
    labels.foldl (put key isLeaf) below =
      below ++ (keepFirst key isLeaf labels).filter
        fun other => isLeaf other || key other ∉ below.map key := by
  induction labels generalizing below with
  | nil => simp [keepFirst]
  | cons first labels inductionHypothesis =>
    rw [List.foldl_cons, inductionHypothesis, keepFirst, put]
    -- the first label is put or not, and those that `keepFirst` drops for it would not be put
    split
    next isNew =>
      rw [List.filter_cons, if_pos isNew, List.filter_filter, List.append_assoc,
        List.singleton_append]
      refine congrArg (below ++ first :: ·) (List.filter_congr ?_)
      intro other _
      grind
    next already =>
      rw [List.filter_cons, if_neg already, List.filter_filter]
      refine congrArg (below ++ ·) (List.filter_congr ?_)
      intro other _
      grind

/-- An insertion puts its continuation below a node. -/
theorem grow_eq (alphabet : Alphabet key isLeaf isStep) (ends : isLeaf leaf)
    (steps : ∀ label ∈ labels, isStep label) (path : List κ) (below : List α) :
    grow key leaf labels path below =
      (continuation key leaf labels path).elim below (put key isLeaf below) := by
  induction labels generalizing path with
  | nil =>
    cases path with
    | nil => simp [grow, continuation, put, ends]
    | cons step path => rfl
  | cons next labels inductionHypothesis =>
    obtain ⟨nextStep, restSteps⟩ := List.forall_mem_cons.mp steps
    cases path with
    | nil =>
      have notLeaf := alphabet.not_isLeaf nextStep
      by_cases already : key next ∈ below.map key
      · simp only [grow, continuation, Option.elim_some, put, if_pos already, notLeaf]
        simp [already]
      · simp only [grow, continuation, Option.elim_some, put, if_neg already, notLeaf]
        simp [already]
    | cons step path =>
      rw [grow, continuation]
      split
      next => exact inductionHypothesis restSteps path
      next => rfl

variable {labelsOf : β → List α} {leafOf : β → α} {items : List β}

theorem foldl_grow_eq (alphabet : Alphabet key isLeaf isStep)
    (ends : ∀ item ∈ items, isLeaf (leafOf item))
    (steps : ∀ item ∈ items, ∀ label ∈ labelsOf item, isStep label) (path : List κ)
    (below : List α) :
    items.foldl (fun below item => grow key (leafOf item) (labelsOf item) path below) below =
      (items.filterMap fun item => continuation key (leafOf item) (labelsOf item) path).foldl
        (put key isLeaf) below := by
  induction items generalizing below with
  | nil => rfl
  | cons item items inductionHypothesis =>
    obtain ⟨itemEnds, restEnds⟩ := List.forall_mem_cons.mp ends
    obtain ⟨itemSteps, restSteps⟩ := List.forall_mem_cons.mp steps
    rw [List.foldl_cons, grow_eq alphabet itemEnds itemSteps,
      inductionHypothesis restEnds restSteps, List.filterMap_cons]
    cases continuation key (leafOf item) (labelsOf item) path with
    | none => rfl
    | some label => rfl

/-- What many insertions leave below the node at the end of a path. -/
theorem labelsAt_insertions (alphabet : Alphabet key isLeaf isStep)
    (ends : ∀ item ∈ items, isLeaf (leafOf item))
    (steps : ∀ item ∈ items, ∀ label ∈ labelsOf item, isStep label) (root : α) (path : List κ) :
    labelsAt key path
        (items.foldl (fun tree item => insert key (leafOf item) (labelsOf item) tree)
          (node root [])) =
      keepFirst key isLeaf
        (items.filterMap fun item => continuation key (leafOf item) (labelsOf item) path) := by
  rw [labelsAt_foldl_insert, labelsAt_leaf, foldl_grow_eq alphabet ends steps, foldl_put]
  simp

end Klevret.Base.RoseTree
