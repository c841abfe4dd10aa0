import Klevret.Base.RoseTree

/-! # Rose trees as tries

The labels of a trie are leaves and steps.  A leaf ends a path and has nothing below it, and
the steps below one node have different keys, so that a list of steps is a path of the tree at
most once.  An insertion adds its own path and no other (`leafPaths_insert`). -/

namespace Klevret.Base.RoseTree

variable {α κ : Type*}

/-! ## The paths to the leaves -/

section Paths

variable (isLeaf : α → Bool)

mutual

/-- The paths from the root to the leaves, each with its leaf. -/
def leafPaths : RoseTree α → List (List α × α)
  | node _ children => forestPaths children

/-- The paths to the leaves through the roots of a forest. -/
def forestPaths : List (RoseTree α) → List (List α × α)
  | [] => []
  | tree :: forest =>
    (if isLeaf tree.label then [([], tree.label)]
      else (leafPaths tree).map (Prod.map (tree.label :: ·) id)) ++ forestPaths forest

end

variable {isLeaf} {tree : RoseTree α} {forest : List (RoseTree α)}

theorem leafPaths_eq : leafPaths isLeaf tree = forestPaths isLeaf tree.children := by
  cases tree with
  | node label children => rw [leafPaths, children_node]

theorem forestPaths_append (left right : List (RoseTree α)) :
    forestPaths isLeaf (left ++ right) = forestPaths isLeaf left ++ forestPaths isLeaf right := by
  induction left with
  | nil => rfl
  | cons tree left inductionHypothesis =>
    rw [List.cons_append, forestPaths, forestPaths, inductionHypothesis, List.append_assoc]

theorem forestPaths_singleton_leaf {leaf : α} (ends : isLeaf leaf) :
    forestPaths isLeaf [node leaf []] = [([], leaf)] := by
  rw [forestPaths, label_node, if_pos ends, forestPaths, List.append_nil]

theorem forestPaths_cons_step (step : isLeaf tree.label = false) :
    forestPaths isLeaf (tree :: forest) =
      (leafPaths isLeaf tree).map (Prod.map (tree.label :: ·) id) ++ forestPaths isLeaf forest := by
  rw [forestPaths, if_neg (Bool.eq_false_iff.mp step)]

end Paths

/-! ## Tries -/

/-- Steps are told apart by their keys, from each other and from the leaves. -/
structure Alphabet (key : α → κ) (isLeaf : α → Bool) (isStep : α → Prop) : Prop where
  injective : ∀ first second, isStep first → isStep second → key first = key second →
    first = second
  apart : ∀ step leaf, isStep step → isLeaf leaf → key step ≠ key leaf

variable {key : α → κ} {isLeaf : α → Bool} {isStep : α → Prop}

theorem Alphabet.not_isLeaf (alphabet : Alphabet key isLeaf isStep) {step : α}
    (isStep : isStep step) : isLeaf step = false := by
  rw [Bool.eq_false_iff]
  intro ends
  exact alphabet.apart step step isStep ends rfl

/-- Below each node are leaves that end there, and steps with keys of their own. -/
inductive IsTrie (key : α → κ) (isLeaf : α → Bool) (isStep : α → Prop) : RoseTree α → Prop
  | node {label : α} {children : List (RoseTree α)}
      (kinds : ∀ child ∈ children, isLeaf child.label ∨ isStep child.label)
      (leaves : ∀ child ∈ children, isLeaf child.label → child.children = [])
      (distinct : (((children.map RoseTree.label).filter fun label => ! isLeaf label).map key).Nodup)
      (below : ∀ child ∈ children, IsTrie key isLeaf isStep child) :
      IsTrie key isLeaf isStep (.node label children)

theorem isTrie_leaf (label : α) : IsTrie key isLeaf isStep (node label []) :=
  .node (List.forall_mem_nil _) (List.forall_mem_nil _) List.nodup_nil (List.forall_mem_nil _)

/-- The child that a path goes on to is the step itself. -/
theorem Alphabet.label_eq (alphabet : Alphabet key isLeaf isStep) {label next : α}
    (nextStep : isStep next) (kind : isLeaf label ∨ isStep label) (found : key label = key next) :
    label = next := by
  obtain ends | labelStep := kind
  · exact absurd found.symm (alphabet.apart next label nextStep ends)
  · exact alphabet.injective label next labelStep nextStep found

/-! ## Insertion -/

section Insertion

variable [DecidableEq κ] (alphabet : Alphabet key isLeaf isStep) {leaf next : α} {labels : List α}
  {tree : RoseTree α} {forest : List (RoseTree α)} {change : RoseTree α → RoseTree α}

section OneNode

variable (nextStep : isStep next) (keeps : ∀ tree, (change tree).label = tree.label)
  (kinds : ∀ child ∈ forest, isLeaf child.label ∨ isStep child.label)

include alphabet nextStep keeps kinds

/-- Where the subtree of `next` gets one more path, so does the forest. -/
theorem forestPaths_changeFirst
    (grows : ∀ tree, IsTrie key isLeaf isStep tree →
      (leafPaths isLeaf (change tree)).Perm ((labels, leaf) :: leafPaths isLeaf tree))
    (tries : ∀ tree ∈ forest, IsTrie key isLeaf isStep tree) :
    (forestPaths isLeaf
        (changeFirst (fun child => key child.label = key next) change (node next []) forest)).Perm
      ((next :: labels, leaf) :: forestPaths isLeaf forest) := by
  have notLeaf := alphabet.not_isLeaf nextStep
  induction forest with
  | nil =>
    have changed := (grows (node next []) (isTrie_leaf next)).map (Prod.map (next :: ·) id)
    rw [changeFirst, forestPaths_cons_step (by rw [keeps, label_node, notLeaf]), keeps, label_node]
    exact changed.append_right _
  | cons first forest inductionHypothesis =>
    obtain ⟨firstKind, restKinds⟩ := List.forall_mem_cons.mp kinds
    obtain ⟨firstTrie, restTries⟩ := List.forall_mem_cons.mp tries
    by_cases found : key first.label = key next
    · have isNext := alphabet.label_eq nextStep firstKind found
      have changed := (grows first firstTrie).map (Prod.map (next :: ·) id)
      rw [changeFirst, if_pos (decide_eq_true found),
        forestPaths_cons_step (by rw [keeps, isNext, notLeaf]),
        forestPaths_cons_step (by rw [isNext, notLeaf]), keeps, isNext]
      exact changed.append_right _
    · have rest := inductionHypothesis restKinds restTries
      rw [changeFirst, if_neg (by rwa [decide_eq_true_eq]), forestPaths, forestPaths]
      exact (rest.append_left _).trans List.perm_middle

/-- A change below the child that a path goes on to leaves a trie. -/
theorem isTrie_changeFirst {label : α}
    (leaves : ∀ child ∈ forest, isLeaf child.label → child.children = [])
    (distinct : (((forest.map RoseTree.label).filter fun label => ! isLeaf label).map key).Nodup)
    (below : ∀ child ∈ forest, IsTrie key isLeaf isStep child)
    (keepsTrie : ∀ tree, IsTrie key isLeaf isStep tree → IsTrie key isLeaf isStep (change tree)) :
    IsTrie key isLeaf isStep (node label
      (changeFirst (fun child => key child.label = key next) change (node next []) forest)) := by
  have notLeaf := alphabet.not_isLeaf nextStep
  -- the changed child has the label of the step
  have changedLabel : ∀ old, old = node next [] ∨ old ∈ forest ∧ decide (key old.label = key next) →
      (change old).label = next := by
    rintro old (rfl | ⟨isChild, found⟩)
    · exact keeps _
    · rw [keeps]
      exact alphabet.label_eq nextStep (kinds old isChild) (of_decide_eq_true found)
  constructor
  · intro child member
    obtain isChild | ⟨old, rfl, isOld⟩ := mem_changeFirst member
    · exact kinds child isChild
    · rw [changedLabel old isOld]
      exact Or.inr nextStep
  · intro child member ends
    obtain isChild | ⟨old, rfl, isOld⟩ := mem_changeFirst member
    · exact leaves child isChild ends
    · rw [changedLabel old isOld, notLeaf] at ends
      cases ends
  · rw [map_label_changeFirst keeps]
    split
    next => exact distinct
    next newKey =>
      have onlyNext : ([next].filter fun label => ! isLeaf label) = [next] := by
        simp [notLeaf]
      rw [List.filter_append, onlyNext, List.map_append, List.nodup_append]
      refine ⟨distinct, List.pairwise_singleton _ _, ?_⟩
      rintro old isOld _ isNew rfl
      rw [List.mem_singleton.mp isNew] at isOld
      exact newKey (List.filter_sublist.map key |>.subset isOld)
  · intro child member
    obtain isChild | ⟨old, rfl, isOld⟩ := mem_changeFirst member
    · exact below child isChild
    · obtain rfl | ⟨isChild, _⟩ := isOld
      · exact keepsTrie _ (isTrie_leaf next)
      · exact keepsTrie old (below old isChild)

end OneNode

variable (ends : isLeaf leaf) (steps : ∀ label ∈ labels, isStep label)

include alphabet ends steps

/-- An insertion adds the path along its labels. -/
theorem leafPaths_insert (trie : IsTrie key isLeaf isStep tree) :
    (leafPaths isLeaf (insert key leaf labels tree)).Perm
      ((labels, leaf) :: leafPaths isLeaf tree) := by
  induction labels generalizing tree with
  | nil =>
    rw [insert, leafPaths, forestPaths_append, forestPaths_singleton_leaf ends, leafPaths_eq]
    exact List.perm_append_singleton _ _
  | cons next labels inductionHypothesis =>
    obtain ⟨nextStep, restSteps⟩ := List.forall_mem_cons.mp steps
    cases trie with
    | node kinds leaves distinct below =>
      exact forestPaths_changeFirst alphabet nextStep (fun _ => label_insert) kinds
        (fun tree trie => inductionHypothesis restSteps trie) below

theorem isTrie_insert (trie : IsTrie key isLeaf isStep tree) :
    IsTrie key isLeaf isStep (insert key leaf labels tree) := by
  induction labels generalizing tree with
  | nil =>
    cases trie with
    | @node label children kinds leaves distinct below =>
      have noStep : ([leaf].filter fun label => ! isLeaf label) = [] := by
        simp [ends]
      constructor
      · exact List.forall_mem_append.mpr ⟨kinds, List.forall_mem_singleton.mpr (Or.inl ends)⟩
      · exact List.forall_mem_append.mpr
          ⟨leaves, List.forall_mem_singleton.mpr fun _ => rfl⟩
      · rw [List.map_append, List.filter_append, List.map_singleton, label_node, noStep,
          List.append_nil]
        exact distinct
      · exact List.forall_mem_append.mpr
          ⟨below, List.forall_mem_singleton.mpr (isTrie_leaf leaf)⟩
  | cons next labels inductionHypothesis =>
    obtain ⟨nextStep, restSteps⟩ := List.forall_mem_cons.mp steps
    cases trie with
    | node kinds leaves distinct below =>
      exact isTrie_changeFirst alphabet nextStep (fun _ => label_insert) kinds leaves distinct below
        fun tree trie => inductionHypothesis restSteps trie

end Insertion

/-- Many insertions along lists of steps make a trie with exactly their paths. -/
theorem isTrie_foldl_insert {β : Type*} [DecidableEq κ] (alphabet : Alphabet key isLeaf isStep)
    {labelsOf : β → List α} {leafOf : β → α} {items : List β}
    (ends : ∀ item ∈ items, isLeaf (leafOf item))
    (steps : ∀ item ∈ items, ∀ label ∈ labelsOf item, isStep label) {tree : RoseTree α}
    (trie : IsTrie key isLeaf isStep tree) :
    IsTrie key isLeaf isStep
        (items.foldl (fun tree item => insert key (leafOf item) (labelsOf item) tree) tree) ∧
      (leafPaths isLeaf
        (items.foldl (fun tree item => insert key (leafOf item) (labelsOf item) tree) tree)).Perm
        (items.map (fun item => (labelsOf item, leafOf item)) ++ leafPaths isLeaf tree) := by
  induction items generalizing tree with
  | nil => exact ⟨trie, List.Perm.refl _⟩
  | cons item items inductionHypothesis =>
    obtain ⟨itemEnds, restEnds⟩ := List.forall_mem_cons.mp ends
    obtain ⟨itemSteps, restSteps⟩ := List.forall_mem_cons.mp steps
    have inserted := isTrie_insert alphabet itemEnds itemSteps trie
    obtain ⟨isTrie, paths⟩ := inductionHypothesis restEnds restSteps inserted
    refine ⟨isTrie, ?_⟩
    have added := leafPaths_insert alphabet itemEnds itemSteps trie
    exact (paths.trans (added.append_left _)).trans List.perm_middle

end Klevret.Base.RoseTree
