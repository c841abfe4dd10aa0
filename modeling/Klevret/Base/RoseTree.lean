import Mathlib.Data.List.Basic
import Mathlib.Tactic.Common

/-! # Rose trees that grow along paths

`insert` walks down a tree along a list of labels, each time into the first child
with the same key, makes the children that are missing, and leaves a leaf at the
end.  What a node has below it after an insertion is what it had before, and at
most one more child (`labelsAt_insert`, `labelsAt_foldl_insert`). -/

namespace Klevret.Base

inductive RoseTree (α : Type*) where
  | node (label : α) (children : List (RoseTree α))

namespace RoseTree

variable {α κ : Type*}

def label : RoseTree α → α
  | node label _ => label

def children : RoseTree α → List (RoseTree α)
  | node _ children => children

@[simp] theorem label_node (label : α) (children : List (RoseTree α)) :
    (node label children).label = label := rfl

@[simp] theorem children_node (label : α) (children : List (RoseTree α)) :
    (node label children).children = children := rfl

/-- The first element that is `found` is changed; without one, the changed `missing` comes last. -/
def changeFirst {β : Type*} (found : β → Bool) (change : β → β) (missing : β) : List β → List β
  | [] => [change missing]
  | first :: rest =>
    if found first then change first :: rest
    else first :: changeFirst found change missing rest

theorem mem_changeFirst {β : Type*} {found : β → Bool} {change : β → β} {missing item : β}
    {items : List β} (member : item ∈ changeFirst found change missing items) :
    item ∈ items ∨ ∃ old, item = change old ∧ (old = missing ∨ old ∈ items ∧ found old) := by
  induction items with
  | nil => exact Or.inr ⟨missing, List.mem_singleton.mp member, Or.inl rfl⟩
  | cons first rest inductionHypothesis =>
    rw [changeFirst] at member
    split at member
    next isFound =>
      obtain rfl | later := List.mem_cons.mp member
      · exact Or.inr ⟨first, rfl, Or.inr ⟨List.mem_cons_self, isFound⟩⟩
      · exact Or.inl (List.mem_cons_of_mem _ later)
    next =>
      obtain rfl | later := List.mem_cons.mp member
      · exact Or.inl List.mem_cons_self
      · obtain old | ⟨old, isChanged, isMissing | ⟨isItem, isFound⟩⟩ := inductionHypothesis later
        · exact Or.inl (List.mem_cons_of_mem _ old)
        · exact Or.inr ⟨old, isChanged, Or.inl isMissing⟩
        · exact Or.inr ⟨old, isChanged, Or.inr ⟨List.mem_cons_of_mem _ isItem, isFound⟩⟩

variable [DecidableEq κ] (key : α → κ)

/-- The tree with `leaf` added below the node at the end of the path `labels`. -/
def insert (leaf : α) : (labels : List α) → RoseTree α → RoseTree α
  | [], tree => node tree.label (tree.children ++ [node leaf []])
  | next :: labels, tree =>
    node tree.label (changeFirst (fun child => key child.label = key next) (insert leaf labels)
      (node next []) tree.children)

/-- The child that a path goes on to. -/
def child (next : κ) (tree : RoseTree α) : Option (RoseTree α) :=
  tree.children.find? fun child => key child.label = next

/-- The node at the end of a path. -/
def nodeAt : (path : List κ) → RoseTree α → Option (RoseTree α)
  | [], tree => some tree
  | next :: path, tree => (child key next tree).bind (nodeAt path)

/-- The labels of the children of the node at the end of a path. -/
def labelsAt (path : List κ) (tree : RoseTree α) : List α :=
  match nodeAt key path tree with
  | none => []
  | some last => last.children.map label

/-! ## One insertion -/

/-- What an insertion along `labels` makes of the children at the end of `path`. -/
def grow (leaf : α) : (labels : List α) → (path : List κ) → (below : List α) → List α
  | [], [], below => below ++ [leaf]
  | [], _ :: _, below => below
  | next :: _, [], below =>
    if key next ∈ below.map key then below else below ++ [next]
  | next :: labels, step :: path, below =>
    if key next = step then grow leaf labels path below else below

section Insert

variable {key} {leaf : α} {labels : List α} {tree : RoseTree α} {next : α} {step : κ}
  {path : List κ}

@[simp] theorem label_insert : (insert key leaf labels tree).label = tree.label := by
  cases labels with
  | nil => rfl
  | cons next labels => rfl

theorem labelsAt_nil : labelsAt key [] tree = tree.children.map label := rfl

theorem labelsAt_cons :
    labelsAt key (step :: path) tree = ((child key step tree).map (labelsAt key path)).getD [] := by
  unfold labelsAt
  rw [nodeAt]
  cases child key step tree with
  | none => rfl
  | some last => rfl

/-- There is nothing below a leaf. -/
theorem labelsAt_leaf : labelsAt key path (node next []) = [] := by
  cases path with
  | nil => rfl
  | cons step path => rfl

/-- A change that keeps the labels only adds the label that was missing. -/
theorem map_label_changeFirst {change : RoseTree α → RoseTree α}
    (keeps : ∀ tree, (change tree).label = tree.label) (forest : List (RoseTree α)) :
    (changeFirst (fun child => key child.label = key next) change (node next []) forest).map label =
      if key next ∈ (forest.map label).map key then forest.map label
      else forest.map label ++ [next] := by
  induction forest with
  | nil => simp [changeFirst, keeps]
  | cons first forest inductionHypothesis =>
    by_cases found : key first.label = key next
    · simp [changeFirst, found, keeps]
    · have different : ¬ key next = key first.label := fun same => found same.symm
      simp only [changeFirst, found, decide_false, Bool.false_eq_true, if_false, List.map_cons,
        inductionHypothesis, List.mem_cons, different, false_or]
      split <;> rfl

/-- The changed child is found in the place of the old one, or of the missing one. -/
theorem find_changeFirst_same {change : RoseTree α → RoseTree α}
    (keeps : ∀ tree, (change tree).label = tree.label) (forest : List (RoseTree α)) :
    (changeFirst (fun child => key child.label = key next) change (node next []) forest).find?
        (fun child => key child.label = key next) =
      some (change ((forest.find? fun child => key child.label = key next).getD (node next []))) := by
  induction forest with
  | nil => simp [changeFirst, keeps]
  | cons first forest inductionHypothesis =>
    by_cases found : key first.label = key next
    · simp [changeFirst, found, keeps]
    · simp [changeFirst, found, inductionHypothesis]

/-- Children with other keys stay where they are. -/
theorem find_changeFirst_other {change : RoseTree α → RoseTree α}
    (keeps : ∀ tree, (change tree).label = tree.label) (other : key next ≠ step)
    (forest : List (RoseTree α)) :
    (changeFirst (fun child => key child.label = key next) change (node next []) forest).find?
        (fun child => key child.label = step) =
      forest.find? fun child => key child.label = step := by
  induction forest with
  | nil => simp [changeFirst, keeps, other]
  | cons first forest inductionHypothesis =>
    by_cases found : key first.label = key next
    · simp [changeFirst, found, keeps, other]
    · simp [changeFirst, found, List.find?_cons, inductionHypothesis]

theorem labelsAt_insert (leaf : α) (labels : List α) (path : List κ) (tree : RoseTree α) :
    labelsAt key path (insert key leaf labels tree) =
      grow key leaf labels path (labelsAt key path tree) := by
  induction labels generalizing path tree with
  | nil =>
    cases path with
    | nil => simp [labelsAt_nil, insert, grow]
    | cons step path =>
      rw [labelsAt_cons, labelsAt_cons, grow, insert, child, child, children_node,
        List.find?_append]
      cases tree.children.find? fun child => key child.label = step with
      | some last => rfl
      | none =>
        -- the new leaf may have the key, but has nothing below it
        by_cases isLeaf : key leaf = step
        · simp [isLeaf, labelsAt_leaf]
        · simp [isLeaf]
  | cons next labels inductionHypothesis =>
    cases path with
    | nil => exact map_label_changeFirst (fun _ => label_insert) tree.children
    | cons step path =>
      rw [labelsAt_cons, labelsAt_cons, grow, insert, child, child, children_node]
      by_cases along : key next = step
      · rw [if_pos along, ← along, find_changeFirst_same fun _ => label_insert, Option.map_some,
          Option.getD_some, inductionHypothesis]
        cases tree.children.find? fun child => key child.label = key next with
        | some last => rfl
        | none => simp [labelsAt_leaf]
      · rw [if_neg along, find_changeFirst_other (fun _ => label_insert) along]

/-! ## What grows where -/

theorem grow_of_not_prefix (below : List α) (notPrefix : ¬ path <+: labels.map key) :
    grow key leaf labels path below = below := by
  induction labels generalizing path with
  | nil =>
    cases path with
    | nil => exact absurd List.nil_prefix notPrefix
    | cons step path => rfl
  | cons next labels inductionHypothesis =>
    cases path with
    | nil => exact absurd List.nil_prefix notPrefix
    | cons step path =>
      rw [grow]
      split
      next along =>
        apply inductionHypothesis
        intro isPrefix
        exact notPrefix (List.cons_prefix_cons.mpr ⟨along.symm, isPrefix⟩)
      next => rfl

theorem grow_of_eq (below : List α) (same : labels.map key = path) :
    grow key leaf labels path below = below ++ [leaf] := by
  subst same
  induction labels with
  | nil => rfl
  | cons next labels inductionHypothesis =>
    rw [List.map_cons, grow, if_pos rfl, inductionHypothesis]

theorem grow_of_longer {rest : List κ} (below : List α) (longer : labels.map key = path ++ step :: rest) :
    ∃ next ∈ labels, key next = step ∧ grow key leaf labels path below =
      if step ∈ below.map key then below else below ++ [next] := by
  induction path generalizing labels with
  | nil =>
    cases labels with
    | nil => cases longer
    | cons next labels =>
      obtain ⟨isStep, _⟩ := List.cons_eq_cons.mp longer
      exact ⟨next, List.mem_cons_self, isStep, by rw [grow, isStep]⟩
  | cons first path inductionHypothesis =>
    cases labels with
    | nil => cases longer
    | cons next labels =>
      obtain ⟨isFirst, restLonger⟩ := List.cons_eq_cons.mp longer
      obtain ⟨found, member, isStep, grown⟩ := inductionHypothesis restLonger
      exact ⟨found, List.mem_cons_of_mem _ member, isStep, by rw [grow, if_pos isFirst, grown]⟩

/-- What is below a node stays there. -/
theorem prefix_grow {below : List α} : below <+: grow key leaf labels path below := by
  induction labels generalizing path with
  | nil =>
    cases path with
    | nil => exact List.prefix_append below [leaf]
    | cons step path => exact List.prefix_refl below
  | cons next labels inductionHypothesis =>
    cases path with
    | nil =>
      rw [grow]
      split
      next => exact List.prefix_refl below
      next => exact List.prefix_append below [next]
    | cons step path =>
      rw [grow]
      split
      next => exact inductionHypothesis
      next => exact List.prefix_refl below

theorem mem_grow_of_mem {below : List α} {a : α} (member : a ∈ below) :
    a ∈ grow key leaf labels path below :=
  prefix_grow.subset member

/-- Only the leaf, at its own place, and labels of the path are added. -/
theorem mem_of_mem_grow {below : List α} {a : α} (member : a ∈ grow key leaf labels path below) :
    a ∈ below ∨ (a = leaf ∧ labels.map key = path) ∨ a ∈ labels := by
  induction labels generalizing path with
  | nil =>
    cases path with
    | nil =>
      obtain old | new := List.mem_append.mp member
      · exact Or.inl old
      · exact Or.inr (Or.inl ⟨List.mem_singleton.mp new, rfl⟩)
    | cons step path => exact Or.inl member
  | cons next labels inductionHypothesis =>
    cases path with
    | nil =>
      rw [grow] at member
      split at member
      next => exact Or.inl member
      next =>
        obtain old | new := List.mem_append.mp member
        · exact Or.inl old
        · exact Or.inr (Or.inr (List.mem_singleton.mp new ▸ List.mem_cons_self))
    | cons step path =>
      rw [grow] at member
      split at member
      next along =>
        obtain old | ⟨isLeaf, same⟩ | inLabels := inductionHypothesis member
        · exact Or.inl old
        · exact Or.inr (Or.inl ⟨isLeaf, by rw [List.map_cons, along, same]⟩)
        · exact Or.inr (Or.inr (List.mem_cons_of_mem _ inLabels))
      next => exact Or.inl member

end Insert

/-! ## Many insertions -/

section Insertions

variable {key} {β : Type*} {labelsOf : β → List α} {leafOf : β → α} {items : List β} {item : β}
  {path : List κ} {below : List α}

/-- The children at the end of `path` grow with each insertion. -/
theorem labelsAt_foldl_insert (labelsOf : β → List α) (leafOf : β → α) (items : List β)
    (path : List κ) (tree : RoseTree α) :
    labelsAt key path
        (items.foldl (fun tree item => insert key (leafOf item) (labelsOf item) tree) tree) =
      items.foldl (fun below item => grow key (leafOf item) (labelsOf item) path below)
        (labelsAt key path tree) := by
  induction items generalizing tree with
  | nil => rfl
  | cons item items inductionHypothesis =>
    rw [List.foldl_cons, inductionHypothesis, labelsAt_insert, List.foldl_cons]

theorem foldl_grow_of_not_prefix
    (notPrefix : ∀ item ∈ items, ¬ path <+: (labelsOf item).map key) :
    items.foldl (fun below item => grow key (leafOf item) (labelsOf item) path below) below =
      below := by
  induction items generalizing below with
  | nil => rfl
  | cons item items inductionHypothesis =>
    obtain ⟨headNotPrefix, restNotPrefix⟩ := List.forall_mem_cons.mp notPrefix
    rw [List.foldl_cons, grow_of_not_prefix below headNotPrefix, inductionHypothesis restNotPrefix]

theorem mem_foldl_grow_of_mem {a : α} (member : a ∈ below) :
    a ∈ items.foldl (fun below item => grow key (leafOf item) (labelsOf item) path below) below := by
  induction items generalizing below with
  | nil => exact member
  | cons item items inductionHypothesis => exact inductionHypothesis (mem_grow_of_mem member)

/-- The leaf of an insertion stays at the end of its path. -/
theorem leaf_mem_foldl_grow (isItem : item ∈ items) (same : (labelsOf item).map key = path) :
    leafOf item ∈
      items.foldl (fun below item => grow key (leafOf item) (labelsOf item) path below) below := by
  obtain ⟨before, after, rfl⟩ := List.append_of_mem isItem
  rw [List.foldl_append, List.foldl_cons, grow_of_eq _ same]
  exact mem_foldl_grow_of_mem (List.mem_append_right _ (List.mem_singleton_self _))

/-- Each insertion along `path` adds its leaf. -/
theorem countP_le_length_foldl_grow (labelsOf : β → List α) (leafOf : β → α) (items : List β)
    (path : List κ) (below : List α) :
    below.length + items.countP (fun item => (labelsOf item).map key = path) ≤
      (items.foldl (fun below item => grow key (leafOf item) (labelsOf item) path below)
        below).length := by
  induction items generalizing below with
  | nil => exact Nat.le_refl _
  | cons item items inductionHypothesis =>
    have rest := inductionHypothesis (grow key (leafOf item) (labelsOf item) path below)
    rw [List.foldl_cons, List.countP_cons]
    by_cases same : (labelsOf item).map key = path
    · have added : (grow key (leafOf item) (labelsOf item) path below).length = below.length + 1 := by
        rw [grow_of_eq below same, List.length_append, List.length_singleton]
      simp only [same, decide_true, if_true]
      omega
    · have kept := (prefix_grow : below <+: grow key (leafOf item) (labelsOf item) path below).length_le
      simp only [same, decide_false, Bool.false_eq_true, if_false]
      omega

/-- The path of an insertion goes on at each of its nodes. -/
theorem step_mem_foldl_grow {step : κ} {rest : List κ} (isItem : item ∈ items)
    (longer : (labelsOf item).map key = path ++ step :: rest) :
    step ∈ (items.foldl (fun below item => grow key (leafOf item) (labelsOf item) path below)
      below).map key := by
  obtain ⟨before, after, rfl⟩ := List.append_of_mem isItem
  rw [List.foldl_append, List.foldl_cons]
  generalize before.foldl _ below = reached
  obtain ⟨next, _, isStep, grown⟩ :=
    (grow_of_longer reached longer : ∃ next ∈ _, key next = step ∧
      grow key (leafOf item) (labelsOf item) path reached = _)
  have present : ∃ a ∈ grow key (leafOf item) (labelsOf item) path reached, key a = step := by
    rw [grown]
    split
    next already => exact List.mem_map.mp already
    next => exact ⟨next, List.mem_append_right _ (List.mem_singleton_self _), isStep⟩
  obtain ⟨a, member, isKey⟩ := present
  exact List.mem_map.mpr ⟨a, mem_foldl_grow_of_mem member, isKey⟩

/-- Every child was put there by an insertion, as its leaf or on its path. -/
theorem of_mem_foldl_grow {a : α}
    (member : a ∈ items.foldl
      (fun below item => grow key (leafOf item) (labelsOf item) path below) below) :
    a ∈ below ∨ ∃ item ∈ items,
      (a = leafOf item ∧ (labelsOf item).map key = path) ∨ a ∈ labelsOf item := by
  induction items generalizing below with
  | nil => exact Or.inl member
  | cons item items inductionHypothesis =>
    obtain grown | ⟨later, isItem, put⟩ := inductionHypothesis member
    · obtain old | put := mem_of_mem_grow grown
      · exact Or.inl old
      · exact Or.inr ⟨item, List.mem_cons_self, put⟩
    · exact Or.inr ⟨later, List.mem_cons_of_mem _ isItem, put⟩

end Insertions

end RoseTree

end Klevret.Base
