import Mathlib.Data.List.Forall2
import Klevret.Base.RoseTree

/-! # Descending a rose tree along a list of items

Each item goes down to the first child that accepts it, and is ignored when every
child rejects it (`Descends`).  A descent follows the tree (`Descends.leads`) and
picks, for each label on its way, the first item from there on that the label
accepts (`Descends.picks`).  Items that spell the keys of a path descend along it
(`exists_descends`). -/

namespace Klevret.Base

namespace RoseTree

variable {α κ Item : Type*}

/-- The node `last` is reached from `tree` along the indices `path`, past `labels`. -/
inductive Leads : RoseTree α → (path : List ℕ) → (labels : List α) → RoseTree α → Prop
  | here (tree : RoseTree α) : Leads tree [] [] tree
  | down {tree child last : RoseTree α} {index : ℕ} {path : List ℕ} {labels : List α}
      (isChild : tree.children[index]? = some child) (leads : Leads child path labels last) :
      Leads tree (index :: path) (child.label :: labels) last

theorem Leads.mem_children {tree last : RoseTree α} {path : List ℕ} {labels : List α} {label : α}
    (leads : Leads tree path labels last) (isFirst : label ∈ labels.head?) :
    ∃ child ∈ tree.children, child.label = label := by
  cases leads with
  | here => cases isFirst
  | @down tree child last index path labels isChild leads =>
    cases isFirst
    exact ⟨child, List.mem_of_getElem? isChild, rfl⟩

/-- A path of indices leads to one place. -/
theorem Leads.unique {tree last last' : RoseTree α} {path : List ℕ} {labels labels' : List α}
    (leads : Leads tree path labels last) (leads' : Leads tree path labels' last') :
    labels = labels' ∧ last = last' := by
  induction leads generalizing labels' with
  | here =>
    cases leads'
    exact ⟨rfl, rfl⟩
  | down isChild leads inductionHypothesis =>
    cases leads' with
    | down isChild' leads' =>
      rw [isChild, Option.some.injEq] at isChild'
      subst isChild'
      obtain ⟨sameLabels, sameLast⟩ := inductionHypothesis leads'
      exact ⟨by rw [sameLabels], sameLast⟩

/-- An item, and the index and label of the child that it goes down to, if it does. -/
structure Move (Item α : Type*) where
  item : Item
  entered : Option (ℕ × α)

namespace Move

/-- The indices of the children that are entered. -/
def path (moves : List (Move Item α)) : List ℕ :=
  moves.filterMap fun move => move.entered.map Prod.fst

/-- The labels of the children that are entered. -/
def labels (moves : List (Move Item α)) : List α :=
  moves.filterMap fun move => move.entered.map Prod.snd

/-- The items that go down, each with the label of its child. -/
def matched (moves : List (Move Item α)) : List (Item × α) :=
  moves.filterMap fun move => move.entered.map fun entered => (move.item, entered.2)

theorem map_snd_matched (moves : List (Move Item α)) :
    (matched moves).map Prod.snd = labels moves := by
  rw [matched, labels, List.map_filterMap]
  congr 1
  funext move
  rw [Option.map_map]
  rfl

theorem length_path (moves : List (Move Item α)) : (path moves).length = (matched moves).length := by
  induction moves with
  | nil => rfl
  | cons move moves inductionHypothesis =>
    obtain ⟨item, entered⟩ := move
    cases entered with
    | none => exact inductionHypothesis
    | some entered => exact congrArg Nat.succ inductionHypothesis

end Move

section Descends

variable {accepts rejects : Item → α → Prop}

/-- The moves of a list of items down a tree. -/
inductive Descends (accepts rejects : Item → α → Prop) :
    RoseTree α → List (Move Item α) → RoseTree α → Prop
  | stop (tree : RoseTree α) : Descends accepts rejects tree [] tree
  | ignore {tree last : RoseTree α} {item : Item} {moves : List (Move Item α)}
      (none : ∀ child ∈ tree.children, rejects item child.label)
      (rest : Descends accepts rejects tree moves last) :
      Descends accepts rejects tree (⟨item, .none⟩ :: moves) last
  | enter {tree child last : RoseTree α} {before after : List (RoseTree α)} {item : Item}
      {moves : List (Move Item α)} (split : tree.children = before ++ child :: after)
      (first : ∀ other ∈ before, rejects item other.label) (accepted : accepts item child.label)
      (rest : Descends accepts rejects child moves last) :
      Descends accepts rejects tree (⟨item, some (before.length, child.label)⟩ :: moves) last

/-- `matched` picks items from a list, each as the first that its label accepts. -/
inductive Picks (accepts rejects : Item → α → Prop) :
    (items : List Item) → (matched : List (Item × α)) → Prop
  | done (items : List Item) : Picks accepts rejects items []
  | pick {ignored items : List Item} {item : Item} {label : α} {matched : List (Item × α)}
      (passed : ∀ other ∈ ignored, rejects other label) (accepted : accepts item label)
      (rest : Picks accepts rejects items matched) :
      Picks accepts rejects (ignored ++ item :: items) ((item, label) :: matched)

/-- One more item that the next label rejects. -/
theorem Picks.ignore {items : List Item} {matched : List (Item × α)} {item : Item}
    (picks : Picks accepts rejects items matched)
    (rejected : ∀ found ∈ matched.head?, rejects item found.2) :
    Picks accepts rejects (item :: items) matched := by
  cases picks with
  | done => exact .done _
  | @pick ignored items next label matched passed accepted rest =>
    have alsoPassed : ∀ other ∈ item :: ignored, rejects other label :=
      List.forall_mem_cons.mpr ⟨rejected (next, label) rfl, passed⟩
    exact .pick alsoPassed accepted rest

theorem Picks.cons_inv {items : List Item} {item : Item} {label : α} {matched : List (Item × α)}
    (picks : Picks accepts rejects items ((item, label) :: matched)) :
    ∃ ignored rest, items = ignored ++ item :: rest ∧ (∀ other ∈ ignored, rejects other label) ∧
      accepts item label ∧ Picks accepts rejects rest matched := by
  cases picks with
  | @pick ignored rest _ _ _ passed accepted restPicks =>
    exact ⟨ignored, rest, rfl, passed, accepted, restPicks⟩

namespace Descends

variable {tree last : RoseTree α} {moves : List (Move Item α)}

theorem leads (descends : Descends accepts rejects tree moves last) :
    Leads tree (Move.path moves) (Move.labels moves) last := by
  induction descends with
  | stop tree => exact .here tree
  | ignore none rest inductionHypothesis => exact inductionHypothesis
  | enter split first accepted rest inductionHypothesis =>
    exact .down (by simp [split]) inductionHypothesis

/-- The items that are ignored at a node are rejected by the child that is entered there. -/
theorem picks (descends : Descends accepts rejects tree moves last) :
    Picks accepts rejects (moves.map Move.item) (Move.matched moves) := by
  induction descends with
  | stop tree => exact .done _
  | @ignore tree last item moves none rest inductionHypothesis =>
    apply inductionHypothesis.ignore
    intro found isFirst
    have isLabel : found.2 ∈ (Move.labels moves).head? := by
      rw [← Move.map_snd_matched, List.head?_map]
      exact Option.mem_map_of_mem Prod.snd isFirst
    obtain ⟨child, isChild, same⟩ := rest.leads.mem_children isLabel
    rw [← same]
    exact none child isChild
  | enter split first accepted rest inductionHypothesis =>
    exact .pick (List.forall_mem_nil _) accepted inductionHypothesis

/-- Everything that goes down is accepted. -/
theorem accepted (descends : Descends accepts rejects tree moves last) :
    List.Forall₂ accepts ((Move.matched moves).map Prod.fst) (Move.labels moves) := by
  induction descends with
  | stop tree => exact .nil
  | ignore none rest inductionHypothesis => exact inductionHypothesis
  | enter split first accepted rest inductionHypothesis => exact .cons accepted inductionHypothesis

/-- A descent ends where the keys on its way lead to. -/
theorem nodeAt_eq [DecidableEq κ] {key : α → κ}
    (sameKey : ∀ item label other, key label = key other → accepts item label → ¬ rejects item other)
    (descends : Descends accepts rejects tree moves last) :
    nodeAt key ((Move.labels moves).map key) tree = some last := by
  induction descends with
  | stop tree => rfl
  | ignore none rest inductionHypothesis => exact inductionHypothesis
  | @enter tree child last before after item moves split first accepted rest inductionHypothesis =>
    have isChild : RoseTree.child key (key child.label) tree = some child := by
      rw [RoseTree.child, split, List.find?_append, List.find?_cons_of_pos (by simp),
        List.find?_eq_none.mpr, Option.none_or]
      intro other isOther
      rw [decide_eq_true_eq]
      intro same
      exact sameKey item child.label other.label same.symm accepted (first other isOther)
    change (RoseTree.child key (key child.label) tree).bind _ = _
    rw [isChild]
    exact inductionHypothesis

end Descends

/-- Where a label accepts the items with its key and rejects all others, the keys of
    the items can be followed. -/
theorem exists_descends [DecidableEq κ] {key : α → κ} {keyOf : Item → κ} {tree last : RoseTree α}
    {items : List Item}
    (decides : ∀ path, ∀ label ∈ labelsAt key path tree, ∀ item,
      (key label = keyOf item → accepts item label) ∧ (key label ≠ keyOf item → rejects item label))
    (isLast : nodeAt key (items.map keyOf) tree = some last) :
    ∃ moves, moves.map Move.item = items ∧ (Move.labels moves).map key = items.map keyOf ∧
      Descends accepts rejects tree moves last := by
  induction items generalizing tree with
  | nil =>
    cases isLast
    exact ⟨[], rfl, rfl, .stop _⟩
  | cons item items inductionHypothesis =>
    obtain ⟨child, isChild, restLast⟩ := Option.bind_eq_some_iff.mp isLast
    have below : ∀ path, labelsAt key path child = labelsAt key (keyOf item :: path) tree := by
      intro path
      rw [labelsAt_cons, isChild]
      rfl
    obtain ⟨moves, isItems, isKeys, descends⟩ := inductionHypothesis
      (fun path label member => decides (keyOf item :: path) label (below path ▸ member)) restLast
    obtain ⟨found, before, after, split, passed⟩ := List.find?_eq_some_iff_append.mp isChild
    have sameKey : key child.label = keyOf item := of_decide_eq_true found
    have atTree : ∀ other ∈ before ++ child :: after, other.label ∈ labelsAt key [] tree := by
      intro other member
      rw [labelsAt_nil, split]
      exact List.mem_map_of_mem member
    refine ⟨⟨item, some (before.length, child.label)⟩ :: moves, by rw [List.map_cons, isItems], ?_,
      .enter split ?_ ?_ descends⟩
    · rw [List.map_cons, ← isKeys, ← sameKey]
      rfl
    · intro other isBefore
      apply (decides [] other.label (atTree other (List.mem_append_left _ isBefore)) item).2
      simpa using passed other isBefore
    · exact (decides [] child.label (atTree child (by simp)) item).1 sameKey

end Descends

end RoseTree

end Klevret.Base
