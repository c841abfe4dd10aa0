import Mathlib.Data.List.Nodup
import Klevret.Base.Trie

/-! # Outlines of tries

An outline lists the labels of a tree from the top to the bottom, each with its depth.  When
nothing is below the labels that are left out, the paths of a trie can be read back from its
outline (`readPaths_outline`): a line belongs below the nearest line above it with a smaller depth.
In the outline of inserted lists every nonempty prefix of a list is the path of exactly one line,
and every leaf that is shown has a line (`count_shownPaths_insertions`). -/

namespace Klevret.Base.RoseTree

variable {α κ β : Type*}

section

variable (key : α → κ) (shown : α → Bool)

mutual

/-- The labels below the root, each with its depth. -/
def outline (depth : ℕ) : RoseTree α → List (ℕ × α)
  | node _ children => outlineForest depth children

def outlineForest (depth : ℕ) : List (RoseTree α) → List (ℕ × α)
  | [] => []
  | tree :: forest =>
    (if shown tree.label then [(depth, tree.label)] else []) ++ outline (depth + 1) tree ++
      outlineForest depth forest

end

mutual

/-- The paths to the labels that are shown. -/
def shownPaths : RoseTree α → List (List κ)
  | node _ children => shownForest children

def shownForest : List (RoseTree α) → List (List κ)
  | [] => []
  | tree :: forest =>
    (if shown tree.label then [[key tree.label]] else []) ++
      (shownPaths tree).map (key tree.label :: ·) ++ shownForest forest

end

/-- The paths of the lines, when `current` is the path of the line above. -/
def readPaths (current : List κ) : List (ℕ × κ) → List (List κ)
  | [] => []
  | (depth, step) :: lines =>
    (current.take depth ++ [step]) :: readPaths (current.take depth ++ [step]) lines

end

variable {key : α → κ} {shown isLeaf : α → Bool} {isStep : α → Prop} {tree : RoseTree α}
  {forest : List (RoseTree α)}

theorem outline_eq (depth : ℕ) : outline shown depth tree = outlineForest shown depth tree.children := by
  cases tree with
  | node label children => rw [outline, children_node]

theorem shownPaths_eq : shownPaths key shown tree = shownForest key shown tree.children := by
  cases tree with
  | node label children => rw [shownPaths, children_node]

/-- The labels of an outline are leaves and steps. -/
theorem kind_of_mem_outline (trie : IsTrie key isLeaf isStep tree) {depth depth' : ℕ} {label : α}
    (member : (depth', label) ∈ outline shown depth tree) : isLeaf label ∨ isStep label := by
  induction trie generalizing depth with
  | @node root children kinds leaves distinct below inductionHypothesis =>
    rw [outline] at member
    clear leaves distinct below
    induction children with
    | nil => cases member
    | cons child children restHypothesis =>
      obtain ⟨childKind, restKinds⟩ := List.forall_mem_cons.mp kinds
      obtain ⟨childBelow, restBelow⟩ := List.forall_mem_cons.mp inductionHypothesis
      rw [outlineForest, List.append_assoc, List.mem_append, List.mem_append] at member
      obtain here | isBelow | later := member
      · split at here
        next =>
          cases List.mem_singleton.mp here
          exact childKind
        next => cases here
      · exact childBelow isBelow
      · exact restHypothesis restKinds restBelow later

/-! ## Reading an outline -/

/-- What is read of a part of an outline at some depth, and the path of the line above the rest. -/
def ReadsAs (depth : ℕ) (lines : List (ℕ × κ)) (paths : List (List κ)) : Prop :=
  ∀ current rest, depth ≤ current.length → ∃ last : List κ, depth ≤ last.length ∧
    last.take depth = current.take depth ∧
    readPaths current (lines ++ rest) =
      paths.map (current.take depth ++ ·) ++ readPaths last rest

theorem readsAs_nil (depth : ℕ) : ReadsAs depth ([] : List (ℕ × κ)) [] :=
  fun current _ deep => ⟨current, deep, rfl, rfl⟩

theorem ReadsAs.append {depth : ℕ} {lines lines' : List (ℕ × κ)} {paths paths' : List (List κ)}
    (first : ReadsAs depth lines paths) (second : ReadsAs depth lines' paths') :
    ReadsAs depth (lines ++ lines') (paths ++ paths') := by
  intro current rest deep
  obtain ⟨middle, middleDeep, sameMiddle, readFirst⟩ := first current (lines' ++ rest) deep
  obtain ⟨last, lastDeep, sameLast, readSecond⟩ := second middle rest middleDeep
  refine ⟨last, lastDeep, sameLast.trans sameMiddle, ?_⟩
  rw [List.append_assoc, readFirst, readSecond, sameMiddle, List.map_append, List.append_assoc]

/-- A line with what is below it. -/
theorem ReadsAs.cons {depth : ℕ} {lines : List (ℕ × κ)} {paths : List (List κ)} (step : κ)
    (below : ReadsAs (depth + 1) lines paths) :
    ReadsAs depth ((depth, step) :: lines) ([step] :: paths.map (step :: ·)) := by
  intro current rest deep
  have length : (current.take depth ++ [step]).length = depth + 1 := by
    rw [List.length_append, List.length_take, List.length_singleton]
    omega
  obtain ⟨last, lastDeep, sameLast, readBelow⟩ :=
    below (current.take depth ++ [step]) rest (Nat.le_of_eq length.symm)
  rw [List.take_of_length_le (Nat.le_of_eq length)] at sameLast readBelow
  refine ⟨last, by omega, ?_, ?_⟩
  · -- what is below goes on from the line, so it agrees with `current` up to `depth`
    have shorter := congrArg (List.take depth) sameLast
    rw [List.take_take, Nat.min_eq_left (by omega)] at shorter
    rw [shorter, List.take_append_of_le_length (by rw [List.length_take]; omega), List.take_take,
      Nat.min_self]
  · rw [List.cons_append, readPaths, readBelow, List.map_cons, List.cons_append, List.map_map]
    refine congrArg (_ :: · ++ _) (List.map_congr_left ?_)
    intro path _
    simp

theorem readsAs_outline (trie : IsTrie key isLeaf isStep tree)
    (shows : ∀ label, isStep label → shown label) (depth : ℕ) :
    ReadsAs depth ((outline shown depth tree).map (Prod.map id key)) (shownPaths key shown tree) := by
  induction trie generalizing depth with
  | @node label children kinds leaves distinct below inductionHypothesis =>
    rw [outline, shownPaths]
    clear distinct below
    induction children with
    | nil => exact readsAs_nil depth
    | cons child children restHypothesis =>
      obtain ⟨childKind, restKinds⟩ := List.forall_mem_cons.mp kinds
      obtain ⟨childLeaf, restLeaves⟩ := List.forall_mem_cons.mp leaves
      obtain ⟨childReads, restReads⟩ := List.forall_mem_cons.mp inductionHypothesis
      rw [outlineForest, shownForest, List.map_append, List.map_append]
      refine ReadsAs.append ?_ (restHypothesis restKinds restLeaves restReads)
      by_cases isShown : shown child.label
      · rw [if_pos isShown, if_pos isShown]
        exact (childReads (depth + 1)).cons (key child.label)
      · -- nothing is below a label that is left out
        have bare := childLeaf (childKind.resolve_right fun step => isShown (shows child.label step))
        rw [if_neg isShown, if_neg isShown, outline_eq, shownPaths_eq, bare]
        exact readsAs_nil depth

/-- The paths are read back from the outline. -/
theorem readPaths_outline (trie : IsTrie key isLeaf isStep tree)
    (shows : ∀ label, isStep label → shown label) :
    readPaths [] ((outline shown 0 tree).map (Prod.map id key)) = shownPaths key shown tree := by
  obtain ⟨last, _, _, reads⟩ := readsAs_outline trie shows 0 [] [] (Nat.zero_le _)
  simpa [readPaths] using reads

/-! ## Which paths there are -/

theorem mem_shownForest_cons {path : List κ} :
    path ∈ shownForest key shown (tree :: forest) ↔
      (shown tree.label ∧ path = [key tree.label]) ∨
        (∃ rest ∈ shownPaths key shown tree, key tree.label :: rest = path) ∨
          path ∈ shownForest key shown forest := by
  rw [shownForest, List.mem_append, List.mem_append, List.mem_map, or_assoc]
  by_cases isShown : shown tree.label
  · simp [isShown]
  · simp [isShown]

theorem shownForest_append (left right : List (RoseTree α)) :
    shownForest key shown (left ++ right) =
      shownForest key shown left ++ shownForest key shown right := by
  induction left with
  | nil => rfl
  | cons tree left inductionHypothesis =>
    simp only [List.cons_append, shownForest, inductionHypothesis, List.append_assoc]

section

variable (key isLeaf)

/-- The paths to the steps. -/
abbrev stepPaths (tree : RoseTree α) : List (List κ) := shownPaths key (fun label => ! isLeaf label) tree

/-- The paths to the leaves that are shown. -/
def shownLeaves (shown : α → Bool) (paths : List (List α × α)) : List (List κ) :=
  (paths.filter fun path => shown path.2).map fun path => path.1.map key ++ [key path.2]

end

theorem shownLeaves_append (left right : List (List α × α)) :
    shownLeaves key shown (left ++ right) =
      shownLeaves key shown left ++ shownLeaves key shown right := by
  simp [shownLeaves]

theorem shownLeaves_perm {left right : List (List α × α)} (perm : left.Perm right) :
    (shownLeaves key shown left).Perm (shownLeaves key shown right) :=
  (perm.filter _).map _

/-- What is shown are the steps and some of the leaves. -/
theorem shownPaths_perm (trie : IsTrie key isLeaf isStep tree)
    (shows : ∀ label, isStep label → shown label) :
    (shownPaths key shown tree).Perm
      (stepPaths key isLeaf tree ++ shownLeaves key shown (leafPaths isLeaf tree)) := by
  induction trie with
  | @node label children kinds leaves distinct below inductionHypothesis =>
    rw [stepPaths, shownPaths, shownPaths, leafPaths]
    clear distinct below
    induction children with
    | nil => exact List.Perm.refl _
    | cons child children restHypothesis =>
      obtain ⟨childKind, restKinds⟩ := List.forall_mem_cons.mp kinds
      obtain ⟨childLeaf, restLeaves⟩ := List.forall_mem_cons.mp leaves
      obtain ⟨childPerm, restPerm⟩ := List.forall_mem_cons.mp inductionHypothesis
      have rest := restHypothesis restKinds restLeaves restPerm
      rw [shownForest, shownForest, forestPaths, shownLeaves_append]
      by_cases ends : isLeaf child.label
      · -- a leaf is shown or not, and has nothing below it
        have bare := childLeaf ends
        have shownLeaf : shownLeaves key shown [([], child.label)] =
            if shown child.label then [[key child.label]] else [] := by
          by_cases isShown : shown child.label
          · simp [shownLeaves, isShown]
          · simp [shownLeaves, isShown]
        rw [shownPaths_eq, shownPaths_eq, bare, if_pos ends, shownLeaf]
        simp only [ends, Bool.not_true, Bool.false_eq_true, if_false, shownForest, List.map_nil,
          List.append_nil, List.nil_append]
        exact (rest.append_left _).trans (List.perm_append_comm_assoc _ _ _)
      · have isShown := shows child.label (childKind.resolve_left ends)
        have shownBelow : shownLeaves key shown
            ((leafPaths isLeaf child).map (Prod.map (child.label :: ·) id)) =
              (shownLeaves key shown (leafPaths isLeaf child)).map (key child.label :: ·) := by
          simp [shownLeaves, List.filter_map, Function.comp_def]
        rw [if_pos isShown, if_neg ends, shownBelow]
        have childShown := childPerm.map (key child.label :: ·)
        rw [List.map_append] at childShown
        simp only [ends, Bool.not_false, if_true]
        have both := (childShown.append rest).cons [key child.label]
        refine both.trans ?_
        simp only [List.cons_append, List.append_assoc]
        exact ((List.perm_append_comm_assoc _ _ _).append_left _).cons _

/-- A path goes through the root of a tree of the forest. -/
theorem exists_root_of_mem_shownForest {path : List κ} (member : path ∈ shownForest key shown forest) :
    ∃ tree ∈ forest, ∃ rest, key tree.label :: rest = path ∧
      (shown tree.label ∨ rest ∈ shownPaths key shown tree) := by
  induction forest with
  | nil => cases member
  | cons tree forest inductionHypothesis =>
    obtain ⟨isShown, rfl⟩ | ⟨rest, below, rfl⟩ | later := mem_shownForest_cons.mp member
    · exact ⟨tree, List.mem_cons_self, [], rfl, Or.inl isShown⟩
    · exact ⟨tree, List.mem_cons_self, rest, rfl, Or.inr below⟩
    · obtain ⟨found, isTree, rest⟩ := inductionHypothesis later
      exact ⟨found, List.mem_cons_of_mem _ isTree, rest⟩

theorem nil_notMem_shownPaths : [] ∉ shownPaths key shown tree := by
  intro member
  rw [shownPaths_eq] at member
  obtain ⟨_, _, _, impossible, _⟩ := exists_root_of_mem_shownForest member
  cases impossible

/-- A list of keys is the path of at most one step. -/
theorem nodup_stepPaths (trie : IsTrie key isLeaf isStep tree) :
    (stepPaths key isLeaf tree).Nodup := by
  induction trie with
  | @node label children kinds leaves distinct below inductionHypothesis =>
    rw [stepPaths, shownPaths]
    clear kinds below
    induction children with
    | nil => exact List.nodup_nil
    | cons child children restHypothesis =>
      obtain ⟨childLeaf, restLeaves⟩ := List.forall_mem_cons.mp leaves
      obtain ⟨childNodup, restNodup⟩ := List.forall_mem_cons.mp inductionHypothesis
      by_cases ends : isLeaf child.label
      · rw [shownForest, shownPaths_eq, childLeaf ends]
        simp only [List.map_cons, List.filter_cons, ends, Bool.not_true, Bool.false_eq_true,
          if_false] at distinct ⊢
        exact restHypothesis restLeaves distinct restNodup
      · simp only [List.map_cons, List.filter_cons, ends, Bool.not_false, if_true,
          List.nodup_cons] at distinct
        have own : ([key child.label] ::
            (stepPaths key isLeaf child).map (key child.label :: ·)).Nodup := by
          refine List.nodup_cons.mpr ⟨?_, childNodup.map List.cons_injective⟩
          intro member
          obtain ⟨rest, isRest, same⟩ := List.mem_map.mp member
          cases same
          exact nil_notMem_shownPaths isRest
        simp only [shownForest, ends, Bool.not_false, if_true]
        refine List.nodup_append.mpr ⟨own, restHypothesis restLeaves distinct.2 restNodup, ?_⟩
        rintro path isOwn _ isOther rfl
        -- the other trees have roots with other keys
        obtain ⟨other, isTree, rest, rfl, kept⟩ := exists_root_of_mem_shownForest isOther
        have otherStep : isLeaf other.label = false := by
          obtain isShown | below := kept
          · simpa using isShown
          · by_contra otherEnds
            rw [shownPaths_eq, restLeaves other isTree (by simpa using otherEnds)] at below
            cases below
        have sameKey : key other.label = key child.label := by
          obtain same | isRest := List.mem_cons.mp isOwn
          · exact (List.cons_eq_cons.mp same).1
          · obtain ⟨_, _, same⟩ := List.mem_map.mp isRest
            exact (List.cons_eq_cons.mp same).1.symm
        apply distinct.1
        rw [← sameKey]
        refine List.mem_map_of_mem (List.mem_filter.mpr ⟨List.mem_map_of_mem isTree, ?_⟩)
        simp [otherStep]

/-! ## Insertion -/

theorem prefix_cons_iff {step : κ} {path steps : List κ} :
    path ≠ [] ∧ path <+: step :: steps ↔
      path = [step] ∨ ∃ rest, (rest ≠ [] ∧ rest <+: steps) ∧ step :: rest = path := by
  cases path with
  | nil => simp
  | cons first rest =>
    rw [List.cons_prefix_cons]
    by_cases last : rest = []
    · simp [last]
    · simp only [ne_eq, reduceCtorEq, not_false_eq_true, true_and, List.cons.injEq, last, and_false,
        false_or]
      constructor
      · rintro ⟨rfl, isPrefix⟩
        exact ⟨rest, ⟨last, isPrefix⟩, rfl, rfl⟩
      · rintro ⟨_, ⟨_, isPrefix⟩, rfl, rfl⟩
        exact ⟨rfl, isPrefix⟩

theorem or_or_distrib_of_same (own below added others : Prop) :
    own ∨ (below ∨ added) ∨ others ↔ (own ∨ below ∨ others) ∨ own ∨ added := by
  tauto

section Insertion

variable [DecidableEq κ] (alphabet : Alphabet key isLeaf isStep) {leaf : α} {labels : List α}
  {path : List κ}

include alphabet

/-- An insertion adds the nonempty prefixes of its path. -/
theorem mem_stepPaths_insert (ends : isLeaf leaf) (steps : ∀ label ∈ labels, isStep label)
    (trie : IsTrie key isLeaf isStep tree) :
    path ∈ stepPaths key isLeaf (insert key leaf labels tree) ↔
      path ∈ stepPaths key isLeaf tree ∨ (path ≠ [] ∧ path <+: labels.map key) := by
  induction labels generalizing tree path with
  | nil =>
    rw [insert, stepPaths, stepPaths, shownPaths, shownForest_append, shownPaths_eq]
    simp [shownForest, shownPaths, ends]
  | cons next labels inductionHypothesis =>
    obtain ⟨nextStep, restSteps⟩ := List.forall_mem_cons.mp steps
    have notLeaf := alphabet.not_isLeaf nextStep
    have prefixes := @prefix_cons_iff κ (key next) path (labels.map key)
    cases trie with
    | @node label children kinds leaves distinct below =>
      rw [insert, stepPaths, stepPaths, shownPaths, shownPaths, children_node, List.map_cons, prefixes]
      clear leaves distinct
      induction children with
      | nil =>
        rw [changeFirst, mem_shownForest_cons, label_insert, label_node, notLeaf]
        have grown := fun rest : List κ =>
          @inductionHypothesis (node next []) rest restSteps (isTrie_leaf next)
        simp only [grown, stepPaths, shownPaths, shownForest]
        simp
      | cons child children restHypothesis =>
        obtain ⟨childKind, restKinds⟩ := List.forall_mem_cons.mp kinds
        obtain ⟨childTrie, restTries⟩ := List.forall_mem_cons.mp below
        by_cases found : key child.label = key next
        · -- the first child with the key grows, and the children behind it stay as they are
          have isNext := alphabet.label_eq nextStep childKind found
          have grown := fun rest : List κ => @inductionHypothesis child rest restSteps childTrie
          rw [changeFirst, if_pos (decide_eq_true found), mem_shownForest_cons, mem_shownForest_cons,
            label_insert, isNext, notLeaf]
          simp only [grown, or_and_right, exists_or, Bool.not_false, true_and]
          exact or_or_distrib_of_same _ _ _ _
        · have rest := restHypothesis restKinds restTries
          rw [changeFirst, if_neg (by rwa [decide_eq_true_eq]), mem_shownForest_cons,
            mem_shownForest_cons, or_assoc, or_assoc]
          exact or_congr_right (or_congr_right rest)

end Insertion

/-! ## Many insertions -/

section Insertions

variable [DecidableEq κ] {labelsOf : β → List α} {leafOf : β → α} {items : List β} {path : List κ}

theorem mem_stepPaths_foldl_insert (alphabet : Alphabet key isLeaf isStep)
    (ends : ∀ item ∈ items, isLeaf (leafOf item))
    (steps : ∀ item ∈ items, ∀ label ∈ labelsOf item, isStep label)
    (trie : IsTrie key isLeaf isStep tree) :
    path ∈ stepPaths key isLeaf
        (items.foldl (fun tree item => insert key (leafOf item) (labelsOf item) tree) tree) ↔
      path ∈ stepPaths key isLeaf tree ∨
        (path ≠ [] ∧ ∃ item ∈ items, path <+: (labelsOf item).map key) := by
  induction items generalizing tree with
  | nil => simp
  | cons item items inductionHypothesis =>
    obtain ⟨itemEnds, restEnds⟩ := List.forall_mem_cons.mp ends
    obtain ⟨itemSteps, restSteps⟩ := List.forall_mem_cons.mp steps
    have inserted := isTrie_insert alphabet itemEnds itemSteps trie
    rw [List.foldl_cons, inductionHypothesis restEnds restSteps inserted,
      mem_stepPaths_insert alphabet itemEnds itemSteps trie, or_assoc, ← and_or_left]
    simp only [List.mem_cons, exists_eq_or_imp]

/-- In the outline of inserted lists, every nonempty prefix of a list has one line, and so has
    every leaf that is shown. -/
theorem count_shownPaths_insertions [BEq κ] [LawfulBEq κ] (alphabet : Alphabet key isLeaf isStep)
    (ends : ∀ item ∈ items, isLeaf (leafOf item))
    (steps : ∀ item ∈ items, ∀ label ∈ labelsOf item, isStep label)
    (shows : ∀ label, isStep label → shown label) (root : α) (path : List κ) :
    (shownPaths key shown
        (items.foldl (fun tree item => insert key (leafOf item) (labelsOf item) tree)
          (node root []))).count path =
      (if path ≠ [] ∧ ∃ item ∈ items, path <+: (labelsOf item).map key then 1 else 0) +
        items.countP fun item =>
          shown (leafOf item) ∧ (labelsOf item).map key ++ [key (leafOf item)] = path := by
  obtain ⟨trie, paths⟩ := isTrie_foldl_insert alphabet ends steps (isTrie_leaf root)
  have noneYet : path ∉ stepPaths key isLeaf (node root []) := List.not_mem_nil
  have prefixes := @mem_stepPaths_foldl_insert _ _ _ key isLeaf isStep (node root []) _ labelsOf leafOf
    items path alphabet ends steps (isTrie_leaf root)
  rw [or_iff_right noneYet] at prefixes
  have leaves := (@shownLeaves_perm α κ key shown _ _ paths).count_eq path
  have none : leafPaths isLeaf (node root []) = [] := rfl
  rw [none, List.append_nil] at leaves
  rw [(shownPaths_perm trie shows).count_eq, List.count_append, leaves, (nodup_stepPaths trie).count]
  refine congrArg₂ (· + ·) (if_congr prefixes rfl rfl) ?_
  rw [shownLeaves, List.filter_map, List.map_map, List.count, List.countP_map, List.countP_filter]
  refine List.countP_congr fun item _ => ?_
  simp [and_comm]

end Insertions

end Klevret.Base.RoseTree
