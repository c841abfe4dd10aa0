import Klevret.Base.Trie
import Klevret.Verified.Cli.Analysis

/-! # The tree of the commands

Below the node of some elements are the handlers of the commands with exactly these
elements, and the elements that longer commands go on with.  So a handler that ENTER
calls is the one of a command whose elements the line went past
(`dispatched_of_pressEnter`).  The paths to the handlers are the commands, none lost,
merged or doubled (`createCommandTree_faithful`). -/

namespace Klevret.Verified.Cli

open Klevret.Base Klevret.Cli
open RoseTree (Descends Leads Move labelsAt nodeAt labelsAt_foldl_insert labelsAt_leaf
  countP_le_length_foldl_grow foldl_grow_of_not_prefix grow_of_eq leaf_mem_foldl_grow
  of_mem_foldl_grow step_mem_foldl_grow)

section Tree

variable {Handler : Type} {commands : List (Command Handler)} {command : Command Handler}
  {part : List Char} {element other : CommandElement Handler}
  {path : List (CommandElementType × List Char)}

/-! ## Elements and handlers -/

theorem handler_of_parsed (parsed : element.Parsed) : element.handler = none := by
  cases parsed with
  | word nonempty alpha => rfl
  | variableElement known => rfl

/-- Elements that are equal to the tree check a part in the same way. -/
theorem checkCommandElement_of_key (sameKey : element.key = other.key) :
    checkCommandElement part element = checkCommandElement part other := by
  obtain ⟨sameType, sameValue⟩ := Prod.mk.inj sameKey
  unfold checkCommandElement
  rw [sameType, sameValue]

theorem not_rejects_of_accepts (part : List Char) (element other : CommandElement Handler)
    (sameKey : element.key = other.key) (accepted : Accepts part element) : ¬ Rejects part other := by
  unfold Accepts at accepted
  rw [checkCommandElement_of_key sameKey] at accepted
  unfold Rejects
  rw [accepted]
  exact nofun

/-! ## The children of a node -/

theorem labelsAt_createCommandTree (commands : List (Command Handler))
    (path : List (CommandElementType × List Char)) :
    labelsAt CommandElement.key path (createCommandTree commands) =
      commands.foldl (fun below command => RoseTree.grow CommandElement.key command.handlerElement
        command.elements path below) [] := by
  have noneYet : labelsAt CommandElement.key path
      (.node (⟨.none, [], none⟩ : CommandElement Handler) []) = [] := labelsAt_leaf
  rw [← noneYet]
  exact labelsAt_foldl_insert Command.elements Command.handlerElement commands path _

/-- A handler is found where the path of its command ends. -/
theorem command_of_handler {label : CommandElement Handler} {handler : Handler}
    (member : label ∈ labelsAt CommandElement.key path (createCommandTree commands))
    (isHandler : label.handler = some handler) :
    ∃ command ∈ commands, command.elements.map CommandElement.key = path ∧
      command.handler = some handler := by
  rw [labelsAt_createCommandTree] at member
  obtain impossible | ⟨command, isCommand, put⟩ := of_mem_foldl_grow member
  · cases impossible
  · obtain ⟨rfl, samePath⟩ | isElement := put
    · exact ⟨command, isCommand, samePath, isHandler⟩
    · -- an element of a command has no handler
      rw [handler_of_parsed (command.parsed label isElement)] at isHandler
      cases isHandler

theorem handlerElement_mem_labelsAt (isCommand : command ∈ commands) :
    command.handlerElement ∈ labelsAt CommandElement.key (command.elements.map CommandElement.key)
      (createCommandTree commands) := by
  rw [labelsAt_createCommandTree]
  exact leaf_mem_foldl_grow isCommand rfl

theorem step_mem_labelsAt {step : CommandElementType × List Char}
    {rest : List (CommandElementType × List Char)} (isCommand : command ∈ commands)
    (longer : command.elements.map CommandElement.key = path ++ step :: rest) :
    step ∈ (labelsAt CommandElement.key path (createCommandTree commands)).map
      CommandElement.key := by
  rw [labelsAt_createCommandTree]
  exact step_mem_foldl_grow isCommand longer

/-- Commands with the same elements have their handlers at the same node. -/
theorem one_lt_length_labelsAt {before after : List (Command Handler)} {twin : Command Handler}
    (isTwin : twin ∈ before ++ after)
    (same : twin.elements.map CommandElement.key = command.elements.map CommandElement.key) :
    1 < (labelsAt CommandElement.key (command.elements.map CommandElement.key)
      (createCommandTree (before ++ command :: after))).length := by
  have counted := @countP_le_length_foldl_grow _ _ _ CommandElement.key _ Command.elements
    Command.handlerElement (before ++ command :: after) (command.elements.map CommandElement.key) []
  have twins : 0 < (before ++ after).countP fun other =>
      other.elements.map CommandElement.key = command.elements.map CommandElement.key :=
    List.countP_pos_iff.mpr ⟨twin, isTwin, decide_eq_true same⟩
  rw [List.countP_append] at twins
  rw [List.countP_append, List.countP_cons, if_pos (decide_eq_true rfl), List.length_nil] at counted
  rw [labelsAt_createCommandTree]
  omega

/-- Commands with other elements at the start leave a node as it is. -/
theorem labelsAt_eq_handlerElement {before after : List (Command Handler)}
    (notPrefix : ∀ other ∈ before ++ after,
      ¬ command.elements.map CommandElement.key <+: other.elements.map CommandElement.key) :
    labelsAt CommandElement.key (command.elements.map CommandElement.key)
      (createCommandTree (before ++ command :: after)) = [command.handlerElement] := by
  obtain ⟨notBefore, notAfter⟩ := List.forall_mem_append.mp notPrefix
  rw [labelsAt_createCommandTree, List.foldl_append, List.foldl_cons,
    foldl_grow_of_not_prefix notBefore, grow_of_eq _ rfl, foldl_grow_of_not_prefix notAfter]
  rfl

theorem labelsAt_of_descends {root last : CommandTree Handler}
    {moves : List (Move (List Char) (CommandElement Handler))}
    (descends : Descends Accepts Rejects root moves last) :
    labelsAt CommandElement.key ((Move.labels moves).map CommandElement.key) root =
      last.children.map RoseTree.label := by
  rw [labelsAt, descends.nodeAt_eq not_rejects_of_accepts]

/-! ## The paths to the handlers -/

/-- The label of a child that `add_command_to_tree` makes for a handler. -/
def isHandler (label : CommandElement Handler) : Bool := label.type = .none

theorem type_ne_none_of_parsed (parsed : element.Parsed) : element.type ≠ .none := by
  cases parsed with
  | word nonempty alpha =>
    intro impossible
    cases impossible
  | variableElement known =>
    rintro rfl
    exact absurd known (by decide)

/-- What `operator==` compares tells the elements of patterns apart. -/
theorem eq_of_key {left right : CommandElement Handler} (leftParsed : left.Parsed)
    (rightParsed : right.Parsed) (sameKey : left.key = right.key) : left = right := by
  obtain ⟨sameType, sameValue⟩ := Prod.mk.inj sameKey
  have noHandler := (handler_of_parsed leftParsed).trans (handler_of_parsed rightParsed).symm
  obtain ⟨type, fixedValue, handler⟩ := left
  obtain ⟨type', fixedValue', handler'⟩ := right
  cases sameType
  cases sameValue
  cases noHandler
  rfl

theorem commandAlphabet :
    RoseTree.Alphabet (@CommandElement.key Handler) isHandler CommandElement.Parsed where
  injective _ _ := eq_of_key
  apart step leaf parsed ends sameKey := by
    have isNone : leaf.type = .none := of_decide_eq_true ends
    exact type_ne_none_of_parsed parsed ((congrArg Prod.fst sameKey).trans isNone)

/-- The tree has the commands as its paths to handlers, with their repetitions, and is a trie:
    handlers are leaves, and the other children of a node are different elements. -/
structure FaithfulTrie (commands : List (Command Handler)) : Prop where
  paths : ((RoseTree.leafPaths isHandler (createCommandTree commands)).map
      fun path => (path.1, path.2.handler)).Perm
    (commands.map fun command => (command.elements, command.handler))
  trie : RoseTree.IsTrie CommandElement.key isHandler CommandElement.Parsed
    (createCommandTree commands)

theorem createCommandTree_faithful (commands : List (Command Handler)) :
    FaithfulTrie commands := by
  have ends : ∀ command ∈ commands, isHandler command.handlerElement := fun _ _ => rfl
  have steps : ∀ command ∈ commands, ∀ element ∈ command.elements, element.Parsed :=
    fun command _ => command.parsed
  obtain ⟨trie, paths⟩ := RoseTree.isTrie_foldl_insert commandAlphabet ends steps
    (RoseTree.isTrie_leaf ⟨.none, [], none⟩)
  refine ⟨?_, trie⟩
  have handlers := paths.map fun path => (path.1, path.2.handler)
  -- there are no paths in the empty tree
  rw [List.map_append, List.map_map] at handlers
  exact handlers.trans (List.Perm.of_eq (List.append_nil _))

/-! ## The handler that ENTER calls -/

theorem pressEnter_eq_some_iff {split : Split} {line : List Char} {root : CommandTree Handler}
    {call : HandlerCall Handler} :
    pressEnter split line root = .ok (some call) ↔
      ∃ analysis only, analyzeCommand split line root = .ok analysis ∧
        analysis.current.children = [only] ∧ only.label.handler = some call.handler ∧
          call.path = analysis.path ∧ call.stack = analysis.stack := by
  rw [pressEnter, bind_eq_ok]
  constructor
  · intro ⟨analysis, isAnalysis, rest⟩
    split at rest
    next only isOnly =>
      split at rest
      next handler isHandler =>
        cases rest
        exact ⟨analysis, only, isAnalysis, isOnly, isHandler, rfl, rfl⟩
      next => cases rest
    next => cases rest
  · intro ⟨analysis, only, isAnalysis, isOnly, isHandler, isPath, isStack⟩
    refine ⟨analysis, isAnalysis, ?_⟩
    rw [isOnly]
    dsimp only
    rw [isHandler, ← isPath, ← isStack]
    rfl

/-- A handler is called at the end of a descent, and is the one of `command`, whose
    elements are those that the descent went past. -/
structure Dispatched (command : Command Handler)
    (moves : List (Move (List Char) (CommandElement Handler))) (root : CommandTree Handler)
    (call : HandlerCall Handler) (last : CommandTree Handler) : Prop where
  analyzed : Analyzed ⟨[], root, []⟩ moves ⟨call.path, last, call.stack⟩
  only : ∃ only, last.children = [only] ∧ only.label.handler = some call.handler
  handler : command.handler = some call.handler
  elements : command.elements.map CommandElement.key = (Move.labels moves).map CommandElement.key

theorem dispatched_of_pressEnter {split : Split} {line : List Char} {call : HandlerCall Handler}
    (called : pressEnter split line (createCommandTree commands) = .ok (some call)) :
    ∃ moves last, moves.map Move.item = split line ∧ ∃ command ∈ commands,
      Dispatched command moves (createCommandTree commands) call last := by
  obtain ⟨analysis, only, isAnalysis, isOnly, isHandler, isPath, isStack⟩ :=
    pressEnter_eq_some_iff.mp called
  obtain ⟨moves, items, analyzed⟩ := analyzed_of_foldlM isAnalysis
  have isLabel : only.label ∈ labelsAt CommandElement.key
      ((Move.labels moves).map CommandElement.key) (createCommandTree commands) := by
    rw [labelsAt_of_descends analyzed.descends, isOnly]
    exact List.mem_singleton_self _
  obtain ⟨command, isCommand, elements, handler⟩ := command_of_handler isLabel isHandler
  refine ⟨moves, analysis.current, items, command, isCommand, ?_, ⟨only, isOnly, isHandler⟩, handler,
    elements⟩
  rw [isPath, isStack]
  exact analyzed

end Tree

end Klevret.Verified.Cli
