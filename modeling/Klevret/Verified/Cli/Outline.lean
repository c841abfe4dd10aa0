import Klevret.Base.Outline
import Klevret.Verified.Cli.Tree

/-! # The listing of the commands

`print_tree` shows the tree by indentation.  From the text the elements can be read back with what
stands above them, and what is read are the beginnings of the registered commands, each once
(`outline_spells`). -/

namespace Klevret.Verified.Cli

open Klevret.Base Klevret.Cli
open RoseTree (outline outlineForest shownPaths readPaths)

/-! ## Reading the listing -/

/-- The lines of a text, each of which ends with a newline. -/
def linesOf : List Char → List (List Char)
  | [] => []
  | c :: text =>
    if c = '\n' then [] :: linesOf text
    else
      match linesOf text with
      | [] => []
      | line :: lines => (c :: line) :: lines

/-- The level that a line is indented to, and what stands behind the dashes. -/
def readLevel : List Char → ℕ × List Char
  | '-' :: '-' :: line =>
    let (level, text) := readLevel line
    (level + 1, text)
  | text => (0, text)

/-- The texts of the elements that are no words. -/
def variableTexts : List (List Char × CommandElementType) :=
  [.ipV4Address, .ipV4SubnetMask, .ipV6Address, .ipV6SubnetMask, .name, .string, .none].map
    fun type => ((CommandElement.new type [] : CommandElement Unit).toString, type)

/-- The element that a text stands for. -/
def keyOf (text : List Char) : CommandElementType × List Char :=
  match variableTexts.lookup text with
  | some type => (type, [])
  | none => (.fixedWord, text)

/-- The elements that the lines of a listing show, each behind those that it stands below. -/
def readOutline (text : List Char) : List (List (CommandElementType × List Char)) :=
  readPaths [] (((linesOf text).map readLevel).map (Prod.map id keyOf))

theorem linesOf_append_newline {line : List Char} (oneLine : '\n' ∉ line) (rest : List Char) :
    linesOf (line ++ '\n' :: rest) = line :: linesOf rest := by
  induction line with
  | nil => rfl
  | cons c line inductionHypothesis =>
    have notNewline : c ≠ '\n' := fun isNewline => oneLine (isNewline ▸ List.mem_cons_self)
    have restOneLine : '\n' ∉ line := fun member => oneLine (List.mem_cons_of_mem c member)
    rw [List.cons_append, linesOf, if_neg notNewline, inductionHypothesis restOneLine]

theorem linesOf_flatMap {lines : List (List Char)} (oneLine : ∀ line ∈ lines, '\n' ∉ line) :
    linesOf (lines.flatMap fun line => line ++ ['\n']) = lines := by
  induction lines with
  | nil => rfl
  | cons line lines inductionHypothesis =>
    obtain ⟨first, rest⟩ := List.forall_mem_cons.mp oneLine
    rw [List.flatMap_cons, List.append_assoc, List.singleton_append, linesOf_append_newline first,
      inductionHypothesis rest]

theorem readLevel_indented {text : List Char} (noDash : text.head? ≠ some '-') (level : ℕ) :
    readLevel ((List.replicate level "--".toList).flatten ++ text) = (level, text) := by
  induction level with
  | zero =>
    cases text with
    | nil => rfl
    | cons c text =>
      have notDash : c ≠ '-' := by simpa using noDash
      rw [List.replicate_zero, List.flatten_nil, List.nil_append]
      unfold readLevel
      split
      next isDash => cases isDash; exact absurd rfl notDash
      next => rfl
  | succ level inductionHypothesis =>
    have dashes : readLevel ("--".toList ++ ((List.replicate level "--".toList).flatten ++ text)) =
        ((readLevel ((List.replicate level "--".toList).flatten ++ text)).1 + 1,
          (readLevel ((List.replicate level "--".toList).flatten ++ text)).2) := rfl
    rw [List.replicate_succ, List.flatten_cons, List.append_assoc, dashes, inductionHypothesis]

/-! ## The texts of the elements -/

section

variable {Handler : Type} {element : CommandElement Handler} {tree : CommandTree Handler}

/-- The label of a child that holds the handler of a command. -/
def isEnd (label : CommandElement Handler) : Bool := label.key = (.none, [])

theorem endAlphabet :
    RoseTree.Alphabet (@CommandElement.key Handler) isEnd CommandElement.Parsed where
  injective _ _ := eq_of_key
  apart step leaf parsed ends sameKey := by
    have isNone : leaf.key = (.none, []) := of_decide_eq_true ends
    exact type_ne_none_of_parsed parsed (congrArg Prod.fst (sameKey.trans isNone))

/-- A text that the listing can show: it can be told from dashes, and has no newline. -/
structure Legible (element : CommandElement Handler) : Prop where
  noDash : element.toString.head? ≠ some '-'
  oneLine : '\n' ∉ element.toString
  keyOf_eq : keyOf element.toString = element.key

theorem legible_of_type (isVariable : element.type ≠ .fixedWord) (noValue : element.fixedValue = []) :
    Legible element := by
  have texts : ∀ entry ∈ variableTexts, entry.1.head? ≠ some '-' ∧ '\n' ∉ entry.1 ∧
      keyOf entry.1 = (entry.2, []) := by decide
  have isEntry : (element.toString, element.type) ∈ variableTexts := by
    obtain ⟨type, fixedValue, handler⟩ := element
    cases type with
    | fixedWord => exact absurd rfl isVariable
    | _ => simp [variableTexts, CommandElement.new, CommandElement.toString]
  obtain ⟨noDash, oneLine, isKey⟩ := texts _ isEntry
  exact ⟨noDash, oneLine, by rw [isKey, CommandElement.key, noValue]⟩

theorem legible_of_word {letters : List Char} (nonempty : letters ≠ [])
    (alpha : letters.all Char.isAlpha) :
    Legible (CommandElement.new .fixedWord letters : CommandElement Handler) := by
  have isAlpha : ∀ c ∈ letters, c.isAlpha := List.all_eq_true.mp alpha
  obtain ⟨first, rest, rfl⟩ := List.exists_cons_of_ne_nil nonempty
  have firstAlpha := isAlpha first List.mem_cons_self
  constructor
  · intro isDash
    cases isDash
    exact absurd firstAlpha (by decide)
  · intro newline
    exact absurd (isAlpha '\n' newline) (by decide)
  · -- a word begins with a letter, the other texts with `<`
    have opens : ∀ entry ∈ variableTexts, entry.1.head? = some '<' := by decide
    have notVariable : variableTexts.lookup (first :: rest) = none := by
      rw [List.lookup_eq_none_iff]
      intro entry isEntry
      rw [bne_iff_ne]
      intro same
      have isOpening := opens entry isEntry
      rw [← same] at isOpening
      cases isOpening
      exact absurd firstAlpha (by decide)
    change keyOf (first :: rest) = _
    rw [keyOf, notVariable]
    rfl

theorem legible_of_parsed (parsed : element.Parsed) : Legible element := by
  cases parsed with
  | word nonempty alpha => exact legible_of_word nonempty alpha
  | @variableElement type known =>
    refine legible_of_type ?_ rfl
    rintro rfl
    exact absurd known (by decide)

theorem legible_of_isEnd (ends : isEnd element) : Legible element := by
  obtain ⟨isNone, noValue⟩ := Prod.mk.inj (of_decide_eq_true ends : element.key = (.none, []))
  exact legible_of_type (by rw [isNone]; simp) noValue

/-! ## The listing -/

/-- A line of the listing. -/
def outlineLine (line : ℕ × CommandElement Handler) : List Char :=
  (List.replicate line.1 "--".toList).flatten ++ line.2.toString

/-- The elements without a handler. -/
def isShown (label : CommandElement Handler) : Bool := label.handler.isNone

mutual

theorem printTree_eq (tree : CommandTree Handler) (tab : ℕ) :
    printTree tree tab =
      ((outline isShown tab tree).map outlineLine).flatMap fun line => line ++ ['\n'] := by
  cases tree with
  | node label childs => exact printChilds_eq childs tab

theorem printChilds_eq (childs : List (CommandTree Handler)) (tab : ℕ) :
    printChilds childs tab =
      ((outlineForest isShown tab childs).map outlineLine).flatMap fun line => line ++ ['\n'] := by
  cases childs with
  | nil => rfl
  | cons node childs =>
    rw [printChilds, outlineForest, printTree_eq node, printChilds_eq childs, List.map_append,
      List.map_append, List.flatMap_append, List.flatMap_append, isShown]
    cases node.label.handler.isNone with
    | true => simp [outlineLine]
    | false => rfl

end

/-- The lines are read back. -/
theorem map_readLevel_lines {lines : List (ℕ × CommandElement Handler)}
    (legible : ∀ line ∈ lines, Legible line.2) :
    ((linesOf ((lines.map outlineLine).flatMap fun line => line ++ ['\n'])).map readLevel).map
        (Prod.map id keyOf) =
      lines.map (Prod.map id CommandElement.key) := by
  have oneLine : ∀ line ∈ lines.map outlineLine, '\n' ∉ line := by
    intro line member newline
    obtain ⟨shown, isLine, rfl⟩ := List.mem_map.mp member
    obtain inDashes | inText := List.mem_append.mp newline
    · obtain ⟨dashes, isDashes, isIn⟩ := List.mem_flatten.mp inDashes
      rw [List.eq_of_mem_replicate isDashes] at isIn
      exact absurd isIn (by decide)
    · exact (legible shown isLine).oneLine inText
  rw [linesOf_flatMap oneLine, List.map_map, List.map_map]
  refine List.map_congr_left fun line isLine => ?_
  have readsLine := readLevel_indented (legible line isLine).noDash line.1
  change Prod.map id keyOf (readLevel (outlineLine line)) = _
  rw [outlineLine, readsLine, Prod.map_apply, (legible line isLine).keyOf_eq]
  rfl

theorem isTrie_createCommandTree (commands : List (Command Handler)) :
    RoseTree.IsTrie CommandElement.key isEnd CommandElement.Parsed (createCommandTree commands) :=
  (RoseTree.isTrie_foldl_insert endAlphabet (fun _ _ => rfl) (fun command _ => command.parsed)
    (RoseTree.isTrie_leaf _)).1

/-- What is read from the listing are the nonempty beginnings of the registered commands, each
    once, and a line more for each command without a handler. -/
theorem outline_spells (commands : List (Command Handler))
    (path : List (CommandElementType × List Char)) :
    (readOutline (printTree (createCommandTree commands) 0)).count path =
      (if path ≠ [] ∧ ∃ command ∈ commands, path <+: command.elements.map CommandElement.key then 1
        else 0) +
        commands.countP fun command =>
          command.handler = none ∧ command.elements.map CommandElement.key ++ [(.none, [])] = path := by
  have ends : ∀ command ∈ commands, isEnd command.handlerElement := fun _ _ => rfl
  have steps : ∀ command ∈ commands, ∀ element ∈ command.elements, element.Parsed :=
    fun command _ => command.parsed
  have shows : ∀ element : CommandElement Handler, element.Parsed → isShown element := by
    intro element parsed
    rw [isShown, handler_of_parsed parsed]
    rfl
  have trie := isTrie_createCommandTree commands
  have legible : ∀ line ∈ outline isShown 0 (createCommandTree commands), Legible line.2 := by
    intro line isLine
    obtain ends | parsed := RoseTree.kind_of_mem_outline trie isLine
    · exact legible_of_isEnd ends
    · exact legible_of_parsed parsed
  have counted := RoseTree.count_shownPaths_insertions endAlphabet ends steps shows
    ⟨.none, [], none⟩ path
  -- the text gives the lines, the lines the paths, and these are counted in the trie
  rw [readOutline, printTree_eq, map_readLevel_lines legible, RoseTree.readPaths_outline trie shows]
  refine counted.trans (congrArg (_ + ·) (List.countP_congr ?_))
  intro command _
  simp [isShown, Command.handlerElement, CommandElement.key]

end

end Klevret.Verified.Cli
