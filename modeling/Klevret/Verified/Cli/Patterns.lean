import Klevret.Cli.Command
import Klevret.Verified.Address.Octets

/-! # The grammar of patterns

The constructor of a command reads a pattern as the grammar says: a sequence of words and of
names in angle brackets, each with white space before it or not.  Every text of the grammar is
read as the elements that it spells (`parsePattern_of_spells`), nothing else is read
(`spells_of_parsePattern`), and what is refused is refused by an exception. -/

namespace Klevret.Verified.Cli

open Klevret.Base Klevret.Cli
open Klevret.Verified.Address (exists_rest_of_ch)
open Klevret.Dhcp.WrapperForParsing (EOT Stops ch_ofString_cons getNext_ofString_cons ofString
  readWhile readWhile_append readWhile_ne_nil readWhile_ofString stops_dropWhile)

section Patterns

variable {Handler : Type} {element : CommandElement Handler}
  {elements : List (CommandElement Handler)} {text tail pattern : List Char}
  {wrap last : WrapperForParsing}

/-! ## The grammar -/

/-- The text is one element and a tail.  A word is as long as it can be. -/
inductive BeginsWith : CommandElement Handler → (text tail : List Char) → Prop
  | word {letters tail : List Char} (nonempty : letters ≠ []) (alpha : letters.all Char.isAlpha)
      (maximal : Stops Char.isAlpha tail) :
      BeginsWith (.new .fixedWord letters) (letters ++ tail) tail
  | variableElement {name : String} {type : CommandElementType} (tail : List Char)
      (known : (name, type) ∈ strToElementTypeMap) :
      BeginsWith (.new type []) ('<' :: (name.toList ++ '>' :: tail)) tail

/-- The text spells the elements, with white space before each of them or not. -/
inductive Spells : List (CommandElement Handler) → (text : List Char) → Prop
  | nil : Spells [] []
  | cons {spaces text tail : List Char} {element : CommandElement Handler}
      {elements : List (CommandElement Handler)} (white : spaces.all isSpace)
      (begins : BeginsWith element text tail) (spells : Spells elements tail) :
      Spells (element :: elements) (spaces ++ text)

/-! ## Texts of the grammar are read -/

theorem name_isAlphanum {name : String} {type : CommandElementType}
    (known : (name, type) ∈ strToElementTypeMap) : name.toList.all Char.isAlphanum := by
  have all : ∀ entry ∈ strToElementTypeMap, entry.1.toList.all Char.isAlphanum := by decide
  exact all _ known

theorem name_ne_nil {name : String} {type : CommandElementType}
    (known : (name, type) ∈ strToElementTypeMap) : name.toList.isEmpty = false := by
  have all : ∀ entry ∈ strToElementTypeMap, entry.1.toList.isEmpty = false := by decide
  exact all _ known

theorem lookup_name {name : String} {type : CommandElementType}
    (known : (name, type) ∈ strToElementTypeMap) :
    strToElementTypeMap.lookup (String.ofList name.toList) = some type := by
  have all : ∀ entry ∈ strToElementTypeMap,
      strToElementTypeMap.lookup entry.1 = some entry.2 := by decide
  rw [String.ofList_toList]
  exact all _ known

theorem parsePatternElement_of_beginsWith (begins : BeginsWith element text tail) :
    parsePatternElement (ofString text) = .ok (element, ofString tail) := by
  cases begins with
  | @word letters _ nonempty alpha maximal =>
    obtain ⟨first, rest, rfl⟩ := List.exists_cons_of_ne_nil nonempty
    have isLetter : first.isAlpha := (List.all_eq_true.mp alpha) first List.mem_cons_self
    rw [parsePatternElement, List.cons_append, ch_ofString_cons, if_pos isLetter,
      ← List.cons_append, parseFixedWord, readWhile_append rfl alpha maximal]
    rfl
  | @variableElement name type _ known =>
    have notLetter : ¬ '<'.isAlpha := by decide
    have stops : Stops Char.isAlphanum ('>' :: tail) := rfl
    have isName := readWhile_append rfl (name_isAlphanum known) stops
    rw [parsePatternElement, ch_ofString_cons, if_neg notLetter, if_pos rfl, parseVariableElement,
      ch_ofString_cons, if_neg (not_not_intro rfl), getNext_ofString_cons, isName]
    dsimp only
    rw [name_ne_nil known, if_neg Bool.false_ne_true, lookup_name known]
    dsimp only
    rw [ch_ofString_cons, if_neg (not_not_intro rfl), getNext_ofString_cons]
    rfl

theorem not_isSpace_of_isAlpha {ch : Char} (isLetter : ch.isAlpha) : isSpace ch = false := by
  have large : 65 ≤ ch.toNat := by
    obtain upper | lower := Bool.or_eq_true_iff.mp isLetter
    · have atLeast : 65 ≤ ch.val := (of_decide_eq_true upper).1
      exact UInt32.le_iff_toNat_le.mp atLeast
    · have atLeast : 97 ≤ ch.val := of_decide_eq_true (Bool.and_eq_true_iff.mp lower).1
      exact Nat.le_trans (by decide) (UInt32.le_iff_toNat_le.mp atLeast)
  have notBlank : ch ≠ ' ' := by
    rintro rfl
    exact absurd large (by decide)
  simp only [isSpace, notBlank, decide_false, Bool.false_or, Bool.and_eq_false_iff,
    decide_eq_false_iff_not]
  omega

/-- Neither a space nor the marker is the first character of an element. -/
theorem exists_first_of_beginsWith (begins : BeginsWith element text tail) :
    ∃ first rest, text = first :: rest ∧ isSpace first = false ∧ first ≠ EOT := by
  cases begins with
  | @word letters _ nonempty alpha maximal =>
    obtain ⟨first, rest, rfl⟩ := List.exists_cons_of_ne_nil nonempty
    have isLetter : first.isAlpha := (List.all_eq_true.mp alpha) first List.mem_cons_self
    refine ⟨first, rest ++ tail, rfl, not_isSpace_of_isAlpha isLetter, ?_⟩
    rintro rfl
    exact absurd isLetter (by decide)
  | @variableElement name _ _ known => exact ⟨'<', name.toList ++ '>' :: tail, rfl, rfl, by decide⟩

theorem not_isEnd_of_beginsWith {spaces : List Char} (white : spaces.all isSpace)
    (begins : BeginsWith element text tail) : ¬ (ofString (spaces ++ text)).isEnd := by
  rw [Dhcp.WrapperForParsing.isEnd, beq_iff_eq]
  cases spaces with
  | nil =>
    obtain ⟨first, rest, rfl, _, notMarker⟩ := exists_first_of_beginsWith begins
    exact notMarker
  | cons space spaces =>
    have isWhite : isSpace space := (List.all_eq_true.mp white) space List.mem_cons_self
    rw [List.cons_append, ch_ofString_cons]
    rintro rfl
    exact absurd isWhite (by decide)

theorem skipWhitespaces_of_beginsWith {spaces : List Char} (white : spaces.all isSpace)
    (begins : BeginsWith element text tail) :
    (ofString (spaces ++ text)).skipWhitespaces = ofString text := by
  obtain ⟨first, rest, rfl, notSpace, _⟩ := exists_first_of_beginsWith begins
  have stops : Stops isSpace (first :: rest) := notSpace
  rw [Dhcp.WrapperForParsing.skipWhitespaces, readWhile_append rfl white stops]

theorem parsePattern_of_spells (spells : Spells elements text) :
    parsePattern (ofString text) = .ok (elements, ofString []) := by
  induction spells with
  | nil =>
    have atEnd : (ofString []).isEnd := rfl
    rw [parsePattern, if_pos atEnd]
    rfl
  | @cons spaces text tail element elements white begins spells inductionHypothesis =>
    have isElement := parsePatternElement_of_beginsWith begins
    rw [← skipWhitespaces_of_beginsWith white begins] at isElement
    rw [parsePattern_of_ok (not_isEnd_of_beginsWith white begins) isElement, inductionHypothesis]
    rfl

/-! ## Only texts of the grammar are read -/

theorem beginsWith_of_parseFixedWord (isLetter : (ofString text).ch.isAlpha)
    (isWord : parseFixedWord (ofString text) = (element, last)) :
    ∃ tail, BeginsWith element text tail ∧ last = ofString tail := by
  have notMarker : EOT.isAlpha = false := rfl
  have read := readWhile_ofString notMarker text
  have nonempty : text.takeWhile Char.isAlpha ≠ [] := by
    have letters : (readWhile Char.isAlpha notMarker (ofString text)).1 ≠ [] :=
      readWhile_ne_nil isLetter
    rwa [read] at letters
  rw [parseFixedWord, read] at isWord
  cases isWord
  have begins : BeginsWith (.new .fixedWord (text.takeWhile Char.isAlpha) : CommandElement Handler)
      _ _ := .word nonempty List.all_takeWhile (stops_dropWhile Char.isAlpha text)
  rw [List.takeWhile_append_dropWhile] at begins
  exact ⟨_, begins, rfl⟩

theorem mem_of_lookup {name : String} {type : CommandElementType}
    (found : strToElementTypeMap.lookup name = some type) : (name, type) ∈ strToElementTypeMap := by
  obtain ⟨before, after, split, _⟩ := List.lookup_eq_some_iff.mp found
  rw [split]
  exact List.mem_append_right _ List.mem_cons_self

theorem beginsWith_of_parseVariableElement
    (isOk : parseVariableElement (ofString text) = .ok (element, last)) :
    ∃ tail, BeginsWith element text tail ∧ last = ofString tail := by
  unfold parseVariableElement at isOk
  split at isOk
  next => cases isOk
  next opening =>
    obtain ⟨rest, rfl⟩ := exists_rest_of_ch (not_not.mp opening) (by decide)
    have notMarker : EOT.isAlphanum = false := rfl
    rw [getNext_ofString_cons, readWhile_ofString notMarker rest] at isOk
    dsimp only at isOk
    split at isOk
    next => cases isOk
    split at isOk
    next => cases isOk
    next type found =>
      split at isOk
      next => cases isOk
      next closing =>
        obtain ⟨tail, isTail⟩ := exists_rest_of_ch (not_not.mp closing) (by decide)
        cases isOk
        have begins : BeginsWith (.new type [] : CommandElement Handler) _ _ :=
          .variableElement tail (mem_of_lookup found)
        rw [String.toList_ofList, ← isTail, List.takeWhile_append_dropWhile] at begins
        rw [isTail, getNext_ofString_cons]
        exact ⟨tail, begins, rfl⟩

theorem beginsWith_of_parsePatternElement
    (isOk : parsePatternElement (ofString text) = .ok (element, last)) :
    ∃ tail, BeginsWith element text tail ∧ last = ofString tail := by
  unfold parsePatternElement at isOk
  split at isOk
  next isLetter => exact beginsWith_of_parseFixedWord isLetter (Except.ok.inj isOk)
  split at isOk
  next => exact beginsWith_of_parseVariableElement isOk
  next => cases isOk

/-- What is left behind an element ends the text. -/
theorem suffix_of_beginsWith (begins : BeginsWith element text tail) : tail <:+ text := by
  cases begins with
  | @word letters _ nonempty alpha maximal => exact List.suffix_append letters tail
  | @variableElement name _ _ known =>
    have isText : '<' :: (name.toList ++ '>' :: tail) = ('<' :: name.toList ++ ['>']) ++ tail := by
      simp
    rw [isText]
    exact List.suffix_append _ tail

theorem parsePattern_cases (isOk : parsePattern wrap = .ok (elements, last)) :
    (wrap.isEnd ∧ elements = [] ∧ last = wrap) ∨
      ∃ element rest later, parsePatternElement wrap.skipWhitespaces = .ok (element, rest) ∧
        parsePattern rest = .ok (later, last) ∧ elements = element :: later := by
  by_cases atEnd : wrap.isEnd
  · rw [parsePattern, if_pos atEnd] at isOk
    cases isOk
    exact Or.inl ⟨atEnd, rfl, rfl⟩
  · cases isElement : (parsePatternElement wrap.skipWhitespaces :
        Cpp (CommandElement Handler × WrapperForParsing)) with
    | error fault =>
      rw [parsePattern_of_error atEnd isElement] at isOk
      cases isOk
    | ok read =>
      obtain ⟨element, rest⟩ := read
      rw [parsePattern_of_ok atEnd isElement] at isOk
      obtain ⟨⟨later, last⟩, restOk, isElements⟩ := bind_eq_ok.mp isOk
      cases isElements
      exact Or.inr ⟨element, rest, later, rfl, restOk, rfl⟩

/-- Without a marker in the text, its end is the end of the pattern. -/
theorem eq_nil_of_isEnd (noMarker : EOT ∉ text) (atEnd : (ofString text).isEnd) : text = [] := by
  cases text with
  | nil => rfl
  | cons ch text =>
    have isMarker : ch = EOT := beq_iff_eq.mp atEnd
    exact absurd (isMarker ▸ List.mem_cons_self) noMarker

theorem spells_of_parsePattern (noMarker : EOT ∉ text)
    (isOk : parsePattern (ofString text) = .ok (elements, last)) :
    Spells elements text ∧ last.isEnd := by
  induction elements generalizing text with
  | nil =>
    obtain ⟨atEnd, _, rfl⟩ | ⟨_, _, _, _, _, impossible⟩ := parsePattern_cases isOk
    · rw [eq_nil_of_isEnd noMarker atEnd]
      exact ⟨.nil, rfl⟩
    · cases impossible
  | cons element elements inductionHypothesis =>
    obtain ⟨_, impossible, _⟩ | ⟨_, rest, _, isElement, restOk, isCons⟩ := parsePattern_cases isOk
    · cases impossible
    · cases isCons
      have notMarker : isSpace EOT = false := rfl
      rw [Dhcp.WrapperForParsing.skipWhitespaces, readWhile_ofString notMarker] at isElement
      obtain ⟨tail, begins, rfl⟩ := beginsWith_of_parsePatternElement isElement
      have isSuffix : tail <:+ text := (suffix_of_beginsWith begins).trans (List.dropWhile_suffix _)
      obtain ⟨spells, atEnd⟩ :=
        inductionHypothesis (fun isMarker => noMarker (isSuffix.subset isMarker)) restOk
      have white : (text.takeWhile isSpace).all isSpace := List.all_takeWhile
      have whole := Spells.cons white begins spells
      rw [List.takeWhile_append_dropWhile] at whole
      exact ⟨whole, atEnd⟩

/-! ## What is refused is refused by an exception -/

theorem parseVariableElement_defined :
    (parseVariableElement wrap : Cpp (CommandElement Handler × WrapperForParsing)) ≠
      undefinedBehaviour := by
  unfold parseVariableElement
  split
  next => exact (throws_runtimeError _).defined
  dsimp only
  split
  next => exact (throws_runtimeError _).defined
  split
  next => exact (throws_runtimeError _).defined
  split
  next => exact (throws_runtimeError _).defined
  next => exact ok_ne_undefinedBehaviour _

theorem parsePatternElement_defined :
    (parsePatternElement wrap : Cpp (CommandElement Handler × WrapperForParsing)) ≠
      undefinedBehaviour := by
  unfold parsePatternElement
  split
  next => exact ok_ne_undefinedBehaviour _
  split
  next => exact parseVariableElement_defined
  next => exact (throws_runtimeError _).defined

theorem parsePattern_defined :
    (parsePattern wrap : Cpp (List (CommandElement Handler) × WrapperForParsing)) ≠
      undefinedBehaviour := by
  induction wrap using @parsePattern.induct Handler with
  | case1 wrap atEnd =>
    rw [parsePattern, if_pos atEnd]
    exact ok_ne_undefinedBehaviour _
  | case2 wrap notEnd fault isFault =>
    rw [parsePattern_of_error notEnd isFault]
    intro isUndefined
    cases isUndefined
    exact parsePatternElement_defined isFault
  | case3 wrap notEnd element next isElement inductionHypothesis =>
    rw [parsePattern_of_ok notEnd isElement]
    exact defined_bind inductionHypothesis fun _ => ok_ne_undefinedBehaviour _

/-! ## The constructor -/

/-- The constructor makes a command of the elements and the handler. -/
def Constructs (pattern : List Char) (handler : Option Handler)
    (elements : List (CommandElement Handler)) : Prop :=
  ∃ command, Command.construct pattern handler = .ok command ∧ command.elements = elements ∧
    command.handler = handler

theorem constructs_of_parsePattern {handler : Option Handler}
    (isOk : parsePattern (ofString pattern) = .ok (elements, last)) (atEnd : last.isEnd) :
    Constructs pattern handler elements := by
  unfold Constructs Command.construct
  split
  next isFault =>
    rw [isOk] at isFault
    cases isFault
  next isElements =>
    cases isOk.symm.trans isElements
    rw [if_neg (not_not_intro atEnd)]
    exact ⟨_, rfl, rfl, rfl⟩

theorem parsePattern_of_constructs {handler : Option Handler}
    (constructs : Constructs pattern handler elements) :
    ∃ last, parsePattern (ofString pattern) = .ok (elements, last) := by
  obtain ⟨command, isOk, rfl, _⟩ := constructs
  unfold Command.construct at isOk
  split at isOk
  next => cases isOk
  next isElements =>
    split at isOk
    next => cases isOk
    next =>
      cases isOk
      exact ⟨_, isElements⟩

/-- What the constructor makes of a pattern. -/
structure ReadsPattern (pattern : List Char) (handler : Option Handler) : Prop where
  constructs : ∀ elements, Constructs pattern handler elements ↔ Spells elements pattern
  throws : (∀ elements : List (CommandElement Handler), ¬ Spells elements pattern) →
    Throws (Command.construct pattern handler)

theorem readsPattern (noMarker : EOT ∉ pattern) (handler : Option Handler) :
    ReadsPattern pattern handler := by
  constructor
  · intro elements
    constructor
    · intro constructs
      obtain ⟨last, isOk⟩ := parsePattern_of_constructs constructs
      exact (spells_of_parsePattern noMarker isOk).1
    · intro spells
      exact constructs_of_parsePattern (parsePattern_of_spells spells) rfl
  · intro spellsNothing
    unfold Command.construct
    split
    next fault isFault =>
      cases fault with
      | thrown exception => exact ⟨exception, rfl⟩
      | undefinedBehaviour => exact absurd isFault parsePattern_defined
    next elements last isElements =>
      exact absurd (spells_of_parsePattern noMarker isElements).1 (spellsNothing elements)

/-! ## Rendering -/

/-- The name of a type in a pattern. -/
def typeName (type : CommandElementType) : List Char :=
  match strToElementTypeMap.find? fun entry => entry.2 = type with
  | some entry => entry.1.toList
  | none => []

/-- An element as a pattern spells it. -/
def render (element : CommandElement Handler) : List Char :=
  if element.type = .fixedWord then element.fixedValue
  else '<' :: (typeName element.type ++ ['>'])

/-- The elements with one space between two of them. -/
def renderAll (elements : List (CommandElement Handler)) : List Char :=
  [' '].intercalate (elements.map render)

theorem exists_typeName {type : CommandElementType}
    (known : type ∈ strToElementTypeMap.map Prod.snd) :
    ∃ name : String, (name, type) ∈ strToElementTypeMap ∧ typeName type = name.toList := by
  obtain ⟨entry, isEntry, isType⟩ := List.mem_map.mp known
  unfold typeName
  split
  next found isFound =>
    have isMember := List.mem_of_find?_eq_some isFound
    have isType := List.find?_some isFound
    rw [decide_eq_true_eq] at isType
    subst isType
    exact ⟨found.1, isMember, rfl⟩
  next notFound =>
    exact absurd (decide_eq_true isType) (List.find?_eq_none.mp notFound entry isEntry)

theorem beginsWith_render (parsed : element.Parsed) (stops : Stops Char.isAlpha tail) :
    BeginsWith element (render element ++ tail) tail := by
  cases parsed with
  | word nonempty alpha =>
    rw [render]
    exact .word nonempty alpha stops
  | @variableElement type known =>
    have notWord : type ≠ .fixedWord := by
      rintro rfl
      exact absurd known (by decide)
    obtain ⟨name, isEntry, isName⟩ := exists_typeName known
    have isText : render (.new type [] : CommandElement Handler) ++ tail =
        '<' :: (name.toList ++ '>' :: tail) := by
      rw [render, CommandElement.new, if_neg notWord, isName, List.cons_append, List.append_assoc]
      rfl
    rw [isText]
    exact .variableElement tail isEntry

theorem Spells.next (begins : BeginsWith element text tail) (spells : Spells elements tail) :
    Spells (element :: elements) text := by
  have noSpace : ([] : List Char).all isSpace := rfl
  exact .cons noSpace begins spells

theorem Spells.space (spells : Spells elements text) (nonempty : elements ≠ []) :
    Spells elements (' ' :: text) := by
  cases spells with
  | nil => exact absurd rfl nonempty
  | @cons spaces _ _ _ _ white begins rest =>
    have stillWhite : (' ' :: spaces).all isSpace := by
      rw [List.all_cons, white]
      rfl
    exact .cons stillWhite begins rest

/-- A rendering spells what was rendered. -/
theorem spells_renderAll (parsed : ∀ element ∈ elements, element.Parsed) :
    Spells elements (renderAll elements) := by
  induction elements with
  | nil => exact .nil
  | cons element elements inductionHypothesis =>
    obtain ⟨elementParsed, restParsed⟩ := List.forall_mem_cons.mp parsed
    have spells := inductionHypothesis restParsed
    cases elements with
    | nil =>
      have stops : Stops Char.isAlpha [] := trivial
      have begins := beginsWith_render elementParsed stops
      rw [List.append_nil] at begins
      rw [renderAll, List.map_singleton, List.intercalate_singleton]
      exact .next begins .nil
    | cons next elements =>
      have isText : renderAll (element :: next :: elements) =
          render element ++ ' ' :: renderAll (next :: elements) := by
        rw [renderAll, List.map_cons, List.map_cons, List.intercalate_cons_cons, List.append_assoc]
        rfl
      have stops : Stops Char.isAlpha (' ' :: renderAll (next :: elements)) := rfl
      rw [isText]
      exact .next (beginsWith_render elementParsed stops) (spells.space (List.cons_ne_nil _ _))

/-- The constructor reads the grammar, and gives back any elements that were rendered. -/
theorem commandConstructor_correct (handler : Option Handler) :
    (∀ pattern, EOT ∉ pattern → ReadsPattern pattern handler) ∧
      ∀ elements : List (CommandElement Handler), (∀ element ∈ elements, element.Parsed) →
        Constructs (renderAll elements) handler elements := by
  constructor
  · intro pattern noMarker
    exact readsPattern noMarker handler
  · intro elements parsed
    exact constructs_of_parsePattern (parsePattern_of_spells (spells_renderAll parsed)) rfl

end Patterns

end Klevret.Verified.Cli
