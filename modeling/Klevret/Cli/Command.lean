import Klevret.Base.RoseTree
import Klevret.Cli.IpAddresses

/-! # Commands (`Command.hpp`, `Command.cpp`)

A command is a list of elements, parsed from a pattern, and a handler.  The tree of
the commands has an element at each node; the handler of a command is a child of
the node of its last element.  `Handler` is the type of the handlers. -/

namespace Klevret.Cli

open Klevret.Base

inductive CommandElementType where
  | none
  | fixedWord
  | string
  | name
  | ipV4Address
  | ipV4SubnetMask
  | ipV6Address
  | ipV6SubnetMask
deriving DecidableEq, Repr

inductive CommandElementRealValue where
  | string (value : List Char)
  | ipV4Address (value : IPv4Address)
  | ipV6Address (value : IPv6Address)
  | ipV4SubnetMask (value : IPv4SubnetMask)
  | ipV6SubnetMask (value : IPv6SubnetMask)
deriving DecidableEq, Repr

/-! ## Checking a word of the input -/

/-- What comes after the closing quote is not looked at. -/
def parseString (str : List Char) : Bool :=
  let wrap : WrapperForParsing := .ofString str
  if wrap.ch ≠ '"' then false
  else
    let (_, wrap) := wrap.getNext.readWhile Char.isAlpha rfl
    wrap.ch = '"'

def parseName (_ : List Char) : Bool := true

def parseNumber (wrap : WrapperForParsing) : Cpp (Int32 × WrapperForParsing) :=
  if wrap.ch.isDigit then return readDigits wrap
  else throwRuntimeError "Ошибка парсинга числа: ожидалась цифра"

/-- The loop of `parse_ipv4_address`, with the octets that it computes; an exception
    is caught and counts as `false`. -/
def parseIpV4Octets (wrap : WrapperForParsing) :
    (missing : ℕ) → Option (List Int32 × WrapperForParsing)
  | 0 => some ([], wrap)
  | missing + 1 =>
    match parseNumber wrap with
    | .error _ => none
    | .ok (octet, wrap) =>
      if octet < 0 ∨ octet > 255 then none
      else if missing ≠ 0 ∧ wrap.ch ≠ '.' then none
      else
        match parseIpV4Octets (if missing ≠ 0 then wrap.getNext else wrap) missing with
        | none => none
        | some (octets, wrap) => some (octet :: octets, wrap)

/-- The octets of a text that `parse_ipv4_address` accepts. -/
def ipV4AddressValues (str : List Char) : Option (List Int32) :=
  match parseIpV4Octets (.ofString str) 4 with
  | none => none
  | some (octets, wrap) => if wrap.ch = Dhcp.WrapperForParsing.EOT then some octets else none

def parseIpV4Address (str : List Char) : Bool := (ipV4AddressValues str).isSome

/-- What comes after the number is not looked at. -/
def parseIpV4SubnetMask (str : List Char) : Cpp Bool := do
  let (mask, _) ← parseNumber (.ofString str)
  return ¬ (mask < 0 ∨ mask > 32)

def parseIpV6Address (_ : List Char) : Bool := true

def parseIpV6SubnetMask (_ : List Char) : Bool := true

/-- `CommandElement`.  The constructors leave `handler` empty. -/
structure CommandElement (Handler : Type) where
  type : CommandElementType
  fixedValue : List Char
  handler : Option Handler
deriving DecidableEq, Repr

def checkCommandElement {Handler : Type} (str : List Char) (element : CommandElement Handler) :
    Cpp Bool :=
  match element.type with
  | .none => return false
  | .fixedWord => return element.fixedValue = str
  | .string => return parseString str
  | .name => return parseName str
  | .ipV4Address => return parseIpV4Address str
  | .ipV4SubnetMask => parseIpV4SubnetMask str
  | .ipV6Address => return parseIpV6Address str
  | .ipV6SubnetMask => return parseIpV6SubnetMask str

/-! ## Patterns -/

/-- `str_to_element_type_map`. -/
def strToElementTypeMap : List (String × CommandElementType) :=
  [("string", .string), ("name", .name), ("IPv4Address", .ipV4Address),
    ("IPv4SubnetMask", .ipV4SubnetMask), ("IPv6Address", .ipV6Address),
    ("IPv6SubnetMask", .ipV6SubnetMask)]

section Patterns

variable {Handler : Type}

namespace CommandElement

/-- `CommandElement(type, fixed_value)`. -/
def new (type : CommandElementType) (fixedValue : List Char) : CommandElement Handler :=
  ⟨type, fixedValue, none⟩

/-- What `operator==` compares. -/
def key (element : CommandElement Handler) : CommandElementType × List Char :=
  (element.type, element.fixedValue)

/-- `to_string`. -/
def toString (element : CommandElement Handler) : List Char :=
  match element.type with
  | .fixedWord => element.fixedValue
  | .ipV4Address => "<IPv4 address>".toList
  | .ipV4SubnetMask => "<subnet mask (IPv4)>".toList
  | .ipV6Address => "<IPv6 address>".toList
  | .ipV6SubnetMask => "<subnet mask (IPv6)>".toList
  | .name => "<name>".toList
  | .string => "<string>".toList
  | .none => "<UNKNOWN>".toList

/-- An element that a pattern can spell. -/
inductive Parsed : CommandElement Handler → Prop
  | word {letters : List Char} (nonempty : letters ≠ []) (alpha : letters.all Char.isAlpha) :
      Parsed (new .fixedWord letters)
  | variableElement {type : CommandElementType} (known : type ∈ strToElementTypeMap.map Prod.snd) :
      Parsed (new type [])

end CommandElement

def parseFixedWord (wrap : WrapperForParsing) : CommandElement Handler × WrapperForParsing :=
  let (word, wrap) := wrap.readWhile Char.isAlpha rfl
  (.new .fixedWord word, wrap)

def parseVariableElement (wrap : WrapperForParsing) :
    Cpp (CommandElement Handler × WrapperForParsing) :=
  if wrap.ch ≠ '<' then throwRuntimeError "Ошибка парсинга шаблона команды: ожидалось <"
  else
    let (variableElement, wrap) := wrap.getNext.readWhile Char.isAlphanum rfl
    if variableElement.isEmpty then
      throwRuntimeError
        "Ошибка парсинга шаблона команды: вариативный элемент не может быть пустым <>"
    else
      match strToElementTypeMap.lookup (String.ofList variableElement) with
      | none =>
        throwRuntimeError ("Ошибка парсинга шаблона команды: неизвестный вариативный элемент <" ++
          String.ofList variableElement ++ ">")
      | some type =>
        if wrap.ch ≠ '>' then throwRuntimeError "Ошибка парсинга шаблона команды: ожидалось <"
        else return (.new type [], wrap.getNext)

def parsePatternElement (wrap : WrapperForParsing) :
    Cpp (CommandElement Handler × WrapperForParsing) :=
  if wrap.ch.isAlpha then return parseFixedWord wrap
  else if wrap.ch = '<' then parseVariableElement wrap
  else throwRuntimeError "Ошибка парсинга шаблона команды: ожидалось слово или <элемент>"

/-! ### What a pattern element is -/

open Dhcp.WrapperForParsing (remaining_getNext all_readWhile readWhile_ne_nil remaining_readWhile_le
  remaining_readWhile_lt remaining_skipWhitespaces_le)

variable {wrap rest : WrapperForParsing} {element : CommandElement Handler}

theorem parsed_of_parseFixedWord (alpha : wrap.ch.isAlpha)
    (isWord : parseFixedWord wrap = (element, rest)) :
    element.Parsed ∧ rest.remaining < wrap.remaining := by
  cases isWord
  exact ⟨.word (readWhile_ne_nil alpha) all_readWhile, remaining_readWhile_lt alpha⟩

theorem type_mem_of_lookup {name : String} {type : CommandElementType}
    (found : strToElementTypeMap.lookup name = some type) :
    type ∈ strToElementTypeMap.map Prod.snd := by
  obtain ⟨before, after, split, _⟩ := List.lookup_eq_some_iff.mp found
  rw [split, List.map_append, List.map_cons]
  exact List.mem_append_right _ List.mem_cons_self

theorem parsed_of_parseVariableElement (isOk : parseVariableElement wrap = .ok (element, rest)) :
    element.Parsed ∧ rest.remaining < wrap.remaining := by
  unfold parseVariableElement at isOk
  split at isOk
  next => cases isOk
  next opening =>
    have atOpening : wrap.ch ≠ Dhcp.WrapperForParsing.EOT := by
      intro marker
      rw [marker] at opening
      exact opening (by decide)
    have afterOpening := remaining_getNext atOpening
    have afterName : (wrap.getNext.readWhile Char.isAlphanum rfl).2.remaining ≤
        wrap.getNext.remaining := remaining_readWhile_le
    dsimp only at isOk
    split at isOk
    next => cases isOk
    split at isOk
    next => cases isOk
    next type found =>
      split at isOk
      next => cases isOk
      next closing =>
        cases isOk
        have atClosing : (wrap.getNext.readWhile Char.isAlphanum rfl).2.ch ≠
            Dhcp.WrapperForParsing.EOT := by
          intro marker
          rw [marker] at closing
          exact closing (by decide)
        have afterClosing := remaining_getNext atClosing
        exact ⟨.variableElement (type_mem_of_lookup found), by omega⟩

theorem parsed_of_parsePatternElement (isOk : parsePatternElement wrap = .ok (element, rest)) :
    element.Parsed ∧ rest.remaining < wrap.remaining := by
  unfold parsePatternElement at isOk
  split at isOk
  next alpha => exact parsed_of_parseFixedWord alpha (Except.ok.inj isOk)
  split at isOk
  next => exact parsed_of_parseVariableElement isOk
  next => cases isOk

/-- The elements from here to the end; white space is skipped before each. -/
def parsePattern (wrap : WrapperForParsing) :
    Cpp (List (CommandElement Handler) × WrapperForParsing) :=
  if wrap.isEnd then return ([], wrap)
  else
    match _isElement : parsePatternElement wrap.skipWhitespaces with
    | .error fault => .error fault
    | .ok (element, rest) => do
      let (elements, last) ← parsePattern rest
      return (element :: elements, last)
termination_by wrap.remaining
decreasing_by
  exact Nat.lt_of_lt_of_le (parsed_of_parsePatternElement _isElement).2 remaining_skipWhitespaces_le

theorem parsePattern_of_error {fault : Fault} (notEnd : ¬ wrap.isEnd)
    (isFault : (parsePatternElement wrap.skipWhitespaces :
      Cpp (CommandElement Handler × WrapperForParsing)) = .error fault) :
    (parsePattern wrap : Cpp (List (CommandElement Handler) × WrapperForParsing)) =
      .error fault := by
  rw [parsePattern, if_neg notEnd]
  split
  next isFault' =>
    rw [isFault] at isFault'
    cases isFault'
    rfl
  next isElement =>
    rw [isFault] at isElement
    cases isElement

theorem parsePattern_of_ok (notEnd : ¬ wrap.isEnd)
    (isElement : parsePatternElement wrap.skipWhitespaces = .ok (element, rest)) :
    parsePattern wrap = do
      let (elements, last) ← parsePattern rest
      return (element :: elements, last) := by
  rw [parsePattern, if_neg notEnd]
  split
  next isFault =>
    rw [isElement] at isFault
    cases isFault
  next isElement' =>
    rw [isElement] at isElement'
    cases isElement'
    rfl

theorem parsed_of_parsePattern {elements : List (CommandElement Handler)}
    (isOk : parsePattern wrap = .ok (elements, rest)) : ∀ element ∈ elements, element.Parsed := by
  induction wrap using @parsePattern.induct Handler generalizing elements with
  | case1 wrap atEnd =>
    rw [parsePattern, if_pos atEnd] at isOk
    cases isOk
    exact List.forall_mem_nil _
  | case2 wrap notEnd fault isFault =>
    rw [parsePattern_of_error notEnd isFault] at isOk
    cases isOk
  | case3 wrap notEnd element next isElement inductionHypothesis =>
    rw [parsePattern_of_ok notEnd isElement] at isOk
    obtain ⟨⟨restElements, last⟩, restOk, isElements⟩ := bind_eq_ok.mp isOk
    cases isElements
    have headParsed := (parsed_of_parsePatternElement isElement).1
    exact List.forall_mem_cons.mpr ⟨headParsed, inductionHypothesis restOk⟩

end Patterns

/-- `Command`.  The elements are those of some pattern. -/
structure Command (Handler : Type) where
  elements : List (CommandElement Handler)
  handler : Option Handler
  parsed : ∀ element ∈ elements, element.Parsed

section Commands

variable {Handler : Type}

/-- The constructor `Command(klevret_component, pattern, descriptions, handler)`. -/
def Command.construct (pattern : List Char) (handler : Option Handler) : Cpp (Command Handler) :=
  match isOk : parsePattern (.ofString pattern) with
  | .error fault => .error fault
  | .ok (elements, wrap) =>
    if ¬ wrap.isEnd then
      throwRuntimeError "Ошибка парсинга шаблона команды: ожидался конец текста"
    else return ⟨elements, handler, parsed_of_parsePattern isOk⟩

/-! ## The tree -/

abbrev CommandTree (Handler : Type) := RoseTree (CommandElement Handler)

/-- The child that holds the handler of a command. -/
def Command.handlerElement (command : Command Handler) : CommandElement Handler :=
  ⟨.none, [], command.handler⟩

def addCommandToTree (treeRoot : CommandTree Handler) (command : Command Handler) :
    CommandTree Handler :=
  treeRoot.insert CommandElement.key command.handlerElement command.elements

/-- `create_command_tree` for a list of commands. -/
def createCommandTree (commands : List (Command Handler)) : CommandTree Handler :=
  commands.foldl addCommandToTree (.node ⟨.none, [], none⟩ [])

end Commands

end Klevret.Cli
