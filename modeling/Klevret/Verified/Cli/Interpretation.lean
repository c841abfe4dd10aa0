import Klevret.Verified.Cli.Shell
import Klevret.Verified.Cli.Shipped

/-! # What the shipped commands make of a line

The words of a line lead from place to place (`Place.next`); a word that leads nowhere is passed
over, and behind a command all words are.  The analysis of a line in the tree of the shipped
commands is this walk (`analyzeCommand_shipped`): it never throws, and ENTER calls a handler
exactly where the words have led to an instruction. -/

namespace Klevret.Verified.Cli

open Klevret.Base Klevret.Cli

/-! ## Instructions -/

/-- What a line can ask for. -/
inductive Instruction where
  | version
  | blank
  | ipAddress (ip : IPv4Address)
  | dhcpPoolCreate (ipStart ipEnd : IPv4Address)
deriving DecidableEq, Repr

def Instruction.perform (calls : SystemCalls) : Instruction → Cpp HandlerEffect
  | .version => .ok (.written "Клеврет. Версия 0.1 (в разработке)\n")
  | .blank => .ok (.written "пустая команда\n")
  | .ipAddress ip => sendCmd calls .core
      [("component", "dhcp".toList), ("cmd", "ip.address".toList), ("ip", ip.toString)]
  | .dhcpPoolCreate ipStart ipEnd => sendCmd calls .core
      [("component", "dhcp".toList), ("cmd", "dhcp.pool.create".toList),
        ("ip_start", ipStart.toString), ("ip_end", ipEnd.toString)]

/-- The address that a word is. -/
def readAddress (word : List Char) : Option IPv4Address :=
  if parseIpV4Address word then (IPv4Address.ofString word).toOption else none

/-- How far the words have led. -/
inductive Place where
  | start
  | version
  | ip
  | ipShow
  | ipAddress
  | ipAddressShow
  | ipAddressOf (ip : IPv4Address)
  | dhcp
  | dhcpPool
  | dhcpPoolCreate
  | dhcpPoolFrom (ipStart : IPv4Address)
  | dhcpPoolOf (ipStart ipEnd : IPv4Address)
deriving DecidableEq, Repr

namespace Place

/-- The place behind one more word. -/
def next (place : Place) (word : List Char) : Place :=
  match place with
  | start =>
    if word = "version".toList then version
    else if word = "ip".toList then ip
    else if word = "dhcp".toList then dhcp
    else start
  | ip =>
    if word = "show".toList then ipShow
    else if word = "address".toList then ipAddress
    else ip
  | ipAddress =>
    if word = "show".toList then ipAddressShow
    else ((readAddress word).map ipAddressOf).getD ipAddress
  | dhcp => if word = "pool".toList then dhcpPool else dhcp
  | dhcpPool => if word = "create".toList then dhcpPoolCreate else dhcpPool
  | dhcpPoolCreate => ((readAddress word).map dhcpPoolFrom).getD dhcpPoolCreate
  | dhcpPoolFrom ipStart => ((readAddress word).map (dhcpPoolOf ipStart)).getD (dhcpPoolFrom ipStart)
  | version | ipShow | ipAddressShow | ipAddressOf _ | dhcpPoolOf _ _ => place

def instruction : Place → Option Instruction
  | version => some .version
  | ipShow | ipAddressShow => some .blank
  | ipAddressOf address => some (.ipAddress address)
  | dhcpPoolOf ipStart ipEnd => some (.dhcpPoolCreate ipStart ipEnd)
  | start | ip | ipAddress | dhcp | dhcpPool | dhcpPoolCreate | dhcpPoolFrom _ => none

end Place

/-- What the words of a line ask for. -/
def interpret (words : List (List Char)) : Option Instruction :=
  (words.foldl Place.next .start).instruction

/-! ## The tree of the shipped commands -/

section Tree

abbrev ShippedTree := CommandTree CommandHandler

def wordElement (word : String) : CommandElement CommandHandler := .new .fixedWord word.toList

def addressElement : CommandElement CommandHandler := .new .ipV4Address []

def handlerElement (handler : CommandHandler) : CommandElement CommandHandler :=
  ⟨.none, [], some handler⟩

/-- The elements of the shipped commands, and the elements that hold their handlers. -/
def shippedPaths : List (List (CommandElement CommandHandler) × CommandElement CommandHandler) :=
  [([wordElement "version"], handlerElement .cmdVersion),
    ([wordElement "ip", wordElement "show"], handlerElement .blank),
    ([wordElement "ip", wordElement "address", wordElement "show"], handlerElement .blank),
    ([wordElement "ip", wordElement "address", addressElement], handlerElement .cmdIpAddressIpV4),
    ([wordElement "dhcp", wordElement "pool", wordElement "create", addressElement, addressElement],
      handlerElement .cmdDhcpPoolCreate)]

def wordValue (word : String) : CommandElementRealValue := .string word.toList

def handlerNode (handler : CommandHandler) : ShippedTree := .node (handlerElement handler) []

def wordNode (word : String) (children : List ShippedTree) : ShippedTree :=
  .node (wordElement word) children

def addressNode (children : List ShippedTree) : ShippedTree := .node addressElement children

def ipAddressNode : ShippedTree :=
  wordNode "address" [wordNode "show" [handlerNode .blank],
    addressNode [handlerNode .cmdIpAddressIpV4]]

def ipNode : ShippedTree := wordNode "ip" [wordNode "show" [handlerNode .blank], ipAddressNode]

def dhcpPoolFromNode : ShippedTree := addressNode [addressNode [handlerNode .cmdDhcpPoolCreate]]

def dhcpPoolNode : ShippedTree := wordNode "pool" [wordNode "create" [dhcpPoolFromNode]]

def shippedTree : ShippedTree :=
  .node ⟨.none, [], none⟩
    [wordNode "version" [handlerNode .cmdVersion], ipNode, wordNode "dhcp" [dhcpPoolNode]]

theorem createCommandTree_eq_foldl {Handler : Type} (commands : List (Command Handler)) :
    createCommandTree commands =
      (commands.map fun command => (command.elements, command.handlerElement)).foldl
        (fun tree path => tree.insert CommandElement.key path.2 path.1)
        (.node ⟨.none, [], none⟩ []) := by
  rw [List.foldl_map]
  rfl

/-- The tree that `main` makes. -/
theorem createCommandTree_allCommands :
    ∃ commands, allCommands = .ok commands ∧ createCommandTree commands = shippedTree := by
  have parsed : (do
      let commands ← allCommands
      return commands.map fun (command : Command CommandHandler) =>
        (command.elements, command.handlerElement)) = .ok shippedPaths := by
    decide +kernel
  obtain ⟨commands, isOk, isPaths⟩ := bind_eq_ok.mp parsed
  refine ⟨commands, isOk, ?_⟩
  -- the proofs that commands carry are of no account for the tree
  rw [createCommandTree_eq_foldl, Except.ok.inj isPaths]
  rfl

/-! ## One word -/

section Word

variable {word : List Char} {text : String} {index : ℕ} {children rest : List ShippedTree}
  {child : ShippedTree} {analysis : Analysis CommandHandler} {value : CommandElementRealValue}

theorem findChild_handlerNode (word : List Char) (index : ℕ) (handler : CommandHandler) :
    findChild word index [handlerNode handler] = .ok none := rfl

theorem findChild_wordNode :
    findChild word index (wordNode text children :: rest) =
      if word = text.toList then .ok (some (index, wordNode text children))
      else findChild word (index + 1) rest := by
  have checked : checkCommandElement word (wordNode text children).label =
      .ok (decide (text.toList = word)) := rfl
  rw [findChild, checked, ok_bind]
  by_cases same : word = text.toList
  · simp [same]
  · simp [same, Ne.symm same]

theorem findChild_addressNode :
    findChild word index (addressNode children :: rest) =
      if parseIpV4Address word then .ok (some (index, addressNode children))
      else findChild word (index + 1) rest := rfl

theorem next_of_none (found : findChild word 0 analysis.current.children = .ok none) :
    analysis.next word = .ok analysis := by
  rw [Analysis.next, found]
  rfl

theorem next_of_some
    (found : findChild word 0 analysis.current.children = .ok (some (index, child)))
    (isValue : realValue word child.label.type = .ok value) :
    analysis.next word = .ok ⟨analysis.path ++ [index], child, value :: analysis.stack⟩ := by
  rw [Analysis.next, found, ok_bind]
  dsimp only
  rw [isValue]
  rfl

end Word

namespace Place

/-- The node of the tree. -/
def node : Place → ShippedTree
  | start => shippedTree
  | version => wordNode "version" [handlerNode .cmdVersion]
  | ip => ipNode
  | ipShow | ipAddressShow => wordNode "show" [handlerNode .blank]
  | ipAddress => ipAddressNode
  | ipAddressOf _ => addressNode [handlerNode .cmdIpAddressIpV4]
  | dhcp => wordNode "dhcp" [dhcpPoolNode]
  | dhcpPool => dhcpPoolNode
  | dhcpPoolCreate => wordNode "create" [dhcpPoolFromNode]
  | dhcpPoolFrom _ => dhcpPoolFromNode
  | dhcpPoolOf _ _ => addressNode [handlerNode .cmdDhcpPoolCreate]

def path : Place → List ℕ
  | start => []
  | version => [0]
  | ip => [1]
  | ipShow => [1, 0]
  | ipAddress => [1, 1]
  | ipAddressShow => [1, 1, 0]
  | ipAddressOf _ => [1, 1, 1]
  | dhcp => [2]
  | dhcpPool => [2, 0]
  | dhcpPoolCreate => [2, 0, 0]
  | dhcpPoolFrom _ => [2, 0, 0, 0]
  | dhcpPoolOf _ _ => [2, 0, 0, 0, 0]

/-- The words that have led here. -/
def values : Place → CommandElementRealValues
  | start => []
  | version => [wordValue "version"]
  | ip => [wordValue "ip"]
  | ipShow => [wordValue "ip", wordValue "show"]
  | ipAddress => [wordValue "ip", wordValue "address"]
  | ipAddressShow => [wordValue "ip", wordValue "address", wordValue "show"]
  | ipAddressOf address => [wordValue "ip", wordValue "address", .ipV4Address address]
  | dhcp => [wordValue "dhcp"]
  | dhcpPool => [wordValue "dhcp", wordValue "pool"]
  | dhcpPoolCreate => [wordValue "dhcp", wordValue "pool", wordValue "create"]
  | dhcpPoolFrom ipStart =>
    [wordValue "dhcp", wordValue "pool", wordValue "create", .ipV4Address ipStart]
  | dhcpPoolOf ipStart ipEnd =>
    [wordValue "dhcp", wordValue "pool", wordValue "create", .ipV4Address ipStart,
      .ipV4Address ipEnd]

def analysis (place : Place) : Analysis CommandHandler :=
  ⟨path place, node place, (values place).reverse⟩

theorem readAddress_cases (word : List Char) :
    (parseIpV4Address word = false ∧ readAddress word = none) ∨
      ∃ address, parseIpV4Address word = true ∧ IPv4Address.ofString word = .ok address ∧
        readAddress word = some address := by
  unfold readAddress
  cases accepted : parseIpV4Address word with
  | false => exact Or.inl ⟨rfl, rfl⟩
  | true =>
    obtain ⟨_, address, _, isAddress, _⟩ := readers_agree word accepted
    exact Or.inr ⟨address, rfl, isAddress, by rw [isAddress]; rfl⟩

/-- A place that an address leads on from. -/
theorem next_address {place : Place} {arrived : IPv4Address → Place} {index : ℕ}
    {children : List ShippedTree} {word : List Char}
    (found : findChild word 0 place.node.children =
      if parseIpV4Address word then .ok (some (index, addressNode children)) else .ok none)
    (arrives : ∀ address, (arrived address).analysis =
      ⟨place.path ++ [index], addressNode children, .ipV4Address address :: place.values.reverse⟩) :
    place.analysis.next word = .ok (((readAddress word).map arrived).getD place).analysis := by
  obtain ⟨refused, isNone⟩ | ⟨address, accepted, isAddress, isSome⟩ := readAddress_cases word
  · rw [if_neg (by rw [refused]; exact Bool.false_ne_true)] at found
    rw [isNone]
    exact next_of_none found
  · have isValue : realValue word (addressNode children).label.type = .ok (.ipV4Address address) := by
      change (IPv4Address.ofString word >>= _) = _
      rw [isAddress]
      rfl
    rw [if_pos accepted] at found
    rw [isSome, Option.map_some, Option.getD_some, arrives]
    exact next_of_some found isValue

/-- One word, in the analysis and in the walk. -/
theorem next_analysis (place : Place) (word : List Char) :
    place.analysis.next word = .ok (place.next word).analysis := by
  cases place with
  | version | ipShow | ipAddressShow | ipAddressOf address | dhcpPoolOf ipStart ipEnd =>
    -- the only child holds the handler, and no word is accepted there
    exact next_of_none (findChild_handlerNode _ _ _)
  | start =>
    by_cases isVersion : word = "version".toList
    · subst isVersion
      rfl
    by_cases isIp : word = "ip".toList
    · subst isIp
      rfl
    by_cases isDhcp : word = "dhcp".toList
    · subst isDhcp
      rfl
    · simp only [next, if_neg isVersion, if_neg isIp, if_neg isDhcp]
      apply next_of_none
      change findChild word 0 [wordNode "version" _, wordNode "ip" _, wordNode "dhcp" _] = _
      simp only [findChild_wordNode, if_neg isVersion, if_neg isIp, if_neg isDhcp]
      rfl
  | ip =>
    by_cases isShow : word = "show".toList
    · subst isShow
      rfl
    by_cases isAddress : word = "address".toList
    · subst isAddress
      rfl
    · simp only [next, if_neg isShow, if_neg isAddress]
      apply next_of_none
      change findChild word 0 [wordNode "show" _, wordNode "address" _] = _
      simp only [findChild_wordNode, if_neg isShow, if_neg isAddress]
      rfl
  | ipAddress =>
    by_cases isShow : word = "show".toList
    · subst isShow
      rfl
    simp only [next, if_neg isShow]
    refine next_address ?_ fun _ => rfl
    change findChild word 0 [wordNode "show" _, addressNode _] = _
    rw [findChild_wordNode, if_neg isShow]
    exact findChild_addressNode
  | dhcp =>
    by_cases isPool : word = "pool".toList
    · subst isPool
      rfl
    · simp only [next, if_neg isPool]
      apply next_of_none
      change findChild word 0 [wordNode "pool" _] = _
      rw [findChild_wordNode, if_neg isPool]
      rfl
  | dhcpPool =>
    by_cases isCreate : word = "create".toList
    · subst isCreate
      rfl
    · simp only [next, if_neg isCreate]
      apply next_of_none
      change findChild word 0 [wordNode "create" _] = _
      rw [findChild_wordNode, if_neg isCreate]
      rfl
  | dhcpPoolCreate => exact next_address findChild_addressNode fun _ => rfl
  | dhcpPoolFrom ipStart => exact next_address findChild_addressNode fun _ => rfl

end Place

/-! ## Lines -/

variable {split : Split} {line : List Char}

theorem foldlM_next_analysis (place : Place) (words : List (List Char)) :
    words.foldlM Analysis.next place.analysis = .ok (words.foldl Place.next place).analysis := by
  induction words generalizing place with
  | nil => rfl
  | cons word words inductionHypothesis =>
    rw [List.foldlM_cons, Place.next_analysis, ok_bind, inductionHypothesis, List.foldl_cons]

theorem analyzeCommand_shipped : analyzeCommand split line shippedTree =
    .ok ((split line).foldl Place.next .start).analysis :=
  foldlM_next_analysis .start (split line)

/-- The handler for what a line asks for. -/
def Instruction.handler : Instruction → CommandHandler
  | version => .cmdVersion
  | blank => .blank
  | ipAddress _ => .cmdIpAddressIpV4
  | dhcpPoolCreate _ _ => .cmdDhcpPoolCreate

/-- The handler that is called at a place. -/
def Place.call (place : Place) : Option (HandlerCall CommandHandler) :=
  place.instruction.map fun instruction =>
    ⟨place.path, instruction.handler, place.values.reverse⟩

theorem pressEnter_shipped : pressEnter split line shippedTree =
    .ok ((split line).foldl Place.next .start).call := by
  rw [pressEnter, analyzeCommand_shipped, ok_bind]
  cases (split line).foldl Place.next .start with
  | start | version | ip | ipShow | ipAddress | ipAddressShow | ipAddressOf address | dhcp | dhcpPool
    | dhcpPoolCreate | dhcpPoolFrom ipStart | dhcpPoolOf ipStart ipEnd => rfl

/-- The handler finds on the stack what the line asks for. -/
theorem performShipped_call {place : Place} {call : HandlerCall CommandHandler}
    (called : place.call = some call) (calls : SystemCalls) :
    ∃ instruction, place.instruction = some instruction ∧
      performShipped calls call = instruction.perform calls := by
  obtain ⟨instruction, isInstruction, rfl⟩ := Option.map_eq_some_iff.mp called
  refine ⟨instruction, isInstruction, ?_⟩
  cases place with
  | version | ipShow | ipAddressShow | ipAddressOf address | dhcpPoolOf ipStart ipEnd =>
    cases isInstruction
    rfl
  | start | ip | ipAddress | dhcp | dhcpPool | dhcpPoolCreate | dhcpPoolFrom ipStart =>
    cases isInstruction

/-! ## Sessions -/

/-- What the shipped commands do with a line. -/
def shippedInterpreter (split : Split) : Interpreter SystemCalls HandlerEffect where
  lookUp _ := .ok ()
  execute calls text :=
    match interpret (split text) with
    | none => .ok none
    | some instruction => (instruction.perform calls).map some

theorem commandInterpreter_shipped (split : Split) :
    commandInterpreter split shippedTree performShipped = shippedInterpreter split := by
  have sameLookUp : (commandInterpreter split shippedTree performShipped).lookUp =
      (shippedInterpreter split).lookUp := by
    funext text
    simp only [commandInterpreter, shippedInterpreter, analyzeCommand_shipped]
    rfl
  have sameExecute : (commandInterpreter split shippedTree performShipped).execute =
      (shippedInterpreter split).execute := by
    funext calls text
    simp only [commandInterpreter, shippedInterpreter, pressEnter_shipped, interpret]
    cases called : ((split text).foldl Place.next .start).call with
    | none => rw [Option.map_eq_none_iff.mp called]
    | some call =>
      obtain ⟨instruction, isInstruction, same⟩ := performShipped_call called calls
      rw [isInstruction]
      exact congrArg (Except.map some) same
  exact Interpreter.ext sameLookUp sameExecute

theorem shipped_session (split : Split) :
    ∃ commands, allCommands = .ok commands ∧ ∀ inputs : List (SessionInput SystemCalls),
      (KeyLoop.machine split (createCommandTree commands) performShipped).outputs (.ok .start) inputs =
          (shippedInterpreter split).shell.outputs (.ok .empty) (shellInputs inputs) ∧
        ((KeyLoop.machine split (createCommandTree commands) performShipped).run (.ok .start)
            inputs).map typedLine =
          (shippedInterpreter split).shell.run (.ok .empty) (shellInputs inputs) := by
  obtain ⟨commands, isOk, isTree⟩ := createCommandTree_allCommands
  refine ⟨commands, isOk, ?_⟩
  intro inputs
  rw [isTree, ← commandInterpreter_shipped, ← map_typedLine_start]
  exact outcome_refined inLineIfOk_start inputs

end Tree

end Klevret.Verified.Cli
