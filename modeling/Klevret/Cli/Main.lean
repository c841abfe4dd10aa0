import Klevret.Cli.CommandHandlers

/-! # The listing of the commands and the dispatch of an input line (`main.cpp`)

`split` stands for `boost::algorithm::split` at spaces with `token_compress_on`. -/

namespace Klevret.Cli

open Klevret.Base

/-- The parts that a line is cut into. -/
abbrev Split := List Char → List (List Char)

section

variable {Handler : Type}

mutual

/-- `print_tree`: the elements below the root that hold no handler, with two dashes for each level
    above them. -/
def printTree : CommandTree Handler → (tab : ℕ) → List Char
  | .node _ childs, tab => printChilds childs tab

/-- The loop of `print_tree`. -/
def printChilds : List (CommandTree Handler) → (tab : ℕ) → List Char
  | [], _ => []
  | node :: childs, tab =>
    (if node.label.handler.isNone then
        (List.replicate tab "--".toList).flatten ++ node.label.toString ++ ['\n']
      else []) ++
      printTree node (tab + 1) ++ printChilds childs tab

end

/-- Where `analyze_command` is: the node that `current` points to, with the indices of
    the children on the way to it, and the stack. -/
structure Analysis (Handler : Type) where
  path : List ℕ
  current : CommandTree Handler
  stack : CommandElementRealValues

/-- What is pushed for a part that goes down to an element of the type. -/
def realValue (part : List Char) : CommandElementType → Cpp CommandElementRealValue
  | .ipV4Address => do
    let value ← IPv4Address.ofString part
    return .ipV4Address value
  | .ipV6Address => return .ipV6Address (.ofString part)
  | .ipV4SubnetMask => return .ipV4SubnetMask (.ofString part)
  | .ipV6SubnetMask => return .ipV6SubnetMask (.ofString part)
  | _ => return .string part

/-- The first of the children, counted from `index`, that accepts the part. -/
def findChild (part : List Char) (index : ℕ) :
    List (CommandTree Handler) → Cpp (Option (ℕ × CommandTree Handler))
  | [] => return none
  | child :: childs => do
    let accepted ← checkCommandElement part child.label
    if accepted then return some (index, child) else findChild part (index + 1) childs

/-- One turn of the loop over the parts; a part that no child accepts changes nothing. -/
def Analysis.next (analysis : Analysis Handler) (part : List Char) : Cpp (Analysis Handler) := do
  let found ← findChild part 0 analysis.current.children
  match found with
  | none => return analysis
  | some (index, child) =>
    let value ← realValue part child.label.type
    return ⟨analysis.path ++ [index], child, value :: analysis.stack⟩

def analyzeCommand (split : Split) (command : List Char) (root : CommandTree Handler) :
    Cpp (Analysis Handler) :=
  (split command).foldlM Analysis.next ⟨[], root, []⟩

/-- A handler that is called: where it was found, and the stack it is called with. -/
structure HandlerCall (Handler : Type) where
  path : List ℕ
  handler : Handler
  stack : CommandElementRealValues
deriving DecidableEq, Repr

/-- `case Console::ENTER`: the only child of the node must hold a handler. -/
def pressEnter (split : Split) (currentCommandInput : List Char) (root : CommandTree Handler) :
    Cpp (Option (HandlerCall Handler)) := do
  let analysis ← analyzeCommand split currentCommandInput root
  match analysis.current.children with
  | [only] =>
    match only.label.handler with
    | some handler => return some ⟨analysis.path, handler, analysis.stack⟩
    | none => return none
  | _ => return none

end

end Klevret.Cli
