import Klevret.Base.Continuations
import Klevret.Verified.Cli.Registered
import Klevret.Verified.Cli.Shell
import Klevret.Verified.Cli.Tree

/-! # The CLI without its tree

What a line means can be read off the list of the registered commands: a word goes on to the first
continuation that accepts it, and ENTER calls the handler that is the only continuation.  The loop
on the tree is a shell of this kind (`loop_refines_registry`), and what TAB writes are the
continuations (`tab_writes_hints`). -/

namespace Klevret.Verified.Cli

open Klevret.Base Klevret.Cli
open RoseTree (labelsAt nodeAt keepFirst continuation)

section

variable {Handler Calls Effect : Type}

/-! ## Reading a line -/

/-- What can come behind the elements `path`: the handlers of the commands that end there, and the
    next elements of the longer ones, in the order of the commands. -/
def hints (commands : List (Command Handler)) (path : List (CommandElementType × List Char)) :
    List (CommandElement Handler) :=
  keepFirst CommandElement.key isHandler
    (commands.filterMap fun command =>
      continuation CommandElement.key command.handlerElement command.elements path)

/-- The elements that a line has gone past, and the values that it has pushed. -/
structure Reading where
  path : List (CommandElementType × List Char)
  stack : CommandElementRealValues

/-- The first element that accepts the part. -/
def firstAccepting (part : List Char) :
    List (CommandElement Handler) → Cpp (Option (CommandElement Handler))
  | [] => return none
  | element :: elements => do
    let accepted ← checkCommandElement part element
    if accepted then return some element else firstAccepting part elements

def Reading.next (commands : List (Command Handler)) (reading : Reading) (part : List Char) :
    Cpp Reading := do
  let found ← firstAccepting part (hints commands reading.path)
  match found with
  | none => return reading
  | some element =>
    let value ← realValue part element.type
    return ⟨reading.path ++ [element.key], value :: reading.stack⟩

def readLine (split : Split) (commands : List (Command Handler)) (line : List Char) : Cpp Reading :=
  (split line).foldlM (Reading.next commands) ⟨[], []⟩

/-! ## The tree and the list -/

theorem labelsAt_eq_hints (commands : List (Command Handler))
    (path : List (CommandElementType × List Char)) :
    labelsAt CommandElement.key path (createCommandTree commands) = hints commands path :=
  RoseTree.labelsAt_insertions commandAlphabet (fun _ _ => rfl) (fun command _ => command.parsed) _
    path

variable {commands : List (Command Handler)} {part : List Char} {analysis : Analysis Handler}
  {reading : Reading} {split : Split}

/-- The place in the tree and the place in the list are the same. -/
structure Follows (commands : List (Command Handler)) (analysis : Analysis Handler)
    (reading : Reading) : Prop where
  node : nodeAt CommandElement.key reading.path (createCommandTree commands) = some analysis.current
  stack : analysis.stack = reading.stack

theorem Follows.hints_eq (follows : Follows commands analysis reading) :
    hints commands reading.path = analysis.current.children.map RoseTree.label := by
  rw [← labelsAt_eq_hints, labelsAt, follows.node]

/-- Both end with the same fault, or both go on at the same place. -/
inductive FollowsOutcome (commands : List (Command Handler)) :
    Cpp (Analysis Handler) → Cpp Reading → Prop where
  | fault (fault : Fault) : FollowsOutcome commands (.error fault) (.error fault)
  | ok {analysis : Analysis Handler} {reading : Reading}
      (follows : Follows commands analysis reading) :
      FollowsOutcome commands (.ok analysis) (.ok reading)

/-- The children are tried like the hints. -/
theorem firstAccepting_map (index : ℕ) (childs : List (CommandTree Handler)) :
    firstAccepting part (childs.map RoseTree.label) =
      (findChild part index childs).map (Option.map fun found => found.2.label) := by
  induction childs generalizing index with
  | nil => rfl
  | cons child childs inductionHypothesis =>
    rw [List.map_cons, firstAccepting, findChild]
    cases checkCommandElement part child.label with
    | error fault => rfl
    | ok accepted =>
      cases accepted with
      | true => rfl
      | false => exact inductionHypothesis (index + 1)

/-- The child that is found is the one that its key leads to. -/
theorem child_of_findChild {current child : CommandTree Handler} {index : ℕ}
    (found : findChild part 0 current.children = .ok (some (index, child))) :
    RoseTree.child CommandElement.key child.label.key current = some child := by
  obtain ⟨before, after, isSplit, passed, accepted, _⟩ := findChild_eq_some_iff.mp found
  -- a child before it with the same key would have accepted the part
  rw [RoseTree.child, isSplit, List.find?_append, List.find?_cons_of_pos (by simp),
    List.find?_eq_none.mpr, Option.none_or]
  intro other isBefore
  rw [decide_eq_true_eq]
  intro sameKey
  exact not_rejects_of_accepts part child.label other.label sameKey.symm accepted
    (passed other isBefore)

theorem nodeAt_append {path : List (CommandElementType × List Char)} {root current : CommandTree Handler}
    (isCurrent : nodeAt CommandElement.key path root = some current)
    (step : CommandElementType × List Char) :
    nodeAt CommandElement.key (path ++ [step]) root = RoseTree.child CommandElement.key step current := by
  induction path generalizing root with
  | nil =>
    obtain rfl : root = current := Option.some.inj isCurrent
    change (RoseTree.child CommandElement.key step root).bind (nodeAt CommandElement.key []) = _
    cases RoseTree.child CommandElement.key step root with
    | none => rfl
    | some child => rfl
  | cons first path inductionHypothesis =>
    obtain ⟨child, isChild, rest⟩ := Option.bind_eq_some_iff.mp isCurrent
    change (RoseTree.child CommandElement.key first root).bind _ = _
    rw [isChild]
    exact inductionHypothesis rest

theorem follows_next (follows : Follows commands analysis reading) (part : List Char) :
    FollowsOutcome commands (analysis.next part) (reading.next commands part) := by
  have tried := @firstAccepting_map _ part 0 analysis.current.children
  rw [← follows.hints_eq] at tried
  rw [Analysis.next, Reading.next, tried]
  cases found : findChild part 0 analysis.current.children with
  | error fault => exact .fault fault
  | ok result =>
    cases result with
    | none => exact .ok follows
    | some entered =>
      obtain ⟨index, child⟩ := entered
      have isChild := child_of_findChild found
      -- both read the value of the part off the same element
      change FollowsOutcome commands
        (realValue part child.label.type >>= fun value => _)
        (realValue part child.label.type >>= fun value => _)
      cases realValue part child.label.type with
      | error fault => exact .fault fault
      | ok value =>
        refine .ok ⟨?_, ?_⟩
        · exact (nodeAt_append follows.node child.label.key).trans isChild
        · exact congrArg (value :: ·) follows.stack

theorem follows_foldlM (follows : Follows commands analysis reading) (parts : List (List Char)) :
    FollowsOutcome commands (parts.foldlM Analysis.next analysis)
      (parts.foldlM (Reading.next commands) reading) := by
  induction parts generalizing analysis reading with
  | nil => exact .ok follows
  | cons part parts inductionHypothesis =>
    rw [List.foldlM_cons, List.foldlM_cons]
    have stepFollows := follows_next follows part
    generalize analysis.next part = nextAnalysis at stepFollows ⊢
    generalize reading.next commands part = nextReading at stepFollows ⊢
    cases stepFollows with
    | fault fault => exact .fault fault
    | ok follows => exact inductionHypothesis follows

/-- A line is analysed on the tree as it is read off the list. -/
theorem follows_analyzeCommand (split : Split) (commands : List (Command Handler)) (line : List Char) :
    FollowsOutcome commands (analyzeCommand split line (createCommandTree commands))
      (readLine split commands line) :=
  follows_foldlM ⟨rfl, rfl⟩ (split line)

/-! ## The shell on the list -/

/-- What the registered commands do with a line. -/
def registryInterpreter (split : Split) (commands : List (Command Handler))
    (perform : Calls → Handler → CommandElementRealValues → Cpp Effect) :
    Interpreter Calls Effect where
  lookUp text := (readLine split commands text).map fun _ => ()
  execute calls text :=
    match readLine split commands text with
    | .error fault => .error fault
    | .ok reading =>
      match hints commands reading.path with
      | [only] =>
        match only.handler with
        | some handler => (perform calls handler reading.stack).map some
        | none => .ok none
      | _ => .ok none

/-- The handlers of a tree, none of which knows where in the tree it is. -/
def performHandler (perform : Calls → Handler → CommandElementRealValues → Cpp Effect)
    (calls : Calls) (call : HandlerCall Handler) : Cpp Effect :=
  perform calls call.handler call.stack

theorem commandInterpreter_registry (split : Split) (commands : List (Command Handler))
    (perform : Calls → Handler → CommandElementRealValues → Cpp Effect) :
    commandInterpreter split (createCommandTree commands) (performHandler perform) =
      registryInterpreter split commands perform := by
  have sameLookUp : ∀ text,
      (commandInterpreter split (createCommandTree commands) (performHandler perform)).lookUp text =
        (registryInterpreter split commands perform).lookUp text := by
    intro text
    have follows := follows_analyzeCommand split commands text
    simp only [commandInterpreter, registryInterpreter]
    generalize analyzeCommand split text (createCommandTree commands) = analyzed at follows ⊢
    generalize readLine split commands text = read at follows ⊢
    cases follows with
    | fault fault => rfl
    | ok follows => rfl
  have sameExecute : ∀ calls text,
      (commandInterpreter split (createCommandTree commands) (performHandler perform)).execute calls
          text =
        (registryInterpreter split commands perform).execute calls text := by
    intro calls text
    have follows := follows_analyzeCommand split commands text
    simp only [commandInterpreter, registryInterpreter, pressEnter]
    generalize analyzeCommand split text (createCommandTree commands) = analyzed at follows ⊢
    generalize readLine split commands text = read at follows ⊢
    cases follows with
    | fault fault => rfl
    | @ok analysis reading follows =>
      simp only [ok_bind, follows.hints_eq, ← follows.stack]
      -- a handler is called when it is the only one to go on with
      cases analysis.current.children with
      | nil => rfl
      | cons only others =>
        cases others with
        | cons other others => rfl
        | nil =>
          simp only [List.map_cons, List.map_nil]
          cases only.label.handler with
          | none => rfl
          | some handler => rfl
  exact Interpreter.ext (funext sameLookUp) (funext fun calls => funext (sameExecute calls))

/-- The loop on the tree of some commands is a shell on the list of them. -/
theorem loop_refines_registry (split : Split) (commands : List (Command Handler))
    (perform : Calls → Handler → CommandElementRealValues → Cpp Effect)
    (inputs : List (SessionInput Calls)) :
    (KeyLoop.machine split (createCommandTree commands) (performHandler perform)).outputs
          (.ok .start) inputs =
        (registryInterpreter split commands perform).shell.outputs (.ok .empty)
          (shellInputs inputs) ∧
      ((KeyLoop.machine split (createCommandTree commands) (performHandler perform)).run
          (.ok .start) inputs).map typedLine =
        (registryInterpreter split commands perform).shell.run (.ok .empty) (shellInputs inputs) := by
  rw [← commandInterpreter_registry, ← map_typedLine_start]
  exact outcome_refined inLineIfOk_start inputs

/-! ## What TAB writes -/

variable {loop : KeyLoop}

/-- The calls of `print_title`. -/
def titleCalls (oldColor : Color) : List ConsoleCall :=
  [.changeTextColor .green, .writeStr "klevret> ".toList, .changeTextColor oldColor]

/-- What TAB does to the terminal: the hints, a line each, and the line that is typed again. -/
def tabCalls (console : Console) (hints : List (CommandElement Handler)) : List ConsoleCall :=
  [.moveCursorToLeft 1, .clearLineFromCursorPosition, .writeStr ['\n']]
    ++ hints.map (fun element => .writeStr (element.toString ++ ['\n']))
    ++ [.writeStr ['\r']] ++ titleCalls console.currentTextColor
    ++ [.writeStr console.currentCommandInput]

/-- The loop has its hints written. -/
theorem foldl_writeStr (childs : List (CommandTree Handler)) (console : Console) :
    childs.foldl (fun console node => console.writeStr (node.label.toString ++ ['\n'])) console =
      { console with
        calls := console.calls ++
          (childs.map RoseTree.label).map fun element => .writeStr (element.toString ++ ['\n']) } := by
  induction childs generalizing console with
  | nil => simp
  | cons child childs inductionHypothesis =>
    rw [List.foldl_cons, inductionHypothesis]
    simp [Console.writeStr]

/-- The loop behind a TAB. -/
def afterTab (loop : KeyLoop) (hints : List (CommandElement Handler)) : KeyLoop :=
  { loop with
    console := { loop.console with calls := loop.console.calls ++ tabCalls loop.console hints } }

theorem pressTab_eq (unset : PrevUnset loop) :
    loop.pressTab split (createCommandTree commands) =
      (readLine split commands loop.console.currentCommandInput).map fun reading =>
        afterTab loop (hints commands reading.path) := by
  have follows := follows_analyzeCommand split commands loop.console.currentCommandInput
  unfold KeyLoop.pressTab
  change (analyzeCommand split loop.console.currentCommandInput (createCommandTree commands) >>=
    fun analysis => _) = _
  generalize analyzeCommand split loop.console.currentCommandInput (createCommandTree commands) =
    analyzed at follows ⊢
  generalize readLine split commands loop.console.currentCommandInput = read at follows ⊢
  cases follows with
  | fault fault => rfl
  | @ok analysis reading follows =>
    have sameHints := follows.hints_eq
    simp only [ok_bind, foldl_writeStr, ← sameHints]
    rw [if_neg unset]
    refine congrArg Except.ok ?_
    simp [afterTab, tabCalls, titleCalls, Console.printTitle, Console.changeTextColor,
      Console.writeStr, Console.moveCursorToLeft, Console.clearLineFromCursorPosition]

/-- In every session, TAB writes what the line can go on with, one continuation a line, and then
    the prompt and the line again. -/
theorem tab_writes_hints (split : Split) (commands : List (Command Handler))
    (perform : Calls → Handler → CommandElementRealValues → Cpp Effect)
    (inputs : List (SessionInput Calls)) {loop : KeyLoop} {tab : SessionInput Calls}
    (reached : (KeyLoop.machine split (createCommandTree commands) (performHandler perform)).run
      (.ok .start) inputs = .ok loop)
    (isTab : tab.press.c = some Console.TAB) :
    (KeyLoop.machine split (createCommandTree commands) (performHandler perform)).next (.ok loop) tab =
      (readLine split commands loop.console.currentCommandInput).map fun reading =>
        afterTab loop (hints commands reading.path) := by
  have inLine : InLineIfOk (.ok loop) := by
    rw [← reached]
    exact Machine.run_invariant
      (fun outcome input inLine => (matches_outcome outcome inLine input).2.2) inLineIfOk_start inputs
  obtain ⟨⟨key, ch1, ch2⟩, calls⟩ := tab
  obtain rfl : key = some Console.TAB := isTab
  exact pressTab_eq (inLine loop rfl).unset

/-- A key that is no sequence. -/
def sampleKey (c : Char) : SessionInput Unit := ⟨⟨some c, none, none⟩, ()⟩

/-- The loop behind the keys `i` and `p`. -/
def sampleLoop : KeyLoop where
  console := ⟨"ip".toList, 2, .white, titleCalls .white⟩
  prev := Char.ofNat 0

/-- Behind `ip` one command ends and another one goes on. -/
theorem tab_behind_ip :
    (KeyLoop.machine (cutAtRuns ' ') (createCommandTree [ip, ipShow])
        (performHandler fun _ _ _ => .ok ())).next (.ok sampleLoop) (sampleKey Console.TAB) =
      .ok (afterTab sampleLoop [ip.handlerElement, .new .fixedWord "show".toList]) := by
  have reached : (KeyLoop.machine (cutAtRuns ' ') (createCommandTree [ip, ipShow])
      (performHandler fun _ _ _ => .ok ())).run (.ok .start) [sampleKey 'i', sampleKey 'p'] =
        .ok sampleLoop := rfl
  rw [tab_writes_hints (cutAtRuns ' ') [ip, ipShow] (fun _ _ _ => .ok ()) _ reached rfl]
  rfl

end

end Klevret.Verified.Cli
