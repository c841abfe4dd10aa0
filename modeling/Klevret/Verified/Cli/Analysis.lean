import Klevret.Base.Descent
import Klevret.Cli.Main
import Klevret.Verified.Cli.Readers

/-! # What the analysis of a line computes

`analyze_command` descends the tree along the parts of the line, and its stack holds
the values of the parts that went down (`analyzeCommand_eq_ok_iff`). -/

namespace Klevret.Verified.Cli

open Klevret.Base Klevret.Cli
open RoseTree (Descends Leads Move Picks)

section Analysis

variable {Handler : Type} {part : List Char} {element : CommandElement Handler}
  {forest : List (CommandTree Handler)} {child root current last : CommandTree Handler}
  {index : ℕ} {analysis result : Analysis Handler} {moves : List (Move (List Char) (CommandElement Handler))}

def Accepts (part : List Char) (element : CommandElement Handler) : Prop :=
  checkCommandElement part element = .ok true

def Rejects (part : List Char) (element : CommandElement Handler) : Prop :=
  checkCommandElement part element = .ok false

/-! ## One part -/

theorem findChild_eq_none_iff :
    findChild part index forest = .ok none ↔ ∀ child ∈ forest, Rejects part child.label := by
  induction forest generalizing index with
  | nil => exact iff_of_true rfl (List.forall_mem_nil _)
  | cons child forest inductionHypothesis =>
    rw [List.forall_mem_cons, ← @inductionHypothesis (index + 1), findChild, Rejects]
    cases checkCommandElement part child.label with
    | error fault => simp
    | ok accepted => cases accepted <;> simp

/-- The child that is found is the first that accepts the part. -/
theorem findChild_eq_some_iff {found : ℕ} :
    findChild part index forest = .ok (some (found, child)) ↔
      ∃ before after, forest = before ++ child :: after ∧
        (∀ other ∈ before, Rejects part other.label) ∧ Accepts part child.label ∧
          found = index + before.length := by
  induction forest generalizing index with
  | nil =>
    refine iff_of_false (by rw [findChild]; exact nofun) ?_
    intro ⟨before, after, split, _⟩
    cases before <;> cases split
  | cons first forest inductionHypothesis =>
    rw [findChild]
    constructor
    · intro isFound
      obtain ⟨accepted, checked, rest⟩ := bind_eq_ok.mp isFound
      cases accepted with
      | true =>
        cases rest
        exact ⟨[], forest, rfl, List.forall_mem_nil _, checked, rfl⟩
      | false =>
        obtain ⟨before, after, rfl, passed, isAccepted, isIndex⟩ := inductionHypothesis.mp rest
        refine ⟨first :: before, after, rfl, List.forall_mem_cons.mpr ⟨checked, passed⟩, isAccepted, ?_⟩
        rw [isIndex, List.length_cons]
        omega
    · intro ⟨before, after, split, passed, isAccepted, isIndex⟩
      cases before with
      | nil =>
        cases split
        rw [isAccepted, ok_bind, isIndex]
        rfl
      | cons other before =>
        cases split
        obtain ⟨firstRejected, restRejected⟩ := List.forall_mem_cons.mp passed
        rw [firstRejected, ok_bind, if_neg Bool.false_ne_true]
        apply inductionHypothesis.mpr
        refine ⟨before, after, rfl, restRejected, isAccepted, ?_⟩
        rw [isIndex, List.length_cons]
        omega

/-! ## The value of a part -/

/-- The value has the alternative that belongs to the type, and is built from the part. -/
def BuiltFrom (part : List Char) (type : CommandElementType) (value : CommandElementRealValue) :
    Prop :=
  match type with
  | .ipV4Address => ∃ address, IPv4Address.ofString part = .ok address ∧ value = .ipV4Address address
  | .ipV6Address => value = .ipV6Address (.ofString part)
  | .ipV4SubnetMask => value = .ipV4SubnetMask (.ofString part)
  | .ipV6SubnetMask => value = .ipV6SubnetMask (.ofString part)
  | .none | .fixedWord | .string | .name => value = .string part

theorem realValue_eq_ok_iff {type : CommandElementType} {value : CommandElementRealValue} :
    realValue part type = .ok value ↔ BuiltFrom part type value := by
  cases type with
  | ipV4Address =>
    rw [realValue, bind_eq_ok]
    constructor
    · intro ⟨address, isAddress, isValue⟩
      cases isValue
      exact ⟨address, isAddress, rfl⟩
    · intro ⟨address, isAddress, isValue⟩
      exact ⟨address, isAddress, by rw [isValue]; rfl⟩
  | none | fixedWord | string | name | ipV4SubnetMask | ipV6Address | ipV6SubnetMask =>
    simp only [realValue, BuiltFrom, pure_eq_ok, Except.ok.injEq]
    exact eq_comm

/-- The constructors of the values accept what the elements accept. -/
theorem exists_builtFrom (accepted : Accepts part element) :
    ∃ value, BuiltFrom part element.type value := by
  unfold Accepts checkCommandElement at accepted
  cases isType : element.type with
  | ipV4Address =>
    rw [isType] at accepted
    cases accepts : parseIpV4Address part with
    | false =>
      rw [accepts] at accepted
      cases accepted
    | true =>
      obtain ⟨values, isValues⟩ := Option.isSome_iff_exists.mp accepts
      obtain ⟨address, isAddress, _⟩ := ofString_of_validated isValues
      exact ⟨_, address, isAddress, rfl⟩
  | none | fixedWord | string | name | ipV4SubnetMask | ipV6Address | ipV6SubnetMask =>
    exact ⟨_, rfl⟩

/-! ## One turn of the loop -/

/-- The two things that a part can do. -/
theorem next_eq_ok_iff :
    analysis.next part = .ok result ↔
      ((∀ child ∈ analysis.current.children, Rejects part child.label) ∧ result = analysis) ∨
        ∃ before child after value, analysis.current.children = before ++ child :: after ∧
          (∀ other ∈ before, Rejects part other.label) ∧ Accepts part child.label ∧
            BuiltFrom part child.label.type value ∧
              result = ⟨analysis.path ++ [before.length], child, value :: analysis.stack⟩ := by
  rw [Analysis.next, bind_eq_ok]
  constructor
  · intro ⟨found, isFound, rest⟩
    cases found with
    | none =>
      cases rest
      exact Or.inl ⟨findChild_eq_none_iff.mp isFound, rfl⟩
    | some found =>
      obtain ⟨index, child⟩ := found
      obtain ⟨before, after, split, passed, accepted, isIndex⟩ := findChild_eq_some_iff.mp isFound
      obtain ⟨value, isValue, isResult⟩ := bind_eq_ok.mp rest
      cases isResult
      rw [Nat.zero_add] at isIndex
      exact Or.inr ⟨before, child, after, value, split, passed, accepted,
        realValue_eq_ok_iff.mp isValue, by rw [isIndex]⟩
  · intro turn
    obtain ⟨rejected, rfl⟩ | ⟨before, child, after, value, split, passed, accepted, built, rfl⟩ := turn
    · exact ⟨none, findChild_eq_none_iff.mpr rejected, rfl⟩
    · have isFound : findChild part 0 analysis.current.children = .ok (some (before.length, child)) :=
        findChild_eq_some_iff.mpr
          ⟨before, after, split, passed, accepted, (Nat.zero_add _).symm⟩
      refine ⟨some (before.length, child), isFound, ?_⟩
      dsimp only
      rw [realValue_eq_ok_iff.mpr built]
      rfl

/-! ## The whole loop -/

/-- The value of a part that went down to an element. -/
def Built (matched : List Char × CommandElement Handler) (value : CommandElementRealValue) : Prop :=
  BuiltFrom matched.1 matched.2.type value

/-- What the moves of the parts do to the state of the analysis. -/
structure Analyzed (start : Analysis Handler) (moves : List (Move (List Char) (CommandElement Handler)))
    (result : Analysis Handler) : Prop where
  descends : Descends Accepts Rejects start.current moves result.current
  path : result.path = start.path ++ Move.path moves
  stack : ∃ values, result.stack = values.reverse ++ start.stack ∧
    List.Forall₂ Built (Move.matched moves) values

variable {start : Analysis Handler}

theorem Analyzed.ignore (rejected : ∀ child ∈ start.current.children, Rejects part child.label)
    (rest : Analyzed start moves result) : Analyzed start (⟨part, none⟩ :: moves) result where
  descends := .ignore rejected rest.descends
  path := rest.path
  stack := rest.stack

theorem Analyzed.enter {before after : List (CommandTree Handler)} {value : CommandElementRealValue}
    (split : start.current.children = before ++ child :: after)
    (passed : ∀ other ∈ before, Rejects part other.label) (accepted : Accepts part child.label)
    (built : BuiltFrom part child.label.type value)
    (rest : Analyzed ⟨start.path ++ [before.length], child, value :: start.stack⟩ moves result) :
    Analyzed start (⟨part, some (before.length, child.label)⟩ :: moves) result where
  descends := .enter split passed accepted rest.descends
  path := by
    rw [rest.path, List.append_assoc]
    rfl
  stack := by
    obtain ⟨values, isStack, restBuilt⟩ := rest.stack
    exact ⟨value :: values, by simp [isStack], .cons built restBuilt⟩

theorem analyzed_of_foldlM {parts : List (List Char)}
    (isOk : parts.foldlM Analysis.next start = .ok result) :
    ∃ moves, moves.map Move.item = parts ∧ Analyzed start moves result := by
  induction parts generalizing start with
  | nil =>
    cases isOk
    exact ⟨[], rfl, .stop _, (List.append_nil _).symm, [], rfl, .nil⟩
  | cons part parts inductionHypothesis =>
    rw [List.foldlM_cons] at isOk
    obtain ⟨next, isNext, rest⟩ := bind_eq_ok.mp isOk
    obtain ⟨moves, items, analyzed⟩ := inductionHypothesis rest
    obtain ⟨rejected, rfl⟩ | ⟨before, child, after, value, split, passed, accepted, built, rfl⟩ :=
      next_eq_ok_iff.mp isNext
    · exact ⟨⟨part, none⟩ :: moves, by rw [List.map_cons, items], analyzed.ignore rejected⟩
    · exact ⟨⟨part, some (before.length, child.label)⟩ :: moves, by rw [List.map_cons, items],
        analyzed.enter split passed accepted built⟩

/-- Every descent is one that the loop makes; the constructors of the values do not throw. -/
theorem foldlM_of_descends (descends : Descends Accepts Rejects start.current moves last) :
    ∃ result, (moves.map Move.item).foldlM Analysis.next start = .ok result ∧
      result.current = last ∧ result.path = start.path ++ Move.path moves := by
  generalize isCurrent : start.current = current at descends
  induction descends generalizing start with
  | stop tree => exact ⟨start, rfl, isCurrent, (List.append_nil _).symm⟩
  | @ignore tree last item moves rejected rest inductionHypothesis =>
    subst isCurrent
    obtain ⟨result, isOk, isLast, isPath⟩ := inductionHypothesis rfl
    have isNext : start.next item = .ok start := next_eq_ok_iff.mpr (Or.inl ⟨rejected, rfl⟩)
    refine ⟨result, ?_, isLast, isPath⟩
    rw [List.map_cons, List.foldlM_cons, isNext]
    exact isOk
  | @enter tree child last before after item moves split passed accepted rest inductionHypothesis =>
    subst isCurrent
    obtain ⟨value, built⟩ := exists_builtFrom accepted
    have isNext : start.next item =
        .ok ⟨start.path ++ [before.length], child, value :: start.stack⟩ :=
      next_eq_ok_iff.mpr
        (Or.inr ⟨before, child, after, value, split, passed, accepted, built, rfl⟩)
    obtain ⟨result, isOk, isLast, isPath⟩ :=
      @inductionHypothesis ⟨start.path ++ [before.length], child, value :: start.stack⟩ rfl
    refine ⟨result, ?_, isLast, ?_⟩
    · rw [List.map_cons, List.foldlM_cons, isNext]
      exact isOk
    · rw [isPath, List.append_assoc]
      rfl

theorem analyzeCommand_of_descends {split : Split} {line : List Char}
    (items : moves.map Move.item = split line)
    (descends : Descends Accepts Rejects root moves last) :
    ∃ result, analyzeCommand split line root = .ok result ∧ result.current = last ∧
      result.path = Move.path moves := by
  rw [analyzeCommand, ← items]
  exact foldlM_of_descends descends

/-! ## The stack of an analysis -/

/-- The stack of an analysis goes with the path of its node. -/
structure WellStacked (parts : List (List Char)) (root : CommandTree Handler)
    (analysis : Analysis Handler) : Prop where
  /-- As many values as the depth of the node. -/
  depth : analysis.stack.length = analysis.path.length
  /-- From bottom to top, the value of the `k`-th matched part for the `k`-th element. -/
  values : ∃ matched : List (List Char × CommandElement Handler),
    Picks Accepts Rejects parts matched ∧
      Leads root analysis.path (matched.map Prod.snd) analysis.current ∧
        List.Forall₂ Built matched analysis.stack.reverse

theorem wellStacked_of_analyzed (analyzed : Analyzed ⟨[], root, []⟩ moves result) :
    WellStacked (moves.map Move.item) root result := by
  obtain ⟨values, isStack, built⟩ := analyzed.stack
  have leads := analyzed.descends.leads
  have isPath := analyzed.path
  rw [List.append_nil] at isStack
  rw [List.nil_append] at isPath
  constructor
  · rw [isStack, isPath, List.length_reverse, Move.length_path, built.length_eq]
  · refine ⟨Move.matched moves, analyzed.descends.picks, ?_, ?_⟩
    · rw [isPath, Move.map_snd_matched]
      exact leads
    · rw [isStack, List.reverse_reverse]
      exact built

theorem wellStacked_of_analyzeCommand {split : Split} {line : List Char}
    (isOk : analyzeCommand split line root = .ok result) :
    WellStacked (split line) root result := by
  obtain ⟨moves, items, analyzed⟩ := analyzed_of_foldlM isOk
  rw [← items]
  exact wellStacked_of_analyzed analyzed

/-! ## An analysis ends by a value or an exception -/

theorem parseOctets_defined (wrap : WrapperForParsing) (missing : ℕ) :
    parseOctets wrap missing ≠ undefinedBehaviour := by
  induction missing generalizing wrap with
  | zero => exact ok_ne_undefinedBehaviour _
  | succ missing inductionHypothesis =>
    rw [parseOctets]
    apply defined_bind
    · unfold parseOctet
      dsimp only
      split
      · exact (throws_runtimeError _).defined
      · exact ok_ne_undefinedBehaviour _
    rintro ⟨octet, rest⟩
    apply defined_bind
    · unfold checkDot Dhcp.WrapperForParsing.check
      split
      · split
        · exact ok_ne_undefinedBehaviour _
        · exact (throws_runtimeError _).defined
      · exact ok_ne_undefinedBehaviour _
    intro wrap
    exact defined_bind (inductionHypothesis wrap) fun _ => ok_ne_undefinedBehaviour _

theorem realValue_defined (part : List Char) (type : CommandElementType) :
    realValue part type ≠ undefinedBehaviour := by
  cases type with
  | ipV4Address =>
    apply defined_bind _ fun _ => ok_ne_undefinedBehaviour _
    apply defined_bind (parseOctets_defined _ _)
    rintro ⟨octets, rest⟩
    dsimp only
    split
    · exact ok_ne_undefinedBehaviour _
    · simp [undefinedBehaviour]
  | none | fixedWord | string | name | ipV4SubnetMask | ipV6Address | ipV6SubnetMask =>
    exact ok_ne_undefinedBehaviour _

theorem checkCommandElement_defined (part : List Char) (element : CommandElement Handler) :
    checkCommandElement part element ≠ undefinedBehaviour := by
  unfold checkCommandElement
  cases element.type with
  | ipV4SubnetMask =>
    apply defined_bind _ fun _ => ok_ne_undefinedBehaviour _
    unfold parseNumber
    split
    · exact ok_ne_undefinedBehaviour _
    · exact (throws_runtimeError _).defined
  | none | fixedWord | string | name | ipV4Address | ipV6Address | ipV6SubnetMask =>
    exact ok_ne_undefinedBehaviour _

theorem findChild_defined (part : List Char) (index : ℕ) (forest : List (CommandTree Handler)) :
    findChild part index forest ≠ undefinedBehaviour := by
  induction forest generalizing index with
  | nil => exact ok_ne_undefinedBehaviour _
  | cons child forest inductionHypothesis =>
    rw [findChild]
    apply defined_bind (checkCommandElement_defined _ _)
    intro accepted
    split
    · exact ok_ne_undefinedBehaviour _
    · exact inductionHypothesis (index + 1)

theorem analyzeCommand_defined (split : Split) (line : List Char) (root : CommandTree Handler) :
    analyzeCommand split line root ≠ undefinedBehaviour := by
  apply foldlM_defined
  intro analysis part
  apply defined_bind (findChild_defined _ _ _)
  intro found
  cases found with
  | none => exact ok_ne_undefinedBehaviour _
  | some child => exact defined_bind (realValue_defined _ _) fun _ => ok_ne_undefinedBehaviour _

theorem pressEnter_defined (split : Split) (line : List Char) (root : CommandTree Handler) :
    pressEnter split line root ≠ undefinedBehaviour := by
  apply defined_bind (analyzeCommand_defined split line root)
  intro analysis
  split
  · split <;> exact ok_ne_undefinedBehaviour _
  · exact ok_ne_undefinedBehaviour _

end Analysis

end Klevret.Verified.Cli
