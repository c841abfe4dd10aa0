import Klevret.Verified.Cli.Dispatch

/-! # Running a registered command

The words of a command of fixed words lead to its node, but ENTER calls its handler
only when no other command starts with the same words (`registered_runs_iff`): the
handler then is the only child there. -/

namespace Klevret.Verified.Cli

open Klevret.Base Klevret.Cli
open RoseTree (Descends Leads Move labelsAt nodeAt exists_descends of_mem_foldl_grow)

section Registered

variable {Handler : Type} {commands before after : List (Command Handler)} {command : Command Handler}
  {split : Split} {line : List Char}

/-- The words of a command. -/
def spelling (command : Command Handler) : List (List Char) :=
  command.elements.map CommandElement.fixedValue

/-- The patterns of the commands are of fixed words only. -/
def FixedWords (commands : List (Command Handler)) : Prop :=
  ∀ command ∈ commands, ∀ element ∈ command.elements, element.type = .fixedWord

instance : Decidable (FixedWords commands) :=
  inferInstanceAs (Decidable (∀ command ∈ commands, ∀ element ∈ command.elements,
    element.type = .fixedWord))

/-- The line is cut at its runs of spaces. -/
def CutsAtSpaces (split : Split) : Prop :=
  ∀ words line, Separated ' ' words line → (∀ word ∈ words, word ≠ [] ∧ ' ' ∉ word) →
    split line = words

/-- ENTER calls the handler of the command. -/
def Runs (split : Split) (commands : List (Command Handler)) (line : List Char)
    (command : Command Handler) : Prop :=
  ∃ call, pressEnter split line (createCommandTree commands) = .ok (some call) ∧
    IsCallOf command (createCommandTree commands) call

/-! ## Words and elements -/

/-- The key of the element for a fixed word. -/
def fixedWordKey (word : List Char) : CommandElementType × List Char := (.fixedWord, word)

theorem fixedWordKey_injective : Function.Injective fixedWordKey :=
  fun _ _ same => congrArg Prod.snd same

theorem map_key_eq (fixedWords : ∀ element ∈ command.elements, element.type = .fixedWord) :
    command.elements.map CommandElement.key = (spelling command).map fixedWordKey := by
  rw [spelling, List.map_map]
  apply List.map_congr_left
  intro element isElement
  exact congrArg (Prod.mk · element.fixedValue) (fixedWords element isElement)

theorem spelling_areWords (fixedWords : ∀ element ∈ command.elements, element.type = .fixedWord) :
    ∀ word ∈ spelling command, word ≠ [] ∧ ' ' ∉ word := by
  intro word isWord
  obtain ⟨element, isElement, rfl⟩ := List.mem_map.mp isWord
  have isFixedWord := fixedWords element isElement
  cases command.parsed element isElement with
  | word nonempty alpha =>
    refine ⟨nonempty, ?_⟩
    intro isSpace
    exact absurd (List.all_eq_true.mp alpha ' ' isSpace) (by decide)
  | variableElement known =>
    -- no variable element has the type of a fixed word
    cases isFixedWord
    exact absurd known (by decide)

/-- A word is accepted by its own element alone; a handler accepts nothing. -/
theorem decides_of_fixedWords (registered : FixedWords commands)
    (path : List (CommandElementType × List Char)) :
    ∀ label ∈ labelsAt CommandElement.key path (createCommandTree commands), ∀ word,
      (label.key = fixedWordKey word → Accepts word label) ∧
        (label.key ≠ fixedWordKey word → Rejects word label) := by
  intro label member word
  rw [labelsAt_createCommandTree] at member
  have kind : label.type = .none ∨ label.type = .fixedWord := by
    obtain impossible | ⟨command, isCommand, ⟨rfl, _⟩ | isElement⟩ := of_mem_foldl_grow member
    · cases impossible
    · exact Or.inl rfl
    · exact Or.inr (registered command isCommand label isElement)
  obtain isNone | isFixedWord := kind
  · have rejected : Rejects word label := by
      rw [Rejects, checkCommandElement, isNone]
      rfl
    refine ⟨?_, fun _ => rejected⟩
    intro same
    rw [CommandElement.key, isNone] at same
    cases congrArg Prod.fst same
  · have checked : checkCommandElement word label = .ok (decide (label.fixedValue = word)) := by
      rw [checkCommandElement, isFixedWord]
      rfl
    have sameKey : label.key = fixedWordKey word ↔ label.fixedValue = word := by
      rw [CommandElement.key, isFixedWord, fixedWordKey, Prod.mk.injEq, eq_self, true_and]
    rw [Ne, sameKey, Accepts, Rejects, checked]
    simp

/-! ## The node of a command -/

/-- ENTER runs a command exactly when its handler is all there is at its node. -/
theorem runs_iff_labelsAt (registered : FixedWords commands) (cuts : CutsAtSpaces split)
    (isCommand : command ∈ commands) (isLine : Separated ' ' (spelling command) line) :
    Runs split commands line command ↔ command.handler.isSome ∧
      labelsAt CommandElement.key (command.elements.map CommandElement.key)
        (createCommandTree commands) = [command.handlerElement] := by
  have fixedWords := registered command isCommand
  have isLeaf := handlerElement_mem_labelsAt isCommand
  obtain ⟨last, isLast⟩ : ∃ last, nodeAt CommandElement.key
      (command.elements.map CommandElement.key) (createCommandTree commands) = some last := by
    rw [labelsAt] at isLeaf
    split at isLeaf
    next => cases isLeaf
    next last isLast => exact ⟨last, isLast⟩
  rw [map_key_eq fixedWords] at isLast
  obtain ⟨moves, isItems, isKeys, descends⟩ :=
    exists_descends (decides_of_fixedWords registered) isLast
  rw [← map_key_eq fixedWords] at isKeys
  have isCut : split line = spelling command := cuts _ _ isLine (spelling_areWords fixedWords)
  obtain ⟨analysis, isOk, isCurrent, isPath⟩ :=
    analyzeCommand_of_descends (isItems.trans isCut.symm) descends
  have isBelow := labelsAt_of_descends descends
  rw [isKeys] at isBelow
  rw [isBelow] at isLeaf ⊢
  constructor
  · intro runs
    obtain ⟨call, called, isCall⟩ := runs
    obtain ⟨analysis', only, isOk', isOnly, _⟩ := pressEnter_eq_some_iff.mp called
    cases isOk.symm.trans isOk'
    rw [← isCurrent, isOnly] at isLeaf ⊢
    rw [List.mem_singleton.mp isLeaf]
    exact ⟨by rw [isCall.handler]; rfl, rfl⟩
  · intro alone
    obtain ⟨isSome, isOnlyLabel⟩ := alone
    obtain ⟨handler, isHandler⟩ := Option.isSome_iff_exists.mp isSome
    obtain ⟨only, isOnly, isLabel⟩ := List.map_eq_singleton_iff.mp isOnlyLabel
    have called : pressEnter split line (createCommandTree commands) =
        .ok (some ⟨analysis.path, handler, analysis.stack⟩) := by
      apply pressEnter_eq_some_iff.mpr
      refine ⟨analysis, only, isOk, by rw [isCurrent, isOnly], ?_, rfl, rfl⟩
      rw [isLabel]
      exact isHandler
    have leads := descends.leads
    rw [← isPath] at leads
    exact ⟨_, called, isHandler, Move.labels moves, last, leads, isKeys⟩

/-- The handler is all there is exactly when no other command starts with the same words. -/
theorem labelsAt_eq_handlerElement_iff (registered : FixedWords (before ++ command :: after)) :
    labelsAt CommandElement.key (command.elements.map CommandElement.key)
        (createCommandTree (before ++ command :: after)) = [command.handlerElement] ↔
      ∀ other ∈ before ++ after, ¬ spelling command <+: spelling other := by
  have fixedWords := registered command (by simp)
  have inCommands : ∀ other ∈ before ++ after, other ∈ before ++ command :: after := by
    intro other isOther
    exact List.mem_append.mpr ((List.mem_append.mp isOther).imp_right (List.mem_cons_of_mem _))
  constructor
  · intro isHandler other isOther ⟨rest, longer⟩
    have goesOn : other.elements.map CommandElement.key =
        command.elements.map CommandElement.key ++ rest.map fixedWordKey := by
      rw [map_key_eq (registered other (inCommands other isOther)), map_key_eq fixedWords, ← longer,
        List.map_append]
    cases rest with
    | nil =>
      -- two handlers
      have twoThere := one_lt_length_labelsAt isOther (goesOn.trans (List.append_nil _))
      rw [isHandler] at twoThere
      exact absurd twoThere (Nat.lt_irrefl 1)
    | cons word rest =>
      have isStep := step_mem_labelsAt (inCommands other isOther) goesOn
      rw [isHandler] at isStep
      -- the handler does not have the key of a word
      cases List.mem_singleton.mp isStep
  · intro noOther
    apply labelsAt_eq_handlerElement
    intro other isOther isPrefix
    apply noOther other isOther
    rw [map_key_eq fixedWords, map_key_eq (registered other (inCommands other isOther))] at isPrefix
    exact (List.prefix_map_iff_of_injective fixedWordKey_injective).mp isPrefix

theorem registered_runs_iff (registered : FixedWords (before ++ command :: after))
    (cuts : CutsAtSpaces split) (isLine : Separated ' ' (spelling command) line) :
    Runs split (before ++ command :: after) line command ↔ command.handler.isSome ∧
      ∀ other ∈ before ++ after, ¬ spelling command <+: spelling other := by
  have isCommand : command ∈ before ++ command :: after := by simp
  rw [runs_iff_labelsAt registered cuts isCommand isLine, labelsAt_eq_handlerElement_iff registered]

/-- The command `ip`. -/
def ip : Command ℕ where
  elements := [.new .fixedWord "ip".toList]
  handler := some 0
  parsed := by
    intro element isElement
    rw [List.mem_singleton.mp isElement]
    exact .word (by decide) (by decide)

/-- The command `ip show`. -/
def ipShow : Command ℕ where
  elements := [.new .fixedWord "ip".toList, .new .fixedWord "show".toList]
  handler := some 1
  parsed := by
    intro element isElement
    obtain rfl | isLast := List.mem_cons.mp isElement
    · exact .word (by decide) (by decide)
    · rw [List.mem_singleton.mp isLast]
      exact .word (by decide) (by decide)

theorem fixedWords_ip : FixedWords [ip, ipShow] := by decide

theorem cutsAtSpaces_cutAtRuns : CutsAtSpaces (cutAtRuns ' ') :=
  fun _ _ isLine areWords => cutAtRuns_of_separated isLine areWords

/-- The longer of the two commands can be run, with any number of spaces. -/
theorem registered_runs_iff_sample : Runs (cutAtRuns ' ') [ip, ipShow] "ip  show".toList ipShow := by
  have isLine : Separated ' ' (spelling ipShow) "ip  show".toList :=
    .more "ip".toList 1 (.single "show".toList)
  have runs := @registered_runs_iff _ [ip] [] ipShow _ _ fixedWords_ip cutsAtSpaces_cutAtRuns isLine
  exact runs.mpr (by decide)

/-- The shorter one cannot: its node has a child for the word `show` beside the handler. -/
theorem shorter_command_not_run :
    FixedWords [ip, ipShow] ∧ spelling ip ≠ spelling ipShow ∧
      Separated ' ' (spelling ip) "ip".toList ∧
        ¬ Runs (cutAtRuns ' ') [ip, ipShow] "ip".toList ip := by
  refine ⟨fixedWords_ip, by decide, .single "ip".toList, ?_⟩
  intro ⟨call, called, _⟩
  have nothing : pressEnter (cutAtRuns ' ') "ip".toList (createCommandTree [ip, ipShow]) = .ok none := by
    decide
  cases nothing.symm.trans called

end Registered

end Klevret.Verified.Cli
