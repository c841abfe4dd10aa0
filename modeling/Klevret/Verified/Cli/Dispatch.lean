import Klevret.Base.Separated
import Klevret.Verified.Cli.Tree

/-! # Soundness of the dispatch

A part that no child accepts is ignored, so a line may reach a handler past words
that have nothing to do with its command.  Dispatch is sound on a line exactly when
no word is ignored on the way to a handler (`dispatch_sound_iff`). -/

namespace Klevret.Verified.Cli

open Klevret.Base Klevret.Cli
open RoseTree (Descends Leads Move)

section Dispatch

variable {Handler : Type} {commands : List (Command Handler)} {command : Command Handler}
  {root last : CommandTree Handler} {elements others : List (CommandElement Handler)}
  {parts : List (List Char)} {moves : List (Move (List Char) (CommandElement Handler))}

/-- The parts that are not empty. -/
def wordsOf (parts : List (List Char)) : List (List Char) := parts.filter fun part => part ≠ []

/-- As many words as elements, and each is accepted by its element. -/
def Fits (words : List (List Char)) (elements : List (CommandElement Handler)) : Prop :=
  List.Forall₂ Accepts words elements

/-- The handler that is called is the one below the node of the command's elements. -/
structure IsCallOf (command : Command Handler) (root : CommandTree Handler)
    (call : HandlerCall Handler) : Prop where
  handler : command.handler = some call.handler
  place : ∃ labels last, Leads root call.path labels last ∧
    labels.map CommandElement.key = command.elements.map CommandElement.key

/-- ENTER calls the handler of a command only for words that are the command. -/
def DispatchSound (split : Split) (commands : List (Command Handler)) (line : List Char) : Prop :=
  ∀ call, pressEnter split line (createCommandTree commands) = .ok (some call) →
    ∃ command ∈ commands, IsCallOf command (createCommandTree commands) call ∧
      Fits (wordsOf (split line)) command.elements

/-- The node has a handler below it and nothing else. -/
def Runnable (node : CommandTree Handler) : Prop :=
  ∃ only handler, node.children = [only] ∧ only.label.handler = some handler

/-- No word is ignored. -/
def Heeds (moves : List (Move (List Char) (CommandElement Handler))) : Prop :=
  ∀ move ∈ moves, move.item ≠ [] → move.entered.isSome

/-- An empty part, before the first space or after the last, is taken for an element. -/
def TakesEmpty (moves : List (Move (List Char) (CommandElement Handler))) : Prop :=
  ∃ move ∈ moves, move.item = [] ∧ move.entered.isSome

/-- On the way to a handler no word is ignored; and if an empty part is taken for an
    element on the way, the words must happen to fit the elements nevertheless. -/
def Undistracted (split : Split) (commands : List (Command Handler)) (line : List Char) : Prop :=
  ∀ moves last, moves.map Move.item = split line →
    Descends Accepts Rejects (createCommandTree commands) moves last → Runnable last →
      (¬ TakesEmpty moves ∧ Heeds moves) ∨
        (TakesEmpty moves ∧ Fits (wordsOf (split line)) (Move.labels moves))

/-! ## Words and matched parts -/

/-- Whether words fit depends on the keys of the elements. -/
theorem fits_iff_of_keys {words : List (List Char)}
    (sameKeys : elements.map CommandElement.key = others.map CommandElement.key) :
    Fits words elements ↔ Fits words others := by
  have byKey : ∀ elements : List (CommandElement Handler), Fits words elements ↔
      List.Forall₂ (fun part key => Accepts part (⟨key.1, key.2, none⟩ : CommandElement Handler))
        words (elements.map CommandElement.key) := by
    intro elements
    rw [List.forall₂_map_right_iff]
    rfl
  rw [byKey, byKey, sameKeys]

theorem not_takesEmpty_cons {move : Move (List Char) (CommandElement Handler)} :
    ¬ TakesEmpty (move :: moves) ↔
      (move.item = [] → move.entered = none) ∧ ¬ TakesEmpty moves := by
  simp [TakesEmpty]

theorem heeds_cons {move : Move (List Char) (CommandElement Handler)} :
    Heeds (move :: moves) ↔ (move.item ≠ [] → move.entered.isSome) ∧ Heeds moves :=
  List.forall_mem_cons

theorem wordsOf_cons_of_ne {part : List Char} (isWord : part ≠ []) :
    wordsOf (part :: parts) = part :: wordsOf parts :=
  List.filter_cons_of_pos (by simp [isWord])

/-- What went down is a word. -/
theorem item_ne_nil {item : List Char} {entered : ℕ × CommandElement Handler}
    (notEmpty : item = [] → some entered = none) : item ≠ [] := by
  intro isEmpty
  cases notEmpty isEmpty

/-- The words are the parts that went down, when nothing else did and all of them did. -/
theorem map_fst_matched (notEmpty : ¬ TakesEmpty moves) (heeds : Heeds moves) :
    (Move.matched moves).map Prod.fst = wordsOf (moves.map Move.item) := by
  induction moves with
  | nil => rfl
  | cons move moves inductionHypothesis =>
    obtain ⟨headNotEmpty, restNotEmpty⟩ := not_takesEmpty_cons.mp notEmpty
    obtain ⟨headHeeds, restHeeds⟩ := heeds_cons.mp heeds
    have rest := inductionHypothesis restNotEmpty restHeeds
    obtain ⟨item, entered⟩ := move
    cases entered with
    | none =>
      have isEmpty : item = [] := by
        by_contra isWord
        cases headHeeds isWord
      subst isEmpty
      exact rest
    | some entered =>
      rw [List.map_cons, wordsOf_cons_of_ne (item_ne_nil headNotEmpty)]
      exact congrArg (List.cons item) rest

theorem length_matched_le (notEmpty : ¬ TakesEmpty moves) :
    (Move.matched moves).length ≤ (wordsOf (moves.map Move.item)).length := by
  induction moves with
  | nil => exact Nat.le_refl 0
  | cons move moves inductionHypothesis =>
    obtain ⟨headNotEmpty, restNotEmpty⟩ := not_takesEmpty_cons.mp notEmpty
    have rest := inductionHypothesis restNotEmpty
    obtain ⟨item, entered⟩ := move
    cases entered with
    | none =>
      apply rest.trans
      exact ((List.sublist_cons_self _ _).filter _).length_le
    | some entered =>
      rw [List.map_cons, wordsOf_cons_of_ne (item_ne_nil headNotEmpty)]
      exact Nat.succ_le_succ rest

/-- A word that is ignored is one too many. -/
theorem heeds_of_length (notEmpty : ¬ TakesEmpty moves)
    (same : (wordsOf (moves.map Move.item)).length = (Move.matched moves).length) : Heeds moves := by
  induction moves with
  | nil => exact List.forall_mem_nil _
  | cons move moves inductionHypothesis =>
    obtain ⟨headNotEmpty, restNotEmpty⟩ := not_takesEmpty_cons.mp notEmpty
    have restFewer := length_matched_le restNotEmpty
    obtain ⟨item, entered⟩ := move
    rw [heeds_cons]
    cases entered with
    | none =>
      by_cases isEmpty : item = []
      · subst isEmpty
        exact ⟨fun isWord => absurd rfl isWord, inductionHypothesis restNotEmpty same⟩
      · rw [List.map_cons, wordsOf_cons_of_ne isEmpty, List.length_cons] at same
        change _ = (Move.matched moves).length at same
        omega
    | some entered =>
      rw [List.map_cons, wordsOf_cons_of_ne (item_ne_nil headNotEmpty)] at same
      exact ⟨fun _ => rfl, inductionHypothesis restNotEmpty (Nat.succ.inj same)⟩

/-- Where no empty part is taken, the words fit exactly when none is ignored. -/
theorem fits_iff_heeds (descends : Descends Accepts Rejects root moves last)
    (notEmpty : ¬ TakesEmpty moves) :
    Fits (wordsOf (moves.map Move.item)) (Move.labels moves) ↔ Heeds moves := by
  constructor
  · intro fits
    apply heeds_of_length notEmpty
    rw [List.Forall₂.length_eq fits, ← Move.map_snd_matched, List.length_map]
  · intro heeds
    rw [Fits, ← map_fst_matched notEmpty heeds]
    exact descends.accepted

/-! ## The dispatch -/

theorem dispatch_sound_iff (split : Split) (commands : List (Command Handler)) (line : List Char) :
    DispatchSound split commands line ↔ Undistracted split commands line := by
  constructor
  · intro sound moves last items descends ⟨only, handler, isOnly, isHandler⟩
    obtain ⟨result, isOk, isLast, isPath⟩ := analyzeCommand_of_descends items descends
    obtain ⟨command, isCommand, ⟨_, labels, last', leads, sameKeys⟩, fits⟩ :=
      sound ⟨result.path, handler, result.stack⟩ (pressEnter_eq_some_iff.mpr
        ⟨result, only, isOk, by rw [isLast, isOnly], isHandler, rfl, rfl⟩)
    -- the call was found at the end of this descent
    change Leads _ result.path labels last' at leads
    rw [isPath] at leads
    obtain ⟨rfl, _⟩ := leads.unique descends.leads
    rw [← fits_iff_of_keys sameKeys] at fits
    by_cases takesEmpty : TakesEmpty moves
    · exact Or.inr ⟨takesEmpty, fits⟩
    · rw [← items] at fits
      exact Or.inl ⟨takesEmpty, (fits_iff_heeds descends takesEmpty).mp fits⟩
  · intro undistracted call called
    obtain ⟨moves, last, items, command, isCommand, dispatched⟩ := dispatched_of_pressEnter called
    obtain ⟨only, isOnly, isHandler⟩ := dispatched.only
    have descends := dispatched.analyzed.descends
    refine ⟨command, isCommand, ⟨dispatched.handler, _, last, ?_, dispatched.elements.symm⟩, ?_⟩
    · have isPath : call.path = Move.path moves := dispatched.analyzed.path
      rw [isPath]
      exact descends.leads
    · rw [fits_iff_of_keys dispatched.elements]
      obtain ⟨notEmpty, heeds⟩ | ⟨_, fits⟩ :=
        undistracted moves last items descends ⟨only, call.handler, isOnly, isHandler⟩
      · rw [← items]
        exact (fits_iff_heeds descends notEmpty).mpr heeds
      · exact fits

end Dispatch

/-- A word that is no part of any shipped command is ignored. -/
theorem unknown_word_ignored :
    ∃ commands, allCommands = .ok commands ∧
      ¬ DispatchSound (cutAtRuns ' ') commands "version bar".toList := by
  have evaluated : (do
      let commands ← allCommands
      let called ← pressEnter (cutAtRuns ' ') "version bar".toList (createCommandTree commands)
      return (called, commands.all fun command =>
        command.handler = some CommandHandler.cmdVersion → command.elements.length = 1)) =
      .ok (some ⟨[0], .cmdVersion, [.string "version".toList]⟩, true) := by
    decide +kernel
  obtain ⟨commands, isOk, rest⟩ := bind_eq_ok.mp evaluated
  obtain ⟨called, isCalled, result⟩ := bind_eq_ok.mp rest
  obtain ⟨rfl, oneElement⟩ := Prod.mk.inj (Except.ok.inj result)
  refine ⟨commands, isOk, ?_⟩
  intro sound
  obtain ⟨command, isCommand, isCall, fits⟩ := sound _ isCalled
  have isOne : command.elements.length = 1 :=
    of_decide_eq_true (List.all_eq_true.mp oneElement command isCommand) isCall.handler
  have twoWords : (wordsOf (cutAtRuns ' ' "version bar".toList)).length = 2 := by decide +kernel
  rw [fits.length_eq, isOne] at twoWords
  cases twoWords

end Klevret.Verified.Cli
