import Mathlib.Data.List.Basic
import Mathlib.Tactic.Common

/-! # Words between runs of a separator

A text of words that are not empty and free of the separator is cut back into these
words, however many separators stand between two of them (`cutAtRuns_of_separated`). -/

namespace Klevret.Base

variable {α : Type*} {separator c : α} {words parts : List (List α)} {word first text : List α}

/-- `text` is made of the words, with one or more separators between two of them. -/
inductive Separated (separator : α) : (words : List (List α)) → (text : List α) → Prop
  | single (word : List α) : Separated separator [word] word
  | more {words : List (List α)} {text : List α} (word : List α) (further : ℕ)
      (rest : Separated separator words text) :
      Separated separator (word :: words)
        (word ++ separator :: (List.replicate further separator ++ text))

/-- A text has the separator and what is in the words. -/
theorem Separated.mem (separated : Separated separator words text) (member : c ∈ text) :
    c = separator ∨ ∃ word ∈ words, c ∈ word := by
  induction separated with
  | single word => exact Or.inr ⟨word, List.mem_singleton_self word, member⟩
  | @more words text word further rest inductionHypothesis =>
    obtain inWord | inRest := List.mem_append.mp member
    · exact Or.inr ⟨word, List.mem_cons_self, inWord⟩
    obtain isSeparator | inRest := List.mem_cons.mp inRest
    · exact Or.inl isSeparator
    obtain inRun | inText := List.mem_append.mp inRest
    · exact Or.inl (List.eq_of_mem_replicate inRun)
    · obtain isSeparator | ⟨found, isWord, inFound⟩ := inductionHypothesis inText
      · exact Or.inl isSeparator
      · exact Or.inr ⟨found, List.mem_cons_of_mem _ isWord, inFound⟩

/-- A text of such words does not start with the separator. -/
theorem Separated.head?_ne (separated : Separated separator words text)
    (areWords : ∀ word ∈ words, word ≠ [] ∧ separator ∉ word) : text.head? ≠ some separator := by
  have notFirst : ∀ {word rest : List α}, word ≠ [] → separator ∉ word →
      (word ++ rest).head? ≠ some separator := by
    intro word rest nonempty free isFirst
    rw [List.head?_append_of_ne_nil _ nonempty] at isFirst
    exact free (List.mem_of_head? isFirst)
  cases separated with
  | single =>
    obtain ⟨nonempty, free⟩ := areWords text (List.mem_singleton_self text)
    rw [← List.append_nil text]
    exact notFirst nonempty free
  | more word further rest =>
    obtain ⟨nonempty, free⟩ := areWords word List.mem_cons_self
    exact notFirst nonempty free

variable [DecidableEq α]

/-- The first part begins with one more element. -/
def prependToFirst (c : α) : List (List α) → List (List α)
  | [] => [[c]]
  | first :: parts => (c :: first) :: parts

/-- The parts between the maximal runs of the separator. -/
def cutAtRuns (separator : α) : List α → List (List α)
  | [] => [[]]
  | c :: text =>
    if c ≠ separator then prependToFirst c (cutAtRuns separator text)
    else if text.head? = some separator then cutAtRuns separator text
    else [] :: cutAtRuns separator text

/-- Elements in front that are no separators belong to the first part. -/
theorem cutAtRuns_append (free : separator ∉ word)
    (isCut : cutAtRuns separator text = first :: parts) :
    cutAtRuns separator (word ++ text) = (word ++ first) :: parts := by
  induction word with
  | nil => exact isCut
  | cons c word inductionHypothesis =>
    obtain ⟨notSeparator, restFree⟩ := List.ne_and_not_mem_of_not_mem_cons free
    rw [List.cons_append, cutAtRuns, if_pos notSeparator.symm, inductionHypothesis restFree]
    rfl

/-- A run of separators ends one part. -/
theorem cutAtRuns_run (further : ℕ) (runEnds : text.head? ≠ some separator) :
    cutAtRuns separator (separator :: (List.replicate further separator ++ text)) =
      [] :: cutAtRuns separator text := by
  induction further with
  | zero =>
    rw [List.replicate_zero, List.nil_append, cutAtRuns, if_neg (not_not_intro rfl), if_neg runEnds]
  | succ further inductionHypothesis =>
    rw [List.replicate_succ, List.cons_append, cutAtRuns, if_neg (not_not_intro rfl),
      if_pos List.head?_cons, inductionHypothesis]

theorem cutAtRuns_of_separated (separated : Separated separator words text)
    (areWords : ∀ word ∈ words, word ≠ [] ∧ separator ∉ word) :
    cutAtRuns separator text = words := by
  induction separated with
  | single word =>
    have free := (areWords word (List.mem_singleton_self word)).2
    have isCut := cutAtRuns_append free (rfl : cutAtRuns separator [] = [[]])
    rw [List.append_nil] at isCut
    exact isCut
  | more word further rest inductionHypothesis =>
    obtain ⟨⟨_, free⟩, restAreWords⟩ := List.forall_mem_cons.mp areWords
    have runEnds := rest.head?_ne restAreWords
    rw [cutAtRuns_append free (cutAtRuns_run further runEnds), inductionHypothesis restAreWords,
      List.append_nil]

end Klevret.Base
