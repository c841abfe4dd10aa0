import Klevret.Base.Machine

/-! # Infinite runs and fairness

`stateAt` is the state of a machine at a time of an infinite list of inputs.  Two rules speak about
the inputs that some agent makes:

* `exists_input_of_lost` — what all other inputs keep is lost only through one of that agent;
* `reaches_of_fair` — when every input lowers a measure or changes nothing, and short of the end
  there is always an agent who is not finished and whose inputs lower it, then the end is reached
  in every run in which an agent who is not finished is going to act. -/

namespace Klevret.Base

namespace Machine

variable {State Input Output Agent : Type*} {machine : Machine State Input Output}

/-- The state after the inputs of the times before `time`. -/
def stateAt (machine : Machine State Input Output) (start : State) (inputs : ℕ → Input) : ℕ → State
  | 0 => start
  | time + 1 => machine.next (machine.stateAt start inputs time) (inputs time)

@[simp] theorem stateAt_zero (start : State) (inputs : ℕ → Input) :
    machine.stateAt start inputs 0 = start := rfl

theorem stateAt_succ (start : State) (inputs : ℕ → Input) (time : ℕ) :
    machine.stateAt start inputs (time + 1) =
      machine.next (machine.stateAt start inputs time) (inputs time) := rfl

variable {start : State} {inputs : ℕ → Input} {first later : ℕ}

/-- A property that holds at one time, and is kept, holds from then on. -/
theorem stateAt_invariant {Inv : State → Prop}
    (stepKeeps : ∀ state input, Inv state → Inv (machine.next state input))
    (atFirst : Inv (machine.stateAt start inputs first)) (ordered : first ≤ later) :
    Inv (machine.stateAt start inputs later) := by
  induction later, ordered using Nat.le_induction with
  | base => exact atFirst
  | succ later _ inductionHypothesis => exact stepKeeps _ _ inductionHypothesis

/-- What all inputs but those of one agent keep is lost through one of these. -/
theorem exists_input_of_lost {Good : State → Prop} {Acts : Input → Prop}
    (othersKeep : ∀ state input, Good state → ¬ Acts input → Good (machine.next state input))
    (ordered : first ≤ later) (good : Good (machine.stateAt start inputs first))
    (lost : ¬ Good (machine.stateAt start inputs later)) :
    ∃ time, first ≤ time ∧ Acts (inputs time) := by
  by_contra nobody
  push Not at nobody
  apply lost
  induction later, ordered using Nat.le_induction with
  | base => exact good
  | succ later isLater inductionHypothesis =>
    by_cases goodLater : Good (machine.stateAt start inputs later)
    · exact othersKeep _ _ goodLater (nobody later isLater)
    · exact absurd (inductionHypothesis goodLater) goodLater

section Measure

variable {Inv Done : State → Prop} (measure : State → ℕ)
  {Unfinished : State → Agent → Prop} {Acts : Agent → Input → Prop}

/-- Later the state is the same one, or it is further. -/
theorem stays_or_lowers (stepKeeps : ∀ state input, Inv state → Inv (machine.next state input))
    (lowers : ∀ state input, Inv state →
      machine.next state input = state ∨ measure (machine.next state input) < measure state)
    (atFirst : Inv (machine.stateAt start inputs first)) (ordered : first ≤ later) :
    machine.stateAt start inputs later = machine.stateAt start inputs first ∨
      measure (machine.stateAt start inputs later) <
        measure (machine.stateAt start inputs first) := by
  induction later, ordered using Nat.le_induction with
  | base => exact Or.inl rfl
  | succ later isLater inductionHypothesis =>
    have atLater := stateAt_invariant stepKeeps atFirst isLater
    obtain same | lower := lowers _ (inputs later) atLater
    · rwa [stateAt_succ, same]
    · right
      obtain unmoved | lowerBefore := inductionHypothesis
      · rwa [← unmoved]
      · exact lower.trans lowerBefore

/-- Work that is never begun anew comes to an end when nobody who has to act is left out. -/
theorem reaches_of_fair (stepKeeps : ∀ state input, Inv state → Inv (machine.next state input))
    (lowers : ∀ state input, Inv state →
      machine.next state input = state ∨ measure (machine.next state input) < measure state)
    (works : ∀ state, Inv state → ¬ Done state → ∃ agent, Unfinished state agent ∧
      ∀ input, Acts agent input → measure (machine.next state input) < measure state)
    (fair : ∀ time agent, Unfinished (machine.stateAt start inputs time) agent →
      ∃ later, time ≤ later ∧ Acts agent (inputs later))
    (atFirst : Inv (machine.stateAt start inputs first)) :
    ∃ time, Done (machine.stateAt start inputs time) := by
  induction size : measure (machine.stateAt start inputs first) using Nat.strong_induction_on
    generalizing first with
  | _ size' inductionHypothesis =>
    subst size
    by_cases done : Done (machine.stateAt start inputs first)
    · exact ⟨first, done⟩
    obtain ⟨agent, unfinished, advances⟩ := works _ atFirst done
    obtain ⟨time, ordered, acts⟩ := fair first agent unfinished
    have atTime := stateAt_invariant stepKeeps atFirst ordered
    obtain same | lower := stays_or_lowers measure stepKeeps lowers atFirst ordered
    · -- nothing has happened before the agent acts
      have advanced := advances (inputs time) acts
      rw [← same, ← stateAt_succ, same] at advanced
      have atNext : Inv (machine.stateAt start inputs (time + 1)) :=
        stepKeeps _ (inputs time) atTime
      exact inductionHypothesis _ advanced atNext rfl
    · exact inductionHypothesis _ lower atTime rfl

end Measure

end Machine

end Klevret.Base
