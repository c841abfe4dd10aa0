import Klevret.Base.Machine

/-! # Labelled runs and simulation

An abstract model is a relation `step before event after`.  `Steps step` is its
run relation, and a machine whose every step is matched by an abstract step has
all its runs matched (`Machine.run_simulated`). -/

namespace Klevret.Base

variable {Abstract Event : Type*}

/-- `events` leads from one abstract state to another. -/
inductive Steps (step : Abstract → Event → Abstract → Prop) :
    Abstract → List Event → Abstract → Prop where
  | refl (state : Abstract) : Steps step state [] state
  | head {first middle last : Abstract} {event : Event} {events : List Event}
      (stepped : step first event middle) (rest : Steps step middle events last) :
      Steps step first (event :: events) last

/-- What every step with an admissible event keeps holds after the run. -/
theorem Steps.keeps {step : Abstract → Event → Abstract → Prop} (Inv : Abstract → Prop)
    (admissible : Event → Prop)
    (stepKeeps : ∀ {before event after}, step before event after → admissible event →
      Inv before → Inv after)
    {first last : Abstract} {events : List Event} (run : Steps step first events last)
    (allAdmissible : ∀ event ∈ events, admissible event) (atFirst : Inv first) : Inv last := by
  induction run with
  | refl => exact atFirst
  | head stepped rest inductionHypothesis =>
    obtain ⟨headAdmissible, tailAdmissible⟩ := List.forall_mem_cons.mp allAdmissible
    exact inductionHypothesis tailAdmissible (stepKeeps stepped headAdmissible atFirst)

namespace Machine

variable {State Input Output : Type*} (machine : Machine State Input Output)

/-- The abstract events of a run, where `event` reads the event off one step. -/
def trace (event : State → Input → Event) (start : State) : List Input → List Event
  | [] => []
  | input :: inputs => event start input :: trace event (machine.next start input) inputs

variable {machine} {event : State → Input → Event}

/-- An event of the trace is the event of a step of the run. -/
theorem mem_trace {start : State} {inputs : List Input} {observed : Event}
    (member : observed ∈ machine.trace event start inputs) :
    ∃ before input after, inputs = before ++ input :: after ∧
      observed = event (machine.run start before) input := by
  induction inputs generalizing start with
  | nil => cases member
  | cons input inputs inductionHypothesis =>
    obtain here | later := List.mem_cons.mp member
    · exact ⟨[], input, inputs, rfl, here⟩
    · obtain ⟨before, found, after, rfl, observedEq⟩ := inductionHypothesis later
      exact ⟨input :: before, found, after, rfl, observedEq⟩

/-- Step-by-step simulation gives simulation of whole runs. -/
theorem run_simulated {step : Abstract → Event → Abstract → Prop} {Inv : State → Prop}
    {Represents : State → Abstract → Prop}
    (stepKeeps : ∀ state input, Inv state → Inv (machine.next state input))
    (simulates : ∀ state input abstract, Inv state → Represents state abstract →
      ∃ abstract', step abstract (event state input) abstract' ∧
        Represents (machine.next state input) abstract')
    {start : State} {abstract : Abstract} (atStart : Inv start)
    (represented : Represents start abstract) (inputs : List Input) :
    ∃ abstract', Steps step abstract (machine.trace event start inputs) abstract' ∧
      Represents (machine.run start inputs) abstract' := by
  induction inputs generalizing start abstract with
  | nil => exact ⟨abstract, .refl abstract, represented⟩
  | cons input inputs inductionHypothesis =>
    obtain ⟨middle, stepped, representedNext⟩ := simulates start input abstract atStart represented
    obtain ⟨last, rest, representedLast⟩ :=
      inductionHypothesis (stepKeeps start input atStart) representedNext
    -- the first abstract step in front of the run of the rest
    exact ⟨last, .head stepped rest, representedLast⟩

/-- Two machines that are given the same steps, each in its own inputs.  If the first answers
    every step from the abstraction of its state as the second does, it answers every run so. -/
theorem outputs_refined {Step AbstractInput AbstractOutput : Type*}
    (machine : Machine State Input Output)
    (abstract : Machine Abstract AbstractInput AbstractOutput) (Inv : State → Prop)
    (abstraction : State → Abstract) (concreteInput : Step → Input)
    (abstractInput : Step → AbstractInput) (answer : AbstractOutput → Output)
    (stepKeeps : ∀ state step, Inv state → Inv (machine.next state (concreteInput step)))
    (sameAnswer : ∀ state step, Inv state → machine.output state (concreteInput step) =
      answer (abstract.output (abstraction state) (abstractInput step)))
    (sameNext : ∀ state step, Inv state → abstraction (machine.next state (concreteInput step)) =
      abstract.next (abstraction state) (abstractInput step))
    {start : State} (atStart : Inv start) (steps : List Step) :
    machine.outputs start (steps.map concreteInput) =
        (abstract.outputs (abstraction start) (steps.map abstractInput)).map answer ∧
      abstraction (machine.run start (steps.map concreteInput)) =
        abstract.run (abstraction start) (steps.map abstractInput) := by
  induction steps generalizing start with
  | nil => exact ⟨rfl, rfl⟩
  | cons step steps inductionHypothesis =>
    obtain ⟨sameOutputs, sameLast⟩ := inductionHypothesis (stepKeeps start step atStart)
    rw [List.map_cons, List.map_cons, outputs_cons, outputs_cons, run_cons, run_cons, sameOutputs,
      sameLast, sameAnswer start step atStart, sameNext start step atStart]
    exact ⟨rfl, rfl⟩

end Machine

end Klevret.Base
