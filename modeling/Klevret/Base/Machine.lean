import Mathlib.Data.List.Infix
import Mathlib.Tactic.Common

/-! # Runs of a deterministic machine

A `Machine` answers every input with an output and a next state.  `run` is the
state after a list of inputs, and `Along` says that a guard holds at every step
of a run.  The rules below are the ways a fact about one step becomes a fact
about a whole run:

* `run_invariant` / `run_invariant_along` — induction on the inputs, without and
  with a guard on the steps;
* `prefixes_iff_along` — the exact guard: when one step keeps a property *iff*
  the guard holds there, the property holds all along a run iff the guard does;
* `along_iff_split` — a guard along a run is a guard at every split of it;
* `marked_run_iff` — a mark that some inputs set and some clear is decided by the
  last of them (`LastWrites`). -/

namespace Klevret.Base

/-- A deterministic machine that answers every input. -/
structure Machine (State Input Output : Type*) where
  step : State → Input → Output × State

namespace Machine

variable {State Input Output : Type*} (machine : Machine State Input Output)

/-- What the machine answers to `input` in `state`. -/
def output (state : State) (input : Input) : Output :=
  (machine.step state input).1

/-- The state after one input. -/
def next (state : State) (input : Input) : State :=
  (machine.step state input).2

/-- The state after a list of inputs. -/
def run (start : State) : List Input → State
  | [] => start
  | input :: inputs => run (machine.next start input) inputs

/-- What the machine answers to a list of inputs. -/
def outputs (start : State) : List Input → List Output
  | [] => []
  | input :: inputs => machine.output start input :: outputs (machine.next start input) inputs

/-- `guard` holds at every step of the run of `inputs` from `start`. -/
def Along (guard : State → Input → Prop) (start : State) : List Input → Prop
  | [] => True
  | input :: inputs => guard start input ∧ Along guard (machine.next start input) inputs

@[simp] theorem run_nil (start : State) : machine.run start [] = start := rfl

@[simp] theorem run_cons (start : State) (input : Input) (inputs : List Input) :
    machine.run start (input :: inputs) = machine.run (machine.next start input) inputs := rfl

@[simp] theorem outputs_nil (start : State) : machine.outputs start [] = [] := rfl

@[simp] theorem outputs_cons (start : State) (input : Input) (inputs : List Input) :
    machine.outputs start (input :: inputs) =
      machine.output start input :: machine.outputs (machine.next start input) inputs := rfl

theorem run_append (start : State) (before after : List Input) :
    machine.run start (before ++ after) = machine.run (machine.run start before) after := by
  induction before generalizing start with
  | nil => rfl
  | cons input before inductionHypothesis => exact inductionHypothesis (machine.next start input)

theorem outputs_append (start : State) (before after : List Input) :
    machine.outputs start (before ++ after) =
      machine.outputs start before ++ machine.outputs (machine.run start before) after := by
  induction before generalizing start with
  | nil => rfl
  | cons input before inductionHypothesis =>
    exact congrArg (machine.output start input :: ·)
      (inductionHypothesis (machine.next start input))

@[simp] theorem along_nil (guard : State → Input → Prop) (start : State) :
    machine.Along guard start [] := trivial

@[simp] theorem along_cons (guard : State → Input → Prop) (start : State) (input : Input)
    (inputs : List Input) :
    machine.Along guard start (input :: inputs) ↔
      guard start input ∧ machine.Along guard (machine.next start input) inputs := Iff.rfl

theorem along_append (guard : State → Input → Prop) (start : State) (before after : List Input) :
    machine.Along guard start (before ++ after) ↔
      machine.Along guard start before ∧ machine.Along guard (machine.run start before) after := by
  induction before generalizing start with
  | nil => simp
  | cons input before inductionHypothesis => simp [inductionHypothesis, and_assoc]

/-- A guard along a run is a guard at every split of the run. -/
theorem along_iff_split (guard : State → Input → Prop) (start : State) (inputs : List Input) :
    machine.Along guard start inputs ↔
      ∀ before input after, inputs = before ++ input :: after →
        guard (machine.run start before) input := by
  constructor
  · rintro along before input after rfl
    exact ((machine.along_append guard start before _).mp along).2.1
  · intro atSplit
    induction inputs generalizing start with
    | nil => trivial
    | cons input inputs inductionHypothesis =>
      refine ⟨atSplit [] input inputs rfl, inductionHypothesis _ ?_⟩
      rintro before later after rfl
      exact atSplit (input :: before) later after rfl

/-- An answer of a run is the answer to one of its inputs. -/
theorem exists_of_mem_outputs {start : State} {inputs : List Input} {answer : Output}
    (member : answer ∈ machine.outputs start inputs) :
    ∃ before input after, inputs = before ++ input :: after ∧
      machine.output (machine.run start before) input = answer := by
  induction inputs generalizing start with
  | nil => cases member
  | cons input inputs inductionHypothesis =>
    obtain here | later := List.mem_cons.mp member
    · exact ⟨[], input, inputs, rfl, here.symm⟩
    · obtain ⟨before, found, after, rfl, answered⟩ := inductionHypothesis later
      exact ⟨input :: before, found, after, rfl, answered⟩

variable {machine}

/-- What every step keeps holds after every run. -/
theorem run_invariant {Inv : State → Prop}
    (stepKeeps : ∀ state input, Inv state → Inv (machine.next state input))
    {start : State} (atStart : Inv start) (inputs : List Input) :
    Inv (machine.run start inputs) := by
  induction inputs generalizing start with
  | nil => exact atStart
  | cons input inputs inductionHypothesis => exact inductionHypothesis (stepKeeps start input atStart)

/-- What every guarded step keeps holds after every run that meets the guard. -/
theorem run_invariant_along (Inv : State → Prop) {guard : State → Input → Prop}
    (stepKeeps : ∀ state input, Inv state → guard state input → Inv (machine.next state input))
    {start : State} (atStart : Inv start) {inputs : List Input}
    (along : machine.Along guard start inputs) :
    Inv (machine.run start inputs) := by
  induction inputs generalizing start with
  | nil => exact atStart
  | cons input inputs inductionHypothesis =>
    exact inductionHypothesis (stepKeeps start input atStart along.1) along.2

/-- The exact guard of a property.  If a step from a good state leads to a good
    state iff the guard holds there, then all states along a run are good iff the
    guard holds along the run. -/
theorem prefixes_iff_along {Inv Good : State → Prop} {guard : State → Input → Prop}
    (stepKeeps : ∀ state input, Inv state → Inv (machine.next state input))
    (exact : ∀ state input, Inv state → Good state →
      (Good (machine.next state input) ↔ guard state input))
    {start : State} (invStart : Inv start) (goodStart : Good start) (inputs : List Input) :
    (∀ before, before <+: inputs → Good (machine.run start before)) ↔
      machine.Along guard start inputs := by
  induction inputs generalizing start with
  | nil => simpa using goodStart
  | cons input inputs inductionHypothesis =>
    have atNext := stepKeeps start input invStart
    constructor
    · intro allGood
      -- the state after the first input is the first one the guard speaks about
      have goodNext : Good (machine.next start input) :=
        allGood [input] (by simp [List.cons_prefix_cons])
      refine ⟨(exact start input invStart goodStart).mp goodNext,
        (inductionHypothesis atNext goodNext).mp ?_⟩
      intro before isPrefix
      exact allGood (input :: before) (List.cons_prefix_cons.mpr ⟨rfl, isPrefix⟩)
    · rintro ⟨guarded, along⟩ before isPrefix
      have goodNext := (exact start input invStart goodStart).mpr guarded
      cases before with
      | nil => exact goodStart
      | cons first before =>
        obtain ⟨rfl, tailPrefix⟩ := List.cons_prefix_cons.mp isPrefix
        exact (inductionHypothesis atNext goodNext).mpr along before tailPrefix

/-! ## Last writers -/

/-- The last of the inputs that set or clear is one that sets. -/
def LastWrites (sets clears : Input → Prop) (inputs : List Input) : Prop :=
  ∃ before input after, inputs = before ++ input :: after ∧ sets input ∧
    ∀ later ∈ after, ¬ (sets later ∨ clears later)

/-- One more input is the last writer, or it leaves the last writer where it was. -/
theorem lastWrites_append {sets clears : Input → Prop} (inputs : List Input) (input : Input) :
    LastWrites sets clears (inputs ++ [input]) ↔
      sets input ∨ (¬ clears input ∧ ¬ sets input ∧ LastWrites sets clears inputs) := by
  constructor
  · rintro ⟨before, writer, after, split, isWriter, silent⟩
    induction after using List.reverseRecOn with
    | nil =>
      obtain ⟨_, same⟩ := List.append_inj' split rfl
      cases same
      exact Or.inl isWriter
    | append_singleton after last _ =>
      rw [← List.cons_append, ← List.append_assoc] at split
      obtain ⟨rfl, same⟩ := List.append_inj' split rfl
      cases same
      obtain ⟨restSilent, lastSilent⟩ := List.forall_mem_append.mp silent
      obtain ⟨notSets, notClears⟩ := not_or.mp (lastSilent input (List.mem_singleton_self _))
      exact Or.inr ⟨notClears, notSets, before, writer, after, rfl, isWriter, restSilent⟩
  · rintro (isWriter | ⟨notClears, notSets, before, writer, after, rfl, isWriter, silent⟩)
    · exact ⟨inputs, input, [], rfl, isWriter, nofun⟩
    · refine ⟨before, writer, after ++ [input], by simp, isWriter, ?_⟩
      refine List.forall_mem_append.mpr ⟨silent, ?_⟩
      intro later isLast
      rw [List.mem_singleton.mp isLast]
      exact not_or.mpr ⟨notSets, notClears⟩

/-- The last writer decides a mark, and without one the mark is the initial one. -/
theorem marked_run_iff {Inv : State → Prop} (Marked : State → Prop) {sets clears : Input → Prop}
    (stepKeeps : ∀ state input, Inv state → Inv (machine.next state input))
    (set : ∀ state input, Inv state → sets input → Marked (machine.next state input))
    (cleared : ∀ state input, Inv state → clears input → ¬ Marked (machine.next state input))
    (kept : ∀ state input, Inv state → ¬ sets input → ¬ clears input →
      (Marked (machine.next state input) ↔ Marked state))
    {start : State} (atStart : Inv start) (inputs : List Input) :
    Marked (machine.run start inputs) ↔
      LastWrites sets clears inputs ∨
        (Marked start ∧ ∀ input ∈ inputs, ¬ (sets input ∨ clears input)) := by
  induction inputs using List.reverseRecOn with
  | nil =>
    have noWriter : ¬ LastWrites sets clears [] := by
      rintro ⟨before, writer, after, split, _⟩
      cases before <;> cases split
    rw [run_nil, or_iff_right noWriter]
    exact (and_iff_left nofun).symm
  | append_singleton inputs input inductionHypothesis =>
    have inv := run_invariant stepKeeps atStart inputs
    rw [run_append, run_cons, run_nil, lastWrites_append, List.forall_mem_append,
      List.forall_mem_singleton]
    by_cases isSet : sets input
    · exact iff_of_true (set _ input inv isSet) (Or.inl (Or.inl isSet))
    by_cases isClear : clears input
    · refine iff_of_false (cleared _ input inv isClear) ?_
      rintro ((isSetToo | ⟨notClear, _⟩) | ⟨_, _, silent⟩)
      · exact isSet isSetToo
      · exact notClear isClear
      · exact silent (Or.inr isClear)
    · rw [kept _ input inv isSet isClear, inductionHypothesis]
      tauto

end Machine

end Klevret.Base
