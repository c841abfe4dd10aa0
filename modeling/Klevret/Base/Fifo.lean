import Klevret.Base.Machine

/-! # First in, first out

A machine with a queue in its state: an input may push, an output may take.  When
one step moves elements only from the pushes to the back of the queue and from its
front to the takes (`Fifo.Keeps`), then so does a run (`Fifo.run`): what has been
taken, followed by what is still in the queue, is what was pushed, in that order.
A machine that may also stop for good takes a first part of it (`Fifo.run_prefix`). -/

namespace Klevret.Base

/-- The queue of a machine, and what its inputs push and its outputs take. -/
structure Fifo (State Input Output Element : Type*) where
  queue : State → List Element
  pushes : Input → List Element
  takes : Output → List Element

namespace Fifo

variable {State Input Output Element : Type*} (fifo : Fifo State Input Output Element)
  {machine : Machine State Input Output}

/-- Everything that a list of inputs pushes. -/
def allPushes (inputs : List Input) : List Element := inputs.flatMap fifo.pushes

/-- Everything that a list of outputs takes. -/
def allTakes (outputs : List Output) : List Element := outputs.flatMap fifo.takes

@[simp] theorem allPushes_nil : fifo.allPushes [] = [] := rfl

@[simp] theorem allPushes_cons (input : Input) (inputs : List Input) :
    fifo.allPushes (input :: inputs) = fifo.pushes input ++ fifo.allPushes inputs :=
  List.flatMap_cons

@[simp] theorem allTakes_nil : fifo.allTakes [] = [] := rfl

@[simp] theorem allTakes_cons (output : Output) (outputs : List Output) :
    fifo.allTakes (output :: outputs) = fifo.takes output ++ fifo.allTakes outputs :=
  List.flatMap_cons

/-- The queue law of one step. -/
def Keeps (machine : Machine State Input Output) (state : State) (input : Input) : Prop :=
  fifo.queue state ++ fifo.pushes input =
    fifo.takes (machine.output state input) ++ fifo.queue (machine.next state input)

variable {fifo}

/-- Steps that keep the queue law make a run that keeps it. -/
theorem run {start : State} {inputs : List Input}
    (along : machine.Along (fifo.Keeps machine) start inputs) :
    fifo.queue start ++ fifo.allPushes inputs =
      fifo.allTakes (machine.outputs start inputs) ++ fifo.queue (machine.run start inputs) := by
  induction inputs generalizing start with
  | nil => simp
  | cons input inputs inductionHypothesis =>
    obtain ⟨keeps, alongRest⟩ := along
    calc fifo.queue start ++ fifo.allPushes (input :: inputs)
        = (fifo.queue start ++ fifo.pushes input) ++ fifo.allPushes inputs := by simp
      _ = fifo.takes (machine.output start input) ++
            (fifo.queue (machine.next start input) ++ fifo.allPushes inputs) := by
          rw [keeps, List.append_assoc]
      _ = _ := by simp [inductionHypothesis alongRest]

/-- The machine takes nothing at the step, and nothing after it. -/
def Stops (fifo : Fifo State Input Output Element) (machine : Machine State Input Output)
    (Stopped : State → Prop) (state : State) (input : Input) : Prop :=
  fifo.takes (machine.output state input) = [] ∧ Stopped (machine.next state input)

theorem allTakes_of_stopped {Stopped : State → Prop}
    (stays : ∀ state input, Stopped state → fifo.Stops machine Stopped state input)
    {start : State} (stopped : Stopped start) (inputs : List Input) :
    fifo.allTakes (machine.outputs start inputs) = [] := by
  induction inputs generalizing start with
  | nil => rfl
  | cons input inputs inductionHypothesis =>
    obtain ⟨takesNothing, stoppedNext⟩ := stays start input stopped
    rw [Machine.outputs_cons, allTakes_cons, takesNothing, inductionHypothesis stoppedNext]
    rfl

/-- Steps that keep the queue law or stop the machine make a run that takes, in their
    order, the first of the elements that were pushed. -/
theorem run_prefix {Stopped : State → Prop}
    (stays : ∀ state input, Stopped state → fifo.Stops machine Stopped state input)
    (step : ∀ state input, fifo.Keeps machine state input ∨ fifo.Stops machine Stopped state input)
    (start : State) (inputs : List Input) :
    fifo.allTakes (machine.outputs start inputs) <+:
      fifo.queue start ++ fifo.allPushes inputs := by
  induction inputs generalizing start with
  | nil => exact List.nil_prefix
  | cons input inputs inductionHypothesis =>
    rw [Machine.outputs_cons, allTakes_cons, allPushes_cons]
    obtain keeps | ⟨takesNothing, stopped⟩ := step start input
    · rw [← List.append_assoc, keeps, List.append_assoc]
      exact (List.prefix_append_right_inj _).mpr (inductionHypothesis _)
    · rw [takesNothing, allTakes_of_stopped stays stopped]
      exact List.nil_prefix

end Fifo

end Klevret.Base
