import Mathlib.Data.List.ReduceOption
import Klevret.Base.Cpp
import Klevret.Base.Machine

/-! # A queue between threads and a loop that polls it

Other threads put packets into a queue.  One loop goes round: it asks whether the queue is empty,
and when it is not it takes the front and handles it.  An arrival, a question and a turn that
takes and handles are the steps of an interleaving, and the loop may be anywhere between a
question and the taking when something arrives.

When the queue is lawful (`Lawful`), an interleaving comes to nothing more than handling the
packets one after the other: what is handled is a prefix of what has arrived, in its order, the
answers are those of the handler alone, and the front of an empty queue is never taken
(`run_sequential`).  A loop that is left alone catches up (`catches_up`). -/

namespace Klevret.Base

/-- The queue and its operations, and what is done with a packet.  `Context` is what the
    surroundings add to a packet while it is handled. -/
structure PollingLoop (Queue Arrival Packet Context State Input Output : Type*) where
  arrive : Queue → Arrival → Queue
  isEmpty : Queue → Bool
  take : Queue → Cpp Packet × Queue
  input : Context → Packet → Input
  handler : Machine (Cpp State) Input (Option Output)

namespace PollingLoop

/-- Where the loop is. -/
inductive Phase where
  | asking
  | taking
deriving DecidableEq, Repr

structure Program (Queue State : Type*) where
  queue : Queue
  phase : Phase
  state : State

/-- A step of another thread, or one of the loop. -/
inductive Step (Arrival Context : Type*) where
  | arrival (arrived : Arrival)
  | turn (context : Context)

variable {Queue Arrival Packet Context State Input Output : Type*}
  (loop : PollingLoop Queue Arrival Packet Context State Input Output)

/-- The loop has taken `packet`. -/
def handle (queue : Queue) (state : State) (context : Context) (packet : Packet) :
    Option Output × Cpp (Program Queue State) :=
  match loop.handler.step (.ok state) (loop.input context packet) with
  | (output, .ok state) => (output, .ok ⟨queue, .asking, state⟩)
  | (output, .error fault) => (output, .error fault)

def turn (program : Program Queue State) (context : Context) :
    Option Output × Cpp (Program Queue State) :=
  match program.phase with
  | .asking =>
    if loop.isEmpty program.queue then (none, .ok program)
    else (none, .ok { program with phase := .taking })
  | .taking =>
    match loop.take program.queue with
    | (.ok packet, queue) => loop.handle queue program.state context packet
    | (.error fault, _) => (none, .error fault)

/-- A fault of the loop ends the other threads too. -/
def machine : Machine (Cpp (Program Queue State)) (Step Arrival Context) (Option Output) where
  step
    | .error fault, _ => (none, .error fault)
    | .ok program, .arrival arrived =>
      (none, .ok { program with queue := loop.arrive program.queue arrived })
    | .ok program, .turn context => loop.turn program context

/-! ## Lawful queues -/

/-- The laws of a `valid` queue: `contents` is what is in it, `arrivals` what an arrival adds. -/
structure Lawful (valid : Queue → Prop) (contents : Queue → List Packet)
    (arrivals : Arrival → List Packet) : Prop where
  arrive : ∀ queue arrived, valid queue → valid (loop.arrive queue arrived) ∧
    contents (loop.arrive queue arrived) = contents queue ++ arrivals arrived
  isEmpty : ∀ queue, valid queue → loop.isEmpty queue = (contents queue).isEmpty
  take : ∀ queue packet rest, valid queue → contents queue = packet :: rest →
    ∃ queueRest, loop.take queue = (.ok packet, queueRest) ∧ valid queueRest ∧
      contents queueRest = rest

variable {loop} {valid : Queue → Prop} {contents : Queue → List Packet} {arrivals : Arrival → List Packet}

/-- Everything that arrives in an interleaving. -/
def arrived (arrivals : Arrival → List Packet) (steps : List (Step Arrival Context)) :
    List Packet :=
  steps.flatMap fun
    | .arrival arrived => arrivals arrived
    | .turn _ => []

/-- The queue is valid, and a loop that has been told of a packet finds one. -/
structure Ready (valid : Queue → Prop) (contents : Queue → List Packet)
    (program : Program Queue State) : Prop where
  valid : valid program.queue
  told : program.phase = .taking → contents program.queue ≠ []

/-- What an interleaving comes to when the loop has handled `handled`. -/
structure Comes (loop : PollingLoop Queue Arrival Packet Context State Input Output)
    (valid : Queue → Prop) (contents : Queue → List Packet) (start : Program Queue State)
    (packets : List Packet) (outputs : List (Option Output)) (last : Cpp (Program Queue State))
    (handled : List (Context × Packet)) : Prop where
  answers : outputs.reduceOption =
    (loop.handler.outputs (.ok start.state)
      (handled.map fun taken => loop.input taken.1 taken.2)).reduceOption
  isPrefix : handled.map Prod.snd <+: contents start.queue ++ packets
  lastState : loop.handler.run (.ok start.state)
    (handled.map fun taken => loop.input taken.1 taken.2) = last.map Program.state
  waiting : ∀ program, last = .ok program → Ready valid contents program ∧
    contents start.queue ++ packets = handled.map Prod.snd ++ contents program.queue

/-! ## Steps -/

/-- The loop has asked, or it has taken a packet and handled it. -/
theorem turn_cases (lawful : loop.Lawful valid contents arrivals) {program : Program Queue State}
    (ready : Ready valid contents program) (context : Context) :
    (∃ phase, program.phase = .asking ∧ (phase = .asking → contents program.queue = []) ∧
      loop.turn program context = (none, .ok { program with phase }) ∧
      Ready valid contents { program with phase }) ∨
    ∃ packet rest queue, program.phase = .taking ∧ contents program.queue = packet :: rest ∧
      valid queue ∧ contents queue = rest ∧
      loop.turn program context = loop.handle queue program.state context packet := by
  obtain ⟨queue, phase, state⟩ := program
  unfold turn
  cases phase with
  | asking =>
    dsimp only
    rw [lawful.isEmpty queue ready.valid]
    cases nonempty : contents queue with
    | nil => exact Or.inl ⟨.asking, rfl, fun _ => rfl, rfl, ready.valid, nofun⟩
    | cons packet rest =>
      refine Or.inl ⟨.taking, rfl, nofun, rfl, ready.valid, ?_⟩
      intro _
      simp [nonempty]
  | taking =>
    dsimp only
    cases nonempty : contents queue with
    -- here the front of an empty queue would be taken
    | nil => exact absurd nonempty (ready.told rfl)
    | cons packet rest =>
      obtain ⟨queueRest, taken, stillValid, isRest⟩ :=
        lawful.take queue packet rest ready.valid nonempty
      rw [taken]
      exact Or.inr ⟨packet, rest, queueRest, rfl, rfl, stillValid, isRest, rfl⟩

theorem run_error (loop : PollingLoop Queue Arrival Packet Context State Input Output)
    (fault : Fault) (steps : List (Step Arrival Context)) :
    loop.machine.run (.error fault) steps = .error fault ∧
      (loop.machine.outputs (.error fault) steps).reduceOption = [] := by
  induction steps with
  | nil => exact ⟨rfl, rfl⟩
  | cons step steps inductionHypothesis => exact inductionHypothesis

/-- A step that answers nothing and leaves the state alone. -/
theorem Comes.silent {start next : Program Queue State} {packets rest : List Packet}
    {outputs : List (Option Output)} {last : Cpp (Program Queue State)}
    {handled : List (Context × Packet)} (comes : Comes loop valid contents next rest outputs last handled)
    (sameState : next.state = start.state)
    (samePackets : contents next.queue ++ rest = contents start.queue ++ packets) :
    Comes loop valid contents start packets (none :: outputs) last handled where
  answers := by
    rw [List.reduceOption_cons_of_none, comes.answers, sameState]
  isPrefix := by
    rw [← samePackets]
    exact comes.isPrefix
  lastState := by
    rw [← sameState]
    exact comes.lastState
  waiting := by
    rw [← samePackets]
    exact comes.waiting

/-- The loop handles the packet at the front and goes on. -/
theorem Comes.handle {start : Program Queue State} {queue : Queue} {state : State}
    {context : Context} {packet : Packet} {rest packets : List Packet} {answer : Option Output}
    {outputs : List (Option Output)} {last : Cpp (Program Queue State)}
    {handled : List (Context × Packet)}
    (comes : Comes loop valid contents ⟨queue, .asking, state⟩ packets outputs last handled)
    (front : contents start.queue = packet :: rest) (isRest : contents queue = rest)
    (stepped : loop.handler.step (.ok start.state) (loop.input context packet) =
      (answer, .ok state)) :
    Comes loop valid contents start packets (answer :: outputs) last ((context, packet) :: handled) where
  answers := by
    have answered := comes.answers
    rw [List.map_cons, Machine.outputs_cons, Machine.output, Machine.next, stepped]
    cases answer with
    | none => rw [List.reduceOption_cons_of_none, List.reduceOption_cons_of_none, answered]
    | some answer => rw [List.reduceOption_cons_of_some, List.reduceOption_cons_of_some, answered]
  isPrefix := by
    rw [front, ← isRest]
    exact List.cons_prefix_cons.mpr ⟨rfl, comes.isPrefix⟩
  lastState := by
    rw [List.map_cons, Machine.run_cons, Machine.next, stepped]
    exact comes.lastState
  waiting := by
    intro program isLast
    obtain ⟨ready, inQueue⟩ := comes.waiting program isLast
    refine ⟨ready, ?_⟩
    rw [front, ← isRest, List.map_cons, List.cons_append, List.cons_append, inQueue]

/-- The loop handles the packet at the front and ends. -/
theorem comes_of_fault {start : Program Queue State} {context : Context} {packet : Packet}
    {rest packets : List Packet} {answer : Option Output} {outputs : List (Option Output)}
    {fault : Fault} (front : contents start.queue = packet :: rest)
    (stepped : loop.handler.step (.ok start.state) (loop.input context packet) =
      (answer, .error fault))
    (silent : outputs.reduceOption = []) :
    Comes loop valid contents start packets (answer :: outputs) (.error fault) [(context, packet)] where
  answers := by
    rw [List.map_singleton, Machine.outputs_cons, Machine.output, stepped, Machine.outputs_nil]
    cases answer with
    | none => rw [List.reduceOption_cons_of_none, silent]; rfl
    | some answer => rw [List.reduceOption_cons_of_some, silent]; rfl
  isPrefix := by
    rw [front]
    exact List.cons_prefix_cons.mpr ⟨rfl, List.nil_prefix⟩
  lastState := by
    rw [List.map_singleton, Machine.run_cons, Machine.next, stepped]
    rfl
  waiting := nofun

/-! ## Runs -/

/-- An interleaving handles what has arrived, one packet after the other. -/
theorem run_sequential (lawful : loop.Lawful valid contents arrivals) (start : Program Queue State)
    (ready : Ready valid contents start) (steps : List (Step Arrival Context)) :
    ∃ handled, Comes loop valid contents start (arrived arrivals steps)
      (loop.machine.outputs (.ok start) steps) (loop.machine.run (.ok start) steps) handled := by
  induction steps generalizing start with
  | nil =>
    refine ⟨[], rfl, List.nil_prefix, rfl, ?_⟩
    rintro program ⟨⟩
    exact ⟨ready, by simp [arrived]⟩
  | cons step steps inductionHypothesis =>
    -- `Ready` is the invariant; only a turn that takes adds to what is handled
    rw [Machine.outputs_cons, Machine.run_cons]
    cases step with
    | arrival arrival =>
      obtain ⟨stillValid, added⟩ := lawful.arrive start.queue arrival ready.valid
      have stillReady : Ready valid contents { start with queue := loop.arrive start.queue arrival } := by
        refine ⟨stillValid, ?_⟩
        intro taking
        simp [added, ready.told taking]
      obtain ⟨handled, comes⟩ := inductionHypothesis _ stillReady
      refine ⟨handled, comes.silent rfl ?_⟩
      simp [added, arrived]
    | turn context =>
      have split : loop.machine.step (.ok start) (.turn context) = loop.turn start context := rfl
      unfold Machine.output Machine.next
      rw [split]
      obtain ⟨phase, _, _, result, stillReady⟩ | ⟨packet, rest, queue, taking, front, stillValid, isRest, result⟩ :=
        turn_cases lawful ready context
      · rw [result]
        obtain ⟨handled, comes⟩ := inductionHypothesis _ stillReady
        exact ⟨handled, comes.silent rfl rfl⟩
      · rw [result, handle]
        cases stepped : loop.handler.step (.ok start.state) (loop.input context packet) with
        | mk answer next =>
          cases next with
          | error fault =>
            obtain ⟨ended, silent⟩ := loop.run_error fault steps
            dsimp only
            rw [ended]
            exact ⟨_, comes_of_fault front stepped silent⟩
          | ok state =>
            obtain ⟨handled, comes⟩ := inductionHypothesis ⟨queue, .asking, state⟩ ⟨stillValid, nofun⟩
            exact ⟨_, comes.handle front isRest stepped⟩

/-- A loop that is left alone handles what is in the queue, or ends, within two turns a packet. -/
theorem catches_up (lawful : loop.Lawful valid contents arrivals) {start last : Program Queue State}
    (ready : Ready valid contents start) {contexts : List Context}
    (enough : 2 * (contents start.queue).length ≤
      contexts.length + if start.phase = .taking then 1 else 0)
    (running : loop.machine.run (.ok start) (contexts.map Step.turn) = .ok last) :
    contents last.queue = [] := by
  induction contexts generalizing start with
  | nil =>
    cases running
    refine List.eq_nil_of_length_eq_zero ?_
    rw [List.length_nil] at enough
    split at enough <;> omega
  | cons context contexts inductionHypothesis =>
    rw [List.map_cons, Machine.run_cons] at running
    have next : loop.machine.next (.ok start) (.turn context) = (loop.turn start context).2 := rfl
    rw [List.length_cons] at enough
    obtain ⟨phase, asking, toldNothing, result, stillReady⟩ |
        ⟨packet, rest, queue, taking, front, stillValid, isRest, result⟩ :=
      turn_cases lawful ready context
    · rw [next, result] at running
      refine inductionHypothesis stillReady ?_ running
      cases phase with
      | asking => simp [toldNothing rfl]
      | taking =>
        -- the question has used one of the two turns of the front packet
        rw [asking, if_neg nofun] at enough
        simpa using enough
    · rw [next, result, handle] at running
      rw [front, taking, if_pos rfl, List.length_cons] at enough
      cases stepped : loop.handler.step (.ok start.state) (loop.input context packet) with
      | mk answer state =>
        rw [stepped] at running
        cases state with
        | error fault =>
          dsimp only at running
          rw [(loop.run_error fault _).1] at running
          cases running
        | ok state =>
          refine inductionHypothesis ?_ ?_ running
          · exact ⟨stillValid, nofun⟩
          · rw [isRest, if_neg nofun]
            omega

theorem arrived_append_turns (steps : List (Step Arrival Context)) (contexts : List Context) :
    arrived arrivals (steps ++ contexts.map .turn) = arrived arrivals steps := by
  simp [arrived, List.flatMap_append, List.flatMap_map]

/-- All that has arrived is handled once the loop has been left alone for long enough. -/
theorem handles_all (lawful : loop.Lawful valid contents arrivals) {start last : Program Queue State}
    (ready : Ready valid contents start) (steps : List (Step Arrival Context))
    {contexts : List Context}
    (enough : 2 * (contents start.queue ++ arrived arrivals steps).length ≤ contexts.length)
    (running : loop.machine.run (.ok start) (steps ++ contexts.map .turn) = .ok last) :
    ∃ handled, handled.map Prod.snd = contents start.queue ++ arrived arrivals steps ∧
      Comes loop valid contents start (arrived arrivals steps)
        (loop.machine.outputs (.ok start) (steps ++ contexts.map .turn)) (.ok last) handled := by
  obtain ⟨handled, comes⟩ := run_sequential lawful start ready (steps ++ contexts.map .turn)
  rw [running, arrived_append_turns] at comes
  obtain ⟨_, inQueue⟩ := comes.waiting last rfl
  refine ⟨handled, ?_, comes⟩
  -- behind `steps` the loop is alone, with what they have left in the queue
  obtain ⟨before, comesBefore⟩ := run_sequential lawful start ready steps
  rw [Machine.run_append] at running
  cases middle : loop.machine.run (.ok start) steps with
  | error fault =>
    rw [middle, (loop.run_error fault _).1] at running
    cases running
  | ok program =>
    rw [middle] at running
    obtain ⟨readyMiddle, inMiddle⟩ := comesBefore.waiting program middle
    have emptied : contents last.queue = [] := by
      refine catches_up lawful readyMiddle ?_ running
      rw [inMiddle, List.length_append] at enough
      omega
    rw [inQueue, emptied, List.append_nil]

end PollingLoop

end Klevret.Base
