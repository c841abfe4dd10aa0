import Klevret.Core.Main
import Klevret.Verified.Relay.Listening

/-! # The core relays nothing

As it stands, the core ends with the first packet that `main` sees: the next step of `main` throws
outside of its `try` block.  So nothing is ever passed on, and every packet that has come in is
still in the queue (`core_relays_nothing`). -/

namespace Klevret.Verified.Relay

open Klevret.Base Klevret.Common Klevret.Core
open TcpListener (ReadResult packetOf)

section

variable {Tree : Type} {boost : PropertyTree Tree} {program : Program} {state : Listening}

/-! ## What the threads do to the queue -/

theorem queue_workerStep (state : Listening) (accepted : Bool) :
    (state.workerStep accepted).listener = state.listener := by
  unfold Listening.workerStep
  split
  case h_1 => split <;> rfl
  case h_2 => split <;> rfl
  case h_3 => split <;> rfl
  case h_4 => rfl

theorem queue_handlerStep (state : Listening) (index : ℕ) (result : ReadResult) :
    ∃ more, (state.handlerStep index result).listener.queue = state.listener.queue ++ more := by
  cases isHandler : state.handlers[index]? with
  | none => exact ⟨[], by rw [handlerStep_of_none isHandler, List.append_nil]⟩
  | some handler => exact ⟨packets handler, by rw [handlerStep_eq isHandler]⟩

/-- Without a socket there are no clients, and so no packets; `main` has seen the packet that it is
    going to take. -/
structure Started (program : Program) : Prop where
  handlers : program.hasSocket = false → program.listening.handlers = []
  queue : program.hasSocket = false → program.listening.listener.queue = []
  seen : program.main = .taking → program.listening.listener.queue ≠ []

theorem started_start : Started .start := ⟨fun _ => rfl, fun _ => rfl, fun taking => by cases taking⟩

/-! ## One step -/

/-- The steps that end the program. -/
inductive Ends (program : Program) : ProgramStep → Prop where
  | socket {calls : ListenCalls} (noSocket : program.hasSocket = false)
      (fails : ¬ Returns (createSocketAndListen calls).1) : Ends program (.socket calls)
  | main {behind : List UInt8} {calls : SystemCalls} (taking : program.main = .taking) :
      Ends program (.main behind calls)

/-- What all other steps do. -/
structure Follows (program : Program) (step : ProgramStep) (next : Program) : Prop where
  started : Started next
  queue : ∃ more, next.listening.listener.queue = program.listening.listener.queue ++ more
  hasSocket : next.hasSocket = true ↔ program.hasSocket = true ∨ ∃ calls, step = .socket calls
  main : next.main = .taking ↔ program.main = .taking ∨
    program.listening.listener.queue ≠ [] ∧ ∃ behind calls, step = .main behind calls

theorem follows_socket (started : Started program) (calls : ListenCalls) :
    Follows program (.socket calls) { program with hasSocket := true } where
  started := by
    refine ⟨?_, ?_, started.seen⟩
    · intro noSocket
      cases noSocket
    · intro noSocket
      cases noSocket
  queue := ⟨[], (List.append_nil _).symm⟩
  hasSocket := iff_of_true rfl (Or.inr ⟨calls, rfl⟩)
  main := by simp

/-- A step that starts handlers or lets them push. -/
theorem follows_listening {step : ProgramStep} {next : Listening} (started : Started program)
    (queue : ∃ more, next.listener.queue = program.listening.listener.queue ++ more)
    (noSocket : program.hasSocket = false → next = program.listening)
    (notSocket : ∀ calls, step ≠ .socket calls) (notMain : ∀ behind calls, step ≠ .main behind calls) :
    Follows program step { program with listening := next } where
  started := by
    obtain ⟨more, isMore⟩ := queue
    refine ⟨?_, ?_, ?_⟩
    · intro without
      change next.handlers = []
      rw [noSocket without]
      exact started.handlers without
    · intro without
      change next.listener.queue = []
      rw [noSocket without]
      exact started.queue without
    · intro taking empty
      change next.listener.queue = [] at empty
      rw [isMore] at empty
      exact started.seen taking (List.append_eq_nil_iff.mp empty).1
  queue := queue
  hasSocket := by simp [notSocket]
  main := by simp [notMain]

/-- Every step passes nothing on, and ends the program or follows. -/
theorem step_cases (started : Started program) (step : ProgramStep) :
    (program.step boost step).1 = none ∧
      (Ends program step ∧ ¬ Returns (program.step boost step).2 ∨
        ∃ next, (program.step boost step).2 = .ok next ∧ ¬ Ends program step ∧
          Follows program step next) := by
  cases step with
  | socket calls =>
    cases hasSocket : program.hasSocket with
    | true =>
      have notEnds : ¬ Ends program (.socket calls) := by
        rintro (⟨noSocket, _⟩ | _)
        rw [hasSocket] at noSocket
        cases noSocket
      have sameProgram : program = { program with hasSocket := true } := by rw [← hasSocket]
      have follows := follows_socket started calls
      rw [← sameProgram] at follows
      have stays : program.step boost (.socket calls) = (none, .ok program) := if_pos hasSocket
      rw [stays]
      exact ⟨rfl, Or.inr ⟨program, rfl, notEnds, follows⟩⟩
    | false =>
      cases created : (createSocketAndListen calls).1 with
      | error fault =>
        have ends : Ends program (.socket calls) := .socket hasSocket (by rw [created]; simp)
        have fails : program.step boost (.socket calls) = (none, .error fault) := by
          simp [Program.step, hasSocket, created]
        rw [fails]
        exact ⟨rfl, Or.inl ⟨ends, not_returns_error fault⟩⟩
      | ok socket =>
        have notEnds : ¬ Ends program (.socket calls) := by
          rintro (⟨_, fails⟩ | _)
          rw [created] at fails
          exact fails (returns_ok socket)
        have creates : program.step boost (.socket calls) =
            (none, .ok { program with hasSocket := true }) := by
          simp [Program.step, hasSocket, created]
        rw [creates]
        exact ⟨rfl, Or.inr ⟨_, rfl, notEnds, follows_socket started calls⟩⟩
  | worker accepted =>
    have notEnds : ¬ Ends program (.worker accepted) := by
      intro ends
      cases ends
    cases hasSocket : program.hasSocket with
    | true =>
      have works : program.step boost (.worker accepted) =
          (none, .ok { program with listening := program.listening.workerStep accepted }) :=
        if_pos hasSocket
      have sameQueue := queue_workerStep program.listening accepted
      have follows : Follows program (.worker accepted)
          { program with listening := program.listening.workerStep accepted } :=
        follows_listening started ⟨[], by rw [sameQueue, List.append_nil]⟩
          (fun noSocket => absurd (hasSocket.symm.trans noSocket) (by decide))
          (fun _ => by simp) (fun _ _ => by simp)
      rw [works]
      exact ⟨rfl, Or.inr ⟨_, rfl, notEnds, follows⟩⟩
    | false =>
      have waits : program.step boost (.worker accepted) = (none, .ok program) :=
        if_neg (by rw [hasSocket]; decide)
      have follows : Follows program (.worker accepted) program :=
        follows_listening started ⟨[], (List.append_nil _).symm⟩ (fun _ => rfl)
          (fun _ => by simp) (fun _ _ => by simp)
      rw [waits]
      exact ⟨rfl, Or.inr ⟨program, rfl, notEnds, follows⟩⟩
  | handler index result =>
    have notEnds : ¬ Ends program (.handler index result) := by
      intro ends
      cases ends
    -- without a socket there is no handler yet
    have noSocket : program.hasSocket = false →
        program.listening.handlerStep index result = program.listening := by
      intro without
      have noHandler : program.listening.handlers[index]? = none := by
        rw [started.handlers without]
        rfl
      exact handlerStep_of_none noHandler result
    have follows : Follows program (.handler index result) _ :=
      follows_listening started (queue_handlerStep program.listening index result) noSocket
        (fun _ => by simp) (fun _ _ => by simp)
    exact ⟨rfl, Or.inr ⟨_, rfl, notEnds, follows⟩⟩
  | main behind calls =>
    cases isMain : program.main with
    | testing =>
      have notEnds : ¬ Ends program (.main behind calls) := by
        rintro (_ | taking)
        cases isMain.symm.trans taking
      by_cases empty : program.listening.listener.queue = []
      · have isEmpty := (TcpListener.isEmpty_iff program.listening.listener).mpr empty
        have stays : program.step boost (.main behind calls) = (none, .ok program) := by
          simp [Program.step, Program.mainStep, isMain, isEmpty]
        have follows : Follows program (.main behind calls) program :=
          ⟨started, ⟨[], (List.append_nil _).symm⟩, by simp, by simp [empty]⟩
        rw [stays]
        exact ⟨rfl, Or.inr ⟨program, rfl, notEnds, follows⟩⟩
      · have notEmpty := mt (TcpListener.isEmpty_iff program.listening.listener).mp empty
        have sees : program.step boost (.main behind calls) =
            (none, .ok { program with main := .taking }) := by
          simp [Program.step, Program.mainStep, isMain, notEmpty]
        have follows : Follows program (.main behind calls) { program with main := .taking } := by
          refine ⟨⟨started.handlers, started.queue, fun _ => empty⟩, ⟨[], ?_⟩, by simp, ?_⟩
          · exact (List.append_nil _).symm
          · exact iff_of_true rfl (Or.inr ⟨empty, behind, calls, rfl⟩)
        rw [sees]
        exact ⟨rfl, Or.inr ⟨_, rfl, notEnds, follows⟩⟩
    | taking =>
      -- the packet that was seen is still there, and the guard throws
      have throws := TcpListener.getNextPacket_of_ne_nil (started.seen isMain)
      have ends : program.step boost (.main behind calls) =
          (none, throwRuntimeError "Очередь пуста") := by
        simp only [Program.step, Program.mainStep, isMain, throws]
        rfl
      rw [ends]
      exact ⟨rfl, Or.inl ⟨.main isMain, (throws_runtimeError _).not_returns⟩⟩

/-! ## Runs -/

variable {steps before after : List ProgramStep} {next : Program}

/-- The program after some steps. -/
def coreRun (boost : PropertyTree Tree) (steps : List ProgramStep) : Cpp Program :=
  (Program.machine boost).run (.ok .start) steps

theorem run_of_ended (fault : Fault) (steps : List ProgramStep) :
    (Program.machine boost).run (.error fault) steps = .error fault := by
  induction steps with
  | nil => rfl
  | cons step steps inductionHypothesis => exact inductionHypothesis

theorem coreRun_append_singleton (steps : List ProgramStep) (step : ProgramStep) :
    coreRun boost (steps ++ [step]) =
      coreRun boost steps >>= fun program => (program.step boost step).2 := by
  rw [coreRun, Machine.run_append, ← coreRun, Machine.run_cons, Machine.run_nil]
  cases coreRun boost steps with
  | error fault => rfl
  | ok program => rfl

/-- Some step, with those in front of it. -/
def HappensIn (P : List ProgramStep → ProgramStep → Prop) (steps : List ProgramStep) : Prop :=
  ∃ before step after, steps = before ++ step :: after ∧ P before step

theorem not_happensIn_nil (P : List ProgramStep → ProgramStep → Prop) : ¬ HappensIn P [] := by
  rintro ⟨before, step, after, isSplit, _⟩
  simp at isSplit

theorem happensIn_append_singleton {P : List ProgramStep → ProgramStep → Prop} {step : ProgramStep} :
    HappensIn P (steps ++ [step]) ↔ HappensIn P steps ∨ P steps step := by
  constructor
  · rintro ⟨before, found, after, isSplit, holds⟩
    induction after using List.reverseRecOn with
    | nil =>
      obtain ⟨rfl, same⟩ := List.append_inj' isSplit rfl
      obtain rfl := List.singleton_inj.mp same
      exact Or.inr holds
    | append_singleton after last _ =>
      rw [← List.cons_append, ← List.append_assoc] at isSplit
      exact Or.inl ⟨before, found, after, (List.append_inj' isSplit rfl).1, holds⟩
  · rintro (⟨before, found, after, rfl, holds⟩ | holds)
    · exact ⟨before, found, after ++ [step], by simp, holds⟩
    · exact ⟨steps, step, [], rfl, holds⟩

def IsMain (step : ProgramStep) : Prop := ∃ behind calls, step = .main behind calls

/-- The program is running, and a packet waits. -/
def WaitsAfter (boost : PropertyTree Tree) (steps : List ProgramStep) : Prop :=
  ∃ program, coreRun boost steps = .ok program ∧ program.listening.listener.queue ≠ []

/-- The worker does not come to its socket. -/
def SocketFails : List ProgramStep → Prop :=
  HappensIn fun before step => (∀ earlier, .socket earlier ∉ before) ∧
    ∃ calls, step = .socket calls ∧ ¬ Returns (createSocketAndListen calls).1

/-- `main` makes a step when a packet waits. -/
def Sees (boost : PropertyTree Tree) : List ProgramStep → Prop :=
  HappensIn fun before step => IsMain step ∧ WaitsAfter boost before

/-- `main` makes one more step. -/
def Takes (boost : PropertyTree Tree) : List ProgramStep → Prop :=
  HappensIn fun before step => IsMain step ∧ Sees boost before

/-- What the steps have brought about in a program that is still running. -/
structure History (boost : PropertyTree Tree) (steps : List ProgramStep) (program : Program) : Prop where
  started : Started program
  hasSocket : program.hasSocket = true ↔ ∃ calls, .socket calls ∈ steps
  sees : program.main = .taking ↔ Sees boost steps

theorem history (reached : coreRun boost steps = .ok program) : History boost steps program := by
  induction steps using List.reverseRecOn generalizing program with
  | nil =>
    obtain rfl := Except.ok.inj reached
    refine ⟨started_start, ?_, ?_⟩
    · simp [Program.start]
    · exact iff_of_false (by simp [Program.start]) (not_happensIn_nil _)
  | append_singleton steps step inductionHypothesis =>
    rw [coreRun_append_singleton, bind_eq_ok] at reached
    obtain ⟨earlier, isEarlier, stepped⟩ := reached
    have earlierHistory := inductionHypothesis isEarlier
    obtain ⟨_, ⟨_, fails⟩ | ⟨later, isLater, _, follows⟩⟩ :=
      @step_cases _ boost earlier earlierHistory.started step
    · exact absurd ⟨program, stepped⟩ fails
    · obtain rfl := Except.ok.inj (isLater.symm.trans stepped)
      have waits : WaitsAfter boost steps ↔ earlier.listening.listener.queue ≠ [] := by
        simp [WaitsAfter, isEarlier]
      refine ⟨follows.started, ?_, ?_⟩
      · rw [follows.hasSocket, earlierHistory.hasSocket]
        simp [exists_or, eq_comm]
      · rw [follows.main, earlierHistory.sees, Sees, happensIn_append_singleton, waits]
        exact or_congr_right and_comm

/-- When the program ends. -/
theorem ended_iff (boost : PropertyTree Tree) (steps : List ProgramStep) :
    ¬ Returns (coreRun boost steps) ↔ SocketFails steps ∨ Takes boost steps := by
  induction steps using List.reverseRecOn with
  | nil =>
    refine iff_of_false (not_not_intro (returns_ok _)) ?_
    rintro (fails | takes)
    · exact not_happensIn_nil _ fails
    · exact not_happensIn_nil _ takes
  | append_singleton steps step inductionHypothesis =>
    rw [SocketFails, Takes, happensIn_append_singleton, happensIn_append_singleton, ← SocketFails,
      ← Takes, or_or_or_comm, ← inductionHypothesis, coreRun_append_singleton]
    cases reached : coreRun boost steps with
    -- a program that has ended stays so, and so does the reason for it
    | error fault => exact iff_of_true (not_returns_error fault) (Or.inl (not_returns_error fault))
    | ok program =>
      have isHistory := history reached
      rw [ok_bind, or_iff_right (not_not_intro (returns_ok program)), ← isHistory.sees]
      have noSocket : program.hasSocket = false ↔ ∀ earlier, .socket earlier ∉ steps := by
        rw [← Bool.not_eq_true, isHistory.hasSocket, not_exists]
      rw [← noSocket]
      have ends : Ends program step ↔
          (program.hasSocket = false ∧
            ∃ calls, step = .socket calls ∧ ¬ Returns (createSocketAndListen calls).1) ∨
          IsMain step ∧ program.main = .taking := by
        constructor
        · rintro (⟨without, fails⟩ | taking)
          · exact Or.inl ⟨without, _, rfl, fails⟩
          · exact Or.inr ⟨⟨_, _, rfl⟩, taking⟩
        · rintro (⟨without, calls, rfl, fails⟩ | ⟨⟨behind, calls, rfl⟩, taking⟩)
          · exact .socket without fails
          · exact .main taking
      rw [← ends]
      obtain ⟨_, ⟨isEnd, fails⟩ | ⟨later, isLater, goesOn, _⟩⟩ :=
        @step_cases _ boost program isHistory.started step
      · exact iff_of_true fails isEnd
      · rw [isLater]
        exact iff_of_false (not_not_intro (returns_ok later)) goesOn

/-- Nothing is taken from the queue. -/
theorem queue_prefix (start : Started program) (steps : List ProgramStep)
    (reached : (Program.machine boost).run (.ok program) steps = .ok next) :
    program.listening.listener.queue <+: next.listening.listener.queue := by
  induction steps generalizing program with
  | nil =>
    obtain rfl := Except.ok.inj reached
    exact List.prefix_rfl
  | cons step steps inductionHypothesis =>
    rw [Machine.run_cons] at reached
    change (Program.machine boost).run (program.step boost step).2 steps = .ok next at reached
    obtain ⟨_, ⟨_, fails⟩ | ⟨later, isLater, _, follows⟩⟩ := @step_cases _ boost program start step
    · cases stepped : (program.step boost step).2 with
      | ok later => exact absurd ⟨later, stepped⟩ fails
      | error fault =>
        rw [stepped, run_of_ended] at reached
        cases reached
    · rw [isLater] at reached
      obtain ⟨more, isMore⟩ := follows.queue
      exact (isMore ▸ List.prefix_append _ _).trans (inductionHypothesis follows.started reached)

/-- In every schedule the core passes nothing on, keeps all its packets, and ends exactly when the
    socket cannot be made or `main` makes two steps behind a packet. -/
theorem core_relays_nothing (boost : PropertyTree Tree) (steps : List ProgramStep) :
    (∀ output ∈ (Program.machine boost).outputs (.ok .start) steps, output = none) ∧
      (¬ Returns (coreRun boost steps) ↔ SocketFails steps ∨ Takes boost steps) ∧
      ∀ before after earlier later, steps = before ++ after → coreRun boost before = .ok earlier →
        coreRun boost steps = .ok later →
          earlier.listening.listener.queue <+: later.listening.listener.queue := by
  refine ⟨?_, ended_iff boost steps, ?_⟩
  · intro output member
    obtain ⟨before, step, after, rfl, rfl⟩ := Machine.exists_of_mem_outputs _ member
    rw [← coreRun]
    cases reached : coreRun boost before with
    | error fault => rfl
    | ok program => exact (step_cases (history reached).started step).1
  · rintro before after earlier later rfl reached reachedLater
    rw [coreRun, Machine.run_append, ← coreRun, reached] at reachedLater
    exact queue_prefix (history reached).started after reachedLater

end

end Klevret.Verified.Relay
