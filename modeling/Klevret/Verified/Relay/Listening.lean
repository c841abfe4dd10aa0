import Klevret.Base.Fairness
import Klevret.Common.Listening
import Mathlib.Algebra.GroupWithZero.Nat

/-! # Stopping the listener

The caller of `stop` waits for the worker, and the worker for the handlers.  So `stop` returns in
exactly those schedules in which every thread that is not at its end makes another step
(`stop_returns_iff`): one client who stays connected and silent is enough to hold it up.  Behind
the flag at most one packet more comes in from each handler (`drain_after_stop`), and behind
`stop` nothing happens any more, but the sockets of the clients are still open
(`nothing_after_stopped`). -/

namespace Klevret.Verified.Relay

open Klevret.Base Klevret.Common
open TcpListener (ReadResult packetOf)
open Listening (machine)

/-! ## The socket -/

/-- A socket that cannot be used is closed, unless the address was the reason. -/
theorem leaks_createSocketAndListen_iff (calls : ListenCalls) :
    (Throws (createSocketAndListen calls).1 ∧ (createSocketAndListen calls).2 ≠ []) ↔
      calls.socket ≠ -1 ∧ calls.setsockopt ≠ -1 ∧ calls.inetPton = -1 := by
  unfold createSocketAndListen
  split
  case isTrue noSocket => simp [noSocket]
  split
  case isTrue noOption => simp [noOption]
  split
  case isTrue noAddress => simp [*, throws_runtimeError]
  split
  case isTrue => simp [*]
  split
  case isTrue => simp [*]
  case isFalse => simp [*]

variable {state : Listening} {listener : TcpListener TcpPacket} {index : ℕ} {handler : HandlerState}

/-! ## One step of a handler -/

/-- Where a handler is after a step. -/
def handlerAfter (stopFlag : Bool) (result : ReadResult) : HandlerState → HandlerState
  | .testing => if stopFlag then .finished else .reading
  | .reading => (packetOf result).elim .testing .pushing
  | .pushing _ => .testing
  | .finished => .finished

/-- What a handler pushes in a step. -/
def packets : HandlerState → List TcpPacket
  | .pushing packet => [packet]
  | .testing | .reading | .finished => []

/-- What a handler does in a step, and that it does nothing else. -/
theorem handlerStep_eq (isHandler : state.handlers[index]? = some handler) (result : ReadResult) :
    state.handlerStep index result =
      { state with
        handlers := state.handlers.set index (handlerAfter state.stopFlag result handler)
        listener := ⟨state.listener.queue ++ packets handler⟩ } := by
  simp only [Listening.handlerStep, isHandler]
  cases handler with
  | testing => simp [handlerAfter, packets]
  | reading => simp [handlerAfter, packets]
  | pushing packet => rfl
  | finished =>
    obtain ⟨small, here⟩ := List.getElem?_eq_some_iff.mp isHandler
    simp [handlerAfter, packets, ← here]

theorem handlerStep_of_none (noHandler : state.handlers[index]? = none) (result : ReadResult) :
    state.handlerStep index result = state := by
  simp only [Listening.handlerStep, noHandler]

@[simp] theorem next_eq (state : Listening) (threadStep : ThreadStep) :
    machine.next state threadStep = state.step threadStep := rfl

/-! ## What holds all the time -/

/-- Who waits for whom. -/
structure Sound (state : Listening) : Prop where
  joining : ∀ index, state.worker = .joining index →
    state.stopFlag = true ∧ ∀ earlier < index, state.handlers[earlier]? = some .finished
  finished : state.worker = .finished →
    state.stopFlag = true ∧ (∀ handler ∈ state.handlers, handler = .finished) ∧
      state.serverSocketOpen = false
  clients : state.openClientSockets = state.handlers.length
  stopped : state.stopped = true → state.worker = .finished

theorem sound_new (listener : TcpListener TcpPacket) : Sound (.new listener) where
  joining _ isJoining := by cases isJoining
  finished isFinished := by cases isFinished
  clients := rfl
  stopped isStopped := by cases isStopped

theorem sound_workerStep (sound : Sound state) (accepted : Bool) :
    Sound (state.workerStep accepted) := by
  have notStopped : state.worker ≠ .finished → state.stopped = true → False :=
    fun unfinished isStopped => unfinished (sound.stopped isStopped)
  unfold Listening.workerStep
  split
  case h_1 isTesting =>
    split
    case isTrue flag =>
      refine ⟨?_, by simp, sound.clients, ?_⟩
      · rintro _ ⟨⟩
        exact ⟨flag, by simp⟩
      · simpa using notStopped (by simp [isTesting])
    case isFalse flag =>
      exact ⟨by simp, by simp, sound.clients, by simpa using notStopped (by simp [isTesting])⟩
  case h_2 isAccepting =>
    split
    · refine ⟨by simp, by simp, by simp [sound.clients], ?_⟩
      simpa using notStopped (by simp [isAccepting])
    · exact ⟨by simp, by simp, sound.clients, by simpa using notStopped (by simp [isAccepting])⟩
  case h_3 index isJoining =>
    obtain ⟨flag, earlierFinished⟩ := sound.joining index isJoining
    split
    case h_1 noHandler =>
      refine ⟨by simp, ?_, sound.clients, by simp⟩
      intro _
      refine ⟨flag, ?_, rfl⟩
      -- the worker has joined the last handler
      intro handler member
      obtain ⟨earlier, small, rfl⟩ := List.mem_iff_getElem.mp member
      have within : earlier < index := small.trans_le (List.getElem?_eq_none_iff.mp noHandler)
      simpa [small] using earlierFinished earlier within
    case h_2 isFinished =>
      refine ⟨?_, by simp, sound.clients, by simpa using notStopped (by simp [isJoining])⟩
      rintro _ ⟨⟩
      refine ⟨flag, ?_⟩
      intro earlier small
      obtain before | rfl := Nat.lt_succ_iff_lt_or_eq.mp small
      · exact earlierFinished earlier before
      · exact isFinished
    case h_3 => exact sound
  case h_4 => exact sound

theorem sound_handlerStep (sound : Sound state) (index : ℕ) (result : ReadResult) :
    Sound (state.handlerStep index result) := by
  cases isHandler : state.handlers[index]? with
  | none =>
    rw [handlerStep_of_none isHandler]
    exact sound
  | some handler =>
    -- a handler that is at its end stays there
    have keepsFinished : handler = .finished →
        handlerAfter state.stopFlag result handler = .finished := by
      rintro rfl
      rfl
    rw [handlerStep_eq isHandler]
    -- so nobody whom the worker has joined starts again
    refine ⟨?_, ?_, by simp [sound.clients], sound.stopped⟩
    · intro joined isJoining
      obtain ⟨flag, earlierFinished⟩ := sound.joining joined isJoining
      refine ⟨flag, ?_⟩
      intro earlier small
      have isFinished := earlierFinished earlier small
      grind
    · intro isFinished
      obtain ⟨flag, allFinished, closed⟩ := sound.finished isFinished
      refine ⟨flag, ?_, closed⟩
      intro other member
      obtain isOther | rfl := List.mem_or_eq_of_mem_set member
      · exact allFinished other isOther
      · exact keepsFinished (allFinished handler (List.mem_of_getElem? isHandler))

theorem sound_step (state : Listening) (threadStep : ThreadStep) (sound : Sound state) :
    Sound (state.step threadStep) := by
  cases threadStep with
  | worker accepted => exact sound_workerStep sound accepted
  | handler index result => exact sound_handlerStep sound index result
  | stop =>
    refine ⟨?_, ?_, sound.clients, sound.stopped⟩
    · intro index isJoining
      exact ⟨rfl, (sound.joining index isJoining).2⟩
    · intro isFinished
      exact ⟨rfl, (sound.finished isFinished).2⟩
  | joined =>
    simp only [Listening.step]
    split
    case isTrue joins => exact ⟨sound.joining, sound.finished, sound.clients, fun _ => joins.2⟩
    case isFalse => exact sound

theorem sound_run (listener : TcpListener TcpPacket) (schedule : List ThreadStep) :
    Sound (machine.run (.new listener) schedule) :=
  Machine.run_invariant sound_step (sound_new listener) schedule

theorem sound_stateAt (listener : TcpListener TcpPacket) (schedule : ℕ → ThreadStep) (time : ℕ) :
    Sound (machine.stateAt (.new listener) schedule time) := by
  have atStart : Sound (machine.stateAt (.new listener) schedule 0) := sound_new listener
  exact Machine.stateAt_invariant sound_step atStart (Nat.zero_le time)

/-- The flag stays up. -/
theorem stopFlag_step (state : Listening) (threadStep : ThreadStep) (flag : state.stopFlag = true) :
    (state.step threadStep).stopFlag = true := by
  cases threadStep with
  | worker accepted =>
    simp only [Listening.step, Listening.workerStep]
    split <;> (try split) <;> exact flag
  | handler index result =>
    cases isHandler : state.handlers[index]? with
    | none => rwa [Listening.step, handlerStep_of_none isHandler]
    | some handler => rwa [Listening.step, handlerStep_eq isHandler]
  | stop => rfl
  | joined =>
    simp only [Listening.step]
    split <;> exact flag

/-! ## Behind the return of `stop` -/

/-- Whatever is scheduled then changes nothing. -/
theorem step_of_stopped (sound : Sound state) (stopped : state.stopped = true)
    (threadStep : ThreadStep) : state.step threadStep = state := by
  have isFinished := sound.stopped stopped
  obtain ⟨flag, allFinished, _⟩ := sound.finished isFinished
  cases threadStep with
  | worker accepted => simp only [Listening.step, Listening.workerStep, isFinished]
  | handler index result =>
    cases isHandler : state.handlers[index]? with
    | none => exact handlerStep_of_none isHandler result
    | some handler =>
      obtain rfl := allFinished handler (List.mem_of_getElem? isHandler)
      simp only [Listening.step, Listening.handlerStep, isHandler]
  | stop =>
    change { state with stopFlag := true } = state
    rw [← flag]
  | joined =>
    change (if _ then { state with stopped := true } else state) = state
    rw [if_pos ⟨flag, isFinished⟩, ← stopped]

/-- Once `stop` has returned nothing happens any more: all threads are at their end and the socket
    of the server is closed, while those of all clients stay open. -/
theorem nothing_after_stopped (listener : TcpListener TcpPacket) (before after : List ThreadStep)
    (stopped : (machine.run (.new listener) before).stopped = true) :
    machine.run (.new listener) (before ++ after) = machine.run (.new listener) before ∧
      (∀ handler ∈ (machine.run (.new listener) before).handlers, handler = .finished) ∧
      (machine.run (.new listener) before).serverSocketOpen = false ∧
      (machine.run (.new listener) before).openClientSockets =
        (machine.run (.new listener) before).handlers.length := by
  have sound := sound_run listener before
  obtain ⟨_, allFinished, closed⟩ := sound.finished (sound.stopped stopped)
  refine ⟨?_, allFinished, closed, sound.clients⟩
  rw [Machine.run_append]
  refine @Machine.run_invariant _ _ _ machine (· = machine.run (.new listener) before) ?_ _ rfl after
  rintro _ threadStep rfl
  exact step_of_stopped sound stopped threadStep

/-- A client connects, and its handler finds the flag raised. -/
def shutdown : List ThreadStep :=
  [.worker true, .worker true, .stop, .worker false, .handler 0 none, .worker false, .worker false,
    .joined]

theorem nothing_after_shutdown :
    machine.run (.new .new) (shutdown ++ [.worker true, .handler 0 none]) =
        machine.run (.new .new) shutdown ∧
      (machine.run (.new .new) shutdown).openClientSockets = 1 := by
  obtain ⟨same, _, _, clients⟩ :=
    nothing_after_stopped .new shutdown [.worker true, .handler 0 none] (by decide)
  exact ⟨same, clients⟩

/-! ## Behind the flag -/

/-- What one element contributes to a sum over all of them. -/
theorem sum_map_set {Element : Type} (weight : Element → ℕ) {elements : List Element} {old : Element}
    (isOld : elements[index]? = some old) (new : Element) :
    ((elements.set index new).map weight).sum + weight old =
      (elements.map weight).sum + weight new := by
  induction elements generalizing index with
  | nil => cases isOld
  | cons element elements inductionHypothesis =>
    cases index with
    | zero =>
      cases isOld
      simp only [List.set_cons_zero, List.map_cons, List.sum_cons]
      omega
    | succ index =>
      have rest := inductionHypothesis isOld
      simp only [List.set_cons_succ, List.map_cons, List.sum_cons]
      omega

/-- A handler is active when it has tested the flag before it was raised. -/
def activity : HandlerState → ℕ
  | .reading | .pushing _ => 1
  | .testing | .finished => 0

def activeHandlers (handlers : List HandlerState) : ℕ := (handlers.map activity).sum

/-- A worker that has tested the flag before it was raised may take one client more. -/
def acceptsOne : WorkerState → ℕ
  | .accepting => 1
  | .testing | .joining _ | .finished => 0

/-- What may still come in. -/
structure Drains (before after : Listening) : Prop where
  flag : after.stopFlag = true
  queue : ∃ more, after.listener.queue = before.listener.queue ++ more ∧
    more.length + activeHandlers after.handlers ≤ activeHandlers before.handlers
  clients : after.openClientSockets + acceptsOne after.worker ≤
    before.openClientSockets + acceptsOne before.worker

theorem Drains.refl (flag : state.stopFlag = true) : Drains state state :=
  ⟨flag, ⟨[], by simp⟩, Nat.le_refl _⟩

theorem Drains.trans {before between after : Listening} (first : Drains before between)
    (second : Drains between after) : Drains before after := by
  obtain ⟨_, ⟨more, isMore, fewer⟩, clients⟩ := first
  obtain ⟨flag, ⟨later, isLater, fewerLater⟩, clientsLater⟩ := second
  refine ⟨flag, ⟨more ++ later, by rw [isLater, isMore, List.append_assoc], ?_⟩,
    clientsLater.trans clients⟩
  rw [List.length_append]
  omega

/-- A packet that is pushed comes from a handler that is not active any more. -/
theorem packets_le_activity (result : ReadResult) (handler : HandlerState) :
    (packets handler).length + activity (handlerAfter true result handler) ≤ activity handler := by
  cases handler with
  | testing => simp [packets, handlerAfter, activity]
  | reading =>
    cases isPacket : packetOf result with
    | none => simp [packets, handlerAfter, isPacket, activity]
    | some packet => simp [packets, handlerAfter, isPacket, activity]
  | pushing packet => simp [packets, handlerAfter, activity]
  | finished => simp [packets, handlerAfter, activity]

theorem drains_workerStep (flag : state.stopFlag = true) (accepted : Bool) :
    Drains state (state.workerStep accepted) := by
  unfold Listening.workerStep
  split
  case h_1 isTesting =>
    rw [if_pos flag]
    exact ⟨flag, ⟨[], by simp⟩, by simp [acceptsOne]⟩
  case h_2 isAccepting =>
    split
    · -- the handler of the new client is going to find the flag raised
      refine ⟨flag, ⟨[], by simp [activeHandlers, activity]⟩, by simp [isAccepting, acceptsOne]⟩
    · exact ⟨flag, ⟨[], by simp⟩, by simp [acceptsOne]⟩
  case h_3 index isJoining =>
    split
    · exact ⟨flag, ⟨[], by simp⟩, by simp [acceptsOne]⟩
    · exact ⟨flag, ⟨[], by simp⟩, by simp [acceptsOne]⟩
    · exact Drains.refl flag
  case h_4 => exact Drains.refl flag

theorem drains_step (state : Listening) (threadStep : ThreadStep) (flag : state.stopFlag = true) :
    Drains state (state.step threadStep) := by
  cases threadStep with
  | worker accepted => exact drains_workerStep flag accepted
  | handler index result =>
    cases isHandler : state.handlers[index]? with
    | none =>
      rw [Listening.step, handlerStep_of_none isHandler]
      exact Drains.refl flag
    | some handler =>
      rw [Listening.step, handlerStep_eq isHandler, flag]
      refine ⟨rfl, ⟨packets handler, rfl, ?_⟩, Nat.le_refl _⟩
      have pushed := packets_le_activity result handler
      have others := sum_map_set activity isHandler (handlerAfter true result handler)
      simp only [activeHandlers]
      omega
  | stop => exact ⟨rfl, ⟨[], by simp [Listening.step]⟩, Nat.le_refl _⟩
  | joined =>
    simp only [Listening.step]
    split
    · exact ⟨flag, ⟨[], by simp⟩, Nat.le_refl _⟩
    · exact Drains.refl flag

theorem drains_run (flag : state.stopFlag = true) (schedule : List ThreadStep) :
    Drains state (machine.run state schedule) := by
  refine @Machine.run_invariant _ _ _ machine (Drains state) ?_ _ (Drains.refl flag) schedule
  intro between threadStep drains
  exact drains.trans (drains_step between threadStep drains.flag)

theorem stopFlag_run_of_mem {schedule : List ThreadStep} (raised : .stop ∈ schedule) :
    (machine.run state schedule).stopFlag = true := by
  obtain ⟨before, after, rfl⟩ := List.append_of_mem raised
  rw [Machine.run_append, Machine.run_cons]
  exact @Machine.run_invariant _ _ _ machine (·.stopFlag = true) stopFlag_step _ rfl after

/-- From the raising of the flag on, the worker takes one client more if it is waiting for one, and
    every handler that is not testing the flag at that time pushes one packet more at most. -/
theorem drain_after_stop (listener : TcpListener TcpPacket) (before after : List ThreadStep) :
    Drains (machine.run (.new listener) (before ++ [.stop]))
      (machine.run (.new listener) (before ++ .stop :: after)) := by
  have split : before ++ .stop :: after = before ++ [.stop] ++ after := by simp
  rw [split, Machine.run_append _ _ (before ++ [ThreadStep.stop])]
  exact drains_run (stopFlag_run_of_mem (by simp)) after

/-! ## Who has to act -/

/-- The threads that make the steps; the caller waits in `stop`. -/
inductive ListenerThread where
  | worker
  | handler (index : ℕ)
  | caller
deriving DecidableEq, Repr

/-- Who makes a step. -/
def IsStepOf : ListenerThread → ThreadStep → Prop
  | .worker, .worker _ => True
  | .handler index, .handler acting _ => acting = index
  | .caller, .joined => True
  | _, _ => False

/-- The thread is not at its end. -/
def Unfinished (state : Listening) : ListenerThread → Prop
  | .worker => state.worker ≠ .finished
  | .handler index => ∃ handler, state.handlers[index]? = some handler ∧ handler ≠ .finished
  | .caller => state.stopped = false

/-- How many steps a handler still makes once the flag is raised. -/
def HandlerState.stepsLeft : HandlerState → ℕ
  | .finished => 0
  | .testing => 1
  | .pushing _ => 2
  | .reading => 3

/-- How many steps the worker still makes, and with it the handler of a last client. -/
def WorkerState.stepsLeft (handlers : ℕ) : WorkerState → ℕ
  | .finished => 0
  | .joining index => handlers - index + 1
  | .testing => handlers + 2
  | .accepting => handlers + 5

def stepsLeft (state : Listening) : ℕ :=
  (state.handlers.map HandlerState.stepsLeft).sum +
    WorkerState.stepsLeft state.handlers.length state.worker + (!state.stopped).toNat

/-- With the flag up, a handler that makes a step has one less to make. -/
theorem handlerAfter_lowers (result : ReadResult) (unfinished : handler ≠ .finished) :
    HandlerState.stepsLeft (handlerAfter true result handler) < HandlerState.stepsLeft handler := by
  cases handler with
  | testing => simp [handlerAfter, HandlerState.stepsLeft]
  | reading =>
    cases isPacket : packetOf result with
    | none => simp [handlerAfter, isPacket, HandlerState.stepsLeft]
    | some packet => simp [handlerAfter, isPacket, HandlerState.stepsLeft]
  | pushing packet => simp [handlerAfter, HandlerState.stepsLeft]
  | finished => exact absurd rfl unfinished

theorem handlerStep_lowers (flag : state.stopFlag = true)
    (isHandler : state.handlers[index]? = some handler) (unfinished : handler ≠ .finished)
    (result : ReadResult) : stepsLeft (state.handlerStep index result) < stepsLeft state := by
  have lower := handlerAfter_lowers result unfinished
  have others := sum_map_set HandlerState.stepsLeft isHandler (handlerAfter true result handler)
  rw [handlerStep_eq isHandler, flag]
  simp only [stepsLeft, List.length_set]
  omega

/-- With the flag up, the worker goes on unless it waits for a handler. -/
theorem workerStep_lowers (flag : state.stopFlag = true) (unfinished : state.worker ≠ .finished)
    (joins : ∀ index, state.worker = .joining index →
      ∀ handler, state.handlers[index]? = some handler → handler = .finished) (accepted : Bool) :
    stepsLeft (state.workerStep accepted) < stepsLeft state := by
  unfold Listening.workerStep
  split
  case h_1 isTesting => simp [flag, stepsLeft, isTesting, WorkerState.stepsLeft]
  case h_2 isAccepting =>
    split
    · simp [stepsLeft, isAccepting, WorkerState.stepsLeft, HandlerState.stepsLeft]
      omega
    · simp [stepsLeft, isAccepting, WorkerState.stepsLeft]
  case h_3 index isJoining =>
    split
    case h_1 => simp [stepsLeft, isJoining, WorkerState.stepsLeft]
    case h_2 isFinished =>
      have small := (List.getElem?_eq_some_iff.mp isFinished).choose
      simp [stepsLeft, isJoining, WorkerState.stepsLeft]
      omega
    case h_3 handler notFinished isHandler =>
      exact absurd (joins index isJoining handler isHandler) (by simpa using notFinished)
  case h_4 isFinished => exact absurd isFinished unfinished

/-- With the flag up, a step changes nothing, or there is one less to make. -/
theorem step_lowers (state : Listening) (threadStep : ThreadStep) (flag : state.stopFlag = true) :
    state.step threadStep = state ∨ stepsLeft (state.step threadStep) < stepsLeft state := by
  cases threadStep with
  | worker accepted =>
    by_cases unfinished : state.worker = .finished
    · left
      simp only [Listening.step, Listening.workerStep, unfinished]
    by_cases joins : ∀ index, state.worker = .joining index →
        ∀ handler, state.handlers[index]? = some handler → handler = .finished
    · exact Or.inr (workerStep_lowers flag unfinished joins accepted)
    · -- the worker waits for a handler
      left
      push Not at joins
      obtain ⟨index, isJoining, handler, isHandler, running⟩ := joins
      simp only [Listening.step, Listening.workerStep, isJoining, isHandler]
  | handler index result =>
    cases isHandler : state.handlers[index]? with
    | none => exact Or.inl (handlerStep_of_none isHandler result)
    | some handler =>
      by_cases unfinished : handler = .finished
      · left
        simp only [Listening.step, Listening.handlerStep, isHandler, unfinished]
      · exact Or.inr (handlerStep_lowers flag isHandler unfinished result)
  | stop =>
    left
    change { state with stopFlag := true } = state
    rw [← flag]
  | joined =>
    simp only [Listening.step]
    split
    case isTrue joins =>
      by_cases stopped : state.stopped = true
      · left
        rw [← stopped]
      · right
        simp [stepsLeft, stopped]
    case isFalse => exact Or.inl rfl

/-- Someone can always go on: the caller when the worker is at its end, the worker when it does not
    wait for a handler, and else that handler. -/
theorem someone_works (flag : state.stopFlag = true) (notStopped : ¬ state.stopped = true) :
    ∃ thread, Unfinished state thread ∧ ∀ threadStep, IsStepOf thread threadStep →
      stepsLeft (state.step threadStep) < stepsLeft state := by
  by_cases unfinished : state.worker = .finished
  · -- the worker has nothing left to wait for, so `join` in `stop` returns
    refine ⟨.caller, by simpa [Unfinished] using notStopped, ?_⟩
    intro threadStep acts
    cases threadStep with
    | joined =>
      simp only [Listening.step, if_pos (And.intro flag unfinished)]
      simp [stepsLeft, notStopped]
    | worker accepted | handler index result | stop => cases acts
  by_cases joins : ∀ index, state.worker = .joining index →
      ∀ handler, state.handlers[index]? = some handler → handler = .finished
  · refine ⟨.worker, unfinished, ?_⟩
    intro threadStep acts
    cases threadStep with
    | worker accepted => exact workerStep_lowers flag unfinished joins accepted
    | handler index result | stop | joined => cases acts
  · push Not at joins
    obtain ⟨index, _, handler, isHandler, running⟩ := joins
    refine ⟨.handler index, ⟨handler, isHandler, running⟩, ?_⟩
    intro threadStep acts
    cases threadStep with
    | handler acting result =>
      obtain rfl : acting = index := acts
      exact handlerStep_lowers flag isHandler running result
    | worker accepted | stop | joined => cases acts

/-- A handler leaves the other threads alone. -/
theorem handlerStep_frame (state : Listening) (index : ℕ) (result : ReadResult) :
    (state.handlerStep index result).worker = state.worker ∧
      (state.handlerStep index result).stopped = state.stopped ∧
      ∀ other ≠ index, (state.handlerStep index result).handlers[other]? = state.handlers[other]? := by
  cases isHandler : state.handlers[index]? with
  | none =>
    rw [handlerStep_of_none isHandler]
    exact ⟨rfl, rfl, fun _ _ => rfl⟩
  | some handler =>
    rw [handlerStep_eq isHandler]
    exact ⟨rfl, rfl, fun other isOther => List.getElem?_set_ne (Ne.symm isOther)⟩

/-- The worker leaves its handlers alone, and starts new ones. -/
theorem workerStep_frame (state : Listening) (accepted : Bool) :
    (state.workerStep accepted).stopped = state.stopped ∧
      state.handlers <+: (state.workerStep accepted).handlers := by
  unfold Listening.workerStep
  split
  case h_1 => split <;> exact ⟨rfl, List.prefix_rfl⟩
  case h_2 =>
    split
    · exact ⟨rfl, List.prefix_append _ _⟩
    · exact ⟨rfl, List.prefix_rfl⟩
  case h_3 => split <;> exact ⟨rfl, List.prefix_rfl⟩
  case h_4 => exact ⟨rfl, List.prefix_rfl⟩

/-- Only a thread itself gets to its end. -/
theorem unfinished_step {thread : ListenerThread} (state : Listening) (threadStep : ThreadStep)
    (unfinished : Unfinished state thread) (notActing : ¬ IsStepOf thread threadStep) :
    Unfinished (state.step threadStep) thread := by
  cases threadStep with
  | worker accepted =>
    obtain ⟨sameStopped, isPrefix⟩ := workerStep_frame state accepted
    cases thread with
    | worker => exact absurd trivial notActing
    | handler index =>
      obtain ⟨handler, isHandler, running⟩ := unfinished
      obtain ⟨more, isMore⟩ := isPrefix
      refine ⟨handler, ?_, running⟩
      change (state.workerStep accepted).handlers[index]? = some handler
      rw [← isMore, List.getElem?_append_left (List.getElem?_eq_some_iff.mp isHandler).choose,
        isHandler]
    | caller => exact sameStopped.trans unfinished
  | handler acting result =>
    obtain ⟨sameWorker, sameStopped, sameHandlers⟩ := handlerStep_frame state acting result
    cases thread with
    | worker =>
      intro isFinished
      exact unfinished (sameWorker.symm.trans isFinished)
    | handler index =>
      obtain ⟨handler, isHandler, running⟩ := unfinished
      exact ⟨handler, (sameHandlers index (Ne.symm notActing)).trans isHandler, running⟩
    | caller => exact sameStopped.trans unfinished
  | stop => exact unfinished
  | joined =>
    cases thread with
    | caller => exact absurd trivial notActing
    | worker | handler index =>
      simp only [Listening.step]
      split <;> exact unfinished

/-! ## `stop` -/

/-- Nobody is left when `stop` has returned. -/
theorem finished_of_stopped (sound : Sound state) (stopped : state.stopped = true)
    (thread : ListenerThread) : ¬ Unfinished state thread := by
  have isFinished := sound.stopped stopped
  obtain ⟨_, allFinished, _⟩ := sound.finished isFinished
  intro unfinished
  cases thread with
  | worker => exact unfinished isFinished
  | handler index =>
    obtain ⟨handler, isHandler, running⟩ := unfinished
    exact running (allFinished handler (List.mem_of_getElem? isHandler))
  | caller =>
    rw [Unfinished, stopped] at unfinished
    cases unfinished

/-- The flag is up from some time on. -/
theorem stopFlag_stateAt {start : Listening} {schedule : ℕ → ThreadStep} {time : ℕ}
    (isStop : schedule time = .stop) :
    (machine.stateAt start schedule (time + 1)).stopFlag = true := by
  rw [Machine.stateAt_succ, isStop]
  rfl

theorem stopped_step (state : Listening) (threadStep : ThreadStep)
    (stopped : Sound state ∧ state.stopped = true) :
    Sound (state.step threadStep) ∧ (state.step threadStep).stopped = true := by
  rwa [step_of_stopped stopped.1 stopped.2]

/-- When `stop` is called, it returns exactly in the schedules in which no thread comes to a halt
    before its end: neither the worker in `accept` nor a handler in `read` waits for ever. -/
theorem stop_returns_iff (listener : TcpListener TcpPacket) (schedule : ℕ → ThreadStep)
    (raised : ∃ time, schedule time = .stop) :
    (∃ time, (machine.stateAt (.new listener) schedule time).stopped = true) ↔
      ∀ time thread, Unfinished (machine.stateAt (.new listener) schedule time) thread →
        ∃ later, time ≤ later ∧ IsStepOf thread (schedule later) := by
  constructor
  · rintro ⟨returned, stopped⟩ time thread unfinished
    have sound := sound_stateAt listener schedule returned
    obtain ordered | ordered := Nat.le_total time returned
    · -- at its end by then, the thread has made a step of its own in between
      exact @Machine.exists_input_of_lost _ _ _ machine _ _ _ _ (Unfinished · thread)
        (IsStepOf thread) unfinished_step ordered unfinished
        (finished_of_stopped sound stopped thread)
    · obtain ⟨soundThen, stoppedThen⟩ := @Machine.stateAt_invariant _ _ _ machine _ _ _ _
        (fun state => Sound state ∧ state.stopped = true) stopped_step ⟨sound, stopped⟩ ordered
      exact absurd unfinished (finished_of_stopped soundThen stoppedThen thread)
  · intro fair
    obtain ⟨time, isStop⟩ := raised
    exact @Machine.reaches_of_fair _ _ _ _ machine _ _ _ (·.stopFlag = true) (·.stopped = true)
      stepsLeft Unfinished IsStepOf stopFlag_step step_lowers (fun _ => someone_works) fair
      (stopFlag_stateAt isStop)

/-- A client connects and sends nothing; then `stop` is called. -/
def silentClient : ℕ → ThreadStep
  | 0 | 1 => .worker true
  | 2 => .handler 0 none
  | 3 => .stop
  | time + 4 => if time % 2 = 0 then .worker false else .joined

/-- `stop` does not return as long as this client stays connected. -/
theorem silent_client_holds_up_stop :
    ¬ ∃ time, (machine.stateAt (.new .new) silentClient time).stopped = true := by
  rw [stop_returns_iff .new silentClient ⟨3, rfl⟩]
  intro fair
  -- the handler waits in `read` and is never scheduled again
  have reading : Unfinished (machine.stateAt (.new .new) silentClient 3) (.handler 0) :=
    ⟨.reading, by decide, by decide⟩
  obtain ⟨later, ordered, acts⟩ := fair 3 (.handler 0) reading
  obtain ⟨time, rfl⟩ | rfl : (∃ time, later = time + 4) ∨ later = 3 := by
    by_cases isStop : later = 3
    · exact Or.inr isStop
    · exact Or.inl ⟨later - 4, by omega⟩
  · simp only [silentClient] at acts
    split at acts
    · exact acts
    · exact acts
  · exact acts

end Klevret.Verified.Relay
