import Klevret.Common.Worker

/-! # One worker at a time

A call of `stop` ends the worker that the constructor or the last `start` made, and
nothing records that it did.  So the listener owns its workers exactly when every `stop` is
followed by a `start` and every `start` comes behind a `stop` (`ownsWorkers_iff`): then it
is a listener with one worker whenever the destructor may come. -/

namespace Klevret.Verified.Relay

open Klevret.Base Klevret.Common

/-! ## What is asked of a life -/

/-- Each worker is joined and released once, and not joined behind its release. -/
structure EachWorkerOnce (workers : Workers) : Prop where
  joined : ∀ worker < workers.phases.length, workers.events.count (.joined worker) = 1
  released : ∀ worker < workers.phases.length, workers.events.count (.released worker) = 1
  inOrder : workers.events.Pairwise fun earlier later =>
    ∀ worker, earlier = .released worker → later ≠ .joined worker

/-- The listener owns its workers through its life with these calls. -/
structure OwnsWorkers (calls : List WorkerCall) : Prop where
  ended : ∃ last, Workers.life calls = .ok last ∧ EachWorkerOnce last
  atMostOne : ∀ before, before <+: calls → ∀ workers, Workers.alive before = .ok workers →
    workers.phases.count .running ≤ 1

/-- Every `stop` is followed by a `start`, and there is no other one. -/
inductive Alternates : List WorkerCall → Prop
  | nil : Alternates []
  | restart {calls : List WorkerCall} (rest : Alternates calls) :
      Alternates (.stop :: .start :: calls)

/-! ## The states of a listener that is restarted -/

/-- What is done to the first workers, one after the other. -/
def settled (count : ℕ) : List WorkerEvent :=
  (List.range count).flatMap fun worker => [.created worker, .joined worker, .released worker]

/-- The worker `worker` runs, and those before it are gone. -/
def active (worker : ℕ) : Workers where
  thread := some worker
  stopFlag := false
  phases := List.replicate worker .released ++ [.running]
  events := settled worker ++ [.created worker]

/-- The worker `worker` is gone, too, and `_thread` still points to it. -/
def idle (worker : ℕ) : Workers where
  thread := some worker
  stopFlag := true
  phases := List.replicate (worker + 1) .released
  events := settled (worker + 1)

variable {worker count : ℕ} {calls before : List WorkerCall}

theorem settled_succ (count : ℕ) :
    settled (count + 1) =
      settled count ++ [.created count, .joined count, .released count] := by
  simp [settled, List.range_succ]

@[simp] theorem construct_eq : Workers.construct = active 0 := rfl

@[simp] theorem start_idle : (idle worker).start = active (worker + 1) := by
  simp [Workers.start, Workers.create, idle, active]

@[simp] theorem stop_active : (active worker).stop = .ok (idle worker) := by
  simp [Workers.stop, Workers.join, Workers.release, active, idle, settled_succ,
    List.replicate_succ']

/-- A second `stop` joins a worker whose handle is gone. -/
@[simp] theorem stop_idle : (idle worker).stop = undefinedBehaviour := by
  simp [Workers.stop, Workers.join, idle, undefinedBehaviour]

/-- A second `start` makes a second worker. -/
theorem count_running_start_active : (active worker).start.phases.count .running = 2 := by
  simp [Workers.start, Workers.create, active, List.count_replicate]

theorem count_running_active : (active worker).phases.count .running = 1 := by
  simp [active, List.count_replicate]

theorem count_running_idle : (idle worker).phases.count .running = 0 := by
  simp [idle, List.count_replicate]

/-! ## What has been done to the workers -/

/-- An event that every worker has once is in the list once for each of the first workers. -/
theorem count_settled {event : WorkerEvent}
    (once : ∀ count, [WorkerEvent.created count, .joined count, .released count].count event =
      if worker = count then 1 else 0) :
    (settled count).count event = if worker < count then 1 else 0 := by
  induction count with
  | zero => rfl
  | succ count inductionHypothesis =>
    rw [settled_succ, List.count_append, inductionHypothesis, once]
    grind

theorem lt_of_released_mem (member : .released worker ∈ settled count) : worker < count := by
  simpa [settled] using member

theorem pairwise_settled (count : ℕ) :
    (settled count).Pairwise fun earlier later =>
      ∀ worker, earlier = .released worker → later ≠ .joined worker := by
  induction count with
  | zero => exact List.Pairwise.nil
  | succ count inductionHypothesis =>
    rw [settled_succ, List.pairwise_append]
    refine ⟨inductionHypothesis, by simp, ?_⟩
    rintro _ isEarlier later isLater worker rfl rfl
    -- the worker that is joined now is not among the earlier ones
    have small := lt_of_released_mem isEarlier
    simp at isLater
    omega

theorem eachWorkerOnce_idle (worker : ℕ) : EachWorkerOnce (idle worker) := by
  have workers : (idle worker).phases.length = worker + 1 := List.length_replicate
  constructor
  · intro other small
    have once : ∀ count, [WorkerEvent.created count, .joined count, .released count].count
        (.joined other) = if other = count then 1 else 0 := by grind
    rw [idle, count_settled once, if_pos (workers ▸ small)]
  · intro other small
    have once : ∀ count, [WorkerEvent.created count, .joined count, .released count].count
        (.released other) = if other = count then 1 else 0 := by grind
    rw [idle, count_settled once, if_pos (workers ▸ small)]
  · exact pairwise_settled (worker + 1)

/-! ## Restarted listeners -/

theorem reached_of_alternates (alternates : Alternates calls) (worker : ℕ) :
    ∃ last, calls.foldlM Workers.call (active worker) = .ok (active last) := by
  induction alternates generalizing worker with
  | nil => exact ⟨worker, rfl⟩
  | restart rest inductionHypothesis =>
    obtain ⟨last, isLast⟩ := inductionHypothesis (worker + 1)
    exact ⟨last, by simpa [Workers.call] using isLast⟩

theorem count_running_of_alternates (alternates : Alternates calls) {workers : Workers}
    (isPrefix : before <+: calls)
    (reached : before.foldlM Workers.call (active worker) = .ok workers) :
    workers.phases.count .running ≤ 1 := by
  induction alternates generalizing worker before with
  | nil =>
    obtain rfl := List.prefix_nil.mp isPrefix
    cases reached
    exact Nat.le_of_eq count_running_active
  | restart rest inductionHypothesis =>
    cases before with
    | nil =>
      cases reached
      exact Nat.le_of_eq count_running_active
    | cons first before =>
      obtain ⟨rfl, restPrefix⟩ := List.cons_prefix_cons.mp isPrefix
      cases before with
      | nil =>
        simp only [List.foldlM_cons, Workers.call, stop_active, ok_bind] at reached
        cases reached
        simp [count_running_idle]
      | cons second before =>
        obtain ⟨rfl, laterPrefix⟩ := List.cons_prefix_cons.mp restPrefix
        apply inductionHypothesis laterPrefix
        simpa [Workers.call] using reached

/-- A life that goes well is made of restarts. -/
theorem alternates_of_ended :
    ∀ (calls : List WorkerCall) (worker : ℕ),
      Returns (calls.foldlM Workers.call (active worker) >>= Workers.stop) →
      (∀ before, before <+: calls → ∀ workers,
        before.foldlM Workers.call (active worker) = .ok workers →
          workers.phases.count .running ≤ 1) →
      Alternates calls
  | [], _, _, _ => .nil
  | .start :: calls, worker, _, atMostOne => by
    have two := atMostOne [.start] (List.prefix_append [.start] calls) _ rfl
    rw [count_running_start_active] at two
    omega
  | [.stop], worker, ended, _ => by
    -- the destructor comes upon a worker that is gone
    simp [Workers.call, undefinedBehaviour] at ended
  | .stop :: .stop :: calls, worker, ended, _ => by
    simp [Workers.call, undefinedBehaviour] at ended
  | .stop :: .start :: calls, worker, ended, atMostOne => by
    apply Alternates.restart
    apply alternates_of_ended calls (worker + 1) (by simpa [Workers.call] using ended)
    intro before isPrefix workers reached
    apply atMostOne (.stop :: .start :: before)
    · simpa [List.cons_prefix_cons] using isPrefix
    · simpa [Workers.call] using reached

/-- Workers are owned exactly while every `stop` is made good by a `start`. -/
theorem ownsWorkers_iff (calls : List WorkerCall) : OwnsWorkers calls ↔ Alternates calls := by
  constructor
  · intro owns
    obtain ⟨last, isLast, _⟩ := owns.ended
    exact alternates_of_ended calls 0 ⟨last, isLast⟩ owns.atMostOne
  · intro alternates
    constructor
    · obtain ⟨last, isLast⟩ := reached_of_alternates alternates 0
      refine ⟨idle last, ?_, eachWorkerOnce_idle last⟩
      rw [Workers.life, Workers.alive, construct_eq, isLast, ok_bind, stop_active]
    · intro before isPrefix workers reached
      exact count_running_of_alternates alternates isPrefix reached

/-- A listener that is stopped and then destroyed joins its worker twice. -/
theorem not_ownsWorkers_of_stop : ¬ OwnsWorkers [.stop] := by
  intro owns
  obtain ⟨last, isLast, _⟩ := owns.ended
  cases isLast

end Klevret.Verified.Relay
