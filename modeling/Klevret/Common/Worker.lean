import Klevret.Base.Cpp

/-! # The worker thread of the listener (`TcpListener.hpp`, `TcoListener.cpp`)

`start` makes a `std::thread` on the heap, and `stop` joins and deletes the one that `_thread`
points to.  The workers that were made are numbered: `_thread` is a number, and what became of
each worker and in which order things were done to them is ghost state.  A `join` returns when
the worker has seen the stop flag; the calls of the model are those that return. -/

namespace Klevret.Common

open Klevret.Base

/-- What became of a worker thread and its handle. -/
inductive WorkerPhase where
  | running
  | joined
  | released
deriving DecidableEq, Repr

inductive WorkerEvent where
  | created (worker : ℕ)
  | joined (worker : ℕ)
  | released (worker : ℕ)
deriving DecidableEq, Repr

/-- The members `_thread` and `_stop_flag`, with the ghost state of the workers. -/
structure Workers where
  thread : Option ℕ
  stopFlag : Bool
  phases : List WorkerPhase
  events : List WorkerEvent
deriving DecidableEq, Repr

/-- The public operations. -/
inductive WorkerCall where
  | start
  | stop
deriving DecidableEq, Repr

namespace Workers

/-- `new std::thread(_thread_func, this)`. -/
def create (workers : Workers) : Workers :=
  { workers with
    thread := some workers.phases.length
    phases := workers.phases ++ [.running]
    events := workers.events ++ [.created workers.phases.length] }

/-- `_thread->join()`.  A second join throws a `std::system_error`, and the object of a
    released handle is gone. -/
def join (workers : Workers) (worker : ℕ) : Cpp Workers :=
  match workers.phases[worker]? with
  | some .running =>
    return { workers with
      phases := workers.phases.set worker .joined
      events := workers.events ++ [.joined worker] }
  | some .joined => throwRuntimeError "Invalid argument"
  | some .released => undefinedBehaviour
  | none => undefinedBehaviour

/-- `delete _thread`.  The destructor of a thread that was not joined ends the program. -/
def release (workers : Workers) (worker : ℕ) : Cpp Workers :=
  match workers.phases[worker]? with
  | some .joined =>
    return { workers with
      phases := workers.phases.set worker .released
      events := workers.events ++ [.released worker] }
  | some .running => undefinedBehaviour
  | some .released => undefinedBehaviour
  | none => undefinedBehaviour

def stop (workers : Workers) : Cpp Workers :=
  let workers := { workers with stopFlag := true }
  match workers.thread with
  | none => undefinedBehaviour
  | some worker => do
    let workers ← workers.join worker
    workers.release worker

def start (workers : Workers) : Workers :=
  create { workers with stopFlag := false }

/-- The constructor; it does not initialise `_thread` before it starts the worker. -/
def construct : Workers :=
  start ⟨none, false, [], []⟩

def call (workers : Workers) : WorkerCall → Cpp Workers
  | .start => return workers.start
  | .stop => workers.stop

/-- The listener after some calls. -/
def alive (calls : List WorkerCall) : Cpp Workers :=
  calls.foldlM call construct

/-- The whole life of the listener: its construction, the calls, and the destructor. -/
def life (calls : List WorkerCall) : Cpp Workers := do
  let workers ← alive calls
  workers.stop

end Workers

end Klevret.Common
