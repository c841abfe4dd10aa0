import Klevret.Common.Listening
import Klevret.Core.Relay

/-! # The program of the core (`main.cpp`)

`main` constructs the listener and then, for ever, tests its queue and takes a packet from it.  Each
test and each `get_next_packet` holds the mutex, and the threads of the listener may push between
the two.  The worker makes the socket first; an exception that leaves `main` or the worker ends the
program. -/

namespace Klevret.Core

open Klevret.Base Klevret.Common
open TcpListener (ReadResult)

/-- Where `main` is: in front of `is_empty`, or in front of `get_next_packet`. -/
inductive MainState where
  | testing
  | taking
deriving DecidableEq, Repr

structure Program where
  main : MainState
  /-- The worker has come through `_create_socket_and_listen`. -/
  hasSocket : Bool
  listening : Listening
deriving DecidableEq, Repr

inductive ProgramStep where
  | socket (calls : ListenCalls)
  | worker (accepted : Bool)
  | handler (index : ℕ) (result : ReadResult)
  /-- A step of `main`; `behind` is the memory behind the packet that it takes. -/
  | main (behind : List UInt8) (calls : SystemCalls)

namespace Program

def start : Program where
  main := .testing
  hasSocket := false
  listening := .new .new

section

variable {Tree : Type} (boost : PropertyTree Tree)

def mainStep (program : Program) (behind : List UInt8) (calls : SystemCalls) :
    Option (Relay Unit) × Cpp Program :=
  match program.main with
  | .testing =>
    if program.listening.listener.isEmpty then (none, .ok program)
    else (none, .ok { program with main := .taking })
  | .taking =>
    match program.listening.listener.getNextPacket with
    | (.error fault, _) => (none, .error fault)
    | (.ok packet, listener) =>
      match cString (packet ++ behind) with
      | .error fault => (none, .error fault)
      | .ok jsonStr =>
        (some ⟨(), packet, jsonStr, forward boost calls jsonStr⟩,
          .ok { program with main := .testing, listening := { program.listening with listener } })

def step (program : Program) : ProgramStep → Option (Relay Unit) × Cpp Program
  | .socket calls =>
    if program.hasSocket then (none, .ok program)
    else
      match (createSocketAndListen calls).1 with
      | .error fault => (none, .error fault)
      | .ok _ => (none, .ok { program with hasSocket := true })
  | .worker accepted =>
    if program.hasSocket then
      (none, .ok { program with listening := program.listening.workerStep accepted })
    else (none, .ok program)
  | .handler index result =>
    (none, .ok { program with listening := program.listening.handlerStep index result })
  | .main behind calls => program.mainStep boost behind calls

def machine : Machine (Cpp Program) ProgramStep (Option (Relay Unit)) where
  step
    | .error fault, _ => (none, .error fault)
    | .ok program, step => program.step boost step

end

end Program

end Klevret.Core
