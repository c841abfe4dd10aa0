import Klevret.Base.Machine
import Klevret.Cli.Console

/-! # A session (`main.cpp`)

The loop of `main` with what the handlers do in it.  A handler is called by ENTER only; what its
system calls return is an input of the turn, and what it does the output.  A handler that throws
ends the loop, as nothing in `main` catches the exception. -/

namespace Klevret.Cli

open Klevret.Base

/-- The keys of one turn, and what the system calls return in it. -/
structure SessionInput (Calls : Type) where
  press : KeyPress
  calls : Calls
deriving DecidableEq, Repr

namespace KeyLoop

variable {Handler Calls Effect : Type} (split : Split) (root : CommandTree Handler)
  (perform : Calls → HandlerCall Handler → Cpp Effect)

/-- The handler that the turn calls. -/
def handlerCall (press : KeyPress) (loop : KeyLoop) : Cpp (Option (HandlerCall Handler)) :=
  if press.c = some Console.ENTER then pressEnter split loop.console.currentCommandInput root
  else return none

/-- The loop, once a handler that is called is known to return. -/
def turnOn (press : KeyPress) (loop : KeyLoop) : Cpp KeyLoop :=
  loop.turn split root (fun _ => .ok ()) press

def machine : Machine (Cpp KeyLoop) (SessionInput Calls) (Option Effect) where
  step
    | .error fault, _ => (none, .error fault)
    | .ok loop, ⟨press, calls⟩ =>
      match loop.handlerCall split root press with
      | .error fault => (none, .error fault)
      | .ok none => (none, loop.turnOn split root press)
      | .ok (some call) =>
        match perform calls call with
        | .error fault => (none, .error fault)
        | .ok effect => (some effect, loop.turnOn split root press)

end KeyLoop

/-- The handlers of the shipped commands. -/
def performShipped (calls : SystemCalls) (call : HandlerCall CommandHandler) : Cpp HandlerEffect :=
  call.handler.call calls call.stack

end Klevret.Cli
