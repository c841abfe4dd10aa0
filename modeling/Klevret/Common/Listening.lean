import Klevret.Common.TcpListener

/-! # The threads of the listener (`TcpListener.hpp`, `TcoListener.cpp`)

The worker accepts clients and starts a handler thread for each; `stop` raises the flag that all of
them test between two blocking calls, and waits for the worker, which waits for the handlers.  A
schedule says who makes the next step, and what a blocking call that returns in it has brought; a
step of a thread that has to wait changes nothing.  The time is from the start of the worker to the
return of `stop`, and the consumer, who does not touch the threads, is left out. -/

namespace Klevret.Common

open Klevret.Base
open TcpListener (ReadResult packetOf)

/-! ## The socket -/

/-- What the system calls of `_create_socket_and_listen` return. -/
structure ListenCalls where
  socket : ℤ
  setsockopt : ℤ
  inetPton : ℤ
  bind : ℤ
  listen : ℤ
deriving DecidableEq, Repr

/-- `_create_socket_and_listen`, and the descriptors that it leaves open.  The exception ends the
    program, as it leaves a thread. -/
def createSocketAndListen (calls : ListenCalls) : Cpp ℤ × List ℤ :=
  if calls.socket = -1 then (throwRuntimeError "не могу создать сокет", [])
  else if calls.setsockopt = -1 then
    (throwRuntimeError "не удалось установить опцию REUSEADDR для сокета", [])
  else if calls.inetPton = -1 then
    -- the only way out that does not close the socket
    (throwRuntimeError "не удалось преобразовать IP адрес для sockaddr_in", [calls.socket])
  else if calls.bind = -1 then (throwRuntimeError "не удалось забиндить сокет", [])
  else if calls.listen = -1 then (throwRuntimeError "не удалось поставить сокет на прослушку", [])
  else (.ok calls.socket, [calls.socket])

/-! ## The threads -/

/-- Where `_thread_func` is. -/
inductive WorkerState where
  | testing
  | accepting
  /-- In front of the `join` of the handler with this number. -/
  | joining (index : ℕ)
  | finished
deriving DecidableEq, Repr

/-- Where a `_client_handler_thread` is. -/
inductive HandlerState where
  | testing
  | reading
  | pushing (packet : TcpPacket)
  | finished
deriving DecidableEq, Repr

structure Listening where
  stopFlag : Bool
  worker : WorkerState
  handlers : List HandlerState
  listener : TcpListener TcpPacket
  serverSocketOpen : Bool
  /-- The sockets that `accept` returned; nothing closes them. -/
  openClientSockets : ℕ
  /-- `_thread->join()` in `stop` has returned. -/
  stopped : Bool
deriving DecidableEq, Repr

inductive ThreadStep where
  /-- A step of the worker; `accepted` says what `accept` returns. -/
  | worker (accepted : Bool)
  | handler (index : ℕ) (result : ReadResult)
  /-- `_stop_flag = true`. -/
  | stop
  | joined
deriving DecidableEq

namespace Listening

/-- The worker has its socket. -/
def new (listener : TcpListener TcpPacket) : Listening where
  stopFlag := false
  worker := .testing
  handlers := []
  listener
  serverSocketOpen := true
  openClientSockets := 0
  stopped := false

/-- A step of `_thread_func`. -/
def workerStep (state : Listening) (accepted : Bool) : Listening :=
  match state.worker with
  | .testing =>
    if state.stopFlag then { state with worker := .joining 0 }
    else { state with worker := .accepting }
  | .accepting =>
    if accepted then
      { state with
        worker := .testing
        handlers := state.handlers ++ [.testing]
        openClientSockets := state.openClientSockets + 1 }
    else { state with worker := .testing }
  | .joining index =>
    match state.handlers[index]? with
    | none => { state with worker := .finished, serverSocketOpen := false }
    | some .finished => { state with worker := .joining (index + 1) }
    | some _ => state
  | .finished => state

/-- A step of a `_client_handler_thread`. -/
def handlerStep (state : Listening) (index : ℕ) (result : ReadResult) : Listening :=
  match state.handlers[index]? with
  | some .testing =>
    { state with
      handlers := state.handlers.set index (if state.stopFlag then .finished else .reading) }
  | some .reading =>
    { state with
      handlers := state.handlers.set index ((packetOf result).elim .testing .pushing) }
  | some (.pushing packet) =>
    { state with
      handlers := state.handlers.set index .testing
      listener := state.listener.push packet }
  | some .finished => state
  | none => state

def step (state : Listening) : ThreadStep → Listening
  | .worker accepted => state.workerStep accepted
  | .handler index result => state.handlerStep index result
  | .stop => { state with stopFlag := true }
  | .joined =>
    if state.stopFlag ∧ state.worker = .finished then { state with stopped := true } else state

def machine : Machine Listening ThreadStep Unit where
  step state threadStep := ((), state.step threadStep)

end Listening

end Klevret.Common
