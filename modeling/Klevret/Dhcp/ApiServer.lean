import Klevret.Common.Listening

/-! # The API server (`api_server.hpp`, `api_server.cpp`)

`TcpServer` listens on a socket of its own.  A thread accepts the clients and starts a thread for
each, which prints what it reads.  Both threads are loops without an exit. -/

namespace Klevret.Dhcp

open Klevret.Base Klevret.Common
open TcpListener (ReadResult packetOf)

/-- What is written to the standard output. -/
inductive Printed where
  | text (str : String)
  | lines (lines : List (List Char))
  /-- `"Received: \n"` and the buffer. -/
  | received (buffer : List UInt8)
deriving DecidableEq, Repr

inductive ThreadState where
  | started
  | looping
  | finished
deriving DecidableEq, Repr

/-- The thread `acceptor` and the threads `client_handler_thread`. -/
structure TcpServer where
  acceptor : ThreadState
  clients : List ThreadState
deriving DecidableEq, Repr

namespace TcpServer

/-- The constructor makes the same calls as the listener and throws the same texts. -/
def construct (calls : ListenCalls) : Cpp TcpServer := do
  let _ ← (createSocketAndListen calls).1
  return { acceptor := .started, clients := [] }

/-- A step of `acceptor`; `accepted` says what `accept` returns. -/
def acceptorStep (server : TcpServer) (accepted : Bool) : Option Printed × TcpServer :=
  match server.acceptor with
  | .started => (some (.text "начал прием TCP соединений\n"), { server with acceptor := .looping })
  | .looping =>
    if accepted then (none, { server with clients := server.clients ++ [.started] })
    else (some (.text "не удалось принять подключение\n"), server)
  | .finished => (none, server)

/-- One turn of the loop of `client_handler_thread`.  The cell behind the bytes is set to zero. -/
def printReceived (result : ReadResult) : Cpp (Option Printed) :=
  match packetOf result with
  | none => return none
  | some bytes => do
    let buffer ← cString (bytes ++ [0])
    return some (.received buffer)

/-- A step of the client with this number. -/
def clientStep (server : TcpServer) (index : ℕ) (result : ReadResult) :
    Cpp (Option Printed) × TcpServer :=
  match server.clients[index]? with
  | some .started =>
    (return some (.text "запущен обработчик клиента\n"),
      { server with clients := server.clients.set index .looping })
  | some .looping => (printReceived result, server)
  | some .finished => (return none, server)
  | none => (return none, server)

/-- What `join` waits for. -/
def isJoinable (server : TcpServer) : Bool := server.acceptor = .finished

end TcpServer

end Klevret.Dhcp
