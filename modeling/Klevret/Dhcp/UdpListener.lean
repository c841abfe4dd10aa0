import Klevret.Base.Polling
import Klevret.Dhcp.Server

/-! # Receiving datagrams (`UdpListener.hpp`, `UdpListener.cpp`, `main.cpp`)

A thread of its own receives datagrams and puts them into the queue under the mutex, and the
loop of `main` asks for them, under the mutex too.  So an interleaving is a list of whole
receptions and of whole calls of the loop (`main.machine`).  What `recvfrom` receives is an
input. -/

namespace Klevret.Dhcp

open Klevret.Base

/-- The members that both threads use. -/
structure UdpServer where
  queue : List (List UInt8)
  stopFlag : Bool
deriving DecidableEq, Repr

namespace UdpServer

/-- `BUFFER_SIZE`. -/
def bufferSize : ℕ := 10000

/-- `recvfrom` fails, or a datagram comes; what does not fit the buffer is lost. -/
abbrev Received := Option (List UInt8)

/-- What the buffer holds up to `recv_len`; of nothing there is no datagram. -/
def datagramOf : Received → Option (List UInt8)
  | none => none
  | some datagram =>
    let buffer := datagram.take bufferSize
    if buffer.length ≤ 0 then none else some buffer

/-- One turn of `thread_func`. -/
def threadTurn (server : UdpServer) (received : Received) : UdpServer :=
  if server.stopFlag then server
  else
    match datagramOf received with
    | none => server
    | some datagram => { server with queue := server.queue ++ [datagram] }

theorem threadTurn_of_receives {server : UdpServer} (receives : server.stopFlag = false)
    (received : Received) :
    server.threadTurn received =
      { server with queue := server.queue ++ (datagramOf received).toList } := by
  obtain ⟨queue, stopFlag⟩ := server
  obtain rfl : stopFlag = false := receives
  rw [threadTurn, if_neg Bool.false_ne_true]
  cases datagramOf received with
  | none => simp
  | some datagram => rfl

def isInputQueueBlank (server : UdpServer) : Bool := server.queue.length == 0

/-- `front` and `pop` of an empty queue are undefined. -/
def getNextDatagram (server : UdpServer) : Cpp (List UInt8) × UdpServer :=
  match server.queue with
  | [] => (undefinedBehaviour, server)
  | datagram :: queue => (.ok datagram, { server with queue })

def stop (server : UdpServer) : UdpServer := { server with stopFlag := true }

/-- The constructor, once the socket is bound and the thread runs. -/
def new : UdpServer where
  queue := []
  stopFlag := false

end UdpServer

/-- The loop of `main` among the receptions: the queue it polls, and the server that it is. -/
def mainLoop [Host] : PollingLoop UdpServer UdpServer.Received (List UInt8) SystemCalls Server
    Server.Input Reply where
  arrive := UdpServer.threadTurn
  isEmpty := UdpServer.isInputQueueBlank
  take := UdpServer.getNextDatagram
  input calls packet := { packet, calls }
  handler := Server.machine

end Klevret.Dhcp
