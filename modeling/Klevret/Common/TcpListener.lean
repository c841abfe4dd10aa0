import Klevret.Base.Cpp
import Klevret.Base.Machine

/-! # The packet queue (`TcpListener.hpp`, `TcoListener.cpp`)

Every client has a handler thread that pushes what it reads; one consumer asks
`is_empty` and calls `get_next_packet`.  Each push and each call holds the mutex,
so an interleaving is a list of whole calls (`TcpListener.machine`).  The queue
does not look into its packets, hence the parameter `Packet`. -/

namespace Klevret.Common

open Klevret.Base

/-- `tcp_packet`. -/
abbrev TcpPacket := List UInt8

/-- `BUFFER_SIZE`. -/
def bufferSize : ℕ := 1024 * 10

structure TcpListener (Packet : Type) where
  queue : List Packet
deriving DecidableEq, Repr

namespace TcpListener

variable {Packet Thread : Type}

/-- The listener before the first client. -/
def new : TcpListener Packet := ⟨[]⟩

def isEmptyNoMutex (listener : TcpListener Packet) : Bool := listener.queue.length == 0

def isEmpty (listener : TcpListener Packet) : Bool := listener.isEmptyNoMutex

/-- The guard throws when there *is* a packet; `front` and `pop` of an empty queue
    are undefined. -/
def getNextPacket (listener : TcpListener Packet) : Cpp Packet × TcpListener Packet :=
  if ¬ listener.isEmptyNoMutex then (throwRuntimeError "Очередь пуста", listener)
  else
    match listener.queue with
    | [] => (undefinedBehaviour, listener)
    | packet :: queue => (.ok packet, ⟨queue⟩)

/-- `_queue.push` under the mutex. -/
def push (listener : TcpListener Packet) (packet : Packet) : TcpListener Packet :=
  ⟨listener.queue ++ [packet]⟩

/-! ## The handler threads -/

/-- What a `read` into the buffer of a handler thread returns: an error, or the bytes
    that have arrived, of which there are none at the end of the stream.  One cell of
    the buffer is left free. -/
abbrev ReadResult := Option { bytes : TcpPacket // bytes.length ≤ bufferSize - 1 }

/-- The packet that one turn of `_client_handler_thread` pushes. -/
def packetOf : ReadResult → Option TcpPacket
  | none => none
  | some bytes => if 0 < bytes.val.length then some bytes.val else none

theorem ne_nil_of_packetOf {result : ReadResult} {packet : TcpPacket}
    (isPacket : packetOf result = some packet) : packet ≠ [] := by
  cases result with
  | none => cases isPacket
  | some bytes =>
    simp only [packetOf, Option.ite_none_right_eq_some, Option.some.injEq] at isPacket
    obtain ⟨nonempty, rfl⟩ := isPacket
    exact List.length_pos_iff.mp nonempty

/-! ## Interleavings -/

/-- A step of some thread; each is made under the mutex. -/
inductive ListenerCall (Thread Packet : Type) where
  | push (thread : Thread) (packet : Packet)
  | isEmpty
  | getNextPacket
deriving DecidableEq, Repr

inductive ListenerReply (Packet : Type) where
  | pushed
  | empty (isEmpty : Bool)
  | packet (packet : Packet)
deriving DecidableEq, Repr

/-- The listener among its threads.  An exception leaves the queue as it is, and after
    undefined behaviour nothing is defined any more. -/
def machine : Machine (Cpp (TcpListener Packet)) (ListenerCall Thread Packet)
    (Cpp (ListenerReply Packet)) where
  step
    | .error fault, _ => (.error fault, .error fault)
    | .ok listener, .push _ packet => (.ok .pushed, .ok (listener.push packet))
    | .ok listener, .isEmpty => (.ok (.empty listener.isEmpty), .ok listener)
    | .ok listener, .getNextPacket =>
      match listener.getNextPacket with
      | (.ok packet, listener) => (.ok (.packet packet), .ok listener)
      | (.error (.thrown exception), listener) => (.error (.thrown exception), .ok listener)
      | (.error .undefinedBehaviour, _) => (undefinedBehaviour, undefinedBehaviour)

/-! ### What each call does -/

@[simp] theorem queue_push (listener : TcpListener Packet) (packet : Packet) :
    (listener.push packet).queue = listener.queue ++ [packet] := rfl

@[simp] theorem isEmpty_iff (listener : TcpListener Packet) :
    listener.isEmpty = true ↔ listener.queue = [] := by
  simp [isEmpty, isEmptyNoMutex]

/-- A queue with a packet in it is said to be empty. -/
theorem getNextPacket_of_ne_nil {listener : TcpListener Packet} (nonempty : listener.queue ≠ []) :
    listener.getNextPacket = (throwRuntimeError "Очередь пуста", listener) := by
  simp [getNextPacket, isEmptyNoMutex, nonempty]

theorem getNextPacket_of_nil {listener : TcpListener Packet} (empty : listener.queue = []) :
    listener.getNextPacket = (undefinedBehaviour, listener) := by
  simp [getNextPacket, isEmptyNoMutex, empty]

end TcpListener

end Klevret.Common
