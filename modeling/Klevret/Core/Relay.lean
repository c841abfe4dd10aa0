import Klevret.Common.TcpListener

/-! # The core (`main.cpp`)

One turn of the loop takes a packet off the queue, turns it into a string, and
passes it on when it is a JSON document for the DHCP component.  Taking the packet
is outside of the `try` block, passing it on inside. -/

namespace Klevret.Core

open Klevret.Base Klevret.Common
open TcpListener (ReadResult packetOf)

/-- What the core uses of `boost::property_tree`; nothing stands for an exception. -/
structure PropertyTree (Tree : Type) where
  /-- `read_json`. -/
  readJson : List UInt8 → Option Tree
  /-- `get<std::string>`. -/
  getString : Tree → String → Option String

/-- What the system calls of one turn return. -/
structure SystemCalls where
  clientSocket : ℤ
  inetPton : ℤ
  connect : ℤ
  sentBytes : ℤ
deriving DecidableEq, Repr

/-- The bytes that reach the DHCP component.  The result of `send` is only printed. -/
def sendToDhcp (calls : SystemCalls) (jsonStr : List UInt8) : Cpp (List UInt8) :=
  if calls.clientSocket = -1 then
    throwRuntimeError "не удалось создать клиентский сокет"
  else if calls.inetPton = -1 then
    throwRuntimeError "не удалось преобразовать IP адрес для sockaddr_in"
  else if calls.connect = -1 then
    throwRuntimeError "не удалось выполнить подключение"
  else
    return jsonStr.take calls.sentBytes.toNat

/-- The `try` block: every exception in it is caught and printed. -/
def forward {Tree : Type} (boost : PropertyTree Tree) (calls : SystemCalls)
    (jsonStr : List UInt8) : Option (List UInt8) :=
  match boost.readJson jsonStr with
  | none => none
  | some pt =>
    match boost.getString pt "component" with
    | none => none
    | some component =>
      if component = "dhcp" then
        match sendToDhcp calls jsonStr with
        | .ok bytes => some bytes
        | .error _ => none
      else none

/-! ## The loop among the handler threads -/

/-- What happens next: a handler thread comes back from `read` and pushes, or the loop
    makes a turn.  `behind` is the memory behind the packet of that turn. -/
inductive CoreEvent (Connection : Type) where
  | read (connection : Connection) (result : ReadResult)
  | turn (behind : List UInt8) (calls : SystemCalls)

/-- What the loop does with a packet: the string it makes of it, and what it passes on. -/
structure Relay (Connection : Type) where
  connection : Connection
  packet : TcpPacket
  jsonStr : List UInt8
  forwarded : Option (List UInt8)
deriving DecidableEq, Repr

section

variable {Connection Tree : Type}

/-- The queue of the core.  The connection beside each packet is not looked at. -/
abbrev PacketQueue (Connection : Type) := TcpListener (Connection × TcpPacket)

/-- `get_next_packet`. -/
abbrev GetNextPacket (Connection : Type) :=
  PacketQueue Connection → Cpp (Connection × TcpPacket) × PacketQueue Connection

def afterRead (queue : PacketQueue Connection) (connection : Connection) (result : ReadResult) :
    PacketQueue Connection :=
  match packetOf result with
  | none => queue
  | some packet => queue.push (connection, packet)

/-- The core.  A fault ends it for good. -/
def machine (boost : PropertyTree Tree) (getNextPacket : GetNextPacket Connection) :
    Machine (Cpp (PacketQueue Connection)) (CoreEvent Connection) (Option (Relay Connection)) where
  step
    | .error fault, _ => (none, .error fault)
    | .ok queue, .read connection result => (none, .ok (afterRead queue connection result))
    | .ok queue, .turn behind calls =>
      if queue.isEmpty then (none, .ok queue)
      else
        match getNextPacket queue with
        | (.error fault, _) => (none, .error fault)
        | (.ok (connection, packet), queue) =>
          match cString (packet ++ behind) with
          | .error fault => (none, .error fault)
          | .ok jsonStr =>
            (some ⟨connection, packet, jsonStr, forward boost calls jsonStr⟩, .ok queue)

end

end Klevret.Core
