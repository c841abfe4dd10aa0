import Klevret.Base.Descriptors
import Klevret.Dhcp.UdpServer

/-! # The descriptors of `send_to` (`UdpListener.cpp`, `Defer.hpp`)

`send_to` once more, in a process whose descriptors it shares with other threads.  Which of
its system calls fail is again an input, and so is the number of descriptors that other
threads open in front of each of them.  A socket gets the lowest free number. -/

namespace Klevret.Dhcp

open Klevret.Base DescriptorTable

/-- The sockets of `send_to`. -/
inductive Socket where
  | rawSocket
  | socketForSending
deriving DecidableEq, Repr

/-- Who has opened a descriptor. -/
inductive Opener where
  | otherThread
  | sendTo (socket : Socket)
deriving DecidableEq, Repr

/-- The descriptors of the process, the sockets that `send_to` has opened, and for each
    `close` it has made whose descriptor had that number. -/
structure Process where
  table : DescriptorTable Opener
  opened : List Socket
  closed : List (Option Opener)
deriving DecidableEq, Repr

/-- The places where `send_to` enters the kernel. -/
inductive CallSite where
  | rawSocket
  | ioctlBroadcastAddress
  | ioctlInterfaceIndex
  | closeRawSocket
  | socketForSending
  | setsockopt
  | sendto
  | deferSocketForSending
  | deferRawSocket
deriving DecidableEq, Repr

/-- How many descriptors other threads have opened since the last call when a call is made. -/
abbrev Interleaving := CallSite → ℕ

/-- A computation that keeps the process when it throws. -/
abbrev Sys := ExceptT Fault (StateM Process)

namespace Sys

variable {α β : Type}

/-- Runs the computation in a process. -/
def exec (program : Sys α) (process : Process) : Cpp α × Process := program.run.run process

/-- `if (failed) throw std::runtime_error(what)`. -/
def throwIf (failed : Prop) [Decidable failed] (what : String) : Sys Unit :=
  if failed then ExceptT.mk (pure (throwRuntimeError what)) else pure ⟨⟩

/-- `Defer`: the guard is called whichever way its scope is left. -/
def defer (guard : Process → Process) (scope : Sys α) : Sys α :=
  ExceptT.mk do
    let result ← scope.run
    modify guard
    return result

/-- What happens in the kernel before a call is made. -/
def othersOpen (count : ℕ) (process : Process) : Process :=
  { process with table := (place .otherThread)^[count] process.table }

/-- `close(number)`. -/
def close (number : ℕ) (process : Process) : Process :=
  { process with
    table := DescriptorTable.close process.table number
    closed := process.closed ++ [ownerOf process.table number] }

/-- A successful `socket(..)`. -/
def take (socket : Socket) (process : Process) : Process :=
  { process with
    table := place (.sendTo socket) process.table
    opened := process.opened ++ [socket] }

/-- `socket(..)` and the test of what it returns, -1 or the number of the new descriptor. -/
def openSocket (socket : Socket) (returned : ℤ) (what : String) : Sys ℕ := do
  throwIf (returned = -1) what
  let process ← get
  set (take socket process)
  return lowestFree process.table

@[simp] theorem exec_pure (value : α) (process : Process) :
    exec (pure value) process = (.ok value, process) := rfl

@[simp] theorem exec_bind (program : Sys α) (continuation : α → Sys β) (process : Process) :
    exec (program >>= continuation) process =
      match exec program process with
      | (.ok value, process) => exec (continuation value) process
      | (.error fault, process) => (.error fault, process) := by
  change (match program.run.run process with
    | (result, process) => (ExceptT.bindCont continuation result).run process) = _
  unfold exec
  obtain ⟨result, after⟩ := program.run.run process
  cases result with
  | ok value => rfl
  | error fault => rfl

@[simp] theorem exec_map (change : α → β) (program : Sys α) (process : Process) :
    exec (change <$> program) process =
      match exec program process with
      | (.ok value, process) => (.ok (change value), process)
      | (.error fault, process) => (.error fault, process) := by
  rw [map_eq_pure_bind, exec_bind]
  rfl

@[simp] theorem exec_throwIf (failed : Prop) [Decidable failed] (what : String)
    (process : Process) :
    exec (throwIf failed what) process =
      (if failed then throwRuntimeError what else .ok ⟨⟩, process) := by
  unfold throwIf
  split <;> rfl

@[simp] theorem exec_modify (change : Process → Process) (process : Process) :
    exec (modify change) process = (.ok ⟨⟩, change process) := rfl

@[simp] theorem exec_defer (guard : Process → Process) (scope : Sys α) (process : Process) :
    exec (defer guard scope) process =
      ((exec scope process).1, guard (exec scope process).2) := rfl

@[simp] theorem exec_openSocket (socket : Socket) (returned : ℤ) (what : String)
    (process : Process) :
    exec (openSocket socket returned what) process =
      if returned = -1 then (throwRuntimeError what, process)
      else (.ok (lowestFree process.table), take socket process) := by
  unfold openSocket
  rw [exec_bind, exec_throwIf]
  by_cases failed : returned = -1
  · rw [if_pos failed, if_pos failed]
    rfl
  · rw [if_neg failed, if_neg failed]
    rfl

end Sys

namespace UdpServer

open Sys

/-- `send_to`.  The guard of the first socket covers all that comes after it, and that of the
    second comes behind `setsockopt`. -/
def sendToIn (opens : Interleaving) (calls : SystemCalls) (data : List UInt8) :
    Sys SentDatagram := do
  modify (othersOpen (opens .rawSocket))
  let rawSocket ← openSocket .rawSocket calls.rawSocket
    "Не удалось создать сырой сокет UdpServer::send_to"
  defer (fun process => close rawSocket (othersOpen (opens .deferRawSocket) process)) do
    modify (othersOpen (opens .ioctlBroadcastAddress))
    throwIf (calls.ioctlBroadcastAddress = -1)
      "Не удалось получить широковещательный IP адрес UdpServer::send_to"
    modify (othersOpen (opens .ioctlInterfaceIndex))
    throwIf (calls.ioctlInterfaceIndex = -1)
      "Не удалось получить индекс интерфейса UdpServer::send_to"
    modify fun process => close rawSocket (othersOpen (opens .closeRawSocket) process)
    modify (othersOpen (opens .socketForSending))
    let socketForSending ← openSocket .socketForSending calls.socketForSending
      "Не удалось создать сокет для отправки UdpServer::send_to"
    modify (othersOpen (opens .setsockopt))
    throwIf (calls.setsockopt = -1)
      "Не удалось задать опцию SO_BROADCAST сокету для отправки (UdpServer::send_to"
    defer (fun process =>
        close socketForSending (othersOpen (opens .deferSocketForSending) process)) do
      modify (othersOpen (opens .sendto))
      throwIf (calls.sent ≤ 0) "Не удалось отправить UDP пакет UdpServer::send_to"
      return ⟨calls.broadcastAddress, 68, data⟩

/-- Whatever happens to the descriptors, what goes out is what the chain of calls gives. -/
theorem exec_sendToIn_fst (opens : Interleaving) (calls : SystemCalls) (data : List UInt8)
    (process : Process) :
    (exec (sendToIn opens calls data) process).1 = sendTo calls data := by
  unfold sendToIn sendTo
  by_cases raw : calls.rawSocket = -1
  · simp [raw, throwRuntimeError]
  by_cases broadcast : calls.ioctlBroadcastAddress = -1
  · simp [raw, broadcast, throwRuntimeError]
  by_cases index : calls.ioctlInterfaceIndex = -1
  · simp [raw, broadcast, index, throwRuntimeError]
  by_cases sending : calls.socketForSending = -1
  · simp [raw, broadcast, index, sending, throwRuntimeError]
  by_cases option : calls.setsockopt = -1
  · simp [raw, broadcast, index, sending, option, throwRuntimeError]
  by_cases sent : calls.sent ≤ 0
  · simp [raw, broadcast, index, sending, option, sent, throwRuntimeError]
  · simp [raw, broadcast, index, sending, option, sent]

end UdpServer

end Klevret.Dhcp
