import Klevret.Dhcp.IpAddress

/-! # Sending datagrams (`UdpListener.hpp`, `UdpListener.cpp`)

`send_to` is a chain of system calls, each of which may fail.  What they return
is an input of the model. -/

namespace Klevret.Dhcp

open Klevret.Base

/-- What the system calls of `send_to` return, in the order in which they are made.
    The first `ioctl` also fills in the broadcast address of the interface. -/
structure SystemCalls where
  rawSocket : ℤ
  ioctlBroadcastAddress : ℤ
  broadcastAddress : IPv4Address
  ioctlInterfaceIndex : ℤ
  socketForSending : ℤ
  setsockopt : ℤ
  sent : ℤ
deriving DecidableEq, Repr

/-- A datagram on its way to the clients. -/
structure SentDatagram where
  address : IPv4Address
  port : UInt16
  data : List UInt8
deriving DecidableEq, Repr

namespace UdpServer

/-- `send_to`, with what goes out.  The broadcast address is formatted and parsed
    again by `inet_addr` on its way into the destination. -/
def sendTo (calls : SystemCalls) (data : List UInt8) : Cpp SentDatagram :=
  if calls.rawSocket = -1 then
    throwRuntimeError "Не удалось создать сырой сокет UdpServer::send_to"
  else if calls.ioctlBroadcastAddress = -1 then
    throwRuntimeError "Не удалось получить широковещательный IP адрес UdpServer::send_to"
  else if calls.ioctlInterfaceIndex = -1 then
    throwRuntimeError "Не удалось получить индекс интерфейса UdpServer::send_to"
  else if calls.socketForSending = -1 then
    throwRuntimeError "Не удалось создать сокет для отправки UdpServer::send_to"
  else if calls.setsockopt = -1 then
    throwRuntimeError
      "Не удалось задать опцию SO_BROADCAST сокету для отправки (UdpServer::send_to"
  else if calls.sent ≤ 0 then
    throwRuntimeError "Не удалось отправить UDP пакет UdpServer::send_to"
  else
    return ⟨calls.broadcastAddress, 68, data⟩

end UdpServer

/-! ## When the datagram goes out -/

/-- No system call of `send_to` fails. -/
structure SystemCalls.Succeed (calls : SystemCalls) : Prop where
  rawSocket : calls.rawSocket ≠ -1
  ioctlBroadcastAddress : calls.ioctlBroadcastAddress ≠ -1
  ioctlInterfaceIndex : calls.ioctlInterfaceIndex ≠ -1
  socketForSending : calls.socketForSending ≠ -1
  setsockopt : calls.setsockopt ≠ -1
  sent : 0 < calls.sent

namespace UdpServer

variable {calls : SystemCalls}

theorem sendTo_of_succeed (succeed : calls.Succeed) (data : List UInt8) :
    sendTo calls data = .ok ⟨calls.broadcastAddress, 68, data⟩ := by
  obtain ⟨raw, broadcast, index, sending, option, sent⟩ := succeed
  rw [sendTo, if_neg raw, if_neg broadcast, if_neg index, if_neg sending, if_neg option,
    if_neg (Int.not_le.mpr sent)]
  rfl

theorem sendTo_of_not_succeed (failed : ¬ calls.Succeed) (data : List UInt8) :
    Throws (sendTo calls data) := by
  unfold sendTo
  split
  next => exact throws_runtimeError _
  split
  next => exact throws_runtimeError _
  split
  next => exact throws_runtimeError _
  split
  next => exact throws_runtimeError _
  split
  next => exact throws_runtimeError _
  split
  next => exact throws_runtimeError _
  next raw broadcast index sending option sent =>
    exact absurd ⟨raw, broadcast, index, sending, option, Int.not_le.mp sent⟩ failed

end UdpServer

end Klevret.Dhcp
