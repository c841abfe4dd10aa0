import Klevret.Dhcp.AddressPool
import Klevret.Dhcp.DhcpMessage
import Klevret.Dhcp.UdpServer

/-! # The server (`main.cpp`)

One turn of the loop takes a datagram off the queue and handles it
(`Server.handleDatagram`).  Nothing around the loop catches an exception, so a
turn that throws is the last one (`Server.machine`). -/

namespace Klevret.Dhcp

open Klevret.Base
open Std (TreeMap)

/-- The code makes it from the byte of option 53 and compares it with the named values. -/
abbrev Option53MessageType := UInt8

namespace Option53MessageType

def dhcpdiscover : Option53MessageType := 1

def dhcpoffer : Option53MessageType := 2

def dhcprequest : Option53MessageType := 3

def dhcpack : Option53MessageType := 5

end Option53MessageType

variable [Host]

/-! ## The replies -/

/-- The options that `make_offer` and `make_acknowledge` push, in their order. -/
def replyOptions (messageType : Option53MessageType) (option51Data : List UInt8) :
    Cpp (List DhcpOption) := do
  let option53 ← DhcpOption.construct 53 1 [messageType] 0 1
  let option1 ← DhcpOption.construct 1 4 [255, 255, 255, 0] 0 4
  let option3 ← DhcpOption.construct 3 4 [172, 18, 1, 1] 0 4
  let option51 ← DhcpOption.construct 51 4 option51Data 0 option51Data.length
  return [option53, option1, option3, option51]

/-- What `make_offer` and `make_acknowledge` share: they differ in the message type
    and in how they write the lease time. -/
def makeReply (messageType : Option53MessageType) (option51Data : List UInt8)
    (packet : DhcpMessage) (ip : IPv4Address) : Cpp DhcpMessage := do
  let siaddr ← IPv4Address.ofString "172.18.1.1".toList
  match packet.chaddr with
  | none => undefinedBehaviour
  | some l2Address =>
    let options ← replyOptions messageType option51Data
    return { DhcpMessage.new with
      op := .bootreply
      htype := .ethernet10Mb
      hlen := 6
      hops := 0
      xid := packet.xid
      ciaddr := .ofUInt32 0
      yiaddr := ip
      siaddr
      giaddr := .ofUInt32 0
      chaddr := some l2Address
      options }

def makeOffer (packet : DhcpMessage) (ip : IPv4Address) : Cpp DhcpMessage :=
  let leaseTime := @hostToNetworkEndianArray _ 4 86400
  makeReply .dhcpoffer leaseTime.toList packet ip

def makeAcknowledge (packet : DhcpMessage) (ip : IPv4Address) : Cpp DhcpMessage :=
  let leaseTime : UInt32 := 86400
  makeReply .dhcpack [
    (leaseTime >>> 24).toUInt8,
    ((leaseTime <<< 8) >>> 24).toUInt8,
    ((leaseTime <<< 16) >>> 24).toUInt8,
    (leaseTime &&& 0xFF).toUInt8] packet ip

/-! ## One turn of the loop -/

structure Server where
  pool : AddressPool
  xids : TreeMap UInt32 IPv4Address

/-- A message that the server has sent. -/
structure Reply where
  message : DhcpMessage
  datagram : SentDatagram
deriving DecidableEq, Repr

omit [Host] in
/-- The byte of the first option 53.  The result of `std::find_if` is dereferenced
    without a test for the end. -/
def messageType (packet : DhcpMessage) : Cpp Option53MessageType :=
  match packet.options.find? fun option => option.description.code = 53 with
  | none => undefinedBehaviour
  | some option53 =>
    match option53.realValues[0]? with
    | none => .error (.thrown .outOfRange)
    | some (DhcpOptionFieldRealValue.uint8 value) => return value
    | some _ => .error (.thrown .badVariantAccess)

namespace Server

/-- `udp_listener.send_to(message.to_network_data())`. -/
def send (calls : SystemCalls) (message : DhcpMessage) : Cpp (Option Reply) := do
  let data ← message.toNetworkData
  let datagram ← UdpServer.sendTo calls data
  return some ⟨message, datagram⟩

/-- The branch for `DHCPDISCOVER`.  The right-hand side of the assignment to
    `xids[...]` comes first, so that an exhausted pool leaves `xids` alone. -/
def handleDiscover (calls : SystemCalls) (server : Server) (packet : DhcpMessage) :
    Cpp (Option Reply) × Server :=
  match packet.chaddr with
  | none => (undefinedBehaviour, server)
  | some mac =>
    let (result, pool) := server.pool.getAddress mac
    match result with
    | .error fault => (.error fault, { server with pool })
    | .ok ip =>
      let (ip, xids) := subscript (server.xids.insert packet.xid ip) packet.xid
      let reply := do
        let offer ← makeOffer packet ip
        send calls offer
      (reply, { pool, xids })

/-- The branch for `DHCPREQUEST`.  The address is read by the transaction id alone,
    and an unknown id gets a new entry. -/
def handleRequest (calls : SystemCalls) (server : Server) (packet : DhcpMessage) :
    Cpp (Option Reply) × Server :=
  let (ip, xids) := subscript server.xids packet.xid
  let reply := do
    let acknowledge ← makeAcknowledge packet ip
    send calls acknowledge
  (reply, { server with xids })

/-- What one datagram does: what is sent, if something is, and the server after it. -/
def handleDatagram (calls : SystemCalls) (server : Server) (packet : List UInt8) :
    Cpp (Option Reply) × Server :=
  match DhcpMessage.ofData packet with
  | .error fault => (.error fault, server)
  | .ok dhcpPacket =>
    if dhcpPacket.op = .bootrequest then
      match messageType dhcpPacket with
      | .error fault => (.error fault, server)
      | .ok msgType =>
        if msgType = .dhcpdiscover then handleDiscover calls server dhcpPacket
        else if msgType = .dhcprequest then handleRequest calls server dhcpPacket
        else (.ok none, server)
    else (.ok none, server)

/-! ## The loop -/

/-- What `main` sets up before the loop. -/
def start : Cpp Server := do
  let startIp ← IPv4Address.ofString "192.168.1.10".toList
  let endIp ← IPv4Address.ofString "192.168.1.20".toList
  return { pool := .new startIp endIp, xids := ∅ }

/-- A datagram from the queue, and what the system calls return while it is handled. -/
structure Input where
  packet : List UInt8
  calls : SystemCalls

/-- The loop.  It answers with what it sends, and a fault ends it for good. -/
def machine : Machine (Cpp Server) Input (Option Reply) where
  step
    | .error fault, _ => (none, .error fault)
    | .ok server, input =>
      match server.handleDatagram input.calls input.packet with
      | (.ok reply, server) => (reply, .ok server)
      | (.error fault, _) => (none, .error fault)

end Server

end Klevret.Dhcp
