import Klevret.Dhcp.DhcpOption
import Klevret.Dhcp.HardwareAddress

/-! # DHCP messages (`DhcpMessage.hpp`, `DhcpMessage.cpp`)

`DhcpMessageType` is an enumeration over `uint8_t` that the code also makes from
arbitrary bytes, so it is the byte itself. -/

namespace Klevret.Dhcp

open Klevret.Base

abbrev DhcpMessageType := UInt8

def DhcpMessageType.bootrequest : DhcpMessageType := 1

def DhcpMessageType.bootreply : DhcpMessageType := 2

/-- `DHCP_MESSAGE_MIN_LENGTH`. -/
abbrev dhcpMessageMinLength : ℕ := 236

/-- `chaddr` is a pointer, null until an address is stored. -/
structure DhcpMessage where
  op : DhcpMessageType
  htype : HardwareAddressType
  hlen : UInt8
  hops : UInt8
  xid : UInt32
  secs : UInt16
  flags : UInt16
  ciaddr : IPv4Address
  yiaddr : IPv4Address
  siaddr : IPv4Address
  giaddr : IPv4Address
  chaddr : Option MacAddress
  sname : List UInt8
  file : List UInt8
  options : List DhcpOption
deriving DecidableEq, Repr

namespace DhcpMessage

variable [Host]

/-- `DhcpMessage()`. -/
def new : DhcpMessage where
  op := .bootrequest
  htype := .ethernet10Mb
  hlen := UInt8.ofInt (getHardwareAddressLength .ethernet10Mb)
  hops := 0
  xid := 0
  secs := 0
  flags := 0
  ciaddr := .ofUInt32 0
  yiaddr := .ofUInt32 0
  siaddr := .ofUInt32 0
  giaddr := .ofUInt32 0
  chaddr := none
  sname := []
  file := []
  options := []

/-! ## Reading -/

/-- The fixed header, up to the options. -/
def readHeader (data : List UInt8) : Cpp DhcpMessage :=
  if data.length < dhcpMessageMinLength then
    throwRuntimeError ("минимальная длина DHCP сообщения: " ++ toString dhcpMessageMinLength)
  else do
    let op ← checkedAt data 0
    let htype ← checkedAt data 1
    let hlen ← checkedAt data 2
    let hops ← checkedAt data 3
    let xid := (← checkedAt data 4).toUInt32 <<< 24 ||| (← checkedAt data 5).toUInt32 <<< 16
      ||| (← checkedAt data 6).toUInt32 <<< 8 ||| (← checkedAt data 7).toUInt32
    let secs := (← checkedAt data 8).toUInt16 <<< 8 ||| (← checkedAt data 9).toUInt16
    let flags := (← checkedAt data 10).toUInt16 <<< 8 ||| (← checkedAt data 11).toUInt16
    let ciaddr ← IPv4Address.fromBigEndianBytes data 12 16
    let yiaddr ← IPv4Address.fromBigEndianBytes data 16 20
    let siaddr ← IPv4Address.fromBigEndianBytes data 20 24
    let giaddr ← IPv4Address.fromBigEndianBytes data 24 28
    if htype ≠ HardwareAddressType.ethernet10Mb then
      throwRuntimeError "Неподдерживаемый тип адреса"
    else
      let chaddr ← MacAddress.fromBigEndianBytes data 28 (28 + macAddressLength)
      -- the iterator steps over all sixteen bytes of `chaddr`
      let sname ← copyRange data 44 64
      let file ← copyRange data 108 128
      return {
        op, htype, hlen, hops, xid, secs, flags, ciaddr, yiaddr, siaddr, giaddr
        chaddr := some chaddr
        sname, file
        options := [] }

/-- The option loop.  It tests for the end of the datagram only where an option may
    start; the length byte and the payload are read unchecked. -/
def readOptions (data : List UInt8) (iter : ℕ) : Cpp (List DhcpOption) :=
  if iter = data.length then return []
  else if inside : iter < data.length then
    let optionCode := data[iter]
    if optionCode = 0 then readOptions data (iter + 1)
    else if optionCode = 255 then return []
    else do
      let payloadLength ← deref data (iter + 1)
      let payloadBegin := iter + 2
      let payloadEnd := payloadBegin + payloadLength.toNat
      let newOption ←
        DhcpOption.construct optionCode.toNat payloadLength.toNat data payloadBegin payloadEnd
      let options ← readOptions data payloadEnd
      return newOption :: options
  else
    undefinedBehaviour
termination_by data.length - iter

/-- `DhcpMessage(std::vector<uint8_t>)`. -/
def ofData (data : List UInt8) : Cpp DhcpMessage := do
  let message ← readHeader data
  if data.length < dhcpMessageMinLength + 4 then return message
  else
    let cookie ← copyRange data dhcpMessageMinLength 4
    if cookie ≠ [99, 130, 83, 99] then
      throwRuntimeError "неверное значение magic cookie"
    else
      let options ← readOptions data (dhcpMessageMinLength + 4)
      return { message with options }

/-! ## Writing -/

/-- The options one after the other. -/
def optionsToNetworkData : List DhcpOption → Cpp (List UInt8)
  | [] => return []
  | option :: options => do
    let optData ← option.toNetworkData
    let rest ← optionsToNetworkData options
    return optData ++ rest

omit [Host] in
/-- The fixed header; a null `chaddr` is dereferenced. -/
def headerToNetworkData (message : DhcpMessage) : Cpp (List UInt8) :=
  match message.chaddr with
  | none => undefinedBehaviour
  | some chaddr => return [
      message.op,
      message.htype,
      message.hlen,
      message.hops,
      (message.xid >>> 24).toUInt8,
      ((message.xid >>> 16) &&& 0xFF).toUInt8,
      ((message.xid >>> 8) &&& 0xFF).toUInt8,
      (message.xid &&& 0xFF).toUInt8,
      ((message.secs >>> 8) &&& 0xFF).toUInt8,
      (message.secs &&& 0xFF).toUInt8,
      ((message.flags >>> 8) &&& 0xFF).toUInt8,
      (message.flags &&& 0xFF).toUInt8]
    ++ message.ciaddr.toNetworkData
    ++ message.yiaddr.toNetworkData
    ++ message.siaddr.toNetworkData
    ++ message.giaddr.toNetworkData
    ++ chaddr.toChaddr
    -- `sname` and `file` of the message are not written
    ++ List.replicate 64 0
    ++ List.replicate 128 0

def toNetworkData (message : DhcpMessage) : Cpp (List UInt8) := do
  let result ← headerToNetworkData message
  if message.options.length = 0 then return result
  else
    let optionsData ← optionsToNetworkData message.options
    return result ++ [99, 130, 83, 99] ++ optionsData ++ [255]

end DhcpMessage

end Klevret.Dhcp
