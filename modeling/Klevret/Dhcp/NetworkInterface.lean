import Klevret.Dhcp.HardwareAddress
import Klevret.Dhcp.IpAddress

/-! # Network interfaces (`NetworkInterface.hpp`, `NetworkInterface.cpp`, `main.cpp`)

`get_all_interfaces` walks the list that `getifaddrs` makes and asks the kernel for the hardware
address of each IPv4 entry.  The list and what the kernel writes are inputs.  Nothing looks at the
results of `socket` and `ioctl`. -/

namespace Klevret.Dhcp

open Klevret.Base

/-- `AF_INET`. -/
def afInet : UInt16 := 2

/-- `AF_INET6`. -/
def afInet6 : UInt16 := 10

/-- `IFNAMSIZ`, the size of `ifrn_name`. -/
def ifNameSize : ℕ := 16

/-- A `sockaddr`, with the four bytes that lie where an IPv4 address would be. -/
structure SockAddr where
  saFamily : UInt16
  sAddr : Vector UInt8 ipV4AddressLength
deriving DecidableEq, Repr

/-- What is read of an entry; the pointers may be null.  `saData` is what the request for the
    hardware address of this entry leaves in `ifr_ifru.ifru_hwaddr.sa_data`. -/
structure IfAddrs where
  ifaName : List Char
  ifaAddr : Option SockAddr
  ifaNetmask : Option SockAddr
  saData : Vector UInt8 14
deriving DecidableEq, Repr

/-- What `getifaddrs` returns, and the list that it makes. -/
structure InterfaceCalls where
  getifaddrs : ℤ
  ifaddrs : List IfAddrs
deriving DecidableEq, Repr

inductive L3AddressType where
  | ipV4
  | ipV6
deriving DecidableEq, Repr

/-- Only the IPv4 alternatives of the two variants are ever made. -/
structure NetworkInterface where
  name : List Char
  networkAddress : IPv4Address
  subnetMask : IPv4SubnetMask
  type : L3AddressType
  macAddress : MacAddress
deriving DecidableEq, Repr

variable [Host]

/-- The number whose memory is `sAddr`, in the byte order of the host. -/
def SockAddr.address (sockaddr : SockAddr) : UInt32 :=
  .ofBitVec (networkToHostEndianValue (bitCastToInteger 4 sockaddr.sAddr.toList))

/-- One turn of the loop over the list. -/
def readInterface (currentIface : IfAddrs) : Cpp (Option NetworkInterface) :=
  match currentIface.ifaAddr with
  -- an entry without an address is looked into like all others
  | none => undefinedBehaviour
  | some ifaAddr =>
    if ifaAddr.saFamily = afInet then
      match currentIface.ifaNetmask with
      | none => undefinedBehaviour
      | some ifaNetmask =>
        -- `strcpy` into `ifrn_name`
        if currentIface.ifaName.length ≥ ifNameSize then undefinedBehaviour
        else do
          let macData := currentIface.saData.toList.take macAddressLength
          let macAddress ← MacAddress.fromBigEndianBytes macData 0 macData.length
          return some {
            name := currentIface.ifaName
            networkAddress := .ofUInt32 ifaAddr.address
            subnetMask := .ofUInt32 ifaNetmask.address
            type := .ipV4
            macAddress }
    else if ifaAddr.saFamily = afInet6 then return none
    else return none

/-- `get_all_interfaces`. -/
def getAllInterfaces (calls : InterfaceCalls) : Cpp (List NetworkInterface) :=
  if calls.getifaddrs ≠ 0 then
    throwRuntimeError "Не удалось получить сетевые интерфейсы Linux"
  else do
    let found ← calls.ifaddrs.mapM readInterface
    return found.reduceOption

omit [Host] in
/-- What `main` prints of an interface. -/
def NetworkInterface.line (iface : NetworkInterface) : List Char :=
  iface.name ++ ": ".toList ++ iface.networkAddress.toString ++ "/".toList ++
    iface.subnetMask.toPrefix.repr.toList ++ "  ".toList ++ iface.macAddress.toString ++ ['\n']

/-- The loop of `main` over the interfaces. -/
def printInterfaces (ifaces : List NetworkInterface) : List (List Char) :=
  (ifaces.filter fun iface => iface.type = .ipV4).map NetworkInterface.line

end Klevret.Dhcp
