import Mathlib.Data.Int.Notation
import Klevret.Cli.Command

/-! # Handlers and the shipped commands (`command_handlers.cpp`, `Command.cpp`)

The handlers are named by `CommandHandler`, and `CommandHandler.call` is what the
function of that name does with the stack of the values of a command. -/

namespace Klevret.Cli

open Klevret.Base

/-- The top of the stack comes first. -/
abbrev CommandElementRealValues := List CommandElementRealValue

/-- The values that a handler puts into a `boost::property_tree`, in their order. -/
abbrev PropertyTree := List (String × List Char)

inductive KlevretComponent where
  | cli
  | core
  | dhcp
deriving DecidableEq, Repr

/-- `klevret_components[...]`: the port of a component, and zero for one without. -/
def klevretComponents : KlevretComponent → ℕ
  | .core => 40236
  | _ => 0

/-- What the system calls of `send_cmd` return. -/
structure SystemCalls where
  clientSocket : ℤ
  inetPton : ℤ
  connect : ℤ
  sentBytes : ℤ
deriving DecidableEq, Repr

/-- What a handler does: it writes a line, or sends a tree to a port and prints what `send`
    returns. -/
inductive HandlerEffect where
  | written (str : String)
  | sent (port : ℕ) (obj : PropertyTree) (sentBytes : ℤ)
deriving DecidableEq, Repr

/-- `std::stack` sizes are compared with the number that the handler expects. -/
def checkArgsSize (cmd : CommandElementRealValues) (numberOfArgs : ℕ) (cmdStr : String) : Cpp Unit :=
  if cmd.length ≠ numberOfArgs then
    throwRuntimeError ("Внутренняя ошибка обработки команды " ++ cmdStr)
  else return ()

/-- The port is the one of the core, whatever component is asked for. -/
def sendCmd (calls : SystemCalls) (_klevretComponent : KlevretComponent) (obj : PropertyTree) :
    Cpp HandlerEffect :=
  if calls.clientSocket = -1 then
    throwRuntimeError "не удалось создать клиентский сокет"
  else if calls.inetPton = -1 then
    throwRuntimeError "не удалось преобразовать IP адрес для sockaddr_in"
  else if calls.connect = -1 then
    throwRuntimeError "не удалось выполнить подключение"
  else
    return .sent (klevretComponents .core) obj calls.sentBytes

/-- `std::get<IPv4Address>(cmd.top())`. -/
def topIPv4Address : CommandElementRealValues → Cpp IPv4Address
  | [] => undefinedBehaviour
  | .ipV4Address value :: _ => return value
  | _ :: _ => .error (.thrown .badVariantAccess)

def cmdVersion (_ : CommandElementRealValues) : Cpp HandlerEffect :=
  return .written "Клеврет. Версия 0.1 (в разработке)\n"

def blank (_ : CommandElementRealValues) : Cpp HandlerEffect :=
  return .written "пустая команда\n"

def cmdIpAddressIpV4 (calls : SystemCalls) (cmd : CommandElementRealValues) : Cpp HandlerEffect := do
  checkArgsSize cmd 3 "ip address <IPv4Address>"
  let ip ← topIPv4Address cmd
  sendCmd calls .core [("component", "dhcp".toList), ("cmd", "ip.address".toList),
    ("ip", ip.toString)]

def cmdDhcpPoolCreate (calls : SystemCalls) (cmd : CommandElementRealValues) :
    Cpp HandlerEffect := do
  checkArgsSize cmd 5 "dhcp pool create <IPv4Address> <IPv4Address>"
  let ipEnd ← topIPv4Address cmd
  let ipStart ← topIPv4Address cmd.tail
  sendCmd calls .core [("component", "dhcp".toList), ("cmd", "dhcp.pool.create".toList),
    ("ip_start", ipStart.toString), ("ip_end", ipEnd.toString)]

/-- The handlers of the shipped commands. -/
inductive CommandHandler where
  | cmdVersion
  | blank
  | cmdIpAddressIpV4
  | cmdDhcpPoolCreate
deriving DecidableEq, Repr

def CommandHandler.call (calls : SystemCalls) (cmd : CommandElementRealValues) :
    CommandHandler → Cpp HandlerEffect
  | .cmdVersion => Cli.cmdVersion cmd
  | .blank => Cli.blank cmd
  | .cmdIpAddressIpV4 => Cli.cmdIpAddressIpV4 calls cmd
  | .cmdDhcpPoolCreate => Cli.cmdDhcpPoolCreate calls cmd

/-- `all_commands`. -/
def allCommands : Cpp (List (Command CommandHandler)) := do
  let version ← Command.construct "version".toList (some .cmdVersion)
  let ipShow ← Command.construct "ip show".toList (some .blank)
  let ipAddressShow ← Command.construct "ip address show".toList (some .blank)
  let ipAddress ← Command.construct "ip address <IPv4Address>".toList (some .cmdIpAddressIpV4)
  let dhcpPoolCreate ← Command.construct "dhcp pool create <IPv4Address> <IPv4Address>".toList
    (some .cmdDhcpPoolCreate)
  return [version, ipShow, ipAddressShow, ipAddress, dhcpPoolCreate]

end Klevret.Cli
