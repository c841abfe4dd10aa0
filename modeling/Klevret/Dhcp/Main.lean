import Klevret.Dhcp.ApiServer
import Klevret.Dhcp.NetworkInterface
import Klevret.Dhcp.UdpListener

/-! # The program (`main.cpp`)

`main` lists the interfaces, decodes a message, starts the thread that receives datagrams, starts
the API server, and only behind that comes the loop that answers.  A schedule says which thread
makes the next step (`Program.machine`).  A fault of one thread ends all of them. -/

namespace Klevret.Dhcp

open Klevret.Base Klevret.Common
open TcpListener (ReadResult)

/-- What the system calls of the constructor of `UdpServer` return. -/
structure UdpServerCalls where
  hostInterfaces : InterfaceCalls
  socket : ℤ
  bind : ℤ
deriving DecidableEq, Repr

/-- What the system calls return before the loop. -/
structure StartCalls where
  interfaces : InterfaceCalls
  udpServer : UdpServerCalls
  apiServer : ListenCalls
deriving DecidableEq, Repr

/-- `test_dhcp_message_data`. -/
def testDhcpMessageData : List UInt8 :=
  [0x02, 0x01, 0x06, 0x00,
  0x07, 0xd0, 0xd9, 0x0d,
  0x00, 0x01, 0x00, 0x00,
  0x00, 0x00, 0x00, 0x00,
  0xc0, 0xa8, 0x01, 0x0a,
  0xc0, 0xa8, 0x01, 0x01,
  0x00, 0x00, 0x00, 0x00,
  0x38, 0x01, 0x22, 0xe4, 0xb2, 0xa8, 0x00, 0x00, 0x00, 0x00, 0x00, 0x00, 0x00, 0x00, 0x00, 0x00] ++
  -- sname and file
  List.replicate 192 0x00 ++
  [0x63, 0x82, 0x53, 0x63,
  0x35, 0x01, 0x05,
  0x36, 0x04, 0xc0, 0xa8, 0x01, 0x01,
  0x33, 0x04, 0x00, 0x00, 0xa8, 0xc0,
  0x3a, 0x04, 0x00, 0x00, 0x54, 0x60,
  0x3b, 0x04, 0x00, 0x00, 0x93, 0xa8,
  0x01, 0x04, 0xff, 0xff, 0xff, 0x00,
  0x1c, 0x04, 0xc0, 0xa8, 0x01, 0xff,
  0x03, 0x04, 0xc0, 0xa8, 0x01, 0x01,
  0x06, 0x04, 0xc0, 0xa8, 0x01, 0x01,
  0x0c, 0x0c, 0x69, 0x74, 0x2d, 0x6e, 0x6f, 0x74, 0x2d, 0x61, 0x2d, 0x70, 0x72, 0x6f,
  0xff]

variable [Host]

/-- The constructor; nothing reads the interfaces that it keeps. -/
def UdpServer.construct (calls : UdpServerCalls) : Cpp UdpServer := do
  let _hostInterfaces ← getAllInterfaces calls.hostInterfaces
  if calls.socket = -1 then throwRuntimeError "Ошибка создания серверного UDP сокета"
  else if calls.bind = -1 then throwRuntimeError "Ошибка создания серверного UDP сокета (bind)"
  else return UdpServer.new

/-- Where `main` is. -/
inductive MainState where
  | listing
  | constructing
  | startingApi
  /-- In `ApiServer::start`, in front of the end of `join`. -/
  | joining
  | looping (phase : PollingLoop.Phase) (server : Server)
  | ended (fault : Fault)

/-- The two servers are there once they have been constructed. -/
structure Program where
  main : MainState
  udpListener : Option UdpServer
  tcpServer : Option TcpServer

inductive ProgramStep where
  /-- A step of `main`; the calls are those of `send_to`. -/
  | main (calls : SystemCalls)
  /-- A turn of the thread of `UdpServer`. -/
  | receiver (received : UdpServer.Received)
  | acceptor (accepted : Bool)
  | client (index : ℕ) (result : ReadResult)

inductive ProgramOutput where
  | printed (output : Printed)
  | sent (reply : Reply)

namespace Program

omit [Host] in
def start : Program where
  main := .listing
  udpListener := none
  tcpServer := none

omit [Host] in
/-- A fault ends the program. -/
def fail (program : Program) (fault : Fault) : Option ProgramOutput × Program :=
  (none, { program with main := .ended fault })

/-- A turn of the loop. -/
def loopStep (phase : PollingLoop.Phase) (server : Server) (calls : SystemCalls)
    (program : Program) : Option ProgramOutput × Program :=
  match program.udpListener with
  | none => program.fail .undefinedBehaviour
  | some udpListener =>
    match mainLoop.turn ⟨udpListener, phase, server⟩ calls with
    | (reply, .ok ⟨udpListener, phase, server⟩) =>
      (reply.map .sent, { program with main := .looping phase server, udpListener := some udpListener })
    | (_, .error fault) => program.fail fault

/-- A step of `main`. -/
def mainStep (startCalls : StartCalls) (calls : SystemCalls) (program : Program) :
    Option ProgramOutput × Program :=
  match program.main with
  | .listing =>
    match getAllInterfaces startCalls.interfaces with
    | .error fault => program.fail fault
    | .ok ifaces =>
      match DhcpMessage.ofData testDhcpMessageData with
      | .error fault => program.fail fault
      | .ok _ =>
        (some (.printed (.lines (printInterfaces ifaces))), { program with main := .constructing })
  | .constructing =>
    match UdpServer.construct startCalls.udpServer with
    | .error fault => program.fail fault
    | .ok udpListener =>
      (some (.printed (.text "DHCP server started\n")),
        { program with main := .startingApi, udpListener := some udpListener })
  | .startingApi =>
    match TcpServer.construct startCalls.apiServer with
    | .error fault => program.fail fault
    | .ok tcpServer => (none, { program with main := .joining, tcpServer := some tcpServer })
  | .joining =>
    if program.tcpServer.any TcpServer.isJoinable then
      match Server.start with
      | .error fault => program.fail fault
      | .ok server => (none, { program with main := .looping .asking server })
    else (none, program)
  | .looping phase server => program.loopStep phase server calls
  | .ended _ => (none, program)

/-- A step of a thread that `main` has started. -/
def threadStep (program : Program) : ProgramStep → Option ProgramOutput × Program
  | .main _ => (none, program)
  | .receiver received =>
    (none, { program with
      udpListener := program.udpListener.map fun udpListener => udpListener.threadTurn received })
  | .acceptor accepted =>
    match program.tcpServer with
    | none => (none, program)
    | some tcpServer =>
      let (output, tcpServer) := tcpServer.acceptorStep accepted
      (output.map .printed, { program with tcpServer := some tcpServer })
  | .client index result =>
    match program.tcpServer with
    | none => (none, program)
    | some tcpServer =>
      match tcpServer.clientStep index result with
      | (.ok output, tcpServer) =>
        (output.map .printed, { program with tcpServer := some tcpServer })
      | (.error fault, _) => program.fail fault

def machine (startCalls : StartCalls) : Machine Program ProgramStep (Option ProgramOutput) where
  step program step :=
    match program.main, step with
    | .ended _, _ => (none, program)
    | _, .main calls => program.mainStep startCalls calls
    | _, step => program.threadStep step

end Program

end Klevret.Dhcp
