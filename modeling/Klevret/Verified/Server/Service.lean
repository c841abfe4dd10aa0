import Klevret.Verified.Pool.Sharing
import Klevret.Verified.Server.Turns

/-! # The service that the server gives

`Service` says what the server is for: a desk hands out addresses, a table remembers the address
offered under each transaction id, and there is neither a datagram nor a map in it.  The server
refines it (`server_refines_service`): what the server sends in any run, down to the bytes, and
whether it is still running, is what the service does with the requests read off the
datagrams. -/

namespace Klevret.Verified.Server

open Klevret.Base Klevret.Dhcp Klevret.Verified.Pool

/-! ## The service -/

/-- What a datagram asks for.  Nothing can be read off a malformed one. -/
inductive Request where
  | discover (xid : UInt32) (mac : MacAddress)
  | request (xid : UInt32) (mac : MacAddress)
  | other
  | malformed
deriving DecidableEq, Repr

/-- An offer or an acknowledgement, and where it goes. -/
structure Answer where
  type : Option53MessageType
  xid : UInt32
  mac : MacAddress
  ip : IPv4Address
  destination : IPv4Address
deriving DecidableEq, Repr

structure Service where
  desk : FirstCome MacAddress IPv4Address
  offered : UInt32 → IPv4Address

namespace Service

/-- A request, and the address that an answer to it would go to if it goes out. -/
structure Input where
  asks : Request
  destination : Option IPv4Address

/-- An answer that does not go out ends the service. -/
def reply (service : Service) (type : Option53MessageType) (xid : UInt32) (mac : MacAddress)
    (ip : IPv4Address) : Option IPv4Address → Option Answer × Option Service
  | none => (none, none)
  | some destination => (some ⟨type, xid, mac, ip, destination⟩, some service)

def handle (service : Service) (input : Input) : Option Answer × Option Service :=
  match input.asks with
  | .malformed => (none, none)
  | .other => (none, some service)
  | .discover xid mac =>
    match service.desk.serve mac with
    | (none, _) => (none, none)
    | (some ip, desk) =>
      let service := ⟨desk, Function.update service.offered xid ip⟩
      reply service .dhcpoffer xid mac ip input.destination
  | .request xid mac => service.reply .dhcpack xid mac (service.offered xid) input.destination

/-- A service that has ended answers nothing. -/
def machine : Machine (Option Service) Input (Option Answer) where
  step
    | none, _ => (none, none)
    | some service, input => service.handle input

end Service

/-! ## The bytes of an answer -/

section

variable [host : Host] {calls : SystemCalls} {server : Server} {packet : List UInt8}

/-- The four bytes of option 51.  The code writes the number as it lies in memory. -/
def leaseTimeOnWire : List UInt8 :=
  match host.native with
  | .little => [128, 81, 1, 0]
  | .big => [0, 1, 81, 128]

def answerOnWire (type : Option53MessageType) (xid : UInt32) (mac : MacAddress)
    (ip : IPv4Address) : List UInt8 :=
  [2, 1, 6, 0] ++ bigEndianBytes 4 xid.toNat ++ [0, 0, 0, 0] ++ [0, 0, 0, 0] ++ ip.toNetworkData
    ++ [172, 18, 1, 1] ++ [0, 0, 0, 0] ++ (mac.data.toList ++ List.replicate 10 0)
    ++ List.replicate 64 0 ++ List.replicate 128 0 ++ [99, 130, 83, 99]
    ++ ([53, 1, type] ++ [1, 4, 255, 255, 255, 0] ++ [3, 4, 172, 18, 1, 1]
      ++ [51, 4] ++ leaseTimeOnWire) ++ [255]

theorem optionsToNetworkData_leaseOptions (type : Option53MessageType) :
    DhcpMessage.optionsToNetworkData (leaseOptions type) =
      .ok ([53, 1, type] ++ [1, 4, 255, 255, 255, 0] ++ [3, 4, 172, 18, 1, 1]
        ++ [51, 4] ++ leaseTimeOnWire) := by
  obtain ⟨native⟩ := host
  cases native <;> rfl

theorem toNetworkData_replyTo (type : Option53MessageType) (message : DhcpMessage)
    (mac : MacAddress) (ip : IPv4Address) :
    (replyTo type message mac ip).toNetworkData = .ok (answerOnWire type message.xid mac ip) := by
  have header : DhcpMessage.headerToNetworkData (replyTo type message mac ip) =
      .ok ([2, 1, 6, 0] ++ bigEndianBytes 4 message.xid.toNat ++ [0, 0, 0, 0] ++ [0, 0, 0, 0]
        ++ ip.toNetworkData ++ [172, 18, 1, 1] ++ [0, 0, 0, 0]
        ++ (mac.data.toList ++ List.replicate 10 0)
        ++ List.replicate 64 0 ++ List.replicate 128 0) := by
    have zero : (IPv4Address.ofUInt32 0).toNetworkData = [0, 0, 0, 0] := by
      revert host
      decide +kernel
    have padded : mac.toChaddr = mac.data.toList ++ List.replicate 10 0 := rfl
    rw [← bigEndianBytes_uint32]
    simp only [DhcpMessage.headerToNetworkData, replyTo, DhcpMessage.new, zero, padded]
    rfl
  have someOptions : (replyTo type message mac ip).options.length ≠ 0 := nofun
  rw [DhcpMessage.toNetworkData, header, ok_bind, if_neg someOptions]
  show (do let optionsData ← DhcpMessage.optionsToNetworkData (leaseOptions type); _) = _
  rw [optionsToNetworkData_leaseOptions]
  rfl

/-! ## The server as a service -/

instance SystemCalls.decidableSucceed (calls : SystemCalls) : Decidable calls.Succeed :=
  decidable_of_iff (calls.rawSocket ≠ -1 ∧ calls.ioctlBroadcastAddress ≠ -1 ∧
    calls.ioctlInterfaceIndex ≠ -1 ∧ calls.socketForSending ≠ -1 ∧ calls.setsockopt ≠ -1 ∧
    0 < calls.sent)
    ⟨fun all => ⟨all.1, all.2.1, all.2.2.1, all.2.2.2.1, all.2.2.2.2.1, all.2.2.2.2.2⟩,
      fun succeed => ⟨succeed.rawSocket, succeed.ioctlBroadcastAddress,
        succeed.ioctlInterfaceIndex, succeed.socketForSending, succeed.setsockopt, succeed.sent⟩⟩

def requestOf (packet : List UInt8) : Request :=
  match DhcpMessage.ofData packet with
  | .error _ => .malformed
  | .ok message =>
    if message.op = .bootrequest then
      match messageType message, message.chaddr with
      | .ok type, some mac =>
        if type = .dhcpdiscover then .discover message.xid mac
        else if type = .dhcprequest then .request message.xid mac
        else .other
      | _, _ => .malformed
    else .other

def inputOf (input : Server.Input) : Service.Input where
  asks := requestOf input.packet
  destination := if input.calls.Succeed then some input.calls.broadcastAddress else none

/-- What is sent for an answer. -/
def replyOf (answer : Answer) : Reply where
  message := replyTo answer.type { DhcpMessage.new with xid := answer.xid } answer.mac answer.ip
  datagram := ⟨answer.destination, 68, answerOnWire answer.type answer.xid answer.mac answer.ip⟩

def serviceOf (server : Server) : Service where
  desk := deskOf server.pool
  offered xid := (subscript server.xids xid).1

/-- A server that has ended is no service any more. -/
def abstraction : Cpp Server → Option Service
  | .ok server => some (serviceOf server)
  | .error _ => none

theorem send_replyTo (type : Option53MessageType) (message : DhcpMessage) (mac : MacAddress)
    (ip : IPv4Address) (succeed : calls.Succeed) :
    Server.send calls (replyTo type message mac ip) =
      .ok (some (replyOf ⟨type, message.xid, mac, ip, calls.broadcastAddress⟩)) := by
  rw [Server.send, toNetworkData_replyTo, ok_bind, UdpServer.sendTo_of_succeed succeed, ok_bind]
  rfl

/-- What the loop makes of a turn that ends in `outcome`. -/
def stepOf : Cpp (Option Reply) × Server → Option Reply × Cpp Server
  | (.ok reply, server) => (reply, .ok server)
  | (.error fault, _) => (none, .error fault)

theorem step_eq (server : Server) (input : Server.Input) :
    Server.machine.step (.ok server) input =
      stepOf (server.handleDatagram input.calls input.packet) := by
  cases handled : server.handleDatagram input.calls input.packet with
  | mk result later =>
    cases result with
    | ok reply => simp only [Server.machine, handled, stepOf]
    | error fault => simp only [Server.machine, handled, stepOf]

/-- The service sends what a turn sends, or ends with it. -/
theorem reply_send (type : Option53MessageType) (message : DhcpMessage) (mac : MacAddress)
    (ip : IPv4Address) (later : Server) (input : Server.Input) :
    let outcome := stepOf (Server.send input.calls (replyTo type message mac ip), later)
    let answered := (serviceOf later).reply type message.xid mac ip (inputOf input).destination
    outcome.1 = answered.1.map replyOf ∧ abstraction outcome.2 = answered.2 := by
  by_cases succeed : input.calls.Succeed
  · rw [inputOf, if_pos succeed, send_replyTo type message mac ip succeed]
    exact ⟨rfl, rfl⟩
  · have throws : Throws (Server.send input.calls (replyTo type message mac ip)) :=
      send_of_not_succeed succeed
    obtain ⟨exception, failed⟩ := throws
    rw [inputOf, if_neg succeed, failed]
    exact ⟨rfl, rfl⟩

/-! ## Refinement -/

omit host in
theorem answerOf_eq_ok {result : Option IPv4Address} {ip : IPv4Address}
    (returned : answerOf result = .ok ip) : result = some ip := by
  cases result with
  | none => cases returned
  | some found => rw [Except.ok.inj returned]

omit host in
theorem answerOf_eq_error {result : Option IPv4Address} {fault : Fault}
    (refused : answerOf result = .error fault) : result = none := by
  cases result with
  | none => rfl
  | some found => cases refused

theorem requestOf_eq {message : DhcpMessage} {mac : MacAddress} {type : Option53MessageType}
    (decoded : DhcpMessage.ofData packet = .ok message) (isRequest : message.op = .bootrequest)
    (typed : messageType message = .ok type) (chaddr : message.chaddr = some mac) :
    requestOf packet =
      if type = .dhcpdiscover then .discover message.xid mac
      else if type = .dhcprequest then .request message.xid mac
      else .other := by
  simp only [requestOf, decoded, if_pos isRequest, typed, chaddr]

/-- One turn of the loop is one step of the service. -/
theorem step_refined (consistent : Consistent server.pool) (input : Server.Input) :
    let step := Server.machine.step (.ok server) input
    let handled := (serviceOf server).handle (inputOf input)
    step.1 = handled.1.map replyOf ∧ abstraction step.2 = handled.2 := by
  rw [step_eq]
  have asks : (inputOf input).asks = requestOf input.packet := rfl
  have turn := handleDatagram_turn input.calls server input.packet
  generalize server.handleDatagram input.calls input.packet = outcome at turn
  cases turn with
  | undecoded refused =>
    have malformed : requestOf input.packet = .malformed := by
      simp only [requestOf, refused]
    simp only [Service.handle, asks, malformed]
    exact ⟨rfl, rfl⟩
  | untyped decoded isRequest missing =>
    have malformed : requestOf input.packet = .malformed := by
      simp only [requestOf, decoded, if_pos isRequest, missing]
    simp only [Service.handle, asks, malformed]
    exact ⟨rfl, rfl⟩
  | @ignored message decoded otherType =>
    have other : requestOf input.packet = .other := by
      by_cases isRequest : message.op = .bootrequest
      · obtain ⟨type, typed, notDiscover, notDhcpRequest⟩ := otherType isRequest
        obtain ⟨mac, chaddr⟩ := chaddr_of_ofData decoded
        rw [requestOf_eq decoded isRequest typed chaddr, if_neg notDiscover,
          if_neg notDhcpRequest]
      · simp only [requestOf, decoded, if_neg isRequest]
    simp only [Service.handle, asks, other]
    exact ⟨rfl, rfl⟩
  | @exhausted message mac fault decoded isRequest isDiscover chaddr refused =>
    have discovers : requestOf input.packet = .discover message.xid mac := by
      rw [requestOf_eq decoded isRequest isDiscover chaddr, if_pos rfl]
    rw [(serve_deskOf consistent mac).1] at refused
    have served : (serviceOf server).desk.serve mac = (none, ((deskOf server.pool).serve mac).2) :=
      Prod.ext (answerOf_eq_error refused) rfl
    simp only [Service.handle, asks, discovers, served]
    exact ⟨rfl, rfl⟩
  | @offered message mac ip decoded isRequest isDiscover chaddr leased =>
    have discovers : requestOf input.packet = .discover message.xid mac := by
      rw [requestOf_eq decoded isRequest isDiscover chaddr, if_pos rfl]
    obtain ⟨sameAddress, sameDesk⟩ := serve_deskOf consistent mac
    rw [sameAddress] at leased
    have served : (serviceOf server).desk.serve mac =
        (some ip, deskOf (server.pool.getAddress mac).2) :=
      Prod.ext (answerOf_eq_ok leased) sameDesk.symm
    -- the table and the desk change with the map and the pool
    have later : serviceOf { pool := (server.pool.getAddress mac).2,
                             xids := server.xids.insert message.xid ip } =
        ⟨deskOf (server.pool.getAddress mac).2,
          Function.update (serviceOf server).offered message.xid ip⟩ := by
      have offered : (fun xid => (subscript (server.xids.insert message.xid ip) xid).1) =
          Function.update (serviceOf server).offered message.xid ip := by
        funext xid
        rw [subscript_insert, Function.update_apply]
        simp only [eq_comm, serviceOf]
      rw [serviceOf, offered]
    simp only [Service.handle, asks, discovers, served]
    rw [← later]
    exact reply_send .dhcpoffer message mac ip _ input
  | @acknowledged message mac decoded isRequest isDhcpRequest chaddr =>
    have requests : requestOf input.packet = .request message.xid mac := by
      rw [requestOf_eq decoded isRequest isDhcpRequest chaddr, if_neg (by decide), if_pos rfl]
    -- reading a missing entry creates it with the value that is read
    have later : serviceOf { server with xids := (subscript server.xids message.xid).2 } =
        serviceOf server := by
      simp only [serviceOf, subscript_subscript]
    have answered := reply_send .dhcpack message mac (subscript server.xids message.xid).1
      { server with xids := (subscript server.xids message.xid).2 } input
    rw [later] at answered
    simp only [Service.handle, asks, requests]
    exact answered

/-- The pool of a running server is consistent. -/
def KeepsBooks (state : Cpp Server) : Prop :=
  ∀ server, state = .ok server → Consistent server.pool

theorem keepsBooks_next (state : Cpp Server) (input : Server.Input) (keeps : KeepsBooks state) :
    KeepsBooks (Server.machine.next state input) := by
  intro later next
  obtain ⟨server, reply, rfl, handled⟩ := turn_of_next next
  have consistent := keeps server rfl
  have turn := handleDatagram_turn input.calls server input.packet
  generalize outcomeEq : server.handleDatagram input.calls input.packet = outcome at turn
  rw [outcomeEq] at handled
  cases turn with
  | undecoded refused | untyped decoded isRequest missing
  | exhausted decoded isRequest isDiscover chaddr refused => cases handled
  | ignored decoded otherType =>
    cases handled
    exact consistent
  | offered decoded isRequest isDiscover chaddr leased =>
    obtain ⟨_, rfl⟩ := Prod.mk.inj handled
    exact consistent.getAddress _
  | acknowledged decoded isRequest isDhcpRequest chaddr =>
    obtain ⟨_, rfl⟩ := Prod.mk.inj handled
    exact consistent

/-- 192.168.1.10 to 192.168.1.20, and no transaction yet. -/
def Service.start : Service where
  desk := ⟨fun _ => none, (List.range' 10 11).map fun last => ⟨#v[192, 168, 1, .ofNat last]⟩⟩
  offered _ := ⟨#v[0, 0, 0, 0]⟩

theorem serviceOf_start : serviceOf ⟨startPool, ∅⟩ = Service.start := by
  have addresses : startPool.includedIpAddresses.toList =
      (List.range' 10 11).map fun last => ⟨#v[192, 168, 1, .ofNat last]⟩ := by
    revert host
    decide +kernel
  have zero : (default : IPv4Address) = ⟨#v[0, 0, 0, 0]⟩ := by
    revert host
    decide +kernel
  have offered : (fun xid => (subscript (∅ : Std.TreeMap UInt32 IPv4Address) xid).1) =
      Service.start.offered := by
    funext xid
    rw [subscript_of_none (by simp)]
    exact zero
  rw [serviceOf, startPool, deskOf_new, ← startPool, addresses, offered]
  rfl

theorem abstraction_start : abstraction Server.start = some .start := by
  rw [start_eq, abstraction, serviceOf_start]

theorem keepsBooks_run (inputs : List Server.Input) :
    KeepsBooks (Server.machine.run Server.start inputs) := by
  refine Machine.run_invariant keepsBooks_next ?_ inputs
  rw [start_eq]
  rintro _ ⟨⟩
  exact consistent_new _ _

theorem output_refined {state : Cpp Server} (keeps : KeepsBooks state) (input : Server.Input) :
    Server.machine.output state input =
      (Service.machine.output (abstraction state) (inputOf input)).map replyOf := by
  cases state with
  | error fault => rfl
  | ok server => exact (step_refined (keeps server rfl) input).1

theorem next_refined {state : Cpp Server} (keeps : KeepsBooks state) (input : Server.Input) :
    abstraction (Server.machine.next state input) =
      Service.machine.next (abstraction state) (inputOf input) := by
  cases state with
  | error fault => rfl
  | ok server => exact (step_refined (keeps server rfl) input).2

/-- From any state whose books are kept. -/
theorem refined_from {state : Cpp Server} (keeps : KeepsBooks state) (inputs : List Server.Input) :
    Server.machine.outputs state inputs =
        (Service.machine.outputs (abstraction state) (inputs.map inputOf)).map (·.map replyOf) ∧
      abstraction (Server.machine.run state inputs) =
        Service.machine.run (abstraction state) (inputs.map inputOf) := by
  have refined := Machine.outputs_refined Server.machine Service.machine KeepsBooks abstraction
    id inputOf (Option.map replyOf) keepsBooks_next (fun _ input keeps => output_refined keeps input)
    (fun _ input keeps => next_refined keeps input) keeps inputs
  rw [List.map_id] at refined
  exact refined

theorem server_refines_service (inputs : List Server.Input) :
    Server.machine.outputs Server.start inputs =
        (Service.machine.outputs (some .start) (inputs.map inputOf)).map (·.map replyOf) ∧
      abstraction (Server.machine.run Server.start inputs) =
        Service.machine.run (some .start) (inputs.map inputOf) := by
  rw [← abstraction_start]
  exact refined_from (keepsBooks_run []) inputs

end

end Klevret.Verified.Server
