import Klevret.Verified.Pool.Leases
import Klevret.Verified.Server.Turns

/-! # Which address a DHCPACK names

The acknowledged address is the one that was stored under the transaction id, by
whichever client discovered with it last (`Serving`).  The address is therefore
the sender's own exactly when that client was the sender
(`acknowledgements_sound_iff`). -/

namespace Klevret.Verified.Server

open Klevret.Base Klevret.Dhcp Klevret.Verified.Pool

section Acknowledgements

variable [host : Host]

/-! ## Transactions -/

/-- The transaction id and the client of a request of the given type. -/
def transactionOf (type : Option53MessageType) (packet : List UInt8) :
    Option (UInt32 × MacAddress) :=
  match DhcpMessage.ofData packet with
  | .error _ => none
  | .ok message =>
    if message.op = .bootrequest ∧ messageType message = .ok type then
      message.chaddr.map fun mac => (message.xid, mac)
    else none

/-- The client of the latest DHCPDISCOVER with the transaction id. -/
def lastDiscoverer (history : List Server.Input) (xid : UInt32) : Option MacAddress :=
  (history.reverse.filterMap fun input => transactionOf .dhcpdiscover input.packet).lookup xid

/-- The server after a history of datagrams, or the fault that ended it. -/
def serverAfter (history : List Server.Input) : Cpp Server :=
  Server.machine.run Server.start history

/-- `get_address(mac)` has returned `ip` in the course of the history. -/
def Leased (history : List Server.Input) (mac : MacAddress) (ip : IPv4Address) : Prop :=
  ∃ before input after server xid, history = before ++ input :: after ∧
    serverAfter before = .ok server ∧
    transactionOf .dhcpdiscover input.packet = some (xid, mac) ∧
    (server.pool.getAddress mac).1 = .ok ip

variable {packet : List UInt8} {message : DhcpMessage} {mac : MacAddress} {ip : IPv4Address}
  {type : Option53MessageType} {history : List Server.Input} {input : Server.Input}
  {server later : Server} {xid : UInt32}

theorem transactionOf_eq (decoded : DhcpMessage.ofData packet = .ok message)
    (isRequest : message.op = .bootrequest) (typed : messageType message = .ok type)
    (chaddr : message.chaddr = some mac) : transactionOf type packet = some (message.xid, mac) := by
  rw [transactionOf, decoded]
  dsimp only
  rw [if_pos ⟨isRequest, typed⟩, chaddr]
  rfl

theorem transactionOf_other (decoded : DhcpMessage.ofData packet = .ok message)
    (otherType : message.op = .bootrequest → messageType message ≠ .ok type) :
    transactionOf type packet = none := by
  rw [transactionOf, decoded]
  dsimp only
  exact if_neg fun isType => otherType isType.1 isType.2

theorem lastDiscoverer_append (xid : UInt32) :
    lastDiscoverer (history ++ [input]) xid =
      match transactionOf .dhcpdiscover input.packet with
      | some (discovered, mac) =>
        if discovered = xid then some mac else lastDiscoverer history xid
      | none => lastDiscoverer history xid := by
  rw [lastDiscoverer, lastDiscoverer, List.reverse_append, List.reverse_singleton,
    List.singleton_append, List.filterMap_cons]
  cases transactionOf .dhcpdiscover input.packet with
  | none => rfl
  | some transaction =>
    obtain ⟨discovered, mac⟩ := transaction
    dsimp only
    rw [List.lookup_cons]
    by_cases same : discovered = xid
    · rw [if_pos same, same, beq_self_eq_true]
    · rw [if_neg same, beq_eq_false_iff_ne.mpr (Ne.symm same)]

theorem serverAfter_append :
    serverAfter (history ++ [input]) = Server.machine.next (serverAfter history) input :=
  Server.machine.run_append _ history [input]

theorem Leased.append (leased : Leased history mac ip) (input : Server.Input) :
    Leased (history ++ [input]) mac ip := by
  obtain ⟨before, discover, after, server, xid, rfl, running, isDiscover, returned⟩ := leased
  exact ⟨before, discover, after ++ [input], server, xid, by simp, running, isDiscover, returned⟩

/-- A request of the given type is a decoded one. -/
theorem message_of_transaction (asks : transactionOf type packet = some (xid, mac)) :
    ∃ message, DhcpMessage.ofData packet = .ok message ∧ message.op = .bootrequest ∧
      messageType message = .ok type ∧ message.chaddr = some mac ∧ message.xid = xid := by
  unfold transactionOf at asks
  split at asks
  next => cases asks
  next message decoded =>
    split at asks
    next isType =>
      obtain ⟨client, chaddr, same⟩ := Option.map_eq_some_iff.mp asks
      cases same
      exact ⟨message, decoded, isType.1, isType.2, chaddr, rfl⟩
    next => cases asks

/-! ## What the server remembers -/

/-- The address that a new entry of `xids` gets is not in the pool. -/
theorem default_not_included : startPool.isAddressIncluded default = false := by
  revert host
  decide +kernel

/-- What the pool and `xids` hold after a history. -/
structure Serving (history : List Server.Input) (server : Server) : Prop where
  consistent : Consistent server.pool
  unreserved : ∀ mac : MacAddress, server.pool.reservedMacAddresses[mac]? = none
  included : server.pool.includedIpAddresses = startPool.includedIpAddresses
  takenIncluded : ∀ {mac : MacAddress} {ip : IPv4Address},
    server.pool.takenMacAddresses[mac]? = some ip → server.pool.isAddressIncluded ip
  leased : ∀ {mac : MacAddress} {ip : IPv4Address},
    server.pool.takenMacAddresses[mac]? = some ip → Leased history mac ip
  discovered : ∀ {xid : UInt32} {mac : MacAddress}, lastDiscoverer history xid = some mac →
    Holds server.pool mac (subscript server.xids xid).1
  undiscovered : ∀ {xid : UInt32}, lastDiscoverer history xid = none →
    (subscript server.xids xid).1 = default

theorem serving_start : Serving [] ⟨startPool, ∅⟩ where
  consistent := consistent_new _ _
  unreserved := by simp [startPool, AddressPool.new]
  included := rfl
  takenIncluded := by simp [startPool, AddressPool.new]
  leased := by simp [startPool, AddressPool.new]
  discovered := nofun
  undiscovered := by
    intro xid _
    rw [subscript_of_none (by simp)]

/-- A datagram that is no DHCPDISCOVER may only add entries to `xids`. -/
theorem Serving.other (serving : Serving history server)
    (notDiscover : transactionOf .dhcpdiscover input.packet = none)
    {xids : Std.TreeMap UInt32 IPv4Address}
    (same : ∀ xid, (subscript xids xid).1 = (subscript server.xids xid).1) :
    Serving (history ++ [input]) { server with xids } where
  consistent := serving.consistent
  unreserved := serving.unreserved
  included := serving.included
  takenIncluded := serving.takenIncluded
  leased := by
    intro mac ip taken
    exact (serving.leased taken).append input
  discovered := by
    intro xid mac last
    rw [lastDiscoverer_append, notDiscover] at last
    rw [same]
    exact serving.discovered last
  undiscovered := by
    intro xid last
    rw [lastDiscoverer_append, notDiscover] at last
    rw [same]
    exact serving.undiscovered last

/-- Without reservations `get_address` returns a held address or takes an included one. -/
theorem Serving.getAddress_cases (serving : Serving history server)
    (returned : (server.pool.getAddress mac).1 = .ok ip) :
    (server.pool.getAddress mac).2 = server.pool ∨
      ((server.pool.getAddress mac).2 = server.pool.take mac ip ∧
        server.pool.isAddressIncluded ip) := by
  obtain ⟨found, reserved, _⟩ | ⟨found, _, _, result⟩ | ⟨found, _, _, free, result⟩ | ⟨_, _, _, result⟩ :=
    Pool.getAddress_cases (serving.consistent.uncached mac)
  · rw [serving.unreserved mac] at reserved
    cases reserved
  · rw [result]
    exact Or.inl rfl
  · rw [result] at returned ⊢
    cases returned
    exact Or.inr ⟨rfl, (firstFree_spec free).1⟩
  · rw [result] at returned
    cases returned

/-- A lease after `get_address` is an old one, or the address that was returned. -/
theorem Serving.taken_getAddress {client : MacAddress} {address : IPv4Address}
    (serving : Serving history server) (returned : (server.pool.getAddress mac).1 = .ok ip)
    (taken : (server.pool.getAddress mac).2.takenMacAddresses[client]? = some address) :
    server.pool.takenMacAddresses[client]? = some address ∨
      client = mac ∧ address = ip ∧ server.pool.isAddressIncluded ip := by
  obtain same | ⟨took, included⟩ := serving.getAddress_cases returned
  · rw [same] at taken
    exact Or.inl taken
  · rw [took] at taken
    by_cases sameClient : mac = client
    · subst sameClient
      rw [take_takenMac] at taken
      cases taken
      exact Or.inr ⟨rfl, rfl, included⟩
    · rw [take_takenMac_of_ne sameClient] at taken
      exact Or.inl taken

/-- A DHCPDISCOVER leases an address and stores it under its transaction id. -/
theorem Serving.discover (serving : Serving history server)
    (isDiscover : transactionOf .dhcpdiscover input.packet = some (xid, mac))
    (running : serverAfter history = .ok server)
    (returned : (server.pool.getAddress mac).1 = .ok ip) :
    Serving (history ++ [input])
      { pool := (server.pool.getAddress mac).2, xids := server.xids.insert xid ip } where
  consistent := serving.consistent.getAddress mac
  unreserved := by
    intro client
    show (server.pool.getAddress mac).2.reservedMacAddresses[client]? = none
    rw [(onlyLeasesDiffer_getAddress (serving.consistent.uncached mac)).reservedMac]
    exact serving.unreserved client
  included := by
    show (server.pool.getAddress mac).2.includedIpAddresses = _
    rw [(onlyLeasesDiffer_getAddress (serving.consistent.uncached mac)).included]
    exact serving.included
  takenIncluded := by
    intro client address taken
    show (server.pool.getAddress mac).2.includedIpAddresses.contains address
    rw [(onlyLeasesDiffer_getAddress (serving.consistent.uncached mac)).included]
    obtain old | ⟨_, rfl, included⟩ := serving.taken_getAddress returned taken
    · exact serving.takenIncluded old
    · exact included
  leased := by
    intro client address taken
    obtain old | ⟨rfl, rfl, _⟩ := serving.taken_getAddress returned taken
    · exact (serving.leased old).append input
    · exact ⟨history, input, [], server, xid, rfl, running, isDiscover, returned⟩
  discovered := by
    intro asked client last
    rw [lastDiscoverer_append, isDiscover] at last
    dsimp only at last ⊢
    rw [subscript_insert]
    by_cases sameXid : xid = asked
    · rw [if_pos sameXid] at last ⊢
      cases last
      exact serving.consistent.holds_of_returned returned
    · rw [if_neg sameXid] at last ⊢
      exact (serving.discovered last).getAddress serving.consistent mac
  undiscovered := by
    intro asked last
    rw [lastDiscoverer_append, isDiscover] at last
    dsimp only at last ⊢
    rw [subscript_insert]
    by_cases sameXid : xid = asked
    · rw [if_pos sameXid] at last
      cases last
    · rw [if_neg sameXid] at last ⊢
      exact serving.undiscovered last

theorem Serving.next {reply : Option Reply} (serving : Serving history server)
    (running : serverAfter history = .ok server)
    (handled : server.handleDatagram input.calls input.packet = (.ok reply, later)) :
    Serving (history ++ [input]) later := by
  have turn := handleDatagram_turn input.calls server input.packet
  generalize outcomeEq : server.handleDatagram input.calls input.packet = outcome at turn
  rw [outcomeEq] at handled
  cases turn with
  | undecoded refused | untyped decoded isRequest missing
  | exhausted decoded isRequest isDiscover chaddr refused => cases handled
  | ignored decoded otherType =>
    cases handled
    refine serving.other (transactionOf_other decoded ?_) fun _ => rfl
    intro isRequest isDiscover
    obtain ⟨type, typed, notDiscover, _⟩ := otherType isRequest
    rw [typed] at isDiscover
    exact notDiscover (Except.ok.inj isDiscover)
  -- in the last two cases the state does not depend on what was sent
  | offered decoded isRequest isDiscover chaddr leased =>
    have isLater := congrArg Prod.snd handled
    dsimp only at isLater
    subst isLater
    exact serving.discover (transactionOf_eq decoded isRequest isDiscover chaddr) running leased
  | acknowledged decoded isRequest isDhcpRequest chaddr =>
    have isLater := congrArg Prod.snd handled
    dsimp only at isLater
    subst isLater
    refine serving.other (transactionOf_other decoded ?_) (subscript_subscript server.xids _)
    intro _ isDiscover
    rw [isDhcpRequest] at isDiscover
    cases Except.ok.inj isDiscover

/-- The run lemma: as long as the server runs, it serves. -/
theorem serving_serverAfter (running : serverAfter history = .ok server) :
    Serving history server := by
  induction history using List.reverseRecOn generalizing server with
  | nil =>
    have started : serverAfter [] = .ok ⟨startPool, ∅⟩ := start_eq
    rw [started] at running
    cases running
    exact serving_start
  | append_singleton history input inductionHypothesis =>
    rw [serverAfter_append] at running
    obtain ⟨before, reply, runningBefore, handled⟩ := turn_of_next running
    exact (inductionHypothesis runningBefore).next runningBefore handled

/-! ## Acknowledgements -/

/-- A DHCPREQUEST is answered with whatever its transaction id stands for. -/
theorem acknowledgement_of_request
    (asks : transactionOf .dhcprequest input.packet = some (xid, mac))
    (succeed : input.calls.Succeed) :
    ∃ reply, Server.machine.output (.ok server) input = some reply ∧
      messageType reply.message = .ok .dhcpack ∧ reply.message.chaddr = some mac ∧
      reply.message.yiaddr = (subscript server.xids xid).1 := by
  obtain ⟨message, decoded, isRequest, typed, chaddr, rfl⟩ := message_of_transaction asks
  have handled := handleDatagram_of_request input.calls server decoded isRequest typed chaddr
  obtain ⟨reply, sent, isReply⟩ := send_of_succeed succeed
  rw [sent] at handled
  refine ⟨reply, output_of_turn handled, ?_⟩
  rw [isReply]
  exact ⟨rfl, rfl, rfl⟩

/-- Every DHCPACK answers a DHCPREQUEST. -/
theorem request_of_acknowledgement {state : Cpp Server} {reply : Reply}
    (sent : Server.machine.output state input = some reply)
    (isAcknowledgement : messageType reply.message = .ok .dhcpack) :
    ∃ server xid mac, state = .ok server ∧ input.calls.Succeed ∧
      transactionOf .dhcprequest input.packet = some (xid, mac) ∧
      reply.message.chaddr = some mac ∧ reply.message.yiaddr = (subscript server.xids xid).1 := by
  obtain ⟨server, later, running, handled⟩ := turn_of_output sent
  have turn := handleDatagram_turn input.calls server input.packet
  generalize outcomeEq : server.handleDatagram input.calls input.packet = outcome at turn
  rw [outcomeEq] at handled
  cases turn with
  | undecoded refused | untyped decoded isRequest missing | ignored decoded otherType
  | exhausted decoded isRequest isDiscover chaddr refused => cases handled
  | @offered message mac ip decoded isRequest isDiscover chaddr leased =>
    have outgoing := congrArg Prod.fst handled
    have isReply := message_of_send outgoing
    rw [isReply] at isAcknowledgement
    cases Except.ok.inj isAcknowledgement
  | @acknowledged message mac decoded isRequest isDhcpRequest chaddr =>
    have outgoing := congrArg Prod.fst handled
    have isReply := message_of_send outgoing
    refine ⟨server, message.xid, mac, running, send_returns_iff.mp ⟨_, outgoing⟩,
      transactionOf_eq decoded isRequest isDhcpRequest chaddr, ?_⟩
    rw [isReply]
    exact ⟨rfl, rfl⟩

/-- The pool holds `ip` for `mac`, and `get_address(mac)` has returned it. -/
structure HeldAfter (history : List Server.Input) (mac : MacAddress) (ip : IPv4Address) : Prop where
  taken : ∃ server, serverAfter history = .ok server ∧
    server.pool.takenMacAddresses[mac]? = some ip
  leased : Leased history mac ip

/-- A DHCPACK that is sent after the history names the address of its client; the
    turn that sends it leaves the pool alone. -/
def AcknowledgementSound (history : List Server.Input) (input : Server.Input) : Prop :=
  ∀ (reply : Reply) (mac : MacAddress) (ip : IPv4Address),
    Server.machine.output (serverAfter history) input = some reply →
    messageType reply.message = .ok .dhcpack → reply.message.chaddr = some mac →
    reply.message.yiaddr = ip → HeldAfter history mac ip

/-- A DHCPREQUEST that is answered comes from the client that discovered last with
    its transaction id. -/
def DiscoveredBySender (history : List Server.Input) (input : Server.Input) : Prop :=
  ∀ (xid : UInt32) (mac : MacAddress), Returns (serverAfter history) → input.calls.Succeed →
    transactionOf .dhcprequest input.packet = some (xid, mac) →
    lastDiscoverer history xid = some mac

theorem acknowledgementSound_iff (history : List Server.Input) (input : Server.Input) :
    AcknowledgementSound history input ↔ DiscoveredBySender history input := by
  constructor
  · intro sound xid mac running succeed asks
    obtain ⟨server, running⟩ := running
    have serving := serving_serverAfter running
    obtain ⟨reply, sent, isAcknowledgement, chaddr, yiaddr⟩ :=
      acknowledgement_of_request asks succeed
    rw [← running] at sent
    obtain ⟨⟨serverToo, runningToo, taken⟩, _⟩ := sound reply mac _ sent isAcknowledgement chaddr yiaddr
    rw [running] at runningToo
    cases runningToo
    -- an unknown id is answered with 0.0.0.0, which nobody holds
    cases last : lastDiscoverer history xid with
    | none =>
      have included := serving.takenIncluded taken
      rw [serving.undiscovered last, AddressPool.isAddressIncluded, serving.included] at included
      exact absurd included (by rw [← AddressPool.isAddressIncluded, default_not_included]; nofun)
    | some discoverer =>
      have holds := serving.discovered last
      -- two holders of one address are one client
      have backed := serving.consistent.leaseBacked taken
      have backedToo := serving.consistent.leaseBacked holds.taken
      rw [backed] at backedToo
      exact backedToo.symm
  · intro discovered reply mac ip sent isAcknowledgement chaddr yiaddr
    obtain ⟨server, xid, client, running, succeed, asks, chaddrToo, yiaddrToo⟩ :=
      request_of_acknowledgement sent isAcknowledgement
    have serving := serving_serverAfter running
    have last := discovered xid client ⟨server, running⟩ succeed asks
    have holds := serving.discovered last
    rw [chaddr] at chaddrToo
    cases chaddrToo
    rw [← yiaddrToo, yiaddr] at holds
    exact ⟨⟨server, running, holds.taken⟩, serving.leased holds.taken⟩

/-- Every DHCPACK of a run names the address of its client. -/
def AcknowledgementsSound (inputs : List Server.Input) : Prop :=
  ∀ before input after, inputs = before ++ input :: after → AcknowledgementSound before input

/-- All acknowledgements of a run are sound exactly when every answered DHCPREQUEST
    comes from the client that discovered last with its transaction id. -/
theorem acknowledgements_sound_iff (inputs : List Server.Input) :
    AcknowledgementsSound inputs ↔
      ∀ before input after, inputs = before ++ input :: after → DiscoveredBySender before input := by
  constructor
  · intro sound before input after split
    exact (acknowledgementSound_iff before input).mp (sound before input after split)
  · intro discovered before input after split
    exact (acknowledgementSound_iff before input).mpr (discovered before input after split)

end Acknowledgements

section

attribute [local instance] littleEndianHost

/-- A request with transaction id 7, while every system call succeeds. -/
def sampleInput (type : Option53MessageType) (mac : MacAddress) : Server.Input where
  packet := [1, 1, 6, 0, 0, 0, 0, 7] ++ List.replicate 20 0 ++ mac.data.toList ++
    List.replicate 202 0 ++ Message.magicCookie ++ [53, 1, type, 255]
  calls := ⟨3, 0, .ofUInt32 0xC0A801FF, 0, 3, 0, 300⟩

/-- `B` requests with the transaction id of `A` and is acknowledged `A`'s address. -/
theorem shared_xid_acknowledged :
    ¬ AcknowledgementsSound [sampleInput .dhcpdiscover clientA, sampleInput .dhcprequest clientB] := by
  intro sound
  have offered : (Server.machine.output (serverAfter []) (sampleInput .dhcpdiscover clientA)).isSome := by
    decide +kernel
  obtain ⟨offer, sent⟩ := Option.isSome_iff_exists.mp offered
  obtain ⟨server, later, running, handled⟩ := turn_of_output sent
  have discovered : DiscoveredBySender [sampleInput .dhcpdiscover clientA]
      (sampleInput .dhcprequest clientB) :=
    (acknowledgementSound_iff _ _).mp (sound [_] _ [] rfl)
  have asks : transactionOf .dhcprequest (sampleInput .dhcprequest clientB).packet =
      some (7, clientB) := by
    decide +kernel
  have last : lastDiscoverer [sampleInput .dhcpdiscover clientA] 7 = some clientA := by
    decide +kernel
  have runningLater : serverAfter ([] ++ [sampleInput .dhcpdiscover clientA]) = .ok later := by
    rw [serverAfter_append, running]
    exact next_of_turn handled
  have succeed : (sampleInput .dhcprequest clientB).calls.Succeed := by
    constructor <;> decide
  have same := discovered 7 clientB ⟨later, runningLater⟩ succeed asks
  rw [last] at same
  cases same

end

end Klevret.Verified.Server
