import Klevret.Dhcp.Server

/-! # What the server replies

Both replies carry the same four options, whatever the host, so building and
encoding them never fails (`makeOffer_eq`, `makeAcknowledge_eq`), and a reply goes
out exactly when the system calls of `send_to` succeed. -/

namespace Klevret.Verified.Server

open Klevret.Base Klevret.Dhcp

section Replies

variable [host : Host] {packet : DhcpMessage} {mac : MacAddress} {ip : IPv4Address}

omit host in
/-- Message type, subnet mask, router and lease time. -/
def leaseOptions (messageType : Option53MessageType) : List DhcpOption := [
  ⟨1, ⟨53, 1, ⟨.uintEnum, false, 0, ⟨.uintEnum, 0, 0, [1, 2, 3, 4, 5, 6, 7, 8]⟩⟩⟩,
    [.uint8 messageType]⟩,
  ⟨4, ⟨1, 4, ⟨.subnetMask, false, 0, noConstraint⟩⟩, [.subnetMask ⟨#v[255, 255, 255, 0]⟩]⟩,
  ⟨4, ⟨3, variableDhcpOptionLength, ⟨.ipAddress, true, 1, noConstraint⟩⟩,
    [.ipAddress ⟨#v[172, 18, 1, 1]⟩]⟩,
  ⟨4, ⟨51, 4, ⟨.uint32, false, 0, noConstraint⟩⟩, [.uint32 86400]⟩]

/-- The reply to `packet`, which offers or confirms `ip` to `mac`. -/
def replyTo (messageType : Option53MessageType) (packet : DhcpMessage) (mac : MacAddress)
    (ip : IPv4Address) : DhcpMessage :=
  { DhcpMessage.new with
    op := .bootreply
    htype := .ethernet10Mb
    hlen := 6
    xid := packet.xid
    yiaddr := ip
    siaddr := ⟨#v[172, 18, 1, 1]⟩
    chaddr := some mac
    options := leaseOptions messageType }

omit host in
theorem siaddr_eq :
    IPv4Address.ofString "172.18.1.1".toList = .ok ⟨#v[172, 18, 1, 1]⟩ := by decide +kernel

theorem offerOptions_eq :
    replyOptions .dhcpoffer (@hostToNetworkEndianArray _ 4 86400).toList =
      .ok (leaseOptions .dhcpoffer) := by
  revert host
  decide +kernel

theorem acknowledgeOptions_eq :
    replyOptions .dhcpack [0, 1, 81, 128] = .ok (leaseOptions .dhcpack) := by
  revert host
  decide +kernel

theorem makeOffer_eq (chaddr : packet.chaddr = some mac) (ip : IPv4Address) :
    makeOffer packet ip = .ok (replyTo .dhcpoffer packet mac ip) := by
  rw [makeOffer, makeReply, siaddr_eq, ok_bind, chaddr]
  show (do let options ← replyOptions .dhcpoffer _; _) = _
  rw [offerOptions_eq]
  rfl

theorem makeAcknowledge_eq (chaddr : packet.chaddr = some mac) (ip : IPv4Address) :
    makeAcknowledge packet ip = .ok (replyTo .dhcpack packet mac ip) := by
  rw [makeAcknowledge, makeReply, siaddr_eq, ok_bind, chaddr]
  show (do let options ← replyOptions .dhcpack [0, 1, 81, 128]; _) = _
  rw [acknowledgeOptions_eq]
  rfl

/-- A reply can be encoded. -/
theorem replyTo_encoded (messageType : Option53MessageType) (packet : DhcpMessage)
    (mac : MacAddress) (ip : IPv4Address) :
    Returns (replyTo messageType packet mac ip).toNetworkData :=
  ⟨_, rfl⟩

variable {calls : SystemCalls} {server : Server} {messageType : Option53MessageType}

theorem send_of_succeed (succeed : calls.Succeed) :
    ∃ reply, Server.send calls (replyTo messageType packet mac ip) = .ok (some reply) ∧
      reply.message = replyTo messageType packet mac ip := by
  obtain ⟨data, encoded⟩ := replyTo_encoded messageType packet mac ip
  refine ⟨⟨replyTo messageType packet mac ip, ⟨calls.broadcastAddress, 68, data⟩⟩, ?_, rfl⟩
  rw [Server.send, encoded, ok_bind, UdpServer.sendTo_of_succeed succeed]
  rfl

theorem send_of_not_succeed (failed : ¬ calls.Succeed) :
    Throws (Server.send calls (replyTo messageType packet mac ip)) := by
  obtain ⟨data, encoded⟩ := replyTo_encoded messageType packet mac ip
  rw [Server.send, encoded, ok_bind]
  exact (UdpServer.sendTo_of_not_succeed failed data).bind _

theorem send_returns_iff :
    Returns (Server.send calls (replyTo messageType packet mac ip)) ↔ calls.Succeed := by
  by_cases succeed : calls.Succeed
  · obtain ⟨reply, sent, _⟩ := send_of_succeed succeed
    rw [sent]
    exact iff_of_true (returns_ok _) succeed
  · exact iff_of_false (send_of_not_succeed succeed).not_returns succeed

/-- What is sent is the message. -/
theorem message_of_send {message : DhcpMessage} {reply : Reply}
    (sent : Server.send calls message = .ok (some reply)) : reply.message = message := by
  obtain ⟨data, _, sent⟩ := bind_eq_ok.mp sent
  obtain ⟨datagram, _, sent⟩ := bind_eq_ok.mp sent
  cases sent
  rfl

/-! ## The two branches of the loop -/

theorem handleDiscover_of_ok (chaddr : packet.chaddr = some mac)
    (leased : (server.pool.getAddress mac).1 = .ok ip) :
    server.handleDiscover calls packet =
      (Server.send calls (replyTo .dhcpoffer packet mac ip),
        { pool := (server.pool.getAddress mac).2, xids := server.xids.insert packet.xid ip }) := by
  have stored : (server.xids.insert packet.xid ip)[packet.xid]? = some ip := by
    rw [lookup_insert, if_pos rfl]
  cases outcome : server.pool.getAddress mac with
  | mk result pool =>
    rw [outcome] at leased
    dsimp only at leased
    subst leased
    simp only [Server.handleDiscover, chaddr, outcome, subscript_of_some stored,
      makeOffer_eq chaddr, ok_bind]

theorem handleDiscover_of_error (chaddr : packet.chaddr = some mac) {fault : Fault}
    (refused : (server.pool.getAddress mac).1 = .error fault) :
    server.handleDiscover calls packet =
      (.error fault, { server with pool := (server.pool.getAddress mac).2 }) := by
  cases outcome : server.pool.getAddress mac with
  | mk result pool =>
    rw [outcome] at refused
    dsimp only at refused
    subst refused
    simp only [Server.handleDiscover, chaddr, outcome]

theorem handleRequest_eq (chaddr : packet.chaddr = some mac) :
    server.handleRequest calls packet =
      (Server.send calls
        (replyTo .dhcpack packet mac (subscript server.xids packet.xid).1),
        { server with xids := (subscript server.xids packet.xid).2 }) := by
  simp only [Server.handleRequest, makeAcknowledge_eq chaddr, ok_bind]

end Replies

end Klevret.Verified.Server
