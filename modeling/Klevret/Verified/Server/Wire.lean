import Klevret.Verified.Message.RoundTrip
import Klevret.Verified.Server.Runs

/-! # What a client reads

A client that reads a reply by the rules of `DhcpMessage` gets the message that the server meant,
but for the lease time: that is written as it lies in memory and read as big-endian
(`replies_decode`).  The server itself ignores its replies when they come back to it. -/

namespace Klevret.Verified.Server

open Klevret.Base Klevret.Dhcp Klevret.Verified.Message Klevret.Verified.Options
open Klevret.Verified.Pool

section

variable [host : Host] {type : Option53MessageType}

/-! ## Messages -/

/-- A message whose options are written as an area that spells some items is read back with the
    options of these items. -/
theorem ofData_of_written {message : DhcpMessage} {mac : MacAddress} {data written : List UInt8}
    {items : List (UInt8 × List UInt8)} {options : List DhcpOption}
    (ethernet : message.htype = HardwareAddressType.ethernet10Mb)
    (chaddr : message.chaddr = some mac) (someOptions : message.options.length ≠ 0)
    (isWritten : DhcpMessage.optionsToNetworkData message.options = .ok written)
    (spelled : OptionArea (written ++ [255]) items) (made : optionsOf items = .ok options)
    (encoded : message.toNetworkData = .ok data) :
    DhcpMessage.ofData data = .ok
      { message with
        sname := List.replicate 64 0
        file := List.replicate 128 0
        options } := by
  have headerEthernet : (headerOf message mac).htype = HardwareAddressType.ethernet10Mb := ethernet
  have isData : data = (headerOf message mac).bytes ++ magicCookie ++ (written ++ [255]) := by
    rw [DhcpMessage.toNetworkData, headerToNetworkData_eq chaddr, ok_bind, if_neg someOptions,
      isWritten, ok_bind] at encoded
    rw [← Except.ok.inj encoded, ← List.append_assoc]
    rfl
  rw [isData, ofData_bytes _ _ headerEthernet,
    readOptions_of_area spelled (accepted_of_optionsOf made), made, ok_bind, message_headerOf chaddr]
  rfl

/-! ## The options of a reply -/

/-- The lease time that is read: on a little-endian host 68 years, not one day. -/
def leaseTimeRead : UInt32 :=
  match host.native with
  | .little => 2152792320
  | .big => 86400

/-- The options as they are read. -/
def leaseOptionsRead (type : Option53MessageType) : List DhcpOption :=
  (leaseOptions type).dropLast ++
    [⟨4, ⟨51, 4, ⟨.uint32, false, 0, noConstraint⟩⟩, [.uint32 leaseTimeRead]⟩]

/-- The items that the options are written as. -/
def leaseItems (type : Option53MessageType) : List (UInt8 × List UInt8) :=
  [(53, [type]), (1, [255, 255, 255, 0]), (3, [172, 18, 1, 1]), (51, leaseTimeOnWire)]

theorem leaseItems_spelled (type : Option53MessageType) :
    OptionArea ([53, 1, type] ++ [1, 4, 255, 255, 255, 0] ++ [3, 4, 172, 18, 1, 1]
      ++ [51, 4] ++ leaseTimeOnWire ++ [255]) (leaseItems type) := by
  have length_leaseTime : leaseTimeOnWire.length = (4 : UInt8).toNat := by
    revert host
    decide
  -- the area is spelled from its end to its beginning
  have leaseTime : OptionArea (51 :: 4 :: (leaseTimeOnWire ++ [255])) [(51, leaseTimeOnWire)] :=
    .item ⟨by decide, by decide⟩ length_leaseTime (.ended [])
  have router := OptionArea.item (⟨by decide, by decide⟩ : IsItemCode 3)
    (by decide : ([172, 18, 1, 1] : List UInt8).length = (4 : UInt8).toNat) leaseTime
  have mask := OptionArea.item (⟨by decide, by decide⟩ : IsItemCode 1)
    (by decide : ([255, 255, 255, 0] : List UInt8).length = (4 : UInt8).toNat) router
  have messageType := OptionArea.item (⟨by decide, by decide⟩ : IsItemCode 53)
    (by simp : [type].length = (1 : UInt8).toNat) mask
  simpa [leaseItems] using messageType

/-- The server sends nothing else. -/
def IsReplyType (type : Option53MessageType) : Prop := type = .dhcpoffer ∨ type = .dhcpack

theorem optionsOf_leaseItems (isReply : IsReplyType type) :
    optionsOf (leaseItems type) = .ok (leaseOptionsRead type) := by
  obtain rfl | rfl := isReply
  · revert host
    decide +kernel
  · revert host
    decide +kernel

theorem leaseOptionsRead_eq_iff :
    leaseOptionsRead type = leaseOptions type ↔ host.native = .big := by
  obtain ⟨native⟩ := host
  cases native with
  | little => simp [leaseOptionsRead, leaseOptions, leaseTimeRead]
  | big => simp [leaseOptionsRead, leaseOptions, leaseTimeRead]

/-! ## Answers -/

/-- What is read of an answer. -/
def readBack (message : DhcpMessage) (type : Option53MessageType) : DhcpMessage :=
  { message with
    sname := List.replicate 64 0
    file := List.replicate 128 0
    options := leaseOptionsRead type }

theorem ofData_replyOf {answer : Answer} (isReply : IsReplyType answer.type) :
    DhcpMessage.ofData (replyOf answer).datagram.data =
      .ok (readBack (replyOf answer).message answer.type) := by
  have someOptions : (replyOf answer).message.options.length ≠ 0 := Nat.succ_ne_zero 3
  exact ofData_of_written rfl rfl someOptions (optionsToNetworkData_leaseOptions answer.type)
    (leaseItems_spelled answer.type) (optionsOf_leaseItems isReply)
    (toNetworkData_replyTo answer.type _ answer.mac answer.ip)

omit host in
/-- The service offers and acknowledges, and does nothing else. -/
theorem isReplyType_of_output {service : Option Service} {input : Service.Input} {answer : Answer}
    (answered : Service.machine.output service input = some answer) : IsReplyType answer.type := by
  obtain ⟨asks, destination⟩ := input
  cases service with
  | none => cases answered
  | some service =>
    simp only [Machine.output, Service.machine, Service.handle] at answered
    cases asks with
    | malformed | other => cases answered
    | request xid mac =>
      cases destination with
      | none => cases answered
      | some address =>
        cases answered
        exact Or.inr rfl
    | discover xid mac =>
      dsimp only at answered
      split at answered
      next => cases answered
      next ip desk _ =>
        cases destination with
        | none => cases answered
        | some address =>
          cases answered
          exact Or.inl rfl

/-- What is sent in a run answers some request. -/
theorem exists_answer {inputs : List Server.Input} {reply : Reply}
    (sent : some reply ∈ Server.machine.outputs Server.start inputs) :
    ∃ answer, IsReplyType answer.type ∧ reply = replyOf answer := by
  have refined := (refined_from (keepsBooks_run []) inputs).1
  rw [Machine.run_nil] at refined
  rw [refined] at sent
  obtain ⟨answered, member, isReply⟩ := List.mem_map.mp sent
  obtain ⟨answer, rfl, rfl⟩ := Option.map_eq_some_iff.mp isReply
  obtain ⟨before, input, after, _, isAnswer⟩ := Machine.exists_of_mem_outputs _ member
  exact ⟨answer, isReplyType_of_output isAnswer, rfl⟩

/-- Whatever a server sends in a run is read as the message that was meant, but for the lease time
    on a little-endian host, and a server that receives it does nothing. -/
theorem replies_decode {inputs : List Server.Input} {reply : Reply}
    (sent : some reply ∈ Server.machine.outputs Server.start inputs) :
    ∃ type, IsReplyType type ∧ messageType reply.message = .ok type ∧
      DhcpMessage.ofData reply.datagram.data = .ok (readBack reply.message type) ∧
      (leaseOptionsRead type = reply.message.options ↔ host.native = .big) ∧
      ∀ calls server, Server.handleDatagram calls server reply.datagram.data =
        (.ok none, server) := by
  obtain ⟨answer, isReply, rfl⟩ := exists_answer sent
  have decoded := ofData_replyOf isReply
  refine ⟨answer.type, isReply, rfl, decoded, leaseOptionsRead_eq_iff, ?_⟩
  intro calls server
  -- the message that is read back is a BOOTREPLY
  have notRequest : (readBack (replyOf answer).message answer.type).op ≠ .bootrequest := by
    intro isRequest
    cases isRequest
  rw [Server.handleDatagram, decoded]
  exact if_neg notRequest

end

section

attribute [local instance] littleEndianHost

/-- The first offer of a run. -/
def sampleOffer : Answer := ⟨.dhcpoffer, 7, clientA, clientAddress 0, .ofUInt32 0xC0A801FF⟩

theorem sample_offer_misread :
    ∃ type, DhcpMessage.ofData (replyOf sampleOffer).datagram.data =
        .ok (readBack (replyOf sampleOffer).message type) ∧
      leaseOptionsRead type ≠ (replyOf sampleOffer).message.options := by
  have sent : some (replyOf sampleOffer) ∈ Server.machine.outputs Server.start sampleRun := by
    rw [sampleRun_outputs]
    exact List.mem_cons_self
  obtain ⟨type, _, _, decoded, exact_iff, _⟩ := replies_decode sent
  refine ⟨type, decoded, ?_⟩
  intro same
  cases exact_iff.mp same

end

end Klevret.Verified.Server
