import Klevret.Verified.Message.Grammar
import Klevret.Verified.Server.Replies

/-! # What one turn of the loop does

The loop acts on the byte of the first option 53.  For a well-formed datagram that
byte is the payload of the first item with that code (`messageType_decoded`), and a
datagram without such an item makes the loop dereference the end of the options.
`Turn` lists everything a turn can do; no later proof unfolds the loop. -/

namespace Klevret.Verified.Server

open Klevret.Base Klevret.Dhcp Klevret.Verified.Options Klevret.Verified.Message

/-- The row of option 53. -/
def messageTypeDescription : DhcpOptionDescription :=
  ⟨53, 1, ⟨.uintEnum, false, 0, ⟨.uintEnum, 0, 0, [1, 2, 3, 4, 5, 6, 7, 8]⟩⟩⟩

variable [host : Host] {payload : List UInt8} {option : DhcpOption} {options : List DhcpOption}
  {items : List (UInt8 × List UInt8)}

/-! ## The start -/

/-- The addresses from 192.168.1.10 to 192.168.1.20. -/
def startPool : AddressPool := .new (.ofUInt32 0xC0A8010A) (.ofUInt32 0xC0A80114)

theorem start_eq : Server.start = .ok ⟨startPool, ∅⟩ := by
  have startIp : IPv4Address.ofString "192.168.1.10".toList = .ok (.ofUInt32 0xC0A8010A) := by
    revert host
    decide +kernel
  have endIp : IPv4Address.ofString "192.168.1.20".toList = .ok (.ofUInt32 0xC0A80114) := by
    revert host
    decide +kernel
  rw [Server.start, startIp, ok_bind, endIp]
  rfl

/-! ## Option 53 -/

omit host in
theorem checkedValue_of_ok {check : Cpp Bool} {value result : DhcpOptionFieldRealValue}
    (passed : checkedValue check value = .ok result) : result = value := by
  obtain ⟨allowed, _, passed⟩ := bind_eq_ok.mp passed
  cases allowed with
  | true => exact (Except.ok.inj passed).symm
  | false => cases passed

/-- An option 53 holds the one byte of its payload. -/
theorem realValues_of_option53 (made : optionOf 53 payload = .ok option) :
    ∃ type, payload = [type] ∧ option.realValues = [.uint8 type] := by
  obtain ⟨description, admits, _, _⟩ := accepted_of_optionOf made
  have isRow : description = messageTypeDescription :=
    (Option.some.inj (admits.found.symm.trans rfl))
  subst isRow
  have oneByte : payload.length = 1 := by
    have fits := admits.fits.resolve_left (by decide)
    exact (Int.ofNat.inj fits).symm
  obtain ⟨type, rfl⟩ := List.length_eq_one_iff.mp oneByte
  refine ⟨type, rfl, ?_⟩
  have notEnd : 0 ≠ [type].length := Nat.zero_ne_one
  rw [optionOf, construct_of_admits admits, processPayload_element rfl notEnd] at made
  obtain ⟨values, read, made⟩ := bind_eq_ok.mp made
  obtain ⟨value, valueRead, read⟩ := bind_eq_ok.mp read
  obtain ⟨later, laterRead, read⟩ := bind_eq_ok.mp read
  have atEnd : later = [] := by
    have nothing : processPayload messageTypeDescription [type] 1 1 = .ok [] := processPayload_end
    exact Except.ok.inj (laterRead.symm.trans nothing)
  have checked : checkedValue (messageTypeDescription.payloadDescription.isCorrectUint
      type.toUInt32) (.uint8 type) = .ok value := valueRead
  cases made
  cases read
  show value :: later = [.uint8 type]
  rw [atEnd, checkedValue_of_ok checked]

theorem code_of_optionOf {code : ℤ} (made : optionOf code payload = .ok option) :
    option.description.code = code := by
  obtain ⟨description, admits, _, _⟩ := accepted_of_optionOf made
  rw [optionOf, construct_of_admits admits] at made
  obtain ⟨values, _, made⟩ := bind_eq_ok.mp made
  cases made
  exact (rowSound admits.found).sameCode

/-! ## The message type -/

theorem find_option53 (made : optionsOf items = .ok options) :
    (∃ type option, items.lookup 53 = some [type] ∧ option.realValues = [.uint8 type] ∧
      options.find? (fun option => option.description.code = 53) = some option) ∨
    (items.lookup 53 = none ∧
      options.find? (fun option => option.description.code = 53) = none) := by
  induction items generalizing options with
  | nil =>
    cases made
    exact Or.inr ⟨rfl, rfl⟩
  | cons item items inductionHypothesis =>
    obtain ⟨code, payload⟩ := item
    rw [optionsOf_cons] at made
    obtain ⟨option, optionMade, made⟩ := bind_eq_ok.mp made
    obtain ⟨later, laterMade, made⟩ := bind_eq_ok.mp made
    cases made
    have sameCode := code_of_optionOf optionMade
    by_cases isType : code = 53
    · subst isType
      obtain ⟨type, rfl, values⟩ := realValues_of_option53 optionMade
      refine Or.inl ⟨type, option, List.lookup_cons_self, values, ?_⟩
      exact List.find?_cons_of_pos (decide_eq_true sameCode)
    -- the predicate skips the option as the lookup skips its item
    · have otherCode : option.description.code ≠ 53 := by
        intro same
        rw [sameCode] at same
        exact isType (UInt8.toNat_inj.mp (Int.ofNat.inj same))
      rw [List.lookup_cons, beq_eq_false_iff_ne.mpr (Ne.symm isType),
        List.find?_cons_of_neg (by simpa using otherCode)]
      exact inductionHypothesis laterMade

/-- The loop finds the first item with code 53. -/
theorem messageType_decoded {message : DhcpMessage} (made : optionsOf items = .ok message.options) :
    (∃ type, items.lookup 53 = some [type] ∧ messageType message = .ok type) ∨
      (items.lookup 53 = none ∧ messageType message = undefinedBehaviour) := by
  obtain ⟨type, option, carried, values, found⟩ | ⟨missing, notFound⟩ := find_option53 made
  · refine Or.inl ⟨type, carried, ?_⟩
    rw [messageType, found]
    simp only [values]
    rfl
  · refine Or.inr ⟨missing, ?_⟩
    rw [messageType, notFound]

theorem messageType_of_lookup {message : DhcpMessage} {type : Option53MessageType}
    (made : optionsOf items = .ok message.options) (carried : items.lookup 53 = some [type]) :
    messageType message = .ok type := by
  obtain ⟨found, carriedToo, typed⟩ | ⟨missing, _⟩ := messageType_decoded made
  · rw [carried] at carriedToo
    cases carriedToo
    exact typed
  · rw [carried] at missing
    cases missing

theorem lookup_of_messageType {message : DhcpMessage} {type : Option53MessageType}
    (made : optionsOf items = .ok message.options) (typed : messageType message = .ok type) :
    items.lookup 53 = some [type] := by
  obtain ⟨found, carried, typedToo⟩ | ⟨_, undefinedType⟩ := messageType_decoded made
  · rw [typed] at typedToo
    cases typedToo
    exact carried
  · rw [typed] at undefinedType
    cases undefinedType

omit host in
theorem messageType_of_missing {message : DhcpMessage}
    (missing : ∀ option ∈ message.options, option.description.code ≠ 53) :
    messageType message = undefinedBehaviour := by
  have notFound : message.options.find? (fun option => option.description.code = 53) = none := by
    rw [List.find?_eq_none]
    intro option member
    simpa using missing option member
  rw [messageType, notFound]

/-! ## The turn -/

/-- A decoded message has a client address. -/
theorem chaddr_of_ofData {packet : List UInt8} {message : DhcpMessage}
    (decoded : DhcpMessage.ofData packet = .ok message) : ∃ mac, message.chaddr = some mac := by
  obtain ⟨header, _, _, _, isMessage⟩ := wellFormed_of_decoded decoded
  exact ⟨header.mac, congrArg DhcpMessage.chaddr isMessage⟩

/-- What a turn does with `packet`, and how it ends. -/
inductive Turn (calls : SystemCalls) (server : Server) (packet : List UInt8) :
    Cpp (Option Reply) × Server → Prop where
  | undecoded {fault : Fault} (refused : DhcpMessage.ofData packet = .error fault) :
      Turn calls server packet (.error fault, server)
  | untyped {message : DhcpMessage} {fault : Fault}
      (decoded : DhcpMessage.ofData packet = .ok message) (isRequest : message.op = .bootrequest)
      (missing : messageType message = .error fault) :
      Turn calls server packet (.error fault, server)
  | ignored {message : DhcpMessage} (decoded : DhcpMessage.ofData packet = .ok message)
      (otherType : message.op = .bootrequest → ∃ type, messageType message = .ok type ∧
        type ≠ .dhcpdiscover ∧ type ≠ .dhcprequest) :
      Turn calls server packet (.ok none, server)
  | exhausted {message : DhcpMessage} {mac : MacAddress} {fault : Fault}
      (decoded : DhcpMessage.ofData packet = .ok message) (isRequest : message.op = .bootrequest)
      (isDiscover : messageType message = .ok .dhcpdiscover) (chaddr : message.chaddr = some mac)
      (refused : (server.pool.getAddress mac).1 = .error fault) :
      Turn calls server packet (.error fault, { server with pool := (server.pool.getAddress mac).2 })
  | offered {message : DhcpMessage} {mac : MacAddress} {ip : IPv4Address}
      (decoded : DhcpMessage.ofData packet = .ok message) (isRequest : message.op = .bootrequest)
      (isDiscover : messageType message = .ok .dhcpdiscover) (chaddr : message.chaddr = some mac)
      (leased : (server.pool.getAddress mac).1 = .ok ip) :
      Turn calls server packet (Server.send calls (replyTo .dhcpoffer message mac ip),
        { pool := (server.pool.getAddress mac).2, xids := server.xids.insert message.xid ip })
  | acknowledged {message : DhcpMessage} {mac : MacAddress}
      (decoded : DhcpMessage.ofData packet = .ok message) (isRequest : message.op = .bootrequest)
      (isDhcpRequest : messageType message = .ok .dhcprequest) (chaddr : message.chaddr = some mac) :
      Turn calls server packet
        (Server.send calls (replyTo .dhcpack message mac (subscript server.xids message.xid).1),
          { server with xids := (subscript server.xids message.xid).2 })

theorem handleDatagram_turn (calls : SystemCalls) (server : Server) (packet : List UInt8) :
    Turn calls server packet (server.handleDatagram calls packet) := by
  unfold Server.handleDatagram
  cases decoded : DhcpMessage.ofData packet with
  | error fault => exact .undecoded decoded
  | ok message =>
    dsimp only
    by_cases isRequest : message.op = .bootrequest
    · rw [if_pos isRequest]
      obtain ⟨mac, chaddr⟩ := chaddr_of_ofData decoded
      cases typed : messageType message with
      | error fault => exact .untyped decoded isRequest typed
      | ok type =>
        dsimp only
        -- the two types that the loop compares with, in the order of its branches
        by_cases isDiscover : type = .dhcpdiscover
        · subst isDiscover
          rw [if_pos rfl]
          cases leased : (server.pool.getAddress mac).1 with
          | error fault =>
            rw [handleDiscover_of_error chaddr leased]
            exact .exhausted decoded isRequest typed chaddr leased
          | ok ip =>
            rw [handleDiscover_of_ok chaddr leased]
            exact .offered decoded isRequest typed chaddr leased
        · rw [if_neg isDiscover]
          by_cases isDhcpRequest : type = .dhcprequest
          · subst isDhcpRequest
            rw [if_pos rfl, handleRequest_eq chaddr]
            exact .acknowledged decoded isRequest typed chaddr
          · rw [if_neg isDhcpRequest]
            exact .ignored decoded fun _ => ⟨type, typed, isDiscover, isDhcpRequest⟩
    · rw [if_neg isRequest]
      exact .ignored decoded fun isRequestToo => absurd isRequestToo isRequest

/-- A DHCPREQUEST is always answered from `xids`. -/
theorem handleDatagram_of_request (calls : SystemCalls) (server : Server) {packet : List UInt8}
    {message : DhcpMessage} {mac : MacAddress} (decoded : DhcpMessage.ofData packet = .ok message)
    (isRequest : message.op = .bootrequest) (typed : messageType message = .ok .dhcprequest)
    (chaddr : message.chaddr = some mac) :
    server.handleDatagram calls packet =
      (Server.send calls (replyTo .dhcpack message mac (subscript server.xids message.xid).1),
        { server with xids := (subscript server.xids message.xid).2 }) := by
  have notDiscover : Option53MessageType.dhcprequest ≠ .dhcpdiscover := by decide
  simp only [Server.handleDatagram, decoded, if_pos isRequest, typed, if_neg notDiscover, if_true,
    handleRequest_eq chaddr]

/-! ## The loop -/

section Loop

variable {state : Cpp Server} {input : Server.Input} {server later : Server}

/-- The loop only goes on after a turn that returned. -/
theorem turn_of_next (next : Server.machine.next state input = .ok later) :
    ∃ server reply, state = .ok server ∧
      server.handleDatagram input.calls input.packet = (.ok reply, later) := by
  cases state with
  | error fault => cases next
  | ok server =>
    cases handled : server.handleDatagram input.calls input.packet with
    | mk result after =>
      rw [Machine.next, Server.machine] at next
      simp only [handled] at next
      cases result with
      | error fault => cases next
      | ok reply =>
        cases next
        exact ⟨server, reply, rfl, handled⟩

/-- What is sent is sent by a turn that returned. -/
theorem turn_of_output {reply : Reply} (sent : Server.machine.output state input = some reply) :
    ∃ server later, state = .ok server ∧
      server.handleDatagram input.calls input.packet = (.ok (some reply), later) := by
  cases state with
  | error fault => cases sent
  | ok server =>
    cases handled : server.handleDatagram input.calls input.packet with
    | mk result after =>
      rw [Machine.output, Server.machine] at sent
      simp only [handled] at sent
      cases result with
      | error fault => cases sent
      | ok reply =>
        cases sent
        exact ⟨server, after, rfl, handled⟩

theorem next_of_turn {reply : Option Reply}
    (handled : server.handleDatagram input.calls input.packet = (.ok reply, later)) :
    Server.machine.next (.ok server) input = .ok later := by
  rw [Machine.next, Server.machine]
  simp only [handled]

theorem output_of_turn {reply : Option Reply}
    (handled : server.handleDatagram input.calls input.packet = (.ok reply, later)) :
    Server.machine.output (.ok server) input = reply := by
  rw [Machine.output, Server.machine]
  simp only [handled]

end Loop

end Klevret.Verified.Server
