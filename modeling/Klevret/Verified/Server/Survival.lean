import Klevret.Verified.Pool.Steps
import Klevret.Verified.Server.Turns

/-! # When the loop goes on

Nothing catches an exception on its way out of the loop, so the server outlives a
datagram exactly when nothing on its way throws: the datagram is well formed, a
request carries option 53, the pool has an address for a discovering client, and
a reply that is due goes out (`loopGoesOn_iff`). -/

namespace Klevret.Verified.Server

open Klevret.Base Klevret.Dhcp Klevret.Verified.Options Klevret.Verified.Message
  Klevret.Verified.Pool

section Survival

variable [Host] {pool : AddressPool} {mac : MacAddress} {calls : SystemCalls} {server : Server}
  {packet : List UInt8}

/-! ## An address for a client -/

/-- Some branch of `get_address` finds an address. -/
def HasAddressFor (pool : AddressPool) (mac : MacAddress) : Prop :=
  pool.isMacReserved mac ∨ pool.isMacTaken mac ∨ pool.isAddressCached mac ∨
    ∃ ip, pool.isAddressIncluded ip ∧ ¬ pool.isIpReserved ip ∧ ¬ pool.isIpTaken ip

theorem returns_getAddress_iff :
    Returns (pool.getAddress mac).1 ↔ HasAddressFor pool mac := by
  unfold HasAddressFor
  rw [isMacReserved_eq, isMacTaken_eq, isAddressCached_eq]
  cases reserved : pool.reservedMacAddresses[mac]? with
  | some ip =>
    rw [getAddress_of_reserved reserved]
    exact iff_of_true (returns_ok ip) (Or.inl rfl)
  | none =>
    cases taken : pool.takenMacAddresses[mac]? with
    | some ip =>
      rw [getAddress_of_taken reserved taken]
      exact iff_of_true (returns_ok ip) (Or.inr (Or.inl rfl))
    | none =>
      cases cached : pool.cache[mac]? with
      | some ip =>
        rw [getAddress_of_cached reserved taken cached]
        exact iff_of_true (returns_ok ip) (Or.inr (Or.inr (Or.inl rfl)))
      | none =>
        cases free : pool.firstFree with
        | some ip =>
          rw [getAddress_of_free reserved taken cached free]
          obtain ⟨included, unreserved, untaken⟩ := firstFree_spec free
          refine iff_of_true (returns_ok ip) (Or.inr (Or.inr (Or.inr ⟨ip, included, ?_, ?_⟩)))
          · simp [unreserved]
          · simp [untaken]
        | none =>
          rw [getAddress_of_exhausted reserved taken cached free]
          -- the scan was exhausted, so no included address is free
          refine iff_of_false (not_returns_error _) ?_
          rintro (impossible | impossible | impossible | ⟨ip, included, unreserved, untaken⟩)
          · cases impossible
          · cases impossible
          · cases impossible
          · obtain ⟨found, foundFree⟩ := exists_firstFree included unreserved untaken
            rw [free] at foundFree
            cases foundFree

/-! ## The refusals -/

/-- What a server should shrug off. -/
inductive Refused (server : Server) (packet : List UInt8) : Prop where
  | undecoded (throws : Throws (DhcpMessage.ofData packet))
  | withoutOption53 {message : DhcpMessage} (decoded : DhcpMessage.ofData packet = .ok message)
      (isRequest : message.op = .bootrequest)
      (missing : ∀ option ∈ message.options, option.description.code ≠ 53)
  | noFreeAddress {message : DhcpMessage} {mac : MacAddress}
      (decoded : DhcpMessage.ofData packet = .ok message) (isRequest : message.op = .bootrequest)
      (isDiscover : messageType message = .ok .dhcpdiscover) (chaddr : message.chaddr = some mac)
      (throws : Throws (server.pool.getAddress mac).1)

/-- The turn ends, and a refusal changes nothing and sends nothing. -/
structure LoopGoesOn (calls : SystemCalls) (server : Server) (packet : List UInt8) : Prop where
  goesOn : Returns (server.handleDatagram calls packet).1
  refusalIgnored : Refused server packet → server.handleDatagram calls packet = (.ok none, server)

/-- Nothing on the way of the datagram throws. -/
def NothingThrows (calls : SystemCalls) (server : Server) (packet : List UInt8) : Prop :=
  ∃ header items, WellFormed packet header items ∧
    (header.op = .bootrequest → ∃ type : Option53MessageType, items.lookup 53 = some [type] ∧
      (type = .dhcpdiscover → HasAddressFor server.pool header.mac) ∧
      (type = .dhcpdiscover ∨ type = .dhcprequest → calls.Succeed))

theorem nothingThrows_of_goesOn (goesOn : Returns (server.handleDatagram calls packet).1) :
    NothingThrows calls server packet := by
  have turn := handleDatagram_turn calls server packet
  generalize server.handleDatagram calls packet = outcome at goesOn turn
  cases turn with
  | undecoded refused => exact absurd goesOn (not_returns_error _)
  | untyped decoded isRequest missing => exact absurd goesOn (not_returns_error _)
  | exhausted decoded isRequest isDiscover chaddr refused =>
    exact absurd goesOn (not_returns_error _)
  | ignored decoded otherType =>
    obtain ⟨header, items, wellFormed, made, isMessage⟩ := wellFormed_of_decoded decoded
    refine ⟨header, items, wellFormed, fun isRequest => ?_⟩
    rw [isMessage] at otherType
    obtain ⟨type, typed, notDiscover, notDhcpRequest⟩ := otherType isRequest
    rw [← isMessage] at typed
    exact ⟨type, lookup_of_messageType made typed, fun isDiscover => absurd isDiscover notDiscover,
      fun due => absurd due (not_or.mpr ⟨notDiscover, notDhcpRequest⟩)⟩
  | @offered message mac ip decoded isRequest isDiscover chaddr leased =>
    obtain ⟨header, items, wellFormed, made, isMessage⟩ := wellFormed_of_decoded decoded
    have isMac : mac = header.mac := by
      rw [isMessage] at chaddr
      exact (Option.some.inj chaddr).symm
    subst isMac
    refine ⟨header, items, wellFormed, fun _ => ⟨_, lookup_of_messageType made isDiscover, ?_, ?_⟩⟩
    · intro _
      exact returns_getAddress_iff.mp ⟨ip, leased⟩
    · intro _
      exact send_returns_iff.mp goesOn
  | acknowledged decoded isRequest isDhcpRequest chaddr =>
    obtain ⟨header, items, wellFormed, made, isMessage⟩ := wellFormed_of_decoded decoded
    refine ⟨header, items, wellFormed, fun _ =>
      ⟨_, lookup_of_messageType made isDhcpRequest, ?_, ?_⟩⟩
    · intro isDiscover
      cases isDiscover
    · intro _
      exact send_returns_iff.mp goesOn

theorem NothingThrows.decoded (nothing : NothingThrows calls server packet) :
    ∃ message, DhcpMessage.ofData packet = .ok message := by
  obtain ⟨header, items, wellFormed, _⟩ := nothing
  obtain ⟨options, _, decoded⟩ := wellFormed.decoded
  exact ⟨_, decoded⟩

/-- What a request finds: its type, an address if it discovers, and a way out. -/
theorem NothingThrows.request (nothing : NothingThrows calls server packet) {message : DhcpMessage}
    (decoded : DhcpMessage.ofData packet = .ok message) (isRequest : message.op = .bootrequest) :
    ∃ type, messageType message = .ok type ∧
      (type = .dhcpdiscover → ∀ mac, message.chaddr = some mac →
        Returns (server.pool.getAddress mac).1) ∧
      (type = .dhcpdiscover ∨ type = .dhcprequest → calls.Succeed) := by
  obtain ⟨header, items, wellFormed, asRequest⟩ := nothing
  obtain ⟨options, made, decodedToo⟩ := wellFormed.decoded
  rw [decoded] at decodedToo
  cases decodedToo
  obtain ⟨type, carried, available, due⟩ := asRequest isRequest
  refine ⟨type, messageType_of_lookup made carried, ?_, due⟩
  intro isDiscover mac chaddr
  cases chaddr
  exact returns_getAddress_iff.mpr (available isDiscover)

theorem NothingThrows.available (nothing : NothingThrows calls server packet)
    {message : DhcpMessage} (decoded : DhcpMessage.ofData packet = .ok message)
    (isRequest : message.op = .bootrequest) (isDiscover : messageType message = .ok .dhcpdiscover)
    (chaddr : message.chaddr = some mac) : Returns (server.pool.getAddress mac).1 := by
  obtain ⟨type, typed, available, _⟩ := nothing.request decoded isRequest
  have sameType := Except.ok.inj (typed.symm.trans isDiscover)
  exact available sameType mac chaddr

theorem goesOn_of_nothingThrows (nothing : NothingThrows calls server packet) :
    Returns (server.handleDatagram calls packet).1 := by
  have turn := handleDatagram_turn calls server packet
  generalize server.handleDatagram calls packet = outcome at turn
  cases turn with
  | undecoded refused =>
    obtain ⟨message, decoded⟩ := nothing.decoded
    rw [decoded] at refused
    cases refused
  | untyped decoded isRequest missing =>
    obtain ⟨type, typed, _⟩ := nothing.request decoded isRequest
    rw [typed] at missing
    cases missing
  | ignored decoded otherType => exact returns_ok none
  | exhausted decoded isRequest isDiscover chaddr refused =>
    have returned := nothing.available decoded isRequest isDiscover chaddr
    rw [refused] at returned
    exact absurd returned (not_returns_error _)
  | offered decoded isRequest isDiscover chaddr leased =>
    obtain ⟨type, typed, _, due⟩ := nothing.request decoded isRequest
    have sameType := Except.ok.inj (typed.symm.trans isDiscover)
    exact send_returns_iff.mpr (due (Or.inl sameType))
  | acknowledged decoded isRequest isDhcpRequest chaddr =>
    obtain ⟨type, typed, _, due⟩ := nothing.request decoded isRequest
    have sameType := Except.ok.inj (typed.symm.trans isDhcpRequest)
    exact send_returns_iff.mpr (due (Or.inr sameType))

/-- A refusal is never survived. -/
theorem not_nothingThrows_of_refused (refused : Refused server packet) :
    ¬ NothingThrows calls server packet := by
  intro nothing
  cases refused with
  | undecoded throws =>
    obtain ⟨message, decoded⟩ := nothing.decoded
    rw [decoded] at throws
    exact not_throws_ok _ throws
  | withoutOption53 decoded isRequest missing =>
    obtain ⟨type, typed, _⟩ := nothing.request decoded isRequest
    rw [messageType_of_missing missing] at typed
    cases typed
  | noFreeAddress decoded isRequest isDiscover chaddr throws =>
    exact throws.not_returns (nothing.available decoded isRequest isDiscover chaddr)

theorem loopGoesOn_iff (calls : SystemCalls) (server : Server) (packet : List UInt8) :
    LoopGoesOn calls server packet ↔ NothingThrows calls server packet := by
  constructor
  · intro loop
    exact nothingThrows_of_goesOn loop.goesOn
  · intro nothing
    exact ⟨goesOn_of_nothingThrows nothing,
      fun refused => absurd nothing (not_nothingThrows_of_refused refused)⟩

end Survival

section

attribute [local instance] littleEndianHost

/-- A datagram of one byte ends the server. -/
theorem one_byte_ends_the_loop :
    ¬ LoopGoesOn ⟨3, 0, ⟨#v[192, 168, 1, 255]⟩, 0, 3, 0, 300⟩
      ⟨startPool, ∅⟩ [0] := by
  intro loop
  have refused : Throws (DhcpMessage.ofData [0]) := throws_runtimeError _
  obtain ⟨header, items, wellFormed, _⟩ := nothingThrows_of_goesOn loop.goesOn
  obtain ⟨options, _, decoded⟩ := wellFormed.decoded
  rw [decoded] at refused
  exact not_throws_ok _ refused

end

end Klevret.Verified.Server
