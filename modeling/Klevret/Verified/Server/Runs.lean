import Klevret.Verified.Server.Acknowledgements
import Klevret.Verified.Server.Service

/-! # Whole runs of the server

What the server sends in a run follows from the requests in it.  Offers go out in the order in
which clients discover for the first time (`offers_in_order`), to each client its own address
(`offers_exclusive`), an acknowledgement names the address that was offered
(`handshake_completes`), and the server runs until a datagram is malformed, an answer does not go
out or a twelfth client comes (`running_iff`). -/

namespace Klevret.Verified.Server

open Klevret.Base Klevret.Dhcp Klevret.Verified.Pool

/-! ## Runs of the service -/

def Request.discoverer : Request → Option MacAddress
  | .discover _ mac => some mac
  | _ => none

/-- The clients of the discoveries, in their order. -/
def discoverersOf (requests : List Request) : List MacAddress :=
  requests.filterMap Request.discoverer

@[simp] theorem discoverersOf_nil : discoverersOf [] = [] := rfl

@[simp] theorem discoverersOf_discover (xid : UInt32) (mac : MacAddress) (requests : List Request) :
    discoverersOf (.discover xid mac :: requests) = mac :: discoverersOf requests := rfl

@[simp] theorem discoverersOf_request (xid : UInt32) (mac : MacAddress) (requests : List Request) :
    discoverersOf (.request xid mac :: requests) = discoverersOf requests := rfl

@[simp] theorem discoverersOf_other (requests : List Request) :
    discoverersOf (.other :: requests) = discoverersOf requests := rfl

theorem discoverersOf_append (before after : List Request) :
    discoverersOf (before ++ after) = discoverersOf before ++ discoverersOf after :=
  List.filterMap_append

/-- The step does not end the service, if there is an address. -/
def Deliverable (input : Service.Input) : Prop :=
  input.asks ≠ .malformed ∧ (input.asks ≠ .other → input.destination.isSome)

namespace Service

variable {service later : Service} {input : Input} {inputs : List Input}

/-- What one step does with a service that goes on. -/
theorem next_cases (next : machine.next (some service) input = some later) :
    (input.asks = .other ∧ later = service) ∨
    (∃ xid mac, input.asks = .request xid mac ∧ later = service) ∨
    ∃ xid mac ip desk, input.asks = .discover xid mac ∧
      service.desk.serve mac = (some ip, desk) ∧
      later = ⟨desk, Function.update service.offered xid ip⟩ := by
  obtain ⟨asks, destination⟩ := input
  unfold Machine.next machine handle at next
  cases asks with
  | malformed => cases next
  | other =>
    cases next
    exact Or.inl ⟨rfl, rfl⟩
  | request xid mac =>
    cases destination with
    | none => cases next
    | some destination =>
      cases next
      exact Or.inr (Or.inl ⟨xid, mac, rfl, rfl⟩)
  | discover xid mac =>
    cases served : service.desk.serve mac with
    | mk result desk =>
      simp only [served] at next
      cases result with
      | none => cases next
      | some ip =>
        cases destination with
        | none => cases next
        | some destination =>
          cases next
          exact Or.inr (Or.inr ⟨xid, mac, ip, desk, rfl, served, rfl⟩)

theorem run_none (inputs : List Input) : machine.run none inputs = none := by
  induction inputs with
  | nil => rfl
  | cons input inputs inductionHypothesis => exact inductionHypothesis

/-- A service that is still there has served everybody who discovered. -/
theorem desk_run (running : machine.run (some service) inputs = some later) :
    later.desk =
      FirstCome.machine.run service.desk (discoverersOf (inputs.map Input.asks)) := by
  induction inputs generalizing service with
  | nil =>
    cases running
    rfl
  | cons input inputs inductionHypothesis =>
    cases next : machine.next (some service) input with
    | none =>
      rw [Machine.run_cons, next, run_none] at running
      cases running
    | some middle =>
      rw [Machine.run_cons, next] at running
      rw [inductionHypothesis running, List.map_cons]
      obtain ⟨asks, rfl⟩ | ⟨xid, mac, asks, rfl⟩ | ⟨xid, mac, ip, desk, asks, served, rfl⟩ :=
        next_cases next
      · rw [asks, discoverersOf_other]
      · rw [asks, discoverersOf_request]
      · have nextDesk : FirstCome.machine.next service.desk mac = desk :=
          congrArg Prod.snd served
        rw [asks, discoverersOf_discover, Machine.run_cons, nextDesk]

/-- The address of a transaction stays until another client discovers with its id. -/
theorem offered_run {xid : UInt32} {ip : IPv4Address}
    (offered : service.offered xid = ip)
    (noOther : ∀ input ∈ inputs, ∀ mac, input.asks ≠ .discover xid mac)
    (running : machine.run (some service) inputs = some later) : later.offered xid = ip := by
  induction inputs generalizing service with
  | nil =>
    cases running
    exact offered
  | cons input inputs inductionHypothesis =>
    obtain ⟨notHere, notLater⟩ := List.forall_mem_cons.mp noOther
    cases next : machine.next (some service) input with
    | none =>
      rw [Machine.run_cons, next, run_none] at running
      cases running
    | some middle =>
      rw [Machine.run_cons, next] at running
      refine inductionHypothesis ?_ notLater running
      obtain ⟨_, rfl⟩ | ⟨_, _, _, rfl⟩ | ⟨other, mac, found, desk, asks, _, rfl⟩ := next_cases next
      · exact offered
      · exact offered
      · have different : xid ≠ other := by
          rintro rfl
          exact notHere mac asks
        exact (Function.update_of_ne different _ _).trans offered

/-- The service goes on as long as its answers go out and its addresses last. -/
theorem isSome_run_iff (service : Service) (inputs : List Input) :
    (machine.run (some service) inputs).isSome ↔
      (∀ input ∈ inputs, Deliverable input) ∧
        (service.desk.newcomers (discoverersOf (inputs.map Input.asks))).length ≤
          service.desk.free.length := by
  induction inputs generalizing service with
  | nil => simp [FirstCome.newcomers]
  | cons input inputs inductionHypothesis =>
    obtain ⟨asks, destination⟩ := input
    rw [Machine.run_cons, List.forall_mem_cons, List.map_cons]
    cases asks with
    | malformed =>
      have ended : machine.next (some service) ⟨.malformed, destination⟩ = none := rfl
      simp [ended, run_none, Deliverable]
    | other =>
      have goesOn : machine.next (some service) ⟨.other, destination⟩ = some service := rfl
      simp [goesOn, inductionHypothesis, Deliverable]
    | request xid mac =>
      cases destination with
      | none =>
        have ended : machine.next (some service) ⟨.request xid mac, none⟩ = none := rfl
        simp [ended, run_none, Deliverable]
      | some destination =>
        have goesOn : machine.next (some service) ⟨.request xid mac, some destination⟩ =
          some service := rfl
        simp [goesOn, inductionHypothesis, Deliverable]
    | discover xid mac =>
      -- the desk must have an address for the client, and the offer must go out
      rw [discoverersOf_discover, FirstCome.enough_cons_iff]
      cases served : service.desk.serve mac with
      | mk result desk =>
        have handled : machine.next (some service) ⟨.discover xid mac, destination⟩ =
            (service.handle ⟨.discover xid mac, destination⟩).2 := rfl
        cases result with
        | none => simp [handled, handle, served, run_none]
        | some ip =>
          cases destination with
          | none => simp [handled, handle, served, reply, run_none, Deliverable]
          | some destination =>
            simp [handled, handle, served, reply, inductionHypothesis, Deliverable]

/-- A discovery that does not end the service is answered with the client's share. -/
theorem output_discover {xid : UInt32} {mac : MacAddress} {destination : Option IPv4Address}
    (running : machine.run (some .start) inputs = some service)
    (next : machine.next (some service) ⟨.discover xid mac, destination⟩ = some later) :
    ∃ ip address, destination = some address ∧
      machine.output (some service) ⟨.discover xid mac, destination⟩ =
        some ⟨.dhcpoffer, xid, mac, ip, address⟩ ∧
      start.desk.share (discoverersOf (inputs.map Input.asks) ++ [mac]) mac = some ip ∧
      later.offered xid = ip := by
  have served : (service.desk.serve mac).1 =
      start.desk.share (discoverersOf (inputs.map Input.asks) ++ [mac]) mac := by
    rw [desk_run running]
    exact FirstCome.output_run _ _ _
  obtain ⟨impossible, _⟩ | ⟨_, _, impossible, _⟩ | ⟨_, _, ip, desk, same, found, rfl⟩ :=
    next_cases next
  · cases impossible
  · cases impossible
  · cases same
    rw [found] at served
    cases destination with
    | none =>
      simp only [Machine.next, machine, handle, found, reply] at next
      cases next
    | some address =>
      refine ⟨ip, address, rfl, ?_, served.symm, Function.update_self ..⟩
      simp only [Machine.output, machine, handle, found, reply]

/-- A request that does not end the service is answered with the address of its transaction. -/
theorem output_request {xid : UInt32} {mac : MacAddress} {destination : Option IPv4Address}
    (next : machine.next (some service) ⟨.request xid mac, destination⟩ = some later) :
    ∃ address, destination = some address ∧
      machine.output (some service) ⟨.request xid mac, destination⟩ =
        some ⟨.dhcpack, xid, mac, service.offered xid, address⟩ := by
  cases destination with
  | none => cases next
  | some address => exact ⟨address, rfl, rfl⟩

end Service

/-! ## Runs of the server -/

section

variable [host : Host] {history before between : List Server.Input}
  {input discover request : Server.Input} {xid : UInt32} {mac client : MacAddress}

def requestsOf (history : List Server.Input) : List Request :=
  history.map fun input => requestOf input.packet

theorem asks_inputOf (history : List Server.Input) :
    (history.map inputOf).map Service.Input.asks = requestsOf history := by
  rw [List.map_map]
  rfl

theorem abstraction_serverAfter (history : List Server.Input) :
    abstraction (serverAfter history) =
      Service.machine.run (some .start) (history.map inputOf) := by
  rw [← abstraction_start]
  exact (refined_from (keepsBooks_run []) history).2

theorem returns_iff_abstraction {state : Cpp Server} :
    Returns state ↔ (abstraction state).isSome := by
  cases state with
  | ok server => exact iff_of_true (returns_ok server) rfl
  | error fault => exact iff_of_false (not_returns_error fault) nofun

/-- The server runs as long as every datagram can be read, every answer goes out, and no more
    than eleven clients have discovered. -/
theorem running_iff (inputs : List Server.Input) :
    Returns (serverAfter inputs) ↔
      (∀ input ∈ inputs, requestOf input.packet ≠ .malformed ∧
        (requestOf input.packet ≠ .other → input.calls.Succeed)) ∧
      (discoverersOf (requestsOf inputs)).eraseDups.length ≤ 11 := by
  have eachInput : ∀ input : Server.Input, Deliverable (inputOf input) ↔
      requestOf input.packet ≠ .malformed ∧
        (requestOf input.packet ≠ .other → input.calls.Succeed) := by
    intro input
    have succeeds : (inputOf input).destination.isSome ↔ input.calls.Succeed := by
      by_cases succeed : input.calls.Succeed
      · simp [inputOf, succeed]
      · simp [inputOf, succeed]
    rw [Deliverable, succeeds]
    rfl
  rw [returns_iff_abstraction, abstraction_serverAfter, Service.isSome_run_iff, asks_inputOf,
    FirstCome.newcomers_eq_eraseDups fun _ => rfl]
  simp only [List.forall_mem_map, eachInput]
  rfl

/-- The address of the client with the number `index`. -/
def clientAddress (index : ℕ) : IPv4Address := ⟨#v[192, 168, 1, .ofNat (10 + index)]⟩

omit host in
theorem share_start {macs : List MacAddress} {ip : IPv4Address}
    (shared : Service.start.desk.share macs mac = some ip) :
    macs.eraseDups.idxOf mac ≤ 10 ∧ ip = clientAddress (macs.eraseDups.idxOf mac) := by
  rw [FirstCome.share, FirstCome.newcomers_eq_eraseDups fun _ => rfl] at shared
  have isFree : ((List.range' 10 11).map fun last => (⟨#v[192, 168, 1, .ofNat last]⟩ : IPv4Address))[
      macs.eraseDups.idxOf mac]? = some ip := shared
  obtain ⟨inside, isAddress⟩ := List.getElem?_eq_some_iff.mp isFree
  have small : macs.eraseDups.idxOf mac < 11 := by simpa using inside
  refine ⟨Nat.le_of_lt_succ small, ?_⟩
  rw [← isAddress, List.getElem_map, List.getElem_range', Nat.one_mul, clientAddress]

/-- A turn that the server outlives is a step of the service that the service outlives. -/
theorem step_of_running (running : Returns (serverAfter (history ++ [input]))) :
    ∃ service later, Service.machine.run (some .start) (history.map inputOf) = some service ∧
      abstraction (serverAfter (history ++ [input])) = some later ∧
      Service.machine.next (some service) (inputOf input) = some later ∧
      Server.machine.output (serverAfter history) input =
        (Service.machine.output (some service) (inputOf input)).map replyOf := by
  have keeps := keepsBooks_run history
  obtain ⟨later, isLater⟩ := Option.isSome_iff_exists.mp (returns_iff_abstraction.mp running)
  have next := isLater
  rw [serverAfter_append, serverAfter, next_refined keeps, ← serverAfter] at next
  have sameOutput := output_refined keeps input
  rw [← serverAfter] at sameOutput
  cases before : abstraction (serverAfter history) with
  | none =>
    -- a service that has ended does not come back
    rw [before] at next
    cases next
  | some service =>
    rw [before] at next sameOutput
    rw [abstraction_serverAfter] at before
    exact ⟨service, later, before, isLater, next, sameOutput⟩

theorem inputOf_of_asks {asks : Request} (read : requestOf input.packet = asks) :
    inputOf input = ⟨asks, (inputOf input).destination⟩ := by
  rw [← read]
  rfl

theorem destination_eq {address : IPv4Address} (goesOut : (inputOf input).destination = some address) :
    address = input.calls.broadcastAddress := by
  rw [inputOf] at goesOut
  dsimp only at goesOut
  split at goesOut
  · exact (Option.some.inj goesOut).symm
  · cases goesOut

/-- What is offered, and what is remembered of it. -/
theorem offer_of_running (discovers : requestOf input.packet = .discover xid mac)
    (running : Returns (serverAfter (history ++ [input]))) :
    ∃ ip service, Server.machine.output (serverAfter history) input =
        some (replyOf ⟨.dhcpoffer, xid, mac, ip, input.calls.broadcastAddress⟩) ∧
      Service.start.desk.share (discoverersOf (requestsOf (history ++ [input]))) mac = some ip ∧
      abstraction (serverAfter (history ++ [input])) = some service ∧ service.offered xid = ip := by
  obtain ⟨service, later, runs, isLater, next, sameOutput⟩ := step_of_running running
  rw [inputOf_of_asks discovers] at next
  obtain ⟨ip, address, goesOut, answered, shared, remembered⟩ :=
    Service.output_discover runs next
  refine ⟨ip, later, ?_, ?_, isLater, remembered⟩
  · rw [sameOutput, inputOf_of_asks discovers, answered, destination_eq goesOut]
    rfl
  · have lastIsNew : requestsOf (history ++ [input]) = requestsOf history ++ [.discover xid mac] := by
      rw [requestsOf, List.map_append, List.map_singleton, discovers]
      rfl
    rw [asks_inputOf] at shared
    rw [lastIsNew, discoverersOf_append]
    exact shared

/-- Clients are offered the addresses from 192.168.1.10 on, in the order in which they discover
    for the first time, and each its own again when it discovers again. -/
theorem offers_in_order (discovers : requestOf input.packet = .discover xid mac)
    (running : Returns (serverAfter (history ++ [input]))) :
    let index := (discoverersOf (requestsOf (history ++ [input]))).eraseDups.idxOf mac
    index ≤ 10 ∧ Server.machine.output (serverAfter history) input =
      some (replyOf
        ⟨.dhcpoffer, xid, mac, clientAddress index, input.calls.broadcastAddress⟩) := by
  obtain ⟨ip, service, offered, shared, _, _⟩ := offer_of_running discovers running
  obtain ⟨small, rfl⟩ := share_start shared
  exact ⟨small, offered⟩

/-- What has run once has run all the time before. -/
theorem running_of_append (running : Returns (serverAfter (before ++ between))) :
    Returns (serverAfter before) := by
  rw [returns_iff_abstraction, abstraction_serverAfter, List.map_append,
    Machine.run_append] at running
  rw [returns_iff_abstraction, abstraction_serverAfter]
  cases ended : Service.machine.run (some .start) (before.map inputOf) with
  | some service => rfl
  | none =>
    rw [ended, Service.run_none] at running
    cases running

/-- The client that asks for the address of its transaction is given the one it was offered,
    whatever others do meanwhile, as long as nobody discovers with its transaction id. -/
theorem handshake_completes (discovers : requestOf discover.packet = .discover xid mac)
    (requests : requestOf request.packet = .request xid client)
    (noOther : ∀ input ∈ between, ∀ other, requestOf input.packet ≠ .discover xid other)
    (running : Returns (serverAfter (before ++ discover :: between ++ [request]))) :
    ∃ ip, Server.machine.output (serverAfter before) discover =
        some (replyOf ⟨.dhcpoffer, xid, mac, ip, discover.calls.broadcastAddress⟩) ∧
      Server.machine.output (serverAfter (before ++ discover :: between)) request =
        some (replyOf ⟨.dhcpack, xid, client, ip, request.calls.broadcastAddress⟩) := by
  have firstPart : before ++ discover :: between = (before ++ [discover]) ++ between := by simp
  have offeredRunning : Returns (serverAfter (before ++ [discover])) := by
    rw [firstPart] at running
    exact running_of_append (running_of_append running)
  obtain ⟨ip, offering, offered, _, isOffering, remembered⟩ :=
    offer_of_running discovers offeredRunning
  obtain ⟨service, later, runs, _, next, sameOutput⟩ := step_of_running running
  rw [inputOf_of_asks requests] at next
  obtain ⟨address, goesOut, answered⟩ := Service.output_request next
  -- between the two nobody writes to the entry of the transaction
  have kept : service.offered xid = ip := by
    rw [firstPart, List.map_append, Machine.run_append, ← abstraction_serverAfter,
      isOffering] at runs
    exact Service.offered_run remembered (List.forall_mem_map.mpr noOther) runs
  refine ⟨ip, offered, ?_⟩
  rw [sameOutput, inputOf_of_asks requests, answered, kept, destination_eq goesOut]
  rfl

/-- What is sent answers a discovery or a request, and the server goes on. -/
theorem answered_of_output {reply : Reply}
    (sent : Server.machine.output (serverAfter history) input = some reply) :
    Returns (serverAfter (history ++ [input])) ∧
      ((∃ xid mac, requestOf input.packet = .discover xid mac) ∨
        messageType reply.message = .ok .dhcpack) := by
  obtain ⟨server, later, running, handled⟩ := turn_of_output sent
  have goesOn : Returns (serverAfter (history ++ [input])) := by
    rw [serverAfter_append, running, next_of_turn handled]
    exact returns_ok later
  refine ⟨goesOn, ?_⟩
  obtain ⟨service, after, _, _, next, sameOutput⟩ := step_of_running goesOn
  rw [sent] at sameOutput
  obtain ⟨asks, _⟩ | ⟨xid, mac, asks, _⟩ | ⟨xid, mac, _, _, asks, _, _⟩ := Service.next_cases next
  · have silent : Service.machine.output (some service) (inputOf input) = none := by
      simp only [Machine.output, Service.machine, Service.handle, asks]
    rw [silent] at sameOutput
    cases sameOutput
  · rw [inputOf_of_asks asks] at next sameOutput
    obtain ⟨address, _, answered⟩ := Service.output_request next
    rw [answered] at sameOutput
    cases sameOutput
    exact Or.inr rfl
  · exact Or.inl ⟨xid, mac, asks⟩

/-- An offer of a run goes to one of the clients of the run, and names its share. -/
theorem share_of_offer {inputs : List Server.Input} {reply : Reply}
    (sent : some reply ∈ Server.machine.outputs Server.start inputs)
    (offers : messageType reply.message = .ok .dhcpoffer) :
    ∃ mac, reply.message.chaddr = some mac ∧ mac ∈ discoverersOf (requestsOf inputs) ∧
      Service.start.desk.share (discoverersOf (requestsOf inputs)) mac =
        some reply.message.yiaddr := by
  obtain ⟨before, input, after, rfl, answered⟩ := Machine.exists_of_mem_outputs _ sent
  obtain ⟨running, ⟨xid, mac, discovers⟩ | acknowledges⟩ := answered_of_output answered
  · obtain ⟨ip, _, offered, shared, _, _⟩ := offer_of_running discovers running
    rw [← serverAfter, offered] at answered
    cases answered
    -- the clients that come after the offer do not change whose share it is
    have split : discoverersOf (requestsOf (before ++ input :: after)) =
        discoverersOf (requestsOf (before ++ [input])) ++ discoverersOf (requestsOf after) := by
      rw [← discoverersOf_append, requestsOf, requestsOf, requestsOf, ← List.map_append,
        List.append_assoc, List.singleton_append]
    have member : mac ∈ discoverersOf (requestsOf (before ++ [input])) := by
      rw [requestsOf, List.map_append, discoverersOf_append, List.map_singleton, discovers]
      simp
    refine ⟨mac, rfl, ?_, ?_⟩
    · rw [split]
      exact List.mem_append_left _ member
    · rw [split, FirstCome.share_append_of_mem _ member, shared]
      rfl
  · rw [offers] at acknowledges
    cases acknowledges

omit host in
theorem clientAddress_injective {first second : ℕ} (firstSmall : first ≤ 10)
    (secondSmall : second ≤ 10) (same : clientAddress first = clientAddress second) :
    first = second := by
  have sameByte : UInt8.ofNat (10 + first) = UInt8.ofNat (10 + second) := by
    simpa [clientAddress] using same
  have sameNumber := congrArg UInt8.toNat sameByte
  rw [UInt8.toNat_ofNat', UInt8.toNat_ofNat'] at sameNumber
  omega

/-- Two offers of a run name the same address exactly when they go to the same client, and the
    address is one from 192.168.1.10 to 192.168.1.20. -/
theorem offers_exclusive {inputs : List Server.Input} {first second : Reply}
    (firstSent : some first ∈ Server.machine.outputs Server.start inputs)
    (secondSent : some second ∈ Server.machine.outputs Server.start inputs)
    (firstOffers : messageType first.message = .ok .dhcpoffer)
    (secondOffers : messageType second.message = .ok .dhcpoffer) :
    (first.message.yiaddr = second.message.yiaddr ↔
      first.message.chaddr = second.message.chaddr) ∧
    ∃ index ≤ 10, first.message.yiaddr = clientAddress index := by
  obtain ⟨firstMac, firstChaddr, firstMember, firstShare⟩ := share_of_offer firstSent firstOffers
  obtain ⟨secondMac, secondChaddr, _, secondShare⟩ := share_of_offer secondSent secondOffers
  obtain ⟨firstSmall, firstAddress⟩ := share_start firstShare
  obtain ⟨secondSmall, secondAddress⟩ := share_start secondShare
  refine ⟨?_, _, firstSmall, firstAddress⟩
  rw [firstChaddr, secondChaddr, Option.some.injEq]
  constructor
  · intro same
    rw [firstAddress, secondAddress] at same
    have sameIndex := clientAddress_injective firstSmall secondSmall same
    exact (List.idxOf_inj (List.mem_eraseDups.mpr firstMember)).mp sameIndex
  · rintro rfl
    rw [firstAddress, secondAddress]

end

section

attribute [local instance] littleEndianHost

/-- Two clients discover, and then one of them asks for its address. -/
def sampleRun : List Server.Input :=
  [sampleInput .dhcpdiscover clientA, sampleInput .dhcpdiscover clientB,
    sampleInput .dhcprequest clientB]

theorem sample_discovers :
    requestOf (sampleInput .dhcpdiscover clientA).packet = .discover 7 clientA ∧
      requestOf (sampleInput .dhcpdiscover clientB).packet = .discover 7 clientB := by
  decide +kernel

theorem sample_requests :
    requestOf (sampleInput .dhcprequest clientB).packet = .request 7 clientB := by
  decide +kernel

theorem sampleRun_inputs :
    sampleRun.map inputOf =
      [⟨.discover 7 clientA, some (.ofUInt32 0xC0A801FF)⟩,
        ⟨.discover 7 clientB, some (.ofUInt32 0xC0A801FF)⟩,
        ⟨.request 7 clientB, some (.ofUInt32 0xC0A801FF)⟩] := by
  have goesOut : ∀ type mac, inputOf (sampleInput type mac) =
      ⟨requestOf (sampleInput type mac).packet, some (.ofUInt32 0xC0A801FF)⟩ :=
    fun type mac => rfl
  simp only [sampleRun, List.map_cons, List.map_nil, goesOut, sample_discovers.1,
    sample_discovers.2, sample_requests]

theorem sampleRun_returns : Returns (serverAfter sampleRun) := by
  rw [returns_iff_abstraction, abstraction_serverAfter, sampleRun_inputs]
  decide +kernel

theorem offers_in_order_sample :
    Server.machine.output (serverAfter [sampleInput .dhcpdiscover clientA])
        (sampleInput .dhcpdiscover clientB) =
      some (replyOf ⟨.dhcpoffer, 7, clientB, clientAddress 1, .ofUInt32 0xC0A801FF⟩) := by
  have running : Returns (serverAfter ([sampleInput .dhcpdiscover clientA] ++
      [sampleInput .dhcpdiscover clientB])) :=
    running_of_append sampleRun_returns
  have second : (discoverersOf (requestsOf ([sampleInput .dhcpdiscover clientA] ++
      [sampleInput .dhcpdiscover clientB]))).eraseDups.idxOf clientB = 1 := by
    simp only [requestsOf, List.singleton_append, List.map_cons, List.map_nil,
      sample_discovers.1, sample_discovers.2]
    decide +kernel
  have offered := (offers_in_order sample_discovers.2 running).2
  rw [second] at offered
  exact offered

/-- The same datagram in a transaction of its own. -/
def inOtherTransaction (input : Server.Input) : Server.Input :=
  { input with packet := input.packet.set 7 9 }

/-- What another client sends between the two datagrams of a handshake. -/
def sampleBetween : List Server.Input :=
  [inOtherTransaction (sampleInput .dhcpdiscover clientB),
    inOtherTransaction (sampleInput .dhcprequest clientB)]

theorem sampleBetween_asks :
    sampleBetween.map (fun input => requestOf input.packet) =
      [.discover 9 clientB, .request 9 clientB] := by
  decide +kernel

theorem sample_requests_first :
    requestOf (sampleInput .dhcprequest clientA).packet = .request 7 clientA := by
  decide +kernel

theorem sampleHandshake_returns :
    Returns (serverAfter ([] ++ sampleInput .dhcpdiscover clientA :: sampleBetween ++
      [sampleInput .dhcprequest clientA])) := by
  have betweenInputs : sampleBetween.map inputOf =
      (sampleBetween.map fun input => requestOf input.packet).map fun asks =>
        ⟨asks, some (.ofUInt32 0xC0A801FF)⟩ := rfl
  rw [returns_iff_abstraction, abstraction_serverAfter, List.nil_append, List.map_append,
    List.map_cons, betweenInputs, sampleBetween_asks, List.map_singleton,
    inputOf_of_asks sample_discovers.1, inputOf_of_asks sample_requests_first]
  decide +kernel

theorem handshake_completes_sample :
    ∃ ip, Server.machine.output (serverAfter []) (sampleInput .dhcpdiscover clientA) =
        some (replyOf ⟨.dhcpoffer, 7, clientA, ip, .ofUInt32 0xC0A801FF⟩) ∧
      Server.machine.output (serverAfter ([] ++ sampleInput .dhcpdiscover clientA :: sampleBetween))
          (sampleInput .dhcprequest clientA) =
        some (replyOf ⟨.dhcpack, 7, clientA, ip, .ofUInt32 0xC0A801FF⟩) := by
  refine handshake_completes sample_discovers.1 sample_requests_first ?_ sampleHandshake_returns
  intro input member other discovers
  have asks := List.mem_map_of_mem (f := fun input => requestOf input.packet) member
  rw [sampleBetween_asks, discovers] at asks
  simp at asks

theorem sampleRun_outputs :
    Server.machine.outputs Server.start sampleRun =
      [some (replyOf ⟨.dhcpoffer, 7, clientA, clientAddress 0, .ofUInt32 0xC0A801FF⟩),
        some (replyOf ⟨.dhcpoffer, 7, clientB, clientAddress 1, .ofUInt32 0xC0A801FF⟩),
        some (replyOf ⟨.dhcpack, 7, clientB, clientAddress 1, .ofUInt32 0xC0A801FF⟩)] := by
  have refined := (refined_from (keepsBooks_run []) sampleRun).1
  rw [Machine.run_nil, abstraction_start, sampleRun_inputs] at refined
  rw [refined]
  rfl

theorem offers_exclusive_sample :
    (clientAddress 0 = clientAddress 1 ↔ some clientA = some clientB) ∧
      ∃ index ≤ 10, clientAddress 0 = clientAddress index := by
  have firstSent : some (replyOf ⟨.dhcpoffer, 7, clientA, clientAddress 0, .ofUInt32 0xC0A801FF⟩) ∈
      Server.machine.outputs Server.start sampleRun := by
    rw [sampleRun_outputs]
    exact List.mem_cons_self
  have secondSent : some (replyOf ⟨.dhcpoffer, 7, clientB, clientAddress 1, .ofUInt32 0xC0A801FF⟩) ∈
      Server.machine.outputs Server.start sampleRun := by
    rw [sampleRun_outputs]
    exact List.mem_cons_of_mem _ List.mem_cons_self
  exact offers_exclusive firstSent secondSent rfl rfl

end

end Klevret.Verified.Server
