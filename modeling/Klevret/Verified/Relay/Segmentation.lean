import Mathlib.Data.List.ReduceOption
import Klevret.Base.Chunks
import Klevret.Base.Fifo
import Klevret.Core.Relay

/-! # The relay and the segments of its streams

Every read of a handler thread is a message of its own to the core: there are no
frames in the streams and nothing puts reads together.  With a queue that is first
in, first out, the core takes the reads of every connection once and in their order,
and passes a read on when it is a command document (`reads_are_relayed`), whatever
the order of reads and turns.  When all of them are taken, the documents that were
sent are the ones passed on exactly when each of them came in one read.

The string of a turn ends at the first NUL in the memory behind the packet, which
need not be where the packet ends; nothing is said of what such a turn passes on. -/

namespace Klevret.Verified.Relay

open Klevret.Base Klevret.Common Klevret.Core
open TcpListener (packetOf ne_nil_of_packetOf)

section Relay

variable {Connection Tree : Type} {boost : PropertyTree Tree}
  {getNextPacket : GetNextPacket Connection} {calls : SystemCalls} {document : List UInt8}

/-! ## One document -/

/-- The string is one JSON document, and its component is `dhcp`. -/
def isCommand (boost : PropertyTree Tree) (jsonStr : List UInt8) : Bool :=
  match boost.readJson jsonStr with
  | none => false
  | some pt => boost.getString pt "component" = some "dhcp"

/-- The calls of a turn pass on `length` bytes. -/
structure Delivers (calls : SystemCalls) (length : ℕ) : Prop where
  clientSocket : calls.clientSocket ≠ -1
  inetPton : calls.inetPton ≠ -1
  connect : calls.connect ≠ -1
  sentBytes : length ≤ calls.sentBytes

theorem sendToDhcp_of_delivers (delivers : Delivers calls document.length) :
    sendToDhcp calls document = .ok document := by
  obtain ⟨clientSocket, inetPton, connect, sentBytes⟩ := delivers
  rw [sendToDhcp, if_neg clientSocket, if_neg inetPton, if_neg connect,
    List.take_of_length_le (by omega)]
  rfl

/-- A command is passed on whole, anything else not at all. -/
theorem forward_eq (delivers : isCommand boost document → Delivers calls document.length) :
    forward boost calls document = if isCommand boost document then some document else none := by
  unfold forward isCommand at *
  cases parsed : boost.readJson document with
  | none => simp
  | some pt =>
    simp only [parsed] at delivers
    cases found : boost.getString pt "component" with
    | none => simp [found]
    | some component =>
      by_cases isDhcp : component = "dhcp"
      · have sent := sendToDhcp_of_delivers (delivers (by simp [found, isDhcp]))
        simp [found, isDhcp, sent]
      · simp [found, isDhcp]

/-! ## The queue of the core -/

/-- The packet at the front is handed out. -/
def IsFifo (getNextPacket : GetNextPacket Connection) : Prop :=
  ∀ packet queue, getNextPacket ⟨packet :: queue⟩ = (.ok packet, ⟨queue⟩)

/-- The queue of the core, the packet a read pushes and the packet a turn takes. -/
def coreFifo :
    Fifo (Cpp (PacketQueue Connection)) (CoreEvent Connection) (Option (Relay Connection))
      (Connection × TcpPacket) where
  queue
    | .ok queue => queue.queue
    | .error _ => []
  pushes
    | .read connection result => ((packetOf result).map fun packet => (connection, packet)).toList
    | .turn _ _ => []
  takes
    | some relay => [(relay.connection, relay.packet)]
    | none => []

theorem queue_afterRead (queue : PacketQueue Connection) (connection : Connection)
    (result : TcpListener.ReadResult) :
    (afterRead queue connection result).queue =
      queue.queue ++ coreFifo.pushes (.read connection result) := by
  cases isPacket : packetOf result with
  | none => simp [afterRead, coreFifo, isPacket]
  | some packet => simp [afterRead, coreFifo, isPacket]

theorem ne_nil_of_mem_pushes {events : List (CoreEvent Connection)} {pushed : Connection × TcpPacket}
    (member : pushed ∈ coreFifo.allPushes events) : pushed.2 ≠ [] := by
  obtain ⟨event, _, isPushed⟩ := List.mem_flatMap.mp member
  cases event with
  | read connection result =>
    rw [coreFifo, Option.mem_toList, Option.map_eq_some_iff] at isPushed
    obtain ⟨packet, isPacket, rfl⟩ := isPushed
    exact ne_nil_of_packetOf isPacket
  | turn behind calls => cases isPushed

/-- How many packets wait after an event, when each turn takes one. -/
def backlogAfter (length : ℕ) : CoreEvent Connection → ℕ
  | .read connection result => length + (coreFifo.pushes (.read connection result)).length
  | .turn _ _ => length - 1

/-! ## Runs -/

/-- The core after a list of events. -/
def coreAfter (boost : PropertyTree Tree) (getNextPacket : GetNextPacket Connection)
    (events : List (CoreEvent Connection)) : Cpp (PacketQueue Connection) :=
  (machine boost getNextPacket).run (.ok .new) events

/-- What the core does with the packets it takes, in their order. -/
def relays (boost : PropertyTree Tree) (getNextPacket : GetNextPacket Connection)
    (events : List (CoreEvent Connection)) : List (Relay Connection) :=
  ((machine boost getNextPacket).outputs (.ok .new) events).reduceOption

/-- The string of the turn consists of the packet's own bytes, and the system calls of
    the turn do what they are asked to. -/
structure Intact (boost : PropertyTree Tree) (packet behind : List UInt8) (calls : SystemCalls) :
    Prop where
  noNul : 0 ∉ packet
  nulBehind : behind.head? = some 0
  delivers : isCommand boost packet → Delivers calls packet.length

/-- A turn that finds a packet is intact. -/
def Undisturbed (boost : PropertyTree Tree) :
    Cpp (PacketQueue Connection) → CoreEvent Connection → Prop
  | .ok ⟨(_, packet) :: _⟩, .turn behind calls => Intact boost packet behind calls
  | _, _ => True

/-- The packet is passed on as it came if it is a command, and else not at all. -/
def Faithful (boost : PropertyTree Tree) (relay : Relay Connection) : Prop :=
  relay.forwarded = if isCommand boost relay.packet then some relay.packet else none

/-! ### One turn -/

/-- A fault ends the core for good. -/
def Ended : Cpp (PacketQueue Connection) → Prop
  | .ok _ => False
  | .error _ => True

theorem stops_of_ended {state : Cpp (PacketQueue Connection)} (ended : Ended state)
    (event : CoreEvent Connection) :
    coreFifo.Stops (machine boost getNextPacket) Ended state event := by
  cases state with
  | ok queue => exact ended.elim
  | error fault => exact ⟨rfl, trivial⟩

/-- What a turn does with the packet at the front. -/
theorem step_turn (boost : PropertyTree Tree) (fifo : IsFifo getNextPacket) (connection : Connection)
    (packet : TcpPacket) (queue : List (Connection × TcpPacket)) (behind : List UInt8)
    (calls : SystemCalls) :
    (machine boost getNextPacket).step (.ok ⟨(connection, packet) :: queue⟩) (.turn behind calls) =
      match cString (packet ++ behind) with
      | .error fault => (none, .error fault)
      | .ok jsonStr =>
        (some ⟨connection, packet, jsonStr, forward boost calls jsonStr⟩, .ok ⟨queue⟩) := by
  simp only [machine, TcpListener.isEmpty, TcpListener.isEmptyNoMutex, fifo _ _]
  rfl

/-- A turn finds nothing, it ends the core, or it takes the packet at the front. -/
theorem turn_cases (boost : PropertyTree Tree) (fifo : IsFifo getNextPacket)
    (state : Cpp (PacketQueue Connection)) (behind : List UInt8) (calls : SystemCalls) :
    (machine boost getNextPacket).step state (.turn behind calls) = (none, state) ∨
      (∃ fault, (machine boost getNextPacket).step state (.turn behind calls) =
        (none, .error fault)) ∨
      ∃ relay queue, state = .ok ⟨(relay.connection, relay.packet) :: queue⟩ ∧
        (machine boost getNextPacket).step state (.turn behind calls) = (some relay, .ok ⟨queue⟩) := by
  cases state with
  | error fault => exact Or.inl rfl
  | ok queue =>
    obtain ⟨queue⟩ := queue
    cases queue with
    | nil => exact Or.inl rfl
    | cons front queue =>
      obtain ⟨connection, packet⟩ := front
      have step := step_turn boost fifo connection packet queue behind calls
      right
      cases isString : cString (packet ++ behind) with
      | error fault =>
        rw [isString] at step
        exact Or.inl ⟨fault, step⟩
      | ok jsonStr =>
        rw [isString] at step
        exact Or.inr ⟨_, queue, rfl, step⟩

theorem keeps_read (queue : PacketQueue Connection) (connection : Connection)
    (result : TcpListener.ReadResult) :
    coreFifo.Keeps (machine boost getNextPacket) (.ok queue) (.read connection result) :=
  (queue_afterRead queue connection result).symm

/-- Whatever a turn finds behind its packet: it takes the packet at the front, or it ends
    the core. -/
theorem keeps_or_stops (fifo : IsFifo getNextPacket) (state : Cpp (PacketQueue Connection))
    (event : CoreEvent Connection) :
    coreFifo.Keeps (machine boost getNextPacket) state event ∨
      coreFifo.Stops (machine boost getNextPacket) Ended state event := by
  cases event with
  | read connection result =>
    cases state with
    | error fault =>
      have ended : Ended (.error fault : Cpp (PacketQueue Connection)) := trivial
      exact Or.inr (stops_of_ended ended _)
    | ok queue => exact Or.inl (keeps_read queue connection result)
  | turn behind calls =>
    rw [Fifo.Keeps, Fifo.Stops, Machine.output, Machine.next]
    obtain step | ⟨fault, step⟩ | ⟨relay, queue, rfl, step⟩ :=
      turn_cases boost fifo state behind calls
    · -- an empty queue, or a core that has ended already
      left
      rw [step]
      exact List.append_nil _
    · right
      rw [step]
      exact ⟨rfl, trivial⟩
    · left
      rw [step]
      exact List.append_nil _

/-- An intact turn takes the packet at the front and is faithful to it. -/
theorem step_turn_of_intact (fifo : IsFifo getNextPacket) (connection : Connection)
    {packet : TcpPacket} (queue : List (Connection × TcpPacket)) {behind : List UInt8}
    (intact : Intact boost packet behind calls) :
    ∃ relay, (machine boost getNextPacket).step (.ok ⟨(connection, packet) :: queue⟩)
        (.turn behind calls) = (some relay, .ok ⟨queue⟩) ∧
      relay.connection = connection ∧ relay.packet = packet ∧ Faithful boost relay := by
  obtain ⟨noNul, nulBehind, delivers⟩ := intact
  have ownBytes := (cString_append_eq_iff packet behind).mpr ⟨noNul, nulBehind⟩
  refine ⟨⟨connection, packet, packet, forward boost calls packet⟩, ?_, rfl, rfl,
    forward_eq delivers⟩
  rw [step_turn boost fifo, ownBytes]

theorem faithful_of_intact (fifo : IsFifo getNextPacket) {state : Cpp (PacketQueue Connection)}
    {behind : List UInt8} {relay : Relay Connection}
    (isRelay : (machine boost getNextPacket).output state (.turn behind calls) = some relay)
    (intact : Intact boost relay.packet behind calls) : Faithful boost relay := by
  rw [Machine.output] at isRelay
  obtain step | ⟨fault, step⟩ | ⟨taken, queue, rfl, step⟩ := turn_cases boost fifo state behind calls
  · rw [step] at isRelay
    cases isRelay
  · rw [step] at isRelay
    cases isRelay
  · rw [step] at isRelay
    obtain rfl := Option.some.inj isRelay
    -- the packet that was taken is the one whose turn is intact
    obtain ⟨_, stepIntact, _, _, faithful⟩ := step_turn_of_intact fifo taken.connection queue intact
    obtain rfl := Option.some.inj (congrArg Prod.fst (step.symm.trans stepIntact))
    exact faithful

/-! ### Undisturbed runs -/

/-- What an undisturbed step does to the queue and with a packet. -/
structure Orderly (boost : PropertyTree Tree) (getNextPacket : GetNextPacket Connection)
    (queue : PacketQueue Connection) (event : CoreEvent Connection) : Prop where
  keeps : coreFifo.Keeps (machine boost getNextPacket) (.ok queue) event
  next : ∃ next, (machine boost getNextPacket).next (.ok queue) event = .ok next ∧
    next.queue.length = backlogAfter queue.queue.length event
  faithful : ∀ relay, (machine boost getNextPacket).output (.ok queue) event = some relay →
    Faithful boost relay

theorem orderly_of_undisturbed (fifo : IsFifo getNextPacket) {queue : PacketQueue Connection}
    {event : CoreEvent Connection} (undisturbed : Undisturbed boost (.ok queue) event) :
    Orderly boost getNextPacket queue event := by
  cases event with
  | read connection result =>
    refine ⟨keeps_read queue connection result, ⟨_, rfl, ?_⟩, nofun⟩
    rw [queue_afterRead, List.length_append]
    rfl
  | turn behind calls =>
    obtain ⟨queue⟩ := queue
    cases queue with
    | nil => exact ⟨rfl, ⟨_, rfl, rfl⟩, nofun⟩
    | cons front queue =>
      obtain ⟨connection, packet⟩ := front
      obtain ⟨relay, step, rfl, rfl, faithful⟩ :=
        step_turn_of_intact fifo connection queue undisturbed
      refine ⟨?_, ⟨⟨queue⟩, ?_, rfl⟩, ?_⟩
      · simp [Fifo.Keeps, Machine.output, Machine.next, step, coreFifo]
      · rw [Machine.next, step]
      · intro answer isAnswer
        rw [Machine.output, step] at isAnswer
        cases isAnswer
        exact faithful

/-- What undisturbed steps add up to. -/
theorem run_of_undisturbed (fifo : IsFifo getNextPacket) {queue : PacketQueue Connection}
    {events : List (CoreEvent Connection)}
    (along : (machine boost getNextPacket).Along (Undisturbed boost) (.ok queue) events) :
    (machine boost getNextPacket).Along (coreFifo.Keeps (machine boost getNextPacket)) (.ok queue)
        events ∧
      (∃ last, (machine boost getNextPacket).run (.ok queue) events = .ok last ∧
        last.queue.length = events.foldl backlogAfter queue.queue.length) ∧
      ∀ relay ∈ ((machine boost getNextPacket).outputs (.ok queue) events).reduceOption,
        Faithful boost relay := by
  induction events generalizing queue with
  | nil => exact ⟨trivial, ⟨queue, rfl, rfl⟩, nofun⟩
  | cons event events inductionHypothesis =>
    obtain ⟨undisturbed, alongRest⟩ := along
    have orderly : Orderly boost getNextPacket queue event := orderly_of_undisturbed fifo undisturbed
    obtain ⟨keeps, ⟨next, isNext, length⟩, faithful⟩ := orderly
    rw [isNext] at alongRest
    obtain ⟨restKeeps, ⟨last, isLast, lastLength⟩, restFaithful⟩ := inductionHypothesis alongRest
    rw [Machine.along_cons, Machine.run_cons, Machine.outputs_cons, List.foldl_cons, isNext]
    refine ⟨⟨keeps, restKeeps⟩, ⟨last, isLast, by rw [lastLength, length]⟩, ?_⟩
    intro relay member
    cases isOutput : (machine boost getNextPacket).output (.ok queue) event with
    | none =>
      rw [isOutput, List.reduceOption_cons_of_none] at member
      exact restFaithful relay member
    | some first =>
      rw [isOutput, List.reduceOption_cons_of_some] at member
      obtain rfl | later := List.mem_cons.mp member
      · exact faithful relay isOutput
      · exact restFaithful relay later

/-! ## Connections -/

variable [DecidableEq Connection]

/-- The packets that the reads of one connection push. -/
def packetsFrom (connection : Connection) (events : List (CoreEvent Connection)) :
    List TcpPacket :=
  ((coreFifo.allPushes events).filter fun pushed => pushed.1 = connection).map Prod.snd

/-- What the core passes on of the packets of one connection. -/
def forwardedFrom (connection : Connection) (relays : List (Relay Connection)) :
    List (List UInt8) :=
  (relays.filter fun relay => relay.connection = connection).filterMap Relay.forwarded

/-- Clients send the documents `sent`, and `events` reads all of their bytes, in reads of
    any length, and makes turns enough to look at every packet. -/
structure Traffic (boost : PropertyTree Tree) (sent : Connection → List (List UInt8))
    (events : List (CoreEvent Connection)) : Prop where
  commands : ∀ connection, ∀ document ∈ sent connection, isCommand boost document
  stream : ∀ connection, (packetsFrom connection events).flatten = (sent connection).flatten
  turnsEnough : events.foldl backlogAfter 0 = 0

/-- The core has passed on all that it should. -/
structure RelaysAll (boost : PropertyTree Tree) (getNextPacket : GetNextPacket Connection)
    (sent : Connection → List (List UInt8)) (events : List (CoreEvent Connection)) : Prop where
  goesOn : ∃ last, coreAfter boost getNextPacket events = .ok last
  takesReads : ∀ connection,
    ((relays boost getNextPacket events).filter fun relay => relay.connection = connection).map
      Relay.packet = packetsFrom connection events
  forwardsCommands : ∀ connection, forwardedFrom connection (relays boost getNextPacket events) =
    (packetsFrom connection events).filter (isCommand boost)
  forwardsDocuments_iff :
    (∀ connection, forwardedFrom connection (relays boost getNextPacket events) = sent connection) ↔
      ∀ connection, packetsFrom connection events = sent connection

/-- The core handles every read as a message. -/
structure RelaysReads (boost : PropertyTree Tree) (getNextPacket : GetNextPacket Connection)
    (sent : Connection → List (List UInt8)) (events : List (CoreEvent Connection)) : Prop where
  /-- No read of a connection is taken twice or before an earlier one, whatever lies behind
      the packets and whatever the system calls return. -/
  takesInOrder : ∀ connection,
    ((relays boost getNextPacket events).filter fun relay => relay.connection = connection).map
      Relay.packet <+: packetsFrom connection events
  /-- An intact turn does with its packet what it should, whatever the other turns do. -/
  forwardsIntact : ∀ before behind calls after relay,
    events = before ++ .turn behind calls :: after →
      (machine boost getNextPacket).output (coreAfter boost getNextPacket before)
          (.turn behind calls) = some relay →
        Intact boost relay.packet behind calls → Faithful boost relay
  /-- When all the turns are intact, no read is left. -/
  undisturbed : (machine boost getNextPacket).Along (Undisturbed boost) (.ok .new) events →
    RelaysAll boost getNextPacket sent events

omit [DecidableEq Connection] in
theorem allTakes_eq (outputs : List (Option (Relay Connection))) :
    coreFifo.allTakes outputs =
      outputs.reduceOption.map fun relay => (relay.connection, relay.packet) := by
  induction outputs with
  | nil => rfl
  | cons output outputs inductionHypothesis =>
    rw [Fifo.allTakes_cons, inductionHypothesis]
    cases output with
    | none => rfl
    | some relay => rfl

/-- Faithful relays pass on the commands among their packets. -/
theorem forwardedFrom_eq (connection : Connection) {relays : List (Relay Connection)}
    (faithful : ∀ relay ∈ relays, Faithful boost relay) :
    forwardedFrom connection relays =
      ((relays.filter fun relay => relay.connection = connection).map Relay.packet).filter
        (isCommand boost) := by
  rw [forwardedFrom, ← List.filterMap_eq_filter (p := isCommand boost), List.filterMap_map]
  apply List.filterMap_congr
  intro relay member
  rw [faithful relay (List.mem_of_mem_filter member)]
  rfl

theorem ne_nil_of_mem_packetsFrom {connection : Connection} {events : List (CoreEvent Connection)}
    {packet : TcpPacket} (member : packet ∈ packetsFrom connection events) : packet ≠ [] := by
  obtain ⟨pushed, isPushed, rfl⟩ := List.mem_map.mp member
  exact ne_nil_of_mem_pushes (List.mem_of_mem_filter isPushed)

/-- The packets of one connection, among all that are taken. -/
theorem map_packet_filter (connection : Connection) (relays : List (Relay Connection)) :
    (relays.filter fun relay => relay.connection = connection).map Relay.packet =
      ((relays.map fun relay => (relay.connection, relay.packet)).filter fun taken =>
        taken.1 = connection).map Prod.snd := by
  rw [List.filter_map, List.map_map]
  rfl

theorem taken_prefix (fifo : IsFifo getNextPacket) (connection : Connection)
    (events : List (CoreEvent Connection)) :
    ((relays boost getNextPacket events).filter fun relay => relay.connection = connection).map
      Relay.packet <+: packetsFrom connection events := by
  have inOrder : coreFifo.allTakes ((machine boost getNextPacket).outputs (.ok .new) events) <+:
      coreFifo.allPushes events :=
    Fifo.run_prefix (fun _ event ended => stops_of_ended ended event) (keeps_or_stops fifo)
      (.ok .new) events
  rw [allTakes_eq] at inOrder
  rw [map_packet_filter]
  exact (inOrder.filter _).map _

theorem relaysAll_of_undisturbed (fifo : IsFifo getNextPacket)
    {sent : Connection → List (List UInt8)} {events : List (CoreEvent Connection)}
    (traffic : Traffic boost sent events)
    (undisturbed : (machine boost getNextPacket).Along (Undisturbed boost) (.ok .new) events) :
    RelaysAll boost getNextPacket sent events := by
  obtain ⟨keeps, ⟨last, isLast, length⟩,
    (faithful : ∀ relay ∈ relays boost getNextPacket events, Faithful boost relay)⟩ :=
      run_of_undisturbed fifo undisturbed
  have allTaken : coreFifo.allPushes events =
      (relays boost getNextPacket events).map fun relay => (relay.connection, relay.packet) := by
    have law := Fifo.run keeps
    -- the turns were enough, so that nothing is left in the queue
    have empty : last.queue = [] := List.eq_nil_of_length_eq_zero (length.trans traffic.turnsEnough)
    have nothingLeft : coreFifo.queue (.ok last) = [] := empty
    rw [isLast, allTakes_eq, nothingLeft, List.append_nil] at law
    exact law
  have takesReads : ∀ connection,
      ((relays boost getNextPacket events).filter fun relay => relay.connection = connection).map
        Relay.packet = packetsFrom connection events := by
    intro connection
    rw [packetsFrom, allTaken, map_packet_filter]
  have forwardsCommands : ∀ connection,
      forwardedFrom connection (relays boost getNextPacket events) =
        (packetsFrom connection events).filter (isCommand boost) := by
    intro connection
    rw [forwardedFrom_eq connection faithful, takesReads]
  refine ⟨⟨last, isLast⟩, takesReads, forwardsCommands, ?_⟩
  constructor
  · intro forwardsDocuments connection
    have commands := (forwardsCommands connection).symm.trans (forwardsDocuments connection)
    -- the commands among the reads have all the bytes of the stream
    have sameBytes : ((packetsFrom connection events).filter (isCommand boost)).flatten =
        (packetsFrom connection events).flatten := by
      rw [commands, traffic.stream]
    rw [← commands, filter_eq_self_of_flatten (fun _ => ne_nil_of_mem_packetsFrom) sameBytes]
  · intro wholeReads connection
    rw [forwardsCommands, wholeReads]
    exact List.filter_eq_self.mpr (traffic.commands connection)

theorem reads_are_relayed (fifo : IsFifo getNextPacket) {sent : Connection → List (List UInt8)}
    {events : List (CoreEvent Connection)} (traffic : Traffic boost sent events) :
    RelaysReads boost getNextPacket sent events where
  takesInOrder connection := taken_prefix fifo connection events
  forwardsIntact _ _ _ _ _ _ isRelay intact := faithful_of_intact fifo isRelay intact
  undisturbed := relaysAll_of_undisturbed fifo traffic

omit [DecidableEq Connection] in
/-- With the guard of `get_next_packet` as it stands nothing is ever relayed. -/
theorem relays_getNextPacket (boost : PropertyTree Tree) (events : List (CoreEvent Connection)) :
    relays boost TcpListener.getNextPacket events = [] := by
  have silent : ∀ state event,
      (machine boost (TcpListener.getNextPacket : GetNextPacket Connection)).output state event =
        none := by
    intro state event
    cases state with
    | error fault => rfl
    | ok queue =>
      cases event with
      | read connection result => rfl
      | turn behind calls =>
        rw [Machine.output, machine]
        by_cases empty : queue.queue = []
        · simp [empty]
        · simp [empty, TcpListener.getNextPacket_of_ne_nil empty, throwRuntimeError]
  unfold relays
  generalize (Except.ok TcpListener.new : Cpp (PacketQueue Connection)) = state
  induction events generalizing state with
  | nil => rfl
  | cons event events inductionHypothesis =>
    rw [Machine.outputs_cons, silent, List.reduceOption_cons_of_none]
    exact inductionHypothesis _

end Relay

section

/-- A queue that is first in, first out. -/
def takeFirst {Connection : Type} : GetNextPacket Connection
  | ⟨[]⟩ => (undefinedBehaviour, ⟨[]⟩)
  | ⟨packet :: queue⟩ => (.ok packet, ⟨queue⟩)

theorem isFifo_takeFirst {Connection : Type} : IsFifo (takeFirst : GetNextPacket Connection) := by
  intro packet queue
  rfl

def bytesOf (text : String) : List UInt8 := text.toList.map fun ch => UInt8.ofNat ch.toNat

def sampleDocument : List UInt8 := bytesOf "\x7b\"component\":\"dhcp\"\x7d"

def otherDocument : List UInt8 := bytesOf "\x7b\"component\":\"dhcp\",\"object\":\"pool\"\x7d"

/-- `read_json` on the sample documents and on strings that are no documents. -/
def sampleBoost : PropertyTree Unit where
  readJson jsonStr := if jsonStr = sampleDocument ∨ jsonStr = otherDocument then some () else none
  getString _ path := if path = "component" then some "dhcp" else none

/-- A turn with a NUL right behind its packet. -/
def sampleTurn : CoreEvent Bool := .turn [0] ⟨3, 1, 0, 80⟩

/-- One client's documents come merged in one read, and one more by itself; the other
    client's first document comes in two reads, with turns in between. -/
def sampleEvents : List (CoreEvent Bool) :=
  [.read false (some ⟨sampleDocument ++ otherDocument, by decide +kernel⟩),
    .read true (some ⟨otherDocument.take 5, by decide +kernel⟩), sampleTurn,
    .read false (some ⟨otherDocument, by decide +kernel⟩), sampleTurn, sampleTurn,
    .read true (some ⟨otherDocument.drop 5, by decide +kernel⟩),
    .read true (some ⟨sampleDocument, by decide +kernel⟩), sampleTurn, sampleTurn]

def sampleSent : Bool → List (List UInt8)
  | false => [sampleDocument, otherDocument, otherDocument]
  | true => [otherDocument, sampleDocument]

theorem traffic_sampleEvents : Traffic sampleBoost sampleSent sampleEvents where
  commands := by decide +kernel
  stream := by decide +kernel
  turnsEnough := rfl

theorem intact_sampleTurn {packet : TcpPacket} (noNul : 0 ∉ packet)
    (short : (packet.length : ℤ) ≤ 80) : Intact sampleBoost packet [0] ⟨3, 1, 0, 80⟩ where
  noNul := noNul
  nulBehind := rfl
  delivers _ := ⟨by decide, by decide, by decide, short⟩

/-- Of the five documents the two that came by themselves are passed on. -/
theorem reads_are_relayed_sample :
    RelaysReads sampleBoost takeFirst sampleSent sampleEvents ∧
      (machine sampleBoost takeFirst).Along (Undisturbed sampleBoost) (.ok .new) sampleEvents ∧
      forwardedFrom false (relays sampleBoost takeFirst sampleEvents) = [otherDocument] ∧
      forwardedFrom true (relays sampleBoost takeFirst sampleEvents) = [sampleDocument] := by
  refine ⟨reads_are_relayed isFifo_takeFirst traffic_sampleEvents, ?_, by decide +kernel,
    by decide +kernel⟩
  refine ⟨trivial, trivial, ?_, trivial, ?_, ?_, trivial, trivial, ?_, ?_, trivial⟩
  all_goals exact intact_sampleTurn (by decide +kernel) (by decide +kernel)

/-- The document comes in two reads. -/
def splitRead : List (CoreEvent Bool) :=
  [.read true (some ⟨sampleDocument.take 5, by decide +kernel⟩),
    .read true (some ⟨sampleDocument.drop 5, by decide +kernel⟩), sampleTurn, sampleTurn]

/-- The document comes in one read, with more than a NUL behind it. -/
def unterminatedRead : List (CoreEvent Bool) :=
  [.read true (some ⟨sampleDocument, by decide +kernel⟩), .turn [125, 0] ⟨3, 1, 0, 80⟩]

def sentByOne : Bool → List (List UInt8)
  | false => []
  | true => [sampleDocument]

theorem traffic_splitRead : Traffic sampleBoost sentByOne splitRead where
  commands := by decide +kernel
  stream := by decide +kernel
  turnsEnough := rfl

theorem undisturbed_splitRead :
    (machine sampleBoost takeFirst).Along (Undisturbed sampleBoost) (.ok .new) splitRead := by
  refine ⟨trivial, trivial, ?_, ?_, trivial⟩
  all_goals exact intact_sampleTurn (by decide +kernel) (by decide +kernel)

theorem traffic_unterminatedRead : Traffic sampleBoost sentByOne unterminatedRead where
  commands := by decide +kernel
  stream := by decide +kernel
  turnsEnough := rfl

/-- Neither half of the document is a document.  The whole of it is parsed with a byte
    more than was received, and then it is none either. -/
theorem documents_not_relayed :
    IsFifo (takeFirst : GetNextPacket Bool) ∧
      (Traffic sampleBoost sentByOne splitRead ∧
        (machine sampleBoost takeFirst).Along (Undisturbed sampleBoost) (.ok .new) splitRead ∧
        forwardedFrom true (relays sampleBoost takeFirst splitRead) ≠ [sampleDocument]) ∧
      Traffic sampleBoost sentByOne unterminatedRead ∧
        (relays sampleBoost takeFirst unterminatedRead).map Relay.jsonStr ≠ [sampleDocument] ∧
        forwardedFrom true (relays sampleBoost takeFirst unterminatedRead) ≠ [sampleDocument] :=
  ⟨isFifo_takeFirst, ⟨traffic_splitRead, undisturbed_splitRead, by decide +kernel⟩,
    traffic_unterminatedRead, by decide +kernel, by decide +kernel⟩

end

end Klevret.Verified.Relay
