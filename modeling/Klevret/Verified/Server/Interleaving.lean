import Klevret.Dhcp.UdpListener
import Klevret.Verified.Server.Acknowledgements

/-! # The receiving thread and the loop

However the receptions fall between the steps of the loop, the program does what the loop alone
does with the datagrams that were received, in the order in which they were received
(`interleaving_sequential`).  In particular it never takes the front of an empty queue.  When
nothing comes any more, all that has come is handled (`mainLoop_catches_up`). -/

namespace Klevret.Verified.Server

open Klevret.Base Klevret.Dhcp Klevret.Verified.Pool PollingLoop

section

variable [host : Host]

/-- What `main` starts the loop with. -/
def mainStart : Cpp (Program UdpServer Server) := do
  let server ← Server.start
  return { queue := .new, phase := .asking, state := server }

theorem mainStart_eq : mainStart = .ok ⟨.new, .asking, ⟨startPool, ∅⟩⟩ := by
  rw [mainStart, start_eq]
  rfl

/-- The datagrams that come in, without the empty ones and cut to the size of the buffer. -/
def received (steps : List (Step UdpServer.Received SystemCalls)) : List (List UInt8) :=
  arrived (fun received => (UdpServer.datagramOf received).toList) steps

/-- Nobody has stopped the thread. -/
def Receiving (server : UdpServer) : Prop := server.stopFlag = false

theorem lawful_mainLoop :
    mainLoop.Lawful Receiving UdpServer.queue
      (fun received => (UdpServer.datagramOf received).toList) where
  arrive := by
    intro server received receiving
    have turn := UdpServer.threadTurn_of_receives receiving received
    refine ⟨?_, ?_⟩
    · exact (congrArg UdpServer.stopFlag turn).trans receiving
    · exact congrArg UdpServer.queue turn
  isEmpty := by
    intro server _
    cases nonempty : server.queue with
    | nil => simp [mainLoop, UdpServer.isInputQueueBlank, nonempty]
    | cons datagram queue => simp [mainLoop, UdpServer.isInputQueueBlank, nonempty]
  take := by
    intro server datagram queue receiving nonempty
    refine ⟨{ server with queue }, ?_, receiving, rfl⟩
    simp only [mainLoop, UdpServer.getNextDatagram, nonempty]

/-- An interleaving does what the loop does with `handled`. -/
structure Sequential (steps : List (Step UdpServer.Received SystemCalls))
    (handled : List Server.Input) : Prop where
  replies : (mainLoop.machine.outputs mainStart steps).reduceOption =
    (Server.machine.outputs Server.start handled).reduceOption
  inOrder : handled.map Server.Input.packet <+: received steps
  lastState : (mainLoop.machine.run mainStart steps).map Program.state = serverAfter handled
  /-- What is not handled yet is in the queue. -/
  waiting : ∀ program, mainLoop.machine.run mainStart steps = .ok program →
    received steps = handled.map Server.Input.packet ++ program.queue.queue

theorem ready_start : Ready Receiving UdpServer.queue
    (⟨.new, .asking, ⟨startPool, ∅⟩⟩ : Program UdpServer Server) := ⟨rfl, nofun⟩

theorem packets_input (taken : List (SystemCalls × List UInt8)) :
    (taken.map fun taken => mainLoop.input taken.1 taken.2).map Server.Input.packet =
      taken.map Prod.snd := by
  rw [List.map_map]
  rfl

theorem interleaving_sequential (steps : List (Step UdpServer.Received SystemCalls)) :
    ∃ handled, Sequential steps handled := by
  obtain ⟨taken, comes⟩ := run_sequential lawful_mainLoop _ ready_start steps
  rw [← mainStart_eq] at comes
  -- a datagram is handled with the system calls of the turn that takes it
  refine ⟨taken.map fun taken => mainLoop.input taken.1 taken.2, ?_, ?_, ?_, ?_⟩
  · rw [start_eq]
    exact comes.answers
  · rw [packets_input]
    exact comes.isPrefix
  · rw [serverAfter, start_eq]
    exact comes.lastState.symm
  · intro program running
    rw [packets_input]
    exact (comes.waiting program running).2

/-- When nothing comes any more, the loop handles what has come in two steps for each datagram,
    unless one of them ends it. -/
theorem mainLoop_catches_up (steps : List (Step UdpServer.Received SystemCalls))
    (calls : List SystemCalls) (enough : 2 * (received steps).length ≤ calls.length)
    (running : Returns (mainLoop.machine.run mainStart (steps ++ calls.map .turn))) :
    ∃ handled, handled.map Server.Input.packet = received steps ∧
      (mainLoop.machine.outputs mainStart (steps ++ calls.map .turn)).reduceOption =
        (Server.machine.outputs Server.start handled).reduceOption := by
  obtain ⟨last, running⟩ := running
  rw [mainStart_eq] at running ⊢
  obtain ⟨taken, allTaken, comes⟩ :=
    handles_all lawful_mainLoop ready_start steps enough running
  refine ⟨taken.map fun taken => mainLoop.input taken.1 taken.2, ?_, ?_⟩
  · rw [packets_input]
    exact allTaken
  · rw [start_eq]
    exact comes.answers

end

section

attribute [local instance] littleEndianHost

def sampleCalls : SystemCalls := (sampleInput .dhcpdiscover clientA).calls

/-- Two clients discover and one of them requests while the loop gets to two steps only. -/
def sampleSteps : List (Step UdpServer.Received SystemCalls) :=
  [.turn sampleCalls, .arrival (some (sampleInput .dhcpdiscover clientA).packet),
    .arrival (some (sampleInput .dhcpdiscover clientB).packet), .turn sampleCalls, .arrival none,
    .arrival (some (sampleInput .dhcprequest clientB).packet)]

theorem mainLoop_catches_up_sample :
    ∃ handled, handled.map Server.Input.packet =
        [(sampleInput .dhcpdiscover clientA).packet, (sampleInput .dhcpdiscover clientB).packet,
          (sampleInput .dhcprequest clientB).packet] ∧
      (mainLoop.machine.outputs mainStart
        (sampleSteps ++ (List.replicate 6 sampleCalls).map .turn)).reduceOption =
        (Server.machine.outputs Server.start handled).reduceOption := by
  have cameIn : received sampleSteps =
      [(sampleInput .dhcpdiscover clientA).packet, (sampleInput .dhcpdiscover clientB).packet,
        (sampleInput .dhcprequest clientB).packet] := by
    decide +kernel
  rw [← cameIn]
  apply mainLoop_catches_up
  · rw [cameIn]
    decide
  · decide +kernel

end

end Klevret.Verified.Server
