import Klevret.Base.Simulation
import Klevret.Dhcp.Main
import Klevret.Verified.Server.Interfaces

/-! # The program never answers

`main` waits in `ApiServer::start` for a thread that has no end, and the loop that answers stands
behind it.  So in every schedule the datagrams pile up in the queue, and none of them is ever taken
from it (`never_serves`). -/

namespace Klevret.Verified.Server

open Klevret.Base Klevret.Common Klevret.Dhcp
open TcpListener (ReadResult packetOf)

/-! ## Starting -/

/-- `getifaddrs` succeeds and its list can be read. -/
structure Listable (calls : InterfaceCalls) : Prop where
  getifaddrs : calls.getifaddrs = 0
  readable : ∀ entry ∈ calls.ifaddrs, Readable entry

/-- No call of `_create_socket_and_listen` fails. -/
structure Listens (calls : ListenCalls) : Prop where
  socket : calls.socket ≠ -1
  setsockopt : calls.setsockopt ≠ -1
  inetPton : calls.inetPton ≠ -1
  bind : calls.bind ≠ -1
  listen : calls.listen ≠ -1

/-- Nothing in front of the loop fails. -/
structure Starts (calls : StartCalls) : Prop where
  interfaces : Listable calls.interfaces
  hostInterfaces : Listable calls.udpServer.hostInterfaces
  socket : calls.udpServer.socket ≠ -1
  bind : calls.udpServer.bind ≠ -1
  apiServer : Listens calls.apiServer

theorem returns_getAllInterfaces_iff [Host] (calls : InterfaceCalls) :
    Returns (getAllInterfaces calls) ↔ Listable calls := by
  by_cases succeeds : calls.getifaddrs = 0
  · rw [getAllInterfaces_eq calls succeeds]
    split
    next readable => exact iff_of_true (returns_ok _) ⟨succeeds, readable⟩
    next unreadable =>
      exact iff_of_false (not_returns_error _) fun listable => unreadable listable.readable
  · rw [getAllInterfaces, if_pos succeeds]
    exact iff_of_false (throws_runtimeError _).not_returns fun listable =>
      succeeds listable.getifaddrs

theorem returns_createSocketAndListen_iff (calls : ListenCalls) :
    Returns (createSocketAndListen calls).1 ↔ Listens calls := by
  unfold createSocketAndListen
  split
  next fails => exact iff_of_false (throws_runtimeError _).not_returns fun listens => listens.socket fails
  split
  next fails =>
    exact iff_of_false (throws_runtimeError _).not_returns fun listens => listens.setsockopt fails
  split
  next fails =>
    exact iff_of_false (throws_runtimeError _).not_returns fun listens => listens.inetPton fails
  split
  next fails => exact iff_of_false (throws_runtimeError _).not_returns fun listens => listens.bind fails
  split
  next fails =>
    exact iff_of_false (throws_runtimeError _).not_returns fun listens => listens.listen fails
  next socket setsockopt inetPton bind listen =>
    exact iff_of_true (returns_ok _) ⟨socket, setsockopt, inetPton, bind, listen⟩

/-- A computation whose rest does not depend on its value. -/
theorem returns_bind_iff {α β : Type} {computation : Cpp α} {continuation : α → Cpp β} {holds : Prop}
    (rest : ∀ value, Returns (continuation value) ↔ holds) :
    Returns (computation >>= continuation) ↔ Returns computation ∧ holds := by
  cases computation with
  | ok value => simp [rest value]
  | error fault => simp

section

variable [Host] {calls : StartCalls} {program : Program}

theorem returns_testDhcpMessage : Returns (DhcpMessage.ofData testDhcpMessageData) := by
  revert ‹Host›
  decide +kernel

theorem returns_construct_iff (calls : UdpServerCalls) :
    Returns (UdpServer.construct calls) ↔
      Listable calls.hostInterfaces ∧ calls.socket ≠ -1 ∧ calls.bind ≠ -1 := by
  rw [← returns_getAllInterfaces_iff]
  refine returns_bind_iff fun _ => ?_
  split
  next fails => exact iff_of_false (throws_runtimeError _).not_returns fun both => both.1 fails
  split
  next fails => exact iff_of_false (throws_runtimeError _).not_returns fun both => both.2 fails
  next socket bind => exact iff_of_true (returns_ok _) ⟨socket, bind⟩

/-- What `main` does in front of the loop, in one piece. -/
def startUp (calls : StartCalls) : Cpp Unit := do
  let _ ← getAllInterfaces calls.interfaces
  let _ ← DhcpMessage.ofData testDhcpMessageData
  let _ ← UdpServer.construct calls.udpServer
  let _ ← TcpServer.construct calls.apiServer
  return ()

theorem returns_startUp_iff (calls : StartCalls) : Returns (startUp calls) ↔ Starts calls := by
  have apiServer : ∀ udpListener : UdpServer,
      Returns (TcpServer.construct calls.apiServer >>= fun _ => (return () : Cpp Unit)) ↔
        Listens calls.apiServer := by
    intro _
    rw [← returns_createSocketAndListen_iff, TcpServer.construct]
    cases (createSocketAndListen calls.apiServer).1 with
    | ok socket => simp
    | error fault => simp
  have parts : Returns (startUp calls) ↔
      Returns (getAllInterfaces calls.interfaces) ∧
        Returns (DhcpMessage.ofData testDhcpMessageData) ∧
        Returns (UdpServer.construct calls.udpServer) ∧ Listens calls.apiServer :=
    returns_bind_iff fun _ => returns_bind_iff fun _ => returns_bind_iff apiServer
  rw [parts, returns_getAllInterfaces_iff, returns_construct_iff]
  refine ⟨?_, ?_⟩
  · rintro ⟨interfaces, _, ⟨hostInterfaces, socket, bind⟩, apiServer⟩
    exact ⟨interfaces, hostInterfaces, socket, bind, apiServer⟩
  · rintro ⟨interfaces, hostInterfaces, socket, bind, apiServer⟩
    exact ⟨interfaces, returns_testDhcpMessage, ⟨hostInterfaces, socket, bind⟩, apiServer⟩

/-! ## Stages -/

/-- Where the program can be. -/
inductive Stage (calls : StartCalls) : Program → Prop where
  | listing : Stage calls ⟨.listing, none, none⟩
  | constructing {ifaces : List NetworkInterface}
      (listed : getAllInterfaces calls.interfaces = .ok ifaces) :
      Stage calls ⟨.constructing, none, none⟩
  | startingApi {ifaces : List NetworkInterface} {constructed udpListener : UdpServer}
      (listed : getAllInterfaces calls.interfaces = .ok ifaces)
      (construct : UdpServer.construct calls.udpServer = .ok constructed)
      (receives : udpListener.stopFlag = false) :
      Stage calls ⟨.startingApi, some udpListener, none⟩
  | joining {udpListener : UdpServer} {tcpServer : TcpServer} (started : startUp calls = .ok ())
      (receives : udpListener.stopFlag = false) (runs : tcpServer.acceptor ≠ .finished) :
      Stage calls ⟨.joining, some udpListener, some tcpServer⟩
  | ended {fault : Fault} (failed : startUp calls = .error fault) (udpListener : Option UdpServer) :
      Stage calls ⟨.ended fault, udpListener, none⟩

/-- The datagrams that nobody has taken. -/
def waiting (program : Program) : List (List UInt8) :=
  (program.udpListener.map UdpServer.queue).getD []

/-- What a step brings in: a datagram that the thread of a program that lives has received. -/
def arriving (program : Program) : ProgramStep → List (List UInt8)
  | .receiver received =>
    match program.main, program.udpListener with
    | .ended _, _ => []
    | _, none => []
    | _, some _ => (UdpServer.datagramOf received).toList
  | _ => []

/-- How many steps `main` has in front of `join`. -/
def stagesLeft : MainState → ℕ
  | .listing => 3
  | .constructing => 2
  | .startingApi => 1
  | .joining | .looping _ _ | .ended _ => 0

omit [Host] in
def isMain : ProgramStep → Bool
  | .main _ => true
  | _ => false

/-- What every step does: it comes to a stage, sends nothing, takes nothing from the queue, and a
    step of `main` that does not fail leads on. -/
structure Piles (calls : StartCalls) (program : Program) (step : ProgramStep)
    (result : Option ProgramOutput × Program) : Prop where
  stage : Stage calls result.2
  unsent : ∀ reply, result.1 ≠ some (.sent reply)
  queue : waiting result.2 = waiting program ++ arriving program step
  progress : startUp calls = .ok () →
    stagesLeft result.2.main = stagesLeft program.main - (isMain step).toNat

theorem eq_new_of_construct {calls : UdpServerCalls} {udpListener : UdpServer}
    (construct : UdpServer.construct calls = .ok udpListener) : udpListener = UdpServer.new := by
  obtain ⟨_, _, rest⟩ := bind_eq_ok.mp construct
  split at rest
  next => cases rest
  split at rest
  next => cases rest
  next => exact (Except.ok.inj rest).symm

end

/-! ## One step -/

/-! ### The threads -/

theorem takeWhile_append_zero (bytes : List UInt8) :
    (bytes ++ [0]).takeWhile (· ≠ 0) = bytes.takeWhile (· ≠ 0) := by
  induction bytes with
  | nil => rfl
  | cons byte bytes inductionHypothesis =>
    rw [List.cons_append, List.takeWhile_cons, List.takeWhile_cons, inductionHypothesis]

/-- The zero behind the bytes ends what is printed. -/
theorem printReceived_eq (result : ReadResult) :
    TcpServer.printReceived result =
      .ok ((packetOf result).map fun bytes => .received (bytes.takeWhile (· ≠ 0))) := by
  unfold TcpServer.printReceived
  cases packetOf result with
  | none => rfl
  | some bytes =>
    have ends : 0 ∈ bytes ++ [0] := by simp
    simp only [cString, if_pos ends, ok_bind, takeWhile_append_zero, Option.map_some]
    rfl

theorem acceptorStep_runs {tcpServer : TcpServer} (runs : tcpServer.acceptor ≠ .finished)
    (accepted : Bool) : (tcpServer.acceptorStep accepted).2.acceptor ≠ .finished := by
  unfold TcpServer.acceptorStep
  split
  next => simp
  next => split <;> exact runs
  next => exact runs

theorem clientStep_returns (tcpServer : TcpServer) (index : ℕ) (result : ReadResult) :
    ∃ output clients, tcpServer.clientStep index result = (.ok output, { tcpServer with clients }) := by
  unfold TcpServer.clientStep
  split
  next => exact ⟨_, _, rfl⟩
  next => exact ⟨_, _, congrArg (·, tcpServer) (printReceived_eq result)⟩
  next => exact ⟨_, _, rfl⟩
  next => exact ⟨_, _, rfl⟩

section

variable [Host] {calls : StartCalls} {program : Program}

/-- A step that prints and brings nothing in. -/
theorem Piles.quiet {step : ProgramStep} {next : Program} (output : Option Printed)
    (stage : Stage calls next) (queue : waiting next = waiting program)
    (nothing : arriving program step = [])
    (progress : stagesLeft next.main = stagesLeft program.main - (isMain step).toNat) :
    Piles calls program step (output.map .printed, next) where
  stage
  unsent reply := by cases output <;> simp
  queue := by rw [queue, nothing, List.append_nil]
  progress _ := progress

/-- A step of `main` that fails. -/
theorem piles_fail {fault : Fault} (failed : startUp calls = .error fault) (sendCalls : SystemCalls)
    (main : MainState) (udpListener : Option UdpServer) :
    Piles calls ⟨main, udpListener, none⟩ (.main sendCalls)
      (Program.fail ⟨main, udpListener, none⟩ fault) where
  stage := .ended failed udpListener
  unsent _ := by simp [Program.fail]
  queue := (List.append_nil _).symm
  progress started := by
    rw [failed] at started
    cases started

theorem piles_mainStep (stage : Stage calls program) (sendCalls : SystemCalls) :
    Piles calls program (.main sendCalls) (program.mainStep calls sendCalls) := by
  obtain ⟨message, decoded⟩ := returns_testDhcpMessage
  cases stage with
  | listing =>
    cases listed : getAllInterfaces calls.interfaces with
    | error fault =>
      have failed : startUp calls = .error fault := by simp [startUp, listed]
      simp only [Program.mainStep, listed]
      exact piles_fail failed sendCalls _ _
    | ok ifaces =>
      simp only [Program.mainStep, listed, decoded]
      exact .quiet (some _) (.constructing listed) rfl rfl rfl
  | constructing listed =>
    cases construct : UdpServer.construct calls.udpServer with
    | error fault =>
      have failed : startUp calls = .error fault := by simp [startUp, listed, decoded, construct]
      simp only [Program.mainStep, construct]
      exact piles_fail failed sendCalls _ _
    | ok udpListener =>
      obtain rfl := eq_new_of_construct construct
      simp only [Program.mainStep, construct]
      exact .quiet (some _) (.startingApi listed construct rfl) rfl rfl rfl
  | @startingApi ifaces constructed udpListener listed construct receives =>
    cases api : TcpServer.construct calls.apiServer with
    | error fault =>
      have failed : startUp calls = .error fault := by
        simp [startUp, listed, decoded, construct, api]
      simp only [Program.mainStep, api]
      exact piles_fail failed sendCalls _ _
    | ok tcpServer =>
      have started : startUp calls = .ok () := by simp [startUp, listed, decoded, construct, api]
      obtain ⟨_, _, isNew⟩ := bind_eq_ok.mp api
      obtain rfl := Except.ok.inj isNew
      simp only [Program.mainStep, api]
      exact .quiet none (.joining started receives (by simp)) rfl rfl rfl
  | @joining udpListener tcpServer started receives runs =>
    -- `join` is still waiting
    have blocked : (some tcpServer).any TcpServer.isJoinable = false := by
      simp [TcpServer.isJoinable, runs]
    simp only [Program.mainStep, blocked]
    exact .quiet none (.joining started receives runs) rfl rfl rfl
  | ended failed udpListener => exact .quiet none (.ended failed udpListener) rfl rfl rfl

/-- The threads only do something when they are there. -/
theorem piles_step (stage : Stage calls program) (step : ProgramStep) :
    Piles calls program step ((Program.machine calls).step program step) := by
  -- a thread that is not there yet, or not any more, leaves the stage as it is
  have stays := stage
  cases step with
  | main sendCalls =>
    have piles := piles_mainStep stage sendCalls
    cases stage <;> exact piles
  | receiver received =>
    cases stage with
    | @startingApi ifaces constructed udpListener listed construct receives =>
      have turned := UdpServer.threadTurn_of_receives receives received
      have stillReceives := (congrArg UdpServer.stopFlag turned).trans receives
      exact ⟨.startingApi listed construct stillReceives,
        by simp [Program.machine, Program.threadStep], congrArg UdpServer.queue turned, fun _ => rfl⟩
    | @joining udpListener tcpServer started receives runs =>
      have turned := UdpServer.threadTurn_of_receives receives received
      have stillReceives := (congrArg UdpServer.stopFlag turned).trans receives
      exact ⟨.joining started stillReceives runs,
        by simp [Program.machine, Program.threadStep], congrArg UdpServer.queue turned, fun _ => rfl⟩
    | _ => exact .quiet none stays rfl rfl rfl
  | acceptor accepted =>
    cases stage with
    | joining started receives runs =>
      exact .quiet _ (.joining started receives (acceptorStep_runs runs accepted)) rfl rfl rfl
    | _ => exact .quiet none stays rfl rfl rfl
  | client index result =>
    cases stage with
    | @joining udpListener tcpServer started receives runs =>
      obtain ⟨output, clients, stepped⟩ := clientStep_returns tcpServer index result
      simp only [Program.machine, Program.threadStep, stepped]
      exact .quiet output (.joining started receives runs) rfl rfl rfl
    | _ => exact .quiet none stays rfl rfl rfl

/-! ## A run -/

/-- What every run does. -/
theorem piles_run (stage : Stage calls program) (steps : List ProgramStep) :
    Stage calls ((Program.machine calls).run program steps) ∧
      (∀ reply, some (.sent reply) ∉ (Program.machine calls).outputs program steps) ∧
      waiting ((Program.machine calls).run program steps) =
        waiting program ++ ((Program.machine calls).trace arriving program steps).flatten ∧
      (startUp calls = .ok () → stagesLeft ((Program.machine calls).run program steps).main =
        stagesLeft program.main - steps.countP isMain) := by
  induction steps generalizing program with
  | nil => exact ⟨stage, by simp, by simp [Machine.trace], fun _ => rfl⟩
  | cons step steps inductionHypothesis =>
    have first := piles_step stage step
    obtain ⟨lastStage, unsent, queue, progress⟩ := inductionHypothesis first.stage
    refine ⟨lastStage, ?_, ?_, ?_⟩
    · intro reply member
      obtain here | later := List.mem_cons.mp member
      · exact first.unsent reply here.symm
      · exact unsent reply later
    · rw [Machine.run_cons, Machine.trace, List.flatten_cons, ← List.append_assoc, ← first.queue]
      exact queue
    · intro started
      have counted : (step :: steps).countP isMain = steps.countP isMain + (isMain step).toNat := by
        rw [List.countP_cons]
        cases isMain step <;> rfl
      have firstProgress := first.progress started
      rw [Machine.run_cons, counted]
      refine (progress started).trans ?_
      omega

theorem Stage.not_looping (stage : Stage calls program) (phase : PollingLoop.Phase)
    (server : Server) : program.main ≠ .looping phase server := by
  cases stage <;> simp

/-- `main` is in `join` when nothing fails and nothing is left in front of it. -/
theorem Stage.joining_iff (stage : Stage calls program) :
    program.main = .joining ↔ startUp calls = .ok () ∧ stagesLeft program.main = 0 := by
  cases stage with
  | joining started receives runs => exact iff_of_true rfl ⟨started, rfl⟩
  | ended failed udpListener => simp [failed]
  | _ => simp [stagesLeft]

/-- Whatever the threads do, nobody is ever answered: `main` does not come to its loop, nothing is
    sent, and all datagrams that were received are still in the queue.  This is what happens when
    nothing fails: `main` comes to `join` in three steps, and stays. -/
theorem never_serves (calls : StartCalls) (steps : List ProgramStep) :
    let last := (Program.machine calls).run .start steps
    (∀ phase server, last.main ≠ .looping phase server) ∧
      (∀ reply, some (.sent reply) ∉ (Program.machine calls).outputs .start steps) ∧
      waiting last = ((Program.machine calls).trace arriving .start steps).flatten ∧
      (last.main = .joining ↔ Starts calls ∧ 3 ≤ steps.countP isMain) := by
  have atStart : Stage calls .start := .listing
  obtain ⟨stage, unsent, queue, progress⟩ := piles_run atStart steps
  refine ⟨stage.not_looping, unsent, queue, ?_⟩
  -- `main` is in `join` when its three steps are made and none of them has failed
  rw [stage.joining_iff, ← returns_startUp_iff]
  constructor
  · rintro ⟨started, noneLeft⟩
    have counted := progress started
    rw [noneLeft] at counted
    exact ⟨⟨(), started⟩, Nat.sub_eq_zero_iff_le.mp counted.symm⟩
  · rintro ⟨⟨_, started⟩, enough⟩
    refine ⟨started, ?_⟩
    rw [progress started]
    exact Nat.sub_eq_zero_of_le enough

end

end Klevret.Verified.Server
