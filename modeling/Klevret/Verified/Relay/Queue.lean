import Klevret.Base.Fifo
import Klevret.Common.TcpListener

/-! # The packet queue and its guard

Pushes and questions keep the queue law (`keeps_of_ne_getNextPacket`).  The guard
of `get_next_packet` has the wrong polarity, so that every call of it goes wrong:
it throws when there is a packet and takes the front of an empty queue
(`queue_correct_iff`). -/

namespace Klevret.Verified.Relay

open Klevret.Base Klevret.Common
open TcpListener (ListenerCall ListenerReply)

variable {Thread Packet : Type}

/-- The queue of the listener, what a call pushes and what a reply hands out.  An
    undefined listener has no queue. -/
def listenerFifo :
    Fifo (Cpp (TcpListener Packet)) (ListenerCall Thread Packet) (Cpp (ListenerReply Packet))
      Packet where
  queue
    | .ok listener => listener.queue
    | .error _ => []
  pushes
    | .push _ packet => [packet]
    | .isEmpty => []
    | .getNextPacket => []
  takes
    | .ok (.packet packet) => [packet]
    | _ => []

/-- The listener after an interleaving of calls. -/
def listenerAfter (calls : List (ListenerCall Thread Packet)) : Cpp (TcpListener Packet) :=
  TcpListener.machine.run (.ok .new) calls

/-- The packets that an interleaving pushes, in the order of the pushes. -/
def pushed (calls : List (ListenerCall Thread Packet)) : List Packet :=
  listenerFifo.allPushes calls

/-- The packets that an interleaving gets back, in the order of the calls. -/
def returned (calls : List (ListenerCall Thread Packet)) : List Packet :=
  let fifo : Fifo _ (ListenerCall Thread Packet) _ _ := listenerFifo
  fifo.allTakes (TcpListener.machine.outputs (.ok .new) calls)

/-- What the reply to the next call is. -/
def replyAfter (calls : List (ListenerCall Thread Packet)) (call : ListenerCall Thread Packet) :
    Cpp (ListenerReply Packet) :=
  TcpListener.machine.output (listenerAfter calls) call

/-- The queue does its job in an interleaving of pushes with the calls of one consumer. -/
structure QueueCorrect (calls : List (ListenerCall Thread Packet)) : Prop where
  /-- The front of an empty queue is never taken, and every pushed packet has been
      returned once, in its turn, or is still to come. -/
  inOrder : ∃ listener, listenerAfter calls = .ok listener ∧
    pushed calls = returned calls ++ listener.queue
  throwsIffEmpty : ∀ before after listener, calls = before ++ .getNextPacket :: after →
    listenerAfter before = .ok listener →
      (Throws (replyAfter before .getNextPacket) ↔ listener.queue = [])
  /-- The consumer that was told of a packet gets one, whatever is pushed meanwhile. -/
  getsWhatIsThere : ∀ before between after,
    calls = before ++ .isEmpty :: between ++ .getNextPacket :: after →
      replyAfter before .isEmpty = .ok (.empty false) →
        (∀ call ∈ between, ∃ thread packet, call = .push thread packet) →
          ∃ packet, replyAfter (before ++ .isEmpty :: between) .getNextPacket = .ok (.packet packet)

/-! ## Steps -/

/-- Once undefined, always undefined. -/
theorem run_error (fault : Fault) (calls : List (ListenerCall Thread Packet)) :
    TcpListener.machine.run (.error fault) calls = .error fault := by
  induction calls with
  | nil => rfl
  | cons call calls inductionHypothesis => exact inductionHypothesis

/-- Pushes and questions move packets only to the back of the queue. -/
theorem keeps_of_ne_getNextPacket (listener : TcpListener Packet)
    {call : ListenerCall Thread Packet} (other : call ≠ .getNextPacket) :
    listenerFifo.Keeps TcpListener.machine (.ok listener) call ∧
      ∃ next, TcpListener.machine.next (.ok listener) call = .ok next := by
  cases call with
  | push thread packet => exact ⟨rfl, _, rfl⟩
  | isEmpty => exact ⟨List.append_nil _, _, rfl⟩
  | getNextPacket => exact absurd rfl other

/-- A call of `get_next_packet` throws with a packet in the queue, and is undefined without. -/
theorem replyAfter_getNextPacket {calls : List (ListenerCall Thread Packet)}
    {listener : TcpListener Packet} (running : listenerAfter calls = .ok listener) :
    replyAfter calls .getNextPacket =
      if listener.queue = [] then undefinedBehaviour else throwRuntimeError "Очередь пуста" := by
  rw [replyAfter, running]
  by_cases empty : listener.queue = []
  · rw [if_pos empty]
    simp only [Machine.output, TcpListener.machine, TcpListener.getNextPacket_of_nil empty]
    rfl
  · rw [if_neg empty]
    simp only [Machine.output, TcpListener.machine, TcpListener.getNextPacket_of_ne_nil empty]
    rfl

/-! ## Runs -/

theorem along_of_no_getNextPacket (listener : TcpListener Packet)
    {calls : List (ListenerCall Thread Packet)} (notAsked : .getNextPacket ∉ calls) :
    TcpListener.machine.Along (listenerFifo.Keeps TcpListener.machine) (.ok listener) calls ∧
      ∃ last, TcpListener.machine.run (.ok listener) calls = .ok last := by
  induction calls generalizing listener with
  | nil => exact ⟨trivial, listener, rfl⟩
  | cons call calls inductionHypothesis =>
    obtain ⟨notHead, notTail⟩ := not_or.mp (mt List.mem_cons.mpr notAsked)
    obtain ⟨keeps, next, isNext⟩ := keeps_of_ne_getNextPacket listener (Ne.symm notHead)
    obtain ⟨along, last, isLast⟩ := inductionHypothesis next notTail
    rw [Machine.along_cons, Machine.run_cons, isNext]
    exact ⟨⟨keeps, along⟩, last, isLast⟩

/-- The queue does its job exactly as long as no packet is asked for. -/
theorem queue_correct_iff (calls : List (ListenerCall Thread Packet)) :
    QueueCorrect calls ↔ .getNextPacket ∉ calls := by
  constructor
  · intro correct asked
    obtain ⟨before, after, split⟩ := List.append_of_mem asked
    obtain ⟨last, isLast, _⟩ := correct.inOrder
    cases running : listenerAfter before with
    | error fault =>
      -- an undefined listener would have stayed undefined to the end
      rw [split, listenerAfter, Machine.run_append, ← listenerAfter, running, run_error] at isLast
      cases isLast
    | ok listener =>
      have throws_iff := correct.throwsIffEmpty before after listener split running
      rw [replyAfter_getNextPacket running] at throws_iff
      by_cases empty : listener.queue = []
      · rw [if_pos empty] at throws_iff
        exact not_throws_undefinedBehaviour (throws_iff.mpr empty)
      · rw [if_neg empty] at throws_iff
        exact empty (throws_iff.mp (throws_runtimeError _))
  · intro notAsked
    have neverSplit : ∀ before after, calls ≠ before ++ .getNextPacket :: after := by
      intro before after split
      apply notAsked
      simp [split]
    obtain ⟨along, last, isLast⟩ := along_of_no_getNextPacket .new notAsked
    refine ⟨⟨last, isLast, ?_⟩, ?_, ?_⟩
    · have law := Fifo.run along
      rw [isLast] at law
      exact law
    · intro before after _ split
      exact absurd split (neverSplit before after)
    · intro before between after split
      exact absurd split (neverSplit _ after)

/-- One client pushes a packet; the consumer is told that there is one, and asks for it. -/
def pushThenGet : List (ListenerCall ℕ TcpPacket) := [.push 0 [123, 125], .isEmpty, .getNextPacket]

theorem packet_not_handed_out :
    TcpListener.machine.outputs (.ok .new) pushThenGet =
        [.ok .pushed, .ok (.empty false), throwRuntimeError "Очередь пуста"] ∧
      ¬ QueueCorrect pushThenGet := by
  refine ⟨rfl, ?_⟩
  intro correct
  obtain ⟨packet, gotIt⟩ := correct.getsWhatIsThere [.push 0 [123, 125]] [] [] rfl rfl nofun
  cases gotIt

end Klevret.Verified.Relay
