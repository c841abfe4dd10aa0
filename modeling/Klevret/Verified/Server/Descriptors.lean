import Klevret.Dhcp.SendTo

/-! # Who owns the descriptors that `send_to` closes

The first socket is closed by hand before the second is opened, and its guard closes the same
number once more.  By then the number is free or has gone to someone else, except on the way
out of a failed `setsockopt`: the second socket has no guard there, and may stand under the
number of the first (`closesItsOwn_iff`). -/

namespace Klevret.Verified.Server

open Klevret.Base Klevret.Dhcp UdpServer
open DescriptorTable (isSome_ownerOf_iterate_place isSome_ownerOf_of_lt lowestFree lowestFree_close
  ownerOf ownerOf_close ownerOf_iterate_place ownerOf_iterate_place_of_some ownerOf_lowestFree
  ownerOf_place)
open Sys (close exec othersOpen take)

/-! ## What is asked of `send_to` -/

/-- A process in which some numbers are in use, none of them by `send_to`. -/
def initialProcess (inUse : List Bool) : Process where
  table := inUse.map fun used => if used then some .otherThread else none
  opened := []
  closed := []

/-- Each socket that was opened was closed once, and nothing else was closed. -/
structure ClosesItsOwn (process : Process) : Prop where
  once : ∀ socket ∈ process.opened, process.closed.count (some (.sendTo socket)) = 1
  owned : ∀ found ∈ process.closed, ∃ socket, found = some (.sendTo socket)

/-- The function is left before its own `close`, or `setsockopt` fails on a second socket that
    has the number of the first, because no other thread opened a descriptor in between. -/
def LeavesInTime (opens : Interleaving) (calls : SystemCalls) : Prop :=
  calls.rawSocket = -1 ∨ calls.ioctlBroadcastAddress = -1 ∨ calls.ioctlInterfaceIndex = -1 ∨
    (calls.socketForSending ≠ -1 ∧ calls.setsockopt = -1 ∧ opens .socketForSending = 0)

variable {process : Process} {number count : ℕ} {socket : Socket} {opens : Interleaving}
  {calls : SystemCalls} {data : List UInt8}

/-! ## Numbers that are not owned -/

/-- A number under which there is no socket of `send_to`. -/
def Foreign (process : Process) (number : ℕ) : Prop :=
  ∀ socket, ownerOf process.table number ≠ some (.sendTo socket)

theorem foreign_othersOpen (foreign : Foreign process number) (count : ℕ) :
    Foreign (othersOpen count process) number := by
  intro socket isOwn
  rw [othersOpen] at isOwn
  obtain same | taken := ownerOf_iterate_place Opener.otherThread count
  · exact foreign socket (same.symm.trans isOwn)
  · cases taken.symm.trans isOwn

theorem foreign_close : Foreign (close number process) number := by
  intro socket isOwn
  simp [close, ownerOf_close] at isOwn

theorem foreign_close_of_foreign (foreign : Foreign process number) (closed : ℕ) :
    Foreign (close closed process) number := by
  intro socket isOwn
  rw [close, ownerOf_close] at isOwn
  split at isOwn
  next => cases isOwn
  next => exact foreign socket isOwn

theorem foreign_take (foreign : Foreign process number) (other : number ≠ lowestFree process.table)
    (socket : Socket) : Foreign (take socket process) number := by
  intro owner isOwn
  rw [take, ownerOf_place, if_neg other] at isOwn
  exact foreign owner isOwn

/-- A guard that closes such a number closes what is not its own. -/
theorem not_closesItsOwn_of_foreign (foreign : Foreign process number) :
    ¬ ClosesItsOwn (close number process) := by
  intro closesItsOwn
  obtain ⟨socket, isOwn⟩ := closesItsOwn.owned (ownerOf process.table number) (by simp [close])
  exact foreign socket isOwn

/-! ## The first socket -/

/-- `send_to` has the first socket under `number`, and the numbers below it are in use. -/
structure HasRawSocket (process : Process) (number : ℕ) : Prop where
  owned : ownerOf process.table number = some (.sendTo .rawSocket)
  below : ∀ lower < number, (ownerOf process.table lower).isSome
  opened : process.opened = [.rawSocket]
  closed : process.closed = []

theorem hasRawSocket_take (opened : process.opened = []) (closed : process.closed = []) :
    HasRawSocket (take .rawSocket process) (lowestFree process.table) := by
  constructor
  · simp [take, ownerOf_place]
  · intro lower isLower
    rw [take, ownerOf_place, if_neg (Nat.ne_of_lt isLower)]
    exact isSome_ownerOf_of_lt isLower
  · simp [take, opened]
  · exact closed

theorem HasRawSocket.othersOpen (has : HasRawSocket process number) (count : ℕ) :
    HasRawSocket (othersOpen count process) number where
  owned := ownerOf_iterate_place_of_some has.owned Opener.otherThread count
  below lower isLower := isSome_ownerOf_iterate_place (has.below lower isLower) _ count
  opened := has.opened
  closed := has.closed

/-- A first `close` is as it should be. -/
theorem HasRawSocket.closesItsOwn (has : HasRawSocket process number) :
    ClosesItsOwn (close number process) := by
  constructor
  · intro socket isOpened
    rw [close, has.opened, List.mem_singleton] at isOpened
    simp [close, has.closed, has.owned, isOpened]
  · intro found isFound
    rw [close, has.closed, has.owned] at isFound
    exact ⟨.rawSocket, by simpa using isFound⟩

/-! ## Where `send_to` stands -/

variable (opens) in
/-- In front of the first socket. -/
def opening (inUse : List Bool) : Process :=
  othersOpen (opens .rawSocket) (initialProcess inUse)

variable (opens) in
/-- The number of the first socket. -/
def rawNumber (inUse : List Bool) : ℕ := lowestFree (opening opens inUse).table

variable (opens) in
/-- In front of the `close` of the first socket. -/
def beforeClose (inUse : List Bool) : Process :=
  othersOpen (opens .ioctlInterfaceIndex)
    (othersOpen (opens .ioctlBroadcastAddress) (take .rawSocket (opening opens inUse)))

variable (opens) in
/-- In front of the second socket. -/
def reopening (inUse : List Bool) : Process :=
  othersOpen (opens .socketForSending)
    (close (rawNumber opens inUse) (othersOpen (opens .closeRawSocket) (beforeClose opens inUse)))

variable (opens) in
/-- In front of the test of `setsockopt`. -/
def reopened (inUse : List Bool) : Process :=
  othersOpen (opens .setsockopt) (take .socketForSending (reopening opens inUse))

variable {inUse : List Bool}

theorem hasRawSocket_opening :
    HasRawSocket (take .rawSocket (opening opens inUse)) (rawNumber opens inUse) :=
  hasRawSocket_take rfl rfl

theorem hasRawSocket_beforeClose :
    HasRawSocket (othersOpen (opens .closeRawSocket) (beforeClose opens inUse))
      (rawNumber opens inUse) :=
  ((hasRawSocket_opening.othersOpen _).othersOpen _).othersOpen _

theorem foreign_reopening : Foreign (reopening opens inUse) (rawNumber opens inUse) :=
  foreign_othersOpen foreign_close _

/-- The second socket gets the number of the first unless another thread was faster. -/
theorem lowestFree_reopening_iff :
    lowestFree (reopening opens inUse).table = rawNumber opens inUse ↔
      opens .socketForSending = 0 := by
  have next : lowestFree (close (rawNumber opens inUse)
      (othersOpen (opens .closeRawSocket) (beforeClose opens inUse))).table =
        rawNumber opens inUse := lowestFree_close hasRawSocket_beforeClose.below
  unfold reopening
  cases opens .socketForSending with
  | zero => exact iff_of_true next rfl
  | succ count =>
    apply iff_of_false _ (Nat.succ_ne_zero count)
    intro stillNext
    -- the first of the other threads has the number now
    have taken := ownerOf_place Opener.otherThread (close (rawNumber opens inUse)
      (othersOpen (opens .closeRawSocket) (beforeClose opens inUse))).table (rawNumber opens inUse)
    rw [if_pos next.symm] at taken
    have stays := ownerOf_iterate_place_of_some taken Opener.otherThread count
    have free := ownerOf_lowestFree (othersOpen (count + 1) (close (rawNumber opens inUse)
      (othersOpen (opens .closeRawSocket) (beforeClose opens inUse)))).table
    rw [stillNext] at free
    cases free.symm.trans stays

theorem foreign_reopened (other : opens .socketForSending ≠ 0) :
    Foreign (reopened opens inUse) (rawNumber opens inUse) := by
  apply foreign_othersOpen
  apply foreign_take foreign_reopening
  intro same
  exact other (lowestFree_reopening_iff.mp same.symm)

/-- Under the number of the first socket stands the second one, which is closed in its place. -/
theorem closesItsOwn_reopened (same : opens .socketForSending = 0) (count : ℕ) :
    ClosesItsOwn (close (rawNumber opens inUse) (othersOpen count (reopened opens inUse))) := by
  have has : HasRawSocket _ (rawNumber opens inUse) := hasRawSocket_beforeClose
  have second : ownerOf (take .socketForSending (reopening opens inUse)).table
      (rawNumber opens inUse) = some (.sendTo .socketForSending) := by
    rw [take, ownerOf_place, if_pos (lowestFree_reopening_iff.mpr same).symm]
  have stays := ownerOf_iterate_place_of_some
    (ownerOf_iterate_place_of_some second Opener.otherThread (opens .setsockopt))
    Opener.otherThread count
  have closed : (close (rawNumber opens inUse) (othersOpen count (reopened opens inUse))).closed =
      [some (.sendTo .rawSocket), some (.sendTo .socketForSending)] := by
    change (Process.closed _ ++ [ownerOf _ _]) ++ [ownerOf _ _] = _
    rw [has.closed, has.owned]
    exact congrArg (fun found => [some (Opener.sendTo .rawSocket), found]) stays
  constructor
  · intro socket _
    rw [closed]
    cases socket <;> rfl
  · intro found isFound
    rw [closed] at isFound
    simp only [List.mem_cons, List.not_mem_nil, or_false] at isFound
    obtain rfl | rfl := isFound
    · exact ⟨.rawSocket, rfl⟩
    · exact ⟨.socketForSending, rfl⟩

/-- Behind the guard of the second socket the number of the first is not owned. -/
theorem foreign_closed (count count' : ℕ) :
    Foreign (close (lowestFree (reopening opens inUse).table)
      (othersOpen count' (othersOpen count (reopened opens inUse)))) (rawNumber opens inUse) := by
  by_cases same : rawNumber opens inUse = lowestFree (reopening opens inUse).table
  · rw [same]
    exact foreign_close
  · apply foreign_close_of_foreign
    exact foreign_othersOpen (foreign_othersOpen
      (foreign_othersOpen (foreign_take foreign_reopening same _) _) _) _

/-! ## The ways out -/

section Exits

variable (raw : calls.rawSocket ≠ -1)

include raw

/-- A failed `ioctl` leaves the function while the first socket is its own. -/
theorem closesItsOwn_of_ioctl
    (ioctl : calls.ioctlBroadcastAddress = -1 ∨ calls.ioctlInterfaceIndex = -1) :
    ClosesItsOwn (exec (sendToIn opens calls data) (initialProcess inUse)).2 := by
  have has : HasRawSocket (take .rawSocket (opening opens inUse)) (rawNumber opens inUse) :=
    hasRawSocket_opening
  by_cases broadcast : calls.ioctlBroadcastAddress = -1
  · have atExit := ((has.othersOpen (opens .ioctlBroadcastAddress)).othersOpen
      (opens .deferRawSocket)).closesItsOwn
    simpa [sendToIn, raw, broadcast, throwRuntimeError, rawNumber, opening] using atExit
  · have index := ioctl.resolve_left broadcast
    have atExit := (((has.othersOpen (opens .ioctlBroadcastAddress)).othersOpen
      (opens .ioctlInterfaceIndex)).othersOpen (opens .deferRawSocket)).closesItsOwn
    simpa [sendToIn, raw, broadcast, index, throwRuntimeError, rawNumber, opening] using atExit

variable (broadcast : calls.ioctlBroadcastAddress ≠ -1) (index : calls.ioctlInterfaceIndex ≠ -1)

include broadcast index

theorem not_closesItsOwn_of_socketForSending (sending : calls.socketForSending = -1) :
    ¬ ClosesItsOwn (exec (sendToIn opens calls data) (initialProcess inUse)).2 := by
  have left : (exec (sendToIn opens calls data) (initialProcess inUse)).2 =
      close (rawNumber opens inUse)
        (othersOpen (opens .deferRawSocket) (reopening opens inUse)) := by
    simp [sendToIn, raw, broadcast, index, sending, throwRuntimeError, reopening, beforeClose,
      rawNumber, opening]
  rw [left]
  exact not_closesItsOwn_of_foreign (foreign_othersOpen foreign_reopening _)

variable (sending : calls.socketForSending ≠ -1)

include sending

/-- The second socket has no guard yet when `setsockopt` fails. -/
theorem closesItsOwn_iff_of_setsockopt (option : calls.setsockopt = -1) :
    ClosesItsOwn (exec (sendToIn opens calls data) (initialProcess inUse)).2 ↔
      opens .socketForSending = 0 := by
  have left : (exec (sendToIn opens calls data) (initialProcess inUse)).2 =
      close (rawNumber opens inUse) (othersOpen (opens .deferRawSocket) (reopened opens inUse)) := by
    simp [sendToIn, raw, broadcast, index, sending, option, throwRuntimeError, reopened, reopening,
      beforeClose, rawNumber, opening]
  rw [left]
  constructor
  · intro closesItsOwn
    by_contra other
    exact not_closesItsOwn_of_foreign (foreign_othersOpen (foreign_reopened other) _) closesItsOwn
  · intro same
    exact closesItsOwn_reopened same _

/-- From there on both guards run, that of the first socket last. -/
theorem not_closesItsOwn_of_setsockopt (option : calls.setsockopt ≠ -1) :
    ¬ ClosesItsOwn (exec (sendToIn opens calls data) (initialProcess inUse)).2 := by
  have left : (exec (sendToIn opens calls data) (initialProcess inUse)).2 =
      close (rawNumber opens inUse) (othersOpen (opens .deferRawSocket)
        (close (lowestFree (reopening opens inUse).table) (othersOpen (opens .deferSocketForSending)
          (othersOpen (opens .sendto) (reopened opens inUse))))) := by
    by_cases sent : calls.sent ≤ 0
    · simp [sendToIn, raw, broadcast, index, sending, option, sent, throwRuntimeError, reopened,
        reopening, beforeClose, rawNumber, opening]
    · simp [sendToIn, raw, broadcast, index, sending, option, sent, reopened, reopening,
        beforeClose, rawNumber, opening]
  rw [left]
  exact not_closesItsOwn_of_foreign (foreign_othersOpen (foreign_closed _ _) _)

end Exits

/-- Descriptors are closed as they should be exactly on the ways out that leave in time. -/
theorem closesItsOwn_iff (inUse : List Bool) (opens : Interleaving) (calls : SystemCalls)
    (data : List UInt8) :
    ClosesItsOwn (exec (sendToIn opens calls data) (initialProcess inUse)).2 ↔
      LeavesInTime opens calls := by
  unfold LeavesInTime
  by_cases raw : calls.rawSocket = -1
  · apply iff_of_true _ (Or.inl raw)
    have left : (exec (sendToIn opens calls data) (initialProcess inUse)).2 = opening opens inUse := by
      simp [sendToIn, raw, throwRuntimeError, opening]
    rw [left]
    exact ⟨List.forall_mem_nil _, List.forall_mem_nil _⟩
  by_cases ioctl : calls.ioctlBroadcastAddress = -1 ∨ calls.ioctlInterfaceIndex = -1
  · exact iff_of_true (closesItsOwn_of_ioctl raw ioctl) (by tauto)
  obtain ⟨broadcast, index⟩ := not_or.mp ioctl
  by_cases sending : calls.socketForSending = -1
  · exact iff_of_false (not_closesItsOwn_of_socketForSending raw broadcast index sending) (by tauto)
  by_cases option : calls.setsockopt = -1
  · rw [closesItsOwn_iff_of_setsockopt raw broadcast index sending option]
    tauto
  · exact iff_of_false (not_closesItsOwn_of_setsockopt raw broadcast index sending option) (by tauto)

/-- All goes well, and the number of the first socket is closed twice. -/
theorem not_closesItsOwn_of_success :
    ¬ ClosesItsOwn (exec (sendToIn (fun _ => 0) ⟨3, 0, ⟨#v[192, 168, 1, 255]⟩, 0, 3, 0, 300⟩
      (List.replicate 300 0)) (initialProcess [true, true, true])).2 := by
  intro closesItsOwn
  obtain ⟨socket, isOwn⟩ := closesItsOwn.owned none (by decide)
  cases isOwn

end Klevret.Verified.Server
