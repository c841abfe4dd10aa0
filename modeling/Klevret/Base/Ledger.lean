import Klevret.Base.Simulation
import Mathlib.Logic.Function.Basic

/-! # Exclusive allocation

What an allocator of addresses is for: every address has at most one holder for
good, and a reserved address goes to nobody but the client it is reserved for.
A `Ledger` is the state of such an allocator, `Step` what it may do.  The two
laws are `lease_exclusive` and `reservation_exclusive`. -/

namespace Klevret.Base

variable {Address Client : Type*}

/-- Who holds each address, and for whom each address is reserved.  An address
    that is both held and reserved is so for one client. -/
structure Ledger (Address Client : Type*) where
  holder : Address → Option Client
  reservee : Address → Option Client
  agree : ∀ {address held reserved}, holder address = some held →
    reservee address = some reserved → held = reserved

namespace Ledger

inductive Event (Address Client : Type*) where
  | lease (address : Address) (client : Client)
  | reserve (address : Address) (client : Client)
  | cancel (address : Address)
  | silent

variable [DecidableEq Address]

/-- The steps of an allocator. -/
inductive Step :
    Ledger Address Client → Event Address Client → Ledger Address Client → Prop where
  | lease {before after : Ledger Address Client} {address : Address} {client : Client}
      (available : ∀ {other}, before.holder address = some other → other = client)
      (permitted : ∀ {other}, before.reservee address = some other → other = client)
      (held : after.holder = Function.update before.holder address (some client))
      (unchanged : after.reservee = before.reservee) :
      Step before (.lease address client) after
  | reserve {before after : Ledger Address Client} {address : Address} {client : Client}
      (unheld : before.holder address = none)
      (unreserved : before.reservee address = none)
      (unchanged : after.holder = before.holder)
      (reserved : after.reservee = Function.update before.reservee address (some client)) :
      Step before (.reserve address client) after
  | cancel {before after : Ledger Address Client} {address : Address}
      (unchanged : after.holder = before.holder)
      (cancelled : after.reservee = Function.update before.reservee address none) :
      Step before (.cancel address) after
  | silent {ledger : Ledger Address Client} : Step ledger .silent ledger

variable {before after : Ledger Address Client} {event : Event Address Client}
  {address : Address} {client other : Client}

/-- A holder stays one. -/
theorem Step.holder_persists (step : Step before event after)
    (held : before.holder address = some client) : after.holder address = some client := by
  cases step with
  | @lease _ leased newcomer available permitted leasedHolder unchanged =>
    rw [leasedHolder]
    -- leasing an address again can only be for its holder
    by_cases same : address = leased
    · subst same
      rw [Function.update_self, available held]
    · rw [Function.update_of_ne same, held]
  | reserve _ _ unchanged _ => rw [unchanged, held]
  | cancel unchanged _ => rw [unchanged, held]
  | silent => exact held

/-- A reservation lasts until it is cancelled. -/
theorem Step.reservee_persists (step : Step before event after) (kept : event ≠ .cancel address)
    (reserved : before.reservee address = some client) :
    after.reservee address = some client := by
  cases step with
  | lease _ _ _ unchanged => rw [unchanged, reserved]
  | @reserve _ newly newcomer _ unreserved _ reservedAfter =>
    -- only an unreserved address is newly reserved
    have different : address ≠ newly := by
      rintro rfl
      rw [unreserved] at reserved
      cases reserved
    rw [reservedAfter, Function.update_of_ne different, reserved]
  | @cancel _ freed _ cancelled =>
    have different : address ≠ freed := by
      rintro rfl
      exact kept rfl
    rw [cancelled, Function.update_of_ne different, reserved]
  | silent => exact reserved

theorem Step.lease_holder (step : Step before (.lease address client) after) :
    after.holder address = some client := by
  cases step with
  | lease _ _ held _ => rw [held, Function.update_self]

theorem Step.lease_available (step : Step before (.lease address client) after)
    (held : before.holder address = some other) : other = client := by
  cases step with
  | lease available _ _ _ => exact available held

theorem Step.lease_permitted (step : Step before (.lease address client) after)
    (reserved : before.reservee address = some other) : other = client := by
  cases step with
  | lease _ permitted _ _ => exact permitted reserved

/-- No address is leased to two clients. -/
theorem lease_exclusive {start middle late last : Ledger Address Client}
    {events : List (Event Address Client)}
    (firstLease : Step start (.lease address client) middle) (run : Steps Step middle events late)
    (secondLease : Step late (.lease address other) last) : client = other := by
  have stillHeld : late.holder address = some client :=
    run.keeps (fun ledger => ledger.holder address = some client) (fun _ => True)
      (fun step _ => step.holder_persists) (fun _ _ => trivial) firstLease.lease_holder
  exact secondLease.lease_available stillHeld

/-- A reserved address is leased to nobody else until the reservation is cancelled. -/
theorem reservation_exclusive {start late last : Ledger Address Client}
    {events : List (Event Address Client)}
    (reserved : start.reservee address = some client) (run : Steps Step start events late)
    (notCancelled : Event.cancel address ∉ events)
    (leased : Step late (.lease address other) last) : client = other := by
  have stillReserved : late.reservee address = some client :=
    run.keeps (fun ledger => ledger.reservee address = some client)
      (fun event => event ≠ .cancel address)
      (fun step kept => step.reservee_persists kept)
      (fun event member same => notCancelled (same ▸ member)) reserved
  exact leased.lease_permitted stillReserved

end Ledger

end Klevret.Base
