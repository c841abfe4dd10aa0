import Klevret.Verified.Pool.Leases

/-! # Reservations

A reservation keeps everybody else out for as long as it lasts
(`reservation_keeps_others_out`).  What it means to its own client depends on the
two reservation maps being inverse to each other, and they are so for as long as
no client gets a second reservation (`reservations_inverse_iff`). -/

namespace Klevret.Verified.Pool

open Klevret.Base Klevret.Dhcp

/-! ## Exclusion -/

section Exclusion

variable [Host] {pool : AddressPool} {ip : IPv4Address} {mac : MacAddress}

/-- The call is not an `unreserve_ip(ip)` that succeeds. -/
def NotUnreserved (ip : IPv4Address) (pool : AddressPool) (call : PoolCall) : Prop :=
  call = .unreserveIp ip → (pool.unreserveIp ip).1 ≠ .ok ()

/-- Only a successful `unreserve_ip` cancels in the ledger. -/
theorem event_ne_cancel {call : PoolCall} (kept : NotUnreserved ip pool call) :
    event pool call ≠ .cancel ip := by
  intro cancels
  cases call with
  | unreserveIp address =>
    cases result : (pool.unreserveIp address).1 with
    | ok _ =>
      simp only [event, result] at cancels
      cases cancels
      exact kept rfl result
    | error fault =>
      simp only [event, result] at cancels
      cases cancels
  | getAddress client =>
    simp only [event] at cancels
    split at cancels <;> cases cancels
  | reserveIp address client =>
    simp only [event] at cancels
    split at cancels <;> cases cancels
  | _ => cases cancels

theorem reserved_of_reserveIp (success : (pool.reserveIp ip mac).1 = .ok ()) :
    (pool.reserveIp ip mac).2.reservedIpAddresses[ip]? = some mac := by
  obtain ⟨_, _, _, result⟩ | ⟨_, what, result⟩ := reserveIp_cases pool ip mac
  · rw [result]
    exact (lookup_insert _ ip ip mac).trans (if_pos rfl)
  · rw [result] at success
    cases success

/-- While `ip` is reserved for `mac`, nobody else is given it. -/
theorem Consistent.reservation_exclusive (consistent : Consistent pool) {other : MacAddress}
    (reserved : pool.reservedIpAddresses[ip]? = some mac) {calls : List PoolCall}
    (kept : AddressPool.machine.Along (NotUnreserved ip) pool calls)
    (leased : ((AddressPool.machine.run pool calls).getAddress other).1 = .ok ip) :
    mac = other := by
  obtain ⟨consistentLast, run⟩ := run_simulated consistent calls
  have notCancelled : .cancel ip ∉ AddressPool.machine.trace event pool calls := by
    intro member
    obtain ⟨before, call, after, split, observed⟩ := Machine.mem_trace member
    have keptHere := (AddressPool.machine.along_iff_split _ _ _).mp kept before call after split
    exact event_ne_cancel keptHere observed.symm
  exact Ledger.reservation_exclusive reserved run notCancelled (lease_step consistentLast leased)

theorem reservation_keeps_others_out (startIp endIp : IPv4Address) (before between : List PoolCall)
    (ip : IPv4Address) (client other : MacAddress)
    (reserved : ((poolAfter startIp endIp before).reserveIp ip client).1 = .ok ())
    (notUnreservedBetween : AddressPool.machine.Along (NotUnreserved ip)
      (poolAfter startIp endIp (before ++ [.reserveIp ip client])) between)
    (different : other ≠ client) :
    ((poolAfter startIp endIp (before ++ .reserveIp ip client :: between)).getAddress other).1 ≠
      .ok ip := by
  intro leased
  have consistent := consistent_poolAfter startIp endIp before
  rw [poolAfter_append] at notUnreservedBetween leased
  exact different ((consistent.reserveIp ip client).reservation_exclusive
    (reserved_of_reserveIp reserved) notUnreservedBetween leased).symm

end Exclusion

section

attribute [local instance] littleEndianHost

/-- `B` had a lease before and is not moved to `X` by the exclusion of its own address. -/
theorem reservation_keeps_others_out_sample :
    ((poolAfter addressX addressY ([] ++ .reserveIp addressX clientA ::
      [.getAddress clientB, .excludeIp addressY, .unreserveIp addressY,
        .reserveIp addressX clientB])).getAddress clientB).1 ≠ .ok addressX := by
  apply reservation_keeps_others_out
  · decide +kernel
  · refine ⟨nofun, nofun, ?_, nofun, trivial⟩
    rintro ⟨⟩
  · decide

end

/-! ## When the two reservation maps are inverse -/

section Inverse

variable [Host] {pool next : AddressPool} {ip : IPv4Address} {mac : MacAddress}

/-- `_reserved_ip_addresses` and `_reserved_mac_addresses` are inverse to each
    other, every reserved address is the one its client will get, and
    `unreserve_ip` cancels no other reservation. -/
structure ReservationsSound (pool : AddressPool) : Prop where
  inverse : InverseMaps pool.reservedIpAddresses pool.reservedMacAddresses
  leased : ∀ (ip : IPv4Address) (mac : MacAddress), pool.reservedIpAddresses[ip]? = some mac →
    (pool.getAddress mac).1 = .ok ip
  independent : ∀ (ip other : IPv4Address) (mac : MacAddress), other ≠ ip →
    pool.reservedIpAddresses[other]? = some mac →
    (pool.unreserveIp ip).2.reservedIpAddresses[other]? = some mac ∧
      (pool.unreserveIp ip).2.reservedMacAddresses[mac]? = some other

/-- The call is not a `reserve_ip` that passes the tests of its address while its
    client has a reservation already. -/
def ReservesOnce (pool : AddressPool) (call : PoolCall) : Prop :=
  ∀ ip mac, call = .reserveIp ip mac → pool.isAddressIncluded ip → ¬ pool.isIpReserved ip →
    ¬ pool.isIpTaken ip → ¬ pool.isMacReserved mac

theorem inverse_reserveIp_iff (inverse : InverseMaps pool.reservedIpAddresses pool.reservedMacAddresses)
    (ip : IPv4Address) (mac : MacAddress) :
    InverseMaps (pool.reserveIp ip mac).2.reservedIpAddresses
        (pool.reserveIp ip mac).2.reservedMacAddresses ↔
      ReservesOnce pool (.reserveIp ip mac) := by
  obtain ⟨included, unreserved, untaken, result⟩ | ⟨refused, what, result⟩ :=
    reserveIp_cases pool ip mac
  · rw [result, inverse.insert_iff]
    · constructor
      · rintro notMoved _ _ ⟨⟩ _ _ _ reservedToo
        rw [isMacReserved_eq, Option.isSome_iff_exists] at reservedToo
        obtain ⟨other, reserved⟩ := reservedToo
        -- the other address of `mac` would be `ip`, which is not reserved
        have backed := (inverse other mac).mpr reserved
        rw [notMoved other reserved, unreserved] at backed
        cases backed
      · intro once other reserved
        refine absurd ?_ (once ip mac rfl included ?_ ?_)
        · rw [isMacReserved_eq, reserved, Option.isSome_some]
        · rw [isIpReserved_eq, unreserved]
          exact nofun
        · rw [isIpTaken_eq, untaken]
          exact nofun
    · intro other reserved
      rw [unreserved] at reserved
      cases reserved
  · rw [result]
    refine iff_of_true inverse ?_
    rintro _ _ ⟨⟩ included unreserved untaken
    exact absurd ⟨included, unreserved, untaken⟩ refused

theorem inverse_unreserveIp (inverse : InverseMaps pool.reservedIpAddresses pool.reservedMacAddresses)
    (ip : IPv4Address) :
    InverseMaps (pool.unreserveIp ip).2.reservedIpAddresses
      (pool.unreserveIp ip).2.reservedMacAddresses := by
  obtain ⟨owner, reserved, result⟩ | ⟨_, what, result⟩ := unreserveIp_cases pool ip
  · rw [result]
    exact inverse.erase reserved
  · rw [result]
    exact inverse

/-- With inverse maps the other two parts follow. -/
theorem ReservationsSound.of_inverse
    (inverse : InverseMaps pool.reservedIpAddresses pool.reservedMacAddresses) :
    ReservationsSound pool where
  inverse := inverse
  leased := by
    intro ip mac reserved
    rw [getAddress_of_reserved ((inverse ip mac).mp reserved)]
  independent := by
    intro ip other mac different reserved
    -- only the entry of `ip` is erased on the address side
    have otherStays : (pool.unreserveIp ip).2.reservedIpAddresses[other]? = some mac := by
      obtain ⟨owner, _, result⟩ | ⟨_, what, result⟩ := unreserveIp_cases pool ip
      · rw [result, lookup_erase, if_neg (Ne.symm different)]
        exact reserved
      · rw [result]
        exact reserved
    exact ⟨otherStays, (inverse_unreserveIp inverse ip other mac).mp otherStays⟩

theorem ReservationsSound.of_sameBooks (sound : ReservationsSound pool)
    (same : SameBooks pool next) : ReservationsSound next := by
  refine .of_inverse ?_
  rw [same.reservedIp, same.reservedMac]
  exact sound.inverse

theorem ReservationsSound.next_iff (sound : ReservationsSound pool) (consistent : Consistent pool)
    (call : PoolCall) :
    ReservationsSound (AddressPool.machine.next pool call) ↔ ReservesOnce pool call := by
  have inverse := sound.inverse
  cases call with
  | reserveIp ip mac =>
    have exactly := inverse_reserveIp_iff inverse ip mac
    constructor
    · intro soundNext
      exact exactly.mp soundNext.inverse
    · intro once
      exact .of_inverse (exactly.mpr once)
  | unreserveIp ip => exact iff_of_true (.of_inverse (inverse_unreserveIp inverse ip)) nofun
  | getAddress mac =>
    have onlyLeases := onlyLeasesDiffer_getAddress (consistent.uncached mac)
    refine iff_of_true (.of_inverse ?_) nofun
    show InverseMaps (pool.getAddress mac).2.reservedIpAddresses
      (pool.getAddress mac).2.reservedMacAddresses
    rw [onlyLeases.reservedIp, onlyLeases.reservedMac]
    exact inverse
  | _ => exact iff_of_true (sound.of_sameBooks (sameBooks_call nofun nofun nofun)) nofun

/-- The reservations are sound all along a run exactly when no client gets a
    second one in it. -/
theorem reservations_inverse_iff (startIp endIp : IPv4Address) (calls : List PoolCall) :
    (∀ before, before <+: calls → ReservationsSound (poolAfter startIp endIp before)) ↔
      AddressPool.machine.Along ReservesOnce (.new startIp endIp) calls := by
  refine Machine.prefixes_iff_along consistent_next ?_ (consistent_new startIp endIp) ?_ calls
  · intro state call consistent sound
    exact sound.next_iff consistent call
  · exact .of_inverse inverseMaps_empty

end Inverse

section

attribute [local instance] littleEndianHost

/-- `Y` replaces `X` on the MAC side, while `X` stays reserved for `A`. -/
theorem reservations_not_always_inverse :
    ¬ ReservationsSound (poolAfter addressX addressY
      [.reserveIp addressX clientA, .reserveIp addressY clientA]) := by
  intro sound
  have stillReserved : (poolAfter addressX addressY
      [.reserveIp addressX clientA,
        .reserveIp addressY clientA]).reservedIpAddresses[addressX]? = some clientA := by
    decide +kernel
  have replaced : (poolAfter addressX addressY
      [.reserveIp addressX clientA,
        .reserveIp addressY clientA]).reservedMacAddresses[clientA]? = some addressY := by
    decide +kernel
  have mirrored := (sound.inverse addressX clientA).mp stillReserved
  rw [replaced] at mirrored
  cases mirrored

end

end Klevret.Verified.Pool
