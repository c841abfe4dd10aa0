import Klevret.Base.Ledger
import Klevret.Verified.Pool.Steps

/-! # The pool keeps an exclusive ledger

`Consistent` is what every operation keeps.  The maps come in pairs, and each
operation keeps only one direction of each pair: an entry on the MAC side is
backed by the entry on the address side, while the address side may hold stale
entries.  That is enough to read the address sides as a `Ledger`
(`ledgerOf`), and every operation is a step of it (`call_simulated`). -/

namespace Klevret.Verified.Pool

open Klevret.Base Klevret.Dhcp

variable [Host] {pool next : AddressPool} {ip : IPv4Address} {mac : MacAddress}

structure Consistent (pool : AddressPool) : Prop where
  reservationBacked : ∀ {mac : MacAddress} {ip : IPv4Address},
    pool.reservedMacAddresses[mac]? = some ip → pool.reservedIpAddresses[ip]? = some mac
  leaseBacked : ∀ {mac : MacAddress} {ip : IPv4Address},
    pool.takenMacAddresses[mac]? = some ip → pool.takenIpAddresses[ip]? = some mac
  oneOwner : ∀ {ip : IPv4Address} {holder reservee : MacAddress},
    pool.takenIpAddresses[ip]? = some holder → pool.reservedIpAddresses[ip]? = some reservee → holder = reservee
  uncached : ∀ mac : MacAddress, pool.cache[mac]? = none

theorem consistent_new (startIp endIp : IPv4Address) : Consistent (.new startIp endIp) where
  reservationBacked := by simp [AddressPool.new]
  leaseBacked := by simp [AddressPool.new]
  oneOwner := by simp [AddressPool.new]
  uncached := by simp [AddressPool.new]

theorem Consistent.of_sameBooks (consistent : Consistent pool) (same : SameBooks pool next) :
    Consistent next where
  reservationBacked := by
    rw [same.reservedIp, same.reservedMac]
    exact consistent.reservationBacked
  leaseBacked := by
    rw [same.takenIp, same.takenMac]
    exact consistent.leaseBacked
  oneOwner := by
    rw [same.takenIp, same.reservedIp]
    exact consistent.oneOwner
  uncached := by
    rw [same.cache]
    exact consistent.uncached

/-- Nobody but `mac` holds `ip` or has it reserved. -/
structure AvailableTo (pool : AddressPool) (mac : MacAddress) (ip : IPv4Address) : Prop where
  unheld : ∀ {other}, pool.takenIpAddresses[ip]? = some other → other = mac
  permitted : ∀ {other}, pool.reservedIpAddresses[ip]? = some other → other = mac

/-- A reserved address is available to its reservee. -/
theorem Consistent.available_of_reserved (consistent : Consistent pool)
    (reserved : pool.reservedMacAddresses[mac]? = some ip) : AvailableTo pool mac ip := by
  have backed := consistent.reservationBacked reserved
  constructor
  · intro other held
    exact consistent.oneOwner held backed
  · intro other reservedFor
    rw [backed] at reservedFor
    exact (Option.some.inj reservedFor).symm

/-- A scanned address is available to anybody. -/
theorem available_of_free (free : pool.firstFree = some ip) : AvailableTo pool mac ip := by
  obtain ⟨_, unreserved, untaken⟩ := firstFree_spec free
  constructor
  · intro other held
    rw [untaken] at held
    cases held
  · intro other reservedFor
    rw [unreserved] at reservedFor
    cases reservedFor

/-- Leasing an address that is available. -/
theorem Consistent.take (consistent : Consistent pool) (available : AvailableTo pool mac ip) :
    Consistent (pool.take mac ip) where
  reservationBacked := consistent.reservationBacked
  leaseBacked := by
    intro holder held taken
    simp only [AddressPool.take, lookup_insert] at taken ⊢
    split at taken
    next same =>
      cases taken
      rw [if_pos rfl, same]
    next different =>
      have backed := consistent.leaseBacked taken
      split
      -- the other holder of `ip` would be `mac` itself
      next same =>
        subst same
        exact absurd (available.unheld backed).symm different
      next => exact backed
  oneOwner := by
    intro address holder reservee taken reserved
    simp only [AddressPool.take, lookup_insert] at taken
    split at taken
    next same =>
      subst same
      cases taken
      exact (available.permitted reserved).symm
    next => exact consistent.oneOwner taken reserved
  uncached := consistent.uncached

theorem Consistent.getAddress (consistent : Consistent pool) (mac : MacAddress) :
    Consistent (pool.getAddress mac).2 := by
  obtain ⟨ip, reserved, result⟩ | ⟨ip, _, _, result⟩ | ⟨ip, _, _, free, result⟩ | ⟨_, _, _, result⟩ :=
    getAddress_cases (consistent.uncached mac)
  · rw [result]
    exact consistent.take (consistent.available_of_reserved reserved)
  · rw [result]
    exact consistent
  · rw [result]
    exact consistent.take (available_of_free free)
  · rw [result]
    exact consistent

theorem Consistent.reserveIp (consistent : Consistent pool) (ip : IPv4Address)
    (mac : MacAddress) : Consistent (pool.reserveIp ip mac).2 := by
  obtain ⟨_, unreserved, untaken, result⟩ | ⟨_, what, result⟩ := reserveIp_cases pool ip mac
  · rw [result]
    refine ⟨?_, consistent.leaseBacked, ?_, consistent.uncached⟩
    · intro holder address reserved
      simp only [lookup_insert] at reserved ⊢
      split at reserved
      next same =>
        cases reserved
        rw [if_pos rfl, same]
      next =>
        have backed := consistent.reservationBacked reserved
        split
        next same =>
          subst same
          rw [unreserved] at backed
          cases backed
        next => exact backed
    · intro address holder reservee taken reserved
      simp only [lookup_insert] at reserved
      split at reserved
      next same =>
        subst same
        rw [untaken] at taken
        cases taken
      next => exact consistent.oneOwner taken reserved
  · rw [result]
    exact consistent

theorem Consistent.unreserveIp (consistent : Consistent pool) (ip : IPv4Address) :
    Consistent (pool.unreserveIp ip).2 := by
  obtain ⟨owner, reserved, result⟩ | ⟨_, what, result⟩ := unreserveIp_cases pool ip
  · rw [result]
    refine ⟨?_, consistent.leaseBacked, ?_, consistent.uncached⟩
    · intro holder address kept
      simp only [lookup_erase] at kept ⊢
      split at kept
      next => cases kept
      next different =>
        have backed := consistent.reservationBacked kept
        split
        next same =>
          subst same
          rw [reserved] at backed
          exact absurd (Option.some.inj backed) different
        next => exact backed
    · intro address holder reservee taken kept
      simp only [lookup_erase] at kept
      split at kept
      next => cases kept
      next => exact consistent.oneOwner taken kept
  · rw [result]
    exact consistent

/-- The calls that touch neither reservations nor leases. -/
theorem sameBooks_call {call : PoolCall} (notReserve : ∀ ip mac, call ≠ .reserveIp ip mac)
    (notUnreserve : ∀ ip, call ≠ .unreserveIp ip) (notGet : ∀ mac, call ≠ .getAddress mac) :
    SameBooks pool (AddressPool.machine.next pool call) := by
  cases call with
  | includeIp ip | excludeIp ip | releaseAddress ip => exact ⟨rfl, rfl, rfl, rfl, rfl⟩
  | setOption option | removeOption number => exact ⟨rfl, rfl, rfl, rfl, rfl⟩
  | includeIpRange ipStart ipEnd => exact sameBooks_includeIpRange pool ipStart ipEnd
  | excludeIpRange ipStart ipEnd => exact sameBooks_excludeIpRange pool ipStart ipEnd
  | reserveIp ip mac => exact absurd rfl (notReserve ip mac)
  | unreserveIp ip => exact absurd rfl (notUnreserve ip)
  | getAddress mac => exact absurd rfl (notGet mac)

theorem consistent_next (pool : AddressPool) (call : PoolCall) (consistent : Consistent pool) :
    Consistent (AddressPool.machine.next pool call) := by
  cases call with
  | reserveIp ip mac => exact consistent.reserveIp ip mac
  | unreserveIp ip => exact consistent.unreserveIp ip
  | getAddress mac => exact consistent.getAddress mac
  | _ => exact consistent.of_sameBooks (sameBooks_call nofun nofun nofun)

/-- The pool after `AddressPool(start_ip, end_ip)` and a history of calls. -/
def poolAfter (startIp endIp : IPv4Address) (calls : List PoolCall) : AddressPool :=
  AddressPool.machine.run (.new startIp endIp) calls

theorem poolAfter_append (startIp endIp : IPv4Address) (before after : List PoolCall) :
    poolAfter startIp endIp (before ++ after) =
      AddressPool.machine.run (poolAfter startIp endIp before) after :=
  AddressPool.machine.run_append _ before after

theorem consistent_poolAfter (startIp endIp : IPv4Address) (calls : List PoolCall) :
    Consistent (poolAfter startIp endIp calls) :=
  Machine.run_invariant consistent_next (consistent_new startIp endIp) calls

/-! ## The ledger of a pool -/

/-- The address sides of the lease and reservation maps. -/
def ledgerOf (pool : AddressPool) (consistent : Consistent pool) :
    Ledger IPv4Address MacAddress where
  holder ip := pool.takenIpAddresses[ip]?
  reservee ip := pool.reservedIpAddresses[ip]?
  agree := consistent.oneOwner

/-- What the call means for the ledger; a call that throws means nothing. -/
def event (pool : AddressPool) : PoolCall → Ledger.Event IPv4Address MacAddress
  | .getAddress mac =>
    match (pool.getAddress mac).1 with
    | .ok ip => .lease ip mac
    | .error _ => .silent
  | .reserveIp ip mac =>
    match (pool.reserveIp ip mac).1 with
    | .ok _ => .reserve ip mac
    | .error _ => .silent
  | .unreserveIp ip =>
    match (pool.unreserveIp ip).1 with
    | .ok _ => .cancel ip
    | .error _ => .silent
  | _ => .silent

def Represents (pool : AddressPool) (ledger : Ledger IPv4Address MacAddress) : Prop :=
  ∃ consistent : Consistent pool, ledger = ledgerOf pool consistent

theorem silent_step (consistent : Consistent pool) (consistentNext : Consistent next)
    (same : SameBooks pool next) :
    Ledger.Step (ledgerOf pool consistent) .silent (ledgerOf next consistentNext) := by
  have unchanged : ledgerOf next consistentNext = ledgerOf pool consistent := by
    simp only [ledgerOf, same.takenIp, same.reservedIp]
  rw [unchanged]
  exact .silent

theorem take_step (consistent : Consistent pool) (consistentNext : Consistent (pool.take mac ip))
    (available : AvailableTo pool mac ip) :
    Ledger.Step (ledgerOf pool consistent) (.lease ip mac) (ledgerOf (pool.take mac ip) consistentNext) := by
  refine .lease available.unheld available.permitted ?_ rfl
  funext address
  simp only [ledgerOf, AddressPool.take, lookup_insert, Function.update_apply, eq_comm]

theorem getAddress_step (consistent : Consistent pool)
    (consistentNext : Consistent (pool.getAddress mac).2) :
    Ledger.Step (ledgerOf pool consistent) (event pool (.getAddress mac))
      (ledgerOf (pool.getAddress mac).2 consistentNext) := by
  obtain ⟨ip, reserved, result⟩ | ⟨ip, _, taken, result⟩ | ⟨ip, _, _, free, result⟩ | ⟨_, _, _, result⟩ :=
    getAddress_cases (consistent.uncached mac)
  · simp only [event, result] at consistentNext ⊢
    exact take_step consistent consistentNext (consistent.available_of_reserved reserved)
  · simp only [event, result] at consistentNext ⊢
    have backed := consistent.leaseBacked taken
    refine .lease ?_ ?_ ?_ rfl
    · intro other held
      exact Option.some.inj (held.symm.trans backed)
    · intro other reservedFor
      exact (consistent.oneOwner backed reservedFor).symm
    -- the address is held already, so the ledger stays as it is
    · exact (Function.update_eq_self_iff.mpr backed.symm).symm
  · simp only [event, result] at consistentNext ⊢
    exact take_step consistent consistentNext (available_of_free free)
  · simp only [event, result, throwRuntimeError]
    exact .silent

theorem reserveIp_step (consistent : Consistent pool)
    (consistentNext : Consistent (pool.reserveIp ip mac).2) :
    Ledger.Step (ledgerOf pool consistent) (event pool (.reserveIp ip mac))
      (ledgerOf (pool.reserveIp ip mac).2 consistentNext) := by
  obtain ⟨_, unreserved, untaken, result⟩ | ⟨_, what, result⟩ := reserveIp_cases pool ip mac
  · simp only [event, result] at consistentNext ⊢
    refine .reserve untaken unreserved rfl ?_
    funext address
    simp only [ledgerOf, lookup_insert, Function.update_apply, eq_comm]
  · simp only [event, result, throwRuntimeError]
    exact .silent

theorem unreserveIp_step (consistent : Consistent pool)
    (consistentNext : Consistent (pool.unreserveIp ip).2) :
    Ledger.Step (ledgerOf pool consistent) (event pool (.unreserveIp ip))
      (ledgerOf (pool.unreserveIp ip).2 consistentNext) := by
  obtain ⟨owner, _, result⟩ | ⟨_, what, result⟩ := unreserveIp_cases pool ip
  · simp only [event, result] at consistentNext ⊢
    refine .cancel rfl ?_
    funext address
    simp only [ledgerOf, lookup_erase, Function.update_apply, eq_comm]
  · simp only [event, result, throwRuntimeError]
    exact .silent

/-- Every call is a step of the ledger. -/
theorem call_simulated (call : PoolCall) (consistent : Consistent pool)
    (consistentNext : Consistent (AddressPool.machine.next pool call)) :
    Ledger.Step (ledgerOf pool consistent) (event pool call)
      (ledgerOf (AddressPool.machine.next pool call) consistentNext) := by
  cases call with
  | getAddress mac => exact getAddress_step consistent consistentNext
  | reserveIp ip mac => exact reserveIp_step consistent consistentNext
  | unreserveIp ip => exact unreserveIp_step consistent consistentNext
  | _ => exact silent_step consistent consistentNext (sameBooks_call nofun nofun nofun)

/-- Every run of calls is a run of the ledger. -/
theorem run_simulated (consistent : Consistent pool) (calls : List PoolCall) :
    ∃ consistentLast : Consistent (AddressPool.machine.run pool calls),
      Steps Ledger.Step (ledgerOf pool consistent) (AddressPool.machine.trace event pool calls)
        (ledgerOf (AddressPool.machine.run pool calls) consistentLast) := by
  have stepSimulated : ∀ state call ledger, Consistent state → Represents state ledger →
      ∃ ledger', Ledger.Step ledger (event state call) ledger' ∧
        Represents (AddressPool.machine.next state call) ledger' := by
    rintro state call ledger _ ⟨consistentState, rfl⟩
    have consistentNext := consistent_next state call consistentState
    exact ⟨_, call_simulated call consistentState consistentNext, consistentNext, rfl⟩
  obtain ⟨_, steps, consistentLast, rfl⟩ :=
    Machine.run_simulated consistent_next stepSimulated consistent ⟨consistent, rfl⟩ calls
  exact ⟨consistentLast, steps⟩

/-- A returned address is leased in the ledger. -/
theorem lease_step (consistent : Consistent pool) (returned : (pool.getAddress mac).1 = .ok ip) :
    Ledger.Step (ledgerOf pool consistent) (.lease ip mac)
      (ledgerOf (pool.getAddress mac).2 (consistent.getAddress mac)) := by
  have step := getAddress_step consistent (consistent.getAddress mac)
  simpa only [event, returned] using step

end Klevret.Verified.Pool
