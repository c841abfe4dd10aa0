import Klevret.Verified.Pool.Consistency

/-! # Leases

`Holds pool mac ip` is the lease of one client: `get_address(mac)` returns `ip`
and will go on doing so.  The three results are that a lease is exclusive
(`no_address_leased_twice`), that it is sticky (`leases_are_sticky`), and exactly
when the two lease maps stay inverse to each other (`leases_inverse_iff`). -/

namespace Klevret.Verified.Pool

open Klevret.Base Klevret.Dhcp

/-! ## Sample clients and addresses -/

def addressX : IPv4Address := ⟨#v[192, 168, 1, 10]⟩

def addressY : IPv4Address := ⟨#v[192, 168, 1, 11]⟩

def clientA : MacAddress := ⟨#v[2, 0, 0, 0, 0, 10]⟩

def clientB : MacAddress := ⟨#v[2, 0, 0, 0, 0, 11]⟩

/-! ## Exclusive leases -/

section Exclusive

variable [Host] {pool : AddressPool} {ip : IPv4Address} {mac : MacAddress}

/-- No address is returned to two clients, whatever happens in between. -/
theorem Consistent.lease_exclusive (consistent : Consistent pool) {first second : MacAddress}
    (firstLease : (pool.getAddress first).1 = .ok ip) (between : List PoolCall)
    (secondLease : ((AddressPool.machine.run pool (.getAddress first :: between)).getAddress second).1 = .ok ip) :
    first = second := by
  obtain ⟨consistentLate, run⟩ := run_simulated (consistent.getAddress first) between
  exact Ledger.lease_exclusive (lease_step consistent firstLease) run
    (lease_step consistentLate secondLease)

/-- One address, one entry on the MAC side. -/
theorem Consistent.takenMac_injective (consistent : Consistent pool) {first second : MacAddress}
    (firstTaken : pool.takenMacAddresses[first]? = some ip)
    (secondTaken : pool.takenMacAddresses[second]? = some ip) : first = second := by
  have firstBacked := consistent.leaseBacked firstTaken
  have secondBacked := consistent.leaseBacked secondTaken
  exact Option.some.inj (firstBacked.symm.trans secondBacked)

theorem no_address_leased_twice (startIp endIp : IPv4Address) :
    (∀ (before between : List PoolCall) (first second : MacAddress) (ip : IPv4Address),
      ((poolAfter startIp endIp before).getAddress first).1 = .ok ip →
      ((poolAfter startIp endIp (before ++ .getAddress first :: between)).getAddress second).1 = .ok ip →
      first = second) ∧
    ∀ (calls : List PoolCall) (first second : MacAddress) (ip : IPv4Address),
      (poolAfter startIp endIp calls).takenMacAddresses[first]? = some ip →
      (poolAfter startIp endIp calls).takenMacAddresses[second]? = some ip →
      first = second := by
  constructor
  · intro before between first second ip firstLease secondLease
    rw [poolAfter_append] at secondLease
    exact (consistent_poolAfter startIp endIp before).lease_exclusive firstLease between secondLease
  · intro calls first second ip firstTaken secondTaken
    exact (consistent_poolAfter startIp endIp calls).takenMac_injective firstTaken secondTaken

end Exclusive

section

attribute [local instance] littleEndianHost

/-- `A` keeps `Y`, also after it is excluded. -/
theorem no_address_leased_twice_sample :
    ((poolAfter addressX addressY [.getAddress clientB]).getAddress clientA).1 = .ok addressY ∧
      ((poolAfter addressX addressY ([.getAddress clientB] ++ .getAddress clientA ::
        [.excludeIp addressY, .getAddress clientB])).getAddress clientA).1 = .ok addressY ∧
      clientA = clientA := by
  have firstLease :
      ((poolAfter addressX addressY [.getAddress clientB]).getAddress clientA).1 = .ok addressY := by
    decide +kernel
  have secondLease :
      ((poolAfter addressX addressY ([.getAddress clientB] ++ .getAddress clientA ::
        [.excludeIp addressY, .getAddress clientB])).getAddress clientA).1 = .ok addressY := by
    decide +kernel
  exact ⟨firstLease, secondLease,
    (no_address_leased_twice addressX addressY).1 _ _ _ _ _ firstLease secondLease⟩

end

/-! ## Sticky leases -/

section Sticky

variable [Host] {pool : AddressPool} {ip : IPv4Address} {mac : MacAddress}

/-- `mac` holds `ip`, and nothing else is reserved for it. -/
structure Holds (pool : AddressPool) (mac : MacAddress) (ip : IPv4Address) : Prop where
  taken : pool.takenMacAddresses[mac]? = some ip
  reserved : ∀ {other}, pool.reservedMacAddresses[mac]? = some other → other = ip

/-- The call is not a `reserve_ip` that names `mac` and succeeds. -/
def NotReservedFor (mac : MacAddress) (pool : AddressPool) (call : PoolCall) : Prop :=
  ∀ ip, call = .reserveIp ip mac → (pool.reserveIp ip mac).1 ≠ .ok ()

theorem take_takenMac (pool : AddressPool) (mac : MacAddress) (ip : IPv4Address) :
    (pool.take mac ip).takenMacAddresses[mac]? = some ip := by
  simp only [AddressPool.take, lookup_insert, if_true]

theorem take_takenMac_of_ne {other : MacAddress} (different : mac ≠ other) :
    (pool.take mac ip).takenMacAddresses[other]? = pool.takenMacAddresses[other]? := by
  simp only [AddressPool.take, lookup_insert, if_neg different]

/-- What `get_address` returns is held from then on. -/
theorem Consistent.holds_of_returned (consistent : Consistent pool)
    (returned : (pool.getAddress mac).1 = .ok ip) : Holds (pool.getAddress mac).2 mac ip := by
  obtain ⟨found, reserved, result⟩ | ⟨found, unreserved, taken, result⟩ |
      ⟨found, unreserved, _, _, result⟩ | ⟨_, _, _, result⟩ :=
    getAddress_cases (consistent.uncached mac)
  · rw [result] at returned ⊢
    cases returned
    refine ⟨take_takenMac pool mac ip, ?_⟩
    intro other reservedToo
    exact Option.some.inj (reservedToo.symm.trans reserved)
  · rw [result] at returned ⊢
    cases returned
    refine ⟨taken, ?_⟩
    intro other reserved
    rw [unreserved] at reserved
    cases reserved
  · rw [result] at returned ⊢
    cases returned
    refine ⟨take_takenMac pool mac ip, ?_⟩
    intro other reserved
    change pool.reservedMacAddresses[mac]? = some other at reserved
    rw [unreserved] at reserved
    cases reserved
  · rw [result] at returned
    cases returned

/-- A held address is returned again. -/
theorem Holds.returned (holds : Holds pool mac ip) : (pool.getAddress mac).1 = .ok ip := by
  cases reserved : pool.reservedMacAddresses[mac]? with
  | some other =>
    rw [getAddress_of_reserved reserved, holds.reserved reserved]
  | none =>
    rw [getAddress_of_taken reserved holds.taken]

theorem Holds.getAddress (holds : Holds pool mac ip) (consistent : Consistent pool)
    (client : MacAddress) : Holds (pool.getAddress client).2 mac ip := by
  by_cases same : client = mac
  · subst same
    exact consistent.holds_of_returned holds.returned
  obtain ⟨found, _, result⟩ | ⟨_, _, _, result⟩ | ⟨found, _, _, _, result⟩ | ⟨_, _, _, result⟩ :=
    getAddress_cases (consistent.uncached client)
  · rw [result]
    exact ⟨(take_takenMac_of_ne same).trans holds.taken, holds.reserved⟩
  · rw [result]
    exact holds
  · rw [result]
    exact ⟨(take_takenMac_of_ne same).trans holds.taken, holds.reserved⟩
  · rw [result]
    exact holds

theorem Holds.reserveIp (holds : Holds pool mac ip) {address : IPv4Address} {client : MacAddress}
    (notForMac : NotReservedFor mac pool (.reserveIp address client)) :
    Holds (pool.reserveIp address client).2 mac ip := by
  obtain ⟨_, _, _, result⟩ | ⟨_, what, result⟩ := reserveIp_cases pool address client
  · have different : client ≠ mac := by
      rintro rfl
      exact notForMac address rfl (by rw [result])
    rw [result]
    refine ⟨holds.taken, ?_⟩
    intro other reserved
    simp only [lookup_insert, if_neg different] at reserved
    exact holds.reserved reserved
  · rw [result]
    exact holds

theorem Holds.unreserveIp (holds : Holds pool mac ip) (address : IPv4Address) :
    Holds (pool.unreserveIp address).2 mac ip := by
  obtain ⟨owner, _, result⟩ | ⟨_, what, result⟩ := unreserveIp_cases pool address
  · rw [result]
    refine ⟨holds.taken, ?_⟩
    intro other kept
    simp only [lookup_erase] at kept
    split at kept
    next => cases kept
    next => exact holds.reserved kept
  · rw [result]
    exact holds

theorem Holds.of_sameBooks {next : AddressPool} (holds : Holds pool mac ip)
    (same : SameBooks pool next) : Holds next mac ip where
  taken := by rw [same.takenMac, holds.taken]
  reserved := by
    rw [same.reservedMac]
    exact holds.reserved

theorem Holds.next (holds : Holds pool mac ip) (consistent : Consistent pool) {call : PoolCall}
    (notForMac : NotReservedFor mac pool call) :
    Holds (AddressPool.machine.next pool call) mac ip := by
  cases call with
  | getAddress client => exact holds.getAddress consistent client
  | reserveIp address client => exact holds.reserveIp notForMac
  | unreserveIp address => exact holds.unreserveIp address
  | _ => exact holds.of_sameBooks (sameBooks_call nofun nofun nofun)

/-- A lease lasts until another address is reserved for its holder. -/
theorem Holds.run (holds : Holds pool mac ip) (consistent : Consistent pool)
    {calls : List PoolCall}
    (notForMac : AddressPool.machine.Along (NotReservedFor mac) pool calls) :
    Holds (AddressPool.machine.run pool calls) mac ip := by
  have kept : Consistent (AddressPool.machine.run pool calls) ∧
      Holds (AddressPool.machine.run pool calls) mac ip := by
    refine Machine.run_invariant_along (fun pool => Consistent pool ∧ Holds pool mac ip) ?_
      ⟨consistent, holds⟩ notForMac
    rintro state call ⟨consistentState, holdsState⟩ guarded
    exact ⟨consistent_next state call consistentState, holdsState.next consistentState guarded⟩
  exact kept.2

/-- The second call returns, and returns the same address. -/
theorem leases_are_sticky (startIp endIp : IPv4Address) (before between : List PoolCall)
    (mac : MacAddress) (ip : IPv4Address)
    (first : ((poolAfter startIp endIp before).getAddress mac).1 = .ok ip)
    (notReservedBetween : AddressPool.machine.Along (NotReservedFor mac)
      (poolAfter startIp endIp (before ++ [.getAddress mac])) between) :
    ((poolAfter startIp endIp (before ++ .getAddress mac :: between)).getAddress mac).1 = .ok ip := by
  have consistent := consistent_poolAfter startIp endIp before
  have heldAfterFirst := consistent.holds_of_returned first
  rw [poolAfter_append] at notReservedBetween ⊢
  exact (heldAfterFirst.run (consistent.getAddress mac) notReservedBetween).returned

end Sticky

section

attribute [local instance] littleEndianHost

/-- The lease outlives the reservation it came from. -/
theorem leases_are_sticky_sample :
    ((poolAfter addressX addressY ([.reserveIp addressY clientA] ++ .getAddress clientA ::
      [.unreserveIp addressY, .reserveIp addressX clientB])).getAddress clientA).1 = .ok addressY := by
  apply leases_are_sticky
  · decide +kernel
  · refine ⟨nofun, ?_, trivial⟩
    rintro _ ⟨⟩

end

/-! ## When the two lease maps are inverse -/

section Inverse

variable [Host] {pool : AddressPool} {ip : IPv4Address} {mac : MacAddress}

/-- `_taken_ip_addresses` and `_taken_mac_addresses` are inverse to each other. -/
def LeasesInverse (pool : AddressPool) : Prop :=
  InverseMaps pool.takenIpAddresses pool.takenMacAddresses

/-- The call is not a `get_address` of a client that holds one address while
    another is reserved for it. -/
def MovesNoLease (pool : AddressPool) (call : PoolCall) : Prop :=
  ∀ mac reserved held, call = .getAddress mac → pool.reservedMacAddresses[mac]? = some reserved →
    pool.takenMacAddresses[mac]? = some held → held = reserved

theorem LeasesInverse.take_iff (inverse : LeasesInverse pool)
    (available : ∀ {other}, pool.takenIpAddresses[ip]? = some other → other = mac) :
    LeasesInverse (pool.take mac ip) ↔
      ∀ held, pool.takenMacAddresses[mac]? = some held → held = ip :=
  inverse.insert_iff available

theorem movesNoLease_of_unreserved {mac : MacAddress}
    (unreserved : pool.reservedMacAddresses[mac]? = none) : MovesNoLease pool (.getAddress mac) := by
  intro client reserved held same isReserved _
  cases same
  rw [unreserved] at isReserved
  cases isReserved

/-- Only the reserved branch can break the inverse, by moving a lease. -/
theorem LeasesInverse.getAddress_iff (inverse : LeasesInverse pool) (consistent : Consistent pool)
    (mac : MacAddress) :
    LeasesInverse (pool.getAddress mac).2 ↔ MovesNoLease pool (.getAddress mac) := by
  obtain ⟨ip, reserved, result⟩ | ⟨ip, unreserved, _, result⟩ |
      ⟨ip, unreserved, untaken, free, result⟩ | ⟨unreserved, _, _, result⟩ :=
    getAddress_cases (consistent.uncached mac)
  -- the reserved branch, which takes the address whatever the client holds
  · rw [result, inverse.take_iff]
    · constructor
      · rintro notMoved _ other held ⟨⟩ reservedToo taken
        rw [notMoved held taken]
        exact Option.some.inj (reserved.symm.trans reservedToo)
      · intro notMoved held taken
        exact notMoved mac ip held rfl reserved taken
    · exact (consistent.available_of_reserved reserved).unheld
  · rw [result]
    exact iff_of_true inverse (movesNoLease_of_unreserved unreserved)
  · rw [result, inverse.take_iff]
    · refine iff_of_true ?_ (movesNoLease_of_unreserved unreserved)
      intro held taken
      rw [untaken] at taken
      cases taken
    · exact (available_of_free free).unheld
  · rw [result]
    exact iff_of_true inverse (movesNoLease_of_unreserved unreserved)

theorem LeasesInverse.of_sameLeases (inverse : LeasesInverse pool) {next : AddressPool}
    (same : next.takenIpAddresses = pool.takenIpAddresses ∧
      next.takenMacAddresses = pool.takenMacAddresses) : LeasesInverse next := by
  unfold LeasesInverse
  rw [same.1, same.2]
  exact inverse

theorem sameLeases_reserveIp (pool : AddressPool) (ip : IPv4Address) (mac : MacAddress) :
    (pool.reserveIp ip mac).2.takenIpAddresses = pool.takenIpAddresses ∧
      (pool.reserveIp ip mac).2.takenMacAddresses = pool.takenMacAddresses := by
  obtain ⟨_, _, _, result⟩ | ⟨_, what, result⟩ := reserveIp_cases pool ip mac
  · rw [result]
    exact ⟨rfl, rfl⟩
  · rw [result]
    exact ⟨rfl, rfl⟩

theorem sameLeases_unreserveIp (pool : AddressPool) (ip : IPv4Address) :
    (pool.unreserveIp ip).2.takenIpAddresses = pool.takenIpAddresses ∧
      (pool.unreserveIp ip).2.takenMacAddresses = pool.takenMacAddresses := by
  obtain ⟨_, _, result⟩ | ⟨_, what, result⟩ := unreserveIp_cases pool ip
  · rw [result]
    exact ⟨rfl, rfl⟩
  · rw [result]
    exact ⟨rfl, rfl⟩

theorem LeasesInverse.of_sameBooks (inverse : LeasesInverse pool) {next : AddressPool}
    (same : SameBooks pool next) : LeasesInverse next :=
  inverse.of_sameLeases ⟨same.takenIp, same.takenMac⟩

theorem LeasesInverse.next_iff (inverse : LeasesInverse pool) (consistent : Consistent pool)
    (call : PoolCall) :
    LeasesInverse (AddressPool.machine.next pool call) ↔ MovesNoLease pool call := by
  cases call with
  | getAddress mac => exact inverse.getAddress_iff consistent mac
  | reserveIp ip mac =>
    exact iff_of_true (inverse.of_sameLeases (sameLeases_reserveIp pool ip mac)) nofun
  | unreserveIp ip =>
    exact iff_of_true (inverse.of_sameLeases (sameLeases_unreserveIp pool ip)) nofun
  | _ => exact iff_of_true (inverse.of_sameBooks (sameBooks_call nofun nofun nofun)) nofun

/-- The lease maps are inverse all along a run exactly when no lease moves in it. -/
theorem leases_inverse_iff (startIp endIp : IPv4Address) (calls : List PoolCall) :
    (∀ before, before <+: calls → LeasesInverse (poolAfter startIp endIp before)) ↔
      AddressPool.machine.Along MovesNoLease (.new startIp endIp) calls := by
  refine Machine.prefixes_iff_along consistent_next ?_ (consistent_new startIp endIp) ?_ calls
  · intro state call consistent inverse
    exact inverse.next_iff consistent call
  · exact inverseMaps_empty

end Inverse

section

attribute [local instance] littleEndianHost

/-- After the reservation `A` moves to `Y`, and `X` stays marked as taken by it. -/
theorem leases_not_always_inverse :
    ¬ LeasesInverse (poolAfter addressX addressY
      [.getAddress clientA, .reserveIp addressY clientA, .getAddress clientA]) := by
  intro inverse
  have stillMarked : (poolAfter addressX addressY
      [.getAddress clientA, .reserveIp addressY clientA,
        .getAddress clientA]).takenIpAddresses[addressX]? = some clientA := by
    decide +kernel
  have moved : (poolAfter addressX addressY
      [.getAddress clientA, .reserveIp addressY clientA,
        .getAddress clientA]).takenMacAddresses[clientA]? = some addressY := by
    decide +kernel
  have held := (inverse addressX clientA).mp stillMarked
  rw [moved] at held
  cases held

end

end Klevret.Verified.Pool
