import Klevret.Verified.Pool.Consistency

/-! # The order in which addresses are given out

`get_address` prefers the reserved address of a client to the one it holds, and that to the
least free one (`Chosen`).  Nothing but the leases of the two parties changes, and nothing
at all when it throws (`getAddress_priority`). -/

namespace Klevret.Verified.Pool

open Klevret.Base Klevret.Dhcp
open Std (TreeSet)

variable [Host] {pool : AddressPool} {ip other : IPv4Address} {mac : MacAddress}

/-- An address that may be given to anybody. -/
structure Free (pool : AddressPool) (ip : IPv4Address) : Prop where
  included : pool.isAddressIncluded ip
  unreserved : pool.reservedIpAddresses[ip]? = none
  untaken : pool.takenIpAddresses[ip]? = none

/-- The address that `mac` should get. -/
inductive Chosen (pool : AddressPool) (mac : MacAddress) : IPv4Address → Prop where
  | reserved {ip : IPv4Address} (reserved : pool.reservedMacAddresses[mac]? = some ip) :
      Chosen pool mac ip
  | held {ip : IPv4Address} (unreserved : pool.reservedMacAddresses[mac]? = none)
      (held : pool.takenMacAddresses[mac]? = some ip) : Chosen pool mac ip
  | leastFree {ip : IPv4Address} (unreserved : pool.reservedMacAddresses[mac]? = none)
      (unheld : pool.takenMacAddresses[mac]? = none) (free : Free pool ip)
      (least : ∀ other, Free pool other →
        bigEndianValue ip.toNetworkData ≤ bigEndianValue other.toNetworkData) :
      Chosen pool mac ip

/-- The client has no claim on an address, and none is free. -/
structure NothingToGive (pool : AddressPool) (mac : MacAddress) : Prop where
  unreserved : pool.reservedMacAddresses[mac]? = none
  unheld : pool.takenMacAddresses[mac]? = none
  exhausted : ∀ ip, pool.isAddressIncluded ip → pool.isIpReserved ip ∨ pool.isIpTaken ip

/-- The two pools differ at most in the lease of `mac` and in that of `ip`. -/
structure DiffersAt (mac : MacAddress) (ip : IPv4Address) (pool next : AddressPool) : Prop where
  included : next.includedIpAddresses = pool.includedIpAddresses
  excluded : next.excludedIpAddresses = pool.excludedIpAddresses
  reservedIp : next.reservedIpAddresses = pool.reservedIpAddresses
  reservedMac : next.reservedMacAddresses = pool.reservedMacAddresses
  cache : next.cache = pool.cache
  options : next.options = pool.options
  takenMac : ∀ other, other ≠ mac → next.takenMacAddresses[other]? = pool.takenMacAddresses[other]?
  takenIp : ∀ other, other ≠ ip → next.takenIpAddresses[other]? = pool.takenIpAddresses[other]?

/-! ## The scan -/

theorem free_of_firstFree (found : pool.firstFree = some ip) : Free pool ip := by
  obtain ⟨included, unreserved, untaken⟩ := firstFree_spec found
  exact ⟨included, unreserved, untaken⟩

theorem cmp_isLE_iff : (IPv4Address.cmp ip other).isLE ↔
    bigEndianValue ip.toNetworkData ≤ bigEndianValue other.toNetworkData := by
  have ipNumber : ip.toUInt32.toNat = bigEndianValue ip.toNetworkData :=
    networkArrayToHostEndian_toNat ip.data
  have otherNumber : other.toUInt32.toNat = bigEndianValue other.toNetworkData :=
    networkArrayToHostEndian_toNat other.data
  rw [IPv4Address.cmp, comparing_eq_compare IPv4Address.less_eq, ipNumber, otherNumber]
  exact Nat.isLE_compare

/-- The scan finds the least free address. -/
theorem least_of_firstFree (found : pool.firstFree = some ip) (free : Free pool other) :
    bigEndianValue ip.toNetworkData ≤ bigEndianValue other.toNetworkData := by
  have member : other ∈ pool.includedIpAddresses :=
    TreeSet.mem_iff_contains.mpr free.included
  have sought : ¬ (pool.isIpReserved other ∨ pool.isIpTaken other) := by
    rw [isIpReserved_eq, isIpTaken_eq, free.unreserved, free.untaken]
    decide
  exact cmp_isLE_iff.mp (isLE_of_find?_toList found member (decide_eq_true sought))

theorem exhausted_of_firstFree (notFound : pool.firstFree = none)
    (included : pool.isAddressIncluded ip) : pool.isIpReserved ip ∨ pool.isIpTaken ip := by
  by_contra neither
  rw [not_or] at neither
  obtain ⟨found, isFound⟩ := exists_firstFree included neither.1 neither.2
  rw [notFound] at isFound
  cases isFound

/-! ## What one call does -/

theorem differsAt_take (pool : AddressPool) (mac : MacAddress) (ip : IPv4Address) :
    DiffersAt mac ip pool (pool.take mac ip) := by
  refine ⟨rfl, rfl, rfl, rfl, rfl, rfl, ?_, ?_⟩
  · intro other different
    rw [AddressPool.take, lookup_insert, if_neg (Ne.symm different)]
  · intro other different
    rw [AddressPool.take, lookup_insert, if_neg (Ne.symm different)]

theorem differsAt_self (pool : AddressPool) (mac : MacAddress) (ip : IPv4Address) :
    DiffersAt mac ip pool pool :=
  ⟨rfl, rfl, rfl, rfl, rfl, rfl, fun _ _ => rfl, fun _ _ => rfl⟩

/-- The chosen address is returned, or there is nothing to give. -/
theorem getAddress_outcome (uncached : pool.cache[mac]? = none) :
    (∃ ip, Chosen pool mac ip ∧ (pool.getAddress mac).1 = .ok ip ∧
      DiffersAt mac ip pool (pool.getAddress mac).2) ∨
    (NothingToGive pool mac ∧ Throws (pool.getAddress mac).1 ∧ (pool.getAddress mac).2 = pool) := by
  obtain ⟨ip, reserved, result⟩ | ⟨ip, unreserved, held, result⟩ |
    ⟨ip, unreserved, unheld, found, result⟩ | ⟨unreserved, unheld, notFound, result⟩ :=
    getAddress_cases uncached
  · -- the reserved address is written again at every call
    rw [result]
    exact Or.inl ⟨ip, .reserved reserved, rfl, differsAt_take pool mac ip⟩
  · rw [result]
    exact Or.inl ⟨ip, .held unreserved held, rfl, differsAt_self pool mac ip⟩
  · rw [result]
    have chosen : Chosen pool mac ip := .leastFree unreserved unheld (free_of_firstFree found)
      fun _ free => least_of_firstFree found free
    exact Or.inl ⟨ip, chosen, rfl, differsAt_take pool mac ip⟩
  · rw [result]
    have nothing : NothingToGive pool mac :=
      ⟨unreserved, unheld, fun _ included => exhausted_of_firstFree notFound included⟩
    exact Or.inr ⟨nothing, throws_runtimeError _, rfl⟩

omit [Host] in
theorem eq_of_bigEndianValue_toNetworkData
    (same : bigEndianValue ip.toNetworkData = bigEndianValue other.toNetworkData) : ip = other := by
  have sameLength : ip.toNetworkData.length = other.toNetworkData.length := by
    rw [ip.length_toNetworkData, other.length_toNetworkData]
  exact IPv4Address.ext (Vector.toList_inj.mp (eq_of_bigEndianValue_eq sameLength same))

/-- At most one address is chosen. -/
theorem Chosen.unique (chosen : Chosen pool mac ip) (chosen' : Chosen pool mac other) :
    ip = other := by
  cases chosen with
  | reserved reserved =>
    cases chosen' with
    | reserved reserved' => exact Option.some.inj (reserved.symm.trans reserved')
    | held unreserved _ | leastFree unreserved _ _ _ =>
      rw [unreserved] at reserved
      cases reserved
  | held unreserved held =>
    cases chosen' with
    | reserved reserved =>
      rw [unreserved] at reserved
      cases reserved
    | held _ held' => exact Option.some.inj (held.symm.trans held')
    | leastFree _ unheld _ _ =>
      rw [unheld] at held
      cases held
  | leastFree unreserved unheld free least =>
    cases chosen' with
    | reserved reserved =>
      rw [unreserved] at reserved
      cases reserved
    | held _ held =>
      rw [unheld] at held
      cases held
    | leastFree _ _ free' least' =>
      exact eq_of_bigEndianValue_toNetworkData (Nat.le_antisymm (least _ free') (least' _ free))

theorem NothingToGive.not_chosen (nothing : NothingToGive pool mac) : ¬ Chosen pool mac ip := by
  intro chosen
  cases chosen with
  | reserved reserved =>
    rw [nothing.unreserved] at reserved
    cases reserved
  | held _ held =>
    rw [nothing.unheld] at held
    cases held
  | leastFree _ _ free _ =>
    have occupied := nothing.exhausted ip free.included
    rw [isIpReserved_eq, isIpTaken_eq, free.unreserved, free.untaken] at occupied
    revert occupied
    decide

/-! ## Every reachable pool -/

/-- Everything that `get_address(mac)` returns, refuses and changes. -/
structure FollowsPriority (pool : AddressPool) (mac : MacAddress) : Prop where
  returns : ∀ ip, (pool.getAddress mac).1 = .ok ip ↔ Chosen pool mac ip
  throws : Throws (pool.getAddress mac).1 ↔ NothingToGive pool mac
  unchanged : Throws (pool.getAddress mac).1 → (pool.getAddress mac).2 = pool
  differsAt : ∀ ip, (pool.getAddress mac).1 = .ok ip →
    DiffersAt mac ip pool (pool.getAddress mac).2
  uncached : ¬ pool.isAddressCached mac

theorem followsPriority_of_uncached (uncached : pool.cache[mac]? = none) :
    FollowsPriority pool mac := by
  have notCached : ¬ pool.isAddressCached mac := by
    rw [isAddressCached_eq, uncached]
    exact Bool.false_ne_true
  obtain ⟨ip, chosen, returned, differs⟩ | ⟨nothing, throws, same⟩ := getAddress_outcome uncached
  · have notThrows : ¬ Throws (pool.getAddress mac).1 := by
      rw [returned]
      exact not_throws_ok ip
    refine ⟨?_, ?_, fun throws => absurd throws notThrows, ?_, notCached⟩
    · intro other
      rw [returned, Except.ok.injEq]
      constructor
      · rintro rfl
        exact chosen
      · exact chosen.unique
    · exact iff_of_false notThrows fun nothing => nothing.not_chosen chosen
    · intro other returnedToo
      rw [returned] at returnedToo
      cases returnedToo
      exact differs
  · have notReturned : ∀ ip, (pool.getAddress mac).1 ≠ .ok ip := by
      intro ip returned
      rw [returned] at throws
      exact not_throws_ok ip throws
    exact ⟨fun ip => iff_of_false (notReturned ip) nothing.not_chosen,
      iff_of_true throws nothing, fun _ => same,
      fun ip returned => absurd returned (notReturned ip), notCached⟩

theorem getAddress_priority (startIp endIp : IPv4Address) (calls : List PoolCall)
    (mac : MacAddress) : FollowsPriority (poolAfter startIp endIp calls) mac :=
  followsPriority_of_uncached ((consistent_poolAfter startIp endIp calls).uncached mac)

end Klevret.Verified.Pool
