import Klevret.Dhcp.AddressPool

/-! # What one pool operation does

Every operation is described once: `getAddress_cases`, `reserveIp_cases` and
`unreserveIp_cases` say what it returns and which pool it leaves behind, and
`SameBooks` is what the other operations keep: the reservations, the leases and
the cache.  No later proof unfolds an operation. -/

namespace Klevret.Verified.Pool

open Klevret.Base Klevret.Dhcp
open Std (TreeMap TreeSet LawfulEqCmp)

variable [Host] {pool next : AddressPool} {ip : IPv4Address} {mac : MacAddress}

/-! ## The books -/

/-- The two pools have the same reservations, leases and cache. -/
structure SameBooks (pool next : AddressPool) : Prop where
  reservedIp : next.reservedIpAddresses = pool.reservedIpAddresses
  reservedMac : next.reservedMacAddresses = pool.reservedMacAddresses
  takenIp : next.takenIpAddresses = pool.takenIpAddresses
  takenMac : next.takenMacAddresses = pool.takenMacAddresses
  cache : next.cache = pool.cache

theorem SameBooks.refl (pool : AddressPool) : SameBooks pool pool := ⟨rfl, rfl, rfl, rfl, rfl⟩

theorem SameBooks.trans {last : AddressPool} (first : SameBooks pool next)
    (second : SameBooks next last) : SameBooks pool last where
  reservedIp := second.reservedIp.trans first.reservedIp
  reservedMac := second.reservedMac.trans first.reservedMac
  takenIp := second.takenIp.trans first.takenIp
  takenMac := second.takenMac.trans first.takenMac
  cache := second.cache.trans first.cache

/-- What one visit keeps the whole walk keeps. -/
theorem forEachAddress_keeps {State : Type} {visit : State → IPv4Address → State}
    {Kept : State → Prop} (visitKeeps : ∀ state ip, Kept state → Kept (visit state ip))
    (state : State) (current last : IPv4Address) (atStart : Kept state) :
    Kept (forEachAddress visit state current last) := by
  induction state, current using forEachAddress.induct visit last with
  | case1 state =>
    rw [forEachAddress, if_pos rfl]
    exact visitKeeps state last atStart
  | case2 state current notLast inductionHypothesis =>
    rw [forEachAddress, if_neg notLast]
    exact inductionHypothesis (visitKeeps state current atStart)

theorem sameBooks_includeIpRange (pool : AddressPool) (ipStart ipEnd : IPv4Address) :
    SameBooks pool (pool.includeIpRange ipStart ipEnd) :=
  forEachAddress_keeps (fun _ _ same => same.trans ⟨rfl, rfl, rfl, rfl, rfl⟩) pool ipStart ipEnd
    (.refl pool)

theorem sameBooks_excludeIpRange (pool : AddressPool) (ipStart ipEnd : IPv4Address) :
    SameBooks pool (pool.excludeIpRange ipStart ipEnd) :=
  forEachAddress_keeps (fun _ _ same => same.trans ⟨rfl, rfl, rfl, rfl, rfl⟩) pool ipStart ipEnd
    (.refl pool)

/-! ## Queries as lookups -/

@[simp] theorem isIpTaken_eq : pool.isIpTaken ip = pool.takenIpAddresses[ip]?.isSome :=
  TreeMap.contains_eq_isSome_getElem?

@[simp] theorem isMacTaken_eq : pool.isMacTaken mac = pool.takenMacAddresses[mac]?.isSome :=
  TreeMap.contains_eq_isSome_getElem?

@[simp] theorem isIpReserved_eq : pool.isIpReserved ip = pool.reservedIpAddresses[ip]?.isSome :=
  TreeMap.contains_eq_isSome_getElem?

@[simp] theorem isMacReserved_eq :
    pool.isMacReserved mac = pool.reservedMacAddresses[mac]?.isSome :=
  TreeMap.contains_eq_isSome_getElem?

@[simp] theorem isAddressCached_eq : pool.isAddressCached mac = pool.cache[mac]?.isSome :=
  TreeMap.contains_eq_isSome_getElem?

/-! ## Leases -/

theorem getAddress_of_reserved (reserved : pool.reservedMacAddresses[mac]? = some ip) :
    pool.getAddress mac = (.ok ip, pool.take mac ip) := by
  simp [AddressPool.getAddress, reserved, subscript_of_some reserved]

theorem getAddress_of_taken (unreserved : pool.reservedMacAddresses[mac]? = none)
    (taken : pool.takenMacAddresses[mac]? = some ip) :
    pool.getAddress mac = (.ok ip, pool) := by
  simp [AddressPool.getAddress, unreserved, taken, subscript_of_some taken]

theorem getAddress_of_cached (unreserved : pool.reservedMacAddresses[mac]? = none)
    (untaken : pool.takenMacAddresses[mac]? = none) (cached : pool.cache[mac]? = some ip) :
    pool.getAddress mac = (.ok ip, pool.take mac ip) := by
  simp [AddressPool.getAddress, unreserved, untaken, cached, subscript_of_some cached]

theorem getAddress_of_free (unreserved : pool.reservedMacAddresses[mac]? = none)
    (untaken : pool.takenMacAddresses[mac]? = none) (uncached : pool.cache[mac]? = none)
    (free : pool.firstFree = some ip) :
    pool.getAddress mac = (.ok ip, pool.take mac ip) := by
  simp [AddressPool.getAddress, unreserved, untaken, uncached, free]

theorem getAddress_of_exhausted (unreserved : pool.reservedMacAddresses[mac]? = none)
    (untaken : pool.takenMacAddresses[mac]? = none) (uncached : pool.cache[mac]? = none)
    (exhausted : pool.firstFree = none) :
    pool.getAddress mac = (throwRuntimeError "нет свободных адресов для выдачи", pool) := by
  simp [AddressPool.getAddress, unreserved, untaken, uncached, exhausted]

/-- What `get_address` does while nothing is cached. -/
theorem getAddress_cases (uncached : pool.cache[mac]? = none) :
    (∃ ip, pool.reservedMacAddresses[mac]? = some ip ∧
      pool.getAddress mac = (.ok ip, pool.take mac ip)) ∨
    (∃ ip, pool.reservedMacAddresses[mac]? = none ∧ pool.takenMacAddresses[mac]? = some ip ∧
      pool.getAddress mac = (.ok ip, pool)) ∨
    (∃ ip, pool.reservedMacAddresses[mac]? = none ∧ pool.takenMacAddresses[mac]? = none ∧
      pool.firstFree = some ip ∧ pool.getAddress mac = (.ok ip, pool.take mac ip)) ∨
    (pool.reservedMacAddresses[mac]? = none ∧ pool.takenMacAddresses[mac]? = none ∧
      pool.firstFree = none ∧
      pool.getAddress mac = (throwRuntimeError "нет свободных адресов для выдачи", pool)) := by
  cases reserved : pool.reservedMacAddresses[mac]? with
  | some ip => exact Or.inl ⟨ip, rfl, getAddress_of_reserved reserved⟩
  | none =>
    cases taken : pool.takenMacAddresses[mac]? with
    | some ip => exact Or.inr (Or.inl ⟨ip, rfl, rfl, getAddress_of_taken reserved taken⟩)
    | none =>
      cases free : pool.firstFree with
      | some ip =>
        exact Or.inr (Or.inr (Or.inl
          ⟨ip, rfl, rfl, rfl, getAddress_of_free reserved taken uncached free⟩))
      | none =>
        exact Or.inr (Or.inr (Or.inr
          ⟨rfl, rfl, rfl, getAddress_of_exhausted reserved taken uncached free⟩))

/-- The two pools differ in nothing but their leases. -/
structure OnlyLeasesDiffer (pool next : AddressPool) : Prop where
  included : next.includedIpAddresses = pool.includedIpAddresses
  excluded : next.excludedIpAddresses = pool.excludedIpAddresses
  reservedIp : next.reservedIpAddresses = pool.reservedIpAddresses
  reservedMac : next.reservedMacAddresses = pool.reservedMacAddresses

theorem onlyLeasesDiffer_getAddress (uncached : pool.cache[mac]? = none) :
    OnlyLeasesDiffer pool (pool.getAddress mac).2 := by
  obtain ⟨ip, _, result⟩ | ⟨ip, _, _, result⟩ | ⟨ip, _, _, _, result⟩ | ⟨_, _, _, result⟩ :=
    getAddress_cases uncached
  all_goals
    rw [result]
    exact ⟨rfl, rfl, rfl, rfl⟩

/-- A scanned address is included, and neither reserved nor taken. -/
theorem firstFree_spec (free : pool.firstFree = some ip) :
    pool.isAddressIncluded ip ∧ pool.reservedIpAddresses[ip]? = none ∧
      pool.takenIpAddresses[ip]? = none := by
  have member : ip ∈ pool.includedIpAddresses :=
    TreeSet.mem_toList.mp (List.mem_of_find?_eq_some free)
  have neither := List.find?_some free
  simp only [isIpReserved_eq, isIpTaken_eq, decide_eq_true_eq, not_or, Bool.not_eq_true,
    Option.isSome_eq_false_iff, Option.isNone_iff_eq_none] at neither
  exact ⟨TreeSet.mem_iff_contains.mp member, neither⟩

/-- The scan finds an address if there is one. -/
theorem exists_firstFree (included : pool.isAddressIncluded ip) (unreserved : ¬ pool.isIpReserved ip)
    (untaken : ¬ pool.isIpTaken ip) : ∃ found, pool.firstFree = some found := by
  have member : ip ∈ pool.includedIpAddresses.toList :=
    TreeSet.mem_toList.mpr (TreeSet.mem_iff_contains.mpr included)
  rw [← Option.isSome_iff_exists, AddressPool.firstFree, List.find?_isSome]
  exact ⟨ip, member, decide_eq_true (not_or.mpr ⟨unreserved, untaken⟩)⟩

/-! ## Reservations -/

theorem reserveIp_cases (pool : AddressPool) (ip : IPv4Address) (mac : MacAddress) :
    (pool.isAddressIncluded ip ∧ pool.reservedIpAddresses[ip]? = none ∧
      pool.takenIpAddresses[ip]? = none ∧
      pool.reserveIp ip mac = (.ok (), { pool with
        reservedIpAddresses := pool.reservedIpAddresses.insert ip mac
        reservedMacAddresses := pool.reservedMacAddresses.insert mac ip })) ∨
    (¬ (pool.isAddressIncluded ip ∧ ¬ pool.isIpReserved ip ∧ ¬ pool.isIpTaken ip) ∧
      ∃ what, pool.reserveIp ip mac = (throwRuntimeError what, pool)) := by
  unfold AddressPool.reserveIp
  by_cases included : pool.isAddressIncluded ip
  · by_cases reserved : pool.isIpReserved ip
    · rw [if_neg (not_not.mpr included), if_pos reserved]
      exact Or.inr ⟨fun passed => passed.2.1 reserved, _, rfl⟩
    · by_cases taken : pool.isIpTaken ip
      · rw [if_neg (not_not.mpr included), if_neg reserved, if_pos taken]
        exact Or.inr ⟨fun passed => passed.2.2 taken, _, rfl⟩
      · rw [if_neg (not_not.mpr included), if_neg reserved, if_neg taken]
        rw [isIpReserved_eq, Option.not_isSome_iff_eq_none] at reserved
        rw [isIpTaken_eq, Option.not_isSome_iff_eq_none] at taken
        exact Or.inl ⟨included, reserved, taken, rfl⟩
  · rw [if_pos included]
    exact Or.inr ⟨fun passed => included passed.1, _, rfl⟩

theorem unreserveIp_cases (pool : AddressPool) (ip : IPv4Address) :
    (∃ mac, pool.reservedIpAddresses[ip]? = some mac ∧
      pool.unreserveIp ip = (.ok (), { pool with
        reservedMacAddresses := pool.reservedMacAddresses.erase mac
        reservedIpAddresses := pool.reservedIpAddresses.erase ip })) ∨
    (pool.reservedIpAddresses[ip]? = none ∧
      ∃ what, pool.unreserveIp ip = (throwRuntimeError what, pool)) := by
  unfold AddressPool.unreserveIp
  cases reserved : pool.reservedIpAddresses[ip]? with
  | some mac => exact Or.inl ⟨mac, rfl, by simp [reserved, subscript_of_some reserved]⟩
  | none =>
    exact Or.inr ⟨rfl, "Невозможно разрезервировать IP адрес, он не зарезервирован",
      by simp [reserved]⟩

end Klevret.Verified.Pool
