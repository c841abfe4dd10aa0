import Klevret.Verified.Pool.Leases

/-! # Inclusion and exclusion

A range operation covers exactly the addresses of `InRange`.  Exclusion takes no
lease and no reservation away, so an excluded address can still be handed out,
but only to the client it was assigned to when it was excluded
(`returned_included_or_assigned`). -/

namespace Klevret.Verified.Pool

open Klevret.Base Klevret.Dhcp
open Std (TreeSet LawfulEqCmp)

section Membership

variable [Host] {pool : AddressPool} {ip : IPv4Address} {mac : MacAddress}

/-! ## Ranges -/

/-- `ip` is met on the way up from `ipStart` to `ipEnd`, which goes around the end
    of the address space when `ipEnd` is smaller than `ipStart`. -/
def InRange (ipStart ipEnd ip : IPv4Address) : Prop :=
  ip.toUInt32 - ipStart.toUInt32 ≤ ipEnd.toUInt32 - ipStart.toUInt32

theorem inRange_self : InRange ip ip ip := UInt32.le_refl _

theorem inRange_last_iff {last : IPv4Address} : InRange last last ip ↔ last = ip := by
  constructor
  · intro inRange
    apply IPv4Address.toUInt32_injective
    unfold InRange at inRange
    rw [UInt32.le_iff_toNat_le, UInt32.sub_self, UInt32.toNat_zero, Nat.le_zero] at inRange
    rw [← UInt32.toNat_inj]
    have ipBound := ip.toUInt32.toNat_lt
    have lastBound := last.toUInt32.toNat_lt
    rw [UInt32.toNat_sub] at inRange
    omega
  · rintro rfl
    exact inRange_self

theorem inRange_step_iff {current last : IPv4Address} (notLast : current ≠ last) :
    InRange current last ip ↔ current = ip ∨ InRange current.increment last ip := by
  have different : current.toUInt32.toNat ≠ last.toUInt32.toNat := by
    intro same
    exact notLast (IPv4Address.toNat_toUInt32_injective same)
  have sameIff : current = ip ↔ current.toUInt32.toNat = ip.toUInt32.toNat :=
    IPv4Address.toNat_toUInt32_injective.eq_iff.symm
  have ipBound := ip.toUInt32.toNat_lt
  have currentBound := current.toUInt32.toNat_lt
  have lastBound := last.toUInt32.toNat_lt
  simp only [InRange, sameIff, UInt32.le_iff_toNat_le, IPv4Address.toUInt32_increment,
    UInt32.toNat_sub, UInt32.toNat_add, UInt32.toNat_one]
  omega

/-- When one visit marks just its own address, the walk marks just the range. -/
theorem forEachAddress_marks {State : Type} (Marked : State → Prop)
    {visit : State → IPv4Address → State}
    (visitMarks : ∀ state address, Marked (visit state address) ↔ Marked state ∨ address = ip)
    (state : State) (current last : IPv4Address) :
    Marked (forEachAddress visit state current last) ↔ Marked state ∨ InRange current last ip := by
  induction state, current using forEachAddress.induct visit last with
  | case1 state =>
    rw [forEachAddress, if_pos rfl, visitMarks, inRange_last_iff]
  | case2 state current notLast inductionHypothesis =>
    rw [forEachAddress, if_neg notLast, inductionHypothesis, visitMarks, inRange_step_iff notLast,
      or_assoc]

/-! ## Membership after each call -/

/-- The call includes `ip`. -/
def Includes : PoolCall → IPv4Address → Prop
  | .includeIp address, ip => address = ip
  | .includeIpRange ipStart ipEnd, ip => InRange ipStart ipEnd ip
  | _, _ => False

/-- The call excludes `ip`. -/
def Excludes : PoolCall → IPv4Address → Prop
  | .excludeIp address, ip => address = ip
  | .excludeIpRange ipStart ipEnd, ip => InRange ipStart ipEnd ip
  | _, _ => False

theorem membership_includeIp (pool : AddressPool) (address ip : IPv4Address) :
    ((pool.includeIp address).isAddressIncluded ip ↔ pool.isAddressIncluded ip ∨ address = ip) ∧
      (¬ (pool.includeIp address).isAddressExcluded ip ↔
        ¬ pool.isAddressExcluded ip ∨ address = ip) := by
  simp only [AddressPool.isAddressIncluded, AddressPool.isAddressExcluded, AddressPool.includeIp,
    TreeSet.contains_insert, TreeSet.contains_erase, Bool.or_eq_true, Bool.and_eq_true,
    beq_iff_eq, bne_iff_ne, ne_eq, LawfulEqCmp.compare_eq_iff_eq]
  tauto

theorem membership_excludeIp (pool : AddressPool) (address ip : IPv4Address) :
    (¬ (pool.excludeIp address).isAddressIncluded ip ↔
        ¬ pool.isAddressIncluded ip ∨ address = ip) ∧
      ((pool.excludeIp address).isAddressExcluded ip ↔ pool.isAddressExcluded ip ∨ address = ip) := by
  simp only [AddressPool.isAddressIncluded, AddressPool.isAddressExcluded, AddressPool.excludeIp,
    TreeSet.contains_insert, TreeSet.contains_erase, Bool.or_eq_true, Bool.and_eq_true,
    beq_iff_eq, bne_iff_ne, ne_eq, LawfulEqCmp.compare_eq_iff_eq]
  tauto

theorem membership_includeIpRange (pool : AddressPool) (ipStart ipEnd ip : IPv4Address) :
    ((pool.includeIpRange ipStart ipEnd).isAddressIncluded ip ↔
        pool.isAddressIncluded ip ∨ InRange ipStart ipEnd ip) ∧
      (¬ (pool.includeIpRange ipStart ipEnd).isAddressExcluded ip ↔
        ¬ pool.isAddressExcluded ip ∨ InRange ipStart ipEnd ip) :=
  ⟨forEachAddress_marks (fun pool : AddressPool => pool.isAddressIncluded ip)
      (fun pool address => (membership_includeIp pool address ip).1) pool ipStart ipEnd,
    forEachAddress_marks (fun pool : AddressPool => ¬ pool.isAddressExcluded ip)
      (fun pool address => (membership_includeIp pool address ip).2) pool ipStart ipEnd⟩

theorem membership_excludeIpRange (pool : AddressPool) (ipStart ipEnd ip : IPv4Address) :
    (¬ (pool.excludeIpRange ipStart ipEnd).isAddressIncluded ip ↔
        ¬ pool.isAddressIncluded ip ∨ InRange ipStart ipEnd ip) ∧
      ((pool.excludeIpRange ipStart ipEnd).isAddressExcluded ip ↔
        pool.isAddressExcluded ip ∨ InRange ipStart ipEnd ip) :=
  ⟨forEachAddress_marks (fun pool : AddressPool => ¬ pool.isAddressIncluded ip)
      (fun pool address => (membership_excludeIp pool address ip).1) pool ipStart ipEnd,
    forEachAddress_marks (fun pool : AddressPool => pool.isAddressExcluded ip)
      (fun pool address => (membership_excludeIp pool address ip).2) pool ipStart ipEnd⟩

/-- The leases and the reservations leave the membership alone. -/
theorem sameMembership_call (consistent : Consistent pool) {call : PoolCall}
    (notIncludes : ¬ Includes call ip) (notExcludes : ¬ Excludes call ip) :
    ((AddressPool.machine.next pool call).isAddressIncluded ip ↔ pool.isAddressIncluded ip) ∧
      ((AddressPool.machine.next pool call).isAddressExcluded ip ↔ pool.isAddressExcluded ip) := by
  cases call with
  | includeIp address =>
    obtain ⟨included, excluded⟩ := membership_includeIp pool address ip
    exact ⟨included.trans (or_iff_left notIncludes),
      not_iff_not.mp (excluded.trans (or_iff_left notIncludes))⟩
  | excludeIp address =>
    obtain ⟨included, excluded⟩ := membership_excludeIp pool address ip
    exact ⟨not_iff_not.mp (included.trans (or_iff_left notExcludes)),
      excluded.trans (or_iff_left notExcludes)⟩
  | includeIpRange ipStart ipEnd =>
    obtain ⟨included, excluded⟩ := membership_includeIpRange pool ipStart ipEnd ip
    exact ⟨included.trans (or_iff_left notIncludes),
      not_iff_not.mp (excluded.trans (or_iff_left notIncludes))⟩
  | excludeIpRange ipStart ipEnd =>
    obtain ⟨included, excluded⟩ := membership_excludeIpRange pool ipStart ipEnd ip
    exact ⟨not_iff_not.mp (included.trans (or_iff_left notExcludes)),
      excluded.trans (or_iff_left notExcludes)⟩
  | reserveIp address client =>
    show ((pool.reserveIp address client).2.isAddressIncluded ip ↔ _) ∧
      ((pool.reserveIp address client).2.isAddressExcluded ip ↔ _)
    obtain ⟨_, _, _, result⟩ | ⟨_, what, result⟩ := reserveIp_cases pool address client
    all_goals
      rw [result]
      exact ⟨Iff.rfl, Iff.rfl⟩
  | unreserveIp address =>
    show ((pool.unreserveIp address).2.isAddressIncluded ip ↔ _) ∧
      ((pool.unreserveIp address).2.isAddressExcluded ip ↔ _)
    obtain ⟨_, _, result⟩ | ⟨_, what, result⟩ := unreserveIp_cases pool address
    all_goals
      rw [result]
      exact ⟨Iff.rfl, Iff.rfl⟩
  | getAddress client =>
    show ((pool.getAddress client).2.isAddressIncluded ip ↔ _) ∧
      ((pool.getAddress client).2.isAddressExcluded ip ↔ _)
    have onlyLeases := onlyLeasesDiffer_getAddress (consistent.uncached client)
    unfold AddressPool.isAddressIncluded AddressPool.isAddressExcluded
    rw [onlyLeases.included, onlyLeases.excluded]
    exact ⟨Iff.rfl, Iff.rfl⟩
  | _ => exact ⟨Iff.rfl, Iff.rfl⟩

theorem membership_of_includes {call : PoolCall} (includes : Includes call ip) :
    (AddressPool.machine.next pool call).isAddressIncluded ip ∧
      ¬ (AddressPool.machine.next pool call).isAddressExcluded ip := by
  cases call with
  | includeIp address =>
    obtain ⟨included, excluded⟩ := membership_includeIp pool address ip
    exact ⟨included.mpr (Or.inr includes), excluded.mpr (Or.inr includes)⟩
  | includeIpRange ipStart ipEnd =>
    obtain ⟨included, excluded⟩ := membership_includeIpRange pool ipStart ipEnd ip
    exact ⟨included.mpr (Or.inr includes), excluded.mpr (Or.inr includes)⟩
  | _ => cases includes

theorem membership_of_excludes {call : PoolCall} (excludes : Excludes call ip) :
    ¬ (AddressPool.machine.next pool call).isAddressIncluded ip ∧
      (AddressPool.machine.next pool call).isAddressExcluded ip := by
  cases call with
  | excludeIp address =>
    obtain ⟨included, excluded⟩ := membership_excludeIp pool address ip
    exact ⟨included.mpr (Or.inr excludes), excluded.mpr (Or.inr excludes)⟩
  | excludeIpRange ipStart ipEnd =>
    obtain ⟨included, excluded⟩ := membership_excludeIpRange pool ipStart ipEnd ip
    exact ⟨included.mpr (Or.inr excludes), excluded.mpr (Or.inr excludes)⟩
  | _ => cases excludes

/-- No address is both included and excluded. -/
theorem not_both_poolAfter (startIp endIp : IPv4Address) (calls : List PoolCall) (ip : IPv4Address) :
    ¬ ((poolAfter startIp endIp calls).isAddressIncluded ip ∧
      (poolAfter startIp endIp calls).isAddressExcluded ip) := by
  induction calls using List.reverseRecOn with
  | nil =>
    rintro ⟨_, excluded⟩
    simp [poolAfter, AddressPool.new, AddressPool.isAddressExcluded] at excluded
  | append_singleton calls call inductionHypothesis =>
    rw [poolAfter_append, Machine.run_cons, Machine.run_nil]
    by_cases includes : Includes call ip
    · exact fun both => (membership_of_includes includes).2 both.2
    by_cases excludes : Excludes call ip
    · exact fun both => (membership_of_excludes excludes).1 both.1
    · obtain ⟨included, excluded⟩ :=
        sameMembership_call (consistent_poolAfter startIp endIp calls) includes excludes
      rw [included, excluded]
      exact inductionHypothesis

/-! ## Assigned addresses -/

/-- `ip` is reserved for `mac` or leased to it: what the two branches of
    `get_address` before the scan return. -/
def Assigned (pool : AddressPool) (mac : MacAddress) (ip : IPv4Address) : Prop :=
  pool.reservedMacAddresses[mac]? = some ip ∨ pool.takenMacAddresses[mac]? = some ip

theorem assigned_or_included_of_returned (consistent : Consistent pool)
    (returned : (pool.getAddress mac).1 = .ok ip) :
    Assigned pool mac ip ∨ pool.isAddressIncluded ip := by
  obtain ⟨_, reserved, result⟩ | ⟨_, _, taken, result⟩ | ⟨_, _, _, free, result⟩ | ⟨_, _, _, result⟩ :=
    getAddress_cases (consistent.uncached mac)
  · rw [result] at returned
    cases returned
    exact Or.inl (Or.inl reserved)
  · rw [result] at returned
    cases returned
    exact Or.inl (Or.inr taken)
  · rw [result] at returned
    cases returned
    exact Or.inr (firstFree_spec free).1
  · rw [result] at returned
    cases returned

theorem assigned_of_take {client : MacAddress} {found : IPv4Address}
    (assigned : Assigned (pool.take client found) mac ip) :
    Assigned pool mac ip ∨ (client = mac ∧ found = ip) := by
  obtain reserved | taken := assigned
  · exact Or.inl (Or.inl reserved)
  · by_cases same : client = mac
    · subst same
      rw [take_takenMac] at taken
      exact Or.inr ⟨rfl, Option.some.inj taken⟩
    · rw [take_takenMac_of_ne same] at taken
      exact Or.inl (Or.inr taken)

theorem Assigned.of_sameBooks {next : AddressPool} (assigned : Assigned next mac ip)
    (same : SameBooks pool next) : Assigned pool mac ip := by
  unfold Assigned at assigned ⊢
  rwa [same.reservedMac, same.takenMac] at assigned

/-- Only an included address is newly assigned. -/
theorem assigned_or_included_of_next (consistent : Consistent pool) {call : PoolCall}
    (assigned : Assigned (AddressPool.machine.next pool call) mac ip) :
    Assigned pool mac ip ∨ pool.isAddressIncluded ip := by
  cases call with
  | getAddress client =>
    change Assigned (pool.getAddress client).2 mac ip at assigned
    obtain ⟨found, reserved, result⟩ | ⟨_, _, _, result⟩ | ⟨found, _, _, free, result⟩ |
        ⟨_, _, _, result⟩ :=
      getAddress_cases (consistent.uncached client)
    · rw [result] at assigned
      -- the reserved address was assigned to its client before the call
      obtain before | ⟨rfl, rfl⟩ := assigned_of_take assigned
      · exact Or.inl before
      · exact Or.inl (Or.inl reserved)
    · rw [result] at assigned
      exact Or.inl assigned
    · rw [result] at assigned
      obtain before | ⟨rfl, rfl⟩ := assigned_of_take assigned
      · exact Or.inl before
      · exact Or.inr (firstFree_spec free).1
    · rw [result] at assigned
      exact Or.inl assigned
  | reserveIp address client =>
    change Assigned (pool.reserveIp address client).2 mac ip at assigned
    obtain ⟨included, _, _, result⟩ | ⟨_, what, result⟩ := reserveIp_cases pool address client
    · rw [result] at assigned
      obtain reserved | taken := assigned
      · rw [lookup_insert] at reserved
        split at reserved
        next =>
          cases reserved
          exact Or.inr included
        next => exact Or.inl (Or.inl reserved)
      · exact Or.inl (Or.inr taken)
    · rw [result] at assigned
      exact Or.inl assigned
  | unreserveIp address =>
    change Assigned (pool.unreserveIp address).2 mac ip at assigned
    obtain ⟨owner, _, result⟩ | ⟨_, what, result⟩ := unreserveIp_cases pool address
    · rw [result] at assigned
      refine Or.inl (assigned.imp_left ?_)
      intro kept
      rw [lookup_erase] at kept
      split at kept
      next => cases kept
      next => exact kept
    · rw [result] at assigned
      exact Or.inl assigned
  | _ => exact Or.inl (assigned.of_sameBooks (sameBooks_call nofun nofun nofun))

theorem Assigned.of_excludes {call : PoolCall} (excludes : Excludes call ip)
    (assigned : Assigned (AddressPool.machine.next pool call) mac ip) : Assigned pool mac ip := by
  cases call with
  | excludeIp address => exact assigned.of_sameBooks (sameBooks_call nofun nofun nofun)
  | excludeIpRange ipStart ipEnd => exact assigned.of_sameBooks (sameBooks_call nofun nofun nofun)
  | _ => cases excludes

/-! ## What `get_address` may return -/

/-- At some point of the history an exclusion met `ip` assigned to `mac`. -/
def ExcludedWhileAssigned (startIp endIp : IPv4Address) (calls : List PoolCall) (mac : MacAddress)
    (ip : IPv4Address) : Prop :=
  ∃ before call after, calls = before ++ call :: after ∧ Excludes call ip ∧
    Assigned (poolAfter startIp endIp before) mac ip

/-- Exclusion is the only way for an assigned address to leave the pool. -/
theorem assigned_included_or_excluded (startIp endIp : IPv4Address) (calls : List PoolCall)
    (assigned : Assigned (poolAfter startIp endIp calls) mac ip) :
    (poolAfter startIp endIp calls).isAddressIncluded ip ∨
      ((poolAfter startIp endIp calls).isAddressExcluded ip ∧
        ExcludedWhileAssigned startIp endIp calls mac ip) := by
  induction calls using List.reverseRecOn with
  | nil =>
    unfold Assigned at assigned
    simp [poolAfter, AddressPool.new] at assigned
  | append_singleton calls call inductionHypothesis =>
    rw [poolAfter_append, Machine.run_cons, Machine.run_nil] at assigned ⊢
    have consistent := consistent_poolAfter startIp endIp calls
    by_cases excludes : Excludes call ip
    -- this exclusion is the one to name
    · exact Or.inr ⟨(membership_of_excludes excludes).2, calls, call, [], rfl, excludes,
        assigned.of_excludes excludes⟩
    by_cases includes : Includes call ip
    · exact Or.inl (membership_of_includes includes).1
    obtain ⟨sameIncluded, sameExcluded⟩ := sameMembership_call consistent includes excludes
    rw [sameIncluded, sameExcluded]
    obtain before | included := assigned_or_included_of_next consistent assigned
    · refine (inductionHypothesis before).imp_right ?_
      rintro ⟨excluded, earlier, exclusion, later, rfl, found⟩
      exact ⟨excluded, earlier, exclusion, later ++ [call], by simp, found⟩
    · exact Or.inl included

theorem returned_included_or_assigned (startIp endIp : IPv4Address) (calls : List PoolCall)
    (mac : MacAddress) (ip : IPv4Address)
    (returned : ((poolAfter startIp endIp calls).getAddress mac).1 = .ok ip) :
    ((poolAfter startIp endIp calls).isAddressIncluded ip ∧
        ¬ (poolAfter startIp endIp calls).isAddressExcluded ip) ∨
      ((poolAfter startIp endIp calls).isAddressExcluded ip ∧
        ¬ (poolAfter startIp endIp calls).isAddressIncluded ip ∧
        Assigned (poolAfter startIp endIp calls) mac ip ∧
        ExcludedWhileAssigned startIp endIp calls mac ip) := by
  have consistent := consistent_poolAfter startIp endIp calls
  have notBoth := not_both_poolAfter startIp endIp calls ip
  by_cases included : (poolAfter startIp endIp calls).isAddressIncluded ip
  · exact Or.inl ⟨included, fun excluded => notBoth ⟨included, excluded⟩⟩
  · have assigned :=
      (assigned_or_included_of_returned consistent returned).resolve_right included
    obtain ⟨excluded, whileAssigned⟩ :=
      (assigned_included_or_excluded startIp endIp calls assigned).resolve_left included
    exact Or.inr ⟨excluded, included, assigned, whileAssigned⟩

end Membership

section

attribute [local instance] littleEndianHost

/-- `A` goes on getting `X` after `X` is excluded. -/
theorem excluded_address_handed_out :
    ((poolAfter addressX addressY [.getAddress clientA, .excludeIp addressX]).getAddress clientA).1 =
        .ok addressX ∧
      ¬ ((poolAfter addressX addressY
            [.getAddress clientA, .excludeIp addressX]).isAddressIncluded addressX ∧
          ¬ (poolAfter addressX addressY
            [.getAddress clientA, .excludeIp addressX]).isAddressExcluded addressX) := by
  decide +kernel

theorem returned_included_or_assigned_sample :
    ((poolAfter addressX addressY [.excludeIpRange addressX addressX]).isAddressIncluded addressY ∧
        ¬ (poolAfter addressX addressY
          [.excludeIpRange addressX addressX]).isAddressExcluded addressY) ∨
      ((poolAfter addressX addressY [.excludeIpRange addressX addressX]).isAddressExcluded addressY ∧
        ¬ (poolAfter addressX addressY
          [.excludeIpRange addressX addressX]).isAddressIncluded addressY ∧
        Assigned (poolAfter addressX addressY [.excludeIpRange addressX addressX]) clientA addressY ∧
        ExcludedWhileAssigned addressX addressY [.excludeIpRange addressX addressX] clientA
          addressY) := by
  apply returned_included_or_assigned
  decide +kernel

end

end Klevret.Verified.Pool
