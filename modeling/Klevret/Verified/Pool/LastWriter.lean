import Mathlib.Logic.Function.Iterate
import Klevret.Verified.Pool.Membership

/-! # Membership is decided by the last writer

A range walk visits the addresses that are met on the way up from its first
address to its last, modulo `2 ^ 32` (`forEachAddress_eq_foldl`).  The set an
address is in is then the one that the last step covering it put it in
(`last_writer_decides`). -/

namespace Klevret.Verified.Pool

open Klevret.Base Klevret.Dhcp
open Std (TreeSet LawfulEqCmp)

section LastWriter

variable [Host] {pool : AddressPool} {ipStart ipEnd ip : IPv4Address}

/-! ## The addresses of a walk -/

/-- `ip` is met when incrementing from `ipStart` up to and including `ipEnd`. -/
def Met (ipStart ipEnd ip : IPv4Address) : Prop :=
  ∃ count, ip = IPv4Address.increment^[count] ipStart ∧
    ∀ earlier < count, IPv4Address.increment^[earlier] ipStart ≠ ipEnd

/-- How many increments lead from one address to another. -/
def distance (ipStart ipEnd : IPv4Address) : ℕ := (ipEnd.toUInt32 - ipStart.toUInt32).toNat

theorem toNat_iterate_increment (ip : IPv4Address) (count : ℕ) :
    (IPv4Address.increment^[count] ip).toUInt32.toNat = (ip.toUInt32.toNat + count) % 2 ^ 32 := by
  induction count with
  | zero =>
    have bound := ip.toUInt32.toNat_lt
    exact (Nat.mod_eq_of_lt bound).symm
  | succ count inductionHypothesis =>
    rw [Function.iterate_succ_apply', IPv4Address.toUInt32_increment, UInt32.toNat_add,
      inductionHypothesis, UInt32.toNat_one]
    omega

theorem toNat_distance :
    distance ipStart ipEnd =
      (2 ^ 32 - ipStart.toUInt32.toNat + ipEnd.toUInt32.toNat) % 2 ^ 32 := by
  rw [distance, UInt32.toNat_sub]

/-- An increment count leads to an address exactly when it is the distance, modulo `2 ^ 32`. -/
theorem iterate_increment_eq_iff (count : ℕ) :
    IPv4Address.increment^[count] ipStart = ip ↔ count % 2 ^ 32 = distance ipStart ip := by
  have startBound := ipStart.toUInt32.toNat_lt
  have ipBound := ip.toUInt32.toNat_lt
  rw [← IPv4Address.toNat_toUInt32_injective.eq_iff, toNat_distance, toNat_iterate_increment]
  omega

theorem distance_lt (ipStart ipEnd : IPv4Address) : distance ipStart ipEnd < 2 ^ 32 :=
  UInt32.toNat_lt _

theorem inRange_iff_distance : InRange ipStart ipEnd ip ↔ distance ipStart ip ≤ distance ipStart ipEnd :=
  UInt32.le_iff_toNat_le

theorem inRange_iff_met : InRange ipStart ipEnd ip ↔ Met ipStart ipEnd ip := by
  have ipBound := distance_lt ipStart ip
  have endBound := distance_lt ipStart ipEnd
  rw [inRange_iff_distance]
  constructor
  · intro near
    refine ⟨distance ipStart ip, ?_, ?_⟩
    · exact ((iterate_increment_eq_iff _).mpr (Nat.mod_eq_of_lt ipBound)).symm
    · intro earlier before atEnd
      rw [iterate_increment_eq_iff, Nat.mod_eq_of_lt (by omega)] at atEnd
      omega
  · rintro ⟨count, isIp, notBefore⟩
    have ipDistance := (iterate_increment_eq_iff count).mp isIp.symm
    by_contra far
    -- the walk would have met its end on the way
    refine notBefore (distance ipStart ipEnd) ?_ ?_
    · have wrapped := Nat.mod_le count (2 ^ 32)
      omega
    · exact (iterate_increment_eq_iff _).mpr (Nat.mod_eq_of_lt endBound)

/-- From a smaller to a larger address the walk meets the interval between them. -/
theorem inRange_iff_interval (ordered : ipStart.toUInt32.toNat ≤ ipEnd.toUInt32.toNat) :
    InRange ipStart ipEnd ip ↔
      ipStart.toUInt32.toNat ≤ ip.toUInt32.toNat ∧ ip.toUInt32.toNat ≤ ipEnd.toUInt32.toNat := by
  have ipBound := ip.toUInt32.toNat_lt
  have endBound := ipEnd.toUInt32.toNat_lt
  rw [inRange_iff_distance, toNat_distance, toNat_distance]
  omega

/-- The addresses that a walk visits, in their order. -/
def visited (ipStart ipEnd : IPv4Address) : List IPv4Address :=
  (List.range (distance ipStart ipEnd + 1)).map fun count => IPv4Address.increment^[count] ipStart

theorem visited_last : visited ipEnd ipEnd = [ipEnd] := by
  have zero : distance ipEnd ipEnd = 0 := by
    rw [distance, UInt32.sub_self, UInt32.toNat_zero]
  rw [visited, zero]
  rfl

theorem visited_step (notLast : ipStart ≠ ipEnd) :
    visited ipStart ipEnd = ipStart :: visited ipStart.increment ipEnd := by
  have different : ipStart.toUInt32.toNat ≠ ipEnd.toUInt32.toNat := by
    intro same
    exact notLast (IPv4Address.toNat_toUInt32_injective same)
  have startBound := ipStart.toUInt32.toNat_lt
  have endBound := ipEnd.toUInt32.toNat_lt
  have closer : distance ipStart ipEnd = distance ipStart.increment ipEnd + 1 := by
    rw [toNat_distance, toNat_distance, IPv4Address.toUInt32_increment, UInt32.toNat_add,
      UInt32.toNat_one]
    omega
  rw [visited, closer, List.range_succ_eq_map, List.map_cons, List.map_map]
  rfl

theorem mem_visited_iff : ip ∈ visited ipStart ipEnd ↔ InRange ipStart ipEnd ip := by
  have endBound := distance_lt ipStart ipEnd
  have ipBound := distance_lt ipStart ip
  rw [inRange_iff_distance, visited, List.mem_map]
  constructor
  · rintro ⟨count, inside, isIp⟩
    rw [List.mem_range] at inside
    rw [iterate_increment_eq_iff, Nat.mod_eq_of_lt (by omega)] at isIp
    omega
  · intro near
    refine ⟨distance ipStart ip, List.mem_range.mpr (by omega), ?_⟩
    exact (iterate_increment_eq_iff _).mpr (Nat.mod_eq_of_lt ipBound)

/-- A walk is over after one visit to each of its addresses. -/
theorem forEachAddress_eq_foldl {State : Type} (visit : State → IPv4Address → State) (state : State)
    (ipStart ipEnd : IPv4Address) :
    forEachAddress visit state ipStart ipEnd = (visited ipStart ipEnd).foldl visit state := by
  induction state, ipStart using forEachAddress.induct visit ipEnd with
  | case1 state =>
    rw [forEachAddress, if_pos rfl, visited_last]
    rfl
  | case2 state current notLast inductionHypothesis =>
    rw [forEachAddress, if_neg notLast, inductionHypothesis, visited_step notLast, List.foldl_cons]

/-! ## Runs -/

theorem isAddressIncluded_new :
    (AddressPool.new ipStart ipEnd).isAddressIncluded ip ↔ InRange ipStart ipEnd ip := by
  have visitMarks : ∀ (included : TreeSet IPv4Address IPv4Address.cmp) (address : IPv4Address),
      (included.insert address).contains ip ↔ included.contains ip ∨ address = ip := by
    intro included address
    rw [TreeSet.contains_insert, Bool.or_eq_true, beq_iff_eq, LawfulEqCmp.compare_eq_iff_eq]
    exact or_comm
  have marks := forEachAddress_marks
    (fun included : TreeSet IPv4Address IPv4Address.cmp => included.contains ip) visitMarks
    ∅ ipStart ipEnd
  have empty : (∅ : TreeSet IPv4Address IPv4Address.cmp).contains ip = false := by simp
  rw [empty] at marks
  exact marks.trans (or_iff_right nofun)

theorem not_isAddressExcluded_new : ¬ (AddressPool.new ipStart ipEnd).isAddressExcluded ip := by
  simp [AddressPool.new, AddressPool.isAddressExcluded]

/-- What decides the membership of every address in a run of the pool. -/
structure LastWriterDecides (startIp endIp : IPv4Address) (calls : List PoolCall) : Prop where
  /-- The constructor and both range operations are over after finitely many visits. -/
  walksEnd : ∀ ipStart ipEnd,
    (AddressPool.new ipStart ipEnd).includedIpAddresses =
      (visited ipStart ipEnd).foldl (fun included address => included.insert address) ∅ ∧
    ∀ pool : AddressPool,
      pool.includeIpRange ipStart ipEnd = (visited ipStart ipEnd).foldl AddressPool.includeIp pool ∧
      pool.excludeIpRange ipStart ipEnd = (visited ipStart ipEnd).foldl AddressPool.excludeIp pool
  /-- They visit the addresses that are met on the way. -/
  walksMeet : ∀ ipStart ipEnd ip, (ip ∈ visited ipStart ipEnd ↔ Met ipStart ipEnd ip) ∧
    (InRange ipStart ipEnd ip ↔ Met ipStart ipEnd ip)
  interval : ∀ ipStart ipEnd ip : IPv4Address, ipStart.toUInt32.toNat ≤ ipEnd.toUInt32.toNat →
    (Met ipStart ipEnd ip ↔ ipStart.toUInt32.toNat ≤ ip.toUInt32.toNat ∧
      ip.toUInt32.toNat ≤ ipEnd.toUInt32.toNat)
  included : ∀ ip, (poolAfter startIp endIp calls).isAddressIncluded ip ↔
    Machine.LastWrites (Includes · ip) (Excludes · ip) calls ∨
      (Met startIp endIp ip ∧ ∀ call ∈ calls, ¬ (Includes call ip ∨ Excludes call ip))
  excluded : ∀ ip, (poolAfter startIp endIp calls).isAddressExcluded ip ↔
    Machine.LastWrites (Excludes · ip) (Includes · ip) calls
  disjoint : ∀ ip, ¬ ((poolAfter startIp endIp calls).isAddressIncluded ip ∧
    (poolAfter startIp endIp calls).isAddressExcluded ip)
  /-- Every other call leaves both sets alone. -/
  others : ∀ call, (∀ ip, ¬ (Includes call ip ∨ Excludes call ip)) → ∀ ip,
    ((poolAfter startIp endIp (calls ++ [call])).isAddressIncluded ip ↔
      (poolAfter startIp endIp calls).isAddressIncluded ip) ∧
    ((poolAfter startIp endIp (calls ++ [call])).isAddressExcluded ip ↔
      (poolAfter startIp endIp calls).isAddressExcluded ip)

theorem included_iff_lastWrites (startIp endIp : IPv4Address) (calls : List PoolCall) :
    (poolAfter startIp endIp calls).isAddressIncluded ip ↔
      Machine.LastWrites (Includes · ip) (Excludes · ip) calls ∨
        (Met startIp endIp ip ∧ ∀ call ∈ calls, ¬ (Includes call ip ∨ Excludes call ip)) := by
  have decided := Machine.marked_run_iff
    (fun pool : AddressPool => pool.isAddressIncluded ip) consistent_next
    (fun _ _ _ includes => (membership_of_includes includes).1)
    (fun _ _ _ excludes => (membership_of_excludes excludes).1)
    (fun _ _ consistent notIncludes notExcludes =>
      (sameMembership_call consistent notIncludes notExcludes).1)
    (consistent_new startIp endIp) calls
  rw [isAddressIncluded_new, inRange_iff_met] at decided
  exact decided

theorem excluded_iff_lastWrites (startIp endIp : IPv4Address) (calls : List PoolCall) :
    (poolAfter startIp endIp calls).isAddressExcluded ip ↔
      Machine.LastWrites (Excludes · ip) (Includes · ip) calls := by
  have decided := Machine.marked_run_iff
    (fun pool : AddressPool => pool.isAddressExcluded ip) consistent_next
    (fun _ _ _ excludes => (membership_of_excludes excludes).2)
    (fun _ _ _ includes => (membership_of_includes includes).2)
    (fun _ _ consistent notExcludes notIncludes =>
      (sameMembership_call consistent notIncludes notExcludes).2)
    (consistent_new startIp endIp) calls
  -- the constructor excludes nothing
  exact decided.trans (or_iff_left fun initially => not_isAddressExcluded_new initially.1)

theorem last_writer_decides (startIp endIp : IPv4Address) (calls : List PoolCall) :
    LastWriterDecides startIp endIp calls where
  walksEnd ipStart ipEnd :=
    ⟨forEachAddress_eq_foldl _ _ ipStart ipEnd, fun pool =>
      ⟨forEachAddress_eq_foldl _ pool ipStart ipEnd, forEachAddress_eq_foldl _ pool ipStart ipEnd⟩⟩
  walksMeet _ _ _ := ⟨mem_visited_iff.trans inRange_iff_met, inRange_iff_met⟩
  interval _ _ _ ordered := inRange_iff_met.symm.trans (inRange_iff_interval ordered)
  included _ := included_iff_lastWrites startIp endIp calls
  excluded _ := excluded_iff_lastWrites startIp endIp calls
  disjoint ip := not_both_poolAfter startIp endIp calls ip
  others := by
    intro call covers ip
    obtain ⟨notIncludes, notExcludes⟩ := not_or.mp (covers ip)
    rw [poolAfter_append, Machine.run_cons, Machine.run_nil]
    exact sameMembership_call (consistent_poolAfter startIp endIp calls) notIncludes notExcludes

end LastWriter

end Klevret.Verified.Pool
