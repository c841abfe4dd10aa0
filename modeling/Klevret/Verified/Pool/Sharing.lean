import Mathlib.Data.List.Nodup
import Klevret.Base.FirstCome
import Klevret.Verified.Pool.LastWriter
import Klevret.Verified.Pool.Priority

/-! # The pool serves in the order of arrival

To its clients a pool is a desk (`deskOf`): a client claims the address that is reserved for it
or that it holds, and the free addresses are given out from the least one on.  The answers to
any sequence of `get_address` calls are therefore known beforehand (`getAddress_in_order`), and
those of a new pool are a matter of counting (`getAddress_new_in_order`). -/

namespace Klevret.Verified.Pool

open Klevret.Base Klevret.Dhcp
open Std (TreeSet LawfulEqCmp)

section Sharing

variable [Host] {pool : AddressPool} {ip : IPv4Address} {mac : MacAddress}

/-! ## The desk of a pool -/

/-- The address that the client gets whatever is free. -/
def standing (pool : AddressPool) (mac : MacAddress) : Option IPv4Address :=
  pool.reservedMacAddresses[mac]?.or pool.takenMacAddresses[mac]?

/-- The included addresses that are neither reserved nor taken, in their order. -/
def freeAddresses (pool : AddressPool) : List IPv4Address :=
  pool.includedIpAddresses.toList.filter fun ip => ¬ (pool.isIpReserved ip ∨ pool.isIpTaken ip)

def deskOf (pool : AddressPool) : FirstCome MacAddress IPv4Address :=
  ⟨standing pool, freeAddresses pool⟩

/-- What `get_address` returns for an address, and for none. -/
def answerOf : Option IPv4Address → Cpp IPv4Address
  | some ip => .ok ip
  | none => throwRuntimeError "нет свободных адресов для выдачи"

theorem firstFree_eq_head? (pool : AddressPool) : pool.firstFree = (freeAddresses pool).head? := by
  rw [freeAddresses, List.head?_filter]
  rfl

theorem nodup_freeAddresses (pool : AddressPool) : (freeAddresses pool).Nodup := by
  have distinct := pool.includedIpAddresses.distinct_toList
  refine List.Nodup.filter _ (distinct.imp ?_)
  rintro first second notEqual rfl
  exact notEqual (LawfulEqCmp.compare_eq_iff_eq.mpr rfl)

theorem mem_freeAddresses_iff : ip ∈ freeAddresses pool ↔ Free pool ip := by
  have included : ip ∈ pool.includedIpAddresses.toList ↔ pool.isAddressIncluded ip :=
    TreeSet.mem_toList.trans TreeSet.mem_iff_contains
  simp only [freeAddresses, List.mem_filter, included, isIpReserved_eq, isIpTaken_eq,
    decide_eq_true_eq, not_or, Option.not_isSome_iff_eq_none]
  constructor
  · rintro ⟨isIncluded, unreserved, untaken⟩
    exact ⟨isIncluded, unreserved, untaken⟩
  · intro free
    exact ⟨free.included, free.unreserved, free.untaken⟩

/-! ## One call is one client at the desk -/

/-- Leasing a free address to a client takes it from the front of the list. -/
theorem freeAddresses_of_firstFree (free : pool.firstFree = some ip) (mac : MacAddress) :
    freeAddresses pool = ip :: freeAddresses (pool.take mac ip) := by
  rw [firstFree_eq_head?] at free
  obtain ⟨rest, isFree⟩ := List.head?_eq_some_iff.mp free
  have distinct := nodup_freeAddresses pool
  rw [isFree, List.nodup_cons] at distinct
  -- the address leaves the list, in which it stood only once
  have taken : freeAddresses (pool.take mac ip) = (freeAddresses pool).filter (· ≠ ip) := by
    rw [freeAddresses, freeAddresses, List.filter_filter]
    refine List.filter_congr fun other _ => ?_
    by_cases same : ip = other
    · subst same
      simp [AddressPool.take]
    · simp [AddressPool.take, lookup_insert, same, Ne.symm same]
  have others : rest.filter (· ≠ ip) = rest := by
    refine List.filter_eq_self.mpr fun other member => decide_eq_true ?_
    rintro rfl
    exact distinct.1 member
  rw [taken, isFree, List.filter_cons_of_neg (by simp), others]

/-- Leasing a reserved address leaves the list alone. -/
theorem freeAddresses_of_reserved (reserved : pool.reservedIpAddresses[ip]? = some mac) :
    freeAddresses (pool.take mac ip) = freeAddresses pool := by
  refine List.filter_congr fun other _ => ?_
  by_cases same : ip = other
  · subst same
    simp [AddressPool.take, reserved]
  · simp [AddressPool.take, lookup_insert, same]

theorem standing_take (pool : AddressPool) (mac : MacAddress) (ip : IPv4Address)
    (unreserved : pool.reservedMacAddresses[mac]? = none) :
    standing (pool.take mac ip) = Function.update (standing pool) mac (some ip) := by
  funext other
  by_cases same : other = mac
  · subst same
    simp [standing, AddressPool.take, unreserved]
  · simp [standing, AddressPool.take, lookup_insert, same, Ne.symm same]

theorem standing_take_of_reserved (reserved : pool.reservedMacAddresses[mac]? = some ip) :
    standing (pool.take mac ip) = standing pool := by
  funext other
  by_cases same : other = mac
  · subst same
    simp [standing, AddressPool.take, reserved]
  · simp [standing, AddressPool.take, lookup_insert, Ne.symm same]

theorem serve_deskOf (consistent : Consistent pool) (mac : MacAddress) :
    (pool.getAddress mac).1 = answerOf ((deskOf pool).serve mac).1 ∧
      deskOf (pool.getAddress mac).2 = ((deskOf pool).serve mac).2 := by
  -- the client has a reservation, or a lease, or gets the first free address, or there is none
  obtain ⟨ip, reserved, result⟩ | ⟨ip, unreserved, taken, result⟩ |
      ⟨ip, unreserved, untaken, free, result⟩ | ⟨unreserved, untaken, exhausted, result⟩ :=
    getAddress_cases (consistent.uncached mac)
  · have claimed : (deskOf pool).claim mac = some ip := by
      simp [deskOf, standing, reserved]
    rw [result, FirstCome.serve_of_claim claimed]
    refine ⟨rfl, ?_⟩
    rw [deskOf, deskOf, standing_take_of_reserved reserved,
      freeAddresses_of_reserved (consistent.reservationBacked reserved)]
  · have claimed : (deskOf pool).claim mac = some ip := by
      simp [deskOf, standing, unreserved, taken]
    rw [result, FirstCome.serve_of_claim claimed]
    exact ⟨rfl, rfl⟩
  · have unclaimed : (deskOf pool).claim mac = none := by
      simp [deskOf, standing, unreserved, untaken]
    have isFree : (deskOf pool).free = ip :: freeAddresses (pool.take mac ip) :=
      freeAddresses_of_firstFree free mac
    rw [result, FirstCome.serve_of_free unclaimed isFree]
    refine ⟨rfl, ?_⟩
    rw [deskOf, standing_take pool mac ip unreserved]
    rfl
  · have unclaimed : (deskOf pool).claim mac = none := by
      simp [deskOf, standing, unreserved, untaken]
    have nothingFree : (deskOf pool).free = [] := by
      rw [firstFree_eq_head?, List.head?_eq_none_iff] at exhausted
      exact exhausted
    rw [result, FirstCome.serve_of_exhausted unclaimed nothingFree]
    exact ⟨rfl, rfl⟩

theorem outputs_deskOf (consistent : Consistent pool) (macs : List MacAddress) :
    AddressPool.machine.outputs pool (macs.map .getAddress) =
        macs.map (fun mac => (answerOf ((deskOf pool).share macs mac)).map some) ∧
      deskOf (AddressPool.machine.run pool (macs.map .getAddress)) =
        FirstCome.machine.run (deskOf pool) macs := by
  obtain ⟨sameOutputs, sameLast⟩ := Machine.outputs_refined AddressPool.machine FirstCome.machine
    Consistent deskOf PoolCall.getAddress id
    (fun result => (answerOf result).map some)
    (fun state mac consistentState => consistentState.getAddress mac)
    (fun state mac consistentState =>
      congrArg (Except.map some) (serve_deskOf consistentState mac).1)
    (fun state mac consistentState => (serve_deskOf consistentState mac).2)
    consistent macs
  rw [List.map_id] at sameOutputs sameLast
  rw [FirstCome.outputs_machine, List.map_map] at sameOutputs
  exact ⟨sameOutputs, sameLast⟩

/-! ## Any pool -/

theorem less_of_cmp {first second : IPv4Address} (isLess : IPv4Address.cmp first second = .lt) :
    first.toUInt32.toNat < second.toUInt32.toNat := by
  rw [IPv4Address.cmp, comparing_eq_compare IPv4Address.less_eq] at isLess
  exact compare_lt_iff_lt.mp isLess

/-- What a list of clients gets from the pool. -/
structure ServesInOrder (pool : AddressPool) (macs : List MacAddress) : Prop where
  ascending : (freeAddresses pool).Pairwise fun first second =>
    first.toUInt32.toNat < second.toUInt32.toNat
  free : ∀ ip, ip ∈ freeAddresses pool ↔ Free pool ip
  /-- A client without an address of its own gets the free address with its number. -/
  answers : AddressPool.machine.outputs pool (macs.map .getAddress) =
    macs.map fun mac =>
      let newcomers := (macs.filter fun mac => (standing pool mac).isNone).eraseDups
      (answerOf ((standing pool mac).or (freeAddresses pool)[newcomers.idxOf mac]?)).map some

theorem getAddress_in_order (startIp endIp : IPv4Address) (calls : List PoolCall)
    (macs : List MacAddress) : ServesInOrder (poolAfter startIp endIp calls) macs where
  ascending := by
    have ordered := (poolAfter startIp endIp calls).includedIpAddresses.ordered_toList
    exact (ordered.imp less_of_cmp).filter _
  free _ := mem_freeAddresses_iff
  answers := (outputs_deskOf (consistent_poolAfter startIp endIp calls) macs).1

/-! ## A new pool -/

/-- The numbers of the addresses from one to another, in ascending order.  Beyond
    255.255.255.255 the walk goes on at 0.0.0.0. -/
def numbersFrom (startIp endIp : IPv4Address) : List ℕ :=
  let first := startIp.toUInt32.toNat
  let last := endIp.toUInt32.toNat
  if first ≤ last then List.range' first (last - first + 1)
  else List.range' 0 (last + 1) ++ List.range' first (4294967296 - first)

theorem mem_numbersFrom_iff {startIp endIp : IPv4Address} :
    ip.toUInt32.toNat ∈ numbersFrom startIp endIp ↔ InRange startIp endIp ip := by
  have startBound := startIp.toUInt32.toNat_lt
  have endBound := endIp.toUInt32.toNat_lt
  have ipBound := ip.toUInt32.toNat_lt
  rw [inRange_iff_distance, toNat_distance, toNat_distance, numbersFrom]
  split
  · rw [List.mem_range'_1]
    omega
  · rw [List.mem_append, List.mem_range'_1, List.mem_range'_1]
    omega

theorem lt_of_mem_numbersFrom {startIp endIp : IPv4Address} {number : ℕ}
    (member : number ∈ numbersFrom startIp endIp) : number < 4294967296 := by
  have startBound := startIp.toUInt32.toNat_lt
  have endBound := endIp.toUInt32.toNat_lt
  dsimp only [numbersFrom] at member
  split at member
  · rw [List.mem_range'_1] at member
    omega
  · rw [List.mem_append, List.mem_range'_1, List.mem_range'_1] at member
    omega

theorem ascending_numbersFrom (startIp endIp : IPv4Address) :
    (numbersFrom startIp endIp).Pairwise (· < ·) := by
  dsimp only [numbersFrom]
  split
  · exact List.pairwise_lt_range'
  · refine List.pairwise_append.mpr ⟨List.pairwise_lt_range', List.pairwise_lt_range', ?_⟩
    intro low isLow high isHigh
    rw [List.mem_range'_1] at isLow isHigh
    omega

/-- Two ascending lists with the same members are one. -/
theorem toList_new (startIp endIp : IPv4Address) :
    (AddressPool.new startIp endIp).includedIpAddresses.toList.map (·.toUInt32.toNat) =
      numbersFrom startIp endIp := by
  have ordered := (AddressPool.new startIp endIp).includedIpAddresses.ordered_toList
  have ascending : ((AddressPool.new startIp endIp).includedIpAddresses.toList.map
      (·.toUInt32.toNat)).Pairwise (· < ·) :=
    List.pairwise_map.mpr (ordered.imp less_of_cmp)
  have ascendingNumbers := ascending_numbersFrom startIp endIp
  have sameMembers : ∀ number,
      number ∈ (AddressPool.new startIp endIp).includedIpAddresses.toList.map (·.toUInt32.toNat) ↔
        number ∈ numbersFrom startIp endIp := by
    intro number
    rw [List.mem_map]
    constructor
    · rintro ⟨ip, member, rfl⟩
      rw [mem_numbersFrom_iff, ← isAddressIncluded_new]
      exact TreeSet.mem_iff_contains.mp (TreeSet.mem_toList.mp member)
    · intro member
      have isNumber : (IPv4Address.ofUInt32 (.ofNat number)).toUInt32.toNat = number := by
        rw [IPv4Address.toUInt32_ofUInt32]
        exact UInt32.toNat_ofNat_of_lt (lt_of_mem_numbersFrom member)
      rw [← isNumber, mem_numbersFrom_iff, ← isAddressIncluded_new] at member
      exact ⟨_, TreeSet.mem_toList.mpr (TreeSet.mem_iff_contains.mpr member), isNumber⟩
  -- ascending lists have no number twice, so the same members make a permutation
  refine List.Perm.eq_of_pairwise ?_ ascending ascendingNumbers ?_
  · intro first second _ _ less greater
    exact absurd less (Nat.lt_asymm greater)
  · exact (List.perm_ext_iff_of_nodup (ascending.imp Nat.ne_of_lt)
      (ascendingNumbers.imp Nat.ne_of_lt)).mpr sameMembers

/-- The address that a new pool gives to its client with the number `index`. -/
def addressAt (startIp endIp : IPv4Address) (index : ℕ) : Option IPv4Address :=
  (numbersFrom startIp endIp)[index]?.map fun number => .ofUInt32 (.ofNat number)

theorem addressAt_eq (startIp endIp : IPv4Address) (index : ℕ) :
    addressAt startIp endIp index =
      (AddressPool.new startIp endIp).includedIpAddresses.toList[index]? := by
  have sameAddress : ∀ ip : IPv4Address, IPv4Address.ofUInt32 (.ofNat ip.toUInt32.toNat) = ip := by
    intro ip
    rw [UInt32.ofNat_toNat, IPv4Address.ofUInt32_toUInt32]
  rw [addressAt, ← toList_new, List.getElem?_map, Option.map_map]
  simp only [Function.comp_def, sameAddress, Option.map_id']

theorem deskOf_new (startIp endIp : IPv4Address) :
    deskOf (.new startIp endIp) =
      ⟨fun _ => none, (AddressPool.new startIp endIp).includedIpAddresses.toList⟩ := by
  have allFree : freeAddresses (.new startIp endIp) =
      (AddressPool.new startIp endIp).includedIpAddresses.toList := by
    refine List.filter_eq_self.mpr fun ip _ => ?_
    simp [AddressPool.new]
  have noneStands : standing (.new startIp endIp) = fun _ => none := by
    funext mac
    simp [standing, AddressPool.new]
  rw [deskOf, allFree, noneStands]

theorem share_new (startIp endIp : IPv4Address) (macs : List MacAddress) (mac : MacAddress) :
    (deskOf (.new startIp endIp)).share macs mac =
      addressAt startIp endIp (macs.eraseDups.idxOf mac) := by
  rw [addressAt_eq, deskOf_new, FirstCome.share, FirstCome.newcomers]
  simp

/-- The clients of a new pool are numbered in the order of their first calls, and each gets the
    address with its number; those that come when no address is left get none. -/
theorem getAddress_new_in_order (startIp endIp : IPv4Address) (macs : List MacAddress) :
    AddressPool.machine.outputs (.new startIp endIp) (macs.map .getAddress) =
      macs.map fun mac =>
        (answerOf (addressAt startIp endIp (macs.eraseDups.idxOf mac))).map some := by
  rw [(outputs_deskOf (consistent_new startIp endIp) macs).1]
  simp only [share_new]

end Sharing

end Klevret.Verified.Pool
