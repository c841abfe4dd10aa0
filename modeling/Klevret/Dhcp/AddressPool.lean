import Klevret.Base.Machine
import Klevret.Dhcp.DhcpOption
import Klevret.Dhcp.HardwareAddress

/-! # The address pool (`AddressPool.hpp`, `AddressPool.cpp`)

An operation that may throw returns its outcome together with the pool it leaves
behind, whether it threw or not.  `AddressPool.machine` offers the public
operations as the inputs of a machine. -/

namespace Klevret.Dhcp

open Klevret.Base
open Std (TreeMap TreeSet)

variable [Host]

structure AddressPool where
  includedIpAddresses : TreeSet IPv4Address IPv4Address.cmp
  excludedIpAddresses : TreeSet IPv4Address IPv4Address.cmp
  reservedIpAddresses : TreeMap IPv4Address MacAddress IPv4Address.cmp
  reservedMacAddresses : TreeMap MacAddress IPv4Address MacAddress.cmp
  takenIpAddresses : TreeMap IPv4Address MacAddress IPv4Address.cmp
  takenMacAddresses : TreeMap MacAddress IPv4Address MacAddress.cmp
  cache : TreeMap MacAddress IPv4Address MacAddress.cmp
  options : TreeMap ℤ DhcpOption compare

/-- The loop of the constructor and of both range operations: it visits the
    addresses from `current` on and stops when it meets `last`, which it visits
    too.  `operator++` wraps, so it meets `last` from anywhere. -/
def forEachAddress {State : Type} (visit : State → IPv4Address → State) (state : State)
    (current last : IPv4Address) : State :=
  if current = last then visit state last
  else forEachAddress visit (visit state current) current.increment last
termination_by (last.toUInt32 - current.toUInt32).toNat
decreasing_by exact IPv4Address.distance_increment ‹_›

namespace AddressPool

/-! ## Queries -/

def isIpTaken (pool : AddressPool) (ip : IPv4Address) : Bool :=
  pool.takenIpAddresses.contains ip

def isMacTaken (pool : AddressPool) (mac : MacAddress) : Bool :=
  pool.takenMacAddresses.contains mac

def isIpReserved (pool : AddressPool) (ip : IPv4Address) : Bool :=
  pool.reservedIpAddresses.contains ip

def isMacReserved (pool : AddressPool) (mac : MacAddress) : Bool :=
  pool.reservedMacAddresses.contains mac

def isAddressIncluded (pool : AddressPool) (ip : IPv4Address) : Bool :=
  pool.includedIpAddresses.contains ip

def isAddressExcluded (pool : AddressPool) (ip : IPv4Address) : Bool :=
  pool.excludedIpAddresses.contains ip

def isAddressCached (pool : AddressPool) (mac : MacAddress) : Bool :=
  pool.cache.contains mac

/-! ## Membership -/

/-- `AddressPool(start_ip, end_ip)`. -/
def new (startIp endIp : IPv4Address) : AddressPool where
  includedIpAddresses := forEachAddress (fun included ip => included.insert ip) ∅ startIp endIp
  excludedIpAddresses := ∅
  reservedIpAddresses := ∅
  reservedMacAddresses := ∅
  takenIpAddresses := ∅
  takenMacAddresses := ∅
  cache := ∅
  options := ∅

def includeIp (pool : AddressPool) (ip : IPv4Address) : AddressPool :=
  { pool with
    includedIpAddresses := pool.includedIpAddresses.insert ip
    excludedIpAddresses := pool.excludedIpAddresses.erase ip }

def excludeIp (pool : AddressPool) (ip : IPv4Address) : AddressPool :=
  { pool with
    includedIpAddresses := pool.includedIpAddresses.erase ip
    excludedIpAddresses := pool.excludedIpAddresses.insert ip }

def includeIpRange (pool : AddressPool) (ipStart ipEnd : IPv4Address) : AddressPool :=
  forEachAddress includeIp pool ipStart ipEnd

def excludeIpRange (pool : AddressPool) (ipStart ipEnd : IPv4Address) : AddressPool :=
  forEachAddress excludeIp pool ipStart ipEnd

/-! ## Reservations -/

def reserveIp (pool : AddressPool) (ip : IPv4Address) (mac : MacAddress) :
    Cpp Unit × AddressPool :=
  if ¬ pool.isAddressIncluded ip then
    (throwRuntimeError "Невозможно зарезервировать IP адрес, он отсутствует в пуле.", pool)
  else if pool.isIpReserved ip then
    (throwRuntimeError "Невозможно зарезервировать IP адрес, он уже зарезервирован", pool)
  else if pool.isIpTaken ip then
    (throwRuntimeError "Невозможно зарезервировать IP адрес, он используется", pool)
  else
    (.ok (), { pool with
      reservedIpAddresses := pool.reservedIpAddresses.insert ip mac
      reservedMacAddresses := pool.reservedMacAddresses.insert mac ip })

def unreserveIp (pool : AddressPool) (ip : IPv4Address) : Cpp Unit × AddressPool :=
  if ¬ pool.isIpReserved ip then
    (throwRuntimeError "Невозможно разрезервировать IP адрес, он не зарезервирован", pool)
  else
    let (mac, reservedIpAddresses) := subscript pool.reservedIpAddresses ip
    (.ok (), { pool with
      reservedMacAddresses := pool.reservedMacAddresses.erase mac
      reservedIpAddresses := reservedIpAddresses.erase ip })

/-! ## Leases -/

/-- Both lease maps get the pair. -/
def take (pool : AddressPool) (mac : MacAddress) (ip : IPv4Address) : AddressPool :=
  { pool with
    takenMacAddresses := pool.takenMacAddresses.insert mac ip
    takenIpAddresses := pool.takenIpAddresses.insert ip mac }

/-- The scan of `get_address` over the included addresses, in their order. -/
def firstFree (pool : AddressPool) : Option IPv4Address :=
  pool.includedIpAddresses.toList.find? fun ip => ¬ (pool.isIpReserved ip ∨ pool.isIpTaken ip)

def getAddress (pool : AddressPool) (mac : MacAddress) : Cpp IPv4Address × AddressPool :=
  if pool.isMacReserved mac then
    let (ip, reservedMacAddresses) := subscript pool.reservedMacAddresses mac
    (.ok ip, { pool with reservedMacAddresses }.take mac ip)
  else if pool.isMacTaken mac then
    let (ip, takenMacAddresses) := subscript pool.takenMacAddresses mac
    (.ok ip, { pool with takenMacAddresses })
  -- the source tests `is_address_taken(mac)` again here, which is known to be false
  else if pool.isAddressCached mac ∧ ¬ pool.isMacTaken mac then
    let (ip, cache) := subscript pool.cache mac
    (.ok ip, { pool with cache }.take mac ip)
  else
    match pool.firstFree with
    | some ip => (.ok ip, pool.take mac ip)
    | none => (throwRuntimeError "нет свободных адресов для выдачи", pool)

/-- `release_address` has an empty body. -/
def releaseAddress (pool : AddressPool) (_ip : IPv4Address) : AddressPool := pool

/-! ## Options -/

def setOption (pool : AddressPool) (option : DhcpOption) : AddressPool :=
  { pool with options := pool.options.insert option.description.code option }

def removeOption (pool : AddressPool) (optionNumber : ℤ) : AddressPool :=
  { pool with options := pool.options.erase optionNumber }

end AddressPool

/-! ## Runs of the public operations -/

omit [Host] in
inductive PoolCall where
  | includeIp (ip : IPv4Address)
  | excludeIp (ip : IPv4Address)
  | includeIpRange (ipStart ipEnd : IPv4Address)
  | excludeIpRange (ipStart ipEnd : IPv4Address)
  | reserveIp (ip : IPv4Address) (mac : MacAddress)
  | unreserveIp (ip : IPv4Address)
  | getAddress (mac : MacAddress)
  | releaseAddress (ip : IPv4Address)
  | setOption (option : DhcpOption)
  | removeOption (optionNumber : ℤ)

namespace AddressPool

/-- What the call returns, if it returns something, and the pool after it. -/
def call (pool : AddressPool) : PoolCall → Cpp (Option IPv4Address) × AddressPool
  | .includeIp ip => (.ok none, pool.includeIp ip)
  | .excludeIp ip => (.ok none, pool.excludeIp ip)
  | .includeIpRange ipStart ipEnd => (.ok none, pool.includeIpRange ipStart ipEnd)
  | .excludeIpRange ipStart ipEnd => (.ok none, pool.excludeIpRange ipStart ipEnd)
  | .reserveIp ip mac =>
    let (result, pool) := pool.reserveIp ip mac
    (result.map fun _ => none, pool)
  | .unreserveIp ip =>
    let (result, pool) := pool.unreserveIp ip
    (result.map fun _ => none, pool)
  | .getAddress mac =>
    let (result, pool) := pool.getAddress mac
    (result.map some, pool)
  | .releaseAddress ip => (.ok none, pool.releaseAddress ip)
  | .setOption option => (.ok none, pool.setOption option)
  | .removeOption optionNumber => (.ok none, pool.removeOption optionNumber)

def machine : Machine AddressPool PoolCall (Cpp (Option IPv4Address)) := ⟨call⟩

end AddressPool

end Klevret.Dhcp
