import Klevret.Cli.WrapperForParsing

/-! # Addresses of the CLI (`ip_addresses.hpp`, `ip_addresses.cpp`) -/

namespace Klevret.Cli

open Klevret.Base

/-- Four octets. -/
@[ext] structure IPv4Address where
  data : Vector UInt8 4
deriving DecidableEq, Repr

@[ext] structure IPv6Address where
  data : Vector UInt8 6
deriving DecidableEq, Repr

@[ext] structure IPv4SubnetMask where
  data : Vector UInt8 4
deriving DecidableEq, Repr

@[ext] structure IPv6SubnetMask where
  data : Vector UInt8 6
deriving DecidableEq, Repr

/-- The digit loop of `parse_octet` and of `parse_number`; the `int` wraps. -/
def readDigits (wrap : WrapperForParsing) : Int32 × WrapperForParsing :=
  let (digits, wrap) := wrap.readWhile Char.isDigit rfl
  (digits.foldl (fun result ch => result * 10 + Int32.ofNat (ch.toNat - '0'.toNat)) 0, wrap)

def parseOctet (wrap : WrapperForParsing) : Cpp (Int32 × WrapperForParsing) :=
  let (octet, wrap) := readDigits wrap
  if octet < 0 ∨ octet > 255 then throwRuntimeError "Октет должен быть в диапазоне [0..255]"
  else return (octet, wrap)

/-- An `int` stored in a `uint8_t`. -/
def toOctet (octet : Int32) : UInt8 := octet.toUInt32.toUInt8

/-- A dot must follow each octet but the last. -/
def checkDot (wrap : WrapperForParsing) (missing : ℕ) : Cpp WrapperForParsing :=
  if missing ≠ 0 then wrap.check '.' else .ok wrap

/-- The octets that are still to be read. -/
def parseOctets (wrap : WrapperForParsing) : (missing : ℕ) → Cpp (List UInt8 × WrapperForParsing)
  | 0 => return ([], wrap)
  | missing + 1 => do
    let (octet, wrap) ← parseOctet wrap
    let wrap ← checkDot wrap missing
    let (octets, wrap) ← parseOctets wrap missing
    return (toOctet octet :: octets, wrap)

/-- `IPv4Address(const std::string&)`; what follows the last octet is not looked at. -/
def IPv4Address.ofString (ip : List Char) : Cpp IPv4Address := do
  let (octets, _) ← parseOctets (.ofString ip) 4
  if full : octets.length = 4 then return ⟨⟨octets.toArray, full⟩⟩
  else .error (.thrown .outOfRange)

/-- `std::to_string` of an octet. -/
def octetToString (octet : UInt8) : List Char := Nat.toDigits 10 octet.toNat

def IPv4Address.toString (address : IPv4Address) : List Char :=
  octetToString address.data[0] ++ '.' :: (octetToString address.data[1] ++
    '.' :: (octetToString address.data[2] ++ '.' :: octetToString address.data[3]))

/-- `IPv6Address(const std::string&)`, which does not look at the text. -/
def IPv6Address.ofString (_ : List Char) : IPv6Address := ⟨.replicate 6 0⟩

/-- `IPv4SubnetMask(const std::string&)`, which does not look at the text. -/
def IPv4SubnetMask.ofString (_ : List Char) : IPv4SubnetMask := ⟨.replicate 4 0⟩

/-- `IPv6SubnetMask(const std::string&)`, which does not look at the text. -/
def IPv6SubnetMask.ofString (_ : List Char) : IPv6SubnetMask := ⟨.replicate 6 0⟩

end Klevret.Cli
