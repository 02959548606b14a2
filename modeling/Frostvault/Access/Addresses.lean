import Frostvault.Aggregates.Rollup

/-!
IP addresses and networks, as `ipaddress` reads and compares them.

An address is read by the IPv4 reader and, if that fails, by the IPv6 reader; a zone after a
percent sign belongs to the address.  A network holds the addresses of its version that agree with
it under its mask.

* `ipv4Value`, `ipv6Value`, `ipAddress`: the readers, `none` where they raise `ValueError`;
* `IpNetwork.contains`: `address in network`.
-/

namespace Frostvault

/-! ### Reading -/

/-- The version of an address or a network. -/
inductive IpVersion
  | v4 | v6
deriving DecidableEq, Repr

/-- `IPv4Address` or `IPv6Address`. -/
structure IpAddress where
  version : IpVersion
  value : ℕ
  scopeId : Option (List Char)
deriving DecidableEq, Repr

/-- The value of a decimal digit. -/
def decimalDigit (c : Char) : Option ℕ :=
  if '0' ≤ c ∧ c ≤ '9' then some (c.toNat - '0'.toNat) else none

/-- The value of a hexadecimal digit. -/
def hexadecimalDigit (c : Char) : Option ℕ :=
  if '0' ≤ c ∧ c ≤ '9' then some (c.toNat - '0'.toNat)
  else if 'a' ≤ c ∧ c ≤ 'f' then some (c.toNat - 'a'.toNat + 10)
  else if 'A' ≤ c ∧ c ≤ 'F' then some (c.toNat - 'A'.toNat + 10)
  else none

/-- The number a text of digits denotes. -/
def readDigits (digit : Char → Option ℕ) (base : ℕ) (text : List Char) : Option ℕ :=
  text.foldlM (fun n c => (digit c).map fun d => base * n + d) 0

/-- `IPv4Address._parse_octet`. -/
def parseOctet (text : List Char) : Option ℕ := do
  guard (text ≠ [] ∧ text.length ≤ 3 ∧ (text = ['0'] ∨ text.head? ≠ some '0'))
  let n ← readDigits decimalDigit 10 text
  guard (n ≤ 255)
  some n

/-- `IPv4Address._ip_int_from_string`. -/
def ipv4Value (text : List Char) : Option ℕ := do
  let octets := text.splitOn '.'
  guard (octets.length = 4)
  octets.foldlM (fun n w => (parseOctet w).map fun d => 256 * n + d) 0

/-- `IPv6Address._parse_hextet`. -/
def parseHextet (text : List Char) : Option ℕ := do
  guard (text ≠ [] ∧ text.length ≤ 4)
  readDigits hexadecimalDigit 16 text

/-- The hextets of a list of parts, put together. -/
def joinHextets (start : ℕ) (parts : List (List Char)) : Option ℕ :=
  parts.foldlM (fun n w => (parseHextet w).map fun d => 65536 * n + d) start

/-- The parts of an IPv6 text; a last part with a dot is an IPv4 address of two hextets. -/
def ipv6Parts (text : List Char) : Option (List (List Char) × Option ℕ) :=
  let parts := text.splitOn ':'
  match parts.getLast? with
  | none => none
  | some last =>
      if '.' ∈ last then (ipv4Value last).map fun n => (parts.dropLast, some n)
      else some (parts, none)

/-- `IPv6Address._ip_int_from_string`.  The IPv4 address at the end counts as two parts; an empty
part inside is the place of the hextets left out. -/
def ipv6Value (text : List Char) : Option ℕ := do
  guard (3 ≤ (text.splitOn ':').length)
  let (parts, embedded) ← ipv6Parts text
  let extra := if embedded.isSome then 2 else 0
  guard (parts.length + extra ≤ 9)
  -- the parts inside, where an empty one stands for hextets left out
  let inner := if embedded.isSome then parts.tail else parts.tail.dropLast
  guard (inner.count [] ≤ 1)
  let value ← match (parts.drop 1).idxOf? [] with
    | none => do
        guard (parts.length + extra = 8)
        joinHextets 0 parts
    | some k =>
        if k < inner.length then do
          let high := parts.take (k + 1)
          let low := parts.drop (k + 2)
          let high := if high.head? = some [] then high.tail else high
          let low := if embedded = none ∧ low.getLast? = some [] then low.dropLast else low
          guard (parts.head? = some [] → high = [])
          guard (embedded = none → parts.getLast? = some [] → low = [])
          guard (high.length + low.length + extra ≤ 7)
          let n ← joinHextets 0 high
          joinHextets (n * 65536 ^ (8 - (high.length + low.length + extra))) low
        else none
  some (match embedded with
    | none => value
    | some n => value * 65536 ^ 2 + n)

/-- `_split_scope_id`. -/
def splitScopeId (text : List Char) : Option (List Char × Option (List Char)) :=
  match text.splitOn '%' with
  | [addr] => some (addr, none)
  | [addr, scope] => if scope = [] then none else some (addr, some scope)
  | _ => none

/-- `ip_address`. -/
def ipAddress (text : List Char) : Option IpAddress :=
  if '/' ∈ text then none
  else match ipv4Value text with
    | some n => some ⟨.v4, n, none⟩
    | none => do
        let (addr, scope) ← splitScopeId text
        let n ← ipv6Value addr
        some ⟨.v6, n, scope⟩

example : ipAddress "10.0.0.5".toList = some ⟨.v4, 0x0a000005, none⟩ := by decide

example : ipAddress "fe80::1%eth0".toList =
    some ⟨.v6, 0xfe800000000000000000000000000001, some "eth0".toList⟩ := by decide

example : ipAddress "10.0.0.05".toList = none := by decide

/-! ### Networks -/

/-- `IPv4Network` or `IPv6Network`. -/
structure IpNetwork where
  version : IpVersion
  networkAddress : ℕ
  netmask : ℕ
deriving DecidableEq, Repr

/-- `address in network`. -/
def IpNetwork.contains (network : IpNetwork) (address : IpAddress) : Bool :=
  network.version = address.version && address.value &&& network.netmask = network.networkAddress

end Frostvault
