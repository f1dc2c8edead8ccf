import Foxcore.Ref.Text

/-!
# Addresses

`IpAddr` is the standard library's, an IPv4 or an IPv6 address as the number
its octets spell. `parseIpAddr` is the standard parser the source calls when
it asks whether a host is a literal address: a dotted quad without leading
zeros, or groups of up to four hex digits with at most one `::` and an
optional dotted quad in the last two groups, and nothing left over.

Address prefixes come from the `ipnet` crate, which is not part of the
repository. `IpNet` is what the rule matcher asks of it.
-/

namespace Foxcore.Ref

/-- `std::net::IpAddr`. -/
inductive IpAddr where
  | v4 (addr : BitVec 32)
  | v6 (addr : BitVec 128)
  deriving DecidableEq

/-- What the engine uses of `ipnet::IpNet`: whether a prefix contains an
address. -/
class IpNet (ν : Type) where
  contains : ν → IpAddr → Bool

/-- A prefix as the crate documents it: the addresses of one family that agree
with the network address on the leading bits. -/
structure Cidr where
  addr : IpAddr
  prefixLen : Nat
  deriving DecidableEq

instance : IpNet Cidr where
  contains net ip :=
    match net.addr, ip with
    | .v4 a, .v4 b => a >>> (32 - net.prefixLen) = b >>> (32 - net.prefixLen)
    | .v6 a, .v6 b => a >>> (128 - net.prefixLen) = b >>> (128 - net.prefixLen)
    | _, _ => false

/-! ## The text of an address

The parser holds the bytes not read yet. A reader that fails gives nothing
back, so its caller still holds the bytes it started from. -/

/-- The value of a digit in the given radix, at most sixteen. -/
def toDigit (radix : Nat) (b : UInt8) : Option Nat :=
  let d :=
    if 0x30 ≤ b ∧ b ≤ 0x39 then b.toNat - 0x30
    else if 0x61 ≤ b ∧ b ≤ 0x66 then b.toNat - 0x61 + 10
    else if 0x41 ≤ b ∧ b ≤ 0x46 then b.toNat - 0x41 + 10
    else 16
  if d < radix then some d else none

/-- Reads one given byte. -/
def readGivenChar (c : UInt8) : Str → Option Str
  | b :: rest => if b = c then some rest else none
  | [] => none

/-- Reads a number of at most `maxDigits` digits whose value is at most
`bound`. A longer run of digits is refused as a whole. -/
def readNumber (radix maxDigits bound : Nat) (allowZeroPrefix : Bool) (s : Str) :
    Option (Nat × Str) :=
  let digits := s.takeWhile fun b => (toDigit radix b).isSome
  let value := digits.foldl (fun n b => n * radix + (toDigit radix b).getD 0) 0
  if digits.length > maxDigits ∨ digits.length = 0 then none
  else if allowZeroPrefix = false ∧ s.head? = some 0x30 ∧ digits.length > 1 then none
  else if value > bound then none
  else some (value, s.drop digits.length)

/-- Reads a dotted quad. -/
def readIpv4Addr (s : Str) : Option (BitVec 32 × Str) := do
  let (a, s) ← readNumber 10 3 255 false s
  let s ← readGivenChar dot s
  let (b, s) ← readNumber 10 3 255 false s
  let s ← readGivenChar dot s
  let (c, s) ← readNumber 10 3 255 false s
  let s ← readGivenChar dot s
  let (d, s) ← readNumber 10 3 255 false s
  return (BitVec.ofNat 32 (((a * 256 + b) * 256 + c) * 256 + d), s)

/-- Reads up to `limit` groups of an IPv6 address, answering the groups, whether
they end in an embedded dotted quad, and the bytes left over. The first group
of a run has no separator in front of it. -/
def readGroups : (limit : Nat) → (first : Bool) → Str → List Nat × Bool × Str
  | 0, _, s => ([], false, s)
  | n + 1, first, s =>
    let body := if first then some s else readGivenChar colon s
    match if 1 ≤ n then body.bind readIpv4Addr else none with
    | some (v4, rest) => ([v4.toNat / 65536, v4.toNat % 65536], true, rest)
    | none =>
      match body.bind (readNumber 16 4 65535 true) with
      | none => ([], false, s)
      | some (group, rest) =>
        let (groups, v4, rest) := readGroups n false rest
        (group :: groups, v4, rest)

/-- Reads an IPv6 address: eight groups, or fewer around one `::`. -/
def readIpv6Addr (s : Str) : Option (BitVec 128 × Str) := do
  let pack := fun groups : List Nat =>
    BitVec.ofNat 128 (groups.foldl (fun n g => n * 65536 + g) 0)
  let (head, headIpv4, s) := readGroups 8 true s
  if head.length = 8 then return (pack head, s)
  if headIpv4 then none
  let s ← readGivenChar colon s
  let s ← readGivenChar colon s
  let (tail, _, s) := readGroups (8 - (head.length + 1)) true s
  let zeros := List.replicate (8 - tail.length - head.length) 0
  return (pack (head ++ zeros ++ tail), s)

/-- `str::parse::<IpAddr>`: an address and nothing behind it. -/
def parseIpAddr (s : Str) : Option IpAddr :=
  let read : Option (IpAddr × Str) :=
    match readIpv4Addr s with
    | some (a, rest) => some (.v4 a, rest)
    | none => (readIpv6Addr s).map fun r => (.v6 r.1, r.2)
  match read with
  | some (a, []) => some a
  | _ => none

end Foxcore.Ref
