import Foxcore.Lib.InternetChecksum
import Foxcore.Ref.Wire

/-!
# Address translation

The packet tunnel has one address on the tun and one at the peer for each family. The
translator rewrites the source of what leaves the tun and the destination of what comes
back, and repairs the checksums that cover the address. It works in place: `rewrite`
answers with the packet as it leaves it, whether or not it refuses.
-/

namespace Foxcore.Ref.Translation

open Lib

structure AddressTranslator where
  v4 : Option (BitVec 32 × BitVec 32) := none
  v6 : Option (BitVec 128 × BitVec 128) := none
  deriving DecidableEq

inductive TranslationRefusal where
  | noMappingForFamily
  | foreignAddress
  | malformed
  deriving DecidableEq

inductive Direction where
  | toTunnel
  | toTun
  deriving DecidableEq

def protocolIcmp : Nat := 1
def protocolTcp : Nat := 6
def protocolUdp : Nat := 17
def protocolIcmpv6 : Nat := 58
def ipv4MinHeader : Nat := 20
def ipv4Checksum : Nat := 10
def ipv4Protocol : Nat := 9
def ipv4Source : Nat := 12
def ipv4Destination : Nat := 16
def ipv6Header : Nat := 40
def ipv6NextHeader : Nat := 6
def ipv6Source : Nat := 8
def ipv6Destination : Nat := 24

/-- The bytes of an address, most significant first. -/
def octets {w : Nat} (n : Nat) (a : BitVec w) : List UInt8 :=
  (List.range n).map fun i => UInt8.ofNat (a.toNat / 256 ^ (n - 1 - i))

def readU16 (packet : Packet) (offset : Nat) : Nat := (be16 packet offset).getD 0

def writeU16 (packet : Packet) (offset value : Nat) : Packet :=
  overwrite packet offset [UInt8.ofNat (value / 256), UInt8.ofNat value]

/-- `chunks_exact(2)`, read as words. -/
def words : List UInt8 → List Nat
  | a :: b :: rest => (a.toNat * 256 + b.toNat) :: words rest
  | _ => []

def updateChecksum (checksum : Nat) (old new : List UInt8) : Nat :=
  let sum := ((words old).zip (words new)).foldl
    (fun sum word => sum + (0xffff - word.1) + word.2) (0xffff - checksum)
  0xffff - foldCarries sum sum

def ipv4HeaderLen (packet : Packet) : Option Nat := do
  let first ← packet.head?
  if first >>> 4 ≠ 4 then none
  else
    let headerLen := (first &&& 0x0f).toNat * 4
    if ipv4MinHeader ≤ headerLen ∧ headerLen ≤ packet.length then some headerLen else none

def fragmentOffset (packet : Packet) : Nat := readU16 packet 6 &&& 0x1fff

/-- Where the checksum stands in a transport header. -/
def checksumOffset (protocol : Nat) : Option Nat :=
  if protocol = protocolTcp then some 16
  else if protocol = protocolUdp then some 6
  else if protocol = protocolIcmpv6 then some 2
  else if protocol = protocolIcmp then none
  else none

def updateTransportChecksum (packet : Packet) (headerLen protocol fragmentPayloadOffset : Nat)
    (old new : List UInt8) : Packet :=
  match checksumOffset protocol with
  | none => packet
  | some checksumOffset =>
    if checksumOffset < fragmentPayloadOffset then packet
    else
      let offset := headerLen + (checksumOffset - fragmentPayloadOffset)
      if packet.length < offset + 2 then packet
      else
        let current := readU16 packet offset
        if protocol = protocolUdp ∧ current = 0 then packet
        else
          let updated := updateChecksum current old new
          let updated := if protocol = protocolUdp ∧ updated = 0 then 0xffff else updated
          writeU16 packet offset updated

namespace AddressTranslator

/-- The last pair of a family wins, and a mixed pair is passed over. -/
def new (pairs : List (IpAddr × IpAddr)) : AddressTranslator :=
  pairs.foldl (fun translator pair =>
    match pair with
    | (.v4 tun, .v4 peer) => { translator with v4 := some (tun, peer) }
    | (.v6 tun, .v6 peer) => { translator with v6 := some (tun, peer) }
    | _ => translator) {}

def rewriteV4 (t : AddressTranslator) (packet : Packet) (direction : Direction) :
    Except TranslationRefusal Unit × Packet :=
  match t.v4 with
  | none => (.error .noMappingForFamily, packet)
  | some (tun, peer) =>
    match ipv4HeaderLen packet with
    | none => (.error .malformed, packet)
    | some headerLen =>
      let (offset, expected, replacement) :=
        match direction with
        | .toTunnel => (ipv4Source, tun, peer)
        | .toTun => (ipv4Destination, peer, tun)
      let old := octets 4 expected
      let new := octets 4 replacement
      if (packet.drop offset).take 4 ≠ old then (.error .foreignAddress, packet)
      else
        let packet := overwrite packet offset new
        let headerChecksum := readU16 packet ipv4Checksum
        let packet := writeU16 packet ipv4Checksum (updateChecksum headerChecksum old new)
        let protocol := (packet[ipv4Protocol]?.getD 0).toNat
        (.ok (), updateTransportChecksum packet headerLen protocol (fragmentOffset packet * 8)
          old new)

def rewriteV6 (t : AddressTranslator) (packet : Packet) (direction : Direction) :
    Except TranslationRefusal Unit × Packet :=
  match t.v6 with
  | none => (.error .noMappingForFamily, packet)
  | some (tun, peer) =>
    if packet.length < ipv6Header then (.error .malformed, packet)
    else
      let (offset, expected, replacement) :=
        match direction with
        | .toTunnel => (ipv6Source, tun, peer)
        | .toTun => (ipv6Destination, peer, tun)
      let old := octets 16 expected
      let new := octets 16 replacement
      if (packet.drop offset).take 16 ≠ old then (.error .foreignAddress, packet)
      else
        let packet := overwrite packet offset new
        let protocol := (packet[ipv6NextHeader]?.getD 0).toNat
        (.ok (), updateTransportChecksum packet ipv6Header protocol 0 old new)

def rewrite (t : AddressTranslator) (packet : Packet) (direction : Direction) :
    Except TranslationRefusal Unit × Packet :=
  match packet.head? with
  | none => (.error .malformed, packet)
  | some first =>
    if first >>> 4 = 4 then t.rewriteV4 packet direction
    else if first >>> 4 = 6 then t.rewriteV6 packet direction
    else (.error .malformed, packet)

def toTunnel (t : AddressTranslator) (packet : Packet) : Bool × Packet :=
  let (result, packet) := t.rewrite packet .toTunnel
  (result.isOk, packet)

def toTun (t : AddressTranslator) (packet : Packet) : Bool × Packet :=
  let (result, packet) := t.rewrite packet .toTun
  (result.isOk, packet)

end AddressTranslator

end Foxcore.Ref.Translation
