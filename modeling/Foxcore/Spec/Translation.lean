import Foxcore.Ref.Translation

/-!
# What address translation may change

A packet is laid out by the fixed part of its header. Translation replaces one address and
keeps the checksums over it right; everything else in the packet is somebody else's. The
checksums are verified as a receiver does, over the whole of what they cover, and nothing
here knows that they are updated incrementally.
-/

namespace Foxcore.Spec.Translation

open Lib
open Ref (Packet)
open Ref.Translation

/-! ## The packet as its header lays it out -/

structure Layout where
  v6 : Bool
  headerLen : Nat
  protocol : Nat
  /-- Where the payload starts in the payload of the datagram it is a fragment of. -/
  fragment : Nat
  deriving DecidableEq

def layout : Packet → Option Layout
  | [] => none
  | first :: rest =>
    let p := first :: rest
    let headerLen := first.toNat % 16 * 4
    if first.toNat / 16 = 4 then
      if 20 ≤ headerLen ∧ headerLen ≤ p.length then
        some
          { v6 := false
            headerLen
            protocol := (p[9]?.getD 0).toNat
            fragment := readU16 p 6 % 8192 * 8 }
      else none
    else if first.toNat / 16 = 6 ∧ 40 ≤ p.length then
      some { v6 := true, headerLen := 40, protocol := (p[6]?.getD 0).toNat, fragment := 0 }
    else none

namespace Layout

/-- The two addresses stand one behind the other. -/
def addresses (l : Layout) : Nat := if l.v6 then 8 else 12

def width (l : Layout) : Nat := if l.v6 then 16 else 4

/-- Where the address stands that a direction maps. -/
def mapped (l : Layout) : Direction → Nat
  | .toTunnel => l.addresses
  | .toTun => l.addresses + l.width

/-- Where the checksum stands in the transport header, for the transports whose
checksum covers the addresses. -/
def field (l : Layout) : Option Nat :=
  if l.protocol = 6 then some 16
  else if l.protocol = 17 then some 6
  else if l.protocol = 58 ∧ l.v6 = true then some 2
  else none

/-- The bytes translation may change. -/
def MayChange (l : Layout) (d : Direction) (i : Nat) : Prop :=
  (l.mapped d ≤ i ∧ i < l.mapped d + l.width) ∨
    (l.v6 = false ∧ 10 ≤ i ∧ i < 12) ∨
    ∃ field, l.field = some field ∧
      l.headerLen + field ≤ i + l.fragment ∧ i + l.fragment < l.headerLen + field + 2

end Layout

/-! ## Checksums -/

def HeaderVerifies (p : Packet) (l : Layout) : Prop := Verifies (wordSum (p.take l.headerLen))

/-- How much of the payload the transport checksum covers. -/
def covered (p : Packet) (l : Layout) : Nat :=
  if l.protocol = 17 then readU16 p (l.headerLen + 4)
  else if l.v6 then readU16 p 4
  else readU16 p 2 - l.headerLen

/-- The pseudo-header and the covered payload. -/
def transportSum (p : Packet) (l : Layout) : Nat :=
  wordSum ((p.drop l.addresses).take (2 * l.width)) + l.protocol + covered p l +
    wordSum ((p.drop l.headerLen).take (covered p l))

def TransportVerifies (p : Packet) (l : Layout) : Prop :=
  l.fragment = 0 ∧ (∃ field, l.field = some field ∧ field + 2 ≤ covered p l) ∧
    l.headerLen + covered p l ≤ p.length ∧ Verifies (transportSum p l)

/-- UDP over IPv4 without a checksum. -/
def Absent (p : Packet) (l : Layout) : Prop :=
  l.v6 = false ∧ l.protocol = 17 ∧ l.fragment = 0 ∧ l.headerLen + 8 ≤ p.length ∧
    readU16 p (l.headerLen + 6) = 0

/-! ## Translation -/

def translate (t : AddressTranslator) : Direction → Packet → Bool × Packet
  | .toTunnel, p => t.toTunnel p
  | .toTun, p => t.toTun p

/-- The bytes a direction looks for in a family, and those it puts there. -/
def mapping (t : AddressTranslator) (v6 : Bool) (d : Direction) :
    Option (List UInt8 × List UInt8) :=
  let pair := if v6 then t.v6.map fun (tun, peer) => (octets 16 tun, octets 16 peer)
    else t.v4.map fun (tun, peer) => (octets 4 tun, octets 4 peer)
  match d with
  | .toTunnel => pair
  | .toTun => pair.map Prod.swap

/-- The packet holds the address that is mapped. -/
structure Takes (t : AddressTranslator) (d : Direction) (p : Packet) (l : Layout)
    (old new : List UInt8) : Prop where
  layout : layout p = some l
  mapping : mapping t l.v6 d = some (old, new)
  address : (p.drop (l.mapped d)).take l.width = old

structure Kept (d : Direction) (l : Layout) (new : List UInt8) (p p' : Packet) : Prop where
  length : p'.length = p.length
  address : (p'.drop (l.mapped d)).take l.width = new
  only : ∀ i, p'[i]? ≠ p[i]? → l.MayChange d i
  header : l.v6 = false → HeaderVerifies p l → HeaderVerifies p' l
  transport : TransportVerifies p l → ¬Absent p l → TransportVerifies p' l ∧ ¬Absent p' l
  absent : Absent p l → Absent p' l
  payload : l.v6 = false → l.protocol ≠ 6 → l.protocol ≠ 17 →
    p'.drop l.headerLen = p.drop l.headerLen

/-! ## Fragments -/

def payload (p : Packet) : List UInt8 :=
  match layout p with
  | some l => p.drop l.headerLen
  | none => []

/-- A fragment of a datagram: the same protocol and addresses, the options as they may be,
and a stretch of the payload. -/
structure Piece (p : Packet) (offset : Nat) (data : List UInt8) (piece : Packet) : Prop where
  header : ∃ l l', layout p = some l ∧ layout piece = some l' ∧ l.v6 = false ∧ l'.v6 = false ∧
    l'.protocol = l.protocol ∧ l'.fragment = offset
  addresses : (piece.drop 12).take 8 = (p.drop 12).take 8
  data : payload piece = data

/-- The payload from an offset on, cut at multiples of eight. -/
inductive Split (p : Packet) : (offset : Nat) → (data : List UInt8) → List Packet → Prop where
  | last {offset data piece} : Piece p offset data piece → Split p offset data [piece]
  | more {offset data piece rest pieces} : data.length % 8 = 0 → Piece p offset data piece →
      Split p (offset + data.length) rest pieces → Split p offset (data ++ rest) (piece :: pieces)

/-- The fragments of a datagram, which may be a fragment itself. -/
def Fragments (p : Packet) (pieces : List Packet) : Prop :=
  ∃ l, layout p = some l ∧ l.v6 = false ∧ Split p l.fragment (payload p) pieces

def reassemble (pieces : List Packet) : List UInt8 := pieces.flatMap payload

/-! ## The contract -/

structure Keeps (t : AddressTranslator) (d : Direction) (p : Packet) : Prop where
  refused : (translate t d p).1 = false → (translate t d p).2 = p
  translated : (translate t d p).1 = true → ∃ l old new, Takes t d p l old new ∧
    Kept d l new p (translate t d p).2
  fragments : ∀ pieces, Fragments p pieces →
    (∀ piece ∈ pieces, (translate t d piece).1 = (translate t d p).1) ∧
      reassemble (pieces.map fun piece => (translate t d piece).2) = payload (translate t d p).2

/-- A change of address that a checksum of `c` does not feel. All ones is the checksum of
nothing but zeros, and keeps its encoding only if there is nothing but zeros again. -/
def Neutral (c : Nat) (old new : List UInt8) : Prop :=
  if c = 0xffff then wordSum old = 65535 * (old.length / 2) ∧ wordSum new = 0
  else wordSum old % 65535 = wordSum new % 65535

/-- The packets whose transport header is read without regard to the version: the number
of ICMPv6 in an IPv4 header, and a UDP checksum of zero over IPv6, where it is a sum like
any other. -/
def Misreads (t : AddressTranslator) (d : Direction) (p : Packet) : Prop :=
  ∃ l old new, Takes t d p l old new ∧
    ((l.v6 = false ∧ l.protocol = 58 ∧ l.fragment = 0 ∧ l.headerLen + 4 ≤ p.length ∧
        ¬Neutral (readU16 p (l.headerLen + 2)) old new) ∨
      (l.v6 = true ∧ l.protocol = 17 ∧ TransportVerifies p l ∧
        readU16 p (l.headerLen + 6) = 0 ∧ wordSum old % 65535 ≠ wordSum new % 65535))

end Foxcore.Spec.Translation
