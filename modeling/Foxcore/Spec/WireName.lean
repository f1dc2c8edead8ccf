import Foxcore.Ref.Wire

/-!
# Names in a message

A name in a message is a run of labels that ends with the root or goes on
elsewhere, behind a pointer. `NameAt` says so and nothing more: it has no
bound on jumps or length, and it keeps the labels as they stand in the
message. What the resolver makes of a name, and which names it refuses, is
said of the `WireName` afterwards.

A `WireName` also keeps where it was read from. The offsets in `bytes` are all
that its meaning depends on, and that is what makes it possible to say which
changes to a message leave its names alone.
-/

namespace Foxcore.Spec

open Ref

/-- A name as it stands in a message: its labels, how many pointers lead
through it, the offset behind it and the offsets of the bytes it is read
from. -/
structure WireName where
  labels : List Str
  jumps : Nat
  next : Nat
  bytes : List Nat
  deriving DecidableEq

/-- Where a pointer leads. -/
def pointerTarget (hi lo : UInt8) : Nat := (hi &&& 0x3f).toNat * 256 + lo.toNat

/-- The name at an offset of a message. -/
inductive NameAt (packet : Packet) : Nat → WireName → Prop
  | root {p : Nat} : packet[p]? = some 0 → NameAt packet p ⟨[], 0, p + 1, [p]⟩
  | label {p : Nat} {length : UInt8} {label : Str} {rest : WireName} :
      packet[p]? = some length → length &&& 0xc0 = 0 → length ≠ 0 →
      slice packet (p + 1) length.toNat = some label →
      NameAt packet (p + 1 + length.toNat) rest →
      NameAt packet p
        ⟨label :: rest.labels, rest.jumps, rest.next,
          List.range' p (length.toNat + 1) ++ rest.bytes⟩
  | pointer {p : Nat} {hi lo : UInt8} {rest : WireName} :
      packet[p]? = some hi → hi &&& 0xc0 = 0xc0 → packet[p + 1]? = some lo →
      NameAt packet (pointerTarget hi lo) rest →
      NameAt packet p ⟨rest.labels, rest.jumps + 1, p + 2, p :: (p + 1) :: rest.bytes⟩

namespace WireName

/-- The length the labels take, each with the byte before it. -/
def wireLen (w : WireName) : Nat := (w.labels.map fun label => label.length + 1).sum

/-- What the resolver accepts of a name. -/
structure Legible (w : WireName) : Prop where
  jumps : w.jumps ≤ maxPointerJumps
  wireLen : w.wireLen ≤ 255
  utf8 : ∀ label ∈ w.labels, Str.validUtf8 label = true

/-- The labels without case. -/
def lowered (w : WireName) : List Str := w.labels.map Str.toAsciiLowercase

def text (w : WireName) : Str := Str.join dot w.lowered

end WireName

end Foxcore.Spec
