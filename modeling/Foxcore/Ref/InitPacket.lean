import Foxcore.Lib.Command
import Foxcore.Ref.Noise

/-!
# Entropy and templated datagrams

A tunnel draws random bytes from a source that may fail. `InitPacket` is a
template for a datagram that is sent before a handshake; the tags that encode a
payload encode an empty one there.
-/

namespace Foxcore.Ref.Wireguard

open Lib

/-- A source of random bytes. -/
class Entropy (ε : Type) where
  fill : ε → (n : Nat) → Except WireguardError (Block n) × ε
  nextU32 : ε → Except WireguardError UInt32 × ε := fun e =>
    match fill e 4 with
    | (.ok bytes, e) => (.ok (UInt32.ofNat (fromLe bytes.1)), e)
    | (.error error, e) => (.error error, e)

inductive InitTag where
  | bytes (literal : Bytes)
  | timestamp
  | random (len : UInt16)
  | randomLetters (len : UInt16)
  | randomDigits (len : UInt16)
  | payload
  | payloadBase64
  | payloadSize (len : UInt16)
  deriving DecidableEq

def letters : Bytes := ascii "abcdefghijklmnopqrstuvwxyzABCDEFGHIJKLMNOPQRSTUVWXYZ"
def digits : Bytes := ascii "0123456789"
def maxInitPacketLen : Nat := 1280

namespace InitTag

def len : InitTag → Nat
  | .bytes literal => literal.length
  | .timestamp => 4
  | .random len | .randomLetters len | .randomDigits len => len.toNat
  | .payload | .payloadBase64 => 0
  | .payloadSize len => len.toNat

variable {m : Type → Type} [Monad m]

def renderAlphabet (len : Nat) (alphabet : Bytes) (random : (n : Nat) → m (Block n)) :
    m Bytes := do
  let drawn ← random len
  return drawn.1.map fun byte => alphabet.getD (byte.toNat % alphabet.length) 0

def render (nowUnix : Nat) (random : (n : Nat) → m (Block n)) : InitTag → m Bytes
  | .bytes literal => return literal
  | .timestamp => return toBe 4 nowUnix
  | .random len => do
      let drawn ← random len.toNat
      return drawn.1
  | .randomLetters len => renderAlphabet len.toNat letters random
  | .randomDigits len => renderAlphabet len.toNat digits random
  | .payload | .payloadBase64 => return []
  | .payloadSize len => return List.replicate len.toNat 0

end InitTag

/-- A template. The constructor refuses a longer one. -/
structure InitPacket where
  tags : List InitTag
  short : (tags.map InitTag.len).sum ≤ maxInitPacketLen
  deriving DecidableEq

namespace InitPacket

def len (p : InitPacket) : Nat := (p.tags.map InitTag.len).sum

def isEmpty (p : InitPacket) : Bool := p.len = 0

def render {m : Type → Type} [Monad m] (p : InitPacket) (nowUnix : Nat)
    (random : (n : Nat) → m (Block n)) : m Bytes := do
  let rendered ← p.tags.mapM (InitTag.render nowUnix random)
  return rendered.flatten

end InitPacket

end Foxcore.Ref.Wireguard
