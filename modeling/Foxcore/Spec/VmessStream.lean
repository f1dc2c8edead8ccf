import Foxcore.Ref.VmessStream

/-!
# What a chunk stream has to carry

The two ends have the same key, IV and masks, so the receiving half starts as the sending half
did. A perfect cipher opens, under each counter, what the peer sealed under it and nothing else.
-/

namespace Foxcore.Spec.Vmess

open Ref.Vmess

/-- The peer seals these chunks, one after the other. -/
def Perfect (c : DataCryptor) (chunks : List Bytes) : Prop :=
  ∀ aead, c.cipher = some aead → ∀ i < 65536, ∀ frame plain,
    aead.decrypt (DataCryptor.nonceBytes c.iv i) frame = some plain ↔
      chunks[i]? = some plain ∧ frame = aead.encrypt (DataCryptor.nonceBytes c.iv i) plain

/-- The datagram can be expressed on the carrier. -/
def Fits (c : DataCryptor) (datagram : Bytes) : Prop := datagram.length + c.tagLen ≤ 65535

instance Fits.decidable (c : DataCryptor) (datagram : Bytes) : Decidable (Fits c datagram) :=
  inferInstanceAs (Decidable (_ ≤ _))

def fitting (c : DataCryptor) (datagrams : List Bytes) : List Bytes :=
  datagrams.filter fun datagram => Fits c datagram

/-- All that fit arrive as they are, and the receiver goes on, wherever the wire has got to. -/
structure OneToOne (h : Half) (datagrams : List Bytes) : Prop where
  sent : ∃ next, (h.send datagrams).2 = .ok next
  received : (receive h (h.send datagrams).1).1 = fitting h.cryptor datagrams
  goesOn : ∀ wire, wire <+: (h.send datagrams).1 → (receive h wire).2 = .waiting

/-- A new direction of a session with a cipher. -/
structure Fresh (h : Half) : Prop where
  cipher : h.cryptor.cipher.isSome
  counter : h.cryptor.nextCounter = 0
  unused : h.cryptor.used = []

/-- What holds of the peer's stream, read in these pieces, at its other end. -/
structure Carries (k : ResponseKeys) (h : Half) (reads : List Bytes) : Prop where
  /-- Behind a response header, all of it and then the end. -/
  exact : reads.length < 65535 → ∀ header,
    (∀ rest, verifyResponseHeader k (header ++ rest) = .ok rest) →
    decodeDownlink k h (header ++ (h.encodeUplink reads).1) = (reads, .finished)
  /-- Whatever is encoded, for as long as it can be. -/
  nonces : ∀ inputs next, (h.writeAll Half.encodeChunk inputs).2 = .ok next →
    next.cryptor.used.Nodup
  /-- Whatever is on the wire. -/
  onlyPrefix : ∀ wire closed, (clientReads k h wire closed).1 <+: reads.flatten

end Foxcore.Spec.Vmess
