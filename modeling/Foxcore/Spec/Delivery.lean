import Foxcore.Ref.Tunnel
import Foxcore.Spec.Obfuscation

/-!
# From one tunnel to the other

What two tunnels must have in common for a packet to get from one to the other,
and what is assumed of the ciphers. A datagram has no type of its own: what is
in it is found by trying. `Offered` is what a receiver tries as a handshake
message, `Authentic` what a code or a cipher would accept as one.
-/

namespace Foxcore.Spec

open Ref Ref.Wireguard

/-- A packet whose header says how long it is. An IPv4 header has at least
twenty bytes. -/
def IpPacket (packet : Bytes) : Prop :=
  ∃ first, packet.head? = some first ∧
    ((first >>> 4 = 4 ∧ 20 ≤ packet.length ∧ be16At packet 2 = some packet.length) ∨
      (first >>> 4 = 6 ∧ (be16At packet 4).map (40 + ·) = some packet.length))

/-- The sessions of both ends of a tunnel, as far as one direction goes. An index
has thirty-two bits. -/
structure Mirrors (mine theirs : TransportSession) : Prop where
  key : theirs.receiveKey = mine.sendKey
  index : theirs.localIndex = mine.remoteIndex
  narrow : mine.remoteIndex < 2 ^ 32

section

variable [WireguardCrates] {ε : Type}

/-- What is sealed is opened to what it was, and the key stream is as long as the
longest message. -/
structure SoundCiphers : Prop where
  opens : ∀ key nonce aad buffer sealed tag,
    WireguardCrates.encryptInPlace key nonce aad buffer = some (sealed, tag) →
    (WireguardCrates.decryptInPlace key nonce aad sealed.1 tag).map (·.1) = some buffer
  streams : ∀ key nonce n, n ≤ initiationLen → WireguardCrates.keystream key nonce n ≠ none

/-- Parameters that a tunnel is made with. -/
def ValidParams (amnezia : AmneziaParams) (key : Option HeaderProtectionKey) : Prop :=
  amnezia.validate = .ok () ∧
    (key.isSome → HeaderProtectionKey.validatePrefixes amnezia = .ok ())

/-- A tunnel that has been told the time. -/
def entered (t : PeerTunnel ε) (nowMs : Nat) : PeerTunnel ε := { t with nowMs }.expireSessions

/-- The session is the one its index names. -/
def HasSession (t : PeerTunnel ε) (live : Live) : Prop :=
  t.live = some live ∨ t.previous = some live ∧
    ∀ newer, t.live = some newer → newer.session.localIndex ≠ live.session.localIndex

/-- What a receiver tries as a handshake message, with the header it has on the
wire. -/
def Offered (t : PeerTunnel ε) (datagram : Bytes) (kind : UInt8) (body : Bytes) : Prop :=
  match t.headerProtectionKey with
  | none => t.amnezia.handshakeBody datagram = .ok (kind, body)
  | some key => ∃ mask, key.transform datagram (List.replicate transportHeaderLen 0) = .ok mask ∧
      ∃ candidate ∈ t.amnezia.candidates, candidate.kind = kind ∧
        t.protectedHandshakeBody datagram candidate mask = .ok (some body)

/-- The code of a response is right, or a cookie can be opened. -/
def Authentic (t : PeerTunnel ε) (kind : UInt8) (body : Bytes) : Prop :=
  kind = typeResponse ∧ (∃ response,
    Response.decode (header kind ++ body.drop 4) = .ok response ∧
    verifyMac1 t.identity.publicKey
      (if t.amnezia.isVanilla then header kind ++ body.drop 4 else body) responseMac1Offset
      response.mac1 = true) ∨
  kind = typeCookieReply ∧ ∃ reply inFlight value,
    CookieReply.decode (header kind ++ body.drop 4) = .ok reply ∧ t.handshake = some inFlight ∧
    openCookie t.identity.peerPublic reply.nonce reply.encryptedCookie inFlight.mac1 = .ok value

/-- The response in a message is one to the handshake in flight, and opens to keys. -/
def Establishes (t : PeerTunnel ε) (datagram authenticated : Bytes) (keys : TransportKeys) : Prop :=
  ∃ inFlight response, t.handshake = some inFlight ∧ Response.decode datagram = .ok response ∧
    response.receiverIndex = inFlight.handshake.senderIndex ∧
    verifyMac1 t.identity.publicKey (if t.amnezia.isVanilla then datagram else authenticated)
      responseMac1Offset response.mac1 = true ∧
    inFlight.handshake.consumeResponse t.identity response = .ok keys

/-- The datagram has a shape that is tried when a response in it has failed. -/
def TriedAfterResponse (t : PeerTunnel ε) (datagram : Bytes) : Prop :=
  match t.headerProtectionKey with
  | none => t.amnezia.isTransport datagram = true
  | some key => ∃ mask, key.transform datagram (List.replicate transportHeaderLen 0) = .ok mask ∧
      ((∃ candidate ∈ t.amnezia.candidates, candidate.kind = typeCookieReply ∧
          t.protectedHandshakeBody datagram candidate mask ≠ .ok none) ∨
        t.amnezia.transportJunkSize.toNat + (transportHeaderLen + tagLen) ≤ datagram.length ∧
          t.amnezia.headerTransport.contains
            (PeerTunnel.maskedHeader datagram t.amnezia.transportJunkSize.toNat mask) = true)

/-- Packets wait for the response in a datagram, and the datagram could be
something else as well. -/
def Mistakable (t : PeerTunnel ε) (datagram : Bytes) : Prop :=
  t.pending ≠ [] ∧ (∃ body keys, Offered t datagram typeResponse body ∧
    Establishes t (header typeResponse ++ body.drop 4) body keys) ∧ TriedAfterResponse t datagram

/-- A message can always be sealed, and the key stream is as long as the longest
message. -/
structure ReliableCiphers : Prop where
  encrypts : ∀ key nonce aad buffer, WireguardCrates.encryptInPlace key nonce aad buffer ≠ none
  streams : ∀ key nonce n, n ≤ initiationLen → WireguardCrates.keystream key nonce n ≠ none

/-- When random bytes cannot be had, that is what is reported. -/
structure HonestEntropy (ε : Type) [Entropy ε] : Prop where
  fill : ∀ (entropy : ε) n error, (Entropy.fill entropy n).1 = .error error →
    error = .entropyUnavailable
  nextU32 : ∀ (entropy : ε) error, (Entropy.nextU32 entropy).1 = .error error →
    error = .entropyUnavailable

/-- What the sender's parameters make of a transport message. -/
def Shaped (t : PeerTunnel ε) (message shaped : Bytes) : Prop :=
  if t.amnezia.isVanilla then shaped = t.stampReserved message
  else ∃ window, Wrapped t.amnezia typeTransport window message shaped

/-- What a transport message looks like on the wire. -/
def OnWire (t : PeerTunnel ε) (message datagram : Bytes) : Prop :=
  ∃ shaped, t.protectMessage typeTransport shaped = .ok datagram ∧ Shaped t message shaped

/-- Two tunnels with the same parameters, and a session of either that mirrors the
other. -/
structure Peers {ε' : Type} (sender : PeerTunnel ε) (receiver : PeerTunnel ε')
    (mine theirs : Live) : Prop where
  valid : ValidParams sender.amnezia sender.headerProtectionKey
  params : receiver.amnezia = sender.amnezia
  key : receiver.headerProtectionKey = sender.headerProtectionKey
  /-- A `usize`. -/
  window : sender.udpWindow < 2 ^ 64
  seals : sender.live = some mine
  opens : HasSession receiver theirs
  mirrors : Mirrors mine.session theirs.session

end

end Foxcore.Spec
