import Foxcore.Ref.WireguardMessage

/-!
# The handshake

The Noise handshake as WireGuard has it, the initiator's side. What comes from
other crates is a parameter, `WireguardCrates`: the hash and the keyed hash, the
two authenticated ciphers, the stream cipher and the key agreement. Ciphers
work in place, so what they give back is as long as what they are given.
-/

namespace Foxcore.Ref.Wireguard

abbrev Key : Type := Block 32

class WireguardCrates where
  blake2s256 : Bytes → Key
  /-- Keyed, with up to 32 bytes of key. -/
  blake2sMac (key data : Bytes) : Block 16
  encryptInPlace (key : Key) (nonce : Block 12) (aad buffer : Bytes) :
    Option (Block buffer.length × Block 16)
  decryptInPlace (key : Key) (nonce : Block 12) (aad buffer : Bytes) (tag : Block 16) :
    Option (Block buffer.length)
  /-- The cipher with the long nonce, for cookies. -/
  decryptInPlaceX (key : Key) (nonce : Block 24) (aad buffer : Bytes) (tag : Block 16) :
    Option (Block buffer.length)
  /-- The first `n` bytes of the key stream, where there are that many. -/
  keystream (key : Key) (nonce : Block 12) (n : Nat) : Option (Block n)
  PrivateKey : Type
  fromPrivateKey : Key → Option PrivateKey
  computePublicKey : PrivateKey → Option Key
  agree : PrivateKey → Key → Option Key

export WireguardCrates (PrivateKey)

section

variable [WireguardCrates]

/-- The bytes of a text of ASCII characters. -/
def ascii (text : String) : Bytes := text.toList.map fun c => UInt8.ofNat c.toNat

def construction : Bytes := ascii "Noise_IKpsk2_25519_ChaChaPoly_BLAKE2s"
def identifier : Bytes := ascii "WireGuard v1 zx2c4 Jason@zx2c4.com"
def labelMac1 : Bytes := ascii "mac1----"
def labelCookie : Bytes := ascii "cookie--"

def blake2sBlockLen : Nat := 64
def macLen : Nat := 16
def tai64Offset : Nat := 2 ^ 62 + 10

def hash (parts : List Bytes) : Key := WireguardCrates.blake2s256 parts.flatten

def mac (key : Key) (data : Bytes) : Block 16 := WireguardCrates.blake2sMac key.1 data

def hmac (key : Bytes) (data : List Bytes) : Key :=
  let stem := if blake2sBlockLen < key.length then (hash [key]).1 else key
  let padded := stem ++ List.replicate (blake2sBlockLen - stem.length) 0
  let inner := hash (padded.map (· ^^^ 0x36) :: data)
  hash [padded.map (· ^^^ 0x5C), inner.1]

def kdf1 (chainingKey : Key) (input : Bytes) : Key :=
  let secret := hmac chainingKey.1 [input]
  hmac secret.1 [[0x01]]

def kdf2 (chainingKey : Key) (input : Bytes) : Key × Key :=
  let secret := hmac chainingKey.1 [input]
  let first := hmac secret.1 [[0x01]]
  let second := hmac secret.1 [first.1, [0x02]]
  (first, second)

def kdf3 (chainingKey : Key) (input : Bytes) : Key × Key × Key :=
  let secret := hmac chainingKey.1 [input]
  let first := hmac secret.1 [[0x01]]
  let second := hmac secret.1 [first.1, [0x02]]
  let third := hmac secret.1 [second.1, [0x03]]
  (first, second, third)

/-- Four zero bytes and the counter. -/
def nonce (counter : Nat) : Block 12 :=
  ⟨[0, 0, 0, 0] ++ toLe 8 counter, by rw [List.length_append, length_toLe]; rfl⟩

def aeadSealInPlace (key : Key) (counter : Nat) (buffer aad : Bytes) :
    Except WireguardError (Block buffer.length × Block 16) :=
  match WireguardCrates.encryptInPlace key (nonce counter) aad buffer with
  | some sealed => .ok sealed
  | none => .error .encryption

def aeadSeal (key : Key) (counter : Nat) (plaintext aad : Bytes) : Except WireguardError Bytes := do
  let (buffer, tag) ← aeadSealInPlace key counter plaintext aad
  return buffer.1 ++ tag.1

/-- The plaintext. The last sixteen bytes of the buffer are the tag. -/
def aeadOpen (key : Key) (counter : Nat) (buffer aad : Bytes) : Except WireguardError Bytes :=
  if h : buffer.length < tagLen then .error .malformedMessage
  else
    let split := buffer.length - tagLen
    match WireguardCrates.decryptInPlace key (nonce counter) aad (buffer.take split)
        ⟨buffer.drop split, by
          rw [List.length_drop]
          simp only [tagLen] at h
          show buffer.length - (buffer.length - 16) = 16
          omega⟩ with
    | some data => .ok data.1
    | none => .error .decryption

def dh (key : PrivateKey) (peer : Key) : Except WireguardError Key :=
  match WireguardCrates.agree key peer with
  | some shared => .ok shared
  | none => .error .invalidKey

def privateKey (bytes : Key) : Except WireguardError PrivateKey :=
  match WireguardCrates.fromPrivateKey bytes with
  | some key => .ok key
  | none => .error .invalidKey

def publicKey (bytes : Key) : Except WireguardError Key := do
  let key ← privateKey bytes
  match WireguardCrates.computePublicKey key with
  | some key => .ok key
  | none => .error .invalidKey

/-- A reading of the system clock: the time since 1970. -/
structure SystemTime where
  secs : Nat
  nanos : Nat
  deriving DecidableEq

/-- `none` is a clock set to before 1970. -/
def tai64n (now : Option SystemTime) : Block 12 :=
  let since := now.getD ⟨0, 0⟩
  ⟨toBe 8 (since.secs + tai64Offset) ++ toBe 4 since.nanos, by
    simp only [toBe, List.length_append, List.length_reverse, length_toLe]⟩

structure StaticIdentity where
  privateKey : PrivateKey
  publicKey : Key
  peerPublic : Key
  presharedKey : Key

def StaticIdentity.new (key peerPublic : Key) (presharedKey : Option Key) :
    Except WireguardError StaticIdentity := do
  return { privateKey := ← Wireguard.privateKey key, publicKey := ← Wireguard.publicKey key,
           peerPublic, presharedKey := presharedKey.getD (Block.zero 32) }

structure Handshake where
  chainingKey : Key
  hash : Key
  ephemeral : PrivateKey
  senderIndex : Nat

structure TransportKeys where
  sendKey : Key
  receiveKey : Key
  senderIndex : Nat
  receiverIndex : Nat
  deriving DecidableEq

def computeMac1 (peerPublic : Key) (encoded : Bytes) (offset : Nat) : Block 16 :=
  mac (hash [labelMac1, peerPublic.1]) (encoded.take offset)

def verifyMac1 (localPublic : Key) (encoded : Bytes) (offset : Nat) (claimed : Block 16) : Bool :=
  computeMac1 localPublic encoded offset = claimed

def computeMac2 (cookie : Block 16) (encoded : Bytes) (offset : Nat) : Block 16 :=
  WireguardCrates.blake2sMac cookie.1 (encoded.take offset)

/-- `try_into` an array. -/
def toBlock (n : Nat) (bytes : Bytes) : Except WireguardError (Block n) :=
  if h : bytes.length = n then .ok ⟨bytes, h⟩ else .error .malformedMessage

namespace Handshake

def initiate (identity : StaticIdentity) (senderIndex : Nat) (ephemeralSeed : Key)
    (timestamp : Block 12) : Except WireguardError (Handshake × Initiation) := do
  let chainingKey := Wireguard.hash [construction]
  let transcript := Wireguard.hash [chainingKey.1, identifier]
  let transcript := Wireguard.hash [transcript.1, identity.peerPublic.1]
  let ephemeral ← Wireguard.privateKey ephemeralSeed
  let ephemeralPublic ← Wireguard.publicKey ephemeralSeed
  let chainingKey := kdf1 chainingKey ephemeralPublic.1
  let transcript := Wireguard.hash [transcript.1, ephemeralPublic.1]
  let ephemeralShared ← dh ephemeral identity.peerPublic
  let (chainingKey, key) := kdf2 chainingKey ephemeralShared.1
  let encryptedStatic ← aeadSeal key 0 identity.publicKey.1 transcript.1
  let transcript := Wireguard.hash [transcript.1, encryptedStatic]
  let staticShared ← dh identity.privateKey identity.peerPublic
  let (chainingKey, key) := kdf2 chainingKey staticShared.1
  let encryptedTimestamp ← aeadSeal key 0 timestamp.1 transcript.1
  let transcript := Wireguard.hash [transcript.1, encryptedTimestamp]
  let initiation : Initiation :=
    { senderIndex, ephemeral := ephemeralPublic,
      encryptedStatic := ← toBlock 48 encryptedStatic,
      encryptedTimestamp := ← toBlock 28 encryptedTimestamp,
      mac1 := Block.zero 16, mac2 := Block.zero 16 }
  let mac1 := computeMac1 identity.peerPublic initiation.encode initiationMac1Offset
  return ({ chainingKey, hash := transcript, ephemeral, senderIndex }, { initiation with mac1 })

def consumeResponse (h : Handshake) (identity : StaticIdentity) (response : Response) :
    Except WireguardError TransportKeys := do
  if response.receiverIndex ≠ h.senderIndex then .error .unexpectedMessage
  else
    let chainingKey := kdf1 h.chainingKey response.ephemeral.1
    let transcript := Wireguard.hash [h.hash.1, response.ephemeral.1]
    let ephemeralShared ← dh h.ephemeral response.ephemeral
    let chainingKey := kdf1 chainingKey ephemeralShared.1
    let staticShared ← dh identity.privateKey response.ephemeral
    let chainingKey := kdf1 chainingKey staticShared.1
    let (chainingKey, tau, key) := kdf3 chainingKey identity.presharedKey.1
    let transcript := Wireguard.hash [transcript.1, tau.1]
    let empty ← aeadOpen key 0 response.encryptedEmpty.1 transcript.1
    if empty.length ≠ 0 then .error .malformedMessage
    else
      let (sendKey, receiveKey) := kdf2 chainingKey []
      return { sendKey, receiveKey, senderIndex := h.senderIndex,
               receiverIndex := response.senderIndex }

end Handshake

def openCookie (peerPublic : Key) (nonce : Block 24) (encryptedCookie : Block 32)
    (mac1 : Block 16) : Except WireguardError (Block 16) := do
  let key := hash [labelCookie, peerPublic.1]
  let tag ← toBlock 16 (encryptedCookie.1.drop macLen)
  match WireguardCrates.decryptInPlaceX key nonce mac1.1 (encryptedCookie.1.take macLen) tag with
  | some buffer => toBlock 16 buffer.1
  | none => .error .decryption

end

end Foxcore.Ref.Wireguard
