import Mathlib

/-!
# WireGuard messages

The wire formats. Every message but transport data has one size, and a reader
refuses any other. A field of fixed size is a `Block`; indices and counters are
natural numbers, thirty-two and sixty-four bits wide by construction.
-/

namespace Foxcore.Ref.Wireguard

abbrev Bytes : Type := List UInt8

/-- `[u8; n]`. -/
abbrev Block (n : Nat) : Type := { bytes : Bytes // bytes.length = n }

def Block.zero (n : Nat) : Block n := ⟨List.replicate n 0, List.length_replicate⟩

/-- The low `width` bytes of a number, low byte first. -/
def toLe : (width n : Nat) → Bytes
  | 0, _ => []
  | width + 1, n => UInt8.ofNat (n % 256) :: toLe width (n / 256)

theorem length_toLe (width n : Nat) : (toLe width n).length = width := by
  induction width generalizing n with
  | zero => rfl
  | succ width ih => rw [toLe, List.length_cons, ih]

/-- The number whose bytes these are, low byte first. -/
def fromLe : Bytes → Nat
  | [] => 0
  | b :: rest => b.toNat + 256 * fromLe rest

/-- The low `width` bytes of a number, high byte first. -/
def toBe (width n : Nat) : Bytes := (toLe width n).reverse

/-- Every way an exchange can fail. -/
inductive WireguardError where
  | unexpectedMessage
  | malformedMessage
  | decryption
  | encryption
  | invalidKey
  | entropyUnavailable
  | replay
  | sessionExpired
  | invalidParameters
  deriving DecidableEq

def typeInitiation : UInt8 := 1
def typeResponse : UInt8 := 2
def typeCookieReply : UInt8 := 3
def typeTransport : UInt8 := 4

def initiationLen : Nat := 148
def responseLen : Nat := 92
def cookieReplyLen : Nat := 64
/-- Type, reserved bytes, receiver and counter in front of every transport payload. -/
def transportHeaderLen : Nat := 16
def tagLen : Nat := 16

def initiationMac1Offset : Nat := initiationLen - 32
def responseMac1Offset : Nat := responseLen - 32
def initiationMac2Offset : Nat := initiationLen - 16

structure Initiation where
  senderIndex : Nat
  ephemeral : Block 32
  encryptedStatic : Block 48
  encryptedTimestamp : Block 28
  mac1 : Block 16
  mac2 : Block 16
  deriving DecidableEq

structure Response where
  senderIndex : Nat
  receiverIndex : Nat
  ephemeral : Block 32
  encryptedEmpty : Block 16
  mac1 : Block 16
  mac2 : Block 16
  deriving DecidableEq

structure CookieReply where
  receiverIndex : Nat
  nonce : Block 24
  encryptedCookie : Block 32
  deriving DecidableEq

/-- The type of a message whose reserved bytes are zero. -/
def messageType : Bytes → Option UInt8
  | kind :: a :: b :: c :: _ => if a = 0 ∧ b = 0 ∧ c = 0 then some kind else none
  | _ => none

/-- The type byte, whatever the reserved bytes. -/
def messageKind : Bytes → Option UInt8
  | kind :: _ :: _ :: _ :: _ => some kind
  | _ => none

def header (kind : UInt8) : Bytes := [kind, 0, 0, 0]

def Initiation.encode (m : Initiation) : Bytes :=
  header typeInitiation ++ toLe 4 m.senderIndex ++ m.ephemeral.1 ++ m.encryptedStatic.1 ++
    m.encryptedTimestamp.1 ++ m.mac1.1 ++ m.mac2.1

def readArray (n : Nat) (datagram : Bytes) (offset : Nat) : Except WireguardError (Block n) :=
  if h : offset + n ≤ datagram.length then
    .ok ⟨(datagram.drop offset).take n, by
      rw [List.length_take, List.length_drop]
      omega⟩
  else .error .malformedMessage

def expect (datagram : Bytes) (kind : UInt8) (len : Nat) : Except WireguardError Unit :=
  if messageKind datagram ≠ some kind then .error .unexpectedMessage
  else if datagram.length ≠ len then .error .malformedMessage
  else .ok ()

def Response.decode (datagram : Bytes) : Except WireguardError Response := do
  expect datagram typeResponse responseLen
  let senderIndex ← readArray 4 datagram 4
  let receiverIndex ← readArray 4 datagram 8
  let ephemeral ← readArray 32 datagram 12
  let encryptedEmpty ← readArray 16 datagram 44
  let mac1 ← readArray 16 datagram 60
  let mac2 ← readArray 16 datagram 76
  return { senderIndex := fromLe senderIndex.1, receiverIndex := fromLe receiverIndex.1,
           ephemeral, encryptedEmpty, mac1, mac2 }

def CookieReply.decode (datagram : Bytes) : Except WireguardError CookieReply := do
  expect datagram typeCookieReply cookieReplyLen
  let receiverIndex ← readArray 4 datagram 4
  let nonce ← readArray 24 datagram 8
  let encryptedCookie ← readArray 32 datagram 32
  return { receiverIndex := fromLe receiverIndex.1, nonce, encryptedCookie }

def writeTransportHeader (receiverIndex counter : Nat) : Bytes :=
  header typeTransport ++ toLe 4 receiverIndex ++ toLe 8 counter

/-- The receiver, the counter and the ciphertext of a transport message. -/
def parseTransport (datagram : Bytes) : Except WireguardError (Nat × Nat × Bytes) := do
  if messageKind datagram ≠ some typeTransport then .error .unexpectedMessage
  else if datagram.length < transportHeaderLen + tagLen then .error .malformedMessage
  else
    let receiverIndex ← readArray 4 datagram 4
    let counter ← readArray 8 datagram 8
    return (fromLe receiverIndex.1, fromLe counter.1, datagram.drop transportHeaderLen)

end Foxcore.Ref.Wireguard
