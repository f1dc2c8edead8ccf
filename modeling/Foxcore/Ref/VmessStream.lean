import Foxcore.Ref.Text

/-!
# The chunk stream of VMess

Chunks of a stream, or datagrams in packet mode, go out under a counter nonce, each behind
its length under a mask. The ciphers are those of `aes_gcm` and `chacha20poly1305`, the mask
is what Shake128 yields. What has been written is a list of bytes; the loops of a direction
are run on the reads, or on the bytes that have come, in order.
-/

namespace Foxcore.Ref.Vmess

abbrev Bytes := List UInt8

def tagBytes : Nat := 16
def maxResponseHeaderBytes : Nat := 1024

inductive IoError where
  | nonceExhausted
  | shortFrame
  | authentication
  | frameExceedsU16
  | emptyFrame
  | unexpectedEof
  | responseHeader
  | unsupported
  deriving DecidableEq

/-- A cipher under its key: the ciphertext comes with the tag behind it. -/
structure Aead where
  encrypt : (nonce : Bytes) → Bytes → Bytes
  decrypt : (nonce : Bytes) → Bytes → Option Bytes
  length_encrypt : ∀ nonce plain, (encrypt nonce plain).length = plain.length + tagBytes

structure DataCryptor where
  /-- None is the tag-less cipher. -/
  cipher : Option Aead
  iv : Bytes
  nextCounter : Nat := 0
  /-- The nonces that have been used. -/
  used : List Bytes := []

namespace DataCryptor

def tagLen (c : DataCryptor) : Nat := if c.cipher.isSome then tagBytes else 0

def nonceBytes (iv : Bytes) (counter : Nat) : Bytes :=
  [UInt8.ofNat (counter / 256), UInt8.ofNat counter] ++ (iv.take 12).drop 2

/-- The counter is of sixteen bits and does not wrap. -/
def nonce (c : DataCryptor) : Except IoError (Bytes × DataCryptor) :=
  if 65535 ≤ c.nextCounter then .error .nonceExhausted
  else
    let nonce := nonceBytes c.iv c.nextCounter
    .ok (nonce, { c with nextCounter := c.nextCounter + 1, used := c.used ++ [nonce] })

/-- `seal`. -/
def sealPayload (c : DataCryptor) (payload : Bytes) : Except IoError (Bytes × DataCryptor) :=
  match c.cipher with
  | none => .ok (payload, c)
  | some aead =>
      match c.nonce with
      | .error error => .error error
      | .ok (nonce, c) => .ok (aead.encrypt nonce payload, c)

/-- `open`. -/
def openPayload (c : DataCryptor) (payload : Bytes) : Except IoError (Bytes × DataCryptor) :=
  if payload.length < c.tagLen then .error .shortFrame
  else
    match c.cipher with
    | none => .ok (payload, c)
    | some aead =>
        match c.nonce with
        | .error error => .error error
        | .ok (nonce, c) =>
            match aead.decrypt nonce payload with
            | none => .error .authentication
            | some plain => .ok (plain, c)

end DataCryptor

/-- One direction of a session. -/
structure Half where
  cryptor : DataCryptor
  mask : Nat → UInt16
  /-- How many masks have been drawn. -/
  drawn : Nat := 0

def beBytes (n : UInt16) : Bytes := [UInt8.ofNat (n.toNat / 256), UInt8.ofNat n.toNat]

def fromBe (hi lo : UInt8) : UInt16 := UInt16.ofNat (hi.toNat * 256 + lo.toNat)

namespace Half

/-- A sealed payload behind its masked length. -/
def frame (h : Half) (payload : Bytes) : Except IoError (Bytes × Half) :=
  match h.cryptor.sealPayload payload with
  | .error error => .error error
  | .ok (sealed, cryptor) =>
      .ok (beBytes (UInt16.ofNat sealed.length ^^^ h.mask h.drawn) ++ sealed,
        { h with cryptor, drawn := h.drawn + 1 })

/-- A datagram too long for the carrier is passed over. -/
def sendDatagram (h : Half) (payload : Bytes) : Except IoError (Bytes × Half) :=
  if 65535 < payload.length + h.cryptor.tagLen then .ok ([], h) else h.frame payload

def encodeChunk (h : Half) (read : Bytes) : Except IoError (Bytes × Half) :=
  match h.frame read with
  | .error error => .error error
  | .ok (bytes, next) =>
      if 2 + 65535 < bytes.length then .error .frameExceedsU16 else .ok (bytes, next)

/-- What is written, one input after the other, and how it ends. -/
def writeAll (step : Half → Bytes → Except IoError (Bytes × Half)) :
    Half → List Bytes → Bytes × Except IoError Half
  | h, [] => ([], .ok h)
  | h, input :: rest =>
      match step h input with
      | .error error => ([], .error error)
      | .ok (bytes, h) =>
          let written := writeAll step h rest
          (bytes ++ written.1, written.2)

/-- The sending side of `relay_datagrams`. -/
def send (h : Half) (datagrams : List Bytes) : Bytes × Except IoError Half :=
  writeAll sendDatagram h datagrams

/-- A read of nothing is the end, and is sealed as a chunk of nothing. -/
def encodeUplink (h : Half) (reads : List Bytes) : Bytes × Except IoError Half :=
  writeAll encodeChunk h (reads ++ [[]])

end Half

inductive Frame where
  | needMore
  | finished
  | failed (error : IoError)
  | data (payload : Bytes) (next : Half) (rest : Bytes)

/-- One turn of a receiving loop. A byte stream has no empty chunk. -/
def nextFrame (stream : Bool) (h : Half) : Bytes → Frame
  | hi :: lo :: rest =>
      let frameLen := (fromBe hi lo ^^^ h.mask h.drawn).toNat
      if frameLen = h.cryptor.tagLen then .finished
      else if frameLen < h.cryptor.tagLen then .failed .shortFrame
      else if rest.length < frameLen then .needMore
      else
        match h.cryptor.openPayload (rest.take frameLen) with
        | .error error => .failed error
        | .ok (payload, cryptor) =>
            if stream && payload.isEmpty then .failed .emptyFrame
            else .data payload { h with cryptor, drawn := h.drawn + 1 } (rest.drop frameLen)
  | _ => .needMore

/-- How a receiving loop stands when the bytes are used up. -/
inductive Outcome where
  | waiting
  | finished
  | failed (error : IoError)
  deriving DecidableEq

def readAll (stream : Bool) : (rounds : Nat) → Half → Bytes → List Bytes × Outcome
  | 0, _, _ => ([], .waiting)
  | rounds + 1, h, wire =>
      match nextFrame stream h wire with
      | .needMore => ([], .waiting)
      | .finished => ([], .finished)
      | .failed error => ([], .failed error)
      | .data payload next rest =>
          let read := readAll stream rounds next rest
          (payload :: read.1, read.2)

/-- The receiving loop of `relay_datagrams`. Every frame takes bytes from the wire. -/
def receive (h : Half) (wire : Bytes) : List Bytes × Outcome := readAll false wire.length h wire

/-! ## A byte stream -/

/-- What the keys of the response header open. -/
structure ResponseKeys where
  openLength : Bytes → Option Bytes
  openContent : Bytes → Option Bytes
  authentication : UInt8

/-- The bytes behind the response header, once it is there and verified. -/
def verifyResponseHeader (k : ResponseKeys) (wire : Bytes) : Except Outcome Bytes :=
  if wire.length < 2 + tagBytes then .error .waiting
  else
    match k.openLength (wire.take (2 + tagBytes)) with
    | some [hi, lo] =>
        let contentLen := (fromBe hi lo).toNat
        let rest := wire.drop (2 + tagBytes)
        if contentLen < 4 ∨ maxResponseHeaderBytes < contentLen then
          .error (.failed .responseHeader)
        else if rest.length < contentLen + tagBytes then .error .waiting
        else
          match k.openContent (rest.take (contentLen + tagBytes)) with
          | some content =>
              if content[0]? ≠ some k.authentication then .error (.failed .responseHeader)
              else if content[2]? ≠ some 0 then .error (.failed .unsupported)
              else .ok (rest.drop (contentLen + tagBytes))
          | none => .error (.failed .responseHeader)
    | _ => .error (.failed .responseHeader)

def decodeDownlink (k : ResponseKeys) (h : Half) (wire : Bytes) : List Bytes × Outcome :=
  match verifyResponseHeader k wire with
  | .error outcome => ([], outcome)
  | .ok rest => readAll true rest.length h rest

/-- What the application reads, and whether it reads the end of the stream: the task of
`wrap_data_stream` drops its side of the pipe however it ends, also when the carrier does. -/
def clientReads (k : ResponseKeys) (h : Half) (wire : Bytes) (closed : Bool) : Bytes × Bool :=
  let decoded := decodeDownlink k h wire
  (decoded.1.flatten, closed || decoded.2 ≠ .waiting)

end Foxcore.Ref.Vmess
