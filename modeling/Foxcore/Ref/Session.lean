import Foxcore.Ref.Noise
import Foxcore.Ref.Replay

/-!
# Transport sessions

One pair of keys, one counter of messages sent and one replay window. Sealing
advances the counter before it encrypts, so a message that could not be
encrypted has used its counter up.
-/

namespace Foxcore.Ref.Wireguard

def rekeyAfterMessages : Nat := 2 ^ 60
def padTo : Nat := 16

structure TransportSession where
  sendKey : Key
  receiveKey : Key
  localIndex : Nat
  remoteIndex : Nat
  sendCounter : Nat
  replay : ReplayWindow
  deriving DecidableEq

namespace TransportSession

def new (keys : TransportKeys) : TransportSession :=
  { sendKey := keys.sendKey, receiveKey := keys.receiveKey, localIndex := keys.senderIndex,
    remoteIndex := keys.receiverIndex, sendCounter := 0, replay := {} }

def needsRekey (t : TransportSession) : Bool := rekeyAfterMessages ≤ t.sendCounter

def canSend (t : TransportSession) : Bool := t.sendCounter < rejectAfterMessages

section

variable [WireguardCrates]

def sealPadded (t : TransportSession) (packet : Bytes) (paddedLen : Nat) :
    Except WireguardError Bytes × TransportSession :=
  if rejectAfterMessages ≤ t.sendCounter then (.error .sessionExpired, t)
  else
    let counter := t.sendCounter
    let t := { t with sendCounter := counter + 1 }
    let padded := packet.take paddedLen ++ List.replicate (paddedLen - packet.length) 0
    match aeadSealInPlace t.sendKey counter padded [] with
    | .ok (buffer, tag) =>
      (.ok (writeTransportHeader t.remoteIndex counter ++ buffer.1 ++ tag.1), t)
    | .error error => (.error error, t)

/-- Padded to a multiple of sixteen bytes. -/
def sealPacket (t : TransportSession) (packet : Bytes) :
    Except WireguardError Bytes × TransportSession :=
  t.sealPadded packet ((packet.length + (padTo - 1)) / padTo * padTo)

def sealWithPadding (t : TransportSession) (packet : Bytes) (padding : Nat) :
    Except WireguardError Bytes × TransportSession :=
  match add64 packet.length padding with
  | some paddedLen => t.sealPadded packet paddedLen
  | none => (.error .invalidParameters, t)

/-- With so much padding, or with the standard padding. -/
def sealAs (t : TransportSession) (packet : Bytes) (padding : Option Nat) :
    Except WireguardError Bytes × TransportSession :=
  match padding with
  | some padding => t.sealWithPadding packet padding
  | none => t.sealPacket packet

/-- Open a transport message. The replay window is asked after the message has
been authenticated. It never panics (`accept_ne_none`), so its third answer
stands for nothing. -/
def openMessage (t : TransportSession) (datagram : Bytes) :
    Except WireguardError Bytes × TransportSession :=
  match parseTransport datagram with
  | .error error => (.error error, t)
  | .ok (receiverIndex, counter, ciphertext) =>
    if receiverIndex ≠ t.localIndex then (.error .unexpectedMessage, t)
    else
      match aeadOpen t.receiveKey counter ciphertext [] with
      | .error error => (.error error, t)
      | .ok plaintext =>
        match t.replay.accept counter with
        | some (true, replay) => (.ok plaintext, { t with replay })
        | some (false, replay) => (.error .replay, { t with replay })
        | none => (.error .replay, t)

end

end TransportSession

/-- `u16::from_be_bytes` of the two bytes at an offset. -/
def be16At (bytes : Bytes) (offset : Nat) : Option Nat := do
  let hi ← bytes[offset]?
  let lo ← bytes[offset + 1]?
  return hi.toNat * 256 + lo.toNat

/-- The length of the IP packet at the front of a plaintext. -/
def ipPacketLen (plaintext : Bytes) : Option Nat := do
  let first ← plaintext.head?
  let version := first >>> 4
  let length ←
    if version = 4 then be16At plaintext 2
    else if version = 6 then (be16At plaintext 4).map (40 + ·)
    else none
  if 20 ≤ length ∧ length ≤ plaintext.length then some length else none

end Foxcore.Ref.Wireguard
