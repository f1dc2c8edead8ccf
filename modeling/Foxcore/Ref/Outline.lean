import Foxcore.Ref.Flow
import Foxcore.Ref.ServerFirst

/-!
# Shadowsocks streams with an Outline prefix

The salt such a stream opens with begins with bytes of the profile's choice. The
address goes in front of the first write, in one buffer that is kept while the write
is not complete. The writer of the `shadowsocks` crate is a parameter. It seals as much
of what it is given as it likes, at most a chunk, and says how much. The assertion on
what it says is not part of a release build.
-/

namespace Foxcore.Ref.Outline

open ServerFirst (Bytes Polled)

inductive CipherCategory where
  | none
  | aead
  | aead2022
  deriving DecidableEq

structure CipherKind where
  category : CipherCategory
  saltLen : Nat
  deriving DecidableEq

inductive PrefixError where
  | unsupported
  | invalidInput (limit : Nat)
  deriving DecidableEq

def maxPrefixLen (method : CipherKind) : Nat := method.saltLen / 2

/-- What is behind the chosen bytes is drawn. -/
def prefixedSalt (method : CipherKind) (chosen : Bytes) (drawn : Nat → UInt8) :
    Except PrefixError Bytes :=
  if method.category ≠ .aead then .error .unsupported
  else if chosen.isEmpty ∨ maxPrefixLen method < chosen.length then
    .error (.invalidInput (maxPrefixLen method))
  else .ok (chosen ++ (List.range (method.saltLen - chosen.length)).map drawn)

inductive Address where
  | socketAddress (ip : IpAddr) (port : Nat)
  | domainNameAddress (domain : Str) (port : Nat)

def toAddress (destination : Destination) : Address :=
  match destination.ip with
  | some ip => .socketAddress ip destination.port
  | none => .domainNameAddress destination.host destination.port

/-- The longest plaintext of a chunk. -/
def maxChunk : Nat := 0x3fff

/-- What is asked of the crate and relied on. `Socket` is what the stream below has to say
to a call. A writer seals under the key derived from its salt, which goes out first. -/
class Shadowsocks where
  writeToBuf : Address → Bytes
  subkey (key salt : Bytes) : Bytes
  EncryptedWriter : Type
  Socket : Type
  new (key salt : Bytes) : EncryptedWriter
  pollWriteEncrypted : EncryptedWriter → Bytes → Socket → Polled Nat × EncryptedWriter
  salt : EncryptedWriter → Bytes
  sealKey : EncryptedWriter → Bytes
  /-- The plaintext of the chunks that are complete. -/
  sealed : EncryptedWriter → Bytes
  wire : EncryptedWriter → Bytes
  made : ∀ key given, salt (new key given) = given ∧
    sealKey (new key given) = subkey key given ∧ sealed (new key given) = []
  kept : ∀ w buffer socket, salt (pollWriteEncrypted w buffer socket).2 = salt w ∧
    sealKey (pollWriteEncrypted w buffer socket).2 = sealKey w
  seals : ∀ {w buffer socket w' n}, pollWriteEncrypted w buffer socket = (.ready n, w') →
    n ≤ buffer.length ∧ n ≤ maxChunk ∧ sealed w' = sealed w ++ buffer.take n
  waits : ∀ {w buffer socket answer w'}, pollWriteEncrypted w buffer socket = (answer, w') →
    answer.isReady = false → sealed w' = sealed w
  opens : ∀ w, sealed w ≠ [] → salt w <+: wire w

inductive WriteState where
  | connect (address : Address)
  | connecting (first : Bytes)
  | connected

variable [Shadowsocks]

structure PrefixedProxyStream where
  writer : Shadowsocks.EncryptedWriter
  state : WriteState

namespace PrefixedProxyStream

def new (key salt : Bytes) (address : Address) : PrefixedProxyStream :=
  ⟨Shadowsocks.new key salt, .connect address⟩

/-- The loop from `Connecting` on. -/
def pollConnecting (s : PrefixedProxyStream) (first buffer : Bytes) (socket : Shadowsocks.Socket) :
    Polled Nat × PrefixedProxyStream :=
  match Shadowsocks.pollWriteEncrypted s.writer first socket with
  | (.ready _, writer) => (.ready buffer.length, ⟨writer, .connected⟩)
  | (result, writer) => (result, ⟨writer, .connecting first⟩)

def pollWrite (s : PrefixedProxyStream) (buffer : Bytes) (socket : Shadowsocks.Socket) :
    Polled Nat × PrefixedProxyStream :=
  match s.state with
  | .connect address => s.pollConnecting (Shadowsocks.writeToBuf address ++ buffer) buffer socket
  | .connecting first => s.pollConnecting first buffer socket
  | .connected =>
    let (result, writer) := Shadowsocks.pollWriteEncrypted s.writer buffer socket
    (result, { s with writer })

end PrefixedProxyStream

/-- A stream, the bytes it reported as accepted and the buffer of a call it has not
accepted yet. -/
structure World where
  stream : PrefixedProxyStream
  accepted : Bytes := []
  repeating : Option Bytes := none

/-- The part of `connect_stream` that is about the prefix. -/
def World.connect (method : CipherKind) (key chosen : Bytes) (drawn : Nat → UInt8)
    (destination : Destination) : Except PrefixError World :=
  (prefixedSalt method chosen drawn).map fun salt =>
    { stream := .new key salt (toAddress destination) }

/-- A call of `poll_write` and what the stream below has to say to it. -/
structure Call where
  buffer : Bytes
  socket : Shadowsocks.Socket

def World.step (w : World) (c : Call) : World :=
  match w.stream.pollWrite c.buffer c.socket with
  | (.ready n, stream) => ⟨stream, w.accepted ++ c.buffer.take n, none⟩
  | (_, stream) => { w with stream, repeating := some c.buffer }

end Foxcore.Ref.Outline
