import Foxcore.Ref.Outline

/-!
# What an Outline stream promises
-/

namespace Foxcore.Spec.Outline

open Ref Ref.Outline
open Ref.ServerFirst (Bytes Polled)

variable [Shadowsocks]

/-- What is sealed is the address with the accepted bytes behind it. -/
def Carried (address : Bytes) (w : World) : Prop :=
  match w.stream.state with
  | .connected => Shadowsocks.sealed w.stream.writer = address ++ w.accepted
  | _ => Shadowsocks.sealed w.stream.writer = [] ∧ w.accepted = []

/-- The wire begins with the salt the key is derived from, and that with the bytes chosen. -/
structure Opened (key chosen : Bytes) (s : PrefixedProxyStream) : Prop where
  chosen : chosen <+: Shadowsocks.salt s.writer
  derived : Shadowsocks.sealKey s.writer = Shadowsocks.subkey key (Shadowsocks.salt s.writer)
  first : Shadowsocks.sealed s.writer ≠ [] →
    Shadowsocks.salt s.writer <+: Shadowsocks.wire s.writer

/-- A call that was not accepted is repeated. -/
def Repeated (w : World) (c : Call) : Prop := ∀ buffer ∈ w.repeating, c.buffer = buffer

/-- The writer takes all of the first write, if it takes any of it. -/
def Whole (address : Bytes) (w : World) (c : Call) : Prop :=
  w.stream.state ≠ .connected → ∀ n,
    (Shadowsocks.pollWriteEncrypted w.stream.writer (address ++ c.buffer) c.socket).1 = .ready n →
      n = (address ++ c.buffer).length

end Foxcore.Spec.Outline
