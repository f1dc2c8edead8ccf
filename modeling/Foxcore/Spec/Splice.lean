import Foxcore.Lib.History
import Foxcore.Ref.Splice

/-!
# The prelude, and half-closing

What a codec wants to send when the application says nothing is not lost: it
goes up once and before everything else, and when the task goes to sleep after
the delay it has gone up, unless the application has written.

An application that has written all it has to write can still be answered: what
the peer sends afterwards is delivered.
-/

namespace Foxcore.Spec.Splice

open Lib Lib.Command Ref.Splice

variable {ℓ γ : Type}

section

variable [RecordLayer ℓ] [InnerCodec γ]

/-- What the record layer makes of the bytes of the codec. -/
def Encrypts (layer : ℓ) (framed wire : Bytes) : Prop :=
  if framed = [] then wire = []
  else ∃ layer' layer'', RecordLayer.writePlaintext layer framed = .ok layer' ∧
    RecordLayer.writeTls layer' = .ok (wire, layer'')

/-- What goes up is what the codec has for it, sealed, or the bytes themselves once
the codec has switched. -/
def Formed (pipes : Pipes ℓ γ) : Uplink → Prop
  | .timeout wire => ∃ framed codec,
      InnerCodec.onFirstWriteTimeout pipes.codec = .ok (framed, codec) ∧
        Encrypts pipes.layer framed wire
  | .data bytes wire =>
    if pipes.uplinkDirect then wire = bytes
    else ∃ framed switch codec, InnerCodec.uplink pipes.codec bytes = .ok (framed, switch, codec) ∧
      Encrypts pipes.layer framed wire
  | .close _ => True

/-- The prelude goes up before anything else, and so only once. -/
def PreludeFirst (uplinks : List (Pipes ℓ γ × Uplink)) : Prop :=
  Throughout (fun before entry => ∀ wire, entry.2 = .timeout wire → before = []) uplinks

structure PreludeKept (delay : Option Nat) (w : Relay ℓ γ) : Prop where
  first : PreludeFirst w.uplinks
  due : ∀ d since slept, delay = some d → w.asked = some since → w.asleep = some slept →
    since + d ≤ slept → (∀ pipes bytes wire, (pipes, .data bytes wire) ∉ w.uplinks) →
      ∃ pipes wire, (pipes, .timeout wire) ∈ w.uplinks ∧ Formed pipes (.timeout wire)

end

/-- The network does not come first while a deadline is set. -/
def Undisturbed (w : Relay ℓ γ) (p : Poll) : Prop :=
  p.network = none ∨
    if p.appFirst then
      (w.ask p.now).reading.join = none ∨ p.application ≠ none ∨
        (w.ask p.now).reading.join.any (· ≤ p.now) = true
    else w.reading.join = none

instance (w : Relay ℓ γ) (p : Poll) : Decidable (Undisturbed w p) :=
  inferInstanceAs (Decidable (_ ∨ ite _ _ _))

/-- A relay before its first poll, with a codec of this delay. -/
def Started [RecordLayer ℓ] [InnerCodec γ] (delay : Option Nat) (w : Relay ℓ γ) : Prop :=
  ∃ p layer codec, InnerCodec.firstWriteDelay codec = delay ∧ w = Relay.start p layer codec

/-! ## Half-closing -/

/-- The poll reads these bytes from the application; if there are none, it is the
end of what the application writes. -/
def Takes (w : Relay ℓ γ) (p : Poll) (bytes : Bytes) : Prop :=
  w.ended = false ∧ p.application = some (.ok bytes) ∧ (p.appFirst = true ∨ p.network = none)

def brought (p : Poll) : Bytes :=
  match p.application with
  | some (.ok bytes) => bytes
  | _ => []

/-- What a poll reads from the application. -/
def consumed (w : Relay ℓ γ) (p : Poll) : Bytes :=
  if w.ended || !p.appFirst && p.network.isSome then [] else brought p

def plaintext : Uplink → Bytes
  | .data bytes _ => bytes
  | _ => []

variable [RecordLayer ℓ] [InnerCodec γ]

/-- What the application has written in a run, as far as it was read. -/
def written (w : Relay ℓ γ) : List Poll → Bytes
  | [] => []
  | p :: polls => consumed w p ++ written (w.poll p) polls

/-- These bytes have gone up, each as it should. -/
def Carried (uplinks : List (Pipes ℓ γ × Uplink)) (bytes : Bytes) : Prop :=
  uplinks.flatMap (plaintext ·.2) = bytes ∧ ∀ entry ∈ uplinks, Formed entry.1 entry.2

end Foxcore.Spec.Splice
