import Foxcore.Lib.System
import Foxcore.Ref.Datagram

/-!
# Datagrams in, datagrams out

A run keeps what the flow has accepted and what the session has handed over, next to what
became of it.
-/

namespace Foxcore.Spec.Datagram

open Ref.Netstack Ref.Datagram

structure World where
  relay : Relay
  /-- The payloads of the packets that were accepted, the first one's included. -/
  accepted : List (List UInt8)
  /-- The payloads from the session that fit in a packet. -/
  answered : List (List UInt8) := []

inductive Action where
  | arrive (payload : List UInt8)
  | read (now : Nat) (sent : Option Ending)
  | receive (now : Nat) (payload : List UInt8) (delivery : SessionPacketDelivery)
  | stop (ending : Ending)
  deriving DecidableEq

/-- The ways the loop is left from outside. -/
def outside : Ending → Bool
  | .stopped | .receiveFailed => true
  | _ => false

namespace World

def flow (w : World) : DatagramFlow := w.relay.flow

/-- A packet arrives only if it fits in the MTU, and the relay does nothing once it has left
its loop. A datagram is sent, or its sending fails or is stopped. -/
def step (w : World) : Action → World
  | .arrive payload =>
    if payload.length ≤ w.flow.maxPayload then
      let arrived := w.flow.accept payload
      { w with
        relay := { w.relay with flow := arrived.2 }
        accepted := if arrived.1 then w.accepted ++ [payload] else w.accepted }
    else w
  | .read now sent =>
    if w.relay.ending.isSome || decide (sent = some .endOfFile) then w
    else { w with relay := w.relay.read now sent }
  | .receive now payload delivery =>
    if w.relay.ending.isSome then w
    else
      { w with
        relay := w.relay.receive now payload delivery
        answered := if payload.length ≤ w.flow.maxPayload then w.answered ++ [payload]
          else w.answered }
  | .stop ending =>
    if w.relay.ending.isSome || !outside ending then w
    else { w with relay := { w.relay with ending := some ending } }

/-- A flow made for its first packet. -/
def Initial (w : World) : Prop :=
  ∃ (flow : DatagramFlow) (first : List UInt8), first.length ≤ flow.maxPayload ∧
    flow.queue = [] ∧ flow.readOffset = 0 ∧
    flow.readPayload = some ((parsedPayload first).getD []) ∧
    w = { relay := { flow }, accepted := [first] }

end World

def waiting (flow : DatagramFlow) : List (List UInt8) :=
  flow.readPayload.toList ++ flow.queue.map (·.getD [])

def answer (flow : DatagramFlow) (payload : List UInt8) : RevPacket :=
  { source := flow.dstAddr, destination := flow.srcAddr, timeToLive := ttl, payload }

structure Preserves (w : World) : Prop where
  /-- One datagram for each packet, in order; the rest still waits. -/
  forwarded : w.relay.forwarded ++ waiting w.flow = w.accepted
  /-- A read in time forwards the first that waits. -/
  forwards : ∀ now payload rest, w.relay.ending = none → now < w.flow.deadline →
    waiting w.flow = payload :: rest →
      (w.step (.read now none)).relay.forwarded = w.relay.forwarded ++ [payload] ∧
        waiting (w.step (.read now none)).flow = rest
  /-- No payload ends the flow. -/
  goesOn : w.relay.ending ≠ some .endOfFile
  /-- One packet for each answer, in order. -/
  answered : w.relay.emitted = w.answered.map (answer w.flow)
  fits : ∀ packet ∈ w.relay.emitted, packet.length ≤ w.flow.mtu

/-- No payload is empty. -/
def Filled : Action → Prop
  | .arrive payload => payload ≠ []
  | .receive _ payload _ => payload ≠ []
  | _ => True

instance Filled.decidable : (a : Action) → Decidable (Filled a)
  | .arrive payload => inferInstanceAs (Decidable (payload ≠ []))
  | .receive _ payload _ => inferInstanceAs (Decidable (payload ≠ []))
  | .read _ _ => .isTrue trivial
  | .stop _ => .isTrue trivial

end Foxcore.Spec.Datagram
