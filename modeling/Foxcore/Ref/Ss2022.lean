import Foxcore.Lib.BitRing
import Foxcore.Lib.HashMap
import Foxcore.Ref.Outline

/-!
# Datagrams of Shadowsocks 2022

The sixteen words of a replay window are read as their 1024 bits. Whether a send
succeeds, what is received and whether the flow takes it are inputs; a send that is
cancelled ends the relay like one that fails. Numbers are of 64 bits.
-/

namespace Foxcore.Ref.Ss2022

open Lib
open ServerFirst (Bytes)
open Outline (Address toAddress)

def replayBits : Nat := 1024
def maxServerSessions : Nat := 64

structure ReplayWindow where
  highest : Option Nat := none
  seen : BitRing replayBits 1 := Vector.replicate replayBits 0

instance : NeZero replayBits := ⟨by decide⟩

namespace ReplayWindow

/-- The end of `accept`. -/
def record (w : ReplayWindow) (packet : Nat) : Bool × ReplayWindow :=
  if w.seen.test packet then (false, w)
  else (true, ⟨some (w.highest.elim packet (max · packet)), w.seen.mark packet⟩)

def accept (w : ReplayWindow) (packet : Nat) : Bool × ReplayWindow :=
  match w.highest with
  | none => w.record packet
  | some highest =>
    if highest < packet then
      if replayBits ≤ packet - highest then
        { w with seen := Vector.replicate replayBits 0 }.record packet
      else { w with seen := w.seen.advance highest (packet - highest) }.record packet
    else if replayBits ≤ highest - packet then (false, w)
    else w.record packet

end ReplayWindow

/-- `UdpSocketControlData`. -/
structure Control where
  clientSessionId : Nat
  serverSessionId : Nat := 0
  packetId : Nat
  deriving DecidableEq

structure UdpState where
  clientSessionId : Nat
  nextPacketId : Option Nat := some 0
  replies : HashMap Nat ReplayWindow := ∅

namespace UdpState

def reservePacket (s : UdpState) : Option Control × UdpState :=
  match s.nextPacketId with
  | none => (none, s)
  | some packetId =>
    (some { clientSessionId := s.clientSessionId, packetId },
      { s with nextPacketId := if packetId + 1 < 2 ^ 64 then some (packetId + 1) else none })

/-- The window of a server session. -/
def window (s : UdpState) (server : Nat) : ReplayWindow := (s.replies.lookup server).getD {}

/-- Nothing when there is no room for another session. -/
def acceptReply (s : UdpState) (control : Control) : Option Bool × UdpState :=
  if control.clientSessionId ≠ s.clientSessionId then (some false, s)
  else
    if s.replies.lookup control.serverSessionId = none ∧ maxServerSessions ≤ s.replies.len then
      (none, s)
    else
      let (accepted, window) := (s.window control.serverSessionId).accept control.packetId
      (some accepted, { s with replies := s.replies.insert control.serverSessionId window })

end UdpState

structure Datagram where
  destination : Destination
  payload : Bytes

/-- A packet handed to the socket. -/
structure Packet where
  address : Address
  control : Control
  payload : Bytes

/-- A datagram session with what it has sent and the replies it has delivered. -/
structure Relay where
  state : UdpState
  defaultDestination : Destination
  running : Bool := true
  sent : List Packet := []
  delivered : List Control := []

inductive Action where
  | cancel
  | uplinkClosed
  | uplink (outgoing : Datagram) (succeeds : Bool)
  | receiveFailed
  /-- A reply, and whether the flow takes it. -/
  | received (control : Option Control) (taken : Bool)

/-- One round of `relay_datagrams`. -/
def Relay.step (r : Relay) (a : Action) : Relay :=
  if r.running = false then r
  else
    match a with
    | .cancel | .uplinkClosed | .receiveFailed | .received none _ => { r with running := false }
    | .uplink outgoing succeeds =>
      let destination :=
        if outgoing.destination.host.isEmpty then r.defaultDestination else outgoing.destination
      match r.state.reservePacket with
      | (none, state) => { r with state, running := false }
      | (some control, state) =>
        { r with
          state, running := succeeds
          sent := ⟨toAddress destination, control, outgoing.payload⟩ :: r.sent }
    | .received (some control) taken =>
      match r.state.acceptReply control with
      | (none, state) => { r with state, running := false }
      | (some false, state) => { r with state }
      | (some true, state) =>
        { r with
          state, running := taken
          delivered := if taken then control :: r.delivered else r.delivered }

end Foxcore.Ref.Ss2022
