import Foxcore.Ref.Tunnel

/-!
# When a tunnel has something to do

A caller sleeps until the deadline that the tunnel reports. `AtRest` says that
nothing a tunnel waits for is due at a time; `Spent` is the one thing that does
not wait: a session that has sent so many messages that it has to be replaced.
-/

namespace Foxcore.Spec

open Ref Ref.Wireguard

variable [WireguardCrates] {ε : Type}

/-- Every time stamp in a tunnel is at most so late. -/
structure Stamped (t : PeerTunnel ε) (latestMs : Nat) : Prop where
  now : t.nowMs ≤ latestMs
  sent : t.lastSentMs ≤ latestMs
  live : ∀ live, t.live = some live → live.establishedMs ≤ latestMs
  previous : ∀ live, t.previous = some live → live.establishedMs ≤ latestMs
  received : ∀ receivedMs, t.dataReceivedMs = some receivedMs → receivedMs ≤ latestMs

/-- The session should be replaced and nobody has started to. -/
def Spent (t : PeerTunnel ε) : Prop :=
  t.handshake = none ∧ ∃ live, t.live = some live ∧ live.session.needsRekey = true

/-- Of what a tunnel waits for, nothing is due. -/
structure AtRest (t : PeerTunnel ε) (nowMs : Nat) : Prop where
  retry : ∀ inFlight, t.handshake = some inFlight → nowMs < inFlight.retryAtMs
  live : ∀ live, t.live = some live →
    nowMs < saturatingAdd64 live.establishedMs t.timers.rejectAfterTimeMs
  rekey : t.handshake = none → ∀ live, t.live = some live → live.session.needsRekey = false →
    nowMs < saturatingAdd64 live.establishedMs t.timers.rekeyAfterTimeMs
  keepalive : t.canSeal = true → ∀ intervalS, t.persistentKeepaliveS = some intervalS →
    0 < intervalS → nowMs < saturatingAdd64 t.lastSentMs (saturatingMul64 intervalS.toNat 1000)
  passive : t.canSeal = true → ∀ receivedMs, t.dataReceivedMs = some receivedMs →
    t.lastSentMs < receivedMs → nowMs < saturatingAdd64 receivedMs t.timers.keepaliveTimeoutMs
  previous : ∀ live, t.previous = some live →
    nowMs < saturatingAdd64 live.establishedMs t.timers.rejectAfterTimeMs

/-- No deadline is reported, or a later one. -/
def NothingDue (t : PeerTunnel ε) (nowMs : Nat) : Prop :=
  ∀ deadlineMs, t.nextDeadlineMs = some deadlineMs → nowMs < deadlineMs

/-- Nothing was queued and nothing dropped. -/
structure Undisturbed (t t' : PeerTunnel ε) : Prop where
  transmit : t'.transmit = t.transmit
  live : t'.live = t.live
  previous : t'.previous = t.previous
  handshake : t'.handshake = t.handshake
  pending : t'.pending = t.pending

/-- The messages sent in between have brought the live session to
`REKEY_AFTER_MESSAGES`. -/
def WornOut (t t' : PeerTunnel ε) : Prop :=
  t'.handshake = none ∧ ∃ live live', t.live = some live ∧ t'.live = some live' ∧
    live'.serial = live.serial ∧ live.session.sendCounter < rekeyAfterMessages ∧
    rekeyAfterMessages ≤ live'.session.sendCounter

end Foxcore.Spec
