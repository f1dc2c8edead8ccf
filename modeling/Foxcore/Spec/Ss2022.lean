import Foxcore.Ref.Ss2022

/-!
# What a datagram session of Shadowsocks 2022 promises
-/

namespace Foxcore.Spec.Ss2022

open Ref.Ss2022

/-- A reply by the session and the number its server gave it. -/
def reply (c : Control) : Nat × Nat := (c.serverSessionId, c.packetId)

structure Exact (r : Relay) : Prop where
  sentOnce : (r.sent.map fun p => (p.control.clientSessionId, p.control.packetId)).Nodup
  deliveredOnce : (r.delivered.map reply).Nodup
  own : ∀ c ∈ r.delivered, c.clientSessionId = r.state.clientSessionId
  windows : r.state.replies.len ≤ maxServerSessions

/-- The reply is new and less than 1024 behind all others of its server session, which has
a window or for which there is room. -/
structure Due (r : Relay) (c : Control) : Prop where
  own : c.clientSessionId = r.state.clientSessionId
  room : r.state.replies.lookup c.serverSessionId ≠ none ∨ r.state.replies.len < maxServerSessions
  fresh : reply c ∉ r.delivered.map reply
  near : ∀ d ∈ r.delivered, d.serverSessionId = c.serverSessionId →
    d.packetId < c.packetId + replayBits

/-- No window is forgotten. -/
def Retains (s s' : UdpState) : Prop :=
  ∀ server, s.replies.lookup server ≠ none → s'.replies.lookup server ≠ none

end Foxcore.Spec.Ss2022
