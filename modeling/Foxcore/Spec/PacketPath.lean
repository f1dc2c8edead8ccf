import Foxcore.Ref.Engine

/-!
# What a flow has to clear on either path

The refusals of the two paths as one list, but for the hold of its lane. `Carried` is
what the stack makes of a flow where the primary outbound is there to carry it.
-/

namespace Foxcore.Spec.PacketPath

open Ref Ref.Split Ref.Engine

section

variable {ν π₄ π₆ : Type} [IpNet ν] [Ipv4Net π₄] [Ipv6Net π₆]

/-- A flow, attributed as `context`, clears every check but the hold. -/
structure Clears (r : Readings ν π₄ π₆) (key : FlowKey) (transport : IpTransport)
    (context : FlowContext) : Prop where
  protocol : transportOf key = some transport
  unarmed : r.policy.routes.killSwitch = false
  attributed : attributeContext r.policy.routes r.attributor
    (contextFor transport r.fake r.now key) = some context
  notIntercepted : ¬(key.destinationPort = 53 ∧ r.policy.dnsProxy.isSome)
  notBypass : ¬(r.policy.dnsProxy.isSome ∧
    bypassesInterceptor r.policy.dnsConfig key.destination key.destinationPort = true)
  notOverlay : isOnion context.destination.host = false ∧ isI2p context.destination.host = false
  bound : (bindDnsContext r context).1 = true
  primary : ∃ id, r.policy.routes.decide r.clock (bindDnsContext r context).2 = .outbound id ∧
    isPrimaryOutbound id = true
  real : r.policy.dnsConfig.synthesizes key.destination = false

def Passes (r : Readings ν π₄ π₆) (key : FlowKey) : Prop :=
  ∃ transport context, Clears r key transport context

/-- The primary outbound is a stream outbound the policy allows, and it is there. -/
structure Streams (r : Readings ν π₄ π₆) (o : Outbounds) : Prop where
  streams : o.packetTunnel = false
  allowed : outboundAllowed r.policy.routes o.default = true
  available : o.default.available = true

/-- Wherever the primary outbound is there to carry the flow, the stack selects it. -/
def Carried (r : Readings ν π₄ π₆) (key : FlowKey) : Prop :=
  ∀ transport, transportOf key = some transport → ∀ o, Streams r o →
    handleFlow r o transport key = .selected o.default .vpn

/-- What goes to the tunnel is refused by neither path. -/
def NoWayAround (r : Readings ν π₄ π₆) (key : FlowKey) : Prop :=
  (decidePacket r key).route = .tunnel →
    Passes r key ∧ r.continuity.isHeld .vpn = false ∧ Carried r key

end

end Foxcore.Spec.PacketPath
