import Foxcore.Spec.PacketPath
import Foxcore.Proofs.Revocation

/-!
# The packet path and the stack's refusals

A flow goes to the tunnel exactly when it clears the list of checks. The list is that
of the stack, except that the stack then asks the continuity gate whether the lane is
held, which the packet path does not.
-/

namespace Foxcore.Proofs.PacketPath

open Ref Ref.Split Ref.Engine Spec.PacketPath

/-- Attribution says who owns the flow, not where it goes. -/
theorem attributeContext_destination {ν : Type} {routes : RouteTable ν}
    {attributor : Option (Option FlowIdentity)} {context context' : FlowContext}
    (h : attributeContext routes attributor context = some context') :
    context'.destination = context.destination := by
  unfold attributeContext attributeRequiredContext at h
  dsimp only at h
  split at h
  · cases h
    rfl
  · obtain ⟨answer, -, h⟩ := Option.bind_eq_some_iff.mp h
    obtain ⟨identity, -, h⟩ := Option.bind_eq_some_iff.mp h
    split at h
    · cases h
    · cases h
      rfl

section

variable {ν π₄ π₆ : Type} [IpNet ν]

/-- Binding a flow to a name leaves its destination. -/
theorem constrainLoop_destination (routes : RouteTable ν) (clock : Nat) (flow : FlowContext)
    (names : List Str) (selected : RouteAction) (selectedName : Option Str) (conflict : Bool) :
    (routes.constrainLoop clock flow names selected selectedName conflict).2.destination =
      flow.destination := by
  fun_induction RouteTable.constrainLoop routes clock flow names selected selectedName conflict with
  | case1 | case2 => rfl
  | case3 _ _ _ _ _ _ _ _ ih | case4 _ _ _ _ _ _ _ ih | case5 _ _ _ _ _ _ _ _ _ ih => exact ih

theorem bindDnsContext_destination (r : Readings ν π₄ π₆) (context : FlowContext) :
    (bindDnsContext r context).2.destination = context.destination := by
  fun_cases bindDnsContext r context with
  | case5 =>
    fun_cases RouteTable.constrainWithDnsHints with
    | case1 | case2 => rfl
    | case3 => exact constrainLoop_destination ..
  | _ => rfl

end

section

variable {ν π₄ π₆ : Type} [IpNet ν] [Ipv4Net π₄] [Ipv6Net π₆]

/-- The checks after attribution, in the order of the packet path. -/
theorem routePacket_tunnel (r : Readings ν π₄ π₆) (key : FlowKey) (context : FlowContext) :
    (routePacket r key context).route = .tunnel ↔
      ¬(context.destination.port = 53 ∧ r.policy.dnsProxy.isSome) ∧
      ¬(r.policy.dnsProxy.isSome ∧
        bypassesInterceptor r.policy.dnsConfig key.destination key.destinationPort = true) ∧
      (isOnion context.destination.host = false ∧ isI2p context.destination.host = false) ∧
      (bindDnsContext r context).1 = true ∧
      (∃ id, r.policy.routes.decide r.clock (bindDnsContext r context).2 = .outbound id ∧
        isPrimaryOutbound id = true) ∧
      r.policy.dnsConfig.synthesizes key.destination = false := by
  fun_cases routePacket r key context with
  | case1 hdns => exact ⟨nofun, fun h => absurd hdns h.1⟩
  | case2 _ hbypass => exact ⟨nofun, fun h => absurd hbypass h.2.1⟩
  | case3 _ _ hoverlay =>
    refine ⟨nofun, fun h => ?_⟩
    rw [h.2.2.1.1, h.2.2.1.2] at hoverlay
    exact absurd hoverlay (by decide)
  | case4 _ _ _ _ hbind => exact ⟨nofun, fun h => by simp [hbind] at h⟩
  | case5 _ _ _ _ hbind hdecide => exact ⟨nofun, fun h => by simp [hbind, hdecide] at h⟩
  | case6 _ _ _ _ hbind id hdecide hprimary hsynthetic =>
    exact ⟨nofun, fun h => by simp [hsynthetic] at h⟩
  | case7 hdns hbypass hoverlay _ hbind id hdecide hprimary hsynthetic =>
    rw [not_or, Bool.not_eq_true, Bool.not_eq_true] at hoverlay
    rw [hbind]
    exact ⟨fun _ => ⟨hdns, hbypass, hoverlay, rfl, ⟨id, hdecide, hprimary⟩,
      Bool.eq_false_iff.mpr hsynthetic⟩, fun _ => rfl⟩
  | case8 _ _ _ _ hbind id hdecide hprimary =>
    exact ⟨nofun, fun h => by simp [hbind, hdecide, hprimary] at h⟩
  | case9 _ _ _ _ hbind _ hother =>
    refine ⟨nofun, fun h => ?_⟩
    obtain ⟨id, heq, -⟩ := h.2.2.2.2.1
    rw [hbind] at heq
    exact (hother id heq).elim

/-- A flow goes to the tunnel exactly when it clears the list. -/
theorem decidePacket_tunnel (r : Readings ν π₄ π₆) (key : FlowKey) :
    (decidePacket r key).route = .tunnel ↔ Passes r key := by
  unfold decidePacket beginDecision
  cases harmed : r.policy.routes.killSwitch with
  | true =>
    refine ⟨nofun, ?_⟩
    rintro ⟨transport, context, h⟩
    exact absurd (harmed.symm.trans h.unarmed) nofun
  | false =>
    cases htransport : transportOf key with
    | none =>
      refine ⟨nofun, ?_⟩
      rintro ⟨transport, context, h⟩
      exact absurd (htransport.symm.trans h.protocol) nofun
    | some transport =>
      show (finishDecision r key (contextFor transport r.fake r.now key)).route = .tunnel ↔ _
      unfold finishDecision
      cases hattributed : attributeContext r.policy.routes r.attributor
          (contextFor transport r.fake r.now key) with
      | none =>
        refine ⟨nofun, ?_⟩
        rintro ⟨transport', context, h⟩
        cases htransport.symm.trans h.protocol
        exact absurd (hattributed.symm.trans h.attributed) nofun
      | some context =>
        have hport : context.destination.port = key.destinationPort := by
          rw [attributeContext_destination hattributed, contextFor]
          split <;> rfl
        rw [routePacket_tunnel, hport]
        constructor
        · rintro ⟨hdns, hbypass, hoverlay, hbound, hprimary, hreal⟩
          exact ⟨transport, context, htransport, harmed, hattributed, hdns, hbypass, hoverlay,
            hbound, hprimary, hreal⟩
        · rintro ⟨transport', context', h⟩
          cases htransport.symm.trans h.protocol
          cases hattributed.symm.trans h.attributed
          exact ⟨h.notIntercepted, h.notBypass, h.notOverlay, h.bound, h.primary, h.real⟩

/-- What the stack makes of a flow that clears the list: only the hold is left to
refuse it. -/
theorem handleFlow_of_clears {r : Readings ν π₄ π₆} {key : FlowKey} {transport : IpTransport}
    {context : FlowContext} (h : Clears r key transport context) {o : Outbounds}
    (ho : Streams r o) :
    handleFlow r o transport key =
      if r.continuity.isHeld .vpn then .refused .continuityHeld
      else .selected o.default .vpn := by
  obtain ⟨id, hdecide, hprimary⟩ := h.primary
  have hselect : selectOutbound o r.policy.routes r.clock (bindDnsContext r context).2 =
      some o.default := by
    unfold selectOutbound
    simp only [hdecide, bindDnsContext_destination, h.notOverlay.1, h.notOverlay.2, ho.streams,
      Outbounds.get, hprimary]
    simp [ho.allowed]
  have hlane : laneOf r.policy.routes r.clock (bindDnsContext r context).2 = .vpn := by
    unfold laneOf
    simp [hdecide, bindDnsContext_destination, h.notOverlay.1, h.notOverlay.2]
  have hroute : selectRoute r o (bindDnsContext r context).2 =
      if r.continuity.isHeld .vpn then .error .continuityHeld else .ok (o.default, .vpn) := by
    unfold selectRoute
    simp [hselect, hlane, ho.available]
  unfold handleFlow
  have hbind : bindDnsContext r context = (true, (bindDnsContext r context).2) :=
    Prod.ext h.bound rfl
  simp only [if_neg h.notIntercepted, h.attributed, if_neg h.notBypass]
  rw [hbind]
  simp only [hroute]
  cases r.continuity.isHeld .vpn <;> rfl

/-- The packet path is no way around the stack's refusals exactly where a flow that would
go to the tunnel does not find its lane held. -/
theorem packet_path_iff (r : Readings ν π₄ π₆) (key : FlowKey) :
    NoWayAround r key ↔ (r.continuity.isHeld .vpn = true → ¬Passes r key) := by
  unfold NoWayAround
  rw [decidePacket_tunnel]
  constructor
  · intro h hheld hpasses
    exact absurd (hheld.symm.trans (h hpasses).2.1) nofun
  · intro h hpasses
    have hfree : r.continuity.isHeld .vpn = false := by
      rw [← Bool.not_eq_true]
      exact fun hheld => h hheld hpasses
    refine ⟨hpasses, hfree, fun transport htransport o ho => ?_⟩
    obtain ⟨transport', context, hclears⟩ := hpasses
    cases htransport.symm.trans hclears.protocol
    rw [handleFlow_of_clears hclears ho, if_neg (by rw [hfree]; exact nofun)]

end

/-! ## A held lane -/

/-- Everything goes to the primary outbound. -/
def primaryRoutes : RouteTable Cidr :=
  RouteTable.compile [] (.outbound (Str.ofChars ['d', 'e', 'f', 'a', 'u', 'l', 't']))

/-- Sessions of the proxy are not repaired without being asked for. -/
def askingGate : Continuity.ContinuityGate where
  config := { seamlessReconnect := false }

/-- A session was interrupted and nobody has confirmed its repair. -/
def heldReadings : Readings Cidr (Subnet 32) (Subnet 128) where
  policy := ⟨1, primaryRoutes, plainConfig, 0, some 0, 0⟩
  cache := DnsCache.new 4096
  continuity := askingGate.raise askingGate.config .proxySession 0

/-- A connection to a web server. -/
def webKey : FlowKey where
  source := .v4 0x0a000002
  destination := .v4 0x5db8d822
  sourcePort := 40000
  destinationPort := 443
  protocol := protocolTcp

theorem held_flow_tunnelled : ¬NoWayAround heldReadings webKey := by
  intro h
  have htunnel : (decidePacket heldReadings webKey).route = .tunnel := by decide +kernel
  have hheld : heldReadings.continuity.isHeld .vpn = true := by decide +kernel
  exact absurd (hheld.symm.trans (h htunnel).2.1) nofun

end Foxcore.Proofs.PacketPath
