import Foxcore.Ref.Continuity
import Foxcore.Ref.Filtering
import Foxcore.Ref.Split

/-!
# Deciding where a flow goes

There are two paths. With an L3 tunnel for primary outbound `decidePacket` decides on
a flow's first packet; everything it does not send to the tunnel or drop reaches the
userspace stack, and `handleFlow` is what becomes of a flow there, up to the outbound
that is to carry it. TCP and UDP are handled alike this far.

`Readings` is what a decision reads besides its packet: the policy's snapshot, the
resolver's tables, the answer of the platform when it is asked who owns the flow, the
clocks, and the continuity gate. An answer that does not come in time is no answer.
A verdict comes with the row it opens and the reason it reports for a refusal.
-/

namespace Foxcore.Ref.Engine

open Lib Ref.Split
open Ref.Traffic (FlowLane)
open Ref.Continuity (ContinuityGate)

inductive BlockReason where
  | killSwitch
  | policy
  | unattributed
  | dnsEncryptedBypass
  | laneUnavailable
  | continuityHeld
  | tunnelFakeIpUnroutable
  deriving DecidableEq

/-! ## The text of an address

`Display` of the standard library. The longest run of zero groups of an IPv6 address
is left out, the first of several, and a mapped IPv4 address keeps its dots. -/

def decimal (n : Nat) : Str := Str.ofChars (Nat.toDigits 10 n)

def hexadecimal (n : Nat) : Str := Str.ofChars (Nat.toDigits 16 n)

def displayV4 (a : BitVec 32) : Str :=
  Str.join dot ([24, 16, 8, 0].map fun shift => decimal (a.toNat / 2 ^ shift % 256))

def segments (a : BitVec 128) : List Nat :=
  (List.range 8).map fun i => a.toNat / 65536 ^ (7 - i) % 65536

/-- A run of groups. -/
structure Span where
  start : Nat := 0
  len : Nat := 0
  deriving DecidableEq

/-- The loop that looks for the longest run of zeros. -/
def longestZeros (segments : List Nat) : Span :=
  (segments.zipIdx.foldl (fun (spans : Span × Span) (segment : Nat × Nat) =>
    let (longest, current) := spans
    if segment.1 = 0 then
      let current : Span :=
        { start := if current.len = 0 then segment.2 else current.start, len := current.len + 1 }
      (if longest.len < current.len then current else longest, current)
    else (longest, {})) ({}, {})).1

def displaySegments (segments : List Nat) : Str := Str.join colon (segments.map hexadecimal)

def displayV6 (a : BitVec 128) : Str :=
  let groups := segments a
  if groups.take 6 = [0, 0, 0, 0, 0, 0xffff] then
    [colon, colon] ++ hexadecimal 0xffff ++ [colon] ++ displayV4 (a.setWidth 32)
  else
    let zeroes := longestZeros groups
    if 1 < zeroes.len then
      displaySegments (groups.take zeroes.start) ++ [colon, colon] ++
        displaySegments (groups.drop (zeroes.start + zeroes.len))
    else displaySegments groups

def display : IpAddr → Str
  | .v4 a => displayV4 a
  | .v6 a => displayV6 a

/-! ## Who owns a flow -/

/-- `foxcore_api::FlowIdentity`. -/
structure FlowIdentity where
  uid : Nat
  packages : List Str
  signingDigest : Option (List UInt8) := none
  deriving DecidableEq

/-- The characters of a text. -/
def chars : Str → List Nat
  | [] => []
  | b :: rest =>
    if b < 0x80 then b.toNat :: chars rest
    else if b < 0xe0 then
      match rest with
      | b₁ :: rest => ((b &&& 0x1f).toNat * 64 + (b₁ &&& 0x3f).toNat) :: chars rest
      | [] => []
    else if b < 0xf0 then
      match rest with
      | b₁ :: b₂ :: rest =>
        (((b &&& 0x0f).toNat * 64 + (b₁ &&& 0x3f).toNat) * 64 + (b₂ &&& 0x3f).toNat) ::
          chars rest
      | _ => []
    else
      match rest with
      | b₁ :: b₂ :: b₃ :: rest =>
        ((((b &&& 0x07).toNat * 64 + (b₁ &&& 0x3f).toNat) * 64 + (b₂ &&& 0x3f).toNat) * 64 +
          (b₃ &&& 0x3f).toNat) :: chars rest
      | _ => []

/-- `char::is_control`. -/
def isControl (c : Nat) : Bool := c < 0x20 || (0x7f ≤ c && c < 0xa0)

/-- `char::is_whitespace`. -/
def isWhitespace (c : Nat) : Bool :=
  (0x09 ≤ c && c ≤ 0x0d) || (0x2000 ≤ c && c ≤ 0x200a) ||
    [0x20, 0x85, 0xa0, 0x1680, 0x2028, 0x2029, 0x202f, 0x205f, 0x3000].contains c

/-- A package name that may decide a route. -/
def isPackageName (package : Str) : Bool :=
  !(chars package).all isWhitespace && package.length ≤ 255 && !(chars package).any isControl

/-- The end of `resolve_identity`: what is made of the platform's answer. A list of
packages that is not sound as a whole counts for nothing. -/
def resolveIdentity (answer : Option FlowIdentity) : Option FlowIdentity :=
  answer.map fun identity =>
    if identity.packages.length ≤ 32 && identity.packages.all isPackageName then
      { identity with packages := (identity.packages.insertionSort (· ≤ ·)).dedup }
    else { identity with packages := [], signingDigest := none }

/-! ## What a decision reads -/

/-- `attributor` is nothing where the platform cannot be asked, and otherwise its
answer. -/
structure Readings (ν π₄ π₆ : Type) where
  policy : FlowPolicySnapshot ν π₄ π₆
  bypassPackages : List Str := []
  fake : FakeState := {}
  cache : DnsCache
  now : Nat := 0
  clock : Nat := 0
  attributor : Option (Option FlowIdentity) := none
  continuity : ContinuityGate

def dnsEncryptedPort : Nat := 853

def advertisedResolver {π₄ π₆ : Type} (config : DnsConfig π₄ π₆) : Option IpAddr :=
  config.advertise.bind parseIpAddr

def bypassesInterceptor {π₄ π₆ : Type} (config : DnsConfig π₄ π₆) (address : IpAddr)
    (port : Nat) : Bool :=
  port = dnsEncryptedPort && (advertisedResolver config).any (· = address)

def isPrimaryOutbound (id : Str) : Bool :=
  id = Str.ofChars ['d', 'e', 'f', 'a', 'u', 'l', 't'] ||
    id = Str.ofChars ['p', 'r', 'i', 'm', 'a', 'r', 'y']

def transportOf (key : FlowKey) : Option IpTransport :=
  if key.protocol = protocolTcp then some .tcp
  else if key.protocol = protocolUdp then some .udp
  else none

/-- `context_for`: an address the resolver made up stands for its name. -/
def contextFor (transport : IpTransport) (fake : FakeState) (now : Nat) (key : FlowKey) :
    FlowContext :=
  match (fake.fakeDomain now key.destination).1 with
  | some domain =>
    { transport, destination := ⟨domain, key.destinationPort⟩, domainHint := some domain }
  | none => { transport, destination := ⟨display key.destination, key.destinationPort⟩ }

/-- `attribute_required_context`, with nothing for a failure. -/
def attributeRequiredContext (attributor : Option (Option FlowIdentity)) (context : FlowContext)
    (required requirePackages : Bool) : Option FlowContext :=
  if required = false then some context
  else do
    let answer ← attributor
    let identity ← resolveIdentity answer
    if requirePackages && identity.packages.isEmpty then none
    else
      some { context with
        uid := some identity.uid
        package := identity.packages.head?
        packages := identity.packages
        signingDigest := identity.signingDigest }

section

variable {ν π₄ π₆ : Type} [IpNet ν]

def attributeContext (routes : RouteTable ν) (attributor : Option (Option FlowIdentity))
    (context : FlowContext) : Option FlowContext :=
  let required := routes.requiresIdentity ||
    (routes.requiresDomainHints && context.destination.ip.isSome)
  attributeRequiredContext attributor context required routes.requiresPackage

/-- Addresses no application sends from. -/
def isSource (address : IpAddr) (port : Nat) : Bool :=
  port ≠ 0 &&
    match address with
    | .v4 a => a ≠ 0 && a >>> 28 ≠ 0xe && a ≠ BitVec.allOnes 32
    | .v6 a => a ≠ 0 && a >>> 120 ≠ 0xff

/-- `attribute_dns_context`, for a flow the interceptor is to serve. What the flow
carries already is kept when the platform has no better answer. -/
def attributeDnsContext (r : Readings ν π₄ π₆) (key : FlowKey) (context : FlowContext) :
    Option FlowContext :=
  if isSource key.source key.sourcePort = false then none
  else
    let routes := r.policy.routes
    let config := r.policy.dnsConfig
    let advertised := key.destinationPort = 53 && config.mode = .fakeIp && config.intercepts &&
      advertisedResolver config = some key.destination
    let packageBypass := !r.bypassPackages.isEmpty
    let required := routes.requiresIdentity ||
      (!advertised && routes.requiresDomainHints && context.destination.ip.isSome)
    let requirePackages := routes.requiresPackage || packageBypass
    if (required || packageBypass) && context.uid.isSome &&
        (!requirePackages || !context.packages.isEmpty) then
      some context
    else
      let sufficient := context.uid.isSome && (!routes.requiresPackage || !context.packages.isEmpty)
      match attributeRequiredContext r.attributor context (required || packageBypass)
          routes.requiresPackage with
      | some context => some context
      | none => if !required || sufficient then some context else none

/-- `bind_dns_context`: whether the flow may go on, and the flow under the name that
restricts it most. -/
def bindDnsContext (r : Readings ν π₄ π₆) (context : FlowContext) : Bool × FlowContext :=
  let routes := r.policy.routes
  match context.destination.ip with
  | none => (true, context)
  | some address =>
    if routes.requiresDomainHints = false ∨ routes.decide r.clock context = .block then
      (true, context)
    else
      match context.uid with
      | none => (false, context)
      | some uid =>
        match (r.cache.routeHints r.now (DnsIdentity.new uid context.packages) address).1 with
        | none => (false, context)
        | some names => routes.constrainWithDnsHints r.clock context names

/-! ## On the packet -/

/-- What goes to the tunnel has a row. -/
structure Verdict where
  route : PacketRoute
  flow : Option FlowLabel := none
  reported : Option BlockReason := none
  tunnels : route = .tunnel → flow.isSome := by simp

/-- `PacketDecision::voided_by`. -/
def Verdict.voidedBy (verdict : Verdict) (token : Nat) : PacketDecision where
  route := verdict.route
  flow := verdict.flow
  voidedBy := some token
  tunnels := verdict.tunnels

/-- What `decide_packet` does before it asks the platform: a verdict, or the flow to ask
about. -/
def beginDecision (policy : FlowPolicySnapshot ν π₄ π₆) (fake : FakeState) (now : Nat)
    (key : FlowKey) : Verdict ⊕ FlowContext :=
  if policy.routes.killSwitch then .inl { route := .block }
  else
    match transportOf key with
    | none => .inl { route := .stack }
    | some transport => .inr (contextFor transport fake now key)

variable [Ipv4Net π₄] [Ipv6Net π₆]

/-- What `decide_packet` does with a flow that is attributed. -/
def routePacket (r : Readings ν π₄ π₆) (key : FlowKey) (context : FlowContext) : Verdict :=
  if context.destination.port = 53 ∧ r.policy.dnsProxy.isSome then { route := .stack }
  else if r.policy.dnsProxy.isSome ∧
      bypassesInterceptor r.policy.dnsConfig key.destination key.destinationPort then
    { route := .stack }
  else if isOnion context.destination.host ∨ isI2p context.destination.host then { route := .stack }
  else
    match bindDnsContext r context with
    | (false, _) => { route := .block, reported := some .policy }
    | (true, context) =>
      match r.policy.routes.decide r.clock context with
      | .block => { route := .block, reported := some .policy }
      | .outbound id =>
        if isPrimaryOutbound id then
          if r.policy.dnsConfig.synthesizes key.destination then
            { route := .block, reported := some .tunnelFakeIpUnroutable }
          else
            { route := .tunnel
              flow := some ⟨context.transport, context.destination, id, context.packages,
                context.uid⟩ }
        else { route := .stack }
      | _ => { route := .stack }

/-- What `decide_packet` does when the platform has answered. -/
def finishDecision (r : Readings ν π₄ π₆) (key : FlowKey) (context : FlowContext) : Verdict :=
  match attributeContext r.policy.routes r.attributor context with
  | none => { route := .block, reported := some .unattributed }
  | some context => routePacket r key context

def decidePacket (r : Readings ν π₄ π₆) (key : FlowKey) : Verdict :=
  match beginDecision r.policy r.fake r.now key with
  | .inl verdict => verdict
  | .inr context => finishDecision r key context

/-! ## On the stack -/

inductive OutboundKind where
  | tor
  | i2p
  | other
  deriving DecidableEq

/-- An outbound whose build failed is not available until a retry succeeds. -/
structure Outbound where
  kind : OutboundKind
  available : Bool := true
  deriving DecidableEq

/-- `OutboundRegistry`, the engine's direct outbound and its flag for an L3 primary. -/
structure Outbounds where
  default : Outbound
  named : Str → Option Outbound := fun _ => none
  direct : Outbound := ⟨.other, true⟩
  packetTunnel : Bool

namespace Outbounds

def get (o : Outbounds) (id : Str) : Option Outbound :=
  if isPrimaryOutbound id then some o.default else o.named id

def ofKind (o : Outbounds) (id : Str) (kind : OutboundKind) : Option Outbound :=
  match (o.named id).filter fun outbound => outbound.kind = kind with
  | some outbound => some outbound
  | none => if o.default.kind = kind then some o.default else none

def tor (o : Outbounds) : Option Outbound := o.ofKind (Str.ofChars ['t', 'o', 'r']) .tor

def i2p (o : Outbounds) : Option Outbound := o.ofKind (Str.ofChars ['i', '2', 'p']) .i2p

end Outbounds

def outboundAllowed (routes : RouteTable ν) (outbound : Outbound) : Bool :=
  match outbound.kind with
  | .tor => routes.torEnabled
  | .i2p => routes.i2pEnabled
  | .other => true

def selectOutbound (o : Outbounds) (routes : RouteTable ν) (clock : Nat) (context : FlowContext) :
    Option Outbound :=
  let action := routes.decide clock context
  if action = .block then none
  else if isOnion context.destination.host then if routes.torEnabled then o.tor else none
  else if isI2p context.destination.host then if routes.i2pEnabled then o.i2p else none
  else
    match action with
    | .direct => some o.direct
    | .block => none
    | .tor => o.tor
    | .i2p => o.i2p
    | .outbound id =>
      -- a stream reaching an L3 primary after a reload fails closed
      if o.packetTunnel && isPrimaryOutbound id then none
      else (o.get id).filter (outboundAllowed routes)

def laneOf (routes : RouteTable ν) (clock : Nat) (context : FlowContext) : FlowLane :=
  if isOnion context.destination.host then .tor
  else if isI2p context.destination.host then .i2p
  else
    match routes.decide clock context with
    | .direct => .direct
    | .tor => .tor
    | .i2p => .i2p
    | .block => .vpn
    | .outbound _ => .vpn

def selectRoute (r : Readings ν π₄ π₆) (o : Outbounds) (context : FlowContext) :
    Except BlockReason (Outbound × FlowLane) :=
  let routes := r.policy.routes
  match selectOutbound o routes r.clock context with
  | none => .error (if routes.killSwitch then .killSwitch else .policy)
  | some outbound =>
    if outbound.available = false then .error .laneUnavailable
    else
      let lane := laneOf routes r.clock context
      if r.continuity.isHeld lane then .error .continuityHeld else .ok (outbound, lane)

/-- How a flow fares on the stack. -/
inductive Outcome where
  | refused (reason : BlockReason)
  | intercepted
  | selected (outbound : Outbound) (lane : FlowLane)
  deriving DecidableEq

/-- `handle_tcp` and `handle_udp`, up to the outbound. -/
def handleFlow (r : Readings ν π₄ π₆) (o : Outbounds) (transport : IpTransport) (key : FlowKey) :
    Outcome :=
  let context := contextFor transport r.fake r.now key
  let dnsFlow := key.destinationPort = 53 ∧ r.policy.dnsProxy.isSome
  let attributed :=
    if dnsFlow then attributeDnsContext r key context
    else attributeContext r.policy.routes r.attributor context
  match attributed with
  | none => .refused .unattributed
  | some context =>
    if dnsFlow then .intercepted
    else if r.policy.dnsProxy.isSome ∧
        bypassesInterceptor r.policy.dnsConfig key.destination key.destinationPort then
      .refused .dnsEncryptedBypass
    else
      match bindDnsContext r context with
      | (false, _) => .refused .policy
      | (true, context) =>
        match selectRoute r o context with
        | .error reason => .refused reason
        | .ok (outbound, lane) => .selected outbound lane

end

end Foxcore.Ref.Engine
