import Foxcore.Ref.Net

/-!
# Flows, rules and the traffic policy

The records of the public interface that the routing engine reads, under
their own names. A flow carries what the engine knows about one connection; a
rule carries selectors, an empty or missing one admitting everything, and the
action of the flows it wins; the traffic policy carries what the user decided
per application.

Left out are the fields no decision reads: a flow's generation and source
address, the time an application was first seen, and the continuity flags.
-/

namespace Foxcore.Ref

structure Destination where
  host : Str
  port : Nat
  deriving DecidableEq

/-- `Destination::ip`: the host when it is a literal address. -/
def Destination.ip (d : Destination) : Option IpAddr := parseIpAddr d.host

inductive IpTransport where
  | tcp
  | udp
  deriving DecidableEq

inductive NetworkType where
  | wifi
  | cellular
  | ethernet
  | other
  deriving DecidableEq

structure FlowContext where
  transport : IpTransport
  destination : Destination
  domainHint : Option Str := none
  uid : Option Nat := none
  package : Option Str := none
  packages : List Str := []
  network : Option NetworkType := none
  signingDigest : Option (List UInt8) := none
  deriving DecidableEq

structure PortRange where
  start : Nat
  «end» : Nat
  deriving DecidableEq

def PortRange.contains (r : PortRange) (port : Nat) : Bool :=
  r.start ≤ port && port ≤ r.«end»

inductive RouteAction where
  | outbound (id : Str)
  | direct
  | block
  | tor
  | i2p
  deriving DecidableEq

/-- A route rule over address prefixes `ν`. -/
structure RouteRule (ν : Type) where
  uid : Option Nat := none
  package : Option Str := none
  exactDomains : List Str := []
  domainSuffixes : List Str := []
  cidrs : List ν := []
  ports : List PortRange := []
  network : Option NetworkType := none
  transport : Option IpTransport := none
  action : RouteAction
  expiresAtMs : Option Nat := none

/-! ## The traffic policy -/

inductive ApplicationRouteAction where
  | vpn
  | direct
  | tor
  | block
  deriving DecidableEq

structure ApplicationRouteConfig where
  package : Str
  action : ApplicationRouteAction
  expiresAtMs : Option Nat := none
  deriving DecidableEq

structure KnownAppConfig where
  package : Str
  signingDigest : Option Str := none
  deriving DecidableEq

structure TrafficPolicyConfig where
  defaultAction : ApplicationRouteAction := .vpn
  applications : List ApplicationRouteConfig := []
  torEnabled : Option Bool := none
  i2pEnabled : Option Bool := none
  killSwitch : Bool := false
  quarantineNewApps : Bool := false
  knownApps : List KnownAppConfig := []
  deriving DecidableEq

/-- The bytes a string of hex digits spells, two digits a byte. -/
def hexBytes : Str → Option (List UInt8)
  | [] => some []
  | hi :: lo :: rest => do
      let h ← toDigit 16 hi
      let l ← toDigit 16 lo
      let bytes ← hexBytes rest
      return UInt8.ofNat (h * 16 + l) :: bytes
  | [_] => none

/-- `decode_signing_digest`: thirty-two bytes from sixty-four hex digits. -/
def decodeSigningDigest (value : Str) : Option (List UInt8) :=
  if value.length ≠ 64 then none else hexBytes value

end Foxcore.Ref
