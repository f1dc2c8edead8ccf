import Foxcore.Lib.System
import Foxcore.Ref.Net

/-!
# LAN proxies and their names

A proxy is started under an identity, and the handle that is returned gives it
back when it is stopped or dropped. What the platform answers comes with the call:
which networks were confirmed, which runtimes can be had, which ports can be
bound. Listeners, sessions, events and the runtime leases of a handle are left out.

Beside its state a handle keeps whether it was ever stopped.
-/

namespace Foxcore.Ref.Lan

inductive ComponentError where
  | alreadyExists
  | runtimeUnavailable
  | lanBindingRefused
  | lanNetworkNotConfirmed
  | lanBindFailed
  deriving DecidableEq

inductive RuntimeKind where
  | root
  | vpn
  | tor
  deriving DecidableEq

inductive LanTransport where
  | wifi
  | ethernet
  | cellular
  | unknown
  deriving DecidableEq

structure NetworkBinding where
  networkHandle : Nat
  interfaceName : Str
  localAddress : IpAddr
  ssidHash : Option (List UInt8)
  transport : LanTransport

def isCellularInterface (name : Str) : Bool :=
  ["rmnet", "ccmni", "pdp_ip", "seth_", "qmimux", "wwan"].any fun text =>
    (Str.ofChars text.toList).isPrefixOf (Str.toAsciiLowercase name)

/-- `is_unspecified` or `is_multicast`. -/
def isUnspecifiedOrMulticast : IpAddr → Bool
  | .v4 addr => addr = 0 || addr.extractLsb' 28 4 = 0xe#4
  | .v6 addr => addr = 0 || addr.extractLsb' 120 8 = 0xff#8

/-- Whether `validate` lets the binding pass. -/
def NetworkBinding.valid (binding : NetworkBinding) : Bool :=
  let name := binding.interfaceName
  (binding.transport = .wifi || binding.transport = .ethernet) &&
    !(name.isEmpty || 32 < name.length || !Str.isAscii name ||
      -- control characters and white space
      name.any fun byte => byte ≤ 0x20 || byte = 0x7f) &&
    !isCellularInterface name && !isUnspecifiedOrMulticast binding.localAddress

def loopbackBinding : NetworkBinding where
  networkHandle := 0
  interfaceName := Str.ofChars "lo".toList
  localAddress := .v4 0x7f000001#32
  ssidHash := none
  transport := .ethernet

inductive BindingAuthorization where
  | confirmedLan
  | internalLoopback
  deriving DecidableEq

/-- A port of zero is chosen by the kernel. -/
structure InboundPlan (κ : Type) where
  id : κ
  socks : Option UInt16
  http : Option UInt16
  hasCredentials : Bool
  runtimes : List RuntimeKind

inductive LanProxyPreset where
  | vpn
  | tor
  | mixed
  deriving DecidableEq

def LanProxyPreset.runtimes : LanProxyPreset → List RuntimeKind
  | .vpn => [.vpn]
  | .tor => [.tor]
  | .mixed => [.vpn, .tor]

structure LanProxyConfig (κ : Type) where
  id : κ
  preset : LanProxyPreset
  socksPort : UInt16
  httpPort : UInt16

/-- A port of zero means here that the protocol is not offered. -/
def lanPlan {κ : Type} (config : LanProxyConfig κ) : InboundPlan κ where
  id := config.id
  socks := if config.socksPort ≠ 0 then some config.socksPort else none
  http := if config.httpPort ≠ 0 then some config.httpPort else none
  hasCredentials := true
  runtimes := config.preset.runtimes

/-- A named inbound; its route is the runtime it needs. -/
structure LoopbackInbound (κ : Type) where
  id : κ
  httpPort : UInt16
  hasCredentials : Bool
  route : RuntimeKind

def inboundPlan {κ : Type} (config : LoopbackInbound κ) : InboundPlan κ where
  id := config.id
  socks := none
  http := some config.httpPort
  hasCredentials := config.hasCredentials
  runtimes := [config.route]

/-- What the platform answers during a call. -/
structure Platform where
  /-- Whether the fingerprint of the network is among the confirmed ones. -/
  confirmed : NetworkBinding → Bool
  available : RuntimeKind → Bool
  binds : UInt16 → Bool

/-- The states a handle is ever in. -/
inductive LanProxyState where
  | ready
  | networkLost
  | stopped
  deriving DecidableEq

structure LanProxyHandle (κ : Type) where
  id : κ
  state : LanProxyState := .ready
  dropped : Bool := false
  everStopped : Bool := false
  deriving DecidableEq

structure World (κ : Type) where
  lanProxies : Finset κ := ∅
  handles : List (LanProxyHandle κ) := []

variable {κ : Type} [DecidableEq κ]

namespace World

def startWithBinding (w : World κ) (platform : Platform) (plan : InboundPlan κ)
    (binding : NetworkBinding) (authorization : BindingAuthorization) :
    Except ComponentError (World κ) :=
  if !binding.valid then .error .lanBindingRefused
  else if plan.socks.isNone && plan.http.isNone then .error .lanBindingRefused
  else if !plan.hasCredentials && authorization ≠ .internalLoopback then .error .lanBindingRefused
  else if authorization = .confirmedLan &&
      -- without the name of the network there is no fingerprint
      !(binding.ssidHash.isSome && platform.confirmed binding) then .error .lanNetworkNotConfirmed
  else if authorization = .internalLoopback && (binding.networkHandle ≠ 0 ||
      binding.interfaceName ≠ loopbackBinding.interfaceName ||
      binding.localAddress ≠ loopbackBinding.localAddress || binding.ssidHash.isSome ||
      binding.transport ≠ .ethernet) then .error .lanBindingRefused
  else if plan.id ∈ w.lanProxies then .error .alreadyExists
  else if !plan.runtimes.all platform.available then .error .runtimeUnavailable
  else if !(plan.socks.all platform.binds && plan.http.all platform.binds) then
    .error .lanBindFailed
  else
    .ok { lanProxies := insert plan.id w.lanProxies, handles := w.handles ++ [{ id := plan.id }] }

/-- The calls that start a proxy. -/
inductive Request (κ : Type) where
  | startLanProxy (config : LanProxyConfig κ) (binding : NetworkBinding)
  | startLoopbackProxy (config : LanProxyConfig κ)
  | startLoopbackInbound (config : LoopbackInbound κ)

def Request.id : Request κ → κ
  | .startLanProxy config _ => config.id
  | .startLoopbackProxy config => config.id
  | .startLoopbackInbound config => config.id

def start (w : World κ) (platform : Platform) : Request κ → Except ComponentError (World κ)
  | .startLanProxy config binding =>
    w.startWithBinding platform (lanPlan config) binding .confirmedLan
  | .startLoopbackProxy config =>
    w.startWithBinding platform (lanPlan config) loopbackBinding .internalLoopback
  | .startLoopbackInbound config =>
    w.startWithBinding platform (inboundPlan config) loopbackBinding .internalLoopback

def networkChanged (w : World κ) (i : Nat) (h : LanProxyHandle κ) : World κ :=
  { w with handles := w.handles.set i { h with state := .networkLost } }

/-- `stop`; a handle that is dropped stops first. -/
def stop (w : World κ) (i : Nat) (h : LanProxyHandle κ) (dropped : Bool) : World κ where
  lanProxies := if h.state ≠ .stopped then w.lanProxies.erase h.id else w.lanProxies
  handles := w.handles.set i { h with state := .stopped, dropped, everStopped := true }

inductive Action (κ : Type) where
  | start (platform : Platform) (request : Request κ)
  | networkChanged (i : Nat)
  | stop (i : Nat)
  | drop (i : Nat)

/-- The handle with this number, while it is there. -/
def handle (w : World κ) (i : Nat) : Option (LanProxyHandle κ) :=
  w.handles[i]?.filter fun h => !h.dropped

/-- A call that is refused changes nothing. -/
def apply (w : World κ) : Action κ → World κ
  | .start platform request => (w.start platform request).toOption.getD w
  | .networkChanged i => (w.handle i).elim w (w.networkChanged i)
  | .stop i => (w.handle i).elim w (w.stop i · false)
  | .drop i => (w.handle i).elim w (w.stop i · true)

end World

end Foxcore.Ref.Lan
