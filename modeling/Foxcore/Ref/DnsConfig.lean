import Foxcore.Ref.FakeIp

/-!
# The resolver's settings

Of `DnsConfig` these are the settings the resolver, its cache and the policy
store read; the blocklist is a module of its own. Of `DnsConfig::validate` the
checks below are those on the cache and the synthetic addresses, in their
order and with their texts. The checks on upstreams, the blocklist and the
rule sets come before and after and read none of these fields; a document that
passes `validate` passes `validateLimits`.
-/

namespace Foxcore.Ref

/-- `ConfigError::Invalid` and its text. -/
structure ConfigError where
  message : String
  deriving DecidableEq

inductive DnsMode where
  | realIp
  | fakeIp
  deriving DecidableEq

inductive DnsRoute where
  | direct
  | primary
  | tor
  deriving DecidableEq

inductive DnsUpstream where
  | udp (address : Str)
  | tcp (address : Str)
  | dot (host : Str) (port : Nat)
  | doh (url : Str)
  | doq (host : Str) (port : Nat)
  | doh3 (url : Str)
  deriving DecidableEq

inductive DnsCategory where
  | malicious
  | telemetry
  | trackers
  | ads
  deriving DecidableEq

/-- Whose signatures are accepted for one rule set. -/
structure DnsRuleSetConfig where
  name : Str
  publicKey : Str
  minimumSequence : Nat := 0
  required : Bool := true
  enabledCategories : Option (List DnsCategory) := none
  deriving DecidableEq

structure DnsConfig (π₄ π₆ : Type) where
  advertise : Option Str := none
  upstream : Option Str := none
  mode : DnsMode := .realIp
  upstreams : List DnsUpstream := []
  route : DnsRoute := .primary
  cacheSize : Nat := 4096
  negativeCache : Bool := true
  staleOnError : Bool := true
  timeoutMs : Nat := 5000
  maxResponseBytes : Nat := 65535
  fakeIpv4Pool : π₄
  fakeIpv6Pool : π₆
  fakeTtlS : Nat := 300
  ruleSets : List DnsRuleSetConfig := []
  deriving DecidableEq

/-- Whether the configuration makes an interceptor at all. -/
def DnsConfig.intercepts {π₄ π₆ : Type} (config : DnsConfig π₄ π₆) : Bool :=
  !config.upstreams.isEmpty || config.upstream.isSome || config.advertise.isSome ||
    config.mode == .fakeIp

/-- A check of one setting. -/
def requireSetting (holds : Bool) (message : String) : Except ConfigError Unit :=
  if holds then .ok () else .error ⟨message⟩

section Pools

variable {π₄ π₆ : Type} [Ipv4Net π₄] [Ipv6Net π₆]

def fakeIpv4Capacity (pool : π₄) : Nat := 2 ^ (32 - Ipv4Net.prefixLen pool) - 2

def fakeIpv6Capacity (pool : π₆) : Nat :=
  let hostBits := 128 - Ipv6Net.prefixLen pool
  if hostBits = 128 then 2 ^ 128 - 1 else 2 ^ hostBits - 1

namespace DnsConfig

variable (config : DnsConfig π₄ π₆)

def validateLimits : Except ConfigError Unit := do
  requireSetting (1 ≤ config.cacheSize ∧ config.cacheSize ≤ 65536)
    "dns.cache_size must be in 1..=65536"
  requireSetting (100 ≤ config.timeoutMs ∧ config.timeoutMs ≤ 30000)
    "dns.timeout_ms must be in 100..=30000"
  requireSetting (512 ≤ config.maxResponseBytes ∧ config.maxResponseBytes ≤ 65535)
    "dns.max_response_bytes must be in 512..=65535"
  requireSetting (30 ≤ config.fakeTtlS ∧ config.fakeTtlS ≤ 86400)
    "dns.fake_ttl_s must be in 30..=86400"
  requireSetting (config.cacheSize ≤ fakeIpv4Capacity config.fakeIpv4Pool ∧
      config.cacheSize ≤ fakeIpv6Capacity config.fakeIpv6Pool)
    "DNS fake-IP pools must each contain at least dns.cache_size usable addresses"

/-- Whether this resolver makes the address up: the pools are asked, not the
table, so that an address stays known when its promise is over. -/
def synthesizes (address : IpAddr) : Bool :=
  match config.mode, address with
  | .realIp, _ => false
  | .fakeIp, .v4 a => Ipv4Net.contains config.fakeIpv4Pool a
  | .fakeIp, .v6 a => Ipv6Net.contains config.fakeIpv6Pool a

/-- The limits a document that passes the checks respects. -/
structure Limited : Prop where
  cacheSize : 1 ≤ config.cacheSize ∧ config.cacheSize ≤ 65536
  timeoutMs : 100 ≤ config.timeoutMs ∧ config.timeoutMs ≤ 30000
  maxResponseBytes : 512 ≤ config.maxResponseBytes ∧ config.maxResponseBytes ≤ 65535
  fakeTtlS : 30 ≤ config.fakeTtlS ∧ config.fakeTtlS ≤ 86400
  pools : config.cacheSize ≤ fakeIpv4Capacity config.fakeIpv4Pool ∧
    config.cacheSize ≤ fakeIpv6Capacity config.fakeIpv6Pool

end DnsConfig

end Pools

theorem requireSetting_bind {β : Type} (holds : Bool) (message : String)
    (next : Except ConfigError β) (b : β) :
    (requireSetting holds message >>= fun _ => next) = .ok b ↔ holds = true ∧ next = .ok b := by
  cases holds with
  | true => exact ⟨fun h => ⟨rfl, h⟩, fun h => h.2⟩
  | false =>
    constructor
    · intro h
      cases h
    · rintro ⟨h, -⟩
      cases h

theorem requireSetting_ok (holds : Bool) (message : String) :
    requireSetting holds message = .ok () ↔ holds = true := by
  cases holds with
  | true => exact ⟨fun _ => rfl, fun _ => rfl⟩
  | false =>
    constructor
    · intro h
      cases h
    · intro h
      cases h

/-- Every check of a setting is made, and nothing else is asked of them. -/
theorem validateLimits_ok {π₄ π₆ : Type} [Ipv4Net π₄] [Ipv6Net π₆] (config : DnsConfig π₄ π₆) :
    config.validateLimits = .ok () ↔ config.Limited := by
  rw [DnsConfig.validateLimits]
  simp only [requireSetting_bind, requireSetting_ok, decide_eq_true_eq]
  constructor
  · rintro ⟨h₁, h₂, h₃, h₄, h₅⟩
    exact ⟨h₁, h₂, h₃, h₄, h₅⟩
  · rintro ⟨h₁, h₂, h₃, h₄, h₅⟩
    exact ⟨h₁, h₂, h₃, h₄, h₅⟩

end Foxcore.Ref
