import Foxcore.Ref.Route
import Foxcore.Ref.RuleSets

/-!
# The policy store

The store publishes one snapshot at a time. A flow loads the snapshot in force
when it starts and keeps the snapshot's revocation token. Calls that change
the policy are serialised by a lock, but readers take no lock, so what a call
does is seen piece by piece: `Act` is one such piece, and a call is the list of
its acts, worked out from what it finds under the lock.

Tokens, caches and proxies are shared objects and are named by numbers here. A
call is told which numbers are free for what it makes.
-/

namespace Foxcore.Ref

open Lib

structure FlowPolicySnapshot (ν π₄ π₆ : Type) where
  revision : Nat
  routes : RouteTable ν
  dnsConfig : DnsConfig π₄ π₆
  dns : Nat
  dnsProxy : Option Nat
  revocation : Nat

/-- What the lock protects. -/
structure PolicyMutable (α : Type) where
  ruleSets : HashMap Str (VerifiedRuleSet α) := ∅
  trustedRuleSets : HashMap Str α := ∅

/-- One step of a call that other threads can see. `closeEpoch`, the flush and
`openEpoch` are `DnsProxy::network_changed`: the epoch is odd in between and
the barrier held. -/
inductive Act (ν π₄ π₆ α : Type) where
  | forkCache (source capacity : Nat)
  | makeProxy (config : DnsConfig π₄ π₆) (cache : Nat) (artifacts : List α)
  | store (snapshot : FlowPolicySnapshot ν π₄ π₆)
  | cancel (token : Nat)
  | closeEpoch (proxy : Nat)
  | flush (cache : Nat) (networkChange : Bool)
  | openEpoch (proxy : Nat)
  | setRuleSets (ruleSets : HashMap Str (VerifiedRuleSet α))

inductive PolicyCall (ν π₄ π₆ : Type) where
  | reload (expectedRevision : Option Nat) (routes : RouteTable ν)
      (dnsConfig : DnsConfig π₄ π₆)
  | installDnsRuleSet (bundle : RuleSetBundle)
  | networkChanged

inductive PolicyError where
  | revisionConflict (expected current : Nat)
  | refused (cause : RuleSetRefusal)
  | emergencyBlock (revision : Nat) (cause : RuleSetRefusal)
  deriving DecidableEq

/-- Numbers for a token, a cache and a proxy not made yet. -/
structure Unused where
  token : Nat
  cache : Nat
  proxy : Nat

/-- `u64::saturating_add(1)`. -/
def saturatingSucc (n : Nat) : Nat := min (n + 1) (2 ^ 64 - 1)

section

variable {ν π₄ π₆ α : Type}

/-- `DnsProxy::network_changed` of a snapshot's proxy. -/
def proxyChanged (snapshot : FlowPolicySnapshot ν π₄ π₆) (proxy : Nat)
    (networkChange : Bool) : List (Act ν π₄ π₆ α) :=
  [.closeEpoch proxy, .flush snapshot.dns networkChange, .openEpoch proxy]

/-- What follows the publication of a snapshot that revokes its predecessor. -/
def revoke (previous : FlowPolicySnapshot ν π₄ π₆) : List (Act ν π₄ π₆ α) :=
  .cancel previous.revocation :: (previous.dnsProxy.toList.flatMap fun proxy =>
    proxyChanged previous proxy false)

variable [RuleSetVerifier α]

/-- The proxy a configuration makes, if it intercepts. -/
def proxyOf (config : DnsConfig π₄ π₆) (unused : Unused) : Option Nat :=
  if config.intercepts then some unused.proxy else none

/-- Whether a reload is meant for the revision in force. -/
def revisionMatches (expectedRevision : Option Nat) (current : FlowPolicySnapshot ν π₄ π₆) :
    Bool :=
  expectedRevision.all fun expected => expected = current.revision

/-- `reload`. Where the new policy cannot be installed but asks for the kill
switch, the policy in force stays with the switch set. -/
def reload (current : FlowPolicySnapshot ν π₄ π₆) (store : PolicyMutable α) (unused : Unused)
    (clock : Option Nat) (expectedRevision : Option Nat) (routes : RouteTable ν)
    (dnsConfig : DnsConfig π₄ π₆) : Except PolicyError Nat × List (Act ν π₄ π₆ α) :=
  if revisionMatches expectedRevision current = false then
    (.error (.revisionConflict (expectedRevision.getD 0) current.revision), [])
  else
    let revision := saturatingSucc current.revision
    match activeRuleSetArtifacts dnsConfig.ruleSets store.ruleSets store.trustedRuleSets
        clock with
    | .error cause =>
      if routes.killSwitch ∧ current.routes.killSwitch = false then
        (.error (.emergencyBlock revision cause),
          .store { current with
            revision := revision
            routes := current.routes.withEmergencyBlock
            revocation := unused.token } :: revoke current)
      else (.error (.refused cause), [])
    | .ok artifacts =>
      let revokePrevious := routes.killSwitch || current.routes.killSwitch
      let snapshot : FlowPolicySnapshot ν π₄ π₆ :=
        { revision := revision
          routes := routes
          dnsConfig := dnsConfig
          dns := unused.cache
          dnsProxy := proxyOf dnsConfig unused
          revocation := if revokePrevious then unused.token else current.revocation }
      (.ok revision,
        [.forkCache current.dns dnsConfig.cacheSize,
          .makeProxy dnsConfig unused.cache artifacts, .store snapshot] ++
        if revokePrevious then revoke current else [])

/-- The bundle `install_dns_rule_set` would install, or nothing when it is the
installed one. -/
def admitBundle (current : FlowPolicySnapshot ν π₄ π₆) (store : PolicyMutable α)
    (clock : Option Nat) (bundle : RuleSetBundle) :
    Except RuleSetRefusal (Option (DnsRuleSetConfig × VerifiedRuleSet α)) := do
  match current.dnsConfig.ruleSets.find? fun source => source.name = bundle.name with
  | none => throw .noTrustPolicy
  | some configured =>
    let previous := store.ruleSets.lookup bundle.name
    let minimumSequence := max
      ((previous.map fun ruleSet => ruleSet.metadata.sequence).getD configured.minimumSequence)
      configured.minimumSequence
    let verified ← verifyBundle configured bundle minimumSequence clock
    match previous with
    | some previous =>
      if verified.metadata.sequence = previous.metadata.sequence then
        if verified.metadata.sameBytes previous.metadata then return none
        else throw .sequenceReused
      else return some (configured, verified)
    | none => return some (configured, verified)

/-- `install_dns_rule_set`: a new resolver over the cache of the old one. -/
def installDnsRuleSet (current : FlowPolicySnapshot ν π₄ π₆) (store : PolicyMutable α)
    (unused : Unused) (clock : Option Nat) (bundle : RuleSetBundle) :
    Except PolicyError Nat × List (Act ν π₄ π₆ α) :=
  match admitBundle current store clock bundle with
  | .error cause => (.error (.refused cause), [])
  | .ok none => (.ok current.revision, [])
  | .ok (some (configured, verified)) =>
    let candidate := store.ruleSets.insert configured.name verified
    match activeRuleSetArtifacts current.dnsConfig.ruleSets candidate store.trustedRuleSets
        clock with
    | .error cause => (.error (.refused cause), [])
    | .ok artifacts =>
      let revision := saturatingSucc current.revision
      (.ok revision,
        [.makeProxy current.dnsConfig current.dns artifacts,
          .store { current with
            revision := revision, dnsProxy := proxyOf current.dnsConfig unused },
          .setRuleSets candidate])

/-- `network_changed`: the same policy under a new token, its answers gone. -/
def networkChanged (current : FlowPolicySnapshot ν π₄ π₆) (unused : Unused) :
    List (Act ν π₄ π₆ α) :=
  (match current.dnsProxy with
    | some proxy => proxyChanged current proxy true
    | none => [.flush current.dns true]) ++
  [.store { current with revocation := unused.token }, .cancel current.revocation]

/-- What a call answers and does. -/
def PolicyCall.run (current : FlowPolicySnapshot ν π₄ π₆) (store : PolicyMutable α)
    (unused : Unused) (clock : Option Nat) :
    PolicyCall ν π₄ π₆ → Except PolicyError Nat × List (Act ν π₄ π₆ α)
  | .reload expectedRevision routes dnsConfig =>
    Ref.reload current store unused clock expectedRevision routes dnsConfig
  | .installDnsRuleSet bundle => Ref.installDnsRuleSet current store unused clock bundle
  | .networkChanged => (.ok current.revision, Ref.networkChanged current unused)

end

end Foxcore.Ref
