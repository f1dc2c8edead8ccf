import Foxcore.Ref.Runtime
import Foxcore.Ref.RuleSetVerify

/-!
# An audit of installed rule sets

Next to the world an audit keeps every bundle the store has accepted, with what
the store went by when it did. `NeverRollsBack` is what is expected of it: a
bundle is accepted under the key pinned for its name and at or above both
floors, a sequence number stands for one bundle, what is installed is only
replaced by what has a higher number, and nothing is in force that was not
accepted or shipped with the application.
-/

namespace Foxcore.Spec

open Lib Ref

/-- A bundle that was accepted: the trust policies then in force, what was
installed under its name, and what it was verified as. -/
structure Acceptance (α : Type) where
  bundle : RuleSetBundle
  ruleSets : List DnsRuleSetConfig
  previous : Option VerifiedRuleSetMetadata
  clock : Option Nat
  verified : VerifiedRuleSet α

structure Audit (ν π₄ π₆ α : Type) where
  world : World ν π₄ π₆ α
  accepted : List (Acceptance α)

section

variable {ν π₄ π₆ α : Type} [RuleSetVerifier α]

/-- A bundle verified against what the store goes by. -/
def Acceptance.of (ruleSets : List DnsRuleSetConfig) (previous : Option VerifiedRuleSetMetadata)
    (clock : Option Nat) (bundle : RuleSetBundle) : Option (Acceptance α) := do
  let configured ← ruleSets.find? fun source => source.name = bundle.name
  let floor :=
    max ((previous.map fun metadata => metadata.sequence).getD configured.minimumSequence)
      configured.minimumSequence
  let verified ← (verifyBundle configured bundle floor clock).toOption
  return ⟨bundle, ruleSets, previous, clock, verified⟩

/-- What a call that finds the lock free answers. -/
def answer (w : World ν π₄ π₆ α) (call : PolicyCall ν π₄ π₆) (clock : Option Nat) :
    Except PolicyError Nat :=
  (call.run w.policies.current w.policies.store
    ⟨w.policies.nextToken, w.resolvers.caches.length, w.resolvers.proxies.length⟩ clock).1

/-- The bundle an action has accepted, if it is an installation that succeeds. -/
def acceptance (w : World ν π₄ π₆ α) : Action ν π₄ π₆ → Option (Acceptance α)
  | .call (.installDnsRuleSet bundle) clock =>
    if w.policies.acts.isEmpty ∧ (answer w (.installDnsRuleSet bundle) clock).isOk then
      Acceptance.of w.policies.current.dnsConfig.ruleSets
        ((w.policies.store.ruleSets.lookup bundle.name).map VerifiedRuleSet.metadata) clock bundle
    else none
  | _ => none

namespace Audit

def apply (a : Audit ν π₄ π₆ α) (action : Action ν π₄ π₆) : Audit ν π₄ π₆ α :=
  ⟨a.world.apply action, (acceptance a.world action).toList ++ a.accepted⟩

/-- A store just made, of bundles it has verified. What ships with the
application may be anything. -/
def Initial (a : Audit ν π₄ π₆ α) : Prop :=
  a.world.Initial ∧ ∃ (bundles : List RuleSetBundle) (artifacts : List α) (clock : Option Nat),
    let ruleSets := a.world.policies.current.dnsConfig.ruleSets
    let store := a.world.policies.store
    verifyInitialRuleSets ruleSets clock [] ∅ bundles = .ok store.ruleSets ∧
    activeRuleSetArtifacts ruleSets store.ruleSets store.trustedRuleSets clock = .ok artifacts ∧
    (∀ proxy ∈ a.world.resolvers.proxies, proxy.artifacts = artifacts ∧
      proxy.config.ruleSets = ruleSets) ∧
    a.accepted = bundles.filterMap (Acceptance.of ruleSets none clock)

end Audit

/-- An acceptance under a key: the key is the one pinned for the bundle's name,
the bundle was verified under it, and its number is at or above the configured
minimum and what was installed. -/
structure Acceptance.Rightful (x : Acceptance α) (key : List UInt8) : Prop where
  pinned : ∃ configured, (x.ruleSets.find? fun source => source.name = x.bundle.name) =
      some configured ∧ decodedPublicKey α configured = .ok key ∧
      configured.minimumSequence ≤ x.verified.metadata.sequence
  verified : ∃ floor now, x.clock = some now ∧
    RuleSetVerifier.verifyRuleSet x.bundle key x.bundle.name floor now = .ok x.verified
  name : x.verified.metadata.name = x.bundle.name
  digest : x.verified.metadata.publicKeySha256 = RuleSetVerifier.sha256 α key
  floor : ∀ metadata ∈ x.previous, metadata.sequence ≤ x.verified.metadata.sequence

/-- An artifact comes from what ships with the application or from an accepted
bundle that a configured trust policy admits: its number is at or above the
policy's minimum and above what `before` has installed, and it was verified under
a key of the policy's digest. -/
def Sourced (accepted : List (Acceptance α)) (trusted : HashMap Str α)
    (before : HashMap Str (VerifiedRuleSet α)) (ruleSets : List DnsRuleSetConfig) (artifact : α) :
    Prop :=
  ∃ configured ∈ ruleSets,
    (∃ shipped, trusted.lookup configured.name = some shipped ∧
      selectArtifact shipped configured = .ok artifact) ∨
    ∃ x ∈ accepted, x.bundle.name = configured.name ∧
      configured.minimumSequence ≤ x.verified.metadata.sequence ∧
      (∃ key, decodedPublicKey α configured = .ok key ∧
        x.verified.metadata.publicKeySha256 = RuleSetVerifier.sha256 α key) ∧
      (∀ installed, before.lookup configured.name = some installed →
        installed.metadata.sequence ≤ x.verified.metadata.sequence) ∧
      selectArtifact x.verified.artifact configured = .ok artifact

/-- Whether an error is the one that comes with the kill switch set. -/
def isEmergency : PolicyError → Bool
  | .emergencyBlock _ _ => true
  | _ => false

structure NeverRollsBack (a : Audit ν π₄ π₆ α) : Prop where
  accepted : ∀ x ∈ a.accepted, ∃ key, x.Rightful key
  reused : ∀ x ∈ a.accepted, ∀ y ∈ a.accepted, x.bundle.name = y.bundle.name →
    x.verified.metadata.sequence = y.verified.metadata.sequence →
    x.verified.metadata.sameBytes y.verified.metadata = true
  active : ∀ proxy ∈ a.world.resolvers.proxies, ∀ artifact ∈ proxy.artifacts,
    Sourced a.accepted a.world.policies.store.trustedRuleSets ∅ proxy.config.ruleSets artifact
  activating : ∀ config cache artifacts,
    Act.makeProxy config cache artifacts ∈ a.world.policies.acts → ∀ artifact ∈ artifacts,
    Sourced a.accepted a.world.policies.store.trustedRuleSets a.world.policies.store.ruleSets
      config.ruleSets artifact
  installed : ∀ (actions : List (Action ν π₄ π₆)) name installed,
    a.world.policies.store.ruleSets.lookup name = some installed →
    ∃ later, (actions.foldl Audit.apply a).world.policies.store.ruleSets.lookup name = some later ∧
      installed.metadata.sequence ≤ later.metadata.sequence
  refused : ∀ call clock error, a.world.policies.acts = [] →
    answer a.world call clock = .error error → isEmergency error = false →
    let p := (a.apply (.call call clock)).world.policies
    p.acts = [] ∧ p.store = a.world.policies.store ∧ p.current = a.world.policies.current

end

end Foxcore.Spec
