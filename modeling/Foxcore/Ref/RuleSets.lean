import Foxcore.Ref.DnsConfig

/-!
# Installed rule sets

A rule set is a signed list of names. The store keeps the last verified bundle
of each configured source and, for every policy, works out which artifacts are
in force. Signatures, digests and the decoding of an artifact belong to the
verifier; `RuleSetVerifier` is what the store asks of it, and nothing here
depends on what it answers.
-/

namespace Foxcore.Ref

open Lib

structure RuleSetBundle where
  name : Str
  manifest : List UInt8
  signature : List UInt8
  artifact : List UInt8
  deriving DecidableEq

structure VerifiedRuleSetMetadata where
  name : Str
  sequence : Nat
  generatedAtUnix : Nat
  expiresAtUnix : Nat
  artifactSha256 : List UInt8
  publicKeySha256 : List UInt8
  categorizedManifestSha256 : Option (List UInt8)
  deriving DecidableEq

structure VerifiedRuleSet (α : Type) where
  metadata : VerifiedRuleSetMetadata
  artifact : α

/-- What the store asks of the verifier, for artifacts of type `α`. -/
class RuleSetVerifier (α : Type) where
  decodeBase64 : Str → Option (List UInt8)
  sha256 : List UInt8 → List UInt8
  verifyRuleSet (bundle : RuleSetBundle) (publicKey : List UInt8) (name : Str)
    (minimumSequence nowUnix : Nat) : Except String (VerifiedRuleSet α)
  selectCategories : α → Option (List DnsCategory) → Except String α

/-- Why a rule set keeps a policy from being installed. -/
inductive RuleSetRefusal where
  | publicKeyNotBase64
  | publicKeyLength
  | clockBeforeEpoch
  | notFresh
  | categorySelection (error : String)
  | requiredMissing (name : Str)
  | noTrustPolicy
  | verificationFailed (error : String)
  | sequenceReused
  deriving DecidableEq

def maxRuleSetPublicKeyBytes : Nat := 4 * 1024

section

variable {α : Type} [RuleSetVerifier α]

def decodedPublicKey (α : Type) [RuleSetVerifier α] (configured : DnsRuleSetConfig) :
    Except RuleSetRefusal (List UInt8) :=
  match RuleSetVerifier.decodeBase64 α configured.publicKey with
  | none => .error .publicKeyNotBase64
  | some decoded =>
    if decoded.isEmpty ∨ maxRuleSetPublicKeyBytes < decoded.length then
      .error .publicKeyLength
    else .ok decoded

/-- `validate_categorized_freshness`. -/
def validateCategorizedFreshness (metadata : VerifiedRuleSetMetadata) (now : Nat) :
    Except RuleSetRefusal Unit :=
  if metadata.categorizedManifestSha256.isSome ∧
      (metadata.expiresAtUnix ≤ now ∨ min (now + 600) (2 ^ 64 - 1) < metadata.generatedAtUnix)
  then .error .notFresh
  else .ok ()

def selectArtifact (artifact : α) (configured : DnsRuleSetConfig) :
    Except RuleSetRefusal α :=
  match RuleSetVerifier.selectCategories artifact configured.enabledCategories with
  | .ok selected => .ok selected
  | .error error => .error (.categorySelection error)

/-- The artifact in force for one configured source, if there is one. `clock`
is the time since the epoch, or nothing when the clock is before it. -/
def activeArtifact (installed : HashMap Str (VerifiedRuleSet α)) (trusted : HashMap Str α)
    (clock : Option Nat) (configured : DnsRuleSetConfig) :
    Except RuleSetRefusal (Option α) := do
  match installed.lookup configured.name with
  | some ruleSet =>
    if ruleSet.metadata.categorizedManifestSha256.isSome then
      match clock with
      | none => throw .clockBeforeEpoch
      | some now => validateCategorizedFreshness ruleSet.metadata now
  | none => pure ()
  let publicKey ← decodedPublicKey α configured
  let expectedKey := RuleSetVerifier.sha256 α publicKey
  let compatible := (installed.lookup configured.name).filter fun ruleSet =>
    ruleSet.metadata.name = configured.name ∧
      configured.minimumSequence ≤ ruleSet.metadata.sequence ∧
      ruleSet.metadata.publicKeySha256 = expectedKey
  match compatible, trusted.lookup configured.name with
  | some ruleSet, _ => return some (← selectArtifact ruleSet.artifact configured)
  | none, some artifact => return some (← selectArtifact artifact configured)
  | none, none =>
    if configured.required then throw (.requiredMissing configured.name) else return none

def activeRuleSetArtifacts (ruleSets : List DnsRuleSetConfig)
    (installed : HashMap Str (VerifiedRuleSet α)) (trusted : HashMap Str α)
    (clock : Option Nat) : Except RuleSetRefusal (List α) := do
  let artifacts ← ruleSets.mapM (activeArtifact installed trusted clock)
  return artifacts.filterMap id

def verifyBundle (configured : DnsRuleSetConfig) (bundle : RuleSetBundle)
    (minimumSequence : Nat) (clock : Option Nat) :
    Except RuleSetRefusal (VerifiedRuleSet α) := do
  let publicKey ← decodedPublicKey α configured
  match clock with
  | none => throw .clockBeforeEpoch
  | some now =>
    match RuleSetVerifier.verifyRuleSet bundle publicKey configured.name minimumSequence
        now with
    | .ok verified => return verified
    | .error error => throw (.verificationFailed error)

/-- Why a store cannot be made with the bundles it is given. -/
inductive BootstrapRefusal where
  | duplicateName
  | noTrustPolicy
  | refused (cause : RuleSetRefusal)
  deriving DecidableEq

/-- `verify_initial_rule_sets`, with the names it has met. -/
def verifyInitialRuleSets (ruleSets : List DnsRuleSetConfig) (clock : Option Nat) :
    List Str → HashMap Str (VerifiedRuleSet α) → List RuleSetBundle →
      Except BootstrapRefusal (HashMap Str (VerifiedRuleSet α))
  | _, installed, [] => .ok installed
  | names, installed, bundle :: bundles =>
    if names.contains bundle.name then .error .duplicateName
    else
      match ruleSets.find? fun source => source.name = bundle.name with
      | none => .error .noTrustPolicy
      | some configured =>
        match verifyBundle configured bundle configured.minimumSequence clock with
        | .error cause => .error (.refused cause)
        | .ok verified =>
          verifyInitialRuleSets ruleSets clock (bundle.name :: names)
            (installed.insert configured.name verified) bundles

/-- Whether a bundle of a sequence number seen before is the one installed. -/
def VerifiedRuleSetMetadata.sameBytes (a b : VerifiedRuleSetMetadata) : Bool :=
  a.artifactSha256 = b.artifactSha256 ∧ a.publicKeySha256 = b.publicKeySha256 ∧
    a.categorizedManifestSha256 = b.categorizedManifestSha256

end

end Foxcore.Ref
