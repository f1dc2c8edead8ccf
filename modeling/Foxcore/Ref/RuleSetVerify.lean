import Foxcore.Ref.RuleSetCategories
import Foxcore.Ref.RuleSets

/-!
# The rule-set verifier

A bundle is a manifest, a signature of its exact bytes and an artifact. The
manifest says what the bundle is called, its sequence number and how long it is
good for, and has the digests of the key and of the artifact. There are two kinds of
manifest, told apart by their schema number; the second has categories.

What comes from other crates is a parameter, `RuleSetCrates`: the digest, the
checks on keys and signatures, base64, and the reading of JSON.
-/

namespace Foxcore.Ref

open Lib

structure ManifestSource where
  name : Str
  repo : Str
  commit : Str
  license : Str
  inputPath : Str
  inputSha256 : Str
  deriving DecidableEq

structure ManifestArtifact where
  file : Str
  size : Nat
  sha256 : Str
  blockEntries : Nat
  allowEntries : Nat
  deriving DecidableEq

structure Manifest where
  schema : Nat
  name : Str
  format : Str
  sequence : Nat
  generatedAtUnix : Nat
  expiresAtUnix : Nat
  keySha256 : Str
  source : ManifestSource
  artifact : ManifestArtifact
  coreSchema : Nat
  deriving DecidableEq

structure ArtifactMetadata where
  allowEntries : Nat
  blockEntries : Nat
  categoryEntries : DnsCategory → Nat
  file : Str
  sha256 : Str
  size : Nat

structure CategorizedManifest where
  artifact : ArtifactMetadata
  categories : List DnsCategory
  categorySchema : Nat
  coreSchema : Nat
  expiresAtUnix : Nat
  format : Str
  generatedAtUnix : Nat
  keySha256 : Str
  name : Str
  schema : Nat
  sequence : Nat
  sources : List Source
  taggedInputSha256 : Str
  tiers : Tiers

/-- What is used of other crates. `schemaOf` is the member `schema` of a JSON
value, where it is a number. -/
class RuleSetCrates where
  sha256 : List UInt8 → Digest
  parsesPublicKey : List UInt8 → Bool
  verifySig (publicKey message signature : List UInt8) : Bool
  decodeBase64 : Str → Option (List UInt8)
  schemaOf : List UInt8 → Option (Option Nat)
  readManifest : List UInt8 → Option Manifest
  categorizedJson : Json CategorizedManifest

def ruleSetFormat : Str :=
  Str.ofChars ['f', 'o', 'x', 'h', 'o', 'l', 'e', '-', 'd', 'n', 's', '-', 'f', 's', 't', '-',
    'v', '1']

def categoriesFile : Str :=
  Str.ofChars ['d', 'n', 's', '-', 'c', 'a', 't', 'e', 'g', 'o', 'r', 'i', 'e', 's', '.', 'f', 'h',
    'd', 's']

def manifestSchema : Nat := 2
def coreSchema : Nat := 1
def maxManifestBytes : Nat := 64 * 1024
def maxSignatureBytes : Nat := 256

/-- What the application asks of a bundle. -/
structure RuleSetVerificationPolicy where
  expectedName : Str
  minimumSequence : Nat
  nowUnixS : Nat
  maxFutureSkewS : Nat := 10 * 60
  maxValidityS : Nat := 31 * 24 * 60 * 60

/-! ## Texts of a manifest -/

def hexDigit (n : UInt8) : UInt8 := if n < 10 then 0x30 + n else 0x57 + n

def encodeHex (bytes : List UInt8) : Str :=
  bytes.flatMap fun b : UInt8 => [hexDigit (b >>> 4), hexDigit (b &&& 0x0f)]

def isHexDigit (b : UInt8) : Bool :=
  (0x30 ≤ b && b ≤ 0x39) || (0x61 ≤ b && b ≤ 0x66) || (0x41 ≤ b && b ≤ 0x46)

/-- Whether `decode_hex_32` decodes a text. What it decodes it to is not used. -/
def decodesHex32 (value : Str) : Bool := value.length = 64 && value.all isHexDigit

def validSource (source : ManifestSource) : Bool :=
  validText source.name 128 && httpsScheme.isPrefixOf source.repo && validText source.repo 2048 &&
    validText source.commit 128 && validText source.license 64 &&
    validRelativePath source.inputPath && decodesHex32 source.inputSha256

/-- Whether a text has two dots in a row. -/
def hasDoubleDot : Str → Bool
  | b :: c :: rest => (b = dot && c = dot) || hasDoubleDot (c :: rest)
  | _ => false

def validArtifactName (value : Str) : Bool :=
  !value.isEmpty && value.length ≤ 128 && value.head? ≠ some dot && !hasDoubleDot value &&
    value.all fun b => isAsciiAlphanumeric b || b = dot || b = 0x5f || b = 0x2d

/-! ## The checks -/

def validateInputSizes (manifest signature publicKey artifact : List UInt8) :
    Except RuleSetError Unit := do
  if manifest.isEmpty ∨ signature.isEmpty ∨ publicKey.isEmpty ∨ artifact.isEmpty then
    throw .truncated
  if maxManifestBytes < manifest.length ∨ maxSignatureBytes < signature.length ∨
      maxRuleSetPublicKeyBytes < publicKey.length ∨ maxArtifactBytes < artifact.length then
    throw .tooLarge

/-- The checks on a manifest's dates, which both kinds share. -/
def validateValidity (generatedAtUnix expiresAtUnix : Nat) (policy : RuleSetVerificationPolicy) :
    Except RuleSetError Unit := do
  if min (policy.nowUnixS + policy.maxFutureSkewS) (2 ^ 64 - 1) < generatedAtUnix then
    throw .futureManifest
  if expiresAtUnix < generatedAtUnix then throw .expiredManifest
  let validity := expiresAtUnix - generatedAtUnix
  if expiresAtUnix ≤ policy.nowUnixS ∨ validity = 0 ∨ policy.maxValidityS < validity then
    throw .expiredManifest

section

variable [RuleSetCrates]

def validateManifest (manifest : Manifest) (publicKey artifact : List UInt8)
    (policy : RuleSetVerificationPolicy) : Except RuleSetError Unit := do
  if manifest.schema ≠ manifestSchema ∨ manifest.format ≠ ruleSetFormat ∨
      manifest.coreSchema ≠ coreSchema then
    throw .unsupportedManifest
  if manifest.name ≠ policy.expectedName ∨ validText manifest.name 128 = false ∨
      validSource manifest.source = false ∨ validArtifactName manifest.artifact.file = false then
    throw .wrongIdentity
  if manifest.sequence < policy.minimumSequence then throw .rollback
  validateValidity manifest.generatedAtUnix manifest.expiresAtUnix policy
  if encodeHex (RuleSetCrates.sha256 publicKey).1 ≠ manifest.keySha256 then throw .wrongKey
  if manifest.artifact.size ≠ artifact.length ∨
      encodeHex (RuleSetCrates.sha256 artifact).1 ≠ manifest.artifact.sha256 ∨
      maxRuleEntries < manifest.artifact.blockEntries ∨
      maxRuleEntries < manifest.artifact.allowEntries then
    throw .artifactMismatch

variable {μ : Type} [Transducer μ UInt8 Flags] [StoredTransducer μ]

/-- `categories::verify`. -/
def verifyCategorized (manifestBytes publicKey artifactBytes : List UInt8)
    (policy : RuleSetVerificationPolicy) :
    Except RuleSetError (VerifiedRuleSet (ParsedRuleSet μ)) := do
  match RuleSetCrates.categorizedJson.read manifestBytes with
  | none => throw .invalidManifest
  | some manifest =>
    if canonicalMatches RuleSetCrates.categorizedJson manifest manifestBytes = false then
      throw .invalidManifest
    if manifest.schema ≠ 3 ∨ manifest.format ≠ ruleSetFormat ∨
        manifest.coreSchema ≠ coreSchema ∨ manifest.categorySchema ≠ 1 then
      throw .unsupportedManifest
    if manifest.name ≠ policy.expectedName ∨ manifest.name ≠ manifest.tiers.name ∨
        manifest.artifact.file ≠ categoriesFile then
      throw .wrongIdentity
    let available ← categoryMask manifest.categories
    validateSources manifest.sources available
    if manifest.sequence = 0 ∨ manifest.sequence < policy.minimumSequence then throw .rollback
    validateValidity manifest.generatedAtUnix manifest.expiresAtUnix policy
    if lowerHex manifest.keySha256 64 = false ∨
        encodeHex (RuleSetCrates.sha256 publicKey).1 ≠ manifest.keySha256 then
      throw .wrongKey
    if manifest.artifact.size ≠ artifactBytes.length ∨
        lowerHex manifest.artifact.sha256 64 = false ∨
        encodeHex (RuleSetCrates.sha256 artifactBytes).1 ≠ manifest.artifact.sha256 ∨
        maxRuleEntries < manifest.artifact.blockEntries ∨
        maxRuleEntries < manifest.artifact.allowEntries ∨
        lowerHex manifest.taggedInputSha256 64 = false then
      throw .artifactMismatch
    let artifact ← parseArtifact artifactBytes
    let counts ← artifactCategories artifact
    if artifact.blockEntries ≠ manifest.artifact.blockEntries ∨
        artifact.allowEntries ≠ manifest.artifact.allowEntries ∨
        encodeHex artifact.sourceSha256.1 ≠ manifest.taggedInputSha256 ∨
        allCategories.any (fun category =>
          counts category ≠ manifest.artifact.categoryEntries category) ∨
        allCategories.any (fun category =>
          decide (0 < counts category) ≠ decide (available &&& categoryBit category ≠ 0)) then
      throw .artifactMismatch
    return {
      metadata := {
        name := manifest.name
        sequence := manifest.sequence
        generatedAtUnix := manifest.generatedAtUnix
        expiresAtUnix := manifest.expiresAtUnix
        artifactSha256 := (RuleSetCrates.sha256 artifactBytes).1
        publicKeySha256 := (RuleSetCrates.sha256 publicKey).1
        categorizedManifestSha256 := some (RuleSetCrates.sha256 manifestBytes).1 }
      artifact := { artifact with categorizedAvailableMask := some available } }

/-- The part of `verify_rule_set` for manifests without categories. -/
def verifyPlain (manifestBytes publicKey artifactBytes : List UInt8)
    (policy : RuleSetVerificationPolicy) :
    Except RuleSetError (VerifiedRuleSet (ParsedRuleSet μ)) := do
  match RuleSetCrates.readManifest manifestBytes with
  | none => throw .invalidManifest
  | some manifest =>
    validateManifest manifest publicKey artifactBytes policy
    let artifact ← parseArtifact artifactBytes
    if artifact.blockEntries ≠ manifest.artifact.blockEntries ∨
        artifact.allowEntries ≠ manifest.artifact.allowEntries ∨
        encodeHex artifact.sourceSha256.1 ≠ manifest.source.inputSha256 then
      throw .artifactMismatch
    return {
      metadata := {
        name := manifest.name
        sequence := manifest.sequence
        generatedAtUnix := manifest.generatedAtUnix
        expiresAtUnix := manifest.expiresAtUnix
        artifactSha256 := (RuleSetCrates.sha256 artifactBytes).1
        publicKeySha256 := (RuleSetCrates.sha256 publicKey).1
        categorizedManifestSha256 := none }
      artifact := artifact }

def verifyRuleSet (manifestBytes signature publicKey artifactBytes : List UInt8)
    (policy : RuleSetVerificationPolicy) :
    Except RuleSetError (VerifiedRuleSet (ParsedRuleSet μ)) := do
  validateInputSizes manifestBytes signature publicKey artifactBytes
  if RuleSetCrates.parsesPublicKey publicKey = false then throw .wrongKey
  if RuleSetCrates.verifySig publicKey manifestBytes signature = false then throw .invalidSignature
  match RuleSetCrates.schemaOf manifestBytes with
  | none => throw .invalidManifest
  | some schema =>
    if schema = some 3 then verifyCategorized manifestBytes publicKey artifactBytes policy
    else verifyPlain manifestBytes publicKey artifactBytes policy

/-- An error as the store shows it. -/
def asMessage {T : Type} : Except RuleSetError T → Except String T
  | .ok value => .ok value
  | .error error => .error error.message

/-- The verifier the store uses. -/
instance : RuleSetVerifier (ParsedRuleSet μ) where
  decodeBase64 := RuleSetCrates.decodeBase64
  sha256 bytes := (RuleSetCrates.sha256 bytes).1
  verifyRuleSet bundle publicKey name minimumSequence nowUnix :=
    asMessage (verifyRuleSet bundle.manifest bundle.signature publicKey bundle.artifact
      { expectedName := name, minimumSequence := minimumSequence, nowUnixS := nowUnix })
  selectCategories artifact categories := asMessage (artifact.selectCategories categories)

end

end Foxcore.Ref
