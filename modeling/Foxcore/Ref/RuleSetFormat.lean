import Foxcore.Ref.Blocklist

/-!
# Rule-set artifacts

An artifact is a header and two maps, the names to block and the exceptions.
The header has the number of entries and the length of each map and the digest
of what the lists were made from. The compiler writes artifacts and the data
plane reads them, and the two check names differently: the compiler takes what
`reversed_key` makes a key of, the reader goes over every key label by label.

The crate that stores maps as bytes is a parameter, `StoredTransducer`, and so
is the digest. Sizes are those of a 64-bit target.
-/

namespace Foxcore.Ref

open Lib

/-- The bytes of a digest. -/
abbrev Digest : Type := { bytes : List UInt8 // bytes.length = 32 }

def ruleSetMagic : List UInt8 := Str.ofChars ['F', 'H', 'D', 'N', 'S', '1'] ++ [0, 0]
def ruleSetHeaderLen : Nat := 80
def maxArtifactBytes : Nat := 64 * 1024 * 1024
def maxRuleEntries : Nat := 5000000

/-- `u64::to_be_bytes`. -/
def toBe64 (n : Nat) : List UInt8 :=
  (List.range 8).map fun i => UInt8.ofNat (n / 256 ^ (7 - i))

/-- `u64::from_be_bytes`. -/
def fromBe64 (bytes : List UInt8) : Nat := bytes.foldl (fun n b => n * 256 + b.toNat) 0

inductive RuleSetBuildError where
  | tooLarge
  | invalidDomain
  | buildFailed
  deriving DecidableEq

inductive RuleSetError where
  | tooLarge
  | truncated
  | invalidSignature
  | invalidManifest
  | unsupportedManifest
  | wrongIdentity
  | futureManifest
  | expiredManifest
  | rollback
  | wrongKey
  | artifactMismatch
  | invalidArtifact
  deriving DecidableEq

def RuleSetError.message : RuleSetError → String
  | .tooLarge => "rule-set input exceeds its hard size limit"
  | .truncated => "rule-set input is empty or truncated"
  | .invalidSignature => "rule-set manifest signature is invalid"
  | .invalidManifest => "rule-set manifest JSON is invalid"
  | .unsupportedManifest => "rule-set manifest schema or format is unsupported"
  | .wrongIdentity => "rule-set manifest identity does not match the configured source"
  | .futureManifest => "rule-set manifest was generated too far in the future"
  | .expiredManifest => "rule-set manifest is expired or has an invalid validity window"
  | .rollback => "rule-set manifest sequence is below the accepted floor"
  | .wrongKey => "rule-set public key does not match the signed manifest"
  | .artifactMismatch => "rule-set artifact size or SHA-256 does not match the manifest"
  | .invalidArtifact => "rule-set artifact header or FST payload is invalid"

/-! ## Compiling -/

structure CompiledRuleSetArtifact where
  bytes : List UInt8
  blockEntries : Nat
  allowEntries : Nat
  deriving DecidableEq

structure CompiledMap where
  bytes : List UInt8
  entries : Nat
  deriving DecidableEq

/-- The bindings of a map in the order of their keys. -/
def sortedEntries (keys : HashMap Str Flags) : List (Str × Flags) :=
  (keys.entries.map fun s => (s.1, s.2)).insertionSort fun a b => a.1 ≤ b.1

/-- The loop of `compile_suffix_map`. -/
def collectSuffixes (categoryFlag : Flags) :
    HashMap Str Flags → List Str → Except RuleSetBuildError (HashMap Str Flags)
  | entries, [] => .ok entries
  | entries, domain :: domains =>
    match reversedKey domain with
    | none => .error .invalidDomain
    | some key =>
      let flags := flagSuffix ||| categoryFlag
      collectSuffixes categoryFlag (entries.upsert key fun old => old.getD 0 ||| flags) domains

section

variable (μ : Type) [Transducer μ UInt8 Flags] [StoredTransducer μ]

/-- `MapBuilder` over the entries in order. -/
def storeMap (keys : HashMap Str Flags) (entries : Nat) : Except RuleSetBuildError CompiledMap :=
  match (Transducer.build (sortedEntries keys) : Option μ) with
  | none => .error .buildFailed
  | some map => .ok ⟨StoredTransducer.bytes map, entries⟩

def compileSuffixMap (domains : List Str) (categoryFlag : Flags) :
    Except RuleSetBuildError CompiledMap := do
  let entries ← collectSuffixes categoryFlag ∅ domains
  storeMap μ entries entries.len

end

def assembleArtifact (sourceSha256 : Digest) (block allow : CompiledMap) :
    Except RuleSetBuildError CompiledRuleSetArtifact :=
  if maxArtifactBytes < ruleSetHeaderLen + block.bytes.length + allow.bytes.length then
    .error .tooLarge
  else
    .ok
      { bytes := ruleSetMagic ++ toBe64 block.entries ++ toBe64 allow.entries ++
          toBe64 block.bytes.length ++ toBe64 allow.bytes.length ++ sourceSha256.1 ++
          List.replicate 8 0 ++ block.bytes ++ allow.bytes
        blockEntries := block.entries
        allowEntries := allow.entries }

def compileRuleSetArtifact (μ : Type) [Transducer μ UInt8 Flags] [StoredTransducer μ]
    (sha256 : List UInt8 → Digest) (source : List UInt8) (blockSuffixes allowSuffixes : List Str)
    (category : Option DnsCategory) : Except RuleSetBuildError CompiledRuleSetArtifact := do
  if maxArtifactBytes < source.length ∨ maxRuleEntries < blockSuffixes.length ∨
      maxRuleEntries < allowSuffixes.length then
    throw .tooLarge
  let categoryFlag := (category.map categoryBit).getD 0
  let block ← compileSuffixMap μ blockSuffixes categoryFlag
  let allow ← compileSuffixMap μ allowSuffixes 0
  assembleArtifact (sha256 source) block allow

/-! ## Reading -/

/-- The categories in the order of their counts. -/
def allCategories : List DnsCategory := [.malicious, .telemetry, .trackers, .ads]

/-- The bits of all categories. -/
def categoryBits : Flags :=
  allCategories.foldl (fun mask category => mask ||| categoryBit category) 0

def isDomainByte (b : UInt8) : Bool :=
  (0x61 ≤ b && b ≤ 0x7a) || (0x30 ≤ b && b ≤ 0x39) || b = 0x2d || b = 0x5f

def validReversedDomain (key : Str) : Bool :=
  if key.isEmpty ∨ maxDomainBytes ≤ key.length ∨ Str.isAscii key = false then false
  else
    (Str.split dot key).all fun label =>
      !label.isEmpty && label.length ≤ 63 && label.all isDomainByte

/-- What is learned of a map while it is checked. -/
structure ValidatedMapFacts where
  suffixCategorized : Bool := true
  counts : DnsCategory → Nat := fun _ => 0

def checkEntry (block : Bool) (facts : ValidatedMapFacts) (entry : Str × Flags) :
    Except RuleSetError ValidatedMapFacts :=
  let allowedFlags := flagExact ||| flagSuffix ||| if block then categoryBits else 0
  if validReversedDomain entry.1 = false ∨ entry.2 &&& (flagExact ||| flagSuffix) = 0 ∨
      entry.2 &&& ~~~allowedFlags ≠ 0 then
    .error .invalidArtifact
  else
    .ok
      { suffixCategorized := facts.suffixCategorized &&
          (entry.2 &&& flagSuffix ≠ 0 && entry.2 &&& flagExact = 0 &&
            (!block || entry.2 &&& categoryBits ≠ 0))
        counts := fun category =>
          if block ∧ entry.2 &&& categoryBit category ≠ 0 then facts.counts category + 1
          else facts.counts category }

section

variable {μ : Type} [Transducer μ UInt8 Flags] [StoredTransducer μ]

/-- The facts about a map, which is known then to have the entries expected. -/
def validateMap (map : μ) (expectedEntries : Nat) (block : Bool) :
    Except RuleSetError { _facts : ValidatedMapFacts // Transducer.len map = expectedEntries } :=
  if h : Transducer.len map = expectedEntries then
    match (Transducer.entries map).foldlM (checkEntry block) {} with
    | .error error => .error error
    | .ok facts => .ok ⟨facts, h⟩
  else .error .invalidArtifact

/-- A decoded artifact with what only the rule-set code reads of it. -/
structure ParsedRuleSet (μ : Type) [Transducer μ UInt8 Flags] extends RuleSetArtifact μ where
  sourceSha256 : Digest
  categorizedAvailableMask : Option Flags
  categorizedCounts : Option (DnsCategory → Nat)

/-- `bytes[from..to]`. -/
def field (bytes : List UInt8) (start stop : Nat) : List UInt8 :=
  (bytes.drop start).take (stop - start)

/-- The artifact of two maps that pass the checks. -/
def checkMaps (block allow : μ) (blockEntries allowEntries : Nat) (sourceSha256 : Digest) :
    Except RuleSetError (ParsedRuleSet μ) :=
  match validateMap block blockEntries true with
  | .error error => .error error
  | .ok ⟨blockFacts, hblock⟩ =>
    match validateMap allow allowEntries false with
    | .error error => .error error
    | .ok ⟨allowFacts, hallow⟩ =>
      .ok
        { block := block
          allow := allow
          blockEntries := blockEntries
          allowEntries := allowEntries
          enabledCategoryMask := none
          block_len := hblock
          allow_len := hallow
          sourceSha256 := sourceSha256
          categorizedAvailableMask := none
          categorizedCounts :=
            if blockFacts.suffixCategorized && allowFacts.suffixCategorized &&
                allCategories.any fun category => 0 < blockFacts.counts category
            then some blockFacts.counts else none }

/-- The two maps of an artifact, once its header has been read. -/
def parseMaps (bytes : List UInt8) (blockEntries allowEntries blockEnd : Nat)
    (sourceSha256 : Digest) : Except RuleSetError (ParsedRuleSet μ) :=
  match StoredTransducer.load (field bytes ruleSetHeaderLen blockEnd) with
  | none => .error .invalidArtifact
  | some block =>
    match StoredTransducer.load (bytes.drop blockEnd) with
    | none => .error .invalidArtifact
    | some allow => checkMaps block allow blockEntries allowEntries sourceSha256

/-- `parse_artifact`. -/
def parseArtifact (bytes : List UInt8) : Except RuleSetError (ParsedRuleSet μ) :=
  if h : bytes.length < ruleSetHeaderLen then .error .invalidArtifact
  else if bytes.take 8 ≠ ruleSetMagic then .error .invalidArtifact
  else if (field bytes 72 ruleSetHeaderLen).any fun b => b ≠ 0 then .error .invalidArtifact
  else
    let blockEntries := fromBe64 (field bytes 8 16)
    let allowEntries := fromBe64 (field bytes 16 24)
    let blockLen := fromBe64 (field bytes 24 32)
    let allowLen := fromBe64 (field bytes 32 40)
    if maxRuleEntries < blockEntries ∨ maxRuleEntries < allowEntries then .error .tooLarge
    else
      let blockEnd := ruleSetHeaderLen + blockLen
      let allowEnd := blockEnd + allowLen
      if 2 ^ 64 ≤ blockEnd ∨ 2 ^ 64 ≤ allowEnd then .error .tooLarge
      else if allowEnd ≠ bytes.length then .error .invalidArtifact
      else
        parseMaps bytes blockEntries allowEntries blockEnd
          ⟨field bytes 40 72, by
            rw [ruleSetHeaderLen] at h
            rw [field, List.length_take, List.length_drop]
            omega⟩

def parseTrustedEmbeddedRuleSet (bytes : List UInt8) : Except RuleSetError (ParsedRuleSet μ) :=
  if maxArtifactBytes < bytes.length then .error .tooLarge else parseArtifact bytes

end

end Foxcore.Ref
