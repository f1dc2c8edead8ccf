import Foxcore.Ref.RuleSetFormat

/-!
# Rule sets with categories

A tagged input lists domains with the categories they belong to. The compiler
takes it only in its canonical form and in order; the reader works out from the
map how many domains each category has, and a configuration then selects among
the categories there are.

The reading and writing of JSON is a parameter, `Json`.
-/

namespace Foxcore.Ref

open Lib

/-- What is used of the JSON crate for values of a type. -/
structure Json (T : Type) where
  read : List UInt8 → Option T
  write : T → List UInt8

/-- `canonical_matches`: the bytes are what the value is written as, in ASCII,
and one line feed. -/
def canonicalMatches {T : Type} (json : Json T) (value : T) (expected : List UInt8) : Bool :=
  Str.isAscii (json.write value) && expected = json.write value ++ [0x0a]

/-! ## Texts -/

/-- Whether a text has a control character. -/
def Str.hasControl : Str → Bool
  | [] => false
  | b :: rest =>
    b < 0x20 || b = 0x7f || (b = 0xc2 && rest.head?.any fun c => 0x80 ≤ c && c ≤ 0x9f) ||
      Str.hasControl rest

def isAsciiAlphanumeric (b : UInt8) : Bool :=
  (0x30 ≤ b && b ≤ 0x39) || (0x41 ≤ b && b ≤ 0x5a) || (0x61 ≤ b && b ≤ 0x7a)

def isAsciiWhitespace (b : UInt8) : Bool :=
  b = 0x20 || b = 0x09 || b = 0x0a || b = 0x0c || b = 0x0d

def validText (value : Str) (maxLen : Nat) : Bool :=
  !value.isEmpty && value.length ≤ maxLen && !Str.hasControl value

def asciiText (value : Str) (max : Nat) : Bool := validText value max && Str.isAscii value

def lowerHex (value : Str) (length : Nat) : Bool :=
  value.length = length &&
    value.all fun b => (0x30 ≤ b && b ≤ 0x39) || (0x61 ≤ b && b ≤ 0x66)

/-- The byte `/`. -/
def slash : UInt8 := 0x2f

/-- `valid_relative_path`. A path has only normal components when it begins with
neither a slash nor a lone dot and has no double dot. -/
def validRelativePath (value : Str) : Bool :=
  if value.isEmpty ∨ 1024 < value.length ∨ value.contains 0x5c then false
  else
    let parts := Str.split slash value
    parts.head?.all (fun part => part ≠ [] ∧ part ≠ [dot]) && !parts.contains [dot, dot]

def httpsScheme : Str := Str.ofChars ['h', 't', 't', 'p', 's', ':', '/', '/']

/-! ## Categories and sources -/

/-- The bits of a list of categories. -/
def maskOf (categories : List DnsCategory) : Flags :=
  categories.foldl (fun mask category => mask ||| categoryBit category) 0

/-- Whether the categories come in the order of their declaration, none twice. -/
def inOrder : List DnsCategory → Bool
  | category :: next :: rest => category.index < next.index && inOrder (next :: rest)
  | _ => true

/-- `category_mask`. -/
def categoryMask (categories : List DnsCategory) : Except RuleSetError Flags :=
  if categories.isEmpty ∨ allCategories.length < categories.length ∨
      inOrder categories = false then
    .error .invalidManifest
  else .ok (maskOf categories)

structure SourceInput where
  path : Str
  sha256 : Str
  deriving DecidableEq

structure Source where
  categories : List DnsCategory
  commit : Str
  id : Str
  inputs : List SourceInput
  license : Str
  repo : Str
  deriving DecidableEq

/-- The texts come in strict order. -/
def ascending : List Str → Bool
  | text :: next :: rest => decide (text < next) && ascending (next :: rest)
  | _ => true

def validSourceInput (input : SourceInput) : Bool :=
  asciiText input.path 256 && validRelativePath input.path &&
    !((Str.split slash input.path).any fun part =>
      part = [] || part = [dot] || part = [dot, dot]) &&
    lowerHex input.sha256 64

def validCategorizedSource (source : Source) : Bool :=
  asciiText source.id 128 &&
    (source.id.all fun b => isAsciiAlphanumeric b || b = 0x2d || b = 0x5f || b = dot) &&
    asciiText source.repo 2048 && httpsScheme.isPrefixOf source.repo &&
    !(source.repo.drop 8).isEmpty &&
    !(source.repo.any fun b => isAsciiWhitespace b || b = 0x40 || b = 0x23 || b = 0x5c) &&
    lowerHex source.commit 40 && asciiText source.license 128 && !source.inputs.isEmpty &&
    source.inputs.length ≤ 16

/-- `validate_sources`. All its refusals are the same, so the order of its checks
does not show. -/
def validateSources (sources : List Source) (available : Flags) : Except RuleSetError Unit := do
  if sources.isEmpty ∨ 16 < sources.length then throw .invalidManifest
  if (sources.all validCategorizedSource) = false ∨
      ascending (sources.map Source.id) = false then
    throw .invalidManifest
  let masks ← sources.mapM fun source => categoryMask source.categories
  if masks.any fun mask => mask &&& ~~~available ≠ 0 then throw .invalidManifest
  if (sources.all fun source => source.inputs.all validSourceInput &&
      ascending (source.inputs.map SourceInput.path)) = false then
    throw .invalidManifest
  if masks.foldl (fun supplied mask => supplied ||| mask) 0 ≠ available then
    throw .invalidManifest

/-! ## Tagged inputs -/

inductive TrackerTier where
  | normal
  | pro
  deriving DecidableEq

inductive MaliciousTier where
  | medium
  | full
  deriving DecidableEq

structure Tiers where
  malicious : MaliciousTier
  trackers : TrackerTier
  deriving DecidableEq

structure TaggedDomain where
  categories : List DnsCategory
  domain : Str
  deriving DecidableEq

structure TaggedInput where
  allowSuffixes : List Str
  block : List TaggedDomain
  categories : List DnsCategory
  schema : Nat
  sources : List Source
  tiers : Tiers
  deriving DecidableEq

def maxTaggedInputBytes : Nat := 256 * 1024 * 1024

def validDomain (domain : Str) : Bool :=
  !domain.isEmpty && domain.length ≤ 253 && validReversedDomain domain

/-- What the loop over the tagged domains carries. -/
structure TaggedKeys where
  keys : HashMap Str Flags := ∅
  previous : Option Str := none
  used : Flags := 0

def collectTagged (available : Flags) :
    TaggedKeys → List TaggedDomain → Except RuleSetBuildError TaggedKeys
  | tagged, [] => .ok tagged
  | tagged, block :: rest =>
    if validDomain block.domain = false ∨ tagged.previous.any (fun last => block.domain ≤ last) then
      .error .invalidDomain
    else
      match categoryMask block.categories with
      | .error _ => .error .invalidDomain
      | .ok mask =>
        if mask &&& ~~~available ≠ 0 then .error .invalidDomain
        else
          match reversedKey block.domain with
          | none => .error .invalidDomain
          | some key =>
            collectTagged available
              { keys := tagged.keys.insert key (flagSuffix ||| mask)
                previous := some block.domain
                used := tagged.used ||| mask } rest

/-- The loop over the exceptions. -/
def checkAllowed : Option Str → List Str → Except RuleSetBuildError Unit
  | _, [] => .ok ()
  | previous, domain :: rest =>
    if validDomain domain = false ∨ previous.any (fun last => domain ≤ last) then
      .error .invalidDomain
    else checkAllowed (some domain) rest

/-- A refusal of the manifest code, where a domain is refused. -/
def asInvalidDomain {T : Type} : Except RuleSetError T → Except RuleSetBuildError T
  | .ok value => .ok value
  | .error _ => .error .invalidDomain

/-- The part of `compile` that follows the reading of the input. -/
def compileTagged (μ : Type) [Transducer μ UInt8 Flags] [StoredTransducer μ] (digest : Digest)
    (input : TaggedInput) : Except RuleSetBuildError CompiledRuleSetArtifact := do
  let available ← asInvalidDomain (categoryMask input.categories)
  asInvalidDomain (validateSources input.sources available)
  if input.block.isEmpty ∨ maxRuleEntries < input.block.length ∨
      maxRuleEntries < input.allowSuffixes.length then
    throw .tooLarge
  let tagged ← collectTagged available {} input.block
  if tagged.used ≠ available then throw .invalidDomain
  checkAllowed none input.allowSuffixes
  let block ← storeMap μ tagged.keys input.block.length
  let allow ← compileSuffixMap μ input.allowSuffixes 0
  assembleArtifact digest block allow

/-- `compile_tagged_rule_set_artifact`. -/
def compileTaggedRuleSetArtifact (μ : Type) [Transducer μ UInt8 Flags] [StoredTransducer μ]
    (sha256 : List UInt8 → Digest) (json : Json TaggedInput) (bytes : List UInt8) :
    Except RuleSetBuildError CompiledRuleSetArtifact :=
  if bytes.isEmpty ∨ maxTaggedInputBytes < bytes.length then .error .tooLarge
  else
    match json.read bytes with
    | none => .error .invalidDomain
    | some input =>
      if canonicalMatches json input bytes = false ∨ input.schema ≠ 1 then .error .invalidDomain
      else compileTagged μ (sha256 bytes) input

/-! ## Reading and selecting -/

/-- The categories that have an entry. -/
def availableMask (counts : DnsCategory → Nat) : Flags :=
  maskOf (allCategories.filter fun category => 0 < counts category)

section

variable {μ : Type} [Transducer μ UInt8 Flags]

def artifactCategories (artifact : ParsedRuleSet μ) : Except RuleSetError (DnsCategory → Nat) :=
  match artifact.categorizedCounts with
  | some counts => .ok counts
  | none => .error .invalidArtifact

/-- The names categorized artifacts go by. -/
def Tiers.name (tiers : Tiers) : Str :=
  let trackers := match tiers.trackers with
    | .normal => ['n', 'o', 'r', 'm', 'a', 'l']
    | .pro => ['p', 'r', 'o']
  let malicious := match tiers.malicious with
    | .medium => ['m', 'e', 'd', 'i', 'u', 'm']
    | .full => ['f', 'u', 'l', 'l']
  Str.ofChars (['f', 'o', 'x', 'h', 'o', 'l', 'e', '-', 'd', 'n', 's', '-', 'c', 'a', 't', 'e',
    'g', 'o', 'r', 'i', 'e', 's', '-'] ++ trackers ++ ['-'] ++ malicious)

/-- The four names `parse_trusted_categorized_rule_set` takes. -/
def categorizedNames : List Str :=
  [Tiers.name ⟨.medium, .normal⟩, Tiers.name ⟨.full, .normal⟩, Tiers.name ⟨.medium, .pro⟩,
    Tiers.name ⟨.full, .pro⟩]

def parseTrustedCategorizedRuleSet [StoredTransducer μ] (name : Str) (bytes : List UInt8) :
    Except RuleSetError (ParsedRuleSet μ) := do
  if categorizedNames.contains name = false then throw .wrongIdentity
  let artifact ← parseTrustedEmbeddedRuleSet bytes
  let counts ← artifactCategories artifact
  return { artifact with categorizedAvailableMask := some (availableMask counts) }

/-- The loop of `select_categories`. -/
def selectMask (available : Flags) : Flags → List DnsCategory → Except RuleSetError Flags
  | mask, [] => .ok mask
  | mask, category :: rest =>
    let bit := categoryBit category
    if mask &&& bit ≠ 0 ∨ available &&& bit = 0 then .error .unsupportedManifest
    else selectMask available (mask ||| bit) rest

def ParsedRuleSet.selectCategories (artifact : ParsedRuleSet μ)
    (categories : Option (List DnsCategory)) : Except RuleSetError (ParsedRuleSet μ) :=
  match artifact.categorizedAvailableMask, categories with
  | none, none => .ok artifact
  | some available, some selected =>
    if 4 < selected.length then .error .unsupportedManifest
    else
      match selectMask available 0 selected with
      | .error error => .error error
      | .ok mask => .ok { artifact with enabledCategoryMask := some mask }
  | _, _ => .error .unsupportedManifest

end

end Foxcore.Ref
