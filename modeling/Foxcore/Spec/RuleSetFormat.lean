import Foxcore.Ref.RuleSetCategories
import Foxcore.Spec.Blocklist

/-!
# What an artifact stands for

Suffixes to block and suffixes to except, over label lists. `Faithful` says that
an artifact read back is the one that was compiled and that a blocklist with
nothing but it attached does with a name what the suffixes say;
`FaithfulCategories` and `Selects` say the same of a tagged input and a selection.
-/

namespace Foxcore.Spec

open Lib Ref

def Under (suffixes : List Str) (name : Str) : Prop :=
  ∃ suffix ∈ suffixes, nameLabels suffix <:+ nameLabels name

def UnderTagged (blocks : List TaggedDomain) (categories : List DnsCategory) (name : Str) : Prop :=
  ∃ block ∈ blocks, nameLabels block.domain <:+ nameLabels name ∧
    ∃ category ∈ block.categories, category ∈ categories

def taggedWith (blocks : List TaggedDomain) (category : DnsCategory) : Nat :=
  blocks.countP fun block => category ∈ block.categories

/-- What the reader of artifacts asks of a name: labels of at most 63 letters,
digits, hyphens and underscores, and less than 255 bytes in all. -/
def Storable (name : Str) : Prop :=
  (∀ label ∈ nameLabels name, label.length ≤ 63 ∧ ∀ b ∈ label, isDomainByte b = true) ∧
    (Str.join dot (nameLabels name)).length < maxDomainBytes

instance (name : Str) : Decidable (Storable name) := inferInstanceAs (Decidable (_ ∧ _))

section

variable {μ : Type} [Transducer μ UInt8 Flags]

def blocklistOf (artifact : RuleSetArtifact μ) : DomainBlocklist μ :=
  ({} : DomainBlocklist μ).withRuleSets [artifact]

/-- An artifact read back is the one compiled, and blocks a name when it was
compiled to. -/
structure Faithful (digest : Digest) (blockSuffixes allowSuffixes : List Str)
    (compiled : CompiledRuleSetArtifact) (parsed : ParsedRuleSet μ) (name : Str) : Prop where
  blockEntries : parsed.blockEntries = compiled.blockEntries
  allowEntries : parsed.allowEntries = compiled.allowEntries
  digest : parsed.sourceSha256 = digest
  blocks : ((blocklistOf parsed.toRuleSetArtifact).lookup name).isSome = true ↔
    Under blockSuffixes name ∧ ¬ Under allowSuffixes name

/-- A tagged input read back: its categories can be selected, each once. -/
structure FaithfulCategories (input : TaggedInput) (parsed : ParsedRuleSet μ) : Prop where
  available : parsed.categorizedAvailableMask = some (maskOf input.categories)
  counts : parsed.categorizedCounts = some (taggedWith input.block)
  selectable : ∀ categories,
    (∃ selected, parsed.selectCategories (some categories) = .ok selected) ↔
      categories.Nodup ∧ ∀ category ∈ categories, category ∈ input.categories

/-- A selection blocks a name when it is tagged with one of the categories. -/
def Selects (input : TaggedInput) (categories : List DnsCategory) (selected : ParsedRuleSet μ)
    (name : Str) : Prop :=
  ((blocklistOf selected.toRuleSetArtifact).lookup name).isSome = true ↔
    UnderTagged input.block categories name ∧ ¬ Under input.allowSuffixes name

end

end Foxcore.Spec
