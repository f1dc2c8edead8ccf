import Foxcore.Lib.Transducer
import Foxcore.Ref.DnsConfig

/-!
# The domain blocklist

Names are filed with their labels reversed, lower-cased and joined again, so
that a name below another has the other's key as a beginning that ends at a
dot. The keys of one list are stored as an automaton, and a lookup follows the
name's key byte by byte, looking at the value of every whole name it passes.

The value of a key is a set of flags: two say whether the entry covers its own
name only or also what is below it, the others are its categories.

The crate that stores the automata is a parameter, `Transducer`. Of a rule
set's artifact `RuleSetArtifact` has what the blocklist uses, and the fact about
the counts that its decoder checks; the format is a module of its own.
-/

namespace Foxcore.Ref

open Lib

abbrev Flags : Type := BitVec 64

def maxDomainBytes : Nat := 255

def flagExact : Flags := 1#64 <<< 0

def flagSuffix : Flags := 1#64 <<< 1

def categoryShift : Nat := 8

/-- `category as u32`. -/
def DnsCategory.index : DnsCategory → Nat
  | .malicious => 0
  | .telemetry => 1
  | .trackers => 2
  | .ads => 3

def categoryBit (category : DnsCategory) : Flags :=
  1#64 <<< (categoryShift + category.index)

/-- `reversed_key`. -/
def reversedKey (domain : Str) : Option Str :=
  let trimmed := Str.trimMatches dot domain
  if trimmed.isEmpty ∨ maxDomainBytes < trimmed.length ∨ Str.isAscii trimmed = false then none
  else
    let labels := ((Str.split dot trimmed).reverse.filter fun label => label ≠ []).map
      Str.toAsciiLowercase
    let written := Str.join dot labels
    if written.isEmpty then none else Str.fromUtf8 written

/-- Why a name is refused. -/
structure BlockVerdict where
  flags : Flags
  deriving DecidableEq

structure BlocklistSource where
  category : Option DnsCategory := none
  exact : List Str := []
  suffixes : List Str := []
  deriving DecidableEq

/-- The names a source lists, each with its flags. -/
def BlocklistSource.listings (source : BlocklistSource) : List (Str × Flags) :=
  let category := (source.category.map categoryBit).getD 0
  source.exact.map (fun name => (name, flagExact ||| category)) ++
    source.suffixes.map fun name => (name, flagSuffix ||| category)

/-- A list of names under construction, by key, and how many went in. -/
structure Listed where
  keys : HashMap Str Flags := ∅
  entries : Nat := 0

/-- One name listed. A name without a key is left out; a key listed before
gathers the flags. -/
def Listed.add (listed : Listed) (listing : Str × Flags) : Listed :=
  match reversedKey listing.1 with
  | none => listed
  | some key =>
    { keys := listed.keys.upsert key fun flags => flags.getD 0 ||| listing.2
      entries := listed.entries + 1 }

def Listed.collect (listings : List (Str × Flags)) : Listed := listings.foldl Listed.add {}

section

variable {μ : Type} [Transducer μ UInt8 Flags]

structure BlockMap (μ : Type) where
  map : μ
  enabledCategories : Option Flags

/-- A decoded artifact. The decoder has compared the counts with the maps. -/
structure RuleSetArtifact (μ : Type) [Transducer μ UInt8 Flags] where
  block : μ
  allow : μ
  blockEntries : Nat
  allowEntries : Nat
  enabledCategoryMask : Option Flags
  block_len : Transducer.len block = blockEntries
  allow_len : Transducer.len allow = allowEntries

structure DomainBlocklist (μ : Type) where
  maps : List (BlockMap μ) := []
  allowMaps : List μ := []
  entries : Nat := 0

/-- `compile_map`: the keys go in in order. -/
def compileMap (keys : HashMap Str Flags) : Option μ :=
  if keys.entries.isEmpty then none
  else
    Transducer.build ((keys.entries.map fun s => (s.1, s.2)).insertionSort
      fun a b => a.1 ≤ b.1)

/-! ## Looking a name up -/

def selectedFlags (flags : Flags) : Option Flags → Flags
  | none => flags
  | some mask =>
    let categories := flags &&& mask
    if categories = 0 then 0 else (flags &&& (flagExact ||| flagSuffix)) ||| categories

/-- What a node passed on the way contributes, when its flags have one of the
bits asked for. -/
def matchedAt (map : μ) (enabledCategories : Option Flags) (wanted : Flags)
    (node : Transducer.Node μ) (output : Flags) : Flags :=
  match Transducer.valueAt map node output with
  | some flags => if flags &&& wanted ≠ 0 then selectedFlags flags enabledCategories else 0
  | none => 0

/-- The loop of `lookup_map_selected`. A node is looked at before a dot, where
the labels so far are a whole name, and at the end. -/
def lookupFrom (map : μ) (enabledCategories : Option Flags) :
    Transducer.Node μ → Flags → Flags → Str → Flags
  | node, output, matched, [] =>
    matched ||| matchedAt map enabledCategories (flagExact ||| flagSuffix) node output
  | node, output, matched, byte :: key =>
    let matched :=
      if byte = dot then matched ||| matchedAt map enabledCategories flagSuffix node output
      else matched
    match Transducer.edge map node byte with
    | none => matched
    | some (out, next) => lookupFrom map enabledCategories next (output + out) matched key

def lookupMapSelected (map : μ) (key : Str) (enabledCategories : Option Flags) : Option Flags :=
  let matched := lookupFrom map enabledCategories (Transducer.root map) 0 0 key
  if matched ≠ 0 then some matched else none

def lookupMap (map : μ) (key : Str) : Option Flags := lookupMapSelected map key none

def BlockMap.lookup (blockMap : BlockMap μ) (key : Str) : Option Flags :=
  lookupMapSelected blockMap.map key blockMap.enabledCategories

namespace DomainBlocklist

/-! ## Putting a list together -/

def compileSources (sources : List BlocklistSource) : DomainBlocklist μ :=
  let listed := Listed.collect (sources.flatMap BlocklistSource.listings)
  match compileMap listed.keys with
  | none => {}
  | some map => { maps := [⟨map, none⟩], entries := listed.entries }

def withAllowlist (list : DomainBlocklist μ) (exact suffixes : List Str) : DomainBlocklist μ :=
  let source : BlocklistSource := { exact := exact, suffixes := suffixes }
  match compileMap (Listed.collect source.listings).keys with
  | none => list
  | some map => { list with allowMaps := list.allowMaps ++ [map] }

/-- One artifact attached. One whose selection is empty is left out. -/
def withRuleSet (list : DomainBlocklist μ) (ruleSet : RuleSetArtifact μ) : DomainBlocklist μ :=
  if ruleSet.enabledCategoryMask = some 0 then list
  else
    { maps := list.maps ++
        if 0 < ruleSet.blockEntries then [⟨ruleSet.block, ruleSet.enabledCategoryMask⟩] else []
      allowMaps := list.allowMaps ++ if 0 < ruleSet.allowEntries then [ruleSet.allow] else []
      entries := min (list.entries + ruleSet.blockEntries) (2 ^ 64 - 1) }

def withRuleSets (list : DomainBlocklist μ) (ruleSets : List (RuleSetArtifact μ)) :
    DomainBlocklist μ :=
  ruleSets.foldl withRuleSet list

def lookup (list : DomainBlocklist μ) (domain : Str) : Option BlockVerdict :=
  match reversedKey domain with
  | none => none
  | some key =>
    if list.allowMaps.any fun map => (lookupMap map key).isSome then none
    else
      let flags := (list.maps.filterMap fun map => map.lookup key).foldl
        (fun combined flags => combined ||| flags) 0
      if flags ≠ 0 then some ⟨flags⟩ else none

end DomainBlocklist

end

end Foxcore.Ref
