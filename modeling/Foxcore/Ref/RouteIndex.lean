import Foxcore.Lib.HashMap
import Foxcore.Lib.Trie
import Foxcore.Ref.Flow

/-!
# The index over the rule list

Compiling a policy files every rule under the names it mentions: exact names
in a table by name, suffixes in a trie by label with the last label first,
and a rule that mentions no name at all in a list of its own. What is filed
is the position of the rule, once for every mention, so a rule that lists one
name twice is filed twice.

`RuleIndex.Indexes` says what such an index means in terms of the rule list
alone. `indexRules_indexes` says the loop establishes it, and a compiled
table carries the fact with it, so matching never has to look at the loop
again.
-/

namespace Foxcore.Ref

open Lib

variable {ν : Type}

def normalizeDomain (domain : Str) : Str :=
  Str.toAsciiLowercase (Str.trimMatches dot domain)

/-- The labels of a name in the order the trie is walked, last label first. -/
def reversedLabels (domain : Str) : List Str := (Str.split dot domain).reverse

/-! ## The suffix trie -/

abbrev SuffixNode : Type := Trie Str Nat

namespace SuffixNode

def insert (suffix : Str) (rule : Nat) (node : SuffixNode) : SuffixNode :=
  Trie.insert (reversedLabels suffix) rule node

/-- The candidates met along the name, deepest level first. -/
def collect (domain : Str) (node : SuffixNode) : List Nat :=
  (Trie.levels (reversedLabels domain) node).reverse.flatten

end SuffixNode

/-! ## Filing the rules -/

structure RuleIndex where
  exactDomains : HashMap Str (List Nat) := ∅
  suffixDomains : SuffixNode := Trie.empty
  fallback : List Nat := []

/-- Whether a rule mentions no name. -/
def RouteRule.isGeneric (rule : RouteRule ν) : Bool :=
  rule.exactDomains.isEmpty && rule.domainSuffixes.isEmpty

namespace RuleIndex

/-- `entry(name).or_default().push(index)`. -/
def pushExact (index : Nat) (m : HashMap Str (List Nat)) (domain : Str) :
    HashMap Str (List Nat) :=
  m.upsert (normalizeDomain domain) fun old => old.getD [] ++ [index]

def pushSuffix (index : Nat) (node : SuffixNode) (suffix : Str) : SuffixNode :=
  node.insert (normalizeDomain suffix) index

/-- One round of the loop over the enumerated rules. -/
def add (ix : RuleIndex) (entry : RouteRule ν × Nat) : RuleIndex where
  exactDomains := entry.1.exactDomains.foldl (pushExact entry.2) ix.exactDomains
  suffixDomains := entry.1.domainSuffixes.foldl (pushSuffix entry.2) ix.suffixDomains
  fallback := if entry.1.isGeneric then ix.fallback ++ [entry.2] else ix.fallback

end RuleIndex

def indexRules (rules : List (RouteRule ν)) : RuleIndex :=
  rules.zipIdx.foldl RuleIndex.add {}

/-! ## What the index means -/

def RouteRule.exactKeys (rule : RouteRule ν) : List Str :=
  rule.exactDomains.map normalizeDomain

def RouteRule.suffixKeys (rule : RouteRule ν) : List (List Str) :=
  rule.domainSuffixes.map fun suffix => reversedLabels (normalizeDomain suffix)

/-- The positions of the rules that mention a key, once for every mention. -/
def filed {κ : Type} [BEq κ] (keys : RouteRule ν → List κ) (key : κ)
    (entries : List (RouteRule ν × Nat)) : List Nat :=
  entries.flatMap fun x => List.replicate ((keys x.1).count key) x.2

namespace RuleIndex

/-- The index holds exactly what the enumerated rules mention. -/
structure Indexes (ix : RuleIndex) (entries : List (RouteRule ν × Nat)) : Prop where
  exact : ∀ d, (ix.exactDomains.lookup d).getD [] = filed RouteRule.exactKeys d entries
  suffix : ∀ p, ix.suffixDomains.valuesAt p = filed RouteRule.suffixKeys p entries
  generic : ix.fallback = (entries.filter fun x => x.1.isGeneric).map Prod.snd

theorem foldl_pushExact_lookup (index : Nat) (domains : List Str) (m : HashMap Str (List Nat))
    (d : Str) :
    ((domains.foldl (pushExact index) m).lookup d).getD [] =
      (m.lookup d).getD [] ++
        List.replicate ((domains.map normalizeDomain).count d) index := by
  induction domains generalizing m with
  | nil => simp
  | cons domain rest ih =>
    rw [List.foldl_cons, ih, pushExact, HashMap.lookup_upsert, List.map_cons,
      List.count_cons]
    by_cases h : d = normalizeDomain domain
    · subst h
      simp [← List.replicate_succ, List.append_assoc]
    · simp [h, Ne.symm h]

theorem foldl_pushSuffix_valuesAt (index : Nat) (suffixes : List Str) (node : SuffixNode)
    (p : List Str) :
    (suffixes.foldl (pushSuffix index) node).valuesAt p =
      node.valuesAt p ++ List.replicate
        ((suffixes.map fun s => reversedLabels (normalizeDomain s)).count p) index := by
  induction suffixes generalizing node with
  | nil => simp
  | cons suffix rest ih =>
    rw [List.foldl_cons, ih, pushSuffix, SuffixNode.insert, Trie.valuesAt_insert,
      List.map_cons, List.count_cons]
    by_cases h : p = reversedLabels (normalizeDomain suffix)
    · subst h
      simp [← List.replicate_succ, List.append_assoc]
    · simp [h, Ne.symm h]

theorem Indexes.add {ix : RuleIndex} {entries : List (RouteRule ν × Nat)} (h : ix.Indexes entries)
    (entry : RouteRule ν × Nat) : (ix.add entry).Indexes (entries ++ [entry]) := by
  refine ⟨fun d => ?_, fun p => ?_, ?_⟩
  · show ((entry.1.exactDomains.foldl (pushExact entry.2) ix.exactDomains).lookup
      d).getD [] = _
    rw [foldl_pushExact_lookup, h.exact d]
    simp [filed, RouteRule.exactKeys]
  · show (entry.1.domainSuffixes.foldl (pushSuffix entry.2)
      ix.suffixDomains).valuesAt p = _
    rw [foldl_pushSuffix_valuesAt, h.suffix p]
    simp [filed, RouteRule.suffixKeys]
  · show (if entry.1.isGeneric then ix.fallback ++ [entry.2] else ix.fallback) = _
    rw [h.generic]
    by_cases hg : entry.1.isGeneric
    · simp [hg]
    · simp [hg]

theorem foldl_add_indexes {ix : RuleIndex} {entries : List (RouteRule ν × Nat)}
    (h : ix.Indexes entries) (rest : List (RouteRule ν × Nat)) :
    (rest.foldl RuleIndex.add ix).Indexes (entries ++ rest) := by
  induction rest generalizing ix entries with
  | nil => simpa using h
  | cons entry rest ih =>
    have hnext := ih (h.add entry)
    rwa [List.append_assoc] at hnext

end RuleIndex

theorem indexRules_indexes (rules : List (RouteRule ν)) :
    (indexRules rules).Indexes rules.zipIdx := by
  have hempty : ({} : RuleIndex).Indexes ([] : List (RouteRule ν × Nat)) := by
    refine ⟨fun d => ?_, fun p => ?_, ?_⟩
    · simp [filed]
    · simp [filed]
    · simp
  exact RuleIndex.foldl_add_indexes hempty rules.zipIdx

end Foxcore.Ref
