import Foxcore.Lib.Fallible
import Foxcore.Proofs.BlocklistRefine
import Foxcore.Spec.RuleSetFormat

/-!
# Artifacts read back

Whatever the compiler assembles, the reader finds the two maps again with the
numbers that belong to them (`parse_assembled`). From there on it is a matter of
the keys: the reader refuses an artifact when one of them is not a name to its
taste, and otherwise the rules of the maps are the suffixes that were compiled.
-/

namespace Foxcore.Proofs

open Lib Ref Spec List Transducer

variable {block allow : CompiledMap} {compiled : CompiledRuleSetArtifact}
  {listings : List (Str × Flags)}

/-! ## Numbers and fields -/

theorem length_toBe64 (n : Nat) : (toBe64 n).length = 8 := rfl

theorem fromBe64_toBe64 {n : Nat} (h : n < 2 ^ 64) : fromBe64 (toBe64 n) = n := by
  have hstep : ∀ k, n / 256 ^ (k + 1) * 256 + n / 256 ^ k % 256 = n / 256 ^ k := by
    intro k
    rw [Nat.pow_succ, ← Nat.div_div_eq_div_mul]
    omega
  have hbyte : ∀ m : Nat, (UInt8.ofNat m).toNat = m % 256 := fun m => UInt8.toNat_ofNat'
  have htop : 0 * 256 + n / 256 ^ 7 % 256 = n / 256 ^ 7 := by
    have hzero : n / 256 ^ (7 + 1) = 0 := Nat.div_eq_of_lt h
    have hlast := hstep 7
    rw [hzero] at hlast
    exact hlast
  have hlist : fromBe64 (toBe64 n) =
      (((((((0 * 256 + (UInt8.ofNat (n / 256 ^ 7)).toNat) * 256 +
        (UInt8.ofNat (n / 256 ^ 6)).toNat) * 256 + (UInt8.ofNat (n / 256 ^ 5)).toNat) * 256 +
        (UInt8.ofNat (n / 256 ^ 4)).toNat) * 256 + (UInt8.ofNat (n / 256 ^ 3)).toNat) * 256 +
        (UInt8.ofNat (n / 256 ^ 2)).toNat) * 256 + (UInt8.ofNat (n / 256 ^ 1)).toNat) * 256 +
        (UInt8.ofNat (n / 256 ^ 0)).toNat := rfl
  simp only [hlist, hbyte, htop, hstep]
  exact Nat.div_one n

/-- A field between the pieces before and behind it. -/
theorem field_pieces (before after : List (List UInt8)) (piece : List UInt8) {start stop : Nat}
    (hstart : before.flatten.length = start) (hstop : start + piece.length = stop) :
    field (before ++ piece :: after).flatten start stop = piece := by
  rw [field, flatten_append, flatten_cons, ← hstart, drop_left,
    show stop - before.flatten.length = piece.length by omega, take_left]

/-! ## Reading what was assembled -/

section

variable {μ : Type} [Transducer μ UInt8 Flags] [StoredTransducer μ]

/-- The pieces of an artifact up to its maps. -/
def headerPieces (digest : Digest) (block allow : CompiledMap) : List (List UInt8) :=
  [ruleSetMagic, toBe64 block.entries, toBe64 allow.entries, toBe64 block.bytes.length,
    toBe64 allow.bytes.length, digest.1, List.replicate 8 0]

theorem length_headerPieces (digest : Digest) (block allow : CompiledMap) :
    (headerPieces digest block allow).flatten.length = ruleSetHeaderLen := by
  have hmagic : ruleSetMagic.length = 8 := rfl
  simp [headerPieces, hmagic, length_toBe64, digest.2, ruleSetHeaderLen]

/-- What is assembled, in pieces. -/
theorem assembleArtifact_ok {digest : Digest}
    (h : assembleArtifact digest block allow = .ok compiled) :
    ruleSetHeaderLen + block.bytes.length + allow.bytes.length ≤ maxArtifactBytes ∧
      compiled = ⟨(headerPieces digest block allow ++ [block.bytes, allow.bytes]).flatten,
        block.entries, allow.entries⟩ := by
  rw [assembleArtifact] at h
  split at h
  · cases h
  · next hsize =>
    refine ⟨le_of_not_gt hsize, ?_⟩
    rw [← Except.ok.inj h]
    simp [headerPieces]

theorem header_numbers {digest : Digest} {bytes : List UInt8}
    (hbytes : bytes = (headerPieces digest block allow ++ [block.bytes, allow.bytes]).flatten)
    (hsize : ruleSetHeaderLen + block.bytes.length + allow.bytes.length ≤ maxArtifactBytes)
    (hblock : block.entries ≤ maxRuleEntries) (hallow : allow.entries ≤ maxRuleEntries) :
    fromBe64 (field bytes 8 16) = block.entries ∧ fromBe64 (field bytes 16 24) = allow.entries ∧
      fromBe64 (field bytes 24 32) = block.bytes.length ∧
      fromBe64 (field bytes 32 40) = allow.bytes.length := by
  rw [maxArtifactBytes] at hsize
  rw [maxRuleEntries] at hblock hallow
  have hnumber : ∀ {k n start stop : Nat} {after : List (List UInt8)},
      headerPieces digest block allow ++ [block.bytes, allow.bytes] =
        (headerPieces digest block allow).take k ++ toBe64 n :: after →
      ((headerPieces digest block allow).take k).flatten.length = start → start + 8 = stop →
      n < 2 ^ 64 → fromBe64 (field bytes start stop) = n := by
    intro k n start stop after hpieces hstart hstop hn
    rw [hbytes, hpieces, field_pieces _ _ (toBe64 n) hstart hstop, fromBe64_toBe64 hn]
  exact ⟨hnumber (k := 1) rfl rfl rfl (by omega), hnumber (k := 2) rfl rfl rfl (by omega),
    hnumber (k := 3) rfl rfl rfl (by omega), hnumber (k := 4) rfl rfl rfl (by omega)⟩

/-- The rest of an artifact: the digest, the reserved bytes and the maps. -/
theorem header_rest {digest : Digest} {bytes : List UInt8}
    (hbytes : bytes = (headerPieces digest block allow ++ [block.bytes, allow.bytes]).flatten) :
    field bytes 40 72 = digest.1 ∧ field bytes 72 ruleSetHeaderLen = List.replicate 8 0 ∧
      field bytes ruleSetHeaderLen (ruleSetHeaderLen + block.bytes.length) = block.bytes ∧
      bytes.drop (ruleSetHeaderLen + block.bytes.length) = allow.bytes := by
  have hheader := length_headerPieces digest block allow
  have hfront : ((headerPieces digest block allow).take 6).flatten.length = 72 := by
    have hmagic : ruleSetMagic.length = 8 := rfl
    simp [headerPieces, hmagic, length_toBe64, digest.2]
  rw [hbytes]
  refine ⟨?_, ?_, ?_, ?_⟩
  · exact field_pieces ((headerPieces digest block allow).take 5) _ _ rfl (by rw [digest.2])
  · exact field_pieces ((headerPieces digest block allow).take 6) _ _ hfront rfl
  · exact field_pieces (headerPieces digest block allow) [allow.bytes] block.bytes hheader rfl
  · rw [flatten_append, flatten_cons, flatten_cons, flatten_nil,
      append_nil, ← append_assoc]
    refine drop_left' ?_
    rw [length_append, hheader]

/-- What is assembled of two maps is read back as they load. -/
theorem parse_assembled {digest : Digest} {blockMap allowMap : μ}
    (h : assembleArtifact digest block allow = .ok compiled)
    (hblock : block.entries ≤ maxRuleEntries) (hallow : allow.entries ≤ maxRuleEntries)
    (hloadBlock : StoredTransducer.load block.bytes = some blockMap)
    (hloadAllow : StoredTransducer.load allow.bytes = some allowMap) :
    compiled.blockEntries = block.entries ∧ compiled.allowEntries = allow.entries ∧
      parseTrustedEmbeddedRuleSet compiled.bytes =
        checkMaps blockMap allowMap block.entries allow.entries digest := by
  obtain ⟨hsize, rfl⟩ := assembleArtifact_ok h
  refine ⟨rfl, rfl, ?_⟩
  obtain ⟨bytes, hbytes⟩ : ∃ bytes, bytes =
    (headerPieces digest block allow ++ [block.bytes, allow.bytes]).flatten := ⟨_, rfl⟩
  have hlen : bytes.length = ruleSetHeaderLen + block.bytes.length + allow.bytes.length := by
    rw [hbytes, flatten_append, length_append, length_headerPieces]
    simp [add_assoc]
  have hmagic : bytes.take 8 = ruleSetMagic := by
    rw [hbytes]
    exact take_left' rfl
  obtain ⟨hnum₁, hnum₂, hnum₃, hnum₄⟩ := header_numbers hbytes hsize hblock hallow
  obtain ⟨hdigest, hzeros, hfield, hrest⟩ := header_rest hbytes
  rw [maxArtifactBytes] at hsize
  rw [← hbytes]
  show parseTrustedEmbeddedRuleSet bytes = _
  rw [parseTrustedEmbeddedRuleSet, if_neg (by rw [maxArtifactBytes]; omega), parseArtifact,
    dif_neg (by omega), if_neg (by simp [hmagic]), if_neg (by rw [hzeros]; decide)]
  simp only [hnum₁, hnum₂, hnum₃, hdigest]
  rw [if_neg (by omega), if_neg (by omega), if_neg (by omega), parseMaps]
  simp only [hfield, hrest, hloadBlock, hloadAllow]

/-! ## Checking the maps -/

/-- What is asked of an entry. -/
def EntryOk (block : Bool) (entry : Str × Flags) : Prop :=
  validReversedDomain entry.1 = true ∧ entry.2 &&& (flagExact ||| flagSuffix) ≠ 0 ∧
    entry.2 &&& ~~~(flagExact ||| flagSuffix ||| if block then categoryBits else 0) = 0

instance (block : Bool) (entry : Str × Flags) : Decidable (EntryOk block entry) :=
  inferInstanceAs (Decidable (_ ∧ _))

/-- What is asked of its flags. -/
def FlagsOk (block : Bool) (flags : Flags) : Prop :=
  flags &&& (flagExact ||| flagSuffix) ≠ 0 ∧
    flags &&& ~~~(flagExact ||| flagSuffix ||| if block then categoryBits else 0) = 0

/-- Whether an entry is a plain suffix, with a category where it blocks. -/
def isSuffixEntry (block : Bool) (entry : Str × Flags) : Bool :=
  entry.2 &&& flagSuffix ≠ 0 && entry.2 &&& flagExact = 0 &&
    (!block || entry.2 &&& categoryBits ≠ 0)

/-- How many entries that block are of a category. -/
def countOf (block : Bool) (entries : List (Str × Flags)) (category : DnsCategory) : Nat :=
  entries.countP fun entry => block ∧ entry.2 &&& categoryBit category ≠ 0

theorem checkEntry_eq (block : Bool) (facts : ValidatedMapFacts) (entry : Str × Flags) :
    checkEntry block facts entry =
      if EntryOk block entry then
        .ok ⟨facts.suffixCategorized && isSuffixEntry block entry,
          fun category => facts.counts category + countOf block [entry] category⟩
      else .error .invalidArtifact := by
  have hok : (validReversedDomain entry.1 = false ∨ entry.2 &&& (flagExact ||| flagSuffix) = 0 ∨
      entry.2 &&& ~~~(flagExact ||| flagSuffix ||| if block then categoryBits else 0) ≠ 0) ↔
      ¬ EntryOk block entry := by
    simp only [EntryOk, not_and_or, Bool.not_eq_true, not_not]
  simp only [checkEntry, hok]
  by_cases hentry : EntryOk block entry
  · rw [if_neg (not_not.mpr hentry), if_pos hentry]
    have hcounts : ∀ category, (if block = true ∧ entry.2 &&& categoryBit category ≠ 0 then
        facts.counts category + 1 else facts.counts category) =
        facts.counts category + countOf block [entry] category := by
      intro category
      rw [countOf, countP_singleton]
      simp only [decide_eq_true_eq]
      split
      · rfl
      · rfl
    simp only [hcounts]
    rfl
  · rw [if_pos hentry, if_neg hentry]

/-- The loop over the entries of a map. -/
theorem checkEntries_eq (block : Bool) (entries : List (Str × Flags)) (facts : ValidatedMapFacts) :
    entries.foldlM (checkEntry block) facts =
      if ∀ entry ∈ entries, EntryOk block entry then
        .ok ⟨facts.suffixCategorized && entries.all (isSuffixEntry block),
          fun category => facts.counts category + countOf block entries category⟩
      else .error .invalidArtifact := by
  induction entries generalizing facts with
  | nil =>
    rw [all_nil, Bool.and_true]
    rfl
  | cons entry entries ih =>
    rw [foldlM_cons, checkEntry_eq]
    by_cases hentry : EntryOk block entry
    · rw [if_pos hentry]
      show entries.foldlM (checkEntry block) _ = _
      rw [ih]
      simp only [forall_mem_cons, hentry, true_and, all_cons, Bool.and_assoc]
      have hcounts : ∀ category, facts.counts category + countOf block [entry] category +
          countOf block entries category =
          facts.counts category + countOf block (entry :: entries) category := by
        simp only [countOf, countP_cons, countP_nil]
        omega
      simp only [hcounts]
    · rw [if_neg hentry, if_neg fun hall => hentry (hall entry (.head _))]
      rfl

omit [StoredTransducer μ] in
theorem validateMap_eq {map : μ} {expected : Nat} (hlen : len map = expected)
    (block : Bool) :
    validateMap map expected block =
      if ∀ entry ∈ entries map, EntryOk block entry then
        .ok ⟨⟨(entries map).all (isSuffixEntry block),
          countOf block (entries map)⟩, hlen⟩
      else .error .invalidArtifact := by
  rw [validateMap, dif_pos hlen, checkEntries_eq]
  by_cases hall : ∀ entry ∈ entries map, EntryOk block entry
  · rw [if_pos hall, if_pos hall]
    simp
  · rw [if_neg hall, if_neg hall]

/-- An artifact of two maps that have the entries announced. -/
structure Checked (blockMap allowMap : μ) (digest : Digest) (parsed : ParsedRuleSet μ) :
    Prop where
  block : parsed.block = blockMap
  allow : parsed.allow = allowMap
  blockEntries : parsed.blockEntries = len blockMap
  allowEntries : parsed.allowEntries = len allowMap
  enabled : parsed.enabledCategoryMask = none
  digest : parsed.sourceSha256 = digest
  available : parsed.categorizedAvailableMask = none
  counts : parsed.categorizedCounts =
    if (entries blockMap).all (isSuffixEntry true) &&
        (entries allowMap).all (isSuffixEntry false) &&
        allCategories.any fun category => 0 < countOf true (entries blockMap) category
    then some (countOf true (entries blockMap)) else none

omit [StoredTransducer μ] in
theorem checkMaps_iff {block allow : μ} {blockEntries allowEntries : Nat} {digest : Digest}
    (hblock : len block = blockEntries) (hallow : len allow = allowEntries) :
    ((∃ parsed, checkMaps block allow blockEntries allowEntries digest = .ok parsed) ↔
      (∀ entry ∈ entries block, EntryOk true entry) ∧
        ∀ entry ∈ entries allow, EntryOk false entry) ∧
      ∀ parsed, checkMaps block allow blockEntries allowEntries digest = .ok parsed →
        Checked block allow digest parsed := by
  rw [checkMaps, validateMap_eq hblock, validateMap_eq hallow]
  by_cases hb : ∀ entry ∈ entries block, EntryOk true entry
  · by_cases ha : ∀ entry ∈ entries allow, EntryOk false entry
    · rw [if_pos hb, if_pos ha]
      refine ⟨⟨fun _ => ⟨hb, ha⟩, fun _ => ⟨_, rfl⟩⟩, fun parsed hparsed => ?_⟩
      rw [← Except.ok.inj hparsed]
      exact ⟨rfl, rfl, hblock.symm, hallow.symm, rfl, rfl, rfl, rfl⟩
    · rw [if_pos hb, if_neg ha]
      exact ⟨⟨nofun, fun h => absurd h.2 ha⟩, nofun⟩
  · rw [if_neg hb]
    exact ⟨⟨nofun, fun h => absurd h.1 hb⟩, nofun⟩

end

/-! ## Keys the reader accepts -/

theorem storable_iff {name key : Str} (h : reversedKey name = some key) :
    validReversedDomain key = true ↔ Storable name := by
  obtain ⟨hlist, hsplit⟩ := split_key h
  have hkey : key = Str.join dot (nameLabels name).reverse := by
    rw [reversedKey_eq, if_pos hlist] at h
    exact (Option.some.inj h).symm
  have hlen : key.length = (Str.join dot (nameLabels name)).length := by
    rw [hkey, Str.join, Str.join, length_intercalate, length_intercalate, length_reverse,
      map_reverse, sum_reverse]
  have hne : key.isEmpty = false := by
    rw [Bool.eq_false_iff]
    intro hempty
    obtain ⟨label, hlabel⟩ := exists_mem_of_ne_nil _ (nameLabels_ne_nil hlist.1)
    rw [hkey] at hempty
    exact nameLabels_ne_nil_of_mem hlabel
      (intercalate_eq_nil (List.isEmpty_iff.mp hempty) (mem_reverse.mpr hlabel))
  have hascii : Str.isAscii key = true := by
    rw [hkey]
    exact all_eq_true.mpr fun b hb => decide_eq_true (key_ascii hlist.2.2 b hb)
  have hlabels : ((Str.split dot key).all fun label =>
      !label.isEmpty && label.length ≤ 63 && label.all isDomainByte) = true ↔
      ∀ label ∈ nameLabels name, label.length ≤ 63 ∧ ∀ b ∈ label, isDomainByte b = true := by
    rw [hsplit, all_reverse, all_eq_true]
    refine forall₂_congr fun label hlabel => ?_
    have hlabel : label.isEmpty = false := by
      rw [Bool.eq_false_iff, ne_eq, List.isEmpty_iff]
      exact nameLabels_ne_nil_of_mem hlabel
    rw [hlabel]
    simp
  rw [validReversedDomain, hne, hascii, hlen]
  simp only [Bool.false_eq_true, Bool.true_eq_false, false_or, or_false]
  split
  · next hlong =>
    exact ⟨fun h => absurd h Bool.false_ne_true, fun h => absurd h.2 (Nat.not_lt_of_le hlong)⟩
  · next hshort =>
    rw [hlabels]
    exact ⟨fun h => ⟨h, lt_of_not_ge hshort⟩, fun h => h.1⟩

/-! ## Maps of suffixes -/

section

variable {μ : Type} [Transducer μ UInt8 Flags]

/-- A map holds the keys of a list of names with their flags. -/
def Holds (map : μ) (listings : List (Str × Flags)) : Prop :=
  ∀ key flags, (key, flags) ∈ entries map ↔
    ∃ l ∈ listings, reversedKey l.1 = some key ∧ l.2 = flags

/-- The names are listed as suffixes. -/
def SuffixesOnly (listings : List (Str × Flags)) : Prop :=
  ∀ l ∈ listings, l.2 &&& flagSuffix ≠ 0 ∧ l.2 &&& flagExact = 0

theorem holds_rules {map : μ} (h : Holds map listings) (hlist : ∀ l ∈ listings, Listable l.1)
    (hsuffix : SuffixesOnly listings) (selection : Option Flags) (name : List Str)
    (P : Flags → Prop) :
    (∃ r ∈ mapRules map selection, r.Covers name ∧ P r.contribution) ↔
      ∃ l ∈ listings, nameLabels l.1 <:+ name ∧ P (selectedFlags l.2 selection) := by
  refine ⟨fun hcase => ?_, fun hcase => ?_⟩
  · obtain ⟨r, ⟨hsel, key, hentry, hlabels⟩, hcovers, hP⟩ := hcase
    obtain ⟨l, hl, hkey, hflags⟩ := (h key r.flags).mp hentry
    have hname : r.labels = nameLabels l.1 := by
      rw [hlabels, (split_key hkey).2, reverse_reverse]
    obtain ⟨-, hnot⟩ := hsuffix l hl
    rw [contribution_eq, hsel, ← hflags] at hP
    refine ⟨l, hl, ?_, hP⟩
    rcases hcovers with ⟨hexact, -⟩ | ⟨-, hbelow⟩
    · rw [← hflags] at hexact
      exact absurd hnot hexact
    · rw [← hname]
      exact hbelow
  · obtain ⟨l, hl, hbelow, hP⟩ := hcase
    have hkey : reversedKey l.1 = some (Str.join dot (nameLabels l.1).reverse) := by
      rw [reversedKey_eq, if_pos (hlist l hl)]
    refine ⟨⟨nameLabels l.1, l.2, selection⟩,
      ⟨rfl, _, (h _ l.2).mpr ⟨l, hl, hkey, rfl⟩, ?_⟩, .inr ⟨(hsuffix l hl).1, hbelow⟩, ?_⟩
    · rw [(split_key hkey).2, reverse_reverse]
    · exact hP

variable [LawfulTransducer μ]

/-- What a blocklist made of one artifact of suffixes blocks. -/
theorem blocklistOf_isSome_iff {artifact : RuleSetArtifact μ} {block allow : List (Str × Flags)}
    (hon : artifact.enabledCategoryMask ≠ some 0) (hblock : Holds artifact.block block)
    (hallow : Holds artifact.allow allow) (hblockList : ∀ l ∈ block, Listable l.1)
    (hallowList : ∀ l ∈ allow, Listable l.1) (hblockSuffix : SuffixesOnly block)
    (hallowSuffix : SuffixesOnly allow) (name : Str) :
    ((blocklistOf artifact).lookup name).isSome = true ↔
      Listable name ∧
      (∃ l ∈ block, nameLabels l.1 <:+ nameLabels name ∧
        selectedFlags l.2 artifact.enabledCategoryMask ≠ 0) ∧
      ¬ ∃ l ∈ allow, nameLabels l.1 <:+ nameLabels name := by
  have hrules := rulesOf_withRuleSet ({} : DomainBlocklist μ) artifact hon
  have hempty : ∀ r : Rule, r ∉ (rulesOf ({} : DomainBlocklist μ)).allow ∧
      r ∉ (rulesOf ({} : DomainBlocklist μ)).block := by
    intro r
    refine ⟨fun hr => ?_, fun hr => ?_⟩
    · obtain ⟨m, hm, -⟩ := mem_rulesOf_allow.mp hr
      cases hm
    · obtain ⟨m, hm, -⟩ := mem_rulesOf_block.mp hr
      cases hm
  have hallows : (rulesOf (blocklistOf artifact)).Allows (nameLabels name) ↔
      ∃ l ∈ allow, nameLabels l.1 <:+ nameLabels name := by
    show (∃ r ∈ (rulesOf (DomainBlocklist.withRuleSet {} artifact)).allow, _) ↔ _
    rw [hrules.1]
    have hmap := holds_rules hallow hallowList hallowSuffix none (nameLabels name) fun _ => True
    simp only [and_true] at hmap
    simp only [Set.mem_union, (hempty _).1, false_or]
    exact hmap
  have hcontributes : (∃ i, (rulesOf (blocklistOf artifact)).Contributes (nameLabels name) i) ↔
      ∃ l ∈ block, nameLabels l.1 <:+ nameLabels name ∧
        selectedFlags l.2 artifact.enabledCategoryMask ≠ 0 := by
    rw [← holds_rules hblock hblockList hblockSuffix artifact.enabledCategoryMask
      (nameLabels name) fun flags => flags ≠ 0]
    show (∃ i, ∃ r ∈ (rulesOf (DomainBlocklist.withRuleSet {} artifact)).block, _) ↔ _
    rw [hrules.2]
    simp only [Set.mem_union, (hempty _).2, false_or, flags_ne_zero_iff]
    constructor
    · rintro ⟨i, r, hr, hcovers, hbit⟩
      exact ⟨r, hr, hcovers, i, hbit⟩
    · rintro ⟨r, hr, hcovers, i, hbit⟩
      exact ⟨i, r, hr, hcovers, hbit⟩
  rw [lookup_isSome_iff, hallows, hcontributes]

end

/-! ## Compiling suffixes -/

/-- The names and flags a list of suffixes is compiled to. -/
def suffixListings (suffixes : List Str) (categoryFlag : Flags) : List (Str × Flags) :=
  suffixes.map fun suffix => (suffix, flagSuffix ||| categoryFlag)

theorem collectSuffixes_ok {categoryFlag : Flags} {domains : List Str} {listed : Listed}
    {keys : HashMap Str Flags} (h : collectSuffixes categoryFlag listed.keys domains = .ok keys) :
    (∀ domain ∈ domains, Listable domain) ∧
      keys = ((suffixListings domains categoryFlag).foldl Listed.add listed).keys ∧
      keys.len ≤ listed.keys.len + domains.length := by
  induction domains generalizing listed with
  | nil =>
    cases h
    exact ⟨nofun, rfl, le_rfl⟩
  | cons domain domains ih =>
    rw [collectSuffixes] at h
    split at h
    · cases h
    · next key hkey =>
      have hadd : listed.add (domain, flagSuffix ||| categoryFlag) =
          ⟨listed.keys.upsert key fun old => old.getD 0 ||| (flagSuffix ||| categoryFlag),
            listed.entries + 1⟩ := by
        rw [Listed.add, hkey]
      obtain ⟨hlist, hkeys, hlen⟩ :=
        @ih (listed.add (domain, flagSuffix ||| categoryFlag)) (by rw [hadd]; exact h)
      refine ⟨forall_mem_cons.mpr ⟨(split_key hkey).1, hlist⟩, hkeys, ?_⟩
      have hone := HashMap.len_upsert_le key
        (fun old => old.getD 0 ||| (flagSuffix ||| categoryFlag)) listed.keys
      have hadded : (listed.add (domain, flagSuffix ||| categoryFlag)).keys.len ≤
          listed.keys.len + 1 := by
        rw [hadd]
        exact hone
      rw [length_cons]
      omega

/-- The flags gathered under a key, where all listings have the same. -/
theorem lookup_suffixes (domains : List Str) (categoryFlag : Flags) (key : Str) (flags : Flags) :
    (Listed.collect (suffixListings domains categoryFlag)).keys.lookup key = some flags ↔
      ∃ l ∈ suffixListings domains categoryFlag, reversedKey l.1 = some key ∧ l.2 = flags := by
  have hsame : ∀ l ∈ suffixListings domains categoryFlag, l.2 = flagSuffix ||| categoryFlag := by
    intro l hl
    obtain ⟨suffix, -, rfl⟩ := mem_map.mp hl
    rfl
  rw [lookup_collect_keys, gather_eq]
  by_cases hnone : ((suffixListings domains categoryFlag).filter fun l =>
      decide (reversedKey l.1 = some key)) = []
  · rw [if_pos hnone]
    refine ⟨nofun, fun hcase => ?_⟩
    obtain ⟨l, hl, hkey, -⟩ := hcase
    exact absurd (mem_filter.mpr ⟨hl, decide_eq_true hkey⟩)
      (by rw [hnone]; exact not_mem_nil)
  · obtain ⟨l, hl⟩ := exists_mem_of_ne_nil _ hnone
    have hkey : reversedKey l.1 = some key := of_decide_eq_true (mem_filter.mp hl).2
    have hunion : ((suffixListings domains categoryFlag).filter fun l =>
        decide (reversedKey l.1 = some key)).foldl (fun flags x => flags ||| x.2) 0 =
        flagSuffix ||| categoryFlag := by
      refine BitVec.eq_of_getLsbD_eq fun i _ => Bool.eq_iff_iff.mpr ?_
      rw [getLsbD_union]
      refine ⟨?_, fun hbit => ⟨l, hl, ?_⟩⟩
      · rintro ⟨l', hl', hbit⟩
        rw [← hsame l' (mem_filter.mp hl').1]
        exact hbit
      · rw [hsame l (mem_filter.mp hl).1]
        exact hbit
    rw [if_neg hnone, Option.getD_none, hunion]
    refine ⟨fun h => ⟨l, (mem_filter.mp hl).1, hkey, ?_⟩, fun hcase => ?_⟩
    · rw [hsame l (mem_filter.mp hl).1]
      exact Option.some.inj h
    · obtain ⟨l', hl', -, hflags⟩ := hcase
      rw [← hflags, hsame l' hl']

theorem length_sortedEntries (keys : HashMap Str Flags) :
    (sortedEntries keys).length = keys.len := by
  rw [sortedEntries, length_insertionSort, length_map, HashMap.len, AList.keys,
    List.keys, length_map]

section

variable {μ : Type} [Transducer μ UInt8 Flags] [LawfulTransducer μ] [StoredTransducer μ]

theorem storeMap_ok {keys : HashMap Str Flags} {entries : Nat} {compiled : CompiledMap}
    (h : storeMap μ keys entries = .ok compiled) :
    ∃ map : μ, Transducer.entries map = sortedEntries keys ∧
      compiled = ⟨StoredTransducer.bytes map, entries⟩ := by
  obtain ⟨map, hbuild, hentries⟩ := LawfulTransducer.build_ordered (μ := μ) _ (ordered_entries keys)
  have hbuild : (build (sortedEntries keys) : Option μ) = some map := hbuild
  rw [storeMap, hbuild] at h
  exact ⟨map, hentries, (Except.ok.inj h).symm⟩

/-- A map compiled of suffixes. -/
structure CompiledTo (compiled : CompiledMap) (listings : List (Str × Flags)) (map : μ) :
    Prop where
  bytes : compiled.bytes = StoredTransducer.bytes map
  entries : compiled.entries = len map
  holds : Holds map listings
  listable : ∀ l ∈ listings, Listable l.1
  le : compiled.entries ≤ listings.length

theorem compileSuffixMap_ok {domains : List Str} {categoryFlag : Flags} {compiled : CompiledMap}
    (h : compileSuffixMap μ domains categoryFlag = .ok compiled) :
    ∃ map : μ, CompiledTo compiled (suffixListings domains categoryFlag) map := by
  obtain ⟨keys, hkeys, h⟩ := bind_ok_iff.mp h
  obtain ⟨map, hentries, rfl⟩ := storeMap_ok h
  obtain ⟨hlist, hcollect, hlen⟩ := @collectSuffixes_ok _ _ {} _ hkeys
  refine ⟨map, rfl, ?_, fun key flags => ?_, fun l hl => ?_, ?_⟩
  · rw [LawfulTransducer.len_eq, hentries, length_sortedEntries]
  · rw [hentries, ← lookup_suffixes]
    have hcollect : (Listed.collect (suffixListings domains categoryFlag)).keys = keys :=
      hcollect.symm
    rw [hcollect]
    exact mem_ordered_entries keys key flags
  · obtain ⟨domain, hdomain, rfl⟩ := mem_map.mp hl
    exact hlist domain hdomain
  · have hempty : (∅ : HashMap Str Flags).len = 0 := rfl
    rw [suffixListings, length_map]
    show keys.len ≤ domains.length
    have hlen : keys.len ≤ (∅ : HashMap Str Flags).len + domains.length := hlen
    omega

variable [LawfulStored μ]

/-- It loads as a map with the same entries. -/
theorem CompiledTo.load {compiled : CompiledMap} {map : μ} (h : CompiledTo compiled listings map) :
    ∃ map' : μ, StoredTransducer.load compiled.bytes = some map' ∧
      Transducer.entries map' = Transducer.entries map ∧
      len map' = compiled.entries ∧ Holds map' listings := by
  obtain ⟨map', hload, hentries⟩ := @LawfulStored.load_bytes μ UInt8 Flags _ _ _ map
  refine ⟨map', by rw [h.bytes]; exact hload, hentries, ?_, fun key flags => ?_⟩
  · rw [LawfulTransducer.len_eq, hentries, h.entries, LawfulTransducer.len_eq]
  · rw [hentries]
    exact h.holds key flags

omit [LawfulTransducer μ] [StoredTransducer μ] [LawfulStored μ] in
/-- The entries of a map pass the reader's checks when the flags are in order
and the names can be stored. -/
theorem entriesOk_iff {map : μ} {block : Bool} (hholds : Holds map listings)
    (hlist : ∀ l ∈ listings, Listable l.1) (hflags : ∀ l ∈ listings, FlagsOk block l.2) :
    (∀ entry ∈ entries map, EntryOk block entry) ↔
      ∀ l ∈ listings, Storable l.1 := by
  refine ⟨fun hok l hl => ?_, fun hall entry hentry => ?_⟩
  · have hkey : reversedKey l.1 = some (Str.join dot (nameLabels l.1).reverse) := by
      rw [reversedKey_eq, if_pos (hlist l hl)]
    have hentry := (hholds _ l.2).mpr ⟨l, hl, hkey, rfl⟩
    exact (storable_iff hkey).mp (hok _ hentry).1
  · obtain ⟨l, hl, hkey, hsame⟩ := (hholds entry.1 entry.2).mp hentry
    have hflags := hflags l hl
    rw [hsame] at hflags
    exact ⟨(storable_iff hkey).mpr (hall l hl), hflags⟩

end

/-- The bits besides how an entry matches. -/
def otherBits (block : Bool) : Flags := if block then categoryBits else 0

theorem categoryBit_masked (category : Option DnsCategory) :
    (category.map categoryBit).getD 0 &&& otherBits true = (category.map categoryBit).getD 0 := by
  cases category with
  | none => decide
  | some category => cases category <;> decide

/-- A suffix with categories only is in order. -/
theorem suffixFlags_ok {block : Bool} {flag : Flags} (h : flag &&& otherBits block = flag) :
    FlagsOk block (flagSuffix ||| flag) ∧
      (flagSuffix ||| flag) &&& flagSuffix ≠ 0 ∧ (flagSuffix ||| flag) &&& flagExact = 0 := by
  -- what neither a suffix nor a category has, such a flag does not have
  have hmasked : ∀ other : Flags, otherBits block &&& other = 0 → flagSuffix &&& other = 0 →
      (flagSuffix ||| flag) &&& other = 0 := by
    intro other hother hown
    rw [BitVec.and_or_distrib_right, hown, ← h, BitVec.and_assoc, hother]
    exact (congrArg (0 ||| ·) BitVec.and_zero).trans BitVec.or_zero
  have hsuffix : (flagSuffix ||| flag).getLsbD 1 = true := by
    rw [BitVec.getLsbD_or]
    exact Bool.or_eq_true_iff.mpr (.inl (by decide))
  refine ⟨⟨flags_ne_zero_iff.mpr ⟨1, ?_⟩, ?_⟩, flags_ne_zero_iff.mpr ⟨1, ?_⟩, ?_⟩
  · rw [BitVec.getLsbD_and, hsuffix]
    decide
  · exact hmasked _ (by cases block <;> decide) (by cases block <;> decide)
  · rw [BitVec.getLsbD_and, hsuffix]
    decide
  · exact hmasked _ (by cases block <;> decide) (by decide)

theorem suffixListings_spec {suffixes : List Str} {block : Bool} {flag : Flags}
    (h : flag &&& otherBits block = flag) :
    (∀ l ∈ suffixListings suffixes flag, FlagsOk block l.2) ∧
      SuffixesOnly (suffixListings suffixes flag) := by
  refine ⟨fun l hl => ?_, fun l hl => ?_⟩
  · obtain ⟨suffix, -, rfl⟩ := mem_map.mp hl
    exact (suffixFlags_ok h).1
  · obtain ⟨suffix, -, rfl⟩ := mem_map.mp hl
    exact (suffixFlags_ok h).2

/-! ## Compiler and reader -/

section

variable {μ : Type} [Transducer μ UInt8 Flags] [LawfulTransducer μ] [StoredTransducer μ]
  [LawfulStored μ]

/-- An artifact read back from two compiled maps. -/
structure ReadFrom (compiled : CompiledRuleSetArtifact) (digest : Digest)
    (block allow : List (Str × Flags)) (stored : μ) (parsed : ParsedRuleSet μ) : Prop where
  blockEntries : parsed.blockEntries = compiled.blockEntries
  allowEntries : parsed.allowEntries = compiled.allowEntries
  digest : parsed.sourceSha256 = digest
  enabled : parsed.enabledCategoryMask = none
  block : Holds parsed.block block
  allow : Holds parsed.allow allow
  entries : entries parsed.block = entries stored
  counts : parsed.categorizedCounts =
    if (Transducer.entries parsed.block).all (isSuffixEntry true) &&
        (Transducer.entries parsed.allow).all (isSuffixEntry false) &&
        allCategories.any fun category =>
          0 < countOf true (Transducer.entries parsed.block) category
    then some (countOf true (Transducer.entries parsed.block)) else none

/-- Compiled maps are read back just when the reader takes every listed name. -/
theorem parse_compiled {digest : Digest} {blockList allowList : List (Str × Flags)}
    {blockStored allowStored : μ} (h : assembleArtifact digest block allow = .ok compiled)
    (hblock : CompiledTo block blockList blockStored)
    (hallow : CompiledTo allow allowList allowStored)
    (hblockLen : blockList.length ≤ maxRuleEntries) (hallowLen : allowList.length ≤ maxRuleEntries)
    (hblockFlags : ∀ l ∈ blockList, FlagsOk true l.2)
    (hallowFlags : ∀ l ∈ allowList, FlagsOk false l.2) :
    ((∃ parsed : ParsedRuleSet μ, parseTrustedEmbeddedRuleSet compiled.bytes = .ok parsed) ↔
      (∀ l ∈ blockList, Storable l.1) ∧ ∀ l ∈ allowList, Storable l.1) ∧
    ∀ parsed : ParsedRuleSet μ, parseTrustedEmbeddedRuleSet compiled.bytes = .ok parsed →
      ReadFrom compiled digest blockList allowList blockStored parsed := by
  obtain ⟨blockMap, hblockLoad, hblockEntries, hblockMapLen, hblockHolds⟩ := hblock.load
  obtain ⟨allowMap, hallowLoad, -, hallowMapLen, hallowHolds⟩ := hallow.load
  have hblockLe := hblock.le
  have hallowLe := hallow.le
  obtain ⟨hblockCount, hallowCount, hparse⟩ :=
    parse_assembled h (by omega) (by omega) hblockLoad hallowLoad
  obtain ⟨hiff, hchecked⟩ := @checkMaps_iff μ _ blockMap allowMap _ _ digest
    hblockMapLen hallowMapLen
  rw [entriesOk_iff hblockHolds hblock.listable hblockFlags,
    entriesOk_iff hallowHolds hallow.listable hallowFlags] at hiff
  rw [hparse]
  refine ⟨hiff, fun parsed hparsed => ?_⟩
  have hc := hchecked parsed hparsed
  refine ⟨?_, ?_, hc.digest, hc.enabled, ?_, ?_, ?_, ?_⟩
  · rw [hc.blockEntries, hblockMapLen, hblockCount]
  · rw [hc.allowEntries, hallowMapLen, hallowCount]
  · rw [hc.block]
    exact hblockHolds
  · rw [hc.allow]
    exact hallowHolds
  · rw [hc.block, hblockEntries]
  · rw [hc.block, hc.allow]
    exact hc.counts

theorem forall_suffixListings {suffixes : List Str} {flag : Flags} {P : Str → Prop} :
    (∀ l ∈ suffixListings suffixes flag, P l.1) ↔ ∀ suffix ∈ suffixes, P suffix :=
  forall_mem_map

theorem under_iff {suffixes : List Str} {flag : Flags} {name : Str} :
    (∃ l ∈ suffixListings suffixes flag, nameLabels l.1 <:+ nameLabels name) ↔
      Under suffixes name := by
  simp only [suffixListings, mem_map, exists_exists_and_eq_and]
  rfl

omit [StoredTransducer μ] [LawfulStored μ] in
/-- What a blocklist made of compiled suffixes blocks. -/
theorem blocks_suffixes {artifact : RuleSetArtifact μ} {blockSuffixes allowSuffixes : List Str}
    {category : Option DnsCategory} (hmask : artifact.enabledCategoryMask = none)
    (hblock : Holds artifact.block
      (suffixListings blockSuffixes ((category.map categoryBit).getD 0)))
    (hallow : Holds artifact.allow (suffixListings allowSuffixes 0))
    (hblockList : ∀ suffix ∈ blockSuffixes, Listable suffix)
    (hallowList : ∀ suffix ∈ allowSuffixes, Listable suffix) (name : Str) :
    ((blocklistOf artifact).lookup name).isSome = true ↔
      Listable name ∧ Under blockSuffixes name ∧ ¬ Under allowSuffixes name := by
  have hblockSuffix := (@suffixListings_spec blockSuffixes _ _ (categoryBit_masked category)).2
  have hallowSuffix := (@suffixListings_spec allowSuffixes false 0 (by decide)).2
  rw [blocklistOf_isSome_iff (by rw [hmask]; exact nofun) hblock hallow
    (forall_suffixListings.mpr hblockList) (forall_suffixListings.mpr hallowList) hblockSuffix
    hallowSuffix, hmask, under_iff, ← @under_iff blockSuffixes ((category.map categoryBit).getD 0)]
  refine and_congr_right fun _ => and_congr_left fun _ => ?_
  refine exists_congr fun l => and_congr_right fun hl => ⟨fun hcase => hcase.1, fun hbelow =>
    ⟨hbelow, fun hzero => ?_⟩⟩
  have hzero : l.2 = 0 := hzero
  exact (hblockSuffix l hl).1 (by rw [hzero]; exact BitVec.zero_and)

/-- What is compiled is read back as it was meant just when the reader takes
every suffix for a name, and does with a name what was meant just when the name
has a key or is not to be blocked. -/
theorem compiled_artifact_faithful_iff {sha256 : List UInt8 → Digest} {source : List UInt8}
    {blockSuffixes allowSuffixes : List Str} {category : Option DnsCategory}
    {compiled : CompiledRuleSetArtifact}
    (h : compileRuleSetArtifact μ sha256 source blockSuffixes allowSuffixes category = .ok compiled)
    (name : Str) :
    (∃ parsed : ParsedRuleSet μ, parseTrustedEmbeddedRuleSet compiled.bytes = .ok parsed ∧
        Faithful (sha256 source) blockSuffixes allowSuffixes compiled parsed name) ↔
      (∀ suffix ∈ blockSuffixes ++ allowSuffixes, Storable suffix) ∧
        (Under blockSuffixes name ∧ ¬ Under allowSuffixes name → Listable name) := by
  obtain ⟨hsizes, h⟩ := check_ok_iff.mp h
  simp only [not_or, not_lt] at hsizes
  obtain ⟨block, hblock, h⟩ := bind_ok_iff.mp h
  obtain ⟨allow, hallow, hassemble⟩ := bind_ok_iff.mp h
  obtain ⟨blockStored, hblockTo⟩ := compileSuffixMap_ok hblock
  obtain ⟨allowStored, hallowTo⟩ := compileSuffixMap_ok hallow
  obtain ⟨hiff, hread⟩ := parse_compiled hassemble hblockTo hallowTo
    (by rw [suffixListings, length_map]; exact hsizes.2.1)
    (by rw [suffixListings, length_map]; exact hsizes.2.2)
    (suffixListings_spec (categoryBit_masked category)).1
    (@suffixListings_spec allowSuffixes false 0 (by decide)).1
  have hblocks : ∀ parsed : ParsedRuleSet μ,
      parseTrustedEmbeddedRuleSet compiled.bytes = .ok parsed →
        (((blocklistOf parsed.toRuleSetArtifact).lookup name).isSome = true ↔
          Listable name ∧ Under blockSuffixes name ∧ ¬ Under allowSuffixes name) := by
    intro parsed hparsed
    have hr := hread parsed hparsed
    exact blocks_suffixes hr.enabled hr.block hr.allow (forall_suffixListings.mp hblockTo.listable)
      (forall_suffixListings.mp hallowTo.listable) name
  rw [forall_mem_append]
  constructor
  · rintro ⟨parsed, hparsed, hfaithful⟩
    obtain ⟨hblockStorable, hallowStorable⟩ := hiff.mp ⟨parsed, hparsed⟩
    refine ⟨⟨forall_suffixListings.mp hblockStorable, forall_suffixListings.mp hallowStorable⟩,
      fun hmeant => ?_⟩
    exact ((hblocks parsed hparsed).mp (hfaithful.blocks.mpr hmeant)).1
  · rintro ⟨⟨hblockStorable, hallowStorable⟩, hname⟩
    obtain ⟨parsed, hparsed⟩ := hiff.mpr
      ⟨forall_suffixListings.mpr hblockStorable, forall_suffixListings.mpr hallowStorable⟩
    have hr := hread parsed hparsed
    refine ⟨parsed, hparsed, hr.blockEntries, hr.allowEntries, hr.digest, ?_⟩
    exact (hblocks parsed hparsed).trans
      ⟨fun hcase => hcase.2, fun hmeant => ⟨hname hmeant, hmeant⟩⟩

end

/-! ## Ordered lists as bytes -/

namespace OrderedList

/-- An entry: each byte of the key behind a one, a zero, and the value. -/
def entryBytes (entry : Str × Flags) : List UInt8 :=
  (entry.1.flatMap fun b => [1, b]) ++ 0 :: toBe64 entry.2.toNat

def readEntries : List UInt8 → Str → Option (List (Str × Flags))
  | [], key => if key.isEmpty then some [] else none
  | 1 :: b :: rest, key => readEntries rest (key ++ [b])
  | 0 :: b₀ :: b₁ :: b₂ :: b₃ :: b₄ :: b₅ :: b₆ :: b₇ :: rest, key =>
    (readEntries rest []).map fun entries =>
      (key, BitVec.ofNat 64 (fromBe64 [b₀, b₁, b₂, b₃, b₄, b₅, b₆, b₇])) :: entries
  | _, _ => none

instance : StoredTransducer OrderedList where
  bytes m := m.entries.flatMap entryBytes
  load bytes := (readEntries bytes []).bind fun entries =>
    if h : entries.Pairwise fun a b => a.1 < b.1 then some ⟨entries, h⟩ else none

theorem readEntries_key (key before : Str) (rest : List UInt8) :
    readEntries ((key.flatMap fun b => [1, b]) ++ rest) before =
      readEntries rest (before ++ key) := by
  induction key generalizing before with
  | nil => rw [append_nil]; rfl
  | cons b key ih =>
    show readEntries ((key.flatMap fun b => [1, b]) ++ rest) (before ++ [b]) = _
    rw [ih, append_assoc]
    rfl

theorem readEntries_bytes (entries : List (Str × Flags)) :
    readEntries (entries.flatMap entryBytes) [] = some entries := by
  induction entries with
  | nil => rfl
  | cons entry entries ih =>
    have hvalue : BitVec.ofNat 64 (fromBe64 (toBe64 entry.2.toNat)) = entry.2 := by
      rw [fromBe64_toBe64 entry.2.isLt, BitVec.ofNat_toNat, BitVec.setWidth_eq]
    rw [flatMap_cons, entryBytes, append_assoc, readEntries_key]
    show (readEntries (entries.flatMap entryBytes) []).map _ = _
    rw [ih]
    exact congrArg (fun flags => some ((entry.1, flags) :: entries)) hvalue

instance : LawfulStored OrderedList where
  load_bytes m := by
    refine ⟨m, ?_, rfl⟩
    show (readEntries (m.entries.flatMap entryBytes) []).bind _ = some m
    rw [readEntries_bytes, Option.bind_some, dif_pos m.ordered]

end OrderedList

/-- A digest that keeps the first bytes. -/
def firstBytes (bytes : List UInt8) : Digest :=
  ⟨(bytes ++ List.replicate 32 0).take 32, by
    rw [length_take, length_append, length_replicate]
    omega⟩

/-- A list that blocks `b` except for what is under `a.b`, and the name `c.b`. -/
theorem letters_compiled :
    ∃ compiled, compileRuleSetArtifact OrderedList firstBytes [1, 2] [[0x62]] [[0x61, 0x2e, 0x62]]
        (some .ads) = .ok compiled ∧
      ∃ parsed : ParsedRuleSet OrderedList,
        parseTrustedEmbeddedRuleSet compiled.bytes = .ok parsed ∧
        Faithful (firstBytes [1, 2]) [[0x62]] [[0x61, 0x2e, 0x62]] compiled parsed
          [0x63, 0x2e, 0x62] := by
  have hok : (compileRuleSetArtifact OrderedList firstBytes [1, 2] [[0x62]]
      [[0x61, 0x2e, 0x62]] (some .ads)).isOk = true := by
    decide +kernel
  cases hresult : compileRuleSetArtifact OrderedList firstBytes [1, 2] [[0x62]]
      [[0x61, 0x2e, 0x62]] (some .ads) with
  | error =>
    rw [hresult] at hok
    cases hok
  | ok compiled =>
    refine ⟨compiled, rfl, ?_⟩
    exact (compiled_artifact_faithful_iff hresult _).mpr
      ⟨by decide +kernel, fun _ => by decide +kernel⟩

/-- A suffix that is an asterisk is compiled, and the artifact refused. -/
theorem asterisk_refused :
    ((compileRuleSetArtifact OrderedList firstBytes [1, 2] [[0x2a]] [] none).toOption.map
      fun compiled => (parseTrustedEmbeddedRuleSet compiled.bytes :
        Except RuleSetError (ParsedRuleSet OrderedList)).isOk) = some false := by
  decide +kernel

end Foxcore.Proofs
