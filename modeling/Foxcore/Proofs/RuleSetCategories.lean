import Foxcore.Proofs.RuleSetFormat

/-!
# Categories, compiled and selected

A tagged domain is valid text, so its labels are its pieces and its key
determines it. The map of a tagged input therefore has one entry for each
domain (`collectTagged_spec`), what the reader counts is what was tagged, and
the bits of a mask are its categories.
-/

namespace Foxcore.Proofs

open Lib Ref Spec List

variable {categories b : List DnsCategory} {category : DnsCategory} {available : Flags}
  {tagged : TaggedKeys}

/-! ## Masks -/

theorem categoryBit_bit (category other : DnsCategory) :
    (categoryBit category).getLsbD (categoryShift + other.index) = true ↔ other = category := by
  cases category <;> cases other <;> decide

theorem maskOf_bit (categories : List DnsCategory) (category : DnsCategory) :
    (maskOf categories).getLsbD (categoryShift + category.index) = true ↔
      category ∈ categories := by
  rw [maskOf, getLsbD_union]
  simp only [categoryBit_bit]
  exact ⟨fun ⟨c, hc, heq⟩ => heq ▸ hc, fun h => ⟨category, h, rfl⟩⟩

/-- A mask has no other bits. -/
theorem maskOf_bits {i : Nat} (h : (maskOf categories).getLsbD i = true) :
    ∃ category ∈ categories, i = categoryShift + category.index := by
  rw [maskOf, getLsbD_union] at h
  obtain ⟨category, hin, hbit⟩ := h
  refine ⟨category, hin, ?_⟩
  by_contra hne
  have hall : ∀ (c : DnsCategory) (j : Fin 64), j.val ≠ categoryShift + c.index →
      (categoryBit c).getLsbD j = false := by
    intro c
    cases c <;> decide
  have hlt : i < 64 := by
    by_contra hge
    rw [BitVec.getLsbD_of_ge _ _ (by omega)] at hbit
    cases hbit
  rw [hall category ⟨i, hlt⟩ hne] at hbit
  cases hbit

theorem maskOf_and {a : List DnsCategory} :
    maskOf a &&& maskOf b ≠ 0 ↔ ∃ category ∈ a, category ∈ b := by
  rw [flags_ne_zero_iff]
  constructor
  · rintro ⟨i, hi⟩
    rw [BitVec.getLsbD_and, Bool.and_eq_true] at hi
    obtain ⟨category, hin, rfl⟩ := maskOf_bits hi.1
    exact ⟨category, hin, (maskOf_bit b category).mp hi.2⟩
  · rintro ⟨category, ha, hb⟩
    refine ⟨categoryShift + category.index, ?_⟩
    rw [BitVec.getLsbD_and, (maskOf_bit a category).mpr ha, (maskOf_bit b category).mpr hb]
    rfl

theorem categoryBit_eq (category : DnsCategory) : categoryBit category = maskOf [category] := by
  cases category <;> decide

theorem maskOf_and_bit :
    maskOf categories &&& categoryBit category ≠ 0 ↔ category ∈ categories := by
  rw [categoryBit_eq, maskOf_and]
  simp

/-- Masks are sets of categories. -/
theorem maskOf_eq_iff {a : List DnsCategory} :
    maskOf a = maskOf b ↔ ∀ category, category ∈ a ↔ category ∈ b := by
  constructor
  · intro h category
    rw [← maskOf_bit, h, maskOf_bit]
  · intro h
    refine BitVec.eq_of_getLsbD_eq fun i _ => Bool.eq_iff_iff.mpr ⟨fun hi => ?_, fun hi => ?_⟩
    · obtain ⟨category, hin, rfl⟩ := maskOf_bits hi
      exact (maskOf_bit b category).mpr ((h category).mp hin)
    · obtain ⟨category, hin, rfl⟩ := maskOf_bits hi
      exact (maskOf_bit a category).mpr ((h category).mpr hin)

theorem maskOf_append (a b : List DnsCategory) : maskOf (a ++ b) = maskOf a ||| maskOf b := by
  refine BitVec.eq_of_getLsbD_eq fun i _ => Bool.eq_iff_iff.mpr ?_
  rw [BitVec.getLsbD_or, Bool.or_eq_true, maskOf, maskOf, maskOf, getLsbD_union, getLsbD_union,
    getLsbD_union]
  simp [or_and_right, exists_or]

theorem maskOf_masked (categories : List DnsCategory) :
    maskOf categories &&& otherBits true = maskOf categories := by
  refine BitVec.eq_of_getLsbD_eq fun i _ => Bool.eq_iff_iff.mpr ?_
  rw [BitVec.getLsbD_and, Bool.and_eq_true]
  refine ⟨fun h => h.1, fun h => ⟨h, ?_⟩⟩
  obtain ⟨category, -, rfl⟩ := maskOf_bits h
  exact (maskOf_bit _ category).mpr (by cases category <;> decide)

/-- The flags of an entry of some categories. -/
theorem suffixMask_and {a : List DnsCategory} :
    (flagSuffix ||| maskOf a) &&& maskOf b ≠ 0 ↔ ∃ category ∈ a, category ∈ b := by
  have hnone : flagSuffix &&& maskOf b = 0 := by
    rw [← maskOf_masked b, BitVec.and_comm, BitVec.and_assoc]
    exact (congrArg _ (show otherBits true &&& flagSuffix = 0 by decide)).trans BitVec.and_zero
  rw [BitVec.and_or_distrib_right, hnone]
  have hzero : (0 : Flags) ||| maskOf a &&& maskOf b = maskOf a &&& maskOf b := BitVec.zero_or
  rw [hzero, maskOf_and]

theorem selectedFlags_ne_zero_iff {flags mask : Flags} :
    selectedFlags flags (some mask) ≠ 0 ↔ flags &&& mask ≠ 0 := by
  rw [selectedFlags]
  by_cases hnone : flags &&& mask = 0
  · simp [hnone]
  · simp only [if_neg hnone]
    refine ⟨fun _ => hnone, fun _ => ?_⟩
    obtain ⟨i, hi⟩ := flags_ne_zero_iff.mp hnone
    refine flags_ne_zero_iff.mpr ⟨i, ?_⟩
    rw [BitVec.getLsbD_or, hi, Bool.or_true]

theorem categoryMask_ok {mask : Flags} (h : categoryMask categories = .ok mask) :
    categories ≠ [] ∧ mask = maskOf categories := by
  obtain ⟨hchecks, h⟩ := check_ok_iff.mp h
  refine ⟨fun hnil => hchecks (.inl ?_), (Except.ok.inj h).symm⟩
  rw [hnil]
  rfl

/-! ## Valid domains -/

theorem byteToAsciiLowercase_of_domain {b : UInt8} (h : isDomainByte b = true) :
    Str.byteToAsciiLowercase b = b := by
  have hall : ∀ v : BitVec 8, isDomainByte ⟨v⟩ = true → Str.byteToAsciiLowercase ⟨v⟩ = ⟨v⟩ := by
    decide +kernel
  exact hall b.toBitVec h

/-- The labels of a valid domain are its pieces, and it can be stored. -/
theorem validDomain_spec {domain : Str} (h : validDomain domain = true) :
    nameLabels domain = Str.split dot domain ∧ Storable domain := by
  rw [validDomain, Bool.and_eq_true, Bool.and_eq_true] at h
  obtain ⟨⟨-, hlen⟩, hvalid⟩ := h
  have hlen : domain.length ≤ 253 := of_decide_eq_true hlen
  rw [validReversedDomain] at hvalid
  split at hvalid
  · cases hvalid
  · have hlabel : ∀ label ∈ Str.split dot domain, label ≠ [] ∧ label.length ≤ 63 ∧
        ∀ b ∈ label, isDomainByte b = true := by
      intro label hin
      have hone := all_eq_true.mp hvalid label hin
      rw [Bool.and_eq_true, Bool.and_eq_true, all_eq_true] at hone
      refine ⟨fun hnil => ?_, of_decide_eq_true hone.1.2, hone.2⟩
      rw [hnil] at hone
      exact absurd hone.1.1 (by decide)
    have hlabels : nameLabels domain = Str.split dot domain := by
      have hwords : words dot domain = Str.split dot domain :=
        filter_eq_self.mpr fun label hin => decide_eq_true (hlabel label hin).1
      have hlower : ∀ label ∈ Str.split dot domain, Str.toAsciiLowercase label = id label := by
        intro label hin
        refine (map_congr_left fun b hb => ?_).trans (map_id label)
        exact byteToAsciiLowercase_of_domain ((hlabel label hin).2.2 b hb)
      rw [nameLabels, hwords, map_congr_left hlower, map_id]
    refine ⟨hlabels, fun label hin => ?_, ?_⟩
    · rw [hlabels] at hin
      exact (hlabel label hin).2
    · have hjoin : Str.join dot (Str.split dot domain) = domain := intercalate_splitOn dot
      rw [hlabels, hjoin]
      omega

/-! ## Tagged domains -/

section

variable {blocks : List TaggedDomain}

/-- The flags a tagged domain is compiled with. -/
def taggedFlags (block : TaggedDomain) : Flags := flagSuffix ||| maskOf block.categories

def taggedListings (blocks : List TaggedDomain) : List (Str × Flags) :=
  blocks.map fun block => (block.domain, taggedFlags block)

/-- The key of a domain that has one. -/
def domainKey (domain : Str) : Str := Str.join dot (nameLabels domain).reverse

/-- The entries of a tagged input. -/
def taggedEntries (blocks : List TaggedDomain) : List (Str × Flags) :=
  blocks.map fun block => (domainKey block.domain, taggedFlags block)

theorem domainKey_spec {domain key : Str} (h : reversedKey domain = some key) :
    domainKey domain = key := by
  have hlist := (split_key h).1
  rw [reversedKey_eq, if_pos hlist] at h
  exact Option.some.inj h

/-- What is known of tagged domains that were collected. -/
structure TaggedOk (blocks : List TaggedDomain) : Prop where
  valid : ∀ block ∈ blocks, validDomain block.domain = true
  listable : ∀ block ∈ blocks, Listable block.domain
  nonempty : ∀ block ∈ blocks, block.categories ≠ []
  ordered : (blocks.map TaggedDomain.domain).Pairwise (· < ·)

theorem collectTagged_ok {tagged' : TaggedKeys}
    (h : collectTagged available tagged blocks = .ok tagged') : TaggedOk blocks ∧
      (∀ last ∈ tagged.previous, ∀ block ∈ blocks, last < block.domain) ∧
      tagged'.keys = (taggedEntries blocks).foldl (fun m kv => m.insert kv.1 kv.2) tagged.keys ∧
      tagged'.used = tagged.used ||| maskOf (blocks.flatMap TaggedDomain.categories) := by
  induction blocks generalizing tagged with
  | nil =>
    cases h
    exact ⟨⟨nofun, nofun, nofun, .nil⟩, fun _ _ => nofun, rfl, BitVec.or_zero.symm⟩
  | cons block blocks ih =>
    obtain ⟨hchecks, h⟩ := check_ok_iff.mp h
    cases hmask : categoryMask block.categories with
    | error =>
      rw [hmask] at h
      cases h
    | ok =>
      rw [hmask] at h
      obtain ⟨-, h⟩ := check_ok_iff.mp h
      cases hkey : reversedKey block.domain with
      | none =>
        rw [hkey] at h
        cases h
      | some =>
        rw [hkey] at h
        obtain ⟨hok, hafter, hkeys, hused⟩ := ih h
        obtain ⟨hne, rfl⟩ := categoryMask_ok hmask
        have hvalid : validDomain block.domain = true := by
          by_contra hnot
          exact hchecks (.inl (Bool.eq_false_iff.mpr hnot))
        have hfirst : ∀ last ∈ tagged.previous, last < block.domain := by
          intro last hlast
          refine List.not_le.mp fun hle => hchecks (.inr ?_)
          rw [Option.mem_def.mp hlast]
          exact decide_eq_true hle
        have hnext : ∀ other ∈ blocks, block.domain < other.domain := hafter _ rfl
        refine ⟨⟨?_, ?_, ?_, ?_⟩, ?_, ?_, ?_⟩
        · exact List.forall_mem_cons.mpr ⟨hvalid, hok.valid⟩
        · exact List.forall_mem_cons.mpr ⟨(split_key hkey).1, hok.listable⟩
        · exact List.forall_mem_cons.mpr ⟨hne, hok.nonempty⟩
        · exact pairwise_cons.mpr ⟨forall_mem_map.mpr hnext, hok.ordered⟩
        · intro last hlast
          exact List.forall_mem_cons.mpr ⟨hfirst last hlast, fun other hin =>
            List.lt_trans (hfirst last hlast) (hnext other hin)⟩
        · rw [hkeys, ← domainKey_spec hkey]
          rfl
        · rw [hused, flatMap_cons, maskOf_append, BitVec.or_assoc]

theorem nodup_taggedEntries (h : TaggedOk blocks) :
    ((taggedEntries blocks).map Prod.fst).Nodup := by
  have hdomains : blocks.Pairwise fun a b => a.domain ≠ b.domain := by
    refine (pairwise_map.mp h.ordered).imp fun hlt heq => ?_
    rw [heq] at hlt
    exact List.lt_irrefl _ hlt
  rw [taggedEntries, List.map_map]
  refine pairwise_map.mpr (hdomains.imp_of_mem fun ha hb hne hkey => hne ?_)
  have hkeyA : reversedKey _ = some (domainKey _) :=
    (reversedKey_eq _).trans (if_pos (h.listable _ ha))
  have hkeyB : reversedKey _ = some (domainKey _) :=
    (reversedKey_eq _).trans (if_pos (h.listable _ hb))
  rw [show domainKey _ = domainKey _ from hkey] at hkeyA
  have hlabels := ((reversedKey_eq_some_iff hkeyB).mp hkeyA).2
  rw [(validDomain_spec (h.valid _ ha)).1, (validDomain_spec (h.valid _ hb)).1] at hlabels
  exact splitOn_injective hlabels

/-- The map of tagged domains has an entry for each. -/
theorem collectTagged_spec (h : collectTagged available {} blocks = .ok tagged) : TaggedOk blocks ∧
      (∀ key flags, tagged.keys.lookup key = some flags ↔ (key, flags) ∈ taggedEntries blocks) ∧
      tagged.keys.len = blocks.length ∧
      tagged.used = maskOf (blocks.flatMap TaggedDomain.categories) := by
  obtain ⟨hok, -, hkeys, hused⟩ := collectTagged_ok h
  obtain ⟨hlook, hlen⟩ := @HashMap.foldl_insert_new _ _ _ _ (nodup_taggedEntries hok) ∅
    fun kv _ => rfl
  refine ⟨hok, fun key flags => ?_, ?_, ?_⟩
  · rw [hkeys]
    refine (hlook key flags).trans ⟨fun hcase => ?_, .inr⟩
    exact hcase.resolve_left nofun
  · rw [hkeys, HashMap.len, hlen, taggedEntries, length_map]
    exact Nat.zero_add _
  · rw [hused]
    exact BitVec.zero_or

theorem taggedListings_spec : (∀ l ∈ taggedListings blocks, FlagsOk true l.2) ∧
      SuffixesOnly (taggedListings blocks) := by
  refine ⟨fun l hl => ?_, fun l hl => ?_⟩
  · obtain ⟨block, -, rfl⟩ := mem_map.mp hl
    exact (suffixFlags_ok (maskOf_masked block.categories)).1
  · obtain ⟨block, -, rfl⟩ := mem_map.mp hl
    exact (suffixFlags_ok (maskOf_masked block.categories)).2

/-- What is stored of tagged domains is them, in the order of their keys. -/
theorem sortedEntries_perm {keys : HashMap Str Flags} (hok : TaggedOk blocks)
    (h : ∀ key flags, keys.lookup key = some flags ↔ (key, flags) ∈ taggedEntries blocks) :
    (sortedEntries keys).Perm (taggedEntries blocks) := by
  have hsorted : (sortedEntries keys).Nodup :=
    (ordered_entries keys).imp fun hlt heq => by
      rw [heq] at hlt
      exact List.lt_irrefl _ hlt
  refine (perm_ext_iff_of_nodup hsorted (nodup_taggedEntries hok).of_map).mpr fun entry => ?_
  rw [← h]
  exact mem_ordered_entries keys entry.1 entry.2

theorem countOf_tagged (blocks : List TaggedDomain) (category : DnsCategory) :
    countOf true (taggedEntries blocks) category = taggedWith blocks category := by
  rw [countOf, taggedEntries, countP_map]
  refine countP_congr fun block _ => ?_
  simp only [Function.comp_apply, decide_eq_true_eq, true_and]
  rw [taggedFlags, categoryBit_eq, suffixMask_and]
  simp

theorem taggedWith_pos :
    0 < taggedWith blocks category ↔ category ∈ blocks.flatMap TaggedDomain.categories := by
  rw [taggedWith, countP_pos_iff, mem_flatMap]
  simp

theorem mem_allCategories (category : DnsCategory) : category ∈ allCategories := by
  cases category <;> decide

/-- The categories the reader finds are those that tag a domain. -/
theorem availableMask_tagged (blocks : List TaggedDomain) :
    availableMask (taggedWith blocks) = maskOf (blocks.flatMap TaggedDomain.categories) := by
  refine maskOf_eq_iff.mpr fun category => ?_
  rw [mem_filter, decide_eq_true_eq, taggedWith_pos]
  exact and_iff_right (mem_allCategories category)

theorem isSuffixEntry_tagged (hok : TaggedOk blocks) :
    (taggedEntries blocks).all (isSuffixEntry true) = true := by
  refine all_eq_true.mpr fun entry hentry => ?_
  obtain ⟨block, hin, rfl⟩ := mem_map.mp hentry
  obtain ⟨hsuffix, hexact⟩ := (suffixFlags_ok (maskOf_masked block.categories)).2
  have hcategory : taggedFlags block &&& categoryBits ≠ 0 := by
    obtain ⟨category, hcategory⟩ := exists_mem_of_ne_nil _ (hok.nonempty block hin)
    exact suffixMask_and.mpr ⟨category, hcategory, mem_allCategories category⟩
  rw [isSuffixEntry, Bool.and_eq_true, Bool.and_eq_true, Bool.or_eq_true]
  exact ⟨⟨decide_eq_true hsuffix, decide_eq_true hexact⟩, .inr (decide_eq_true hcategory)⟩

theorem isSuffixEntry_allow {listings : List (Str × Flags)} {μ : Type} [Transducer μ UInt8 Flags]
    {map : μ} (hholds : Holds map listings) (h : SuffixesOnly listings) :
    (Transducer.entries map).all (isSuffixEntry false) = true := by
  refine all_eq_true.mpr fun entry hentry => ?_
  obtain ⟨l, hl, -, hflags⟩ := (hholds entry.1 entry.2).mp hentry
  obtain ⟨hsuffix, hexact⟩ := h l hl
  rw [hflags] at hsuffix hexact
  rw [isSuffixEntry, Bool.and_eq_true, Bool.and_eq_true, Bool.or_eq_true]
  exact ⟨⟨decide_eq_true hsuffix, decide_eq_true hexact⟩, .inl rfl⟩

theorem checkAllowed_ok {previous : Option Str} {domains : List Str}
    (h : checkAllowed previous domains = .ok ()) :
    ∀ domain ∈ domains, validDomain domain = true := by
  induction domains generalizing previous with
  | nil => exact nofun
  | cons domain domains ih =>
    obtain ⟨hchecks, h⟩ := check_ok_iff.mp h
    refine List.forall_mem_cons.mpr ⟨?_, ih h⟩
    by_contra hnot
    exact hchecks (.inl (Bool.eq_false_iff.mpr hnot))

end

/-! ## Selecting -/

theorem selectMask_iff {available done categories : List DnsCategory} {mask : Flags} :
    selectMask (maskOf available) (maskOf done) categories = .ok mask ↔
      (categories.Nodup ∧ (∀ category ∈ categories, category ∉ done) ∧
        ∀ category ∈ categories, category ∈ available) ∧ mask = maskOf (done ++ categories) := by
  induction categories generalizing done with
  | nil =>
    rw [selectMask]
    simp [eq_comm]
  | cons category categories ih =>
    have hnext : maskOf done ||| categoryBit category = maskOf (done ++ [category]) := by
      rw [maskOf_append, ← categoryBit_eq]
    rw [selectMask, hnext]
    by_cases hrefused : category ∈ done ∨ category ∉ available
    · rw [if_pos (hrefused.imp maskOf_and_bit.mpr fun hnot => by_contra fun hne =>
        hnot (maskOf_and_bit.mp hne))]
      refine ⟨nofun, fun ⟨⟨_, hnew, hin⟩, _⟩ => ?_⟩
      rcases hrefused with hdone | hnot
      · exact absurd hdone (hnew category mem_cons_self)
      · exact absurd (hin category mem_cons_self) hnot
    · rw [not_or, not_not] at hrefused
      have hnot := maskOf_and_bit.not.mpr hrefused.1
      rw [if_neg (not_or.mpr ⟨hnot, maskOf_and_bit.mpr hrefused.2⟩), ih, append_assoc]
      refine and_congr_left fun _ => ?_
      simp only [nodup_cons, List.forall_mem_cons, mem_append, mem_singleton,
        not_or]
      constructor
      · rintro ⟨hnodup, hnew, hin⟩
        exact ⟨⟨fun hmem => (hnew _ hmem).2 rfl, hnodup⟩,
          ⟨hrefused.1, fun c hc => (hnew c hc).1⟩, hrefused.2, hin⟩
      · rintro ⟨⟨hnot, hnodup⟩, ⟨-, hnew⟩, -, hin⟩
        exact ⟨hnodup, fun c hc => ⟨hnew c hc, fun heq => hnot (heq ▸ hc)⟩, hin⟩

/-- No more than four categories can be selected. -/
theorem length_le_four (h : categories.Nodup) : categories.length ≤ 4 :=
  (h.subperm fun category _ => mem_allCategories category).length_le

theorem selectCategories_iff {μ : Type} [Transducer μ UInt8 Flags]
    {artifact selected : ParsedRuleSet μ} {available categories : List DnsCategory}
    (h : artifact.categorizedAvailableMask = some (maskOf available)) :
    artifact.selectCategories (some categories) = .ok selected ↔
      (categories.Nodup ∧ ∀ category ∈ categories, category ∈ available) ∧
        selected = { artifact with enabledCategoryMask := some (maskOf categories) } := by
  have hmask := @selectMask_iff available [] categories
  simp only [not_mem_nil, not_false_eq_true, implies_true, true_and] at hmask
  simp only [ParsedRuleSet.selectCategories, h]
  by_cases hlong : 4 < categories.length
  · rw [if_pos hlong]
    exact ⟨nofun, fun ⟨⟨hnodup, _⟩, _⟩ =>
      absurd (length_le_four hnodup) (by omega)⟩
  · rw [if_neg hlong]
    cases hresult : selectMask (maskOf available) 0 categories with
    | error =>
      refine ⟨nofun, fun ⟨hall, _⟩ => ?_⟩
      have hok := hmask.mpr ⟨hall, rfl⟩
      rw [show selectMask (maskOf available) (maskOf []) categories = _ from hresult] at hok
      cases hok
    | ok =>
      obtain ⟨hall, rfl⟩ := hmask.mp hresult
      exact ⟨fun hcase => ⟨hall, (Except.ok.inj hcase).symm⟩, fun hcase => congrArg _ hcase.2.symm⟩

/-! ## Compiled, read and selected -/

section

variable {μ : Type} [Transducer μ UInt8 Flags] [LawfulTransducer μ] [StoredTransducer μ]

theorem storeTagged_ok {blocks : List TaggedDomain} {compiled : CompiledMap}
    (h : collectTagged available {} blocks = .ok tagged)
    (hstore : storeMap μ tagged.keys blocks.length = .ok compiled) :
    ∃ map : μ, CompiledTo compiled (taggedListings blocks) map ∧
      (Transducer.entries map).Perm (taggedEntries blocks) := by
  obtain ⟨hok, hlookup, hlen, -⟩ := collectTagged_spec h
  obtain ⟨map, hentries, rfl⟩ := storeMap_ok hstore
  refine ⟨map, ⟨rfl, ?_, fun key flags => ?_, fun l hl => ?_, ?_⟩, ?_⟩
  · rw [LawfulTransducer.len_eq, hentries, length_sortedEntries, hlen]
  · rw [hentries]
    refine (mem_ordered_entries tagged.keys key flags).trans ((hlookup key flags).trans ?_)
    rw [taggedEntries, mem_map]
    refine ⟨fun ⟨block, hin, heq⟩ => ?_, fun ⟨l, hl, hkey, hflags⟩ => ?_⟩
    · cases heq
      refine ⟨_, mem_map_of_mem hin, ?_, rfl⟩
      exact (reversedKey_eq _).trans (if_pos (hok.listable block hin))
    · obtain ⟨block, hin, rfl⟩ := mem_map.mp hl
      exact ⟨block, hin, Prod.ext (domainKey_spec hkey) hflags⟩
  · obtain ⟨block, hin, rfl⟩ := mem_map.mp hl
    exact hok.listable block hin
  · rw [taggedListings, length_map]
  · rw [hentries]
    exact sortedEntries_perm hok hlookup

structure ReadBack (input : TaggedInput) (parsed : ParsedRuleSet μ) : Prop where
  counts : parsed.categorizedCounts = some (taggedWith input.block)
  categories : maskOf (input.block.flatMap TaggedDomain.categories) = maskOf input.categories
  block : Holds parsed.block (taggedListings input.block)
  allow : Holds parsed.allow (suffixListings input.allowSuffixes 0)
  blockListable : ∀ l ∈ taggedListings input.block, Listable l.1
  allowListable : ∀ l ∈ suffixListings input.allowSuffixes 0, Listable l.1

variable [LawfulStored μ]

theorem compileTagged_ok {digest : Digest} {input : TaggedInput}
    {compiled : CompiledRuleSetArtifact} (h : compileTagged μ digest input = .ok compiled) :
    ∃ parsed : ParsedRuleSet μ, parseTrustedEmbeddedRuleSet compiled.bytes = .ok parsed ∧
      ReadBack input parsed := by
  obtain ⟨available, havailable, h⟩ := bind_ok_iff.mp h
  obtain ⟨-, -, h⟩ := bind_ok_iff.mp h
  obtain ⟨hsizes, h⟩ := check_ok_iff.mp h
  simp only [not_or, Nat.not_lt] at hsizes
  obtain ⟨tagged, hcollect, h⟩ := bind_ok_iff.mp h
  obtain ⟨hused, h⟩ := check_ok_iff.mp h
  obtain ⟨_, hallowed, h⟩ := bind_ok_iff.mp h
  obtain ⟨block, hblock, h⟩ := bind_ok_iff.mp h
  obtain ⟨allow, hallow, hassemble⟩ := bind_ok_iff.mp h
  obtain ⟨hok, -, -, hunion⟩ := collectTagged_spec hcollect
  obtain ⟨blockStored, hblockTo, hperm⟩ := storeTagged_ok hcollect hblock
  obtain ⟨allowStored, hallowTo⟩ := compileSuffixMap_ok hallow
  obtain ⟨hallowFlags, hallowSuffix⟩ := @suffixListings_spec input.allowSuffixes false 0 (by decide)
  obtain ⟨hiff, hread⟩ := parse_compiled hassemble hblockTo hallowTo
    (by rw [taggedListings, length_map]; exact hsizes.2.1)
    (by rw [suffixListings, length_map]; exact hsizes.2.2)
    taggedListings_spec.1 hallowFlags
  obtain ⟨parsed, hparsed⟩ := hiff.mpr
    ⟨forall_mem_map.mpr fun block hin => (validDomain_spec (hok.valid block hin)).2,
      forall_mem_map.mpr fun domain hin =>
        (validDomain_spec (checkAllowed_ok hallowed domain hin)).2⟩
  have hr := hread parsed hparsed
  refine ⟨parsed, hparsed, ⟨?_, ?_, hr.block, hr.allow, hblockTo.listable, hallowTo.listable⟩⟩
  · have hcounts : countOf true (Transducer.entries parsed.block) = taggedWith input.block := by
      funext category
      rw [hr.entries, ← countOf_tagged]
      exact hperm.countP_eq _
    have hany : (allCategories.any fun category => decide (0 < taggedWith input.block category)) =
        true := by
      obtain ⟨first, hfirst⟩ := exists_mem_of_ne_nil input.block fun hnil =>
        hsizes.1 (by rw [hnil]; rfl)
      obtain ⟨category, hcategory⟩ := exists_mem_of_ne_nil _ (hok.nonempty first hfirst)
      refine any_eq_true.mpr ⟨category, mem_allCategories category, decide_eq_true ?_⟩
      exact taggedWith_pos.mpr (mem_flatMap.mpr ⟨first, hfirst, hcategory⟩)
    rw [hr.counts, hcounts, isSuffixEntry_allow hr.allow hallowSuffix, hr.entries, hperm.all_eq,
      isSuffixEntry_tagged hok, hany]
    rfl
  · cases hmask : categoryMask input.categories with
    | error =>
      rw [hmask] at havailable
      cases havailable
    | ok =>
      rw [hmask] at havailable
      cases havailable
      rw [← (categoryMask_ok hmask).2, ← hunion]
      exact not_not.mp hused

omit [StoredTransducer μ] [LawfulStored μ] in
/-- A blocklist made of a selection. -/
theorem ReadBack.blocks {input : TaggedInput} {selected : ParsedRuleSet μ}
    (h : ReadBack input selected) (hmask : selected.enabledCategoryMask = some (maskOf categories))
    (name : Str) :
    ((blocklistOf selected.toRuleSetArtifact).lookup name).isSome = true ↔
      Listable name ∧ UnderTagged input.block categories name ∧
        ¬ Under input.allowSuffixes name := by
  by_cases hon : maskOf categories = 0
  · -- with nothing selected the artifact is not attached at all
    have hnone : ¬ UnderTagged input.block categories name := by
      rintro ⟨block, -, -, category, -, hin⟩
      exact maskOf_and_bit.mpr hin (by rw [hon]; exact BitVec.zero_and)
    have hempty : blocklistOf selected.toRuleSetArtifact = ({} : DomainBlocklist μ) :=
      if_pos (hmask.trans (congrArg some hon))
    have hlookup : ({} : DomainBlocklist μ).lookup name = none := by
      rw [DomainBlocklist.lookup]
      cases reversedKey name <;> rfl
    rw [hempty, hlookup]
    exact ⟨by simp, fun hcase => absurd hcase.2.1 hnone⟩
  · have hattached : selected.enabledCategoryMask ≠ some 0 := by
      rw [hmask]
      exact fun heq => hon (Option.some.inj heq)
    have hallowSuffix := (@suffixListings_spec input.allowSuffixes false 0 (by decide)).2
    rw [blocklistOf_isSome_iff hattached h.block h.allow h.blockListable h.allowListable
      taggedListings_spec.2 hallowSuffix, hmask]
    refine and_congr_right fun _ => and_congr ?_ (not_congr ?_)
    · simp only [taggedListings, mem_map, exists_exists_and_eq_and]
      refine exists_congr fun block => and_congr_right fun _ => and_congr_right fun _ => ?_
      exact selectedFlags_ne_zero_iff.trans suffixMask_and
    · exact under_iff

/-- A tagged input that is compiled is read back under any of the names, with
its categories, and a selection does with a name what was meant just when the
name has a key or is not to be blocked. -/
theorem tagged_artifact_selects {sha256 : List UInt8 → Digest} {json : Json TaggedInput}
    {source : List UInt8} {compiled : CompiledRuleSetArtifact} {name : Str}
    (h : compileTaggedRuleSetArtifact μ sha256 json source = .ok compiled)
    (hname : name ∈ categorizedNames) :
    ∃ input, json.read source = some input ∧ ∃ parsed : ParsedRuleSet μ,
      parseTrustedCategorizedRuleSet name compiled.bytes = .ok parsed ∧
        FaithfulCategories input parsed ∧
        ∀ categories selected, parsed.selectCategories (some categories) = .ok selected →
          ∀ domain, Selects input categories selected domain ↔
            (UnderTagged input.block categories domain ∧ ¬ Under input.allowSuffixes domain →
              Listable domain) := by
  obtain ⟨-, h⟩ := check_ok_iff.mp h
  cases hread : json.read source with
  | none =>
    rw [hread] at h
    cases h
  | some input =>
    rw [hread] at h
    obtain ⟨-, h⟩ := check_ok_iff.mp h
    obtain ⟨artifact, hparse, hback⟩ := compileTagged_ok h
    have hmask : availableMask (taggedWith input.block) = maskOf input.categories :=
      (availableMask_tagged input.block).trans hback.categories
    refine ⟨input, rfl,
      { artifact with categorizedAvailableMask := some (maskOf input.categories) }, ?_, ?_⟩
    · have hcontains : categorizedNames.contains name = true := contains_iff_mem.mpr hname
      refine check_ok_iff.mpr ⟨by rw [hcontains]; decide, bind_ok_iff.mpr ⟨_, hparse, ?_⟩⟩
      refine bind_ok_iff.mpr ⟨taggedWith input.block, ?_, by rw [← hmask]; rfl⟩
      rw [artifactCategories, hback.counts]
    · have hback' : ∀ mask enabled, ReadBack input
          { artifact with
            categorizedAvailableMask := mask
            enabledCategoryMask := enabled } :=
        fun _ _ => ⟨hback.counts, hback.categories, hback.block, hback.allow,
          hback.blockListable, hback.allowListable⟩
      have hselectable := fun categories selected => @selectCategories_iff μ _
        { artifact with categorizedAvailableMask := some (maskOf input.categories) } selected
        input.categories categories rfl
      refine ⟨⟨rfl, hback.counts, fun categories => ?_⟩,
        fun categories selected hselect domain => ?_⟩
      · refine ⟨fun ⟨selected, hselect⟩ => ((hselectable categories selected).mp hselect).1,
          fun hall => ⟨_, (hselectable categories _).mpr ⟨hall, rfl⟩⟩⟩
      · obtain ⟨-, rfl⟩ := (hselectable categories selected).mp hselect
        rw [Selects, (hback' _ _).blocks rfl domain]
        exact ⟨fun hboth hmeant => (hboth.mpr hmeant).1, fun hname =>
          ⟨fun hcase => hcase.2, fun hmeant => ⟨hname hmeant, hmeant⟩⟩⟩

end

/-! ## A tagged letter -/

/-- An input that tags `a` with advertising and excepts `b.a`. -/
def letterInput : TaggedInput where
  allowSuffixes := [[0x62, 0x2e, 0x61]]
  block := [⟨[.ads], [0x61]⟩]
  categories := [.ads]
  schema := 1
  sources :=
    [{ categories := [.ads]
       commit := List.replicate 40 0x30
       id := [0x73]
       inputs := [⟨[0x70], List.replicate 64 0x30⟩]
       license := [0x6c]
       repo := httpsScheme ++ [0x72] }]
  tiers := ⟨.medium, .normal⟩

/-- The text `1` stands for that input. -/
def letterJson : Json TaggedInput where
  read bytes := if bytes = [0x31, 0x0a] then some letterInput else none
  write _ := [0x31]

/-- The input is compiled, and its one category selected blocks `x.a`. -/
theorem letter_selects :
    ∃ compiled, compileTaggedRuleSetArtifact OrderedList firstBytes letterJson [0x31, 0x0a] =
        .ok compiled ∧
      ∃ input, letterJson.read [0x31, 0x0a] = some input ∧
        ∃ parsed : ParsedRuleSet OrderedList,
          parseTrustedCategorizedRuleSet (Tiers.name ⟨.medium, .normal⟩) compiled.bytes =
              .ok parsed ∧
            FaithfulCategories input parsed ∧
            ∀ categories selected, parsed.selectCategories (some categories) = .ok selected →
              Selects input categories selected [0x78, 0x2e, 0x61] := by
  have hok : (compileTaggedRuleSetArtifact OrderedList firstBytes letterJson
      [0x31, 0x0a]).isOk = true := by
    decide +kernel
  cases hresult : compileTaggedRuleSetArtifact OrderedList firstBytes letterJson [0x31, 0x0a] with
  | error =>
    rw [hresult] at hok
    cases hok
  | ok compiled =>
    obtain ⟨input, hread, parsed, hparsed, hfaithful, hselects⟩ :=
      @tagged_artifact_selects OrderedList _ _ _ _ _ _ _ _ (Tiers.name ⟨.medium, .normal⟩)
        hresult (by decide)
    refine ⟨compiled, rfl, input, hread, parsed, hparsed, hfaithful, fun categories selected
      hselect => ?_⟩
    exact (hselects categories selected hselect _).mpr fun _ => by decide +kernel

/-- A name under the tagged domain that is not ASCII: `é.a` is under `a`, is
under no exception, and is not blocked, while `x.a` is. -/
theorem accented_name_not_blocked :
    (UnderTagged letterInput.block [.ads] [0xc3, 0xa9, 0x2e, 0x61] ∧
      ¬ Under letterInput.allowSuffixes [0xc3, 0xa9, 0x2e, 0x61]) ∧
    (do
      let compiled ←
        (compileTaggedRuleSetArtifact OrderedList firstBytes letterJson [0x31, 0x0a]).toOption
      let parsed : ParsedRuleSet OrderedList ←
        (parseTrustedCategorizedRuleSet (Tiers.name ⟨.medium, .normal⟩) compiled.bytes).toOption
      let selected ← (parsed.selectCategories (some [.ads])).toOption
      let list := blocklistOf selected.toRuleSetArtifact
      return ((list.lookup [0xc3, 0xa9, 0x2e, 0x61]).isSome,
        (list.lookup [0x78, 0x2e, 0x61]).isSome))
      = some (false, true) := by
  refine ⟨⟨⟨⟨[.ads], [0x61]⟩, by decide, ?_, .ads, by decide, by decide⟩, ?_⟩, by decide +kernel⟩
  · exact ⟨[[0xc3, 0xa9]], rfl⟩
  · rintro ⟨suffix, hsuffix, hunder⟩
    rw [mem_singleton.mp hsuffix] at hunder
    exact absurd (hunder.eq_of_length rfl) (by decide)

end Foxcore.Proofs
