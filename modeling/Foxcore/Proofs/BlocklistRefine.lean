import Foxcore.Proofs.Blocklist

/-!
# What a blocklist is made of

Sources, lists of exceptions and artifacts are put together one after the
other, and each adds its rules to those of the list. Two things add none: a
name that cannot be listed and an artifact whose selection of categories is
empty, which is switched off with its exceptions.

At the end the automaton is an ordered list, to see a lookup at work.
-/

namespace Foxcore.Proofs

open Lib Ref Spec List DomainBlocklist BlocklistSource Transducer Str Option

variable {m : OrderedList} {word : Str}

section

variable {μ : Type} [Transducer μ UInt8 Flags] [LawfulTransducer μ]

/-! ## Putting a list together -/

omit [LawfulTransducer μ] in
theorem mem_rulesOf_allow {list : DomainBlocklist μ} {r : Rule} :
    r ∈ (rulesOf list).allow ↔ ∃ m ∈ list.allowMaps, r ∈ mapRules m none := by
  simp [rulesOf]

omit [LawfulTransducer μ] in
theorem mem_rulesOf_block {list : DomainBlocklist μ} {r : Rule} :
    r ∈ (rulesOf list).block ↔ ∃ m ∈ list.maps, r ∈ mapRules m.map m.enabledCategories := by
  simp [rulesOf]

/-- What can be listed of a list of names. -/
def listable (listings : List (Str × Flags)) : List (Str × Flags) :=
  listings.filter fun l => Listable l.1

theorem rulesOf_compileSources (sources : List BlocklistSource) :
    (rulesOf (compileSources sources : DomainBlocklist μ)).allow = ∅ ∧
      (rulesOf (compileSources sources : DomainBlocklist μ)).block =
        listedRules (listable (sources.flatMap listings)) := by
  have hlisted := listedRules_eq_mapRules (μ := μ)
    (sources.flatMap listings)
  unfold compileSources
  simp only []
  cases hmap : (compileMap (Listed.collect
      (sources.flatMap listings)).keys : Option μ) with
  | none =>
    simp only [hmap, reduceCtorEq, false_and, exists_false, iff_false] at hlisted
    refine ⟨Set.eq_empty_iff_forall_notMem.mpr ?_, Set.ext fun r => ?_⟩
    · intro r hr
      obtain ⟨m, hm, -⟩ := mem_rulesOf_allow.mp hr
      cases hm
    · refine ⟨nofun, fun hr => (hlisted r hr).elim⟩
  | some =>
    simp only [hmap, some.injEq, exists_eq_left'] at hlisted
    refine ⟨Set.eq_empty_iff_forall_notMem.mpr ?_, Set.ext fun r => ?_⟩
    · intro r hr
      obtain ⟨m, hm, -⟩ := mem_rulesOf_allow.mp hr
      cases hm
    · rw [mem_rulesOf_block]
      refine Iff.trans ?_ (hlisted r).symm
      simp

theorem rulesOf_withAllowlist (list : DomainBlocklist μ) (exact suffixes : List Str) :
    (rulesOf (list.withAllowlist exact suffixes)).allow = (rulesOf list).allow ∪
        listedRules (listable (mk none exact suffixes).listings) ∧
      (rulesOf (list.withAllowlist exact suffixes)).block = (rulesOf list).block := by
  have hlisted := listedRules_eq_mapRules (μ := μ)
    (mk none exact suffixes).listings
  unfold withAllowlist
  simp only []
  cases hmap : (compileMap (Listed.collect
      (mk none exact suffixes).listings).keys : Option μ) with
  | none =>
    simp only [hmap, reduceCtorEq, false_and, exists_false, iff_false] at hlisted
    refine ⟨Set.ext fun r => ?_, rfl⟩
    exact ⟨.inl, fun hr => hr.elim id fun hnew => (hlisted r hnew).elim⟩
  | some =>
    simp only [hmap, some.injEq, exists_eq_left'] at hlisted
    refine ⟨Set.ext fun r => ?_, rfl⟩
    rw [Set.mem_union, mem_rulesOf_allow, mem_rulesOf_allow]
    simp only [mem_append, mem_singleton, or_and_right, exists_or, exists_eq_left]
    exact or_congr_right (hlisted r).symm

/-- A map with no entries has no rules. -/
theorem mapRules_of_len_zero {map : μ} (h : len map = 0) (selection : Option Flags) :
    mapRules map selection = ∅ := by
  refine Set.eq_empty_iff_forall_notMem.mpr ?_
  rintro r ⟨-, key, hentry, -⟩
  have hget := (LawfulTransducer.get_iff map key r.flags).mpr hentry
  rw [LawfulTransducer.get_of_len_zero h] at hget
  cases hget

theorem rulesOf_withRuleSet (list : DomainBlocklist μ) (ruleSet : RuleSetArtifact μ)
    (hon : ruleSet.enabledCategoryMask ≠ some 0) :
    (rulesOf (list.withRuleSet ruleSet)).allow =
        (rulesOf list).allow ∪ mapRules ruleSet.allow none ∧
      (rulesOf (list.withRuleSet ruleSet)).block =
        (rulesOf list).block ∪ mapRules ruleSet.block ruleSet.enabledCategoryMask := by
  rw [withRuleSet, if_neg hon]
  refine ⟨Set.ext fun r => ?_, Set.ext fun r => ?_⟩
  · rw [Set.mem_union, mem_rulesOf_allow, mem_rulesOf_allow]
    simp only [mem_append, or_and_right, exists_or]
    split
    · simp
    · next hnone =>
      rw [mapRules_of_len_zero (ruleSet.allow_len.trans (Nat.eq_zero_of_not_pos hnone))]
      simp
  · rw [Set.mem_union, mem_rulesOf_block, mem_rulesOf_block]
    simp only [mem_append, or_and_right, exists_or]
    split
    · simp only [mem_singleton, exists_eq_left]
    · next hnone =>
      rw [mapRules_of_len_zero (ruleSet.block_len.trans (Nat.eq_zero_of_not_pos hnone))]
      simp

/-- A list made of sources, lists of exceptions and artifacts. -/
def assemble (sources : List BlocklistSource) (allowlists : List (List Str × List Str))
    (artifacts : List (RuleSetArtifact μ)) : DomainBlocklist μ :=
  (allowlists.foldl (fun list names => list.withAllowlist names.1 names.2)
    (compileSources sources)).withRuleSets artifacts

/-- The listings of a list of exceptions. -/
def exceptions (names : List Str × List Str) : List (Str × Flags) :=
  (mk none names.1 names.2).listings

theorem union_biUnion_cons {ι : Type} (f : ι → Set Rule) (start : Set Rule) (x : ι) (l : List ι) :
    start ∪ f x ∪ ⋃ y ∈ l, f y = start ∪ ⋃ y ∈ x :: l, f y := by
  rw [Set.union_assoc]
  simp

theorem rulesOf_allowlists (allowlists : List (List Str × List Str)) (list : DomainBlocklist μ) :
    let list' := allowlists.foldl (fun list names => list.withAllowlist names.1 names.2) list
    (rulesOf list').allow = (rulesOf list).allow ∪
        ⋃ listings ∈ allowlists.map (listable ∘ exceptions), listedRules listings ∧
      (rulesOf list').block = (rulesOf list).block := by
  induction allowlists generalizing list with
  | nil => simp
  | cons names rest ih =>
    obtain ⟨hallow, hblock⟩ := ih (list.withAllowlist names.1 names.2)
    obtain ⟨hallow₁, hblock₁⟩ := rulesOf_withAllowlist list names.1 names.2
    refine ⟨?_, hblock.trans hblock₁⟩
    rw [foldl_cons, hallow, hallow₁, map_cons, ← union_biUnion_cons]
    rfl

theorem rulesOf_ruleSets (artifacts : List (RuleSetArtifact μ)) (list : DomainBlocklist μ) :
    let on := artifacts.filter fun artifact => artifact.enabledCategoryMask ≠ some 0
    (rulesOf (list.withRuleSets artifacts)).allow = (rulesOf list).allow ∪
        ⋃ artifact ∈ on, mapRules artifact.allow none ∧
      (rulesOf (list.withRuleSets artifacts)).block = (rulesOf list).block ∪
        ⋃ artifact ∈ on, mapRules artifact.block artifact.enabledCategoryMask := by
  induction artifacts generalizing list with
  | nil => simp [withRuleSets]
  | cons artifact rest ih =>
    obtain ⟨hallow, hblock⟩ := ih (list.withRuleSet artifact)
    simp only [withRuleSets, foldl_cons] at hallow hblock ⊢
    by_cases hon : artifact.enabledCategoryMask = some 0
    · rw [filter_cons_of_neg (by simp [hon]), hallow, hblock,
        withRuleSet, if_pos hon]
      exact ⟨rfl, rfl⟩
    · obtain ⟨hallow₁, hblock₁⟩ := rulesOf_withRuleSet list artifact hon
      rw [filter_cons_of_pos (by simpa using hon), hallow, hblock, hallow₁, hblock₁]
      exact ⟨union_biUnion_cons (fun a => mapRules a.allow none) _ artifact _,
        union_biUnion_cons (fun a => mapRules a.block a.enabledCategoryMask) _ artifact _⟩

/-- The maps of an assembled list have the rules of the names that can be
listed and of the artifacts that are not switched off. -/
theorem rulesOf_assemble (sources : List BlocklistSource) (allowlists : List (List Str × List Str))
    (artifacts : List (RuleSetArtifact μ)) :
    rulesOf (assemble sources allowlists artifacts) =
      rules (listable (sources.flatMap listings))
        (allowlists.map (listable ∘ exceptions))
        (artifacts.filter fun artifact => artifact.enabledCategoryMask ≠ some 0) := by
  obtain ⟨hallow, hblock⟩ := rulesOf_ruleSets artifacts (allowlists.foldl
    (fun list names => list.withAllowlist names.1 names.2)
    (compileSources sources))
  obtain ⟨hallow₁, hblock₁⟩ := rulesOf_allowlists allowlists
    (compileSources sources : DomainBlocklist μ)
  obtain ⟨hallow₂, hblock₂⟩ := rulesOf_compileSources (μ := μ) sources
  rw [hallow₁, hallow₂, Set.empty_union] at hallow
  rw [hblock₁, hblock₂] at hblock
  unfold assemble rules
  rw [← hallow, ← hblock]

/-- Whatever sources, lists of exceptions and artifacts a blocklist is made of,
it answers for every ASCII name of at most 255 bytes what the rules of the
names that can be listed and of the artifacts not switched off say, over label
lists. -/
theorem lookup_agrees_with_rules (sources : List BlocklistSource)
    (allowlists : List (List Str × List Str)) (artifacts : List (RuleSetArtifact μ))
    {name : Str} (hascii : Str.isAscii name = true) (hlen : name.length ≤ maxDomainBytes) :
    (rules (listable (sources.flatMap BlocklistSource.listings))
        (allowlists.map (listable ∘ exceptions))
        (artifacts.filter fun artifact => artifact.enabledCategoryMask ≠ some 0)).Verdict
      (nameLabels name) ((assemble sources allowlists artifacts).lookup name) := by
  rw [← rulesOf_assemble]
  exact lookup_verdict _ hascii hlen

/-- In which order and how often its parts are given does not matter. -/
theorem lookup_any_order {sources sources' : List BlocklistSource}
    {allowlists allowlists' : List (List Str × List Str)}
    {artifacts artifacts' : List (RuleSetArtifact μ)} (hsources : ∀ s, s ∈ sources ↔ s ∈ sources')
    (hallow : ∀ l, l ∈ allowlists ↔ l ∈ allowlists')
    (hartifacts : ∀ a, a ∈ artifacts ↔ a ∈ artifacts') (name : Str) :
    (assemble sources allowlists artifacts).lookup name =
      (assemble sources' allowlists' artifacts').lookup name := by
  have hrules : rulesOf (assemble sources allowlists artifacts) =
      rulesOf (assemble sources' allowlists' artifacts') := by
    rw [rulesOf_assemble, rulesOf_assemble]
    simp [rules, listedRules, listable, hsources, hallow, hartifacts]
  cases hkey : reversedKey name with
  | none => rw [DomainBlocklist.lookup, DomainBlocklist.lookup, hkey]
  | some =>
    have hverdict := lookup_verdict_of_key (assemble sources allowlists artifacts) hkey
    rw [hrules] at hverdict
    exact hverdict.unique (lookup_verdict_of_key _ hkey)

end

/-! ## Ordered lists -/

/-- An automaton that remembers the word it has read and looks it up in a list
in order. -/
structure OrderedList where
  entries : List (Str × Flags)
  ordered : entries.Pairwise fun a b => a.1 < b.1

namespace OrderedList

def find (m : OrderedList) (word : Str) : Option Flags :=
  (m.entries.find? fun e => decide (e.1 = word)).map Prod.snd

/-- No word stands in the list twice. -/
theorem find_iff {v : Flags} : m.find word = some v ↔ (word, v) ∈ m.entries := by
  have hdistinct : (m.entries.map Prod.fst).Nodup := by
    rw [List.Nodup, pairwise_map]
    refine m.ordered.imp fun hlt heq => ?_
    rw [heq] at hlt
    exact List.lt_irrefl _ hlt
  rw [find]
  constructor
  · intro h
    obtain ⟨e, hfind, rfl⟩ := map_eq_some_iff.mp h
    have hword : e.1 = word := by simpa using find?_some hfind
    rw [← hword]
    exact mem_of_find?_eq_some hfind
  · intro hmem
    cases hfind : m.entries.find? fun e => decide (e.1 = word) with
    | none => exact absurd (decide_eq_true rfl) (find?_eq_none.mp hfind _ hmem)
    | some e =>
      have hword : e.1 = word := by simpa using find?_some hfind
      rw [inj_on_of_nodup_map hdistinct (mem_of_find?_eq_some hfind) hmem hword,
        map_some]

instance : Transducer OrderedList UInt8 Flags where
  Node := Str
  root _ := []
  edge m node byte :=
    if m.entries.any fun e => (node ++ [byte]).isPrefixOf e.1 then some (0, node ++ [byte])
    else none
  isFinal m node := (m.find node).isSome
  finalOutput m node := (m.find node).getD 0
  entries m := m.entries
  len m := m.entries.length
  build l := if h : l.Pairwise fun a b => a.1 < b.1 then some ⟨l, h⟩ else none

theorem walk_sound {node node' : Str} {output output' : Flags}
    (h : walk m node output word = some (node', output')) :
    node' = node ++ word ∧ output' = output := by
  induction word generalizing node output with
  | nil =>
    cases h
    exact ⟨(append_nil _).symm, rfl⟩
  | cons byte word ih =>
    simp only [walk, edge] at h
    split at h
    · next out next hedge =>
      rw [ite_none_right_eq_some] at hedge
      cases hedge.2
      obtain ⟨hnode, houtput⟩ := ih h
      rw [hnode, houtput, append_assoc]
      exact ⟨rfl, add_zero _⟩
    · cases h

theorem walk_along_key {node : Str} {e : Str × Flags} (hmem : e ∈ m.entries)
    (hbegins : node ++ word <+: e.1) (output : Flags) :
    walk m node output word = some (node ++ word, output) := by
  induction word generalizing node output with
  | nil => rw [walk, append_nil]
  | cons byte word ih =>
    have hsplit : node ++ byte :: word = (node ++ [byte]) ++ word := by simp
    rw [hsplit] at hbegins
    have hedge : (m.entries.any fun e => (node ++ [byte]).isPrefixOf e.1) = true :=
      any_eq_true.mpr ⟨e, hmem,
        isPrefixOf_iff_prefix.mpr ((prefix_append _ _).trans hbegins)⟩
    simp only [walk, edge, hedge, if_true]
    rw [add_zero, ih hbegins, hsplit]

theorem valueAt_eq (m : OrderedList) (node : Str) :
    valueAt m node (0 : Flags) = m.find node := by
  simp only [valueAt, isFinal, finalOutput]
  cases m.find node with
  | none => rfl
  | some v => exact congrArg some (zero_add v)

instance : LawfulTransducer OrderedList where
  get_iff m word v := by
    refine Iff.trans ?_ find_iff
    constructor
    · intro h
      obtain ⟨⟨node, output⟩, hwalk, hvalue⟩ := bind_eq_some_iff.mp h
      obtain ⟨rfl, rfl⟩ := walk_sound hwalk
      exact (valueAt_eq m _).symm.trans hvalue
    · intro h
      rw [get_of_walk (walk_along_key (find_iff.mp h) prefix_rfl 0)]
      exact (valueAt_eq m word).trans h
  len_eq _ := rfl
  build_ordered l hl := ⟨⟨l, hl⟩, dif_pos hl, rfl⟩

end OrderedList

/-! ## Lookups -/

/-- One rule under a key. -/
def oneRule (key : Str) (flags : Flags) : OrderedList :=
  ⟨[(key, flags)], pairwise_singleton _ _⟩

/-- An artifact that blocks everything under a key, except what is under
another. -/
def oneArtifact (block allow : Str) (category : DnsCategory) (selection : Option Flags) :
    RuleSetArtifact OrderedList where
  block := oneRule block (flagSuffix ||| categoryBit category)
  allow := oneRule allow flagSuffix
  blockEntries := 1
  allowEntries := 1
  enabledCategoryMask := selection
  block_len := rfl
  allow_len := rfl

/-- The name `s.b.a`. -/
def threeLabels : Str := ofChars ['s', '.', 'b', '.', 'a']

/-- `a` is listed as advertising and `b.a` is among the trackers of an artifact
of which the trackers are selected: the verdict on `s.b.a` has both. -/
theorem lookup_three_labels :
    let sources : List BlocklistSource :=
      [{ category := some .ads, suffixes := [ofChars ['a']] }]
    let artifacts := [oneArtifact (ofChars ['a', '.', 'b']) (ofChars ['c']) .trackers
      (some (categoryBit .trackers))]
    (assemble sources [] artifacts).lookup threeLabels =
        some ⟨flagSuffix ||| categoryBit .ads ||| categoryBit .trackers⟩ ∧
      (rules (listable (sources.flatMap listings)) []
          (artifacts.filter fun artifact => artifact.enabledCategoryMask ≠ some 0)).Verdict
        (nameLabels threeLabels) ((assemble sources [] artifacts).lookup threeLabels) := by
  intro sources artifacts
  exact ⟨by decide +kernel, lookup_agrees_with_rules sources [] artifacts
    (by decide +kernel) (by decide +kernel)⟩

/-- Sources swapped and an artifact given twice. -/
theorem lookup_other_order :
    let source : BlocklistSource := { suffixes := [Str.ofChars ['a']] }
    let artifact := oneArtifact (Str.ofChars ['z']) (Str.ofChars ['c']) .trackers none
    (assemble [source, {}] [] [artifact]).lookup threeLabels =
      (assemble [{}, source] [] [artifact, artifact]).lookup threeLabels := by
  intro source artifact
  exact lookup_any_order (by simp [or_comm]) (by simp) (by simp) _

/-- The name `b.a` with 254 dots in place of one. -/
def stretched : Str := ofChars ['b'] ++ List.replicate 254 dot ++ ofChars ['a']

/-- Not every rule counts. An artifact that is switched off does not except
`s.b.a` from a source that blocks `a`, although an exception of it covers the
name; and a source that lists `b.a` with too many dots does not block it,
although the labels are the same. -/
theorem rules_left_out :
    let artifacts := [oneArtifact (Str.ofChars ['z']) (Str.ofChars ['a']) .ads (some 0)]
    let sources : List BlocklistSource := [{ suffixes := [Str.ofChars ['a']] }]
    let dotted : List BlocklistSource := [{ suffixes := [stretched] }]
    ¬ (rules (sources.flatMap BlocklistSource.listings) [] artifacts).Verdict
        (nameLabels threeLabels) ((assemble sources [] artifacts).lookup threeLabels) ∧
      ¬ (rules (dotted.flatMap BlocklistSource.listings) []
          ([] : List (RuleSetArtifact OrderedList))).Verdict (nameLabels threeLabels)
        ((assemble dotted [] ([] : List (RuleSetArtifact OrderedList))).lookup threeLabels) := by
  intro artifacts sources dotted
  have hblocked : (assemble sources [] artifacts).lookup threeLabels = some ⟨flagSuffix⟩ := by
    decide +kernel
  have hpassed : (assemble dotted [] ([] : List (RuleSetArtifact OrderedList))).lookup
      threeLabels = none := by
    decide +kernel
  have hsuffix : flagSuffix &&& flagSuffix ≠ 0 := by decide
  rw [hblocked, hpassed]
  refine ⟨fun hverdict => hverdict.1 ?_, fun hverdict => ?_⟩
  · refine ⟨⟨[ofChars ['a']], flagSuffix, none⟩, .inr ?_, .inr ⟨hsuffix, ?_⟩⟩
    · simp only [Set.mem_iUnion]
      exact ⟨_, .head _, rfl, _, .head _, by decide +kernel⟩
    · exact ⟨[ofChars ['s'], ofChars ['b']], rfl⟩
  · have hlabels : nameLabels stretched = [ofChars ['b'], ofChars ['a']] := by
      decide +kernel
    rcases hverdict with ⟨r, hr, -⟩ | hnone
    · rcases hr with hlisted | hartifact
      · simp at hlisted
      · simp at hartifact
    · refine hnone 1 ⟨⟨[ofChars ['b'], ofChars ['a']], flagSuffix, none⟩, .inl ?_,
        .inr ⟨hsuffix, [ofChars ['s']], rfl⟩, by decide⟩
      refine ⟨rfl, ⟨_, .head _, hlabels⟩, fun i => ⟨fun hbit => ⟨_, .head _, hlabels, hbit⟩, ?_⟩⟩
      rintro ⟨l, hl, -, hbit⟩
      rw [mem_singleton.mp hl] at hbit
      exact hbit

end Foxcore.Proofs
