import Foxcore.Spec.Blocklist

/-!
# Names, keys and listings

A name that can be listed has a key, and the pieces of the key are the labels
of the name from the last to the first. So keys and label lists determine each
other, and the flags gathered under a key are those of the listings of one
name.
-/

namespace Foxcore.Proofs

open Lib Ref Spec List Str

variable {name : Str}

/-! ## The key of a name -/

theorem words_trimMatches (name : Str) : words dot (trimMatches dot name) = words dot name := by
  have htrim : trimMatches dot name =
      (name.dropWhile (· == dot)).rdropWhile (· == dot) := rfl
  rw [htrim, words_rdropWhile, words_dropWhile]

/-- The labels of a name in reverse, as `reversed_key` collects them. -/
theorem reversed_nameLabels (name : Str) :
    ((split dot (trimMatches dot name)).reverse.filter fun label => label ≠ []).map
      toAsciiLowercase = (nameLabels name).reverse := by
  rw [nameLabels, ← words_trimMatches, ← map_reverse, words, ← filter_reverse]
  rfl

theorem byteToAsciiLowercase_eq_dot {b : UInt8} (h : byteToAsciiLowercase b = dot) :
    b = dot := by
  rw [byteToAsciiLowercase] at h
  split at h
  · next hupper =>
    -- a letter lowered is no dot
    obtain ⟨hlo, hhi⟩ := hupper
    have hlo : 65 ≤ b.toNat := UInt8.le_iff_toNat_le.mp hlo
    have hhi : b.toNat ≤ 90 := UInt8.le_iff_toNat_le.mp hhi
    have hsum : (b.toNat + 32) % 256 = 46 := congrArg UInt8.toNat h
    omega
  · exact h

theorem dot_not_mem_nameLabels {label : Str} (h : label ∈ nameLabels name) : dot ∉ label := by
  obtain ⟨word, hword, rfl⟩ := mem_map.mp h
  intro hin
  obtain ⟨b, hb, hlower⟩ := mem_map.mp hin
  rw [byteToAsciiLowercase_eq_dot hlower] at hb
  exact sep_not_mem_of_mem_splitOn (mem_filter.mp hword).1 hb

theorem nameLabels_ne_nil_of_mem {label : Str} (h : label ∈ nameLabels name) : label ≠ [] := by
  obtain ⟨word, hword, rfl⟩ := mem_map.mp h
  have hne : word ≠ [] := of_decide_eq_true (mem_filter.mp hword).2
  exact fun hnil => hne (map_eq_nil_iff.mp hnil)

/-- Between its outer dots a name ends in a letter, so it has a label. -/
theorem nameLabels_ne_nil (h : trimMatches dot name ≠ []) : nameLabels name ≠ [] := by
  have hlast := rdropWhile_last_not (· == dot) (name.dropWhile (· == dot)) h
  rw [nameLabels, ← words_trimMatches]
  refine fun hnil => ?_
  refine words_ne_nil (getLast_mem h) (fun heq => hlast ?_) (map_eq_nil_iff.mp hnil)
  exact beq_iff_eq.mpr heq

theorem validUtf8_of_ascii {bytes : List UInt8} (h : ∀ b ∈ bytes, b < 0x80) :
    validUtf8 bytes = true := by
  induction bytes with
  | nil => rfl
  | cons b bytes ih =>
    rw [validUtf8.eq_def]
    simp only [if_pos (h b (.head _))]
    exact ih fun b' hb' => h b' (.tail _ hb')

theorem byteToAsciiLowercase_lt {b : UInt8} (h : b < 0x80) : byteToAsciiLowercase b < 0x80 := by
  rw [byteToAsciiLowercase]
  split
  · next hupper =>
    have hhi : b.toNat ≤ 90 := UInt8.le_iff_toNat_le.mp hupper.2
    show (b.toNat + 32) % 256 < 128
    omega
  · exact h

/-- What is written for an ASCII name is ASCII. -/
theorem key_ascii (h : isAscii (trimMatches dot name) = true) :
    ∀ b ∈ join dot (nameLabels name).reverse, b < 0x80 := by
  intro b hb
  rcases mem_intercalate hb with rfl | ⟨label, hlabel, hin⟩
  · decide
  · obtain ⟨word, hword, rfl⟩ := mem_map.mp (mem_reverse.mp hlabel)
    obtain ⟨c, hc, rfl⟩ := mem_map.mp hin
    rw [← words_trimMatches] at hword
    have hmem := mem_of_mem_splitOn (mem_filter.mp hword).1 hc
    exact byteToAsciiLowercase_lt (of_decide_eq_true (all_eq_true.mp h c hmem))

/-- The key of a name is its labels from the last to the first, if it can be
listed. -/
theorem reversedKey_eq (name : Str) :
    reversedKey name =
      if Listable name then some (join dot (nameLabels name).reverse) else none := by
  simp only [reversedKey, reversed_nameLabels]
  have hreject : ((trimMatches dot name).isEmpty = true ∨
      maxDomainBytes < (trimMatches dot name).length ∨
      isAscii (trimMatches dot name) = false) ↔ ¬ Listable name := by
    simp only [Listable, List.isEmpty_iff, not_and_or, not_not, Nat.not_le, Bool.not_eq_true]
  by_cases hlist : Listable name
  · have hwritten : ¬ (join dot (nameLabels name).reverse).isEmpty = true := by
      intro hempty
      obtain ⟨label, hlabel⟩ := exists_mem_of_ne_nil _ (nameLabels_ne_nil hlist.1)
      refine nameLabels_ne_nil_of_mem hlabel ?_
      exact intercalate_eq_nil (List.isEmpty_iff.mp hempty) (mem_reverse.mpr hlabel)
    rw [if_neg fun h => hreject.mp h hlist, if_neg hwritten, if_pos hlist, fromUtf8,
      if_pos (validUtf8_of_ascii (key_ascii hlist.2.2))]
  · rw [if_pos (hreject.mpr hlist), if_neg hlist]

/-- The pieces of a key. -/
theorem split_key {key : Str} (h : reversedKey name = some key) :
    Listable name ∧ split dot key = (nameLabels name).reverse := by
  rw [reversedKey_eq, Option.ite_none_right_eq_some] at h
  obtain ⟨hlist, hkey⟩ := h
  refine ⟨hlist, ?_⟩
  rw [← Option.some.inj hkey]
  refine splitOn_intercalate dot (fun label hlabel => ?_) ?_
  · exact dot_not_mem_nameLabels (mem_reverse.mp hlabel)
  · exact fun hnil => nameLabels_ne_nil hlist.1 (reverse_eq_nil_iff.mp hnil)

/-- Names that can be listed have the same key when they have the same
labels. -/
theorem reversedKey_eq_some_iff {name' key : Str} (h : reversedKey name = some key) :
    reversedKey name' = some key ↔ Listable name' ∧ nameLabels name' = nameLabels name := by
  have hsplit := (split_key h).2
  constructor
  · intro h'
    obtain ⟨hlist, hsplit'⟩ := split_key h'
    exact ⟨hlist, reverse_injective (hsplit'.symm.trans hsplit)⟩
  · rintro ⟨hlist, hlabels⟩
    rw [reversedKey_eq, if_pos hlist, hlabels, ← hsplit]
    exact congrArg some (intercalate_splitOn dot)

/-! ## Sets of flags, bit by bit -/

theorem getLsbD_zero (i : Nat) : (0 : Flags).getLsbD i = false := BitVec.getLsbD_zero

theorem flags_ne_zero_iff {flags : Flags} : flags ≠ 0 ↔ ∃ i, flags.getLsbD i = true := by
  constructor
  · intro hne
    by_contra hnone
    refine hne (BitVec.eq_of_getLsbD_eq fun i _ => ?_)
    rw [getLsbD_zero]
    exact Bool.eq_false_iff.mpr fun hbit => hnone ⟨i, hbit⟩
  · rintro ⟨i, hbit⟩ rfl
    rw [getLsbD_zero] at hbit
    cases hbit

theorem getLsbD_foldl_or {ι : Type} (f : ι → Flags) (l : List ι) (start : Flags) (i : Nat) :
    (l.foldl (fun flags x => flags ||| f x) start).getLsbD i = true ↔
      start.getLsbD i = true ∨ ∃ x ∈ l, (f x).getLsbD i = true := by
  induction l generalizing start with
  | nil => simp
  | cons x l ih =>
    rw [foldl_cons, ih, BitVec.getLsbD_or, Bool.or_eq_true, exists_mem_cons_iff,
      or_assoc]

theorem getLsbD_union {ι : Type} (f : ι → Flags) (l : List ι) (i : Nat) :
    (l.foldl (fun flags x => flags ||| f x) 0).getLsbD i = true ↔
      ∃ x ∈ l, (f x).getLsbD i = true := by
  rw [getLsbD_foldl_or, getLsbD_zero, Bool.false_eq_true, false_or]

/-! ## Gathering listings -/

theorem gather_eq (l : List (Str × Flags)) (start : Option Flags) :
    l.foldl (fun flags x => some (flags.getD 0 ||| x.2)) start =
      if l = [] then start
      else some (l.foldl (fun flags x => flags ||| x.2) (start.getD 0)) := by
  induction l generalizing start with
  | nil => rfl
  | cons x l ih =>
    rw [foldl_cons, ih, if_neg (cons_ne_nil _ _), foldl_cons]
    split
    · next hnil => rw [hnil, foldl_nil]
    · rfl

/-- Under a key are gathered the flags of the listings that have it. -/
theorem lookup_collect_keys (listings : List (Str × Flags)) (key : Str) :
    (Listed.collect listings).keys.lookup key =
      (listings.filter fun l => reversedKey l.1 = some key).foldl
        (fun flags l => some (flags.getD 0 ||| l.2)) none := by
  have hfrom : ∀ listed : Listed, (listings.foldl Listed.add listed).keys.lookup key =
      (listings.filter fun l => reversedKey l.1 = some key).foldl
        (fun flags l => some (flags.getD 0 ||| l.2)) (listed.keys.lookup key) := by
    induction listings with
    | nil => exact fun _ => rfl
    | cons l listings ih =>
      intro listed
      rw [foldl_cons, ih, Listed.add]
      cases hkey : reversedKey l.1 with
      | none => rw [filter_cons_of_neg (by simp [hkey])]
      | some found =>
        by_cases heq : found = key
        · rw [filter_cons_of_pos (by simp [hkey, heq]), foldl_cons,
            HashMap.lookup_upsert, if_pos heq.symm, heq]
        · rw [filter_cons_of_neg (by simp [hkey, heq]), HashMap.lookup_upsert,
            if_neg (Ne.symm heq)]
  exact hfrom {}

/-- The rules of the listings that can be listed are the keys and flags that
are gathered. -/
theorem mem_listedRules {listings : List (Str × Flags)} {r : Rule} :
    r ∈ listedRules (listings.filter fun l => Listable l.1) ↔
      r.selection = none ∧ ∃ key,
        (Listed.collect listings).keys.lookup key = some r.flags ∧
          r.labels = (split dot key).reverse := by
  -- the listings under the key of one of them are those with its labels
  have hunder : ∀ {name key : Str}, reversedKey name = some key → ∀ l,
      l ∈ (listings.filter fun l => reversedKey l.1 = some key) ↔
        l ∈ (listings.filter fun l => Listable l.1) ∧ nameLabels l.1 = nameLabels name := by
    intro name key hkey l
    simp [reversedKey_eq_some_iff hkey, and_assoc]
  constructor
  · rintro ⟨hsel, ⟨l, hl, hlabels⟩, hbits⟩
    have hlist : Listable l.1 := of_decide_eq_true (mem_filter.mp hl).2
    have hkey : reversedKey l.1 = some (join dot (nameLabels l.1).reverse) := by
      rw [reversedKey_eq, if_pos hlist]
    refine ⟨hsel, join dot (nameLabels l.1).reverse, ?_, ?_⟩
    · rw [lookup_collect_keys, gather_eq,
        if_neg (ne_nil_of_mem ((hunder hkey l).mpr ⟨hl, rfl⟩))]
      refine congrArg some (BitVec.eq_of_getLsbD_eq fun i _ => Bool.eq_iff_iff.mpr ?_)
      rw [Option.getD_none, getLsbD_union, hbits, ← hlabels]
      simp only [hunder hkey, and_assoc]
    · rw [(split_key hkey).2, reverse_reverse, hlabels]
  · rintro ⟨hsel, key, hlook, hlabels⟩
    rw [lookup_collect_keys, gather_eq] at hlook
    split at hlook
    · cases hlook
    · next hne =>
      obtain ⟨l, hl⟩ := exists_mem_of_ne_nil _ hne
      have hkey : reversedKey l.1 = some key := of_decide_eq_true (mem_filter.mp hl).2
      have hsame : nameLabels l.1 = r.labels := by
        rw [hlabels, (split_key hkey).2, reverse_reverse]
      refine ⟨hsel, ⟨l, ((hunder hkey l).mp hl).1, hsame⟩, fun i => ?_⟩
      rw [← Option.some.inj hlook, Option.getD_none, getLsbD_union, ← hsame]
      simp only [hunder hkey, and_assoc]

/-! ## Storing them -/

section

variable {μ : Type} [Transducer μ UInt8 Flags] [LawfulTransducer μ]

/-- The bindings of a map in the order of their keys. -/
theorem ordered_entries (keys : HashMap Str Flags) :
    ((keys.entries.map fun s => (s.1, s.2)).insertionSort fun a b => a.1 ≤ b.1).Pairwise
      fun a b => a.1 < b.1 := by
  have hsorted := List.pairwise_insertionSort (fun a b : Str × Flags => a.1 ≤ b.1)
    (keys.entries.map fun s => (s.1, s.2))
  have hperm := perm_insertionSort (fun a b : Str × Flags => a.1 ≤ b.1)
    (keys.entries.map fun s => (s.1, s.2))
  have hdistinct : (keys.entries.map fun s => (s.1, s.2)).Pairwise fun a b => a.1 ≠ b.1 := by
    rw [pairwise_map]
    exact nodupKeys_iff_pairwise.mp keys.nodupKeys
  have hdistinct := (hperm.pairwise_iff (fun h => Ne.symm h)).mpr hdistinct
  exact (hsorted.and hdistinct).imp fun h => Std.lt_of_le_of_ne h.1 h.2

omit [Transducer μ UInt8 Flags] [LawfulTransducer μ] in
theorem mem_ordered_entries (keys : HashMap Str Flags) (key : Str) (flags : Flags) :
    (key, flags) ∈ ((keys.entries.map fun s => (s.1, s.2)).insertionSort fun a b => a.1 ≤ b.1) ↔
      keys.lookup key = some flags := by
  simp [HashMap.mem_entries]

/-- A map of keys is stored as it is, unless it is empty. -/
theorem compileMap_spec (keys : HashMap Str Flags) (key : Str) (flags : Flags) :
    keys.lookup key = some flags ↔
      ∃ m : μ, compileMap keys = some m ∧ (key, flags) ∈ Transducer.entries m := by
  rw [compileMap]
  split
  · next hempty =>
    rw [← mem_ordered_entries, List.isEmpty_iff.mp hempty]
    constructor
    · intro h
      cases h
    · rintro ⟨m, hm, -⟩
      cases hm
  · obtain ⟨m, hbuild, hentries⟩ :=
      LawfulTransducer.build_ordered (μ := μ) _ (ordered_entries keys)
    have hstored : keys.lookup key = some flags ↔ (key, flags) ∈ Transducer.entries m := by
      rw [hentries, mem_ordered_entries]
    rw [hstored]
    constructor
    · intro h
      exact ⟨m, hbuild, h⟩
    · rintro ⟨m', hm', h⟩
      rw [hbuild] at hm'
      rw [Option.some.inj hm']
      exact h

/-- The rules of a list of names are those of the map it is stored as. -/
theorem listedRules_eq_mapRules (listings : List (Str × Flags)) (r : Rule) :
    r ∈ listedRules (listings.filter fun l => Listable l.1) ↔
      ∃ m : μ, compileMap (Listed.collect listings).keys = some m ∧ r ∈ mapRules m none := by
  rw [mem_listedRules]
  constructor
  · rintro ⟨hsel, key, hlook, hlabels⟩
    obtain ⟨m, hm, hentry⟩ := (compileMap_spec (μ := μ) _ key r.flags).mp hlook
    exact ⟨m, hm, hsel, key, hentry, hlabels⟩
  · rintro ⟨m, hm, hsel, key, hentry, hlabels⟩
    exact ⟨hsel, key, (compileMap_spec _ key r.flags).mpr ⟨m, hm, hentry⟩, hlabels⟩

end

end Foxcore.Proofs
