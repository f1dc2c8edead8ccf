import Foxcore.Proofs.BlocklistKeys

/-!
# Looking a name up in a blocklist

The walk of `lookup_map_selected` looks at a node before every dot of the key
and at the end. `lookupFrom_bit` says bit by bit what it has gathered when it
stops, early or not: what the keys contribute that the text followed so far and
a stretch of the rest make up. Such a key is one whose pieces begin the pieces
of the name's key, that is a rule that covers the name.
-/

namespace Foxcore.Proofs

open Lib Ref Spec Lib.Transducer List

variable {μ : Type} [Transducer μ UInt8 Flags]

variable {map : μ} {selection : Option Flags} {text key : Str} {node : Node μ}
  {output : Flags} {name : List Str}

/-- A key is stored with flags that have one of the bits wanted, and what is
selected of them has bit `i`. -/
def KeyContributes (map : μ) (selection : Option Flags) (wanted : Flags) (key : Str)
    (i : Nat) : Prop :=
  ∃ flags, Transducer.get map key = some flags ∧ flags &&& wanted ≠ 0 ∧
    (selectedFlags flags selection).getLsbD i = true

theorem matchedAt_bit {wanted : Flags} (hwalk : walk map (root map) 0 text = some (node, output))
    (i : Nat) :
    (matchedAt map selection wanted node output).getLsbD i = true ↔
      KeyContributes map selection wanted text i := by
  unfold matchedAt KeyContributes
  rw [get_of_walk hwalk]
  cases valueAt map node output with
  | none => simp
  | some =>
    simp only [Option.some.injEq, exists_eq_left']
    split
    · next hwanted => exact ⟨fun h => ⟨hwanted, h⟩, fun h => h.2⟩
    · next hwanted =>
      rw [getLsbD_zero]
      exact ⟨fun h => absurd h Bool.false_ne_true, fun h => absurd h.1 hwanted⟩

/-- What the walk has gathered when it stops, from a node reached by `text`. -/
theorem lookupFrom_bit (rest : Str) (hwalk : walk map (root map) 0 text = some (node, output))
    (matched : Flags) (i : Nat) :
    (lookupFrom map selection node output matched rest).getLsbD i = true ↔
      matched.getLsbD i = true ∨
      (∃ u v, rest = u ++ dot :: v ∧ KeyContributes map selection flagSuffix (text ++ u) i) ∨
      KeyContributes map selection (flagExact ||| flagSuffix) (text ++ rest) i := by
  induction rest generalizing text node output matched with
  | nil =>
    rw [lookupFrom, BitVec.getLsbD_or, Bool.or_eq_true, matchedAt_bit hwalk]
    simp
  | cons byte rest ih =>
    -- what is gathered before this byte
    have hmatched : ∀ m, m = (if byte = dot then
          matched ||| matchedAt map selection flagSuffix node output else matched) →
        (m.getLsbD i = true ↔ matched.getLsbD i = true ∨
          (byte = dot ∧ KeyContributes map selection flagSuffix text i)) := by
      rintro m rfl
      split
      · next hdot =>
        rw [BitVec.getLsbD_or, Bool.or_eq_true, matchedAt_bit hwalk]
        simp [hdot]
      · next hdot => simp [hdot]
    -- a stretch before a dot is empty or starts with this byte
    have hstretch : (∃ u v, byte :: rest = u ++ dot :: v ∧
          KeyContributes map selection flagSuffix (text ++ u) i) ↔
        (byte = dot ∧ KeyContributes map selection flagSuffix text i) ∨
          ∃ u v, rest = u ++ dot :: v ∧
            KeyContributes map selection flagSuffix (text ++ byte :: u) i := by
      constructor
      · rintro ⟨u, v, heq, hkey⟩
        cases u with
        | nil =>
          obtain ⟨hbyte, -⟩ := List.cons.inj heq
          rw [append_nil] at hkey
          exact .inl ⟨hbyte, hkey⟩
        | cons b u =>
          obtain ⟨rfl, hrest⟩ := List.cons.inj heq
          exact .inr ⟨u, v, hrest, hkey⟩
      · rintro (⟨rfl, hkey⟩ | ⟨u, v, rfl, hkey⟩)
        · exact ⟨[], rest, rfl, by rw [append_nil]; exact hkey⟩
        · exact ⟨byte :: u, v, rfl, hkey⟩
    rw [hstretch, lookupFrom]
    cases hedge : edge map node byte with
    | none =>
      have hstuck : ∀ wanted u,
          ¬ KeyContributes map selection wanted (text ++ byte :: u) i := by
        rintro wanted u ⟨flags, hget, -⟩
        rw [get_of_stuck hwalk hedge u] at hget
        cases hget
      simp [hmatched _ rfl, hstuck]
    | some step =>
      have hnext : walk map (root map) 0 (text ++ [byte]) =
          some (step.2, output + step.1) := by
        rw [walk_append, hwalk, Option.bind_some]
        simp only [walk, hedge]
      rw [ih hnext, hmatched _ rfl]
      simp only [append_assoc, singleton_append, or_assoc]

/-! ## Rules and keys -/

theorem contribution_eq (r : Rule) : r.contribution = selectedFlags r.flags r.selection := by
  unfold Rule.contribution selectedFlags
  cases r.selection <;> rfl

/-- Having one of two bits. -/
theorem and_or_ne_zero {flags a b : Flags} :
    flags &&& (a ||| b) ≠ 0 ↔ flags &&& a ≠ 0 ∨ flags &&& b ≠ 0 := by
  rw [BitVec.and_or_distrib_left, ← not_and_or]
  exact not_congr BitVec.or_eq_zero_iff

variable [LawfulTransducer μ]

/-- The walk along the key of a name gathers what the rules of the map that
cover the name contribute. -/
theorem lookupFrom_rules (hkey : Str.split dot key = name.reverse) (i : Nat) :
    (lookupFrom map selection (root map) 0 0 key).getLsbD i = true ↔
      ∃ r ∈ mapRules map selection, r.Covers name ∧ r.contribution.getLsbD i = true := by
  have hroot : walk map (root map) 0 [] =
      some (root map, 0) := rfl
  rw [lookupFrom_bit key hroot, getLsbD_zero, Bool.false_eq_true, false_or]
  constructor
  · rintro (⟨u, v, rfl, flags, hget, hwanted, hbit⟩ | ⟨flags, hget, hwanted, hbit⟩)
    · refine ⟨⟨(Str.split dot u).reverse, flags, selection⟩,
        ⟨rfl, u, (LawfulTransducer.get_iff map u flags).mp hget, rfl⟩, .inr ⟨hwanted, ?_⟩, ?_⟩
      · rw [← reverse_prefix, reverse_reverse, ← hkey]
        exact splitOn_prefix_iff.mpr (.inr ⟨v, rfl⟩)
      · exact hbit
    · have hname : (Str.split dot key).reverse = name := by
        rw [hkey, reverse_reverse]
      refine ⟨⟨name, flags, selection⟩,
        ⟨rfl, key, (LawfulTransducer.get_iff map key flags).mp hget, hname.symm⟩, ?_, ?_⟩
      · rcases and_or_ne_zero.mp hwanted with hexact | hsuffix
        · exact .inl ⟨hexact, rfl⟩
        · exact .inr ⟨hsuffix, suffix_rfl⟩
      · exact hbit
  · rintro ⟨r, ⟨rfl, text, hentry, hlabels⟩, hcovers, hbit⟩
    have hget := (LawfulTransducer.get_iff map text r.flags).mpr hentry
    -- the rule's key is the name's, or the name's goes on with a dot after it
    rcases hcovers with ⟨hexact, hsame⟩ | ⟨hsuffix, hbelow⟩
    · have hsplit : Str.split dot text = Str.split dot key := by
        rw [hkey, ← hsame, hlabels, reverse_reverse]
      rw [← splitOn_injective hsplit]
      exact .inr ⟨r.flags, hget, and_or_ne_zero.mpr (.inl hexact), hbit⟩
    · rw [hlabels, ← reverse_prefix, reverse_reverse, ← hkey] at hbelow
      rcases splitOn_prefix_iff.mp hbelow with rfl | ⟨v, rfl⟩
      · exact .inr ⟨r.flags, hget, and_or_ne_zero.mpr (.inr hsuffix), hbit⟩
      · exact .inl ⟨text, v, rfl, r.flags, hget, hsuffix, hbit⟩

/-! ## The verdict -/

omit [LawfulTransducer μ] in
/-- What a lookup answers has the bits the walk has gathered. -/
theorem lookupMapSelected_bit {i : Nat} :
    (∃ flags, lookupMapSelected map key selection = some flags ∧ flags.getLsbD i = true) ↔
      (lookupFrom map selection (root map) 0 0 key).getLsbD i = true := by
  simp only [lookupMapSelected]
  split
  · simp
  · next hzero =>
    rw [not_not.mp hzero]
    simp

/-- The rules of the maps of a list. -/
def rulesOf (list : DomainBlocklist μ) : Rules where
  allow := ⋃ m ∈ list.allowMaps, mapRules m none
  block := ⋃ m ∈ list.maps, mapRules m.map m.enabledCategories

theorem allows_iff {list : DomainBlocklist μ} (hkey : Str.split dot key = name.reverse) :
    (rulesOf list).Allows name ↔
      (list.allowMaps.any fun map => (lookupMap map key).isSome) = true := by
  have hmap : ∀ map : μ, (lookupMap map key).isSome = true ↔
      ∃ r ∈ mapRules map none, r.Covers name := by
    intro map
    rw [Option.isSome_iff_exists]
    constructor
    · rintro ⟨flags, hflags⟩
      have hne : flags ≠ 0 := by
        simp only [lookupMap, lookupMapSelected] at hflags
        split at hflags
        · next hne =>
          rw [← Option.some.inj hflags]
          exact hne
        · cases hflags
      obtain ⟨i, hbit⟩ := flags_ne_zero_iff.mp hne
      obtain ⟨r, hr, hcovers, -⟩ :=
        (lookupFrom_rules hkey i).mp (lookupMapSelected_bit.mp ⟨flags, hflags, hbit⟩)
      exact ⟨r, hr, hcovers⟩
    · rintro ⟨r, hr, hcovers⟩
      -- a rule that covers something has a bit to contribute
      have hne : r.flags ≠ 0 := by
        intro hzero
        rcases hcovers with ⟨hwanted, -⟩ | ⟨hwanted, -⟩
        · exact hwanted (by rw [hzero]; exact BitVec.zero_and)
        · exact hwanted (by rw [hzero]; exact BitVec.zero_and)
      obtain ⟨i, hbit⟩ := flags_ne_zero_iff.mp hne
      have hcontribution : r.contribution.getLsbD i = true := by
        rw [contribution_eq, hr.1]
        exact hbit
      obtain ⟨flags, hflags, -⟩ := lookupMapSelected_bit.mpr
        ((lookupFrom_rules hkey i).mpr ⟨r, hr, hcovers, hcontribution⟩)
      exact ⟨flags, hflags⟩
  rw [any_eq_true]
  simp only [hmap, Rules.Allows, rulesOf, Set.mem_iUnion]
  constructor
  · exact fun ⟨r, ⟨m, hm, hr⟩, hcovers⟩ => ⟨m, hm, r, hr, hcovers⟩
  · exact fun ⟨m, hm, r, hr, hcovers⟩ => ⟨r, ⟨m, hm, hr⟩, hcovers⟩

theorem contributes_iff {list : DomainBlocklist μ} (hkey : Str.split dot key = name.reverse)
    (i : Nat) :
    (rulesOf list).Contributes name i ↔
      ((list.maps.filterMap fun map : BlockMap μ => map.lookup key).foldl
        (fun combined flags => combined ||| flags) 0).getLsbD i = true := by
  rw [getLsbD_union (fun flags => flags)]
  constructor
  · rintro ⟨r, hr, hcovers, hbit⟩
    simp only [rulesOf, Set.mem_iUnion] at hr
    obtain ⟨m, hm, hr⟩ := hr
    obtain ⟨flags, hflags, hbit⟩ := lookupMapSelected_bit.mpr
      ((lookupFrom_rules hkey i).mpr ⟨r, hr, hcovers, hbit⟩)
    exact ⟨flags, mem_filterMap.mpr ⟨m, hm, hflags⟩, hbit⟩
  · rintro ⟨flags, hmem, hbit⟩
    obtain ⟨m, hm, hflags⟩ := mem_filterMap.mp hmem
    obtain ⟨r, hr, hcovers, hbit⟩ :=
      (lookupFrom_rules hkey i).mp (lookupMapSelected_bit.mp ⟨flags, hflags, hbit⟩)
    refine ⟨r, ?_, hcovers, hbit⟩
    simp only [rulesOf, Set.mem_iUnion]
    exact ⟨m, hm, hr⟩

omit [LawfulTransducer μ] in
/-- No rule of a map covers a name without labels. -/
theorem not_covers_nil {r : Rule} (hr : r ∈ mapRules map selection) : ¬ r.Covers [] := by
  obtain ⟨-, key, -, hlabels⟩ := hr
  have hne : r.labels ≠ [] := by
    rw [hlabels]
    exact fun hnil => splitOn_ne_nil dot key (reverse_eq_nil_iff.mp hnil)
  rintro (⟨-, hsame⟩ | ⟨-, hbelow⟩)
  · exact hne hsame
  · exact hne (suffix_nil.mp hbelow)

/-- An ASCII name of at most 255 bytes can be listed unless it is only dots. -/
theorem listable_or_nil {name : Str} (hascii : Str.isAscii name = true)
    (hlen : name.length ≤ maxDomainBytes) : Listable name ∨ nameLabels name = [] := by
  have hsub : (Str.trimMatches dot name).Sublist name := by
    have hinner := (dropWhile_sublist (p := (· == dot))
      (l := (name.dropWhile (· == dot)).reverse)).reverse
    rw [reverse_reverse] at hinner
    exact hinner.trans (dropWhile_sublist _)
  by_cases hnil : Str.trimMatches dot name = []
  · refine .inr ?_
    rw [nameLabels, ← words_trimMatches, hnil]
    rfl
  · refine .inl ⟨hnil, hsub.length_le.trans hlen, ?_⟩
    exact all_eq_true.mpr fun b hb => all_eq_true.mp hascii b (hsub.mem hb)

/-- A list answers for a name with a key what the rules of its maps say. -/
theorem lookup_verdict_of_key (list : DomainBlocklist μ) {name : Str}
    (hkey : reversedKey name = some key) :
    (rulesOf list).Verdict (nameLabels name) (list.lookup name) := by
  have hsplit := (split_key hkey).2
  have hallows : (rulesOf list).Allows (nameLabels name) ↔ _ := allows_iff hsplit
  have hbits : ∀ i, (rulesOf list).Contributes (nameLabels name) i ↔ _ :=
    contributes_iff hsplit
  rw [DomainBlocklist.lookup, hkey]
  simp only []
  split
  · next hallow => exact .inl (hallows.mpr hallow)
  · next hallow =>
    split
    · next hne =>
      obtain ⟨i, hbit⟩ := flags_ne_zero_iff.mp hne
      exact ⟨fun h => hallow (hallows.mp h), ⟨i, (hbits i).mpr hbit⟩,
        fun j => (hbits j).symm⟩
    · next hzero =>
      refine .inr fun i hi => hzero (flags_ne_zero_iff.mpr ⟨i, (hbits i).mp hi⟩)

/-- A list answers for an ASCII name of at most 255 bytes what the rules of its
maps say. -/
theorem lookup_verdict (list : DomainBlocklist μ) {name : Str} (hascii : Str.isAscii name = true)
    (hlen : name.length ≤ maxDomainBytes) :
    (rulesOf list).Verdict (nameLabels name) (list.lookup name) := by
  cases hkey : reversedKey name with
  | none =>
    have hnil : nameLabels name = [] := by
      rcases listable_or_nil hascii hlen with hlist | hnil
      · rw [reversedKey_eq, if_pos hlist] at hkey
        cases hkey
      · exact hnil
    rw [hnil, DomainBlocklist.lookup, hkey]
    refine .inr ?_
    rintro i ⟨r, hr, hcovers, -⟩
    simp only [rulesOf, Set.mem_iUnion] at hr
    obtain ⟨m, -, hr⟩ := hr
    exact not_covers_nil hr hcovers
  | some => exact lookup_verdict_of_key list hkey

/-- A name is blocked when it can be listed, a rule that covers it contributes
and no exception does. -/
theorem lookup_isSome_iff (list : DomainBlocklist μ) (name : Str) :
    (list.lookup name).isSome = true ↔
      Listable name ∧ (∃ i, (rulesOf list).Contributes (nameLabels name) i) ∧
        ¬ (rulesOf list).Allows (nameLabels name) := by
  by_cases hlist : Listable name
  · have hkey : reversedKey name = some (Str.join dot (nameLabels name).reverse) := by
      rw [reversedKey_eq, if_pos hlist]
    have hverdict := lookup_verdict_of_key list hkey
    cases hlook : list.lookup name with
    | none =>
      rw [hlook] at hverdict
      refine ⟨fun h => absurd h Bool.false_ne_true, fun hcase => ?_⟩
      rcases hverdict with hallow | hnone
      · exact absurd hallow hcase.2.2
      · obtain ⟨i, hi⟩ := hcase.2.1
        exact absurd hi (hnone i)
    | some =>
      rw [hlook] at hverdict
      exact ⟨fun _ => ⟨hlist, hverdict.2.1, hverdict.1⟩, fun _ => rfl⟩
  · have hkey : reversedKey name = none := by
      rw [reversedKey_eq, if_neg hlist]
    have hlook : list.lookup name = none := by
      rw [DomainBlocklist.lookup, hkey]
    rw [hlook]
    exact ⟨fun h => absurd h Bool.false_ne_true, fun hcase => absurd hcase.1 hlist⟩

end Foxcore.Proofs
