import Foxcore.Spec.Route

/-!
# The index finds the winner

`matchRules` asks the index three questions in a row and stops at the first
that has an answer; the reference walks the rule list and keeps the best. The
two agree because each question is a class of rules, and asking classes in
order is the same as scanning for the least class
(`findSome?_find?_eq_scanMin`). What is left is to see that the position of a
class orders rules the way `Specificity` does: the exact class is first, the
suffixes of a name with `n` labels follow from `n` labels down to one, and the
rules without a name come last.
-/

namespace Foxcore.Proofs

open Lib Ref Spec List Option RouteRule Specificity

variable {ν : Type}

/-! ## Selectors -/

theorem lapsed_eq_false_iff (rule : RouteRule ν) (now : Option Nat) :
    rule.lapsed now = false ↔ ∀ expires ∈ rule.expiresAtMs, ∀ n ∈ now, n < expires := by
  unfold lapsed
  cases rule.expiresAtMs <;> cases now <;> simp

/-- The address a prefix is compared with is the literal host, whether or not
the flow carries a hint. -/
theorem destination_ip_or (flow : FlowContext) :
    flow.destination.ip.or
      (if flow.domainHint.isNone then parseIpAddr flow.destination.host else none) =
        flow.destination.ip := by
  cases h : flow.destination.ip with
  | some => rfl
  | none =>
    rw [Destination.ip] at h
    simp [h]

theorem ruleMatches_iff [IpNet ν] (rule : RouteRule ν) (flow : FlowContext) (now : Option Nat) :
    ruleMatches rule flow now = true ↔ Admits rule flow now := by
  rw [ruleMatches, destination_ip_or]
  simp only [Bool.if_false_left, Bool.and_eq_true, Bool.not_eq_true',
    decide_eq_false_iff_not, Bool.not_eq_true]
  have hfields : Admits rule flow now ↔ _ ∧ _ ∧ _ ∧ _ ∧ _ ∧ _ ∧ _ :=
    ⟨fun h => ⟨h.unexpired, h.uid, h.package, h.network, h.transport, h.ports, h.cidrs⟩,
      fun ⟨hexp, huid, hpkg, hnet, htr, hports, hcidrs⟩ =>
        ⟨hexp, huid, hpkg, hnet, htr, hports, hcidrs⟩⟩
  rw [hfields, ← lapsed_eq_false_iff]
  refine and_congr_right' (and_congr ?_ (and_congr ?_ (and_congr ?_ (and_congr ?_
    (and_congr ?_ ?_)))))
  · simp [Option.any_eq_false]
  · simp [Option.any_eq_false, or_iff_not_imp_left]
  · simp [Option.any_eq_false]
  · simp [Option.any_eq_false]
  · simp [PortRange.contains, or_iff_not_imp_left]
  · cases rule.cidrs <;> cases flow.destination.ip <;> simp

/-! ## One question to the index

A candidate list names positions. Looked up in the rule list they give back
the enumerated rules that mention the key, and the first that matches is the
first in rule order. -/

theorem resolve_filed {κ : Type} [BEq κ] (rules : List (RouteRule ν)) (keys : RouteRule ν → List κ)
    (key : κ) :
    (filed keys key rules.zipIdx).filterMap
        (fun i => rules[i]?.map fun rule => (rule, i)) =
      rules.zipIdx.flatMap fun x => List.replicate ((keys x.1).count key) x := by
  rw [filed, filterMap_flatMap]
  refine flatMap_congr fun x hx => ?_
  have hget : rules[x.2]? = some x.1 := mem_zipIdx_iff_getElem?.mp hx
  rw [filterMap_replicate_of_some (by rw [hget]; rfl)]

section Index

variable [IpNet ν] (t : RouteTable ν) (flow : FlowContext) (now : Option Nat)

theorem firstMatch_filed {κ : Type} [BEq κ] [LawfulBEq κ] [DecidableEq κ]
    (keys : RouteRule ν → List κ) (key : κ) :
    t.firstMatch (filed keys key t.rules.zipIdx) flow now =
      (t.rules.zipIdx.find? fun x =>
        decide (key ∈ keys x.1) && ruleMatches x.1 flow now).map ruleRef := by
  rw [RouteTable.firstMatch, resolve_filed, find?_flatMap_replicate]
  simp

theorem firstMatch_fallback :
    t.firstMatch t.index.fallback flow now =
      (t.rules.zipIdx.find? fun x =>
        x.1.isGeneric && ruleMatches x.1 flow now).map ruleRef := by
  have hresolve : ((t.rules.zipIdx.filter fun x => x.1.isGeneric).map Prod.snd).filterMap
      (fun i => t.rules[i]?.map fun rule => (rule, i)) =
        t.rules.zipIdx.filter fun x => x.1.isGeneric := by
    rw [filterMap_map]
    have hsome : ∀ x ∈ t.rules.zipIdx.filter fun x => x.1.isGeneric,
        ((fun i => t.rules[i]?.map fun rule => (rule, i)) ∘ Prod.snd) x = some x := by
      intro x hx
      have hget := mem_zipIdx_iff_getElem?.mp (mem_filter.mp hx).1
      simp [hget]
    rw [filterMap_congr hsome, filterMap_some]
  rw [RouteTable.firstMatch, t.indexed.generic, hresolve, find?_filter]
  simp

theorem firstMatch_flatMap {κ : Type} (f : κ → List Nat) (ks : List κ) :
    t.firstMatch (ks.flatMap f) flow now =
      ks.findSome? fun k => t.firstMatch (f k) flow now := by
  rw [RouteTable.firstMatch, filterMap_flatMap, find?_flatMap, map_findSome?]
  rfl

/-! ## All questions in order -/

/-- The classes of rules the index is asked for, in the order of the asking. -/
def classes : Option Str → List (RouteRule ν × Nat → Bool)
  | none => [fun x => x.1.isGeneric]
  | some domain =>
    (fun x => decide (domain ∈ x.1.exactKeys)) ::
      ((reversedLabels domain).inits.tail.reverse.map fun p x =>
        decide (p ∈ x.1.suffixKeys)) ++ [fun x => x.1.isGeneric]

theorem matchRules_eq_findSome? :
    t.matchRules flow now =
      ((classes flow.domain).findSome? fun c => t.rules.zipIdx.find? fun x =>
        c x && ruleMatches x.1 flow now).map ruleRef := by
  rw [RouteTable.matchRules]
  cases flow.domain with
  | none =>
    simp only [classes, findSome?_singleton]
    exact firstMatch_fallback t flow now
  | some domain =>
    have hexact : ((t.index.exactDomains.lookup domain).bind fun candidates =>
        t.firstMatch candidates flow now) =
          t.firstMatch (filed exactKeys domain t.rules.zipIdx) flow now := by
      rw [← t.indexed.exact domain]
      cases t.index.exactDomains.lookup domain <;> rfl
    have hsuffix : t.firstMatch (t.index.suffixDomains.collect domain) flow now =
        (reversedLabels domain).inits.tail.reverse.findSome? fun p =>
          t.firstMatch (filed suffixKeys p t.rules.zipIdx) flow now := by
      rw [SuffixNode.collect, Trie.levels_reverse_flatten, firstMatch_flatMap]
      simp only [t.indexed.suffix]
    simp only [hexact, hsuffix, firstMatch_filed, firstMatch_fallback]
    rw [map_findSome?, classes, findSome?_append, findSome?_cons,
      findSome?_map, findSome?_singleton]
    simp only [Function.comp_def]
    cases t.rules.zipIdx.find? fun x =>
        decide (domain ∈ x.1.exactKeys) && ruleMatches x.1 flow now with
    | none | some x => rfl

end Index

/-! ## The order of the questions is the order of specificity -/

theorem reversedLabels_ne_nil (domain : Str) : reversedLabels domain ≠ [] := by
  simp [reversedLabels, Str.split]

theorem nil_notMem_suffixKeys (rule : RouteRule ν) : [] ∉ rule.suffixKeys := by
  intro h
  obtain ⟨suffix, -, hs⟩ := mem_map.mp h
  exact reversedLabels_ne_nil _ hs

theorem suffixDepths_eq (rule : RouteRule ν) (domain : Str) :
    suffixDepths rule domain = rule.suffixKeys.filterMap fun q =>
      if q <+: reversedLabels domain then some q.length else none := by
  unfold suffixDepths suffixKeys
  rw [filterMap_map]
  simp only [reversedLabels, Function.comp_apply, reverse_prefix, length_reverse]
  congr

theorem specificity_suffix_bounds {rule : RouteRule ν} {domain : Str} {depth : Nat}
    (h : specificity rule (some domain) = some (.suffix depth)) :
    0 < depth ∧ depth ≤ (reversedLabels domain).length := by
  unfold specificity at h
  simp only [] at h
  split at h
  · cases h
  · split at h
    · next d hmax =>
      cases h
      have hin := (max?_eq_some_iff.mp hmax).1
      rw [suffixDepths_eq] at hin
      obtain ⟨q, hkey, hq⟩ := mem_filterMap.mp hin
      obtain ⟨hpre, ⟨⟩⟩ := ite_none_right_eq_some.mp hq
      have hne : q ≠ [] := fun h => nil_notMem_suffixKeys rule (h ▸ hkey)
      exact ⟨length_pos_iff.mpr hne, hpre.length_le⟩
    · split at h <;> cases h

/-- The position of the class that answers for a specificity, when the flow's
name has `n` labels. -/
def rank (n : Nat) : Specificity → Nat
  | .exact => 0
  | .suffix depth => n - depth + 1
  | .generic => n + 1

theorem findIdx?_classes (x : RouteRule ν × Nat) (domain : Str) :
    ((classes (some domain)).findIdx? fun c => c x) =
      (specificity x.1 (some domain)).map (rank (reversedLabels domain).length) := by
  have hgeneric : x.1.isGeneric = true ↔
      x.1.exactDomains = [] ∧ x.1.domainSuffixes = [] := by
    simp [isGeneric]
  unfold classes specificity
  rw [findIdx?_append, findIdx?_cons, findIdx?_map]
  by_cases hexact : domain ∈ x.1.exactDomains.map normalizeDomain
  · simp [hexact, exactKeys, rank]
  · have hsuffix := Trie.findIdx?_inits_tail_reverse (nil_notMem_suffixKeys x.1)
      (fun q => decide_eq_true_iff (p := q ∈ x.1.suffixKeys)) (reversedLabels domain)
    rw [← suffixDepths_eq] at hsuffix
    simp only [exactKeys, hexact, Function.comp_def, hsuffix]
    cases (suffixDepths x.1 domain).max? with
    | some => simp [rank]
    | none =>
      by_cases hg : x.1.isGeneric
      · simp [hg, hgeneric.mp hg, rank]
      · simp [hg, mt hgeneric.mpr hg]

theorem rank_lt_iff {n : Nat} {a b : Specificity}
    (ha : ∀ depth, a = .suffix depth → 0 < depth ∧ depth ≤ n)
    (hb : ∀ depth, b = .suffix depth → 0 < depth ∧ depth ≤ n) : rank n a < rank n b ↔ a < b := by
  show _ ↔ a.before b = true
  cases a with
  | exact => cases b <;> simp [rank, before]
  | suffix d =>
    have hd := ha d rfl
    cases b with
    | exact => simp [rank, before]
    | suffix =>
      simp only [rank, before, decide_eq_true_eq]
      omega
    | generic =>
      simp only [rank, before, iff_true]
      omega
  | generic =>
    cases b with
    | exact | generic => simp [rank, before]
    | suffix =>
      simp only [rank, before, Bool.false_eq_true, iff_false]
      omega

/-- Two rules the flow might fall to stand in the order of their classes just
as they stand in the order of specificity. -/
theorem findIdx?_classes_lt_iff {x y : RouteRule ν × Nat} {domain : Option Str} {i j : Nat}
    {a b : Specificity} (hi : ((classes domain).findIdx? fun c => c x) = some i)
    (hj : ((classes domain).findIdx? fun c => c y) = some j) (ha : specificity x.1 domain = some a)
    (hb : specificity y.1 domain = some b) : i < j ↔ a < b := by
  cases domain with
  | none =>
    have hi0 : i = 0 := by simpa [classes] using (findIdx?_eq_some_iff_getElem.mp hi).1
    have hj0 : j = 0 := by simpa [classes] using (findIdx?_eq_some_iff_getElem.mp hj).1
    have hgeneric : ∀ {rule : RouteRule ν} {c : Specificity},
        specificity rule none = some c → c = .generic := by
      intro rule c hc
      unfold specificity at hc
      split at hc
      · exact (Option.some.inj hc).symm
      · cases hc
    rw [hi0, hj0, hgeneric ha, hgeneric hb]
    decide
  | some =>
    rw [findIdx?_classes, ha] at hi
    rw [findIdx?_classes, hb] at hj
    cases hi
    cases hj
    exact rank_lt_iff (fun _ h => specificity_suffix_bounds (h ▸ ha))
      fun _ h => specificity_suffix_bounds (h ▸ hb)

theorem findIdx?_classes_eq_none_iff (x : RouteRule ν × Nat) (domain : Option Str) :
    ((classes domain).findIdx? fun c => c x) = none ↔ specificity x.1 domain = none := by
  cases domain with
  | none => simp [classes, specificity, isGeneric]
  | some => rw [findIdx?_classes, map_eq_none_iff]

section Winner

variable [IpNet ν] (flow : FlowContext) (now : Option Nat)

theorem findIdx?_admitting (cs : List (RouteRule ν × Nat → Bool)) (x : RouteRule ν × Nat) :
    ((cs.map fun c x => c x && ruleMatches x.1 flow now).findIdx? fun c => c x) =
      if ruleMatches x.1 flow now then cs.findIdx? fun c => c x else none := by
  cases hm : ruleMatches x.1 flow now with
  | true => simp [Function.comp_def, hm]
  | false => simp [hm]

theorem priority_eq (x : RouteRule ν × Nat) :
    priority flow now x =
      if ruleMatches x.1 flow now then specificity x.1 flow.domain else none := by
  have hiff := ruleMatches_iff x.1 flow now
  split
  · next h => exact if_pos (hiff.mp h)
  · next h => exact if_neg (mt hiff.mpr h)

/-- The rule the index finds is the one the plain scan of the rule list
finds. -/
theorem matchRules_eq_winner (t : RouteTable ν) :
    t.matchRules flow now = (winner t.rules flow now).map ruleRef := by
  have hclasses : ((classes flow.domain).findSome? fun c => t.rules.zipIdx.find? fun x =>
      c x && ruleMatches x.1 flow now) = winner t.rules flow now := by
    have hscan := findSome?_find?_eq_scanMin
      ((classes flow.domain).map fun c x => c x && ruleMatches x.1 flow now) t.rules.zipIdx
    rw [findSome?_map] at hscan
    refine hscan.trans ?_
    simp only [findIdx?_admitting]
    refine scanMin_congr ?_ ?_ _
    · intro x
      rw [priority_eq]
      split
      · exact findIdx?_classes_eq_none_iff x flow.domain
      · exact iff_of_true rfl rfl
    · intro x y i j a b hi hj ha hb
      exact findIdx?_classes_lt_iff (ite_none_right_eq_some.mp hi).2
        (ite_none_right_eq_some.mp hj).2 (ite_none_right_eq_some.mp ha).2
        (ite_none_right_eq_some.mp hb).2
  rw [matchRules_eq_findSome?, hclasses]

end Winner

end Foxcore.Proofs
