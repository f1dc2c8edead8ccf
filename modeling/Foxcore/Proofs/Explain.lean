import Foxcore.Lib.Words
import Foxcore.Ref.Explain
import Foxcore.Proofs.RouteMatch

/-!
# An explanation agrees with its decision

The rule an explanation names is the winner of `matchRules_eq_winner`. The rules
it calls passed over are those the index offers: a rule is offered for a name
exactly when one of its own names fits it, whether fitting is a walk down the
trie or a comparison of texts (`endsInSuffix_iff`).
-/

namespace Foxcore.Proofs

open Lib Ref Spec List

variable {ν : Type}

/-! ## Texts and labels -/

theorem stripSuffix_eq_some_iff {suffix s front : Str} :
    Str.stripSuffix suffix s = some front ↔ s = front ++ suffix := by
  rw [Str.stripSuffix, Option.ite_none_right_eq_some, Option.some.injEq]
  constructor
  · rintro ⟨⟨u, rfl⟩, rfl⟩
    simp
  · rintro rfl
    exact ⟨suffix_append _ _, by simp⟩

/-- What ends in a dot and the suffix ends in the labels of the suffix. -/
theorem endsInSuffix_iff {domain suffix : Str} :
    endsInSuffix domain suffix = true ↔ reversedLabels suffix <+: reversedLabels domain := by
  have hdot : (∃ front, Str.stripSuffix suffix domain = some front ∧ front.getLast? = some dot) ↔
      ∃ u, domain = u ++ dot :: suffix := by
    simp only [stripSuffix_eq_some_iff]
    constructor
    · rintro ⟨front, rfl, hlast⟩
      obtain ⟨u, rfl⟩ := getLast?_eq_some_iff.mp hlast
      exact ⟨u, append_assoc _ _ _⟩
    · rintro ⟨u, rfl⟩
      exact ⟨u ++ [dot], by simp, by simp⟩
  rw [endsInSuffix, decide_eq_true_iff, Option.any_eq_true]
  simp only [decide_eq_true_eq, hdot]
  rw [reversedLabels, reversedLabels, reverse_prefix]
  constructor
  · rintro (rfl | ⟨u, rfl⟩)
    · exact suffix_rfl
    · exact ⟨Str.split dot u, (splitOn_append_sep u suffix).symm⟩
  · rintro ⟨ws, hws⟩
    have hdomain : [dot].intercalate (Str.split dot domain) = domain := intercalate_splitOn dot
    by_cases hnil : ws = []
    · rw [hnil] at hws
      exact .inl (splitOn_injective hws).symm
    · refine .inr ⟨[dot].intercalate ws, ?_⟩
      rw [← hdomain, ← hws, Str.split, intercalate_append hnil (splitOn_ne_nil _ _),
        intercalate_splitOn]

/-! ## What the index offers -/

/-- The positions the index holds for a name. -/
def offered (t : RouteTable ν) (domain : Option Str) : List Nat :=
  (domain.elim [] fun domain =>
    (t.index.exactDomains.lookup domain).getD [] ++ t.index.suffixDomains.collect domain) ++
      t.index.fallback

theorem eq_of_position {α : Type} {l : List α} {x y : α × Nat} (hx : x ∈ l.zipIdx)
    (hy : y ∈ l.zipIdx) (h : y.2 = x.2) : y = x := by
  rw [mem_zipIdx_iff_getElem?] at hx hy
  rw [h, hx] at hy
  exact Prod.ext (Option.some.inj hy).symm h

theorem mem_filed_iff {κ : Type} [BEq κ] [LawfulBEq κ] {keys : RouteRule ν → List κ} {key : κ}
    {rules : List (RouteRule ν)} {x : RouteRule ν × Nat} (hx : x ∈ rules.zipIdx) :
    x.2 ∈ filed keys key rules.zipIdx ↔ key ∈ keys x.1 := by
  simp only [filed, mem_flatMap, mem_replicate, ← Nat.pos_iff_ne_zero, count_pos_iff]
  constructor
  · rintro ⟨y, hy, hkey, heq⟩
    rwa [eq_of_position hx hy heq.symm] at hkey
  · exact fun hkey => ⟨x, hx, hkey, rfl⟩

theorem mem_offered_iff (t : RouteTable ν) {x : RouteRule ν × Nat} (hx : x ∈ t.rules.zipIdx)
    (domain : Option Str) : x.2 ∈ offered t domain ↔ x.1.fitsName domain = true := by
  have hgeneric : x.2 ∈ t.index.fallback ↔ x.1.isGeneric = true := by
    rw [t.indexed.generic, mem_map]
    constructor
    · rintro ⟨y, hy, heq⟩
      obtain ⟨hin, hy⟩ := mem_filter.mp hy
      rwa [eq_of_position hx hin heq] at hy
    · exact fun h => ⟨x, mem_filter.mpr ⟨hx, h⟩, rfl⟩
  rw [offered, mem_append, hgeneric, RouteRule.fitsName, Bool.or_eq_true, or_comm]
  refine or_congr_right ?_
  cases domain with
  | none => simp
  | some domain =>
    have hsuffix : x.2 ∈ t.index.suffixDomains.collect domain ↔
        ∃ suffix ∈ x.1.domainSuffixes, endsInSuffix domain (normalizeDomain suffix) = true := by
      rw [SuffixNode.collect, Trie.levels_reverse_flatten]
      simp only [mem_flatMap, mem_reverse, t.indexed.suffix, mem_filed_iff hx, endsInSuffix_iff]
      constructor
      · rintro ⟨q, hq, hkey⟩
        obtain ⟨suffix, hin, rfl⟩ := mem_map.mp hkey
        exact ⟨suffix, hin, (mem_inits _ _).mp (mem_of_mem_tail hq)⟩
      · rintro ⟨suffix, hin, hbegins⟩
        have hkey : reversedLabels (normalizeDomain suffix) ∈ x.1.suffixKeys := mem_map_of_mem hin
        refine ⟨_, ?_, hkey⟩
        have hinit := (mem_inits _ _).mpr hbegins
        rw [← cons_head?_tail (by cases reversedLabels domain <;> rfl : (inits _).head? = some [])]
          at hinit
        exact (mem_cons.mp hinit).resolve_left (reversedLabels_ne_nil _)
    simp only [Option.elim_some, mem_append, hsuffix, t.indexed.exact, mem_filed_iff hx,
      RouteRule.exactKeys, mem_map, Option.any_some, Bool.or_eq_true, any_eq_true,
      decide_eq_true_eq]

/-! ## The explanation -/

/-- For every table, flow and reading of the clock an explanation agrees with the
decision: it gives the decided action, names the rule of best specificity, says
whether the decision is that rule's, and lists the other blocking rules that
the index would offer for the flow and that match it. -/
theorem explain_agrees [IpNet ν] (t : RouteTable ν) (clock : Nat) (flow : FlowContext) :
    let now := if t.hasExpiring then some clock else none
    let e := t.explain clock flow
    e.action = t.decide clock flow ∧
    e.routeRuleIndex = (winner t.rules flow now).map Prod.snd ∧
    (e.routeRuleApplied = true ↔
      ∃ entry, winner t.rules flow now = some entry ∧
        (t.decideAt flow now).origin = .rule entry.2) ∧
    ∀ index, index ∈ e.shadowedBlockRules ↔ some index ≠ e.routeRuleIndex ∧
      index ∈ offered t flow.domain ∧ ∃ rule, t.rules[index]? = some rule ∧
        rule.action = .block ∧ ruleMatches rule flow now = true := by
  intro now e
  have hcandidate := matchRules_eq_winner flow now t
  refine ⟨rfl, ?_, ?_, ?_⟩
  · show (t.matchRules flow now).bind _ = _
    rw [hcandidate]
    cases hwinner : winner t.rules flow now with
    | none => rfl
    | some entry =>
      have hin := mem_zipIdx_iff_getElem?.mp (scanMin_some hwinner).1
      have hlt := (List.getElem?_eq_some_iff.mp hin).1
      show (List.range _).find? _ = some entry.2
      rw [find?_range_eq_some]
      simp only [ruleRef, decide_eq_true_eq, mem_range]
      refine ⟨trivial, hlt, fun j hj => ?_⟩
      have hne : j ≠ entry.2 := Nat.ne_of_lt hj
      simp [hne]
  · show (t.matchRules flow now).any _ = true ↔ _
    rw [Option.any_eq_true]
    constructor
    · rintro ⟨ref, href, hsame⟩
      rw [hcandidate] at href
      obtain ⟨entry, hwinner, rfl⟩ := Option.map_eq_some_iff.mp href
      exact ⟨entry, hwinner, (of_decide_eq_true hsame).symm⟩
    · rintro ⟨entry, hwinner, hdecided⟩
      refine ⟨ruleRef entry, ?_, ?_⟩
      · rw [hcandidate, hwinner]
        rfl
      · exact decide_eq_true hdecided.symm
  · intro index
    show index ∈ map _ (filter _ _) ↔ _
    simp only [mem_map, mem_filter, Bool.and_eq_true, decide_eq_true_eq]
    constructor
    · rintro ⟨x, ⟨hx, ⟨⟨hother, hblocks⟩, hmatches⟩, hfits⟩, rfl⟩
      exact ⟨hother, (mem_offered_iff t hx _).mpr hfits, x.1, mem_zipIdx_iff_getElem?.mp hx,
        of_decide_eq_true hblocks, hmatches⟩
    · rintro ⟨hother, hoffered, rule, hrule, hblocks, hmatches⟩
      have hx : (rule, index) ∈ t.rules.zipIdx := mem_zipIdx_iff_getElem?.mpr hrule
      exact ⟨(rule, index), ⟨hx, ⟨⟨hother, decide_eq_true hblocks⟩, hmatches⟩,
        (mem_offered_iff t hx _).mp hoffered⟩, rfl⟩

end Foxcore.Proofs
