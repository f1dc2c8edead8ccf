import Foxcore.Proofs.RouteDecision

/-!
# Flows of a shared UID

Several applications can run under one UID, and then nobody can tell which of
them opened a flow. The order in which the platform lists them makes no
difference: a decision asks which packages there are, never which comes first
(`decide_attributedTo_perm`).

A flow that is let out directly for the whole list should have been let out
directly for each member. An application entry guarantees it, since entries
that disagree block the flow. A package without an entry is another matter.
The loop over packages takes such a package to get the default action, and
calls the list agreed when the others chose that action too; on its own the
package would have been handed to the route rules, which may say Tor, or
block. `sharedUid_direct_iff` states exactly when the list is safe.
-/

namespace Foxcore.Proofs

open Lib Ref Spec List

variable {P Q : List Str}

/-! ## Consensus is a matter of membership -/

section Consensus

variable {default : RouteAction} {choices choices' : List (Option RouteAction)}

theorem consensus_of_all_none (h : ∀ c ∈ choices, c = none) : consensus default choices = none := by
  have hnil : choices.reduceOption = [] := by
    rw [List.reduceOption, filterMap_eq_nil_iff]
    intro c hc
    exact h c hc
  simp [consensus, hnil]

theorem consensus_of_conflict {a b : RouteAction} (ha : some a ∈ choices) (hb : some b ∈ choices)
    (hne : a ≠ b) : consensus default choices = some .block := by
  rw [← reduceOption_mem_iff] at ha hb
  rw [consensus]
  cases hred : choices.reduceOption with
  | nil =>
    rw [hred] at ha
    cases ha
  | cons x =>
    rw [hred, mem_cons] at ha hb
    simp only []
    rw [if_pos]
    by_cases hx : a = x
    · subst hx
      rcases hb with hb | hb
      · exact absurd hb.symm hne
      · exact ⟨b, hb, Ne.symm hne⟩
    · exact ⟨a, ha.resolve_left hx, hx⟩

theorem consensus_of_agreement {a : RouteAction} (ha : some a ∈ choices)
    (hall : ∀ b, some b ∈ choices → b = a) :
    consensus default choices =
      if none ∈ choices ∧ a ≠ default then some .block else some a := by
  have hred : ∀ b ∈ choices.reduceOption, b = a := fun b hb =>
    hall b (reduceOption_mem_iff.mp hb)
  rw [← reduceOption_mem_iff] at ha
  rw [consensus]
  cases h : choices.reduceOption with
  | nil =>
    rw [h] at ha
    cases ha
  | cons x =>
    rw [h] at hred
    obtain rfl := hred x (by simp)
    simp only []
    rw [if_neg]
    rintro ⟨other, hother, hne⟩
    exact hne (hred other (mem_cons_of_mem _ hother))

/-- The three shapes a set of choices can have. -/
theorem choices_cases (choices : List (Option RouteAction)) :
    (∀ c ∈ choices, c = none) ∨
      (∃ a b, some a ∈ choices ∧ some b ∈ choices ∧ a ≠ b) ∨
      ∃ a, some a ∈ choices ∧ ∀ b, some b ∈ choices → b = a := by
  by_cases hnone : ∀ c ∈ choices, c = none
  · exact .inl hnone
  · push Not at hnone
    obtain ⟨c, hc, hne⟩ := hnone
    obtain ⟨a, rfl⟩ := Option.ne_none_iff_exists'.mp hne
    by_cases hall : ∀ b, some b ∈ choices → b = a
    · exact .inr (.inr ⟨a, hc, hall⟩)
    · push Not at hall
      obtain ⟨b, hb, hba⟩ := hall
      exact .inr (.inl ⟨b, a, hb, hc, hba⟩)

theorem consensus_eq_none_iff : consensus default choices = none ↔ ∀ c ∈ choices, c = none := by
  refine ⟨fun h => ?_, consensus_of_all_none⟩
  rcases choices_cases choices with hnone | ⟨a, b, ha, hb, hne⟩ | ⟨a, ha, hall⟩
  · exact hnone
  · rw [consensus_of_conflict ha hb hne] at h
    cases h
  · rw [consensus_of_agreement ha hall] at h
    split at h
    · cases h
    · cases h

theorem consensus_congr (h : ∀ c, c ∈ choices ↔ c ∈ choices') :
    consensus default choices = consensus default choices' := by
  rcases choices_cases choices with hnone | ⟨a, b, ha, hb, hne⟩ | ⟨a, ha, hall⟩
  · rw [consensus_of_all_none hnone,
      consensus_of_all_none fun c hc => hnone c ((h c).mpr hc)]
  · rw [consensus_of_conflict ha hb hne,
      consensus_of_conflict ((h _).mp ha) ((h _).mp hb) hne]
  · rw [consensus_of_agreement ha hall,
      consensus_of_agreement ((h _).mp ha) fun b hb => hall b ((h _).mpr hb)]
    simp only [h]

end Consensus

/-! ## The order of the packages -/

section Order

variable {ν : Type} [IpNet ν] (t : RouteTable ν) (now : Option Nat) (flow : FlowContext)

@[simp]
theorem attributed_attributedTo (packages : List Str) :
    (flow.attributedTo packages).attributed = packages := by
  cases packages with
  | nil => rfl
  | cons => simp [FlowContext.attributed, FlowContext.attributedTo]

variable (h : ∀ p, p ∈ P ↔ p ∈ Q)

include h

theorem admits_attributedTo_congr (rule : RouteRule ν) :
    Admits rule (flow.attributedTo P) now ↔ Admits rule (flow.attributedTo Q) now := by
  have himp : ∀ {P Q : List Str}, (∀ p, p ∈ P ↔ p ∈ Q) →
      Admits rule (flow.attributedTo P) now → Admits rule (flow.attributedTo Q) now := by
    intro P Q h hadm
    refine ⟨hadm.unexpired, hadm.uid, fun p hp => .inr ((h p).mp ?_), hadm.network,
      hadm.transport, hadm.ports, hadm.cidrs⟩
    exact (hadm.package p hp).elim mem_of_head? id
  exact ⟨himp h, himp fun p => (h p).symm⟩

theorem chosen_attributedTo_congr :
    chosen t (flow.attributedTo P) now = chosen t (flow.attributedTo Q) now := by
  have hpriority : priority (ν := ν) (flow.attributedTo P) now =
      priority (flow.attributedTo Q) now := by
    funext x
    have hadm := admits_attributedTo_congr now flow h x.1
    unfold priority
    by_cases hP : Admits x.1 (flow.attributedTo P) now
    · rw [if_pos hP, if_pos (hadm.mp hP)]
      rfl
    · rw [if_neg hP, if_neg (mt hadm.mpr hP)]
  simp only [chosen, winner, hpriority]

theorem isQuarantined_attributedTo_congr (known : HashMap Str (Option (List UInt8))) :
    isQuarantined known (flow.attributedTo P) = isQuarantined known (flow.attributedTo Q) := by
  have hnil : P = [] ↔ Q = [] := by
    simp only [eq_nil_iff_forall_not_mem, h]
  rw [Bool.eq_iff_iff]
  simp only [isQuarantined, attributed_attributedTo, Bool.or_eq_true, List.isEmpty_iff,
    any_eq_true, h, hnil]
  rfl

theorem decideAt_attributedTo_congr : (t.decideAt (flow.attributedTo P) now).action =
      (t.decideAt (flow.attributedTo Q) now).action := by
  have hconsensus : consensus t.default (P.map (choice t now)) =
      consensus t.default (Q.map (choice t now)) := by
    refine consensus_congr fun c => ?_
    simp [h]
  simp only [decideAt_action, attributed_attributedTo, hconsensus,
    chosen_attributedTo_congr t now flow h, isQuarantined_attributedTo_congr flow h]

end Order

/-! ## When a flow is let out directly -/

section Direct

theorem gate_eq_direct_iff {tor i2p : Bool} {action : RouteAction} :
    gate tor i2p action = .direct ↔ action = .direct := by
  rw [gate]
  split
  · next h =>
    refine ⟨nofun, ?_⟩
    rintro rfl
    simp at h
  · rfl

theorem consensus_eq_direct_iff {default : RouteAction} {choices : List (Option RouteAction)} :
    consensus default choices = some .direct ↔
      some .direct ∈ choices ∧
        ∀ c ∈ choices, c = some .direct ∨ c = none ∧ default = .direct := by
  rcases choices_cases choices with hnone | ⟨a, b, ha, hb, hne⟩ | ⟨a, ha, hall⟩
  · rw [consensus_of_all_none hnone]
    exact ⟨nofun, fun h => absurd (hnone _ h.1) nofun⟩
  · rw [consensus_of_conflict ha hb hne]
    refine ⟨nofun, fun h => ?_⟩
    have hdirect : ∀ {x}, some x ∈ choices → x = .direct := by
      intro x hx
      rcases h.2 _ hx with h | ⟨h, -⟩
      · exact Option.some.inj h
      · cases h
    exact absurd ((hdirect ha).trans (hdirect hb).symm) hne
  · rw [consensus_of_agreement ha hall]
    by_cases hmixed : none ∈ choices ∧ a ≠ default
    · rw [if_pos hmixed]
      refine ⟨nofun, fun h => ?_⟩
      obtain rfl := hall _ h.1
      rcases h.2 _ hmixed.1 with h | ⟨-, h⟩
      · cases h
      · exact absurd h.symm hmixed.2
    · rw [if_neg hmixed]
      refine ⟨fun h => ?_, fun h => by rw [hall _ h.1]⟩
      cases h
      refine ⟨ha, fun c hc => ?_⟩
      cases c with
      | none =>
        rw [not_and, not_not] at hmixed
        exact .inr ⟨rfl, (hmixed hc).symm⟩
      | some x => exact .inl (by rw [hall x hc])

variable {ν : Type} [IpNet ν]

/-- The policy lets the flow out directly: nothing denies it, and either its
packages chose so, the ones without a choice getting it by default, or none of
them chose and the winning rule, or the default, says so. -/
structure Clear (t : RouteTable ν) (flow : FlowContext) (now : Option Nat) : Prop where
  notKilled : t.killSwitch = false
  notBlocked : chosen t flow now ≠ some .block
  notQuarantined : (t.quarantine.any fun known => isQuarantined known flow) = false
  direct :
    ((∃ p ∈ flow.attributed, choice t now p = some .direct) ∧
      ∀ p ∈ flow.attributed,
        choice t now p = some .direct ∨ choice t now p = none ∧ t.default = .direct) ∨
    ((∀ p ∈ flow.attributed, choice t now p = none) ∧ t.default ≠ .block ∧
      (chosen t flow now).getD t.default = .direct)

theorem decideAt_eq_direct_iff (t : RouteTable ν) (flow : FlowContext) (now : Option Nat) :
    (t.decideAt flow now).action = .direct ↔ Clear t flow now := by
  have hmem : ∀ {P : Option RouteAction → Prop},
      (∀ c ∈ flow.attributed.map (choice t now), P c) ↔
        ∀ p ∈ flow.attributed, P (choice t now p) := by
    simp
  have hdirect : consensus t.default (flow.attributed.map (choice t now)) =
      some .direct ↔ _ := consensus_eq_direct_iff
  rw [mem_map, hmem] at hdirect
  rw [decideAt_action]
  constructor
  · intro h
    split at h
    · cases h
    next hkill =>
    split at h
    · cases h
    next hblock =>
    split at h
    · cases h
    next hquarantine =>
    refine ⟨by simpa using hkill, hblock, by simpa using hquarantine, ?_⟩
    cases hc : consensus t.default (flow.attributed.map (choice t now)) with
    | some =>
      rw [hc] at h
      obtain rfl := gate_eq_direct_iff.mp h
      exact .inl (hdirect.mp hc)
    | none =>
      rw [hc] at h
      simp only [] at h
      split at h
      · cases h
      next hdefault =>
      exact .inr ⟨hmem.mp (consensus_eq_none_iff.mp hc), hdefault,
        gate_eq_direct_iff.mp h⟩
  · intro h
    rw [if_neg (by simp [h.notKilled]), if_neg h.notBlocked,
      if_neg (by simp [h.notQuarantined])]
    rcases h.direct with hchosen | ⟨hnone, hdefault, hwinner⟩
    · rw [hdirect.mpr hchosen]
      exact gate_eq_direct_iff.mpr rfl
    · rw [consensus_eq_none_iff.mpr (hmem.mpr hnone)]
      rw [if_neg hdefault]
      exact gate_eq_direct_iff.mpr hwinner

/-- Of a flow let out directly for a list of packages, one member alone would
have been let out directly just when the rule that wins for it alone does not
block and, if the member has no entry of its own, that rule or the default is
direct. -/
theorem clear_single_iff {t : RouteTable ν} {flow : FlowContext} {now : Option Nat}
    (h : Clear t (flow.attributedTo P) now) {p : Str} (hp : p ∈ P) :
    Clear t (flow.attributedTo [p]) now ↔
      chosen t (flow.attributedTo [p]) now ≠ some .block ∧
        (choice t now p = none →
          (chosen t (flow.attributedTo [p]) now).getD t.default = .direct) := by
  constructor
  · intro hsingle
    refine ⟨hsingle.notBlocked, fun hnone => ?_⟩
    rcases hsingle.direct with ⟨⟨q, hq, hqd⟩, -⟩ | ⟨-, -, hwinner⟩
    · obtain rfl : q = p := by simpa using hq
      rw [hnone] at hqd
      cases hqd
    · exact hwinner
  · rintro ⟨hblock, hwinner⟩
    refine ⟨h.notKilled, hblock, ?_, ?_⟩
    · have hquarantine := h.notQuarantined
      cases hknown : t.quarantine with
      | none => rfl
      | some known =>
        rw [hknown] at hquarantine
        simp only [Option.any_some, isQuarantined, attributed_attributedTo,
          Bool.or_eq_false_iff, any_eq_false] at hquarantine
        have hheld : heldBack known flow p = false :=
          Bool.eq_false_iff.mpr (hquarantine.2 p hp)
        simp only [isQuarantined, attributed_attributedTo, any_cons, any_nil, Bool.or_false]
        exact hheld
    · have hdirect := h.direct
      rw [attributed_attributedTo] at hdirect
      rcases hdirect with ⟨-, hall⟩ | ⟨hnone, hdefault, -⟩
      · rcases hall p hp with hp' | ⟨hp', hdefault⟩
        · exact .inl ⟨⟨p, by simp, hp'⟩, by simpa using .inl hp'⟩
        · exact .inr ⟨by simpa using hp', by simp [hdefault], hwinner hp'⟩
      · exact .inr ⟨by simpa using hnone p hp, hdefault, hwinner (hnone p hp)⟩

/-- The order of a UID's packages does not matter, and a direct decision for
all of them is one for each of them just when, for each, the rule that wins
for it alone does not block and, where it has no entry, leaves it direct. -/
theorem sharedUid_direct_iff (t : RouteTable ν) (clock : Nat) (flow : FlowContext) (P : List Str) :
    (∀ Q, Q.Perm P →
      t.decide clock (flow.attributedTo Q) = t.decide clock (flow.attributedTo P)) ∧
    ((t.decide clock (flow.attributedTo P) = .direct →
        ∀ p ∈ P, t.decide clock (flow.attributedTo [p]) = .direct) ↔
      (Clear t (flow.attributedTo P) (some clock) →
        ∀ p ∈ P, chosen t (flow.attributedTo [p]) (some clock) ≠ some .block ∧
          (choice t (some clock) p = none →
            (chosen t (flow.attributedTo [p]) (some clock)).getD t.default = .direct))) := by
  simp only [decide_eq_decideAt, decideAt_eq_direct_iff]
  refine ⟨fun Q hQ => ?_, ?_⟩
  · exact decideAt_attributedTo_congr t (some clock) flow fun p => hQ.mem_iff
  · exact forall_congr' fun hclear => forall₂_congr fun p hp => clear_single_iff hclear hp

/-! ## A leak -/

/-- A device that sends everything out directly except one site, which goes
through Tor, and whose user allowed one application `a` directly. -/
def leakyTable : RouteTable Cidr :=
  RouteTable.compileWithTraffic
    [{ domainSuffixes := [Str.ofChars ['b', '.', 'c']], action := .tor }]
    (.outbound (Str.ofChars ['v']))
    { defaultAction := .direct
      applications := [{ package := Str.ofChars ['a'], action := .direct }] }
    true true

/-- A flow to that site. -/
def leakyFlow : FlowContext where
  transport := .tcp
  destination := ⟨Str.ofChars ['x', '.', 'b', '.', 'c'], 443⟩

/-- Sharing a UID with `a`, application `z` reaches the site in the clear; on
its own it is sent through Tor. -/
theorem sharedUid_leak :
    leakyTable.decide 0
        (leakyFlow.attributedTo [Str.ofChars ['a'], Str.ofChars ['z']]) = .direct ∧
      leakyTable.decide 0 (leakyFlow.attributedTo [Str.ofChars ['z']]) = .tor := by
  decide

theorem sharedUid_leak_swapped :
    leakyTable.decide 0
        (leakyFlow.attributedTo [Str.ofChars ['z'], Str.ofChars ['a']]) =
      leakyTable.decide 0
        (leakyFlow.attributedTo [Str.ofChars ['a'], Str.ofChars ['z']]) :=
  (sharedUid_direct_iff leakyTable 0 leakyFlow
    [Str.ofChars ['a'], Str.ofChars ['z']]).1 _ (List.Perm.swap _ _ [])

end Direct

end Foxcore.Proofs
