import Foxcore.Proofs.RouteMatch

/-!
# The compiled table decides as the reference does

`decideAt_action` reads the stages of a decision off a table: the two flags
that save work disappear, the index is replaced by the scan, and the loop over
packages by `consensus`. It holds of every table, so the results about shared
UIDs and inferred names start from it too. For a compiled table the remaining
tables are the configuration's own lists, last entry first, and the reference
decision is reached.
-/

namespace Foxcore.Proofs

open Lib Ref Spec List RouteTable

variable {ν : Type}

/-! ## Application entries -/

/-- The action a table holds for a package at a given time. -/
def choice (t : RouteTable ν) (now : Option Nat) (package : Str) : Option RouteAction :=
  ((t.applications.lookup package).filter fun entry => entry.isActive now).map
    ApplicationEntry.action

/-- The loop with an action already in hand ends in it, unless a later package
disagrees or one without an entry would get something else. -/
theorem applicationScan_some (t : RouteTable ν) (now : Option Nat) (packages : List Str)
    (ref : ActionRef) (unconfigured : Bool) :
    (t.applicationScan now packages (some ref) unconfigured).map ActionRef.action =
      let choices := packages.map (choice t now)
      if ∃ other ∈ choices.reduceOption, other ≠ ref.action then some .block
      else if (unconfigured = true ∨ none ∈ choices) ∧ ref.action ≠ t.default then
        some .block
      else some ref.action := by
  induction packages generalizing unconfigured with
  | nil =>
    rw [applicationScan]
    by_cases h : unconfigured = true ∧ ref.action ≠ t.default
    · simp [h, blockRef]
    · simp [h]
  | cons package rest ih =>
    rw [applicationScan]
    cases hentry : (t.applications.lookup package).filter fun e => e.isActive now with
    | none =>
      have hchoice : choice t now package = none := by rw [choice, hentry]; rfl
      simp only [ih, map_cons, hchoice]
      simp
    | some entry =>
      have hchoice : choice t now package = some entry.action := by
        rw [choice, hentry]; rfl
      simp only [map_cons, hchoice]
      by_cases hne : ref.action = entry.action
      · simp only [hne, ne_eq, not_true_eq_false, if_false]
        rw [ih]
        simp [hne]
      · simp [hne, Ne.symm hne, blockRef]

theorem applicationScan_none (t : RouteTable ν) (now : Option Nat) (packages : List Str)
    (unconfigured : Bool) :
    (t.applicationScan now packages none unconfigured).map ActionRef.action =
      consensus t.default
        ((if unconfigured then [none] else []) ++ packages.map (choice t now)) := by
  induction packages generalizing unconfigured with
  | nil => cases unconfigured <;> rfl
  | cons package rest ih =>
    rw [applicationScan]
    cases hentry : (t.applications.lookup package).filter fun e => e.isActive now with
    | none =>
      have hchoice : choice t now package = none := by rw [choice, hentry]; rfl
      rw [ih, map_cons, hchoice]
      cases unconfigured <;> simp [consensus]
    | some entry =>
      have hchoice : choice t now package = some entry.action := by
        rw [choice, hentry]; rfl
      rw [applicationScan_some, map_cons, hchoice]
      cases unconfigured <;>
        simp [consensus]

theorem applicationVerdict_action (t : RouteTable ν) (flow : FlowContext) (now : Option Nat) :
    (t.applicationVerdict flow now).map ActionRef.action =
      consensus t.default (flow.attributed.map (choice t now)) := by
  rw [applicationVerdict]
  split
  · next hempty =>
    have hnone : ∀ package, choice t now package = none := by
      intro package
      have hkeys : t.applications.lookup package = none := by
        rw [AList.lookup_eq_none]
        intro hin
        have hnil : t.applications.keys = [] := by
          rw [AList.keys, List.isEmpty_iff.mp hempty]
          rfl
        rw [AList.mem_keys, hnil] at hin
        cases hin
      simp [choice, hkeys]
    have hred : (flow.attributed.map (choice t now)).reduceOption = [] := by
      simp [List.reduceOption, hnone]
    simp [consensus, hred]
  · rw [applicationScan_none]
    rfl

theorem gated_action (t : RouteTable ν) (ref : ActionRef) :
    (t.gated ref).action = gate t.torEnabled t.i2pEnabled ref.action := by
  unfold gated gate
  simp only [actionUsesTor, actionUsesI2p, Bool.or_eq_true, Bool.and_eq_true,
    Bool.not_eq_true', decide_eq_true_eq]
  split <;> rfl

/-! ## The stages of a decision -/

section Decide

variable [IpNet ν] (t : RouteTable ν) (flow : FlowContext) (now : Option Nat)

/-- The action of the winning rule. -/
noncomputable def chosen : Option RouteAction :=
  (winner t.rules flow now).map fun entry => entry.1.action

theorem matchRules_action : (t.matchRules flow now).map ActionRef.action = chosen t flow now := by
  rw [matchRules_eq_winner, Option.map_map]
  rfl

/-- A table without blocking rules has no blocking winner, so nothing is lost
by not looking for one. -/
theorem chosen_ne_block (h : t.hasBlockRules = false) : chosen t flow now ≠ some .block := by
  intro hblock
  obtain ⟨⟨rule, i⟩, hwin, hact⟩ := Option.map_eq_some_iff.mp hblock
  obtain ⟨hin, -⟩ := scanMin_some hwin
  have hmem : rule ∈ t.rules :=
    mem_of_getElem? (mem_zipIdx_iff_getElem?.mp hin)
  rw [t.hasBlockRules_eq, any_eq_false] at h
  exact h rule hmem (decide_eq_true hact)

/-- Whether the rules have been matched already makes no difference to the
later stages. -/
theorem decideUnblocked_action {matched : Option (Option ActionRef)}
    (h : matched.getD (t.matchRules flow now) = t.matchRules flow now) :
    (t.decideUnblocked flow now matched).action =
      if t.quarantine.any fun known => isQuarantined known flow then .block
      else
        match consensus t.default (flow.attributed.map (choice t now)) with
        | some action => gate t.torEnabled t.i2pEnabled action
        | none =>
          if t.default = .block then .block
          else gate t.torEnabled t.i2pEnabled ((chosen t flow now).getD t.default) := by
  rw [decideUnblocked, h, ← applicationVerdict_action]
  split
  · rfl
  · cases t.applicationVerdict flow now with
    | some ref => exact gated_action t ref
    | none =>
      simp only [Option.map_none]
      split
      · rfl
      · rw [gated_action, ← matchRules_action]
        cases t.matchRules flow now <;> rfl

/-- What every table decides, stage by stage. -/
theorem decideAt_action :
    (t.decideAt flow now).action =
      if t.killSwitch then .block
      else if chosen t flow now = some .block then .block
      else if t.quarantine.any fun known => isQuarantined known flow then .block
      else
        match consensus t.default (flow.attributed.map (choice t now)) with
        | some action => gate t.torEnabled t.i2pEnabled action
        | none =>
          if t.default = .block then .block
          else gate t.torEnabled t.i2pEnabled ((chosen t flow now).getD t.default) := by
  rw [decideAt]
  split
  · rfl
  · cases hflag : t.hasBlockRules with
    | false =>
      rw [if_neg (chosen_ne_block t flow now hflag)]
      exact decideUnblocked_action t flow now rfl
    | true =>
      have hlater : (t.decideUnblocked flow now
          (some (t.matchRules flow now))).action = _ :=
        decideUnblocked_action t flow now rfl
      simp only [if_true, Option.join_some]
      by_cases hblock : chosen t flow now = some .block
      · rw [if_pos hblock]
        rw [← matchRules_action] at hblock
        obtain ⟨ref, href, hact⟩ := Option.map_eq_some_iff.mp hblock
        simp [href, Option.filter, hact]
      · rw [if_neg hblock, ← hlater]
        rw [← matchRules_action, Option.map_eq_some_iff] at hblock
        rw [Option.filter_eq_none_iff.mpr]
        intro ref href hact
        exact hblock ⟨ref, href, by simpa using hact⟩

end Decide

/-! ## The clock

A table without deadlines never reads the clock, and would decide the same if
it did. -/

section Clock

variable (t : RouteTable ν) (flow : FlowContext) (now : Option Nat)

variable (h : t.hasExpiring = false)

include h

theorem expiresAtMs_of_mem {rule : RouteRule ν} (hin : rule ∈ t.rules) :
    rule.expiresAtMs = none := by
  rw [t.hasExpiring_eq, Bool.or_eq_false_iff, any_eq_false] at h
  simpa using h.1 rule hin

theorem isActive_of_lookup {package : Str} {entry : ApplicationEntry}
    (hin : t.applications.lookup package = some entry) : entry.isActive now = true := by
  rw [t.hasExpiring_eq, Bool.or_eq_false_iff, any_eq_false, any_eq_false] at h
  have hnone : entry.expiresAtMs = none := by
    simpa using h.2 entry ((HashMap.mem_values t.applications entry).mpr ⟨package, hin⟩)
  simp [ApplicationEntry.isActive, hnone]

theorem applicationScan_now (packages : List Str)
    (matched : Option ActionRef) (unconfigured : Bool) :
    t.applicationScan now packages matched unconfigured =
      t.applicationScan none packages matched unconfigured := by
  induction packages generalizing matched unconfigured with
  | nil => rfl
  | cons package rest ih =>
    have hfilter : ∀ n, ((t.applications.lookup package).filter fun e => e.isActive n) =
        t.applications.lookup package := by
      intro n
      cases hentry : t.applications.lookup package with
      | none => rfl
      | some => simp [isActive_of_lookup t n h hentry]
    simp only [applicationScan, hfilter, ih]

variable [IpNet ν]

theorem firstMatch_now (candidates : List Nat) :
    t.firstMatch candidates flow now = t.firstMatch candidates flow none := by
  rw [firstMatch]
  congr 1
  refine find?_congr fun x hx => ?_
  obtain ⟨i, -, hi⟩ := mem_filterMap.mp hx
  obtain ⟨rule, hrule, rfl⟩ := Option.map_eq_some_iff.mp hi
  have hnone := expiresAtMs_of_mem t h (mem_of_getElem? hrule)
  simp [ruleMatches, RouteRule.lapsed, hnone]

theorem matchRules_now : t.matchRules flow now = t.matchRules flow none := by
  simp only [matchRules, firstMatch_now t flow now h]

theorem decideAt_now : t.decideAt flow now = t.decideAt flow none := by
  have hverdict : t.applicationVerdict flow now = t.applicationVerdict flow none := by
    simp only [applicationVerdict, applicationScan_now t now h]
  simp only [decideAt, decideUnblocked, matchRules_now t flow now h,
    hverdict]

omit h in
theorem decide_eq_decideAt (clock : Nat) :
    t.decide clock flow = (t.decideAt flow (some clock)).action := by
  rw [RouteTable.decide]
  cases h : t.hasExpiring with
  | true => rfl
  | false => rw [decideAt_now t flow (some clock) h]; rfl

end Clock

/-! ## Compiled tables -/

section Compiled

variable (rules : List (RouteRule ν)) (vpn : RouteAction) (traffic : TrafficPolicyConfig)
  (tor i2p : Bool) (flow : FlowContext) (now : Option Nat)

theorem choice_compileWithTraffic (package : Str) :
    choice (compileWithTraffic rules vpn traffic tor i2p) now package =
      configured traffic vpn now package := by
  have hlookup : (compileApplications traffic vpn).lookup package =
      (traffic.applications.reverse.find? fun a => a.package = package).map fun a =>
        ⟨applicationAction a.action vpn, a.expiresAtMs⟩ := by
    rw [compileApplications, HashMap.lookup_collect, ← map_reverse, find?_map,
      Option.map_map]
    rfl
  show (((compileApplications traffic vpn).lookup package).filter _).map _ = _
  rw [hlookup, configured]
  cases traffic.applications.reverse.find? fun a => decide (a.package = package) with
  | none => rfl
  | some a =>
    have hactive : ApplicationEntry.isActive
        ⟨applicationAction a.action vpn, a.expiresAtMs⟩ now =
          decide (∀ expires ∈ a.expiresAtMs, ∀ n ∈ now, n < expires) := by
      unfold ApplicationEntry.isActive
      cases a.expiresAtMs <;> cases now <;> simp
    simp only [Option.map_some, Option.filter_some, hactive]
    split <;> rfl

theorem heldBack_collect_iff (package : Str) :
    heldBack (HashMap.collect (traffic.knownApps.map fun app =>
        (app.package, app.signingDigest.bind decodeSigningDigest))) flow package = true ↔
      ¬ Cleared traffic flow package := by
  unfold heldBack Cleared
  rw [HashMap.lookup_collect, ← map_reverse, find?_map]
  simp only [Function.comp_def]
  cases traffic.knownApps.reverse.find? fun a => decide (a.package = package) with
  | none => simp
  | some app =>
    cases hdigest : app.signingDigest.bind decodeSigningDigest with
    | none | some digest => simp [hdigest]

theorem isQuarantined_compile_iff :
    (compileQuarantine traffic).any (fun known => isQuarantined known flow) = true ↔
      Quarantined traffic flow := by
  unfold compileQuarantine Quarantined
  cases traffic.quarantineNewApps with
  | false => simp
  | true =>
    simp only [if_true, Option.any_some, isQuarantined, Bool.or_eq_true, true_and,
      List.isEmpty_iff, any_eq_true, heldBack_collect_iff]

theorem decideAt_compile [IpNet ν] :
    ((compileWithTraffic rules vpn traffic tor i2p).decideAt flow now).action =
      decision rules vpn traffic tor i2p flow now := by
  have hchoice : choice (compileWithTraffic rules vpn traffic tor i2p) now =
      configured traffic vpn now :=
    funext fun package =>
      choice_compileWithTraffic rules vpn traffic tor i2p now package
  have hquarantine := isQuarantined_compile_iff traffic flow
  rw [decideAt_action, hchoice, decision]
  simp only [← hquarantine]
  rfl

/-- The compiled table and the reference agree on every policy, flow and clock
reading, and consulting the clock only when something expires changes
nothing. -/
theorem compileWithTraffic_decides_reference [IpNet ν] :
    (∀ nowMs, ((RouteTable.compileWithTraffic rules vpn traffic tor i2p).decideAt flow
        nowMs).action = decision rules vpn traffic tor i2p flow nowMs) ∧
      ∀ clock,
        (RouteTable.compileWithTraffic rules vpn traffic tor i2p).decide clock flow =
          ((RouteTable.compileWithTraffic rules vpn traffic tor i2p).decideAt flow
            (some clock)).action ∧
        (RouteTable.compileWithTraffic rules vpn traffic tor i2p).decide clock flow =
          decision rules vpn traffic tor i2p flow (some clock) := by
  refine ⟨fun nowMs => decideAt_compile rules vpn traffic tor i2p flow nowMs,
    fun clock => ⟨decide_eq_decideAt _ flow clock, ?_⟩⟩
  rw [decide_eq_decideAt]
  exact decideAt_compile rules vpn traffic tor i2p flow (some clock)

end Compiled

end Foxcore.Proofs
