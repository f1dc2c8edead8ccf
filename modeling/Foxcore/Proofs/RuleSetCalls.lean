import Foxcore.Lib.Fallible
import Foxcore.Spec.RuleSetAudit

/-!
# What the store does with bundles

The verifier takes a bundle only under the name it is asked for and at or above
the floor it is given (`verifyRuleSet_ok`). `admitBundle_ok` and
`activeRuleSetArtifacts_ok` say what passes the store's checks and what is put
in force, and `reload_cases` and `install_cases` everything the two calls can
come to.
-/

namespace Foxcore.Proofs

open Lib Ref Spec List Option RuleSetVerifier

variable {ruleSets : List DnsRuleSetConfig} {previous : Option VerifiedRuleSetMetadata}

/-! ## The verifier -/

/-- What a store relies on: a verified bundle goes by the name asked for, is not
below the floor, and has the digest of the key. -/
class LawfulVerifier (α : Type) [RuleSetVerifier α] : Prop where
  verified {bundle : RuleSetBundle} {key : List UInt8} {name : Str} {floor now : Nat}
    {ruleSet : VerifiedRuleSet α} :
    verifyRuleSet bundle key name floor now = .ok ruleSet →
      ruleSet.metadata.name = name ∧ floor ≤ ruleSet.metadata.sequence ∧
        ruleSet.metadata.publicKeySha256 = sha256 α key

section

variable [RuleSetCrates] {μ : Type} [Transducer μ UInt8 Flags] [StoredTransducer μ]

variable {publicKey manifestBytes artifactBytes : List UInt8} {policy : RuleSetVerificationPolicy}
  {ruleSet : VerifiedRuleSet (ParsedRuleSet μ)}

/-- What a policy asks of a bundle signed with a key. -/
def Meets (policy : RuleSetVerificationPolicy) (publicKey : List UInt8)
    (metadata : VerifiedRuleSetMetadata) : Prop :=
  metadata.name = policy.expectedName ∧ policy.minimumSequence ≤ metadata.sequence ∧
    metadata.publicKeySha256 = (RuleSetCrates.sha256 publicKey).1

theorem validateManifest_ok {manifest : Manifest} {artifact : List UInt8}
    (h : validateManifest manifest publicKey artifact policy = .ok ()) :
    manifest.name = policy.expectedName ∧ policy.minimumSequence ≤ manifest.sequence := by
  obtain ⟨-, h⟩ := check_ok_iff.mp h
  obtain ⟨hidentity, h⟩ := check_ok_iff.mp h
  obtain ⟨hfloor, -⟩ := check_ok_iff.mp h
  simp only [not_or, not_not] at hidentity
  exact ⟨hidentity.1, Nat.not_lt.mp hfloor⟩

theorem verifyPlain_ok
    (h : verifyPlain manifestBytes publicKey artifactBytes policy = .ok ruleSet) :
    Meets policy publicKey ruleSet.metadata := by
  rw [verifyPlain] at h
  cases hread : RuleSetCrates.readManifest manifestBytes with
  | none =>
    rw [hread] at h
    cases h
  | some =>
    rw [hread] at h
    obtain ⟨_, hmanifest, h⟩ := bind_ok_iff.mp h
    obtain ⟨artifact, -, h⟩ := bind_ok_iff.mp h
    obtain ⟨-, h⟩ := check_ok_iff.mp h
    cases h
    obtain ⟨hname, hfloor⟩ := validateManifest_ok hmanifest
    exact ⟨hname, hfloor, rfl⟩

theorem verifyCategorized_ok
    (h : verifyCategorized manifestBytes publicKey artifactBytes policy = .ok ruleSet) :
    Meets policy publicKey ruleSet.metadata := by
  rw [verifyCategorized] at h
  cases hread : RuleSetCrates.categorizedJson.read manifestBytes with
  | none =>
    rw [hread] at h
    cases h
  | some =>
    rw [hread] at h
    obtain ⟨-, h⟩ := check_ok_iff.mp h
    obtain ⟨-, h⟩ := check_ok_iff.mp h
    obtain ⟨hidentity, h⟩ := check_ok_iff.mp h
    obtain ⟨available, -, h⟩ := bind_ok_iff.mp h
    obtain ⟨_, -, h⟩ := bind_ok_iff.mp h
    obtain ⟨hfloor, h⟩ := check_ok_iff.mp h
    obtain ⟨_, -, h⟩ := bind_ok_iff.mp h
    obtain ⟨-, h⟩ := check_ok_iff.mp h
    obtain ⟨-, h⟩ := check_ok_iff.mp h
    obtain ⟨artifact, -, h⟩ := bind_ok_iff.mp h
    obtain ⟨counts, -, h⟩ := bind_ok_iff.mp h
    obtain ⟨-, h⟩ := check_ok_iff.mp h
    cases h
    simp only [not_or, not_not, Nat.not_lt] at hidentity hfloor
    exact ⟨hidentity.1, hfloor.2, rfl⟩

theorem verifyRuleSet_ok {signature : List UInt8}
    (h : verifyRuleSet manifestBytes signature publicKey artifactBytes policy = .ok ruleSet) :
    RuleSetCrates.verifySig publicKey manifestBytes signature = true ∧
      Meets policy publicKey ruleSet.metadata := by
  obtain ⟨_, -, h⟩ := bind_ok_iff.mp h
  obtain ⟨-, h⟩ := check_ok_iff.mp h
  obtain ⟨hsigned, h⟩ := check_ok_iff.mp h
  refine ⟨Bool.not_eq_false _ ▸ hsigned, ?_⟩
  cases hschema : RuleSetCrates.schemaOf manifestBytes with
  | none =>
    rw [hschema] at h
    cases h
  | some schema =>
    rw [hschema] at h
    by_cases hthree : schema = some 3
    · simp only [hthree] at h
      exact verifyCategorized_ok h
    · simp only [hthree] at h
      exact verifyPlain_ok h

omit [RuleSetCrates] in
theorem asMessage_ok {T : Type} {result : Except RuleSetError T} {value : T}
    (h : asMessage result = .ok value) : result = .ok value := by
  cases result with
  | error => cases h
  | ok => exact congrArg _ (Except.ok.inj h)

instance : LawfulVerifier (ParsedRuleSet μ) where
  verified h := (verifyRuleSet_ok (asMessage_ok h)).2

end

section

variable {ν π₄ π₆ α : Type} [RuleSetVerifier α] {configured : DnsRuleSetConfig}
  {bundle : RuleSetBundle} {clock : Option Nat} {installed : HashMap Str (VerifiedRuleSet α)}
  {trusted : HashMap Str α}

/-! ## What the store goes by -/

theorem verifyBundle_ok {floor : Nat} {verified : VerifiedRuleSet α}
    (h : verifyBundle configured bundle floor clock = .ok verified) :
    ∃ key now, decodedPublicKey α configured = .ok key ∧ clock = some now ∧
      verifyRuleSet bundle key configured.name floor now = .ok verified := by
  obtain ⟨key, hkey, h⟩ := bind_ok_iff.mp h
  cases clock with
  | none => cases h
  | some now =>
    refine ⟨key, now, hkey, rfl, ?_⟩
    cases hverify : (verifyRuleSet bundle key configured.name floor now :
        Except String (VerifiedRuleSet α)) with
    | error =>
      simp only [hverify] at h
      cases h
    | ok =>
      simp only [hverify] at h
      cases h
      rfl

/-- The artifact in force for a source: that of the installed set, when the
source's trust policy admits it, or the one shipped. -/
def Chosen (installed : HashMap Str (VerifiedRuleSet α)) (trusted : HashMap Str α)
    (configured : DnsRuleSetConfig) (artifact : α) : Prop :=
  (∃ shipped, trusted.lookup configured.name = some shipped ∧
    selectArtifact shipped configured = .ok artifact) ∨
  ∃ ruleSet, installed.lookup configured.name = some ruleSet ∧
    configured.minimumSequence ≤ ruleSet.metadata.sequence ∧
    (∃ key, decodedPublicKey α configured = .ok key ∧
      ruleSet.metadata.publicKeySha256 = sha256 α key) ∧
    selectArtifact ruleSet.artifact configured = .ok artifact

theorem activeArtifact_ok {artifact : α}
    (h : activeArtifact installed trusted clock configured = .ok (some artifact)) :
    Chosen installed trusted configured artifact := by
  rw [activeArtifact] at h
  -- what follows the check for freshness is the same whatever it found
  split at h
  on_goal 1 => split at h
  on_goal 1 => split at h
  on_goal 1 => cases h
  on_goal 1 => obtain ⟨_, -, h⟩ := bind_ok_iff.mp h
  all_goals
    obtain ⟨key, hkey, h⟩ := bind_ok_iff.mp h
    dsimp only at h
    split at h
    · next ruleSet hcompatible =>
      obtain ⟨selected, hselect, h⟩ := bind_ok_iff.mp h
      cases h
      obtain ⟨hlookup, hfits⟩ := filter_eq_some_iff.mp hcompatible
      simp only [decide_eq_true_eq] at hfits
      exact .inr ⟨ruleSet, hlookup, hfits.2.1, ⟨key, hkey, hfits.2.2⟩, hselect⟩
    · next shipped _ hshipped =>
      obtain ⟨selected, hselect, h⟩ := bind_ok_iff.mp h
      cases h
      exact .inl ⟨shipped, hshipped, hselect⟩
    · obtain ⟨-, h⟩ := check_ok_iff.mp h
      cases h

theorem activeRuleSetArtifacts_ok {artifacts : List α}
    (h : activeRuleSetArtifacts ruleSets installed trusted clock = .ok artifacts) :
    ∀ artifact ∈ artifacts, ∃ configured ∈ ruleSets,
      Chosen installed trusted configured artifact := by
  obtain ⟨found, hfound, h⟩ := bind_ok_iff.mp h
  cases h
  intro artifact hin
  obtain ⟨entry, hentry, heq⟩ := mem_filterMap.mp hin
  obtain ⟨configured, hconfigured, hactive⟩ := mem_of_mapM_ok hfound entry hentry
  rw [show entry = some artifact from heq] at hactive
  exact ⟨configured, hconfigured, activeArtifact_ok hactive⟩

/-! ## Acceptances -/

omit [RuleSetVerifier α] in
theorem name_of_find {name : Str}
    (h : (ruleSets.find? fun source => source.name = name) = some configured) :
    configured.name = name := by
  have hfound := find?_some h
  exact of_decide_eq_true hfound

theorem of_eq_some {x : Acceptance α} (h : Acceptance.of ruleSets previous clock bundle = some x) :
    x.bundle = bundle ∧ x.previous = previous := by
  obtain ⟨configured, -, h⟩ := bind_eq_some_iff.mp h
  obtain ⟨verified, -, h⟩ := bind_eq_some_iff.mp h
  cases h
  exact ⟨rfl, rfl⟩

theorem toOption_eq_some {ε T : Type} {result : Except ε T} {value : T} :
    result.toOption = some value ↔ result = .ok value := by
  cases result with
  | error => exact ⟨nofun, nofun⟩
  | ok => exact ⟨fun h => congrArg _ (Option.some.inj h), fun h => congrArg _ (Except.ok.inj h)⟩

theorem rightful_of [LawfulVerifier α] {x : Acceptance α}
    (h : Acceptance.of ruleSets previous clock bundle = some x) : ∃ key, x.Rightful key := by
  obtain ⟨configured, hfind, h⟩ := bind_eq_some_iff.mp h
  obtain ⟨verified, hverified, h⟩ := bind_eq_some_iff.mp h
  cases h
  obtain ⟨key, now, hkey, hclock, hverify⟩ := verifyBundle_ok (toOption_eq_some.mp hverified)
  have hname : configured.name = bundle.name := name_of_find hfind
  obtain ⟨hsame, hfloor, hdigest⟩ := LawfulVerifier.verified hverify
  rw [hname] at hverify hsame
  refine ⟨key, ⟨⟨configured, hfind, hkey, ?_⟩, ⟨_, now, hclock, hverify⟩, hsame, hdigest, ?_⟩⟩
  · exact (Nat.le_max_right _ _).trans hfloor
  · intro metadata hmetadata
    have hmetadata : previous = some metadata := hmetadata
    rw [hmetadata] at hfloor
    exact (Nat.le_max_left _ _).trans hfloor

/-- What `install_dns_rule_set` finds before it builds a resolver. -/
theorem admitBundle_ok {current : FlowPolicySnapshot ν π₄ π₆} {store : PolicyMutable α}
    {admitted : Option (DnsRuleSetConfig × VerifiedRuleSet α)}
    (h : admitBundle current store clock bundle = .ok admitted) :
    ∃ x : Acceptance α, Acceptance.of current.dnsConfig.ruleSets
        ((store.ruleSets.lookup bundle.name).map VerifiedRuleSet.metadata) clock bundle = some x ∧
      ((admitted = none ∧ ∃ installed, store.ruleSets.lookup bundle.name = some installed ∧
          x.verified.metadata.sequence = installed.metadata.sequence ∧
          x.verified.metadata.sameBytes installed.metadata = true) ∨
        ∃ configured, admitted = some (configured, x.verified) ∧ configured.name = bundle.name ∧
          ∀ installed, store.ruleSets.lookup bundle.name = some installed →
            x.verified.metadata.sequence ≠ installed.metadata.sequence) := by
  rw [admitBundle] at h
  cases hfind : current.dnsConfig.ruleSets.find? fun source => source.name = bundle.name with
  | none =>
    rw [hfind] at h
    cases h
  | some configured =>
    rw [hfind] at h
    obtain ⟨verified, hverified, h⟩ := bind_ok_iff.mp h
    have hname : configured.name = bundle.name := name_of_find hfind
    refine ⟨⟨bundle, current.dnsConfig.ruleSets,
      (store.ruleSets.lookup bundle.name).map VerifiedRuleSet.metadata, clock, verified⟩, ?_, ?_⟩
    · have hverify : (verifyBundle configured bundle _ clock).toOption = some verified :=
        toOption_eq_some.mpr hverified
      rw [Acceptance.of, hfind]
      simp only [bind_eq_bind, bind_some, Option.map_map]
      exact bind_eq_some_iff.mpr ⟨verified, hverify, rfl⟩
    · cases hprevious : store.ruleSets.lookup bundle.name with
      | none =>
        simp only [hprevious] at h
        cases h
        exact .inr ⟨configured, rfl, hname, nofun⟩
      | some installed =>
        simp only [hprevious] at h
        by_cases hsame : verified.metadata.sequence = installed.metadata.sequence
        · rw [if_pos hsame] at h
          by_cases hbytes : verified.metadata.sameBytes installed.metadata = true
          · rw [if_pos hbytes] at h
            cases h
            exact .inl ⟨rfl, installed, rfl, hsame, hbytes⟩
          · rw [if_neg hbytes] at h
            cases h
        · rw [if_neg hsame] at h
          cases h
          refine .inr ⟨configured, rfl, hname, fun other heq => ?_⟩
          rw [← Option.some.inj heq]
          exact hsame

/-! ## Calls -/

/-- The sets in place once an act is done. -/
def setsAfter (sets : HashMap Str (VerifiedRuleSet α)) :
    Act ν π₄ π₆ α → HashMap Str (VerifiedRuleSet α)
  | .setRuleSets ruleSets => ruleSets
  | _ => sets

/-- The sets in place once the call under way is done. -/
def settled (p : Policies ν π₄ π₆ α) : HashMap Str (VerifiedRuleSet α) :=
  p.acts.foldl setsAfter p.store.ruleSets

/-- An act that neither builds a resolver nor changes the sets. -/
def Plain : Act ν π₄ π₆ α → Prop
  | .makeProxy _ _ _ => False
  | .setRuleSets _ => False
  | _ => True

omit [RuleSetVerifier α] in
theorem plain_proxyChanged (snapshot : FlowPolicySnapshot ν π₄ π₆) (proxy : Nat)
    (networkChange : Bool) :
    ∀ act ∈ (proxyChanged snapshot proxy networkChange : List (Act ν π₄ π₆ α)), Plain act := by
  simp [proxyChanged, Plain]

omit [RuleSetVerifier α] in
theorem plain_revoke (previous : FlowPolicySnapshot ν π₄ π₆) :
    ∀ act ∈ (revoke previous : List (Act ν π₄ π₆ α)), Plain act := by
  refine forall_mem_cons.mpr ⟨trivial, fun act hact => ?_⟩
  obtain ⟨proxy, -, hin⟩ := mem_flatMap.mp hact
  exact plain_proxyChanged previous proxy false act hin

omit [RuleSetVerifier α] in
theorem plain_networkChanged (current : FlowPolicySnapshot ν π₄ π₆) (unused : Unused) :
    ∀ act ∈ (networkChanged current unused : List (Act ν π₄ π₆ α)), Plain act := by
  refine forall_mem_append.mpr ⟨?_, ?_⟩
  · cases current.dnsProxy with
    | none => exact forall_mem_singleton.mpr trivial
    | some proxy => exact plain_proxyChanged current proxy true
  · exact forall_mem_cons.mpr ⟨trivial, forall_mem_singleton.mpr trivial⟩

/-- What a reload can come to. -/
theorem reload_cases (current : FlowPolicySnapshot ν π₄ π₆) (store : PolicyMutable α)
    (unused : Unused) (clock expected : Option Nat) (routes : RouteTable ν)
    (config : DnsConfig π₄ π₆) :
    let result := reload current store unused clock expected routes config
    ((∃ error, result.1 = .error error ∧ (isEmergency error = false → result.2 = [])) ∧
        ∀ act ∈ result.2, Plain act) ∨
      ∃ revision before after artifacts,
        activeRuleSetArtifacts config.ruleSets store.ruleSets store.trustedRuleSets clock =
          .ok artifacts ∧
        result = (.ok revision,
          before :: Act.makeProxy config unused.cache artifacts :: after) ∧
        Plain before ∧ ∀ act ∈ after, Plain act := by
  fun_cases reload current store unused clock expected routes config with
  | case1 | case3 => exact .inl ⟨⟨_, rfl, fun _ => rfl⟩, forall_mem_nil _⟩
  | case2 =>
    exact .inl ⟨⟨_, rfl, nofun⟩, forall_mem_cons.mpr ⟨trivial, plain_revoke current⟩⟩
  | case4 _ _ artifacts hactive =>
    refine .inr ⟨_, _, _, artifacts, hactive, rfl, trivial, ?_⟩
    refine forall_mem_cons.mpr ⟨trivial, ?_⟩
    split
    · exact plain_revoke current
    · exact forall_mem_nil _

/-- What an installation can come to. -/
theorem install_cases (current : FlowPolicySnapshot ν π₄ π₆) (store : PolicyMutable α)
    (unused : Unused) (clock : Option Nat) (bundle : RuleSetBundle) :
    let result := installDnsRuleSet current store unused clock bundle
    (∃ error, result = (.error error, [])) ∨
      ∃ (x : Acceptance α) (revision : Nat), result.1 = .ok revision ∧
        Acceptance.of current.dnsConfig.ruleSets
          ((store.ruleSets.lookup bundle.name).map VerifiedRuleSet.metadata) clock bundle = some x ∧
        ((result.2 = [] ∧ ∃ installed, store.ruleSets.lookup bundle.name = some installed ∧
            x.verified.metadata.sequence = installed.metadata.sequence ∧
            x.verified.metadata.sameBytes installed.metadata = true) ∨
          ∃ snapshot artifacts,
            let candidate := store.ruleSets.insert bundle.name x.verified
            activeRuleSetArtifacts current.dnsConfig.ruleSets candidate store.trustedRuleSets
              clock = .ok artifacts ∧
            result.2 = [.makeProxy current.dnsConfig current.dns artifacts, .store snapshot,
              .setRuleSets candidate] ∧
            ∀ installed, store.ruleSets.lookup bundle.name = some installed →
              x.verified.metadata.sequence ≠ installed.metadata.sequence) := by
  fun_cases installDnsRuleSet current store unused clock bundle with
  | case1 => exact .inl ⟨_, rfl⟩
  | case2 hadmitted =>
    obtain ⟨x, hx, ⟨-, hsame⟩ | ⟨_, ⟨⟩, _⟩⟩ := admitBundle_ok hadmitted
    exact .inr ⟨x, _, rfl, hx, .inl ⟨rfl, hsame⟩⟩
  | case3 => exact .inl ⟨_, rfl⟩
  | case4 configured verified hadmitted candidate artifacts hactive =>
    obtain ⟨x, hx, ⟨⟨⟩, -⟩ | ⟨_, ⟨⟩, hname, hnew⟩⟩ := admitBundle_ok hadmitted
    rw [← hname] at hx hnew ⊢
    exact .inr ⟨x, _, rfl, hx, .inr ⟨_, artifacts, hactive, rfl, hnew⟩⟩

end

end Foxcore.Proofs
