import Foxcore.Proofs.NetworkEpoch
import Foxcore.Proofs.RuleSetCalls
import Foxcore.Proofs.RuleSetFormat

/-!
# Rule sets never roll back

The store gives the verifier the higher of the configured minimum and what is
installed. While a call is under way the sets it has yet to put in place count
as installed already (`settled`); then what is installed under a name is the
newest bundle accepted under it (`Book`), and everything else follows from that.
-/

namespace Foxcore.Proofs

open Lib Ref Spec List PolicyCall Resolvers

section

variable {ν π₄ π₆ α : Type} [RuleSetVerifier α]

variable {accepted : List (Acceptance α)} {sets : HashMap Str (VerifiedRuleSet α)}
  {x : Acceptance α} {acts : List (Act ν π₄ π₆ α)} {ruleSets : List DnsRuleSetConfig}
  {a : Audit ν π₄ π₆ α} {w : World ν π₄ π₆ α} {clock : Option Nat}

/-! ## Resolvers keep their artifacts -/

/-- Two proxies built alike. -/
def SamePlan (p q : DnsProxy π₄ π₆ α) : Prop :=
  p.artifacts = q.artifacts ∧ p.config.ruleSets = q.config.ruleSets

section

omit [RuleSetVerifier α]

/-- An exchange moves the barrier of its proxy and nothing else of it. -/
theorem samePlan_step (d : Desk π₄ π₆ α) (index changes now : Nat) (revoked : Bool)
    (act : ExchangeAct) : SamePlan (d.step index changes now revoked act).proxy d.proxy := by
  have houtcome := outcome_step d index changes now revoked act
  generalize d.step index changes now revoked act = d' at houtcome ⊢
  cases houtcome with
  | insert => simp only [SamePlan, Desk.goTo, insert_frame, and_self]
  | relearn | teach => simp only [SamePlan, Desk.release, Desk.goTo, learn_frame, and_self]
  | _ => exact ⟨rfl, rfl⟩

/-- Every proxy of the one list is built as one of the other. -/
def PlannedBy (before after : List (DnsProxy π₄ π₆ α)) : Prop :=
  ∀ p ∈ after, ∃ q ∈ before, SamePlan p q

theorem plannedBy_refl (proxies : List (DnsProxy π₄ π₆ α)) : PlannedBy proxies proxies :=
  fun p hp => ⟨p, hp, rfl, rfl⟩

theorem plannedBy_set {proxies : List (DnsProxy π₄ π₆ α)} {p q : DnsProxy π₄ π₆ α} {i : Nat}
    (hq : q ∈ proxies) (h : SamePlan p q) : PlannedBy proxies (proxies.set i p) := by
  intro p' hp'
  rcases mem_or_eq_of_mem_set hp' with hold | rfl
  · exact ⟨p', hold, rfl, rfl⟩
  · exact ⟨q, hq, h⟩

theorem plannedBy_exchangeStep (r : Resolvers π₄ π₆ α) (cancelled : List Nat) (index : Nat)
    (act : ExchangeAct) : PlannedBy r.proxies (r.exchangeStep cancelled index act).proxies := by
  rw [exchangeStep]
  cases hdesk : r.desk index with
  | none => exact plannedBy_refl _
  | some d =>
    obtain ⟨-, hproxy, -, -⟩ := desk_some hdesk
    exact plannedBy_set (mem_of_getElem? hproxy) (samePlan_step d _ _ _ _ act)

theorem plannedBy_closeEpoch {r r' : Resolvers π₄ π₆ α} {proxy : Nat}
    (h : r.closeEpoch proxy = some r') : PlannedBy r.proxies r'.proxies := by
  obtain ⟨p, hp, -, rfl⟩ | ⟨-, rfl⟩ := closeEpoch_cases h
  · exact plannedBy_set (mem_of_getElem? hp) ⟨rfl, rfl⟩
  · exact plannedBy_refl _

theorem plannedBy_openEpoch (r : Resolvers π₄ π₆ α) (proxy : Nat) :
    PlannedBy r.proxies (r.openEpoch proxy).proxies := by
  intro p hp
  obtain ⟨i, hi⟩ := mem_iff_getElem?.mp hp
  rw [openEpoch, getElem?_modify] at hi
  obtain ⟨q, hq, rfl⟩ := Option.map_eq_some_iff.mp hi
  refine ⟨q, mem_of_getElem? hq, ?_⟩
  split <;> exact ⟨rfl, rfl⟩

end

/-! ## The book of what was accepted -/

omit [RuleSetVerifier α] in
theorem sameBytes_iff {a b : VerifiedRuleSetMetadata} :
    a.sameBytes b = true ↔ a.artifactSha256 = b.artifactSha256 ∧
      a.publicKeySha256 = b.publicKeySha256 ∧
      a.categorizedManifestSha256 = b.categorizedManifestSha256 :=
  decide_eq_true_iff

omit [RuleSetVerifier α] in
theorem sameBytes_trans {a b c : VerifiedRuleSetMetadata} (h : a.sameBytes c = true)
    (h' : b.sameBytes c = true) : a.sameBytes b = true := by
  grind [sameBytes_iff]

/-- What is installed is the newest bundle accepted under each name. -/
structure Book (accepted : List (Acceptance α)) (sets : HashMap Str (VerifiedRuleSet α)) :
    Prop where
  rightful : ∀ x ∈ accepted, ∃ key, x.Rightful key
  installed : ∀ name ruleSet, sets.lookup name = some ruleSet →
    ∃ x ∈ accepted, x.bundle.name = name ∧ x.verified = ruleSet
  newest : ∀ x ∈ accepted, ∃ ruleSet, sets.lookup x.bundle.name = some ruleSet ∧
    x.verified.metadata.sequence ≤ ruleSet.metadata.sequence ∧
    (x.verified.metadata.sequence = ruleSet.metadata.sequence →
      x.verified.metadata.sameBytes ruleSet.metadata = true)
  reused : ∀ x ∈ accepted, ∀ y ∈ accepted, x.bundle.name = y.bundle.name →
    x.verified.metadata.sequence = y.verified.metadata.sequence →
    x.verified.metadata.sameBytes y.verified.metadata = true

theorem Book.of_mem_iff {accepted' : List (Acceptance α)} (h : Book accepted sets)
    (hmem : ∀ x, x ∈ accepted' ↔ x ∈ accepted) : Book accepted' sets := by
  obtain ⟨hrightful, hinstalled, hnewest, hreused⟩ := h
  constructor <;> grind

/-- One more acceptance that agrees with the book on what its number stands for. -/
theorem Book.reused_cons (h : Book accepted sets)
    (hx : ∀ y ∈ accepted, x.bundle.name = y.bundle.name →
      x.verified.metadata.sequence = y.verified.metadata.sequence →
      x.verified.metadata.sameBytes y.verified.metadata = true) :
    ∀ y ∈ x :: accepted, ∀ z ∈ x :: accepted, y.bundle.name = z.bundle.name →
      y.verified.metadata.sequence = z.verified.metadata.sequence →
      y.verified.metadata.sameBytes z.verified.metadata = true := by
  have hrefl : ∀ a : VerifiedRuleSetMetadata, a.sameBytes a = true :=
    fun a => sameBytes_iff.mpr ⟨rfl, rfl, rfl⟩
  have hsymm : ∀ y ∈ accepted, x.bundle.name = y.bundle.name →
      x.verified.metadata.sequence = y.verified.metadata.sequence →
      y.verified.metadata.sameBytes x.verified.metadata = true :=
    fun y hy hname hseq => sameBytes_trans (hrefl _) (hx y hy hname hseq)
  grind [h.reused]

theorem Book.again (h : Book accepted sets) {installed : VerifiedRuleSet α}
    (hrightful : ∃ key, x.Rightful key) (hlookup : sets.lookup x.bundle.name = some installed)
    (hseq : x.verified.metadata.sequence = installed.metadata.sequence)
    (hbytes : x.verified.metadata.sameBytes installed.metadata = true) :
    Book (x :: accepted) sets := by
  have hreused := h.reused_cons (x := x) fun y hy hname hsame => by
    obtain ⟨ruleSet, hlookup', -, hnewest⟩ := h.newest y hy
    rw [← hname, hlookup] at hlookup'
    cases hlookup'
    exact sameBytes_trans hbytes (hnewest (hsame.symm.trans hseq))
  obtain ⟨hold, hinstalled, hnewest, -⟩ := h
  constructor <;> grind

/-- A bundle with a number above what is installed. -/
theorem Book.install (h : Book accepted sets) (hrightful : ∃ key, x.Rightful key)
    (habove : ∀ installed, sets.lookup x.bundle.name = some installed →
      installed.metadata.sequence < x.verified.metadata.sequence) :
    Book (x :: accepted) (sets.insert x.bundle.name x.verified) := by
  have hlower : ∀ y ∈ accepted, x.bundle.name = y.bundle.name →
      y.verified.metadata.sequence < x.verified.metadata.sequence := by
    intro y hy hname
    obtain ⟨ruleSet, hlookup, hle, -⟩ := h.newest y hy
    exact Nat.lt_of_le_of_lt hle (habove ruleSet (hname ▸ hlookup))
  have hreused := h.reused_cons (x := x) fun y hy hname heq =>
    absurd heq.symm (hlower y hy hname).ne
  obtain ⟨hold, hinstalled, hnewest, -⟩ := h
  constructor <;> grind [HashMap.lookup_insert]

/-! ## Sets only rise -/

/-- Every name of the one map is in the other, with a number no lower. -/
def Below (sets later : HashMap Str (VerifiedRuleSet α)) : Prop :=
  ∀ name ruleSet, sets.lookup name = some ruleSet →
    ∃ ruleSet', later.lookup name = some ruleSet' ∧
      ruleSet.metadata.sequence ≤ ruleSet'.metadata.sequence

section

omit [RuleSetVerifier α]

theorem below_refl (sets : HashMap Str (VerifiedRuleSet α)) : Below sets sets :=
  fun _ ruleSet h => ⟨ruleSet, h, Nat.le_refl _⟩

theorem Below.trans {a b c : HashMap Str (VerifiedRuleSet α)} (h : Below a b) (h' : Below b c) :
    Below a c := by
  grind [Below]

theorem below_insert {name : Str} {ruleSet : VerifiedRuleSet α}
    (h : ∀ installed, sets.lookup name = some installed →
      installed.metadata.sequence ≤ ruleSet.metadata.sequence) :
    Below sets (sets.insert name ruleSet) := by
  grind [Below, HashMap.lookup_insert]

/-- What the acts of a call do to the sets. -/
def Rising : HashMap Str (VerifiedRuleSet α) → List (Act ν π₄ π₆ α) → Prop
  | _, [] => True
  | sets, act :: acts => Below sets (setsAfter sets act) ∧ Rising (setsAfter sets act) acts

theorem Rising.settled (h : Rising sets acts) : Below sets (acts.foldl setsAfter sets) := by
  induction acts generalizing sets with
  | nil => exact below_refl sets
  | cons act acts ih => exact h.1.trans (ih h.2)

/-- An act that leaves the sets alone. -/
def Inert (act : Act ν π₄ π₆ α) : Prop := ∀ sets, setsAfter sets act = sets

theorem inert_of_plain {act : Act ν π₄ π₆ α} (h : Plain act) : Inert act := by
  intro sets
  cases act with
  | setRuleSets => exact h.elim
  | _ => rfl

theorem inert_acts (h : ∀ act ∈ acts, Inert act) (sets : HashMap Str (VerifiedRuleSet α)) :
    acts.foldl setsAfter sets = sets ∧ Rising sets acts := by
  induction acts with
  | nil => exact ⟨rfl, trivial⟩
  | cons act acts ih =>
    obtain ⟨hact, hrest⟩ := forall_mem_cons.mp h
    obtain ⟨hsettled, hrising⟩ := ih hrest
    rw [foldl_cons, Rising, hact sets]
    exact ⟨hsettled, below_refl sets, hrising⟩

end

/-! ## The audit -/

structure Ledger (a : Audit ν π₄ π₆ α) : Prop where
  book : Book a.accepted (settled a.world.policies)
  rising : Rising a.world.policies.store.ruleSets a.world.policies.acts
  active : ∀ proxy ∈ a.world.resolvers.proxies, ∀ artifact ∈ proxy.artifacts,
    Sourced a.accepted a.world.policies.store.trustedRuleSets ∅ proxy.config.ruleSets artifact
  activating : ∀ config cache artifacts,
    Act.makeProxy config cache artifacts ∈ a.world.policies.acts → ∀ artifact ∈ artifacts,
    ∃ configured ∈ config.ruleSets, Chosen (settled a.world.policies)
      a.world.policies.store.trustedRuleSets configured artifact

/-- A chosen artifact comes from an acceptance. -/
theorem Book.sourced {before : HashMap Str (VerifiedRuleSet α)} {trusted : HashMap Str α}
    {configured : DnsRuleSetConfig} {artifact : α} (h : Book accepted sets)
    (hbefore : Below before sets) (hin : configured ∈ ruleSets)
    (hchosen : Chosen sets trusted configured artifact) :
    Sourced accepted trusted before ruleSets artifact := by
  rcases hchosen with hshipped | ⟨ruleSet, hlookup, hfloor, hkey, hselect⟩
  · exact ⟨configured, hin, .inl hshipped⟩
  · obtain ⟨x, hx, hname, rfl⟩ := h.installed configured.name ruleSet hlookup
    refine ⟨configured, hin, .inr ⟨x, hx, hname, hfloor, hkey, fun installed hinstalled => ?_,
      hselect⟩⟩
    obtain ⟨later, hlater, hle⟩ := hbefore configured.name installed hinstalled
    rw [hlookup] at hlater
    cases hlater
    exact hle

variable (h : Ledger a)

include h

/-- One act of a call. -/
theorem Ledger.advance {act : Act ν π₄ π₆ α} (hacts : a.world.policies.acts = act :: acts)
    (hrest : w.policies.acts = acts)
    (hsets : w.policies.store.ruleSets = setsAfter a.world.policies.store.ruleSets act)
    (htrusted : w.policies.store.trustedRuleSets = a.world.policies.store.trustedRuleSets)
    (hproxies : ∀ p ∈ w.resolvers.proxies, (∃ q ∈ a.world.resolvers.proxies, SamePlan p q) ∨
      ∃ config cache, act = .makeProxy config cache p.artifacts ∧
        p.config.ruleSets = config.ruleSets) : Ledger ⟨w, a.accepted⟩ := by
  have hsettled : settled w.policies = settled a.world.policies := by
    rw [settled, settled, hrest, hsets, hacts, foldl_cons]
  obtain ⟨hbook, hrising, hactive, hactivating⟩ := h
  rw [hacts] at hrising hactivating
  refine ⟨hsettled ▸ hbook, hrest ▸ hsets ▸ hrising.2, fun p hp artifact hartifact => ?_, by grind⟩
  rw [htrusted]
  rcases hproxies p hp with ⟨q, hq, hartifacts, hruleSets⟩ | ⟨config, cache, rfl, hruleSets⟩
  · exact hruleSets ▸ hactive q hq artifact (hartifacts ▸ hartifact)
  · obtain ⟨configured, hin, hchosen⟩ := hactivating config cache p.artifacts
      mem_cons_self artifact hartifact
    exact hruleSets ▸ hbook.sourced (nofun) hin hchosen

theorem ledger_act : Ledger ⟨a.world.act, a.accepted⟩ := by
  have hsame : ∀ {act : Act ν π₄ π₆ α} {proxies : List (DnsProxy π₄ π₆ α)},
      PlannedBy a.world.resolvers.proxies proxies → ∀ p ∈ proxies,
      (∃ q ∈ a.world.resolvers.proxies, SamePlan p q) ∨
        ∃ config cache, act = .makeProxy config cache p.artifacts ∧
          p.config.ruleSets = config.ruleSets :=
    fun hplan p hp => .inl (hplan p hp)
  have hkept := plannedBy_refl a.world.resolvers.proxies
  fun_cases World.act a.world with
  | case1 | case7 => exact h
  | case2 _ _ _ hacts =>
    refine h.advance hacts rfl rfl rfl (hsame ?_)
    rw [forkCache_proxies]
    exact hkept
  | case3 config cache artifacts _ hacts =>
    refine h.advance hacts rfl rfl rfl fun p hp => ?_
    rw [makeProxy] at hp
    split at hp
    · rcases mem_append.mp hp with hold | hnew
      · exact .inl (hkept p hold)
      · rw [mem_singleton.mp hnew]
        refine .inr ⟨config, cache, rfl, ?_⟩
        fun_cases withLegacyUpstream config <;> rfl
    · exact .inl (hkept p hp)
  | case4 _ _ hacts | case5 _ _ hacts | case10 _ _ hacts =>
    exact h.advance hacts rfl rfl rfl (hsame hkept)
  | case6 _ _ hacts _ hclose =>
    exact h.advance hacts rfl rfl rfl (hsame (plannedBy_closeEpoch hclose))
  | case8 _ networkChange _ hacts =>
    refine h.advance hacts rfl rfl rfl (hsame ?_)
    cases networkChange <;> exact hkept
  | case9 proxy _ hacts => exact h.advance hacts rfl rfl rfl (hsame (plannedBy_openEpoch _ proxy))

/-- Anything that leaves the store and its call alone. -/
theorem Ledger.of_same (hacts : w.policies.acts = a.world.policies.acts)
    (hstore : w.policies.store = a.world.policies.store)
    (hproxies : PlannedBy a.world.resolvers.proxies w.resolvers.proxies) :
    Ledger ⟨w, a.accepted⟩ := by
  have hsettled : settled w.policies = settled a.world.policies := by
    rw [settled, settled, hacts, hstore]
  obtain ⟨hbook, hrising, hactive, hactivating⟩ := h
  refine ⟨hsettled ▸ hbook, hacts ▸ hstore ▸ hrising, fun p hp artifact hartifact => ?_, by grind⟩
  obtain ⟨q, hq, hartifacts, hruleSets⟩ := hproxies p hp
  exact hruleSets ▸ hstore ▸ hactive q hq artifact (hartifacts ▸ hartifact)

/-- A call that takes the lock and accepts nothing. -/
theorem Ledger.take (hidle : a.world.policies.acts = [])
    (hstore : w.policies.store = a.world.policies.store)
    (hresolvers : w.resolvers = a.world.resolvers) (hinert : ∀ act ∈ w.policies.acts, Inert act)
    (hmake : ∀ config cache artifacts, Act.makeProxy config cache artifacts ∈ w.policies.acts →
      ∀ artifact ∈ artifacts, ∃ configured ∈ config.ruleSets,
        Chosen a.world.policies.store.ruleSets a.world.policies.store.trustedRuleSets configured
          artifact) : Ledger ⟨w, a.accepted⟩ := by
  obtain ⟨hnone, hrising⟩ := inert_acts hinert a.world.policies.store.ruleSets
  have hsettled : settled w.policies = a.world.policies.store.ruleSets := by
    rw [settled, hstore, hnone]
  have hbook := h.book
  rw [settled, hidle] at hbook
  exact ⟨hsettled ▸ hbook, hstore ▸ hrising, hresolvers ▸ hstore ▸ h.active,
    hsettled.symm ▸ hstore.symm ▸ hmake⟩

/-- A call that takes the lock and makes no resolver. -/
theorem Ledger.take_plain (hidle : a.world.policies.acts = [])
    (hstore : w.policies.store = a.world.policies.store)
    (hresolvers : w.resolvers = a.world.resolvers) (hacts : w.policies.acts = acts)
    (hplain : ∀ act ∈ acts, Plain act) : Ledger ⟨w, a.accepted⟩ := by
  subst hacts
  exact h.take hidle hstore hresolvers (fun act hact => inert_of_plain (hplain act hact))
    fun _ _ _ hmake => (hplain _ hmake).elim

theorem ledger_reload (hidle : a.world.policies.acts = []) {unused : Unused} {expected : Option Nat}
    {routes : RouteTable ν} {config : DnsConfig π₄ π₆}
    (hacts : w.policies.acts = (reload a.world.policies.current a.world.policies.store unused clock
      expected routes config).2) (hstore : w.policies.store = a.world.policies.store)
    (hresolvers : w.resolvers = a.world.resolvers) : Ledger ⟨w, a.accepted⟩ := by
  obtain ⟨-, hplain⟩ | ⟨revision, before, after, artifacts, hactive, hresult, hbefore, hafter⟩ :=
    reload_cases a.world.policies.current a.world.policies.store unused clock expected routes config
  · exact h.take_plain hidle hstore hresolvers hacts hplain
  · rw [hresult] at hacts
    refine h.take hidle hstore hresolvers ?_ ?_
    · rw [hacts]
      refine forall_mem_cons.mpr ⟨inert_of_plain hbefore, ?_⟩
      exact forall_mem_cons.mpr
        ⟨fun _ => rfl, fun act hact => inert_of_plain (hafter act hact)⟩
    · intro config' cache' artifacts' hmake
      rw [hacts] at hmake
      rcases mem_cons.mp hmake with heq | hmake
      · rw [← heq] at hbefore
        exact hbefore.elim
      · rcases mem_cons.mp hmake with heq | hmake
        · cases heq
          exact activeRuleSetArtifacts_ok hactive
        · exact (hafter _ hmake).elim

/-- What a call has to do once it has the lock. -/
def callActs (w : World ν π₄ π₆ α) (call : PolicyCall ν π₄ π₆) (clock : Option Nat) :
    List (Act ν π₄ π₆ α) :=
  (call.run w.policies.current w.policies.store
    ⟨w.policies.nextToken, w.resolvers.caches.length, w.resolvers.proxies.length⟩ clock).2

omit h in
theorem takeLock_idle (h : w.policies.acts = []) (call : PolicyCall ν π₄ π₆) (clock : Option Nat) :
    (w.takeLock call clock).policies.acts = callActs w call clock ∧
      (w.takeLock call clock).policies.store = w.policies.store ∧
      (w.takeLock call clock).policies.current = w.policies.current ∧
      (w.takeLock call clock).resolvers = w.resolvers := by
  rw [World.takeLock, if_pos (List.isEmpty_iff.mpr h)]
  exact ⟨rfl, rfl, rfl, rfl⟩

variable [LawfulVerifier α]

omit [LawfulVerifier α] in
/-- A call that takes the lock and accepts a bundle. -/
theorem Ledger.accept (hstore : w.policies.store = a.world.policies.store)
    (hresolvers : w.resolvers = a.world.resolvers)
    (hbook : Book (x :: a.accepted) (settled w.policies))
    (hrising : Rising a.world.policies.store.ruleSets w.policies.acts)
    (hmake : ∀ config cache artifacts, Act.makeProxy config cache artifacts ∈ w.policies.acts →
      ∀ artifact ∈ artifacts, ∃ configured ∈ config.ruleSets,
        Chosen (settled w.policies) a.world.policies.store.trustedRuleSets configured artifact) :
    Ledger ⟨w, x :: a.accepted⟩ := by
  refine ⟨hbook, hstore ▸ hrising, ?_, hstore ▸ hmake⟩
  rw [hresolvers, hstore]
  intro proxy hproxy artifact hartifact
  obtain ⟨configured, hin, hsource⟩ := h.active proxy hproxy artifact hartifact
  refine ⟨configured, hin, hsource.imp_right ?_⟩
  exact fun ⟨y, hy, hrest⟩ => ⟨y, mem_cons_of_mem _ hy, hrest⟩

theorem ledger_install (hidle : a.world.policies.acts = []) (bundle : RuleSetBundle)
    (clock : Option Nat) : Ledger (a.apply (.call (.installDnsRuleSet bundle) clock)) := by
  obtain ⟨hacts, hstore, -, hresolvers⟩ := takeLock_idle hidle (.installDnsRuleSet bundle) clock
  have hbook := h.book
  rw [settled, hidle] at hbook
  rcases install_cases a.world.policies.current a.world.policies.store
    ⟨a.world.policies.nextToken, a.world.resolvers.caches.length, a.world.resolvers.proxies.length⟩
    clock bundle with ⟨error, hresult⟩ | ⟨x, revision, hok, hx, hcases⟩
  · have hnone : acceptance a.world (.call (.installDnsRuleSet bundle) clock) = none := by
      refine if_neg fun hboth => ?_
      have hanswer : (answer a.world (.installDnsRuleSet bundle) clock).isOk = true := hboth.2
      rw [answer, run, hresult] at hanswer
      cases hanswer
    rw [callActs, run, hresult] at hacts
    rw [Audit.apply, hnone]
    exact h.take_plain hidle hstore hresolvers hacts (forall_mem_nil _)
  · have hsome : acceptance a.world (.call (.installDnsRuleSet bundle) clock) = some x := by
      refine (if_pos ⟨List.isEmpty_iff.mpr hidle, ?_⟩).trans hx
      rw [answer, run, hok]
      rfl
    have hbundle : x.bundle = bundle := (of_eq_some hx).1
    have hrightful := rightful_of hx
    rw [Audit.apply, hsome]
    rcases hcases with ⟨hnil, installed, hinstalled, hseq, hbytes⟩ |
      ⟨snapshot, artifacts, hactive, hresult, hnew⟩
    · -- the bundle that is installed already
      rw [callActs, run, hnil] at hacts
      refine h.accept hstore hresolvers ?_ ?_ ?_
      · simp only [World.apply, settled, hacts, hstore]
        exact hbook.again hrightful (by rw [hbundle]; exact hinstalled) hseq hbytes
      · simp only [World.apply, hacts]
        trivial
      · simp [World.apply, hacts]
    · have hle : ∀ installed, a.world.policies.store.ruleSets.lookup bundle.name = some installed →
          installed.metadata.sequence ≤ x.verified.metadata.sequence := by
        intro installed hinstalled
        obtain ⟨key, hrightful⟩ := hrightful
        refine hrightful.floor installed.metadata ?_
        rw [(of_eq_some hx).2, hinstalled]
        rfl
      have hsettled : settled (a.world.takeLock (.installDnsRuleSet bundle) clock).policies =
          a.world.policies.store.ruleSets.insert bundle.name x.verified := by
        rw [settled, hacts, callActs, run, hresult]
        rfl
      rw [callActs, run, hresult] at hacts
      refine h.accept hstore hresolvers ?_ ?_ ?_
      · simp only [World.apply, hsettled]
        rw [← hbundle]
        refine hbook.install hrightful fun installed hinstalled => ?_
        rw [hbundle] at hinstalled
        exact Nat.lt_of_le_of_ne (hle installed hinstalled) (hnew installed hinstalled).symm
      · simp only [World.apply, hacts]
        exact ⟨below_refl _, below_refl _, below_insert hle, trivial⟩
      · simp only [World.apply, hacts, hsettled]
        intro config cache artifacts' hmake
        simp only [mem_cons, not_mem_nil, or_false, reduceCtorEq] at hmake
        cases hmake
        exact activeRuleSetArtifacts_ok hactive

theorem ledger_call (call : PolicyCall ν π₄ π₆) (clock : Option Nat) :
    Ledger (a.apply (.call call clock)) := by
  by_cases hidle : a.world.policies.acts = []
  · obtain ⟨hacts, hstore, -, hresolvers⟩ := takeLock_idle hidle call clock
    cases call with
    | reload => exact ledger_reload h hidle hacts hstore hresolvers
    | installDnsRuleSet bundle => exact ledger_install h hidle bundle clock
    | networkChanged =>
      exact h.take_plain hidle hstore hresolvers hacts (plain_networkChanged _ _)
  · have hworld : a.world.apply (.call call clock) = a.world :=
      if_neg (mt List.isEmpty_iff.mp hidle)
    have hnone : acceptance a.world (.call call clock) = none := by
      cases call with
      | reload => rfl
      | installDnsRuleSet =>
        exact if_neg fun hboth => hidle (List.isEmpty_iff.mp hboth.1)
      | networkChanged => rfl
    rw [Audit.apply, hworld, hnone]
    exact h

theorem ledger_apply (action : Action ν π₄ π₆) : Ledger (a.apply action) := by
  have hkept := plannedBy_refl a.world.resolvers.proxies
  rw [Audit.apply]
  fun_cases World.apply a.world action with
  | case1 call clock => exact ledger_call h call clock
  | case2 => exact ledger_act h
  | case5 =>
    refine h.of_same rfl rfl ?_
    rw [beginExchange_proxies]
    exact hkept
  | case8 index act => exact h.of_same rfl rfl (plannedBy_exchangeStep _ _ index act)
  | case9 =>
    refine h.of_same rfl rfl ?_
    rw [readHints_proxies]
    exact hkept
  | case3 | case11 => exact h.of_same rfl rfl hkept
  | _ => exact h

omit h

/-! ## A store just made -/

theorem book_initial {bundles : List RuleSetBundle} {names : List Str}
    {final : HashMap Str (VerifiedRuleSet α)} (h : Book accepted sets)
    (hnames : ∀ name ruleSet, sets.lookup name = some ruleSet → name ∈ names)
    (hfinal : verifyInitialRuleSets ruleSets clock names sets bundles = .ok final) :
    ∃ accepted', (∀ x, x ∈ accepted' ↔
        x ∈ bundles.filterMap (Acceptance.of ruleSets none clock) ∨ x ∈ accepted) ∧
      Book accepted' final := by
  induction bundles generalizing names sets accepted with
  | nil =>
    cases hfinal
    exact ⟨accepted, fun x => (or_iff_right not_mem_nil).symm, h⟩
  | cons bundle bundles ih =>
    obtain ⟨hnew, hfinal⟩ := check_ok_iff.mp hfinal
    cases hfind : ruleSets.find? fun source => source.name = bundle.name with
    | none =>
      rw [hfind] at hfinal
      cases hfinal
    | some configured =>
      simp only [hfind] at hfinal
      cases hverified : (verifyBundle configured bundle configured.minimumSequence clock :
          Except RuleSetRefusal (VerifiedRuleSet α)) with
      | error =>
        rw [hverified] at hfinal
        cases hfinal
      | ok verified =>
        simp only [hverified, name_of_find hfind] at hfinal
        have hof : Acceptance.of ruleSets none clock bundle =
            some ⟨bundle, ruleSets, none, clock, verified⟩ := by
          simp only [Acceptance.of, hfind, Option.bind_eq_bind, Option.bind_some,
            Option.map_none, Option.getD_none, max_self, hverified]
          rfl
        have hfree : ∀ installed, sets.lookup bundle.name ≠ some installed :=
          fun installed hinstalled =>
            hnew (contains_iff_mem.mpr (hnames _ _ hinstalled))
        have hbook : Book (⟨bundle, ruleSets, none, clock, verified⟩ :: accepted)
            (sets.insert bundle.name verified) :=
          h.install (rightful_of hof) fun installed hinstalled =>
            absurd hinstalled (hfree installed)
        obtain ⟨accepted', hmem, hbook'⟩ := ih hbook (fun name ruleSet hlookup => by
          rw [HashMap.lookup_insert] at hlookup
          split at hlookup
          · next heq => exact heq ▸ mem_cons_self
          · exact mem_cons_of_mem _ (hnames name ruleSet hlookup)) hfinal
        refine ⟨accepted', fun x => (hmem x).trans ?_, hbook'⟩
        rw [filterMap_cons_some hof, mem_cons, mem_cons]
        tauto

omit [LawfulVerifier α] in
theorem book_nil : Book ([] : List (Acceptance α)) ∅ :=
  ⟨nofun, nofun, nofun, nofun⟩

theorem ledger_initial (h : Audit.Initial a) : Ledger a := by
  obtain ⟨⟨routes, config, store, _, cache, now, -, hpolicies, -⟩, bundles, artifacts,
    clock, hverified, hactive, hproxies, haccepted⟩ := h
  have hacts : a.world.policies.acts = [] := by rw [hpolicies]
  obtain ⟨accepted', hmem, hbook⟩ := book_initial book_nil nofun hverified
  have hbook : Book a.accepted a.world.policies.store.ruleSets := by
    refine hbook.of_mem_iff fun x => ?_
    rw [hmem, haccepted]
    exact (or_iff_left not_mem_nil).symm
  refine ⟨?_, ?_, fun proxy hproxy artifact hartifact => ?_, ?_⟩
  · rw [settled, hacts]
    exact hbook
  · rw [hacts]
    trivial
  · obtain ⟨hartifacts, hruleSets⟩ := hproxies proxy hproxy
    rw [hartifacts] at hartifact
    obtain ⟨configured, hin, hchosen⟩ := activeRuleSetArtifacts_ok hactive artifact hartifact
    rw [hruleSets]
    exact hbook.sourced (nofun) hin hchosen
  · rw [hacts]
    exact nofun

theorem ledger_of_reach (h : Reach Audit.Initial Audit.apply anyAction a) : Ledger a :=
  h.invariant (fun _ => ledger_initial) fun _ action hledger _ => ledger_apply hledger action

/-! ## No rollback -/

omit [LawfulVerifier α] in
theorem below_apply (h : Ledger a) (action : Action ν π₄ π₆) :
    Below a.world.policies.store.ruleSets (a.apply action).world.policies.store.ruleSets := by
  have hsame := below_refl a.world.policies.store.ruleSets
  show Below _ (a.world.apply action).policies.store.ruleSets
  fun_cases World.apply a.world action with
  | case1 call clock => fun_cases World.takeLock a.world call clock <;> exact hsame
  | case2 =>
    have hrising := h.rising
    fun_cases World.act a.world with
    | case10 _ _ hacts =>
      rw [hacts] at hrising
      exact hrising.1
    | _ => exact hsame
  | _ => exact hsame

theorem below_run (h : Ledger a) (actions : List (Action ν π₄ π₆)) :
    Below a.world.policies.store.ruleSets
      (actions.foldl Audit.apply a).world.policies.store.ruleSets := by
  induction actions generalizing a with
  | nil => exact below_refl _
  | cons action actions ih => exact (below_apply h action).trans (ih (ledger_apply h action))

omit [LawfulVerifier α] in
/-- A call that is refused has nothing to do. -/
theorem acts_of_error {call : PolicyCall ν π₄ π₆} {error : PolicyError}
    (h : answer w call clock = .error error) (hordinary : isEmergency error = false) :
    callActs w call clock = [] := by
  cases call with
  | reload expected routes config =>
    rcases reload_cases w.policies.current w.policies.store
      ⟨w.policies.nextToken, w.resolvers.caches.length, w.resolvers.proxies.length⟩ clock expected
      routes config with ⟨⟨error', herror, hnil⟩, -⟩ | ⟨_, _, _, _, -, hresult, -, -⟩
    · rw [answer, run, herror] at h
      cases h
      exact hnil hordinary
    · rw [answer, run, hresult] at h
      cases h
  | installDnsRuleSet bundle =>
    rcases install_cases w.policies.current w.policies.store
      ⟨w.policies.nextToken, w.resolvers.caches.length, w.resolvers.proxies.length⟩ clock
      bundle with ⟨error', hresult⟩ | ⟨_, _, hok, -, -⟩
    · rw [callActs, run, hresult]
    · rw [answer, run, hok] at h
      cases h
  | networkChanged => cases h

theorem neverRollsBack_of_ledger (h : Ledger a) : NeverRollsBack a := by
  refine ⟨h.book.rightful, h.book.reused, h.active, ?_, ?_, ?_⟩
  · intro config cache artifacts hmake artifact hartifact
    obtain ⟨configured, hin, hchosen⟩ :=
      h.activating config cache artifacts hmake artifact hartifact
    exact h.book.sourced h.rising.settled hin hchosen
  · intro actions name installed hinstalled
    exact below_run h actions name installed hinstalled
  · intro call clock error hidle hanswer hordinary
    obtain ⟨hacts, hstore, hcurrent, -⟩ := takeLock_idle hidle call clock
    rw [acts_of_error hanswer hordinary] at hacts
    exact ⟨hacts, hstore, hcurrent⟩

end

section

variable [RuleSetCrates] {ν π₄ π₆ μ : Type} [Transducer μ UInt8 Flags] [StoredTransducer μ]

/-- In every run of the store with the verifier it uses, signed rule sets never
roll back, and a key a bundle was accepted under has signed its manifest. -/
theorem rule_sets_never_roll_back {a : Audit ν π₄ π₆ (ParsedRuleSet μ)}
    (h : Reach Audit.Initial Audit.apply anyAction a) :
    NeverRollsBack a ∧ ∀ x ∈ a.accepted, ∀ key, x.Rightful key →
      RuleSetCrates.verifySig key x.bundle.manifest x.bundle.signature = true := by
  refine ⟨neverRollsBack_of_ledger (ledger_of_reach h), fun x hx key hrightful => ?_⟩
  obtain ⟨floor, now, -, hverify⟩ := hrightful.verified
  exact (verifyRuleSet_ok (asMessage_ok hverify)).1

end

/-! ## A signed list -/

/-- An artifact that lists nothing. -/
def emptyArtifact : List UInt8 := ruleSetMagic ++ List.replicate 72 0

/-- The one byte of a manifest is its sequence number. -/
def byteManifest (sequence : UInt8) : Manifest where
  schema := 2
  name := [0x72]
  format := ruleSetFormat
  sequence := sequence.toNat
  generatedAtUnix := 0
  expiresAtUnix := 1000
  keySha256 := encodeHex (firstBytes [0x6b]).1
  source := ⟨[0x73], httpsScheme ++ [0x72], [0x63], [0x6c], [0x70], encodeHex (List.replicate 32 0)⟩
  artifact := ⟨[0x66], 80, encodeHex (firstBytes emptyArtifact).1, 0, 0⟩
  coreSchema := 1

/-- The signature of a manifest is the key. -/
instance : RuleSetCrates where
  sha256 := firstBytes
  parsesPublicKey _ := true
  verifySig publicKey _ signature := publicKey = signature
  decodeBase64 := some
  schemaOf _ := some (some 2)
  readManifest bytes := bytes.head?.map byteManifest
  categorizedJson := ⟨fun _ => none, fun _ => []⟩

/-- One source, with numbers from two on. -/
def signedConfig : DnsConfig (Subnet 32) (Subnet 128) :=
  { plainConfig with
    ruleSets := [{ name := [0x72], publicKey := [0x6b], minimumSequence := 2, required := false }] }

def signedAudit : Audit Cidr (Subnet 32) (Subnet 128) (ParsedRuleSet OrderedList) where
  world :=
    { policies :=
        { current := ⟨1, plainRoutes, signedConfig, 0, some 0, 0⟩
          store := {}
          nextToken := 1
          published := [⟨1, plainRoutes, signedConfig, 0, some 0, 0⟩] }
      resolvers := makeProxy
        { caches := [(DnsCache.new 4096, {})]
          proxies := [], exchanges := [], served := [], changes := 0, now := 0 } signedConfig 0 [] }
  accepted := []

theorem signedAudit_initial : Audit.Initial signedAudit := by
  refine ⟨⟨plainRoutes, signedConfig, {}, [], DnsCache.new 4096, 0, .inl rfl, rfl, rfl⟩, [], [],
    some 0, rfl, rfl, fun proxy hproxy => ?_, rfl⟩
  rw [mem_singleton.mp hproxy]
  exact ⟨rfl, rfl⟩

/-- A bundle of a number, and what its installation has to do. -/
def installByte (sequence : UInt8) : List (Action Cidr (Subnet 32) (Subnet 128)) :=
  [.call (.installDnsRuleSet ⟨[0x72], [sequence], [0x6b], emptyArtifact⟩) (some 10),
    .act, .act, .act]

/-- Number 3 is accepted, twice; 2 and 1 are refused. -/
theorem third_list_stays :
    let a := (installByte 3 ++ installByte 2 ++ installByte 1 ++ installByte 3).foldl Audit.apply
      signedAudit
    (a.accepted.map fun x => x.verified.metadata.sequence) = [3, 3] ∧
      NeverRollsBack a ∧ ∀ x ∈ a.accepted, ∀ key, x.Rightful key →
        RuleSetCrates.verifySig key x.bundle.manifest x.bundle.signature = true := by
  intro a
  have hreach : Reach Audit.Initial Audit.apply anyAction a :=
    Reach.run (.start signedAudit_initial) (admissible_any _ _ _)
  exact ⟨by decide +kernel, rule_sets_never_roll_back hreach⟩

end Foxcore.Proofs
