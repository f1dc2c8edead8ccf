import Foxcore.Ref.Runtime

/-!
# Who is cut off by a change of policy

A call publishes before it cancels, and flows come and go between its acts.
`Stage` says how far the call under way has come: it is about to publish, it
has published and owes a cancellation, or it owes nothing. In each stage every
token ever published is the current one, cancelled, or the one still owed.

Snapshots that share the current token agree with the current snapshot on the
kill switch. So once a call is over, a flow admitted on the other side of the
switch holds a cancelled token.
-/

namespace Foxcore.Proofs

open Lib Ref List

section

variable {ν π₄ π₆ α : Type}

variable {p : Policies ν π₄ π₆ α} {acts : List (Act ν π₄ π₆ α)} {s : FlowPolicySnapshot ν π₄ π₆}
  {call : PolicyCall ν π₄ π₆} {w : World ν π₄ π₆ α}

/-- The act neither publishes nor cancels. -/
def Silent : Act ν π₄ π₆ α → Prop
  | .store _ => False
  | .cancel _ => False
  | _ => True

/-- Every published token other than the current one is cancelled, except one
that may be owed. -/
def Revoked (p : Policies ν π₄ π₆ α) (owed : Option Nat) : Prop :=
  ∀ s ∈ p.published, s.revocation ≠ p.current.revocation → owed ≠ some s.revocation →
    s.revocation ∈ p.cancelled

/-- The latest call is a reload that sets the kill switch and found the
revision it expected. -/
def AsksKill (p : Policies ν π₄ π₆ α) : Prop :=
  ∃ expected routes config, p.lastCall = some (.reload expected routes config, true) ∧
    routes.killSwitch = true

/-- A snapshot about to be published keeps the current token and the kill
switch as it is, or has a token of its own and the current one is cancelled
next. -/
def Succeeds (p : Policies ν π₄ π₆ α) (s : FlowPolicySnapshot ν π₄ π₆)
    (after : List (Act ν π₄ π₆ α)) : Prop :=
  (s.revocation = p.current.revocation ∧
    s.routes.killSwitch = p.current.routes.killSwitch ∧ ∀ a ∈ after, Silent a) ∨
  ((∀ x ∈ p.published, x.revocation ≠ s.revocation) ∧ s.revocation ∉ p.cancelled ∧
    ∃ rest, after = .cancel p.current.revocation :: rest ∧ ∀ a ∈ rest, Silent a)

/-- How far the call under way has come. -/
inductive Stage (p : Policies ν π₄ π₆ α) : Prop
  | settled : (∀ a ∈ p.acts, Silent a) → Revoked p none →
      (AsksKill p → p.current.routes.killSwitch = true) → Stage p
  | revoking (owed : Nat) (rest : List (Act ν π₄ π₆ α)) : p.acts = .cancel owed :: rest →
      (∀ a ∈ rest, Silent a) → owed ≠ p.current.revocation → owed < p.nextToken →
      Revoked p (some owed) →
      (AsksKill p → p.current.routes.killSwitch = true) → Stage p
  | publishing (before after : List (Act ν π₄ π₆ α)) (s : FlowPolicySnapshot ν π₄ π₆) :
      p.acts = before ++ .store s :: after → (∀ a ∈ before, Silent a) → Revoked p none →
      s.revocation < p.nextToken → Succeeds p s after →
      (AsksKill p → s.routes.killSwitch = true) → Stage p

structure Revocation (p : Policies ν π₄ π₆ α) : Prop where
  stage : Stage p
  current_mem : p.current ∈ p.published
  flows_mem : ∀ f ∈ p.flows, f ∈ p.published
  alive : p.current.revocation ∉ p.cancelled
  same_kill : ∀ s ∈ p.published, s.revocation = p.current.revocation →
    s.routes.killSwitch = p.current.routes.killSwitch
  published_lt : ∀ s ∈ p.published, s.revocation < p.nextToken
  cancelled_lt : ∀ t ∈ p.cancelled, t < p.nextToken

/-! ## The acts of a call -/

/-- Passing over an act that neither publishes nor cancels. -/
theorem revocation_silent (h : Revocation p) {a : Act ν π₄ π₆ α} (hacts : p.acts = a :: acts)
    (hsilent : Silent a) (store : PolicyMutable α) :
    Revocation { p with acts := acts, store := store } := by
  refine ⟨?_, h.current_mem, h.flows_mem, h.alive, h.same_kill, h.published_lt,
    h.cancelled_lt⟩
  cases h.stage with
  | settled hall hrev hkill =>
    refine .settled (fun b hb => hall b ?_) hrev hkill
    rw [hacts]
    exact .tail _ hb
  | revoking owed rest heq =>
    rw [hacts] at heq
    obtain ⟨rfl, -⟩ := List.cons.inj heq
    exact hsilent.elim
  | publishing before after s heq hbefore hrev hlt hsucc hkill =>
    rw [hacts] at heq
    cases before with
    | nil =>
      obtain ⟨rfl, -⟩ := List.cons.inj heq
      exact hsilent.elim
    | cons b before =>
      obtain ⟨rfl, htail⟩ := List.cons.inj heq
      exact .publishing before after s htail (fun x hx => hbefore x (.tail _ hx)) hrev hlt
        hsucc hkill

theorem revocation_cancel (h : Revocation p) {token : Nat}
    (hacts : p.acts = .cancel token :: acts) :
    Revocation { p with acts := acts, cancelled := token :: p.cancelled } := by
  cases h.stage with
  | settled hall =>
    exact (hall (.cancel token) (by rw [hacts]; exact .head _)).elim
  | revoking owed rest heq hrest hne howed hrev hkill =>
    rw [hacts] at heq
    obtain ⟨hhead, rfl⟩ := List.cons.inj heq
    obtain rfl := Act.cancel.inj hhead
    refine ⟨.settled hrest ?_ hkill, h.current_mem, h.flows_mem, ?_, h.same_kill,
      h.published_lt, ?_⟩
    · intro s hs hother _
      by_cases heq : s.revocation = token
      · rw [heq]
        exact .head _
      · exact .tail _ (hrev s hs hother fun hsome => heq (Option.some.inj hsome).symm)
    · exact not_mem_cons_of_ne_of_not_mem hne.symm h.alive
    · exact forall_mem_cons.mpr ⟨howed, h.cancelled_lt⟩
  | publishing before after s heq hbefore =>
    rw [hacts] at heq
    cases before with
    | nil => cases heq
    | cons =>
      obtain ⟨rfl, -⟩ := List.cons.inj heq
      exact (hbefore _ (.head _)).elim

/-- What is about to be published. -/
theorem Stage.storing (h : Stage p) (hacts : p.acts = .store s :: acts) :
    Revoked p none ∧ s.revocation < p.nextToken ∧ Succeeds p s acts ∧
      (AsksKill p → s.routes.killSwitch = true) := by
  cases h with
  | settled hall => exact (hall (.store s) (by rw [hacts]; exact .head _)).elim
  | revoking owed rest heq =>
    rw [hacts] at heq
    cases heq
  | publishing before after s' heq hbefore hrev hlt hsucc hkill =>
    rw [hacts] at heq
    cases before with
    | cons =>
      obtain ⟨rfl, -⟩ := List.cons.inj heq
      exact (hbefore _ (.head _)).elim
    | nil =>
      cases heq
      exact ⟨hrev, hlt, hsucc, hkill⟩

theorem revocation_store (h : Revocation p) (hacts : p.acts = .store s :: acts) :
    Revocation { p with acts := acts, current := s, published := s :: p.published } := by
  obtain ⟨hrev, hlt, hsucc, hkill⟩ := h.stage.storing hacts
  have hflows : ∀ f ∈ p.flows, f ∈ s :: p.published :=
    fun f hf => .tail _ (h.flows_mem f hf)
  have hpublished : ∀ x ∈ s :: p.published, x.revocation < p.nextToken :=
    forall_mem_cons.mpr ⟨hlt, h.published_lt⟩
  rcases hsucc with ⟨hsame, hsw, hafter⟩ | ⟨hnew, hlive, rest, rfl, hrest⟩
  · refine ⟨.settled hafter ?_ hkill, .head _, hflows, ?_, ?_, hpublished,
      h.cancelled_lt⟩
    · intro x hx hother _
      rcases mem_cons.mp hx with rfl | hold
      · exact absurd rfl hother
      · refine hrev x hold ?_ nofun
        rw [← hsame]
        exact hother
    · rw [hsame]
      exact h.alive
    · intro x hx hshared
      rcases mem_cons.mp hx with rfl | hold
      · rfl
      · refine (h.same_kill x hold ?_).trans hsw.symm
        rw [← hsame]
        exact hshared
  · have hother : p.current.revocation ≠ s.revocation := hnew _ h.current_mem
    refine ⟨.revoking p.current.revocation rest rfl hrest hother
      (h.published_lt _ h.current_mem) ?_ hkill, .head _, hflows, hlive, ?_, hpublished,
      h.cancelled_lt⟩
    · intro x hx hne howed
      rcases mem_cons.mp hx with rfl | hold
      · exact absurd rfl hne
      · refine hrev x hold (fun hcur => howed ?_) nofun
        rw [hcur]
    · intro x hx hshared
      rcases mem_cons.mp hx with rfl | hold
      · rfl
      · exact absurd hshared (hnew x hold)

/-! ## A call takes the lock -/

theorem proxyChanged_silent (snapshot : FlowPolicySnapshot ν π₄ π₆) (proxy : Nat)
    (networkChange : Bool) :
    ∀ a ∈ (proxyChanged snapshot proxy networkChange : List (Act ν π₄ π₆ α)), Silent a := by
  simp [proxyChanged, Silent]

theorem revoke_eq (previous : FlowPolicySnapshot ν π₄ π₆) :
    ∃ rest : List (Act ν π₄ π₆ α), revoke previous = .cancel previous.revocation :: rest ∧
      ∀ a ∈ rest, Silent a := by
  refine ⟨_, rfl, fun a ha => ?_⟩
  obtain ⟨proxy, -, hin⟩ := mem_flatMap.mp ha
  exact proxyChanged_silent previous proxy false a hin

/-- What a call finds under the lock: nothing is owed. -/
theorem Stage.idle (h : Stage p) (hidle : p.acts = []) :
    Revoked p none ∧ (AsksKill p → p.current.routes.killSwitch = true) := by
  cases h with
  | settled _ hrev hkill => exact ⟨hrev, hkill⟩
  | revoking owed rest heq => exact absurd (hidle.symm.trans heq) nofun
  | publishing before after s heq =>
    exact absurd (hidle.symm.trans heq).symm (append_ne_nil_of_right_ne_nil _ nofun)

/-- The state of the store once a call has worked out its acts. -/
def taken (p : Policies ν π₄ π₆ α) (call : PolicyCall ν π₄ π₆) (acts : List (Act ν π₄ π₆ α)) :
    Policies ν π₄ π₆ α :=
  { p with
    acts := acts
    nextToken := p.nextToken + 1
    lastCall := some (call, World.passesRevision p.current call) }

theorem asksKill_taken (h : AsksKill (taken p call acts)) :
    ∃ expected routes config, call = .reload expected routes config ∧
      revisionMatches expected p.current = true ∧ routes.killSwitch = true := by
  obtain ⟨expected, routes, config, hlast, hkill⟩ := h
  obtain ⟨rfl, hpass⟩ := Prod.mk.inj (Option.some.inj hlast)
  exact ⟨expected, routes, config, rfl, hpass, hkill⟩

theorem asksKill_reload {expected : Option Nat} {routes : RouteTable ν} {config : DnsConfig π₄ π₆}
    (h : AsksKill (taken p (.reload expected routes config) acts)) :
    revisionMatches expected p.current = true ∧ routes.killSwitch = true := by
  obtain ⟨_, _, _, heq, hasked⟩ := asksKill_taken h
  cases heq
  exact hasked

variable (h : Revocation p)

include h

theorem stage_none (hidle : p.acts = [])
    (hkill : AsksKill (taken p call []) → p.current.routes.killSwitch = true) :
    Stage (taken p call []) := by
  exact .settled (forall_mem_nil _) (h.stage.idle hidle).1 hkill

/-- A snapshot under a new token, with the old one cancelled next. -/
theorem stage_renewed (hidle : p.acts = []) {before rest : List (Act ν π₄ π₆ α)}
    (htoken : s.revocation = p.nextToken) (hbefore : ∀ a ∈ before, Silent a)
    (hrest : ∀ a ∈ rest, Silent a) (hkill : AsksKill (taken p call
      (before ++ .store s :: .cancel p.current.revocation :: rest)) →
        s.routes.killSwitch = true) :
    Stage (taken p call (before ++ .store s :: .cancel p.current.revocation :: rest)) := by
  have hrev : Revoked p none := (h.stage.idle hidle).1
  refine .publishing before _ s rfl hbefore hrev ?_
    (.inr ⟨fun x hx => ?_, fun hin => ?_, rest, rfl, hrest⟩) hkill
  · show s.revocation < p.nextToken + 1
    omega
  · have := h.published_lt x hx
    omega
  · have := h.cancelled_lt _ hin
    omega

/-- A snapshot under the current token and the current switch. -/
theorem stage_kept (hidle : p.acts = []) {before after : List (Act ν π₄ π₆ α)}
    (htoken : s.revocation = p.current.revocation)
    (hswitch : s.routes.killSwitch = p.current.routes.killSwitch) (hbefore : ∀ a ∈ before, Silent a)
    (hafter : ∀ a ∈ after, Silent a)
    (hkill : AsksKill (taken p call (before ++ .store s :: after)) → s.routes.killSwitch = true) :
    Stage (taken p call (before ++ .store s :: after)) := by
  have hrev : Revoked p none := (h.stage.idle hidle).1
  refine .publishing before after s rfl hbefore hrev ?_
    (.inl ⟨htoken, hswitch, hafter⟩) hkill
  have := h.published_lt _ h.current_mem
  show s.revocation < p.nextToken + 1
  omega

theorem stage_networkChanged (hidle : p.acts = []) {unused : Unused}
    (htoken : unused.token = p.nextToken) :
    Stage (taken p .networkChanged (networkChanged p.current unused)) := by
  refine stage_renewed h hidle htoken (fun a ha => ?_) (forall_mem_nil _)
    fun hasks => ?_
  · split at ha
    · next proxy _ => exact proxyChanged_silent p.current proxy true a ha
    · rw [mem_singleton.mp ha]
      trivial
  · obtain ⟨_, _, _, ⟨⟩, -⟩ := asksKill_taken hasks

variable [RuleSetVerifier α]

theorem stage_reload (hidle : p.acts = []) {unused : Unused} (htoken : unused.token = p.nextToken)
    (clock expected : Option Nat) (routes : RouteTable ν) (config : DnsConfig π₄ π₆) :
    Stage (taken p (.reload expected routes config)
      (reload p.current p.store unused clock expected routes config).2) := by
  obtain ⟨rest, hrevoke, hrest⟩ := revoke_eq (α := α) p.current
  fun_cases reload p.current p.store unused clock expected routes config with
  | case1 hconflict =>
    refine stage_none h hidle fun hasks => ?_
    rw [(asksKill_reload hasks).1] at hconflict
    cases hconflict
  | case2 =>
    rw [hrevoke]
    exact stage_renewed h hidle htoken (forall_mem_nil _) hrest fun _ => rfl
  | case3 _ _ _ hno =>
    refine stage_none h hidle fun hasks => ?_
    by_contra hoff
    exact hno ⟨(asksKill_reload hasks).2, Bool.eq_false_iff.mpr hoff⟩
  | case4 _ _ artifacts _ revokePrevious snapshot =>
    have hbefore : ∀ a ∈ ([.forkCache p.current.dns config.cacheSize,
        .makeProxy config unused.cache artifacts] : List (Act ν π₄ π₆ α)), Silent a := by
      simp [Silent]
    dsimp only [snapshot]
    by_cases hswitch : (routes.killSwitch || p.current.routes.killSwitch) = true
    · rw [if_pos hswitch, if_pos hswitch, hrevoke]
      exact stage_renewed h hidle htoken hbefore hrest fun hasks => (asksKill_reload hasks).2
    · rw [if_neg hswitch, if_neg hswitch]
      obtain ⟨hoff, hcurrent⟩ := Bool.or_eq_false_iff.mp (Bool.eq_false_iff.mpr hswitch)
      refine stage_kept h hidle ?_ ?_ hbefore (forall_mem_nil _)
        fun hasks => (asksKill_reload hasks).2
      · rfl
      · exact hoff.trans hcurrent.symm

theorem stage_install (hidle : p.acts = []) (unused : Unused) (clock : Option Nat)
    (bundle : RuleSetBundle) : Stage (taken p (.installDnsRuleSet bundle)
      (installDnsRuleSet p.current p.store unused clock bundle).2) := by
  have hasks : ∀ {acts : List (Act ν π₄ π₆ α)} {P : Prop},
      AsksKill (taken p (.installDnsRuleSet bundle) acts) → P := by
    intro acts P hasks
    obtain ⟨_, _, _, ⟨⟩, -⟩ := asksKill_taken hasks
  fun_cases installDnsRuleSet p.current p.store unused clock bundle with
  | case1 | case2 | case3 => exact stage_none h hidle hasks
  | case4 configured verified _ _ artifacts =>
    have hbefore : ∀ a ∈ ([.makeProxy p.current.dnsConfig p.current.dns artifacts] :
        List (Act ν π₄ π₆ α)), Silent a := forall_mem_singleton.mpr trivial
    refine stage_kept h hidle ?_ ?_ hbefore (forall_mem_singleton.mpr ?_) hasks
    · rfl
    · rfl
    · trivial

omit h

theorem revocation_takeLock (h : Revocation w.policies) (call : PolicyCall ν π₄ π₆)
    (clock : Option Nat) : Revocation (w.takeLock call clock).policies := by
  rw [World.takeLock]
  split
  · next hempty =>
    have hidle : w.policies.acts = [] := isEmpty_iff.mp hempty
    refine ⟨?_, h.current_mem, h.flows_mem, h.alive, h.same_kill,
      fun s hs => Nat.lt_succ_of_lt (h.published_lt s hs),
      fun t ht => Nat.lt_succ_of_lt (h.cancelled_lt t ht)⟩
    cases call with
    | reload expected routes config =>
      exact stage_reload h hidle rfl clock expected routes config
    | installDnsRuleSet bundle => exact stage_install h hidle _ clock bundle
    | networkChanged => exact stage_networkChanged h hidle rfl
  · exact h

omit [RuleSetVerifier α] in
theorem revocation_act (h : Revocation w.policies) : Revocation w.act.policies := by
  fun_cases World.act w with
  | case1 | case7 => exact h
  | case4 _ _ hacts => exact revocation_store h hacts
  | case5 _ _ hacts => exact revocation_cancel h hacts
  | case2 _ _ _ hacts | case3 _ _ _ _ hacts | case6 _ _ hacts | case8 _ _ _ hacts
  | case9 _ _ hacts | case10 _ _ hacts => exact revocation_silent h hacts trivial _

theorem revocation_apply (h : Revocation w.policies) (action : Action ν π₄ π₆) :
    Revocation (w.apply action).policies := by
  fun_cases World.apply w action with
  | case1 call clock => exact revocation_takeLock h call clock
  | case2 => exact revocation_act h
  | case3 =>
    refine ⟨?_, h.current_mem, fun f hf => ?_, h.alive, h.same_kill, h.published_lt,
      h.cancelled_lt⟩
    · cases h.stage with
      | settled hall hrev hkill => exact .settled hall hrev hkill
      | revoking owed rest heq hrest hne howed hrev hkill =>
        exact .revoking owed rest heq hrest hne howed hrev hkill
      | publishing before after s heq hbefore hrev hlt hsucc hkill =>
        exact .publishing before after s heq hbefore hrev hlt hsucc hkill
    · rcases mem_append.mp hf with hold | hnew
      · exact h.flows_mem f hold
      · rw [mem_singleton.mp hnew]
        exact h.current_mem
  | _ => exact h

theorem revocation_of_reach {ok : World ν π₄ π₆ α → Action ν π₄ π₆ → Prop}
    (h : Reach World.Initial World.apply ok w) : Revocation w.policies := by
  refine Reach.invariant (P := fun w => Revocation w.policies) ?_
    (fun w action hw _ => revocation_apply hw action) h
  rintro w ⟨routes, config, store, artifacts, cache, now, -, hpolicies, -⟩
  rw [hpolicies]
  refine ⟨.settled (forall_mem_nil _) ?_ ?_, .head _, forall_mem_nil _,
    not_mem_nil, ?_, ?_, forall_mem_nil _⟩
  · intro s hs hother _
    rw [mem_singleton.mp hs] at hother
    exact absurd rfl hother
  · rintro ⟨_, _, _, ⟨⟩, -⟩
  · intro s hs _
    rw [mem_singleton.mp hs]
  · intro s hs
    rw [mem_singleton.mp hs]
    exact Nat.one_pos

/-- In every interleaving of calls, admissions and exchanges the current token
is not cancelled, and whenever no call is under way: every other token ever
published is cancelled; after a reload that asked for the kill switch and found
its revision, whatever it answered, the switch is set and flows admitted
without it are cut off; and with the switch off, flows admitted under it are
cut off. -/
theorem calls_revoke_across_switch {w : World ν π₄ π₆ α}
    (h : Reach World.Initial World.apply anyAction w) :
    w.policies.current.revocation ∉ w.policies.cancelled ∧
    (w.policies.acts = [] →
      (∀ s ∈ w.policies.published, s.revocation = w.policies.current.revocation ∨
        s.revocation ∈ w.policies.cancelled) ∧
      (∀ expected routes config,
        w.policies.lastCall = some (.reload expected routes config, true) →
          routes.killSwitch = true →
          w.policies.current.routes.killSwitch = true ∧
          ∀ f ∈ w.policies.flows, f.routes.killSwitch = false →
            f.revocation ∈ w.policies.cancelled) ∧
      (w.policies.current.routes.killSwitch = false →
        ∀ f ∈ w.policies.flows, f.routes.killSwitch = true →
          f.revocation ∈ w.policies.cancelled)) := by
  have hinv := revocation_of_reach h
  refine ⟨hinv.alive, fun hidle => ?_⟩
  obtain ⟨hrev, hasks⟩ := hinv.stage.idle hidle
  -- a flow that disagrees with the current snapshot on the switch does not
  -- share its token
  have hcut : ∀ f ∈ w.policies.flows,
      f.routes.killSwitch ≠ w.policies.current.routes.killSwitch →
        f.revocation ∈ w.policies.cancelled := by
    intro f hf hne
    have hmem := hinv.flows_mem f hf
    exact hrev f hmem (fun hshared => hne (hinv.same_kill f hmem hshared))
      nofun
  refine ⟨fun s hs => ?_, fun expected routes config hlast hkill => ?_, fun hoff f hf hon => ?_⟩
  · by_cases hcur : s.revocation = w.policies.current.revocation
    · exact .inl hcur
    · exact .inr (hrev s hs hcur nofun)
  · have hset := hasks ⟨expected, routes, config, hlast, hkill⟩
    refine ⟨hset, fun f hf hoff => hcut f hf ?_⟩
    rw [hset, hoff]
    exact Bool.noConfusion
  · refine hcut f hf ?_
    rw [hoff, hon]
    exact Bool.noConfusion

end

/-! ## A switch set by a reload that fails -/

/-- A verifier that accepts nothing, for artifacts that carry nothing. -/
instance : RuleSetVerifier Unit where
  decodeBase64 _ := some [0]
  sha256 bytes := bytes
  verifyRuleSet _ _ _ _ _ := .error "no signature"
  selectCategories artifact _ := .ok artifact

/-- A configuration with one upstream. -/
def plainConfig : DnsConfig (Subnet 32) (Subnet 128) where
  upstreams := [.udp (Str.ofChars ['u'])]
  fakeIpv4Pool := ⟨0xc6120000, 15⟩
  fakeIpv6Pool := ⟨0xfd000000000000000000000000000000, 64⟩

def plainRoutes : RouteTable Cidr := RouteTable.compile [] .direct

/-- A store just made with them. -/
def plainWorld : World Cidr (Subnet 32) (Subnet 128) Unit where
  policies :=
    { current := ⟨1, plainRoutes, plainConfig, 0, some 0, 0⟩
      store := {}
      nextToken := 1
      published := [⟨1, plainRoutes, plainConfig, 0, some 0, 0⟩] }
  resolvers := Resolvers.makeProxy
    { caches := [(DnsCache.new 4096, {})]
      proxies := [], exchanges := [], served := [], changes := 0, now := 0 } plainConfig 0 []

theorem plainWorld_initial : World.Initial plainWorld :=
  ⟨plainRoutes, plainConfig, {}, [], DnsCache.new 4096, 0, .inl rfl, rfl, rfl⟩

/-- A configuration that requires a rule set nobody has installed. -/
def lackingConfig : DnsConfig (Subnet 32) (Subnet 128) :=
  { plainConfig with ruleSets := [{ name := Str.ofChars ['r'], publicKey := [] }] }

/-- A flow is admitted; a reload sets the kill switch with a configuration that
cannot be installed; the flow is cut off all the same. -/
theorem failed_reload_sets_switch :
    let w := (plainWorld.apply .admitFlow).apply
      (.call (.reload none plainRoutes.withEmergencyBlock lackingConfig) (some 0))
    let w := ((((w.apply .act).apply .act).apply .act).apply .act).apply .act
    w.policies.current.routes.killSwitch = true ∧
      ∀ f ∈ w.policies.flows, f.routes.killSwitch = false →
        f.revocation ∈ w.policies.cancelled := by
  intro w₁ w
  have hreach : Reach World.Initial World.apply anyAction w :=
    .step (.step (.step (.step (.step (.step (.step (.start plainWorld_initial) trivial)
      trivial) trivial) trivial) trivial) trivial) trivial
  exact ((calls_revoke_across_switch hreach).2 rfl).2.1 _ _ _ rfl rfl

end Foxcore.Proofs
