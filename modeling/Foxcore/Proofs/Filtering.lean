import Foxcore.Proofs.BlocklistRefine
import Foxcore.Proofs.NetworkEpoch
import Foxcore.Proofs.Replies
import Foxcore.Ref.Filtering

/-!
# No answer leads to a blocked name

A response goes out in the step that has just looked at it, or from a phase
that was entered past the blocklist. So the invariant is about the exchanges
under way: the name asked for is not blocked, and a response in hand has
passed. What the cache holds does not matter, whoever put it there.
-/

namespace Foxcore.Proofs

open Lib Ref Spec List Option FilteredWorld Filter Resolvers DomainBlocklist

variable {query packet response : Packet} {e e' : Exchange} {now : Nat} {act : ExchangeAct}

/-! ## A list without entries -/

section

variable {μ : Type} [Transducer μ UInt8 Flags]

theorem collect_eq_of_entries {l : List (Str × Flags)} {listed : Listed}
    (h : (l.foldl Listed.add listed).entries = 0) : l.foldl Listed.add listed = listed := by
  induction l generalizing listed with
  | nil => rfl
  | cons listing l ih =>
    rw [foldl_cons] at h ⊢
    have hrest := ih h
    rw [hrest] at h ⊢
    rw [Listed.add] at h ⊢
    split at h
    · rfl
    · exact absurd h (Nat.succ_ne_zero _)

/-- Lists count what they block. -/
def Counted (list : DomainBlocklist μ) : Prop := list.entries = 0 → list.maps = []

theorem counted_compileSources (sources : List BlocklistSource) :
    Counted (compileSources sources : DomainBlocklist μ) := by
  rw [compileSources]
  split
  · exact fun _ => rfl
  · next map hmap =>
    intro hzero
    have hkeys : (Listed.collect (sources.flatMap BlocklistSource.listings)).keys = ∅ :=
      congrArg Listed.keys (collect_eq_of_entries hzero)
    rw [hkeys] at hmap
    exact absurd hmap (by simp [compileMap])

theorem counted_withRuleSets {list : DomainBlocklist μ} (h : Counted list)
    (ruleSets : List (RuleSetArtifact μ)) : Counted (list.withRuleSets ruleSets) := by
  induction ruleSets generalizing list with
  | nil => exact h
  | cons ruleSet ruleSets ih =>
    refine ih ?_
    rw [withRuleSet]
    split
    · exact h
    · intro hzero
      have hsum : min (list.entries + ruleSet.blockEntries) (2 ^ 64 - 1) = 0 := hzero
      have hnone : ¬ 0 < ruleSet.blockEntries := by omega
      rw [if_neg hnone, append_nil]
      exact h (by omega)

theorem counted_blocklist (f : Ref.Filter μ) : Counted f.blocklist := by
  refine counted_withRuleSets ?_ f.ruleSets
  rw [withAllowlist]
  split
  · exact counted_compileSources _
  · exact counted_compileSources _

/-- A list without entries blocks nothing. -/
theorem lookup_eq_none_of_empty {f : Ref.Filter μ} (h : f.blocklist.entries = 0) (name : Str) :
    f.blocklist.lookup name = none := by
  rw [DomainBlocklist.lookup, counted_blocklist f h]
  split
  · rfl
  · split
    · rfl
    · simp

end

/-! ## Responses that have passed -/

section

variable {μ : Type} [Transducer μ UInt8 Flags]

/-- A response without an error leads from the name asked for to no name that is
blocked. -/
def Uncloaked (list : DomainBlocklist μ) (query packet : Packet) : Prop :=
  ∀ parsed flags, parseQuestion query = some parsed → parsed.question.class_ = classIn →
    be16 packet 2 = some flags → flags &&& 0x000f = 0 →
    ∀ name, LeadsTo packet parsed.question.domain name → list.lookup name = none

/-- The name a query asks for is not blocked. -/
def Unblocked (list : DomainBlocklist μ) (query : Packet) : Prop :=
  ∀ parsed, parseQuestion query = some parsed → list.lookup parsed.question.domain = none

theorem uncloaked_of_clear {f : Ref.Filter μ} (hquery : Unblocked f.blocklist query)
    (h : f.blockedResponseAlias query packet = .clear) : Uncloaked f.blocklist query packet := by
  intro parsed flags hparsed hclass hflags hrcode name hleads
  rw [blockedResponseAlias] at h
  split at h
  · next hempty => exact lookup_eq_none_of_empty hempty name
  · split at h
    · cases h
    · next chain hchain =>
      split at h
      · cases h
      · next hclear =>
        obtain ⟨records, hof⟩ := responseDomainChain_spec hchain hparsed hclass hflags hrcode
        rcases mem_cons.mp (hof.names name hleads) with rfl | hmem
        · exact hquery parsed hparsed
        · by_contra hblocked
          refine hclear (any_eq_true.mpr ⟨name, hmem, ?_⟩)
          exact isSome_iff_ne_none.mpr hblocked

/-- A refusal has an error in it, and nothing is said of those. -/
theorem uncloaked_nxdomain {list : DomainBlocklist μ} (h : nxdomainResponse query = some packet) :
    Uncloaked list query packet := by
  intro parsed flags _ _ hflags hrcode
  obtain ⟨parsed', requestFlags, hparsed', -, heq⟩ := emptyResponse_eq h
  obtain ⟨w, hq⟩ := questionAt_of_parse hparsed'
  have hr : ReplyOf _ _ _ _ _ _ _ := ⟨hq, heq⟩
  have hextra : 3 ∈ replyExtras := by decide
  have hread := (hr.header (replyFlags_lt requestFlags hextra) (by decide)).2.2.1
  rw [← some.inj (hread.symm.trans hflags), replyFlags_and] at hrcode
  have hbit := congrArg (Nat.testBit · 0) hrcode
  simp only [Nat.testBit_or, Nat.zero_testBit, Bool.or_eq_false_iff] at hbit
  exact absurd hbit.2 (by decide)

end

/-! ## One exchange -/

section

variable {μ π₄ π₆ α : Type} [Transducer μ UInt8 Flags]

/-- The response an exchange has in hand, past the blocklist. -/
def InHand : Phase → Packet → Prop
  | .relearning response _, packet => packet = response
  | .storing _ response, packet => packet = response
  | .inserting response, packet => packet = response
  | .teaching response, packet => packet = response
  | _, _ => False

/-- An exchange that does not bypass filtering asks for a name that is not
blocked, and a response it has in hand has passed. -/
structure Passed (f : Ref.Filter μ) (e : Exchange) : Prop where
  name : e.bypassesFiltering = false → Unblocked f.blocklist e.query
  response : e.bypassesFiltering = false → ∀ packet, InHand e.phase packet →
    f.blockedResponseAlias e.query packet = .clear

/-- What a step leaves alone of an exchange. -/
structure Keeps (e e' : Exchange) : Prop where
  proxy : e'.proxy = e.proxy
  query : e'.query = e.query
  bypasses : e'.bypassesFiltering = e.bypassesFiltering

/-- A step of an exchange that is not let past the blocklist by it. -/
def Stays (f : Ref.Filter μ) (e e' : Exchange) : Prop :=
  Keeps e e' ∧ (e.bypassesFiltering = false → ∀ packet, InHand e'.phase packet →
    InHand e.phase packet ∨ f.blockedResponseAlias e.query packet = .clear)

theorem passed_of_stays {f : Ref.Filter μ} (h : Passed f e) (hs : Stays f e e') : Passed f e' := by
  obtain ⟨⟨-, hquery, hbypasses⟩, hresponse⟩ := hs
  refine ⟨fun hfilter => ?_, fun hfilter packet hin => ?_⟩
  · rw [hbypasses] at hfilter
    rw [hquery]
    exact h.name hfilter
  · rw [hbypasses] at hfilter
    rw [hquery]
    rcases hresponse hfilter packet hin with hold | hclear
    · exact h.response hfilter packet hold
    · exact hclear

variable {d : Desk π₄ π₆ α} {f : Ref.Filter μ}

theorem inSection_of_inHand {phase : Phase} (h : InHand phase packet) : InSection phase := by
  cases phase with
  | relearning | storing | inserting | teaching => exact trivial
  | _ => exact h

/-- What the cache has is judged by what the blocklist says of it. -/
theorem verdict_of_found {stale : Bool} {verdict : AliasVerdict} {act' : ExchangeAct}
    (hact : f.withVerdict d now act = act') (hfound : Found d now stale verdict act' response) :
    f.blockedResponseAlias d.exchange.query response = verdict := by
  have hsome : d.found now stale = some response := hfound.found
  have heq := hact.trans hfound.act_eq
  cases stale with
  | true =>
    cases act with
    | lookupStale =>
      rw [withVerdict, hsome] at heq
      exact ExchangeAct.lookupStale.inj heq
    | enter =>
      simp only [withVerdict] at heq
      split at heq <;> cases heq
    | _ => cases heq
  | false =>
    cases act with
    | lookup =>
      rw [withVerdict, hsome] at heq
      exact ExchangeAct.lookup.inj heq
    | enter =>
      simp only [withVerdict] at heq
      split at heq <;> cases heq
    | _ => cases heq

theorem verdict_of_answered {i : Nat} {verdict : AliasVerdict}
    (hact : f.withVerdict d now act = .enter verdict)
    (hphase : d.exchange.phase = .answered i response) :
    f.blockedResponseAlias d.exchange.query response = verdict := by
  cases act with
  | enter =>
    rw [withVerdict, hphase] at hact
    exact ExchangeAct.enter.inj hact
  | _ => cases hact

/-- A step to a phase with a response that was in hand before, or with none. -/
theorem stays_goTo (he : Keeps d.exchange e)
    (hin : ∀ packet, InHand e.phase packet → InHand d.exchange.phase packet) :
    Stays f d.exchange e :=
  ⟨he, fun _ packet hhand => .inl (hin packet hhand)⟩

theorem keeps_phase (h : e' = e) (phase : Phase) : Keeps e { e' with phase } := by
  rw [h]
  exact ⟨rfl, rfl, rfl⟩

/-- One step of an exchange, with the blocklist's answers in it. -/
theorem stays_step (index changes now : Nat) (revoked : Bool) (act : ExchangeAct) :
    Stays f d.exchange
      (d.step index changes now revoked (f.withVerdict d now act)).exchange := by
  have hkeeps : ∀ phase, Keeps d.exchange { d.exchange with phase } := keeps_phase rfl
  have hout : ∀ {phase}, ¬ InSection phase → ∀ packet, InHand phase packet →
      InHand d.exchange.phase packet :=
    fun hout _ hhand => absurd (inSection_of_inHand hhand) hout
  have houtcome := outcome_step d index changes now revoked (f.withVerdict d now act)
  generalize hact : f.withVerdict d now act = act' at houtcome ⊢
  generalize d.step index changes now revoked act' = d' at houtcome ⊢
  cases houtcome with
  | stay => exact ⟨⟨rfl, rfl, rfl⟩, fun _ _ h => .inl h⟩
  | begin => exact stays_goTo ⟨rfl, rfl, rfl⟩ (hout id)
  | goTo hphase | miss _ hphase => exact stays_goTo (hkeeps _) (hout hphase)
  | found => exact stays_goTo (hkeeps .done) (hout id)
  | reject _ hphase => exact stays_goTo (hkeeps _) (hout hphase)
  | serve hfound hpasses =>
    refine ⟨hkeeps _, fun hfilter packet hin => .inr ?_⟩
    obtain rfl : packet = _ := hin
    simp only [hfilter, Bool.false_or, decide_eq_true_eq] at hpasses
    rw [← hpasses]
    exact verdict_of_found hact hfound
  | enter hphase hclear =>
    refine ⟨hkeeps _, fun hfilter packet hin => .inr ?_⟩
    obtain rfl : packet = _ := hin
    rw [← hclear hfilter]
    exact verdict_of_answered hact hphase
  | observe hphase => exact stays_goTo (hkeeps _) fun packet hin => by rw [hphase]; exact hin
  | insert hphase =>
    exact stays_goTo (keeps_phase (insert_frame d now _).1 _)
      fun packet hin => by rw [hphase]; exact hin
  | relearn | teach => exact stays_goTo (keeps_phase (learn_frame d now _ _).1 .done) (hout id)

/-- What is returned of a response found in the cache. -/
theorem uncloaked_serve (hpassed : Passed f d.exchange)
    (hfilter : d.exchange.bypassesFiltering = false) (h : f.serve d response = some packet) :
    Uncloaked f.blocklist d.exchange.query packet := by
  rw [serve, hfilter, if_neg Bool.false_ne_true] at h
  split at h
  · next hclear =>
    split at h
    · cases h
    · cases h
      exact uncloaked_of_clear (hpassed.name hfilter) hclear
  · exact uncloaked_nxdomain h
  · cases h

theorem uncloaked_synthesized [Ipv4Net π₄] [Ipv6Net π₆] {fake : FakeState}
    (hpassed : Passed f d.exchange) (hfilter : d.exchange.bypassesFiltering = false)
    (h : synthesized d now fake = some packet) :
    Uncloaked f.blocklist d.exchange.query packet := by
  rw [synthesized] at h
  split at h
  · next reply hreply =>
    subst h
    have hnone : ∀ owner target, ¬ AliasIn packet owner target := by
      rcases fakeResponse_cases hreply with ⟨-, hempty⟩ | ⟨parsed, address, hasked, -, rfl⟩
      · exact no_alias_empty (by decide) hempty
      · exact no_alias_answer hasked _ address
    intro parsed flags hparsed hclass hflags hrcode name hleads
    rw [leadsTo_of_no_alias hnone hleads]
    exact hpassed.name hfilter parsed hparsed
  · cases h

/-- What a step of an exchange returns leads to no blocked name. -/
theorem uncloaked_returned [Ipv4Net π₄] [Ipv6Net π₆] {fake : FakeState}
    (hpassed : Passed f d.exchange) (hfilter : d.exchange.bypassesFiltering = false)
    (h : f.returned d now fake act = some packet) :
    Uncloaked f.blocklist d.exchange.query packet := by
  -- a response in hand has passed, and any other is looked at in the same step
  have hhand : ∀ response, InHand d.exchange.phase response →
      Uncloaked f.blocklist d.exchange.query response := fun response hin =>
    uncloaked_of_clear (hpassed.name hfilter) (hpassed.response hfilter response hin)
  revert h
  fun_cases returned f d now fake act with
  | case2 => exact uncloaked_serve hpassed hfilter
  | case3 => exact uncloaked_synthesized hpassed hfilter
  | case5 response _ hphase | case10 response hphase =>
    rintro ⟨⟩
    exact hhand packet (by rw [hphase]; exact rfl)
  | case7 => exact uncloaked_nxdomain
  | case13 =>
    intro h
    obtain ⟨response, -, hserve⟩ := bind_eq_some_iff.mp h
    exact uncloaked_serve hpassed hfilter hserve
  | _ => exact nofun

end

/-! ## Runs -/

section

variable {μ ν π₄ π₆ α : Type} [Transducer μ UInt8 Flags] {filters : Nat → Ref.Filter μ}
  {s : FilteredWorld ν π₄ π₆ α}

/-- What of an exchange filtering depends on. -/
def core (e : Exchange) : Nat × Packet × Bool × Phase :=
  (e.proxy, e.query, e.bypassesFiltering, e.phase)

theorem passed_of_core {f : Ref.Filter μ} (h : core e' = core e) (hpassed : Passed f e) :
    Passed f e' := by
  simp only [core, Prod.mk.injEq] at h
  obtain ⟨-, hquery, hbypasses, hphase⟩ := h
  constructor
  · rw [hbypasses, hquery]
    exact hpassed.name
  · rw [hbypasses, hquery, hphase]
    exact hpassed.response

theorem changeNetwork_core (r : Resolvers π₄ π₆ α) (proxy : Option Nat) (cache : Nat) :
    (r.changeNetwork proxy cache).exchanges.map core = r.exchanges.map core := by
  show (r.exchanges.map _).map core = _
  rw [List.map_map]
  refine map_congr_left fun e _ => ?_
  show core (if proxy = some e.proxy then e else { e with passedOver := true }) = core e
  split
  · rfl
  · rfl

/-- Acts of a call leave the exchanges where they are. -/
theorem act_core (w : World ν π₄ π₆ α) :
    w.act.resolvers.exchanges.map core = w.resolvers.exchanges.map core := by
  fun_cases World.act w with
  | case2 source capacity => fun_cases forkCache w.resolvers source capacity <;> rfl
  | case3 config cache artifacts =>
    fun_cases makeProxy w.resolvers config cache artifacts <;> rfl
  | case6 proxy _ _ _ hclose => obtain ⟨_, _, _, rfl⟩ | ⟨_, rfl⟩ := closeEpoch_cases hclose <;> rfl
  | case8 cache networkChange =>
    cases networkChange with
    | true => exact changeNetwork_core _ _ _
    | false => rfl
  | _ => rfl

theorem desk_exchange {r : Resolvers π₄ π₆ α} {index : Nat} {d : Desk π₄ π₆ α}
    (h : r.desk index = some d) : r.exchanges[index]? = some d.exchange := by
  obtain ⟨exchange, hexchange, h⟩ := bind_eq_some_iff.mp h
  obtain ⟨proxy, -, h⟩ := bind_eq_some_iff.mp h
  obtain ⟨⟨cache, trail⟩, -, h⟩ := bind_eq_some_iff.mp h
  rw [← some.inj h]
  exact hexchange

variable [RuleSetVerifier α]

theorem elsewhere_core (w : World ν π₄ π₆ α) {action : Action ν π₄ π₆}
    (h : action.isExchange = false) :
    (w.apply action).resolvers.exchanges.map core = w.resolvers.exchanges.map core := by
  fun_cases World.apply w action with
  | case1 call clock => fun_cases World.takeLock w call clock <;> rfl
  | case2 => exact act_core w
  | case4 | case5 | case6 | case7 | case8 => cases h
  | case9 _ identity address snapshot =>
    fun_cases readHints w.resolvers snapshot.dns identity address <;> rfl
  | _ => rfl

/-- Every exchange has passed its proxy's filter, and every packet returned to
an exchange that does not bypass filtering is uncloaked. -/
structure Filtered (filters : Nat → Ref.Filter μ) (s : FilteredWorld ν π₄ π₆ α) : Prop where
  exchanges : ∀ e ∈ s.world.resolvers.exchanges, Passed (filters e.proxy) e
  replies : ∀ reply ∈ s.replies, reply.bypassesFiltering = false →
    Uncloaked (filters reply.proxy).blocklist reply.query reply.packet

theorem passed_of_map_core {l l' : List Exchange} (hmap : l'.map core = l.map core)
    (h : ∀ e ∈ l, Passed (filters e.proxy) e) : ∀ e ∈ l', Passed (filters e.proxy) e := by
  intro e he
  have hcore : core e ∈ l.map core := by
    rw [← hmap]
    exact mem_map_of_mem he
  obtain ⟨e₀, he₀, hsame⟩ := mem_map.mp hcore
  have hproxy : e₀.proxy = e.proxy := congrArg Prod.fst hsame
  rw [← hproxy]
  exact passed_of_core hsame.symm (h e₀ he₀)

/-- A step of an exchange keeps every exchange passed. -/
theorem passed_exchange {w : World ν π₄ π₆ α}
    (h : ∀ e ∈ w.resolvers.exchanges, Passed (filters e.proxy) e) {index : Nat} {act : ExchangeAct}
    (hstays : ∀ d, w.resolvers.desk index = some d → Stays (filters d.exchange.proxy) d.exchange
      (d.step index w.resolvers.changes w.resolvers.now
        (w.policies.cancelled.contains d.exchange.lease) act).exchange) :
    ∀ e ∈ (w.apply (.exchange index act)).resolvers.exchanges, Passed (filters e.proxy) e := by
  cases hdesk : w.resolvers.desk index with
  | none =>
    have hsame : (w.apply (.exchange index act)).resolvers = w.resolvers := by
      show w.resolvers.exchangeStep w.policies.cancelled index act = _
      rw [exchangeStep, hdesk]
    rw [hsame]
    exact h
  | some d =>
    show ∀ e ∈ (w.resolvers.exchangeStep w.policies.cancelled index act).exchanges, _
    rw [exchangeStep, hdesk]
    intro e he
    rcases mem_or_eq_of_mem_set he with hold | rfl
    · exact h e hold
    · have hs := hstays d hdesk
      rw [hs.1.proxy]
      exact passed_of_stays (h _ (mem_of_getElem? (desk_exchange hdesk))) hs

theorem admitQuery_refused {f : Ref.Filter μ} {reply : Packet} {primaryPackage : Option Str}
    {packages : List Str} (h : f.admitQuery query primaryPackage packages = .ok (.refused reply)) :
    nxdomainResponse query = some reply := by
  revert h
  fun_cases admitQuery f query primaryPackage packages with
  | case4 _ _ _ _ _ _ _ hreply =>
    rintro ⟨⟩
    exact hreply
  | _ => exact nofun

theorem admitQuery_admitted {f : Ref.Filter μ} {primaryPackage : Option Str} {packages : List Str}
    {bypasses : Bool} (h : f.admitQuery query primaryPackage packages = .ok (.admitted bypasses))
    (hfilter : bypasses = false) : Unblocked f.blocklist query := by
  revert h
  fun_cases admitQuery f query primaryPackage packages with
  | case6 _ parsed hparsed _ _ hopen =>
    intro h parsed' hparsed'
    have hbypasses := Admission.admitted.inj (Except.ok.inj h)
    cases hparsed.symm.trans hparsed'
    by_contra hblocked
    exact hopen ⟨hbypasses.trans hfilter, isSome_iff_ne_none.mpr hblocked⟩
  | _ => exact nofun

theorem beginExchange_exchanges (w : World ν π₄ π₆ α) {flow : Nat}
    {snapshot : FlowPolicySnapshot ν π₄ π₆} {proxy : Nat}
    (hflow : w.policies.flows[flow]? = some snapshot) (hproxy : snapshot.dnsProxy = some proxy)
    (query : Packet) (identity : Option DnsIdentity) (bypasses : Bool) :
    ∀ e ∈ (w.apply (.beginExchange flow query identity bypasses)).resolvers.exchanges,
      e ∈ w.resolvers.exchanges ∨
        (e.proxy = proxy ∧ e.query = query ∧ e.bypassesFiltering = bypasses ∧
          e.phase = .begun) := by
  intro e he
  simp only [World.apply, hflow, hproxy] at he
  split at he
  · exact .inl he
  · simp only [beginExchange] at he
    split at he
    · exact .inl he
    · rcases mem_append.mp he with hold | hnew
      · exact .inl hold
      · rw [mem_singleton.mp hnew]
        exact .inr ⟨rfl, rfl, rfl, rfl⟩

theorem filtered_ask (h : Filtered filters s) (flow : Nat) (query : Packet) (uid : Option Nat)
    (primaryPackage : Option Str) (packages : List Str) :
    Filtered filters (s.ask filters flow query uid primaryPackage packages) := by
  fun_cases ask filters s flow query uid primaryPackage packages with
  | case5 snapshot hflow proxy hproxy _ reply hrefused =>
    refine ⟨h.exchanges, fun reply' hreply' hfilter => ?_⟩
    rcases mem_cons.mp hreply' with rfl | hold
    · exact uncloaked_nxdomain (admitQuery_refused hrefused)
    · exact h.replies reply' hold hfilter
  | case6 snapshot hflow proxy hproxy _ bypasses hadmitted =>
    refine ⟨fun e he => ?_, h.replies⟩
    rcases beginExchange_exchanges s.world hflow hproxy _ _ _ e he with
      hold | ⟨hproxy', hquery, hbypasses, hphase⟩
    · exact h.exchanges e hold
    · refine ⟨fun hfilter => ?_, fun _ packet hin => ?_⟩
      · rw [hproxy', hquery]
        exact admitQuery_admitted hadmitted (hbypasses.symm.trans hfilter)
      · rw [hphase] at hin
        exact absurd hin id
  | _ => exact h

variable [Ipv4Net π₄] [Ipv6Net π₆]

theorem filtered_exchange (h : Filtered filters s) (index : Nat) (act : ExchangeAct)
    (fake : FakeState) : Filtered filters (s.exchange filters index act fake) := by
  rw [exchange]
  split
  · exact h
  · next d hdesk =>
    have hpassed := h.exchanges _ (mem_of_getElem? (desk_exchange hdesk))
    have hstepped := @passed_exchange _ _ _ _ _ _ filters _ s.world h.exchanges index
      ((filters d.exchange.proxy).withVerdict d s.world.resolvers.now act) (by
        intro d' hdesk'
        cases hdesk.symm.trans hdesk'
        exact stays_step _ _ _ _ act)
    refine ⟨?_, fun reply hreply hfilter => ?_⟩
    · show ∀ e ∈ (if staysLocal d act then _ else _ :
        World ν π₄ π₆ α).resolvers.exchanges, _
      split
      · exact passed_exchange hstepped fun d' _ => stays_step _ _ _ _ .abandon
      · exact hstepped
    · rcases mem_append.mp hreply with hnew | hold
      · rw [mem_toList, map_eq_some_iff] at hnew
        obtain ⟨packet, hreturned, rfl⟩ := hnew
        rw [ite_none_left_eq_some] at hreturned
        exact uncloaked_returned hpassed hfilter hreturned.2
      · exact h.replies reply hold hfilter

theorem filtered_of_reach
    (h : Reach FilteredWorld.Initial (apply filters) anyAction s) :
    Filtered filters s := by
  refine h.invariant ?_ ?_
  · rintro s ⟨⟨_, config, _, artifacts, _, _, -, -, hresolvers⟩, hreplies⟩
    refine ⟨fun e he => ?_, fun reply hreply => ?_⟩
    · rw [hresolvers, makeProxy] at he
      split at he
      · cases he
      · cases he
    · rw [hreplies] at hreply
      cases hreply
  · intro s action hs _
    cases action with
    | elsewhere =>
      simp only [apply]
      split
      · exact hs
      · next hother =>
        have hcore := elsewhere_core s.world (Bool.eq_false_iff.mpr hother)
        exact ⟨passed_of_map_core hcore hs.exchanges, hs.replies⟩
    | ask flow query uid primaryPackage packages =>
      exact filtered_ask hs flow query uid primaryPackage packages
    | exchange index act fake => exact filtered_exchange hs index act fake

/-- Every answer without an error that an exchange returns, when it does not
bypass filtering and its question is of class IN, leads to no blocked name; and
where both walks accept a response, the addresses found are those under the
end of the chain that was looked at. -/
theorem answers_lead_to_no_blocked_name {filters : Nat → Ref.Filter μ} {s : FilteredWorld ν π₄ π₆ α}
    (h : Reach FilteredWorld.Initial (FilteredWorld.apply filters) anyAction s) :
    (∀ reply ∈ s.replies, reply.bypassesFiltering = false →
      Uncloaked (filters reply.proxy).blocklist reply.query reply.packet) ∧
    ∀ query response chain answers, responseDomainChain query response = some chain →
      parseAddresses response = some answers →
      ∃ parsed records, parseQuestion query = some parsed ∧
        answerSection response = some records ∧
        answers.map AddressAnswer.address = records.filterMap fun r =>
          if r.owner = chain.getLastD parsed.question.domain then
            r.addressOf response parsed.question.recordType else none :=
  ⟨(filtered_of_reach h).replies, fun _ _ _ _ hchain hanswers =>
    parseAddresses_of_chain hchain hanswers⟩

end

/-! ## Two answers with an alias -/

/-- An answer to `letterQuery` that makes the letter an alias of another, with an
address of that. -/
def aliasAnswer (letter target rcode : UInt8) : Packet :=
  [0, 1, 0x81, 0x80 ||| rcode, 0, 1, 0, 2, 0, 0, 0, 0, 1, letter, 0, 0, 1, 0, 1,
    0xc0, 0x0c, 0, 5, 0, 1, 0, 0, 0, 60, 0, 3, 1, target, 0,
    0xc0, 0x1f, 0, 1, 0, 1, 0, 0, 0, 60, 0, 4, 10, 0, 0, 1]

/-- The letter `b` is blocked with everything below it. -/
def blocksB (_ : Nat) : Ref.Filter OrderedList :=
  { config := { suffixes := [[0x62]] }, ruleSets := [], torEnabled := true, i2pEnabled := true
    torRegistered := false, i2pRegistered := false }

/-- A query for `a` with the answer its upstream gives. -/
def askForA (answer : Packet) : List (FilteredAction Cidr (Subnet 32) (Subnet 128)) :=
  [.elsewhere .admitFlow, .ask 0 (letterQuery 97) none none [], .exchange 0 .readEpoch {},
    .exchange 0 (.lookup .clear) {}, .exchange 0 (.answer answer) {},
    .exchange 0 (.enter .clear) {}, .exchange 0 .observe {}, .exchange 0 .insert {},
    .exchange 0 .teach {}]

theorem filteredWorld_initial : FilteredWorld.Initial ⟨ruledWorld, []⟩ := ⟨ruledWorld_initial, rfl⟩

/-- An alias of a blocked name is answered as a name that does not exist. -/
theorem cloaked_answer_refused :
    let s := (askForA (aliasAnswer 97 98 0)).foldl (FilteredWorld.apply blocksB)
      ⟨ruledWorld, []⟩
    s.replies.map Reply.packet =
        [[0, 1, 0x81, 0x83, 0, 1, 0, 0, 0, 0, 0, 0, 1, 97, 0, 0, 1, 0, 1]] ∧
      ∀ reply ∈ s.replies, reply.bypassesFiltering = false →
        Uncloaked (blocksB reply.proxy).blocklist reply.query reply.packet := by
  intro s
  have hreach : Reach FilteredWorld.Initial (apply blocksB) anyAction s :=
    Reach.run (.start filteredWorld_initial) (admissible_any _ _ _)
  exact ⟨by decide +kernel, (answers_lead_to_no_blocked_name hreach).1⟩

/-- The same answer with the error of a failed server is returned as it is. -/
theorem cloaked_failure_returned :
    let s := (askForA (aliasAnswer 97 98 2)).foldl (FilteredWorld.apply blocksB)
      ⟨ruledWorld, []⟩
    Reach FilteredWorld.Initial (FilteredWorld.apply blocksB) anyAction s ∧
      s.replies = [⟨0, letterQuery 97, false, aliasAnswer 97 98 2⟩] ∧
      answerSection (aliasAnswer 97 98 2) =
        some [⟨[97], recordCname, classIn, 60, 31, 3⟩, ⟨[98], recordA, classIn, 60, 46, 4⟩] ∧
      LeadsTo (aliasAnswer 97 98 2) [97] [98] ∧
      ((blocksB 0).blocklist.lookup [98]).isSome = true := by
  have hrecords : answerSection (aliasAnswer 97 98 2) =
      some [⟨[97], recordCname, classIn, 60, 31, 3⟩, ⟨[98], recordA, classIn, 60, 46, 4⟩] := by
    decide +kernel
  have halias : AliasIn (aliasAnswer 97 98 2) [97] [98] :=
    ⟨_, hrecords, _, .head _, rfl, by decide +kernel⟩
  exact ⟨Reach.run (.start filteredWorld_initial) (admissible_any _ _ _), by decide +kernel,
    hrecords, .single halias, by decide +kernel⟩

end Foxcore.Proofs
