import Foxcore.Proofs.ExchangeStep
import Foxcore.Proofs.Revocation

/-!
# Answers and changes of network

`Sound` gathers what holds of all exchanges, caches and reads of a run. The
calls of the store keep it because they change an epoch only under the barrier:
`Bracketed` is the order in which their acts close and open a proxy, and
`Guarded` says that the barrier of a proxy they have closed is theirs.

A network change reaches the proxy and the cache of the snapshot in force. An
exchange that runs on another proxy, and a cache only another snapshot uses,
are passed over. In a run in which no step reads from such a cache or writes
for such an exchange, whatever is read stems from exchanges that had seen every
change.
-/

namespace Foxcore.Proofs

open Lib Ref List Option Resolvers

section

variable {ν π₄ π₆ α : Type}

variable {r : Resolvers π₄ π₆ α} {index proxy : Nat} {d : Desk π₄ π₆ α} {w : World ν π₄ π₆ α}

structure Sound (r : Resolvers π₄ π₆ α) : Prop where
  inStep : ∀ {i e}, r.exchanges[i]? = some e → Active e.phase →
    ∃ p, r.proxies[e.proxy]? = some p ∧ InStep i r.changes e p
  traced : ∀ c ∈ r.caches, Traced c.1 c.2
  fresh : ∀ c ∈ r.caches, c.2.passedOver = false → Fresh r.changes c.2
  served : ∀ s ∈ r.served, UpToDate s

/-! ## Exchanges -/

section

variable (h : Sound r)

include h

theorem Sound.of_caches {caches : List (DnsCache × Trail)} {served : List Served}
    (hcaches : ∀ c ∈ caches, c ∈ r.caches ∨
      (Traced c.1 c.2 ∧ (c.2.passedOver = false → Fresh r.changes c.2)))
    (hserved : ∀ s ∈ served, UpToDate s) : Sound { r with caches := caches, served := served } :=
  ⟨h.inStep, fun c hc => (hcaches c hc).elim (h.traced c) And.left,
    fun c hc => (hcaches c hc).elim (h.fresh c) And.right, hserved⟩

omit h in
theorem desk_some (h : r.desk index = some d) :
    r.exchanges[index]? = some d.exchange ∧ r.proxies[d.exchange.proxy]? = some d.proxy ∧
      r.caches[d.proxy.cache]? = some (d.cache, d.trail) ∧ d.served = r.served := by
  simp only [desk, bind_eq_bind, bind_eq_some_iff] at h
  obtain ⟨e, he, p, hp, c, hc, hd⟩ := h
  cases hd
  exact ⟨he, hp, hc, rfl⟩

theorem deskOk_of_sound (hd : r.desk index = some d) : DeskOk index r.changes d := by
  obtain ⟨he, hp, hc, hserved⟩ := desk_some hd
  have hmem := mem_of_getElem? hc
  refine ⟨fun hactive => ?_, h.traced _ hmem, h.fresh _ hmem, fun s hs => ?_⟩
  · obtain ⟨p, hp', hstep⟩ := h.inStep he hactive
    rw [hp] at hp'
    rw [some.inj hp']
    exact hstep
  · rw [hserved] at hs
    exact h.served s hs

omit h in
/-- The barrier moved by one exchange concerns no other. -/
theorem InStep.of_moved {j changes : Nat} {e : Exchange} {d' : Desk π₄ π₆ α}
    (h : InStep j changes e d.proxy) (hmoved : Moved index d d') (hne : j ≠ index) :
    InStep j changes e d'.proxy := by
  refine ⟨fun hin => ?_, ?_, fun hcall => ?_, ?_, h.origin⟩
  · obtain ⟨hheld, hepoch⟩ := h.holds hin
    rw [hmoved.epoch]
    rcases hmoved.barrier with hsame | ⟨hfree, -⟩ | ⟨hother, -⟩
    · exact ⟨hsame.trans hheld, hepoch⟩
    · rw [hheld] at hfree
      cases hfree
    · rw [hheld] at hother
      cases hother
      exact (hne rfl).elim
  · rw [hmoved.epoch]
    exact h.epoch_le
  · rw [hmoved.epoch]
    rcases hmoved.barrier with hsame | ⟨-, htaken⟩ | ⟨-, hfreed⟩
    · exact h.closed (hsame.symm.trans hcall)
    · rw [htaken] at hcall
      cases hcall
    · rw [hfreed] at hcall
      cases hcall
  · rw [hmoved.epoch]
    exact h.seen

theorem sound_putBack {d' : Desk π₄ π₆ α} (hd : r.desk index = some d)
    (hsteps : Steps index r.changes d d') : Sound (r.putBack index d') := by
  obtain ⟨-, hp, -, -⟩ := desk_some hd
  obtain ⟨hok, hmoved⟩ := hsteps
  have hrange : d'.exchange.proxy < r.proxies.length := by
    rw [hmoved.proxy]
    exact (List.getElem?_eq_some_iff.mp hp).1
  refine ⟨?_, ?_, ?_, hok.served⟩
  · intro j e hj hactive
    simp only [putBack, getElem?_set] at hj ⊢
    split at hj
    · next heq =>
      split at hj
      · cases hj
        refine ⟨d'.proxy, ?_, ?_⟩
        · rw [if_pos rfl, if_pos hrange]
        · rw [← heq]
          exact hok.inStep hactive
      · cases hj
    · next hne =>
      obtain ⟨p, hp', hstep⟩ := h.inStep hj hactive
      by_cases hsame : d'.exchange.proxy = e.proxy
      · refine ⟨d'.proxy, ?_, ?_⟩
        · rw [if_pos hsame, if_pos hrange]
        · rw [← hsame, hmoved.proxy, hp] at hp'
          rw [← some.inj hp'] at hstep
          exact hstep.of_moved hmoved (Ne.symm hne)
      · exact ⟨p, by rw [if_neg hsame, hp'], hstep⟩
  · intro c hc'
    rcases mem_or_eq_of_mem_set hc' with hold | rfl
    · exact h.traced c hold
    · exact hok.traced
  · intro c hc'
    rcases mem_or_eq_of_mem_set hc' with hold | rfl
    · exact h.fresh c hold
    · exact hok.fresh

theorem sound_exchangeStep (cancelled : List Nat) (index : Nat) {act : ExchangeAct}
    (hheeds : ∀ d, r.desk index = some d → Heeds d act) :
    Sound (r.exchangeStep cancelled index act) := by
  rw [exchangeStep]
  split
  · next d hd =>
    exact sound_putBack h hd (steps_step (deskOk_of_sound h hd) r.now _ (hheeds d hd))
  · exact h

theorem sound_beginExchange (proxy lease : Nat) (query : Packet) (identity : Option DnsIdentity)
    (bypassesFiltering : Bool) :
    Sound (r.beginExchange proxy lease query identity bypassesFiltering) := by
  rw [beginExchange]
  split
  · exact h
  · refine ⟨?_, h.traced, h.fresh, h.served⟩
    intro i e hi hactive
    rw [getElem?_append] at hi
    split at hi
    · exact h.inStep hi hactive
    · rw [mem_singleton.mp (mem_of_getElem? hi)] at hactive
      exact hactive.elim

/-! ## Names read for a flow -/

theorem sound_readHints {cache : Nat} (identity : DnsIdentity) (address : IpAddr)
    (hheeds : ∀ c, r.caches[cache]? = some c → c.2.passedOver = false) :
    Sound (r.readHints cache identity address) := by
  rw [readHints]
  split
  · next dns trail hcache =>
    have hmem := mem_of_getElem? hcache
    obtain ⟨htraced, hnames⟩ := traced_routeHints (h.traced _ hmem) r.now identity address
    refine h.of_caches (fun c hc => ?_) ?_
    · refine (mem_or_eq_of_mem_set hc).imp_right ?_
      rintro rfl
      exact ⟨htraced, h.fresh (dns, trail) hmem⟩
    · intro s hs
      rcases mem_append.mp hs with hnew | hold
      · obtain ⟨name, hname, rfl⟩ := mem_map.mp hnew
        have hfresh := (h.fresh _ hmem (hheeds _ hcache)).2
        cases hfound : (dns.routeHints r.now identity address).1 with
        | none =>
          rw [hfound] at hname
          cases hname
        | some names =>
          rw [hfound] at hname
          obtain ⟨l, origin, htaught, hidentity, hin⟩ := hnames names hfound name hname
          constructor
          · refine ne_nil_of_mem (a := origin) (mem_map.mpr ⟨(l, origin), ?_, rfl⟩)
            exact mem_filter.mpr ⟨htaught, decide_eq_true ⟨hidentity, hin⟩⟩
          · intro o ho
            obtain ⟨x, hx, rfl⟩ := mem_map.mp ho
            exact hfresh x (mem_filter.mp hx).1
      · exact h.served s hold
  · exact h

/-! ## The acts of a call -/

theorem sound_forkCache (source capacity : Nat) : Sound (r.forkCache source capacity) := by
  rw [forkCache]
  split
  · next dns trail hcache =>
    have hmem := mem_of_getElem? hcache
    refine h.of_caches (fun c hc => ?_) h.served
    rcases mem_append.mp hc with hset | hnew
    · refine (mem_or_eq_of_mem_set hset).imp_right ?_
      rintro rfl
      exact ⟨(h.traced _ hmem).of_sub (fun hentry => ⟨_, hentry, rfl⟩) id,
        h.fresh (dns, trail) hmem⟩
    · rw [mem_singleton.mp hnew]
      exact .inr ⟨traced_of_empty rfl rfl {}, fun _ => fresh_nil r.changes⟩
  · exact h

theorem sound_makeProxy (config : DnsConfig π₄ π₆) (cache : Nat) (artifacts : List α) :
    Sound (r.makeProxy config cache artifacts) := by
  rw [makeProxy]
  split
  · refine ⟨?_, h.traced, h.fresh, h.served⟩
    intro i e hi hactive
    obtain ⟨p, hp, hstep⟩ := h.inStep hi hactive
    refine ⟨p, ?_, hstep⟩
    rw [getElem?_append_left (List.getElem?_eq_some_iff.mp hp).1]
    exact hp
  · exact h

theorem sound_flush (cache : Nat) : Sound (r.flush cache) := by
  refine h.of_caches (fun c hc => ?_) h.served
  obtain ⟨i, hi⟩ := getElem?_of_mem hc
  rw [getElem?_modify] at hi
  obtain ⟨old, hold, hc⟩ := map_eq_some_iff.mp hi
  split at hc
  · rw [← hc]
    exact .inr ⟨traced_of_empty rfl rfl {}, fun _ => fresh_nil r.changes⟩
  · rw [← hc]
    exact .inl (mem_of_getElem? hold)

/-- An exchange on the proxy that is told has an epoch the proxy has left; one
that is not told is marked. -/
theorem sound_changeNetwork {told : Option Nat} (cache : Nat)
    (hclosed : ∀ proxy p, told = some proxy → r.proxies[proxy]? = some p →
      p.networkBarrier = some .call) : Sound (r.changeNetwork told cache) := by
  refine sound_flush ?_ cache
  refine ⟨?_, ?_, ?_, h.served⟩
  · intro i e hi hactive
    rw [getElem?_map] at hi
    obtain ⟨old, hold, rfl⟩ := map_eq_some_iff.mp hi
    split at hactive
    · next htold =>
      rw [if_pos htold]
      obtain ⟨p, hp, hstep⟩ := h.inStep hold hactive
      have hcall := hclosed old.proxy p htold hp
      have hout : ¬ InSection old.phase := by
        intro hin
        have hheld := (hstep.holds hin).1
        rw [hcall] at hheld
        cases hheld
      refine ⟨p, hp, fun hin => (hout hin).elim, hstep.epoch_le, hstep.closed,
        fun _ => .inr (hstep.closed hcall), fun heq => ?_⟩
      rw [heq] at hout
      exact (hout trivial).elim
    · next htold =>
      rw [if_neg htold]
      obtain ⟨p, hp, hstep⟩ := h.inStep hold hactive
      exact ⟨p, hp, hstep.holds, hstep.epoch_le, hstep.closed,
        fun hcon => (Bool.noConfusion hcon), fun _ hcon => (Bool.noConfusion hcon)⟩
  · intro c hc
    obtain ⟨old, hold, rfl⟩ := mem_map.mp hc
    exact ⟨(h.traced old hold).stored, (h.traced old hold).taught⟩
  · intro c hc hcon
    obtain ⟨old, -, rfl⟩ := mem_map.mp hc
    cases hcon

omit h in
/-- An epoch that advances outside every section. -/
theorem InStep.advance {i changes : Nat} {e : Exchange} {p : DnsProxy π₄ π₆ α}
    (h : InStep i changes e p) (hout : ∀ j, p.networkBarrier ≠ some (.exchange j))
    (barrier : Option Holder) :
    InStep i changes e
      { p with networkEpoch := p.networkEpoch + 1, networkBarrier := barrier } := by
  have hlt : e.epoch < p.networkEpoch + 1 := Nat.lt_succ_of_le h.epoch_le
  exact ⟨fun hin => (hout i (h.holds hin).1).elim, Nat.le_of_lt hlt, fun _ => hlt,
    fun _ => .inr hlt, h.origin⟩

omit h in
/-- The barrier was free, if there is a proxy at all. -/
theorem closeEpoch_cases {r' : Resolvers π₄ π₆ α} (h : r.closeEpoch proxy = some r') :
    (∃ p, r.proxies[proxy]? = some p ∧ p.networkBarrier = none ∧
      r' = { r with proxies := r.proxies.set proxy { p with
        networkEpoch := p.networkEpoch + 1, networkBarrier := some .call } }) ∨
      r.proxies[proxy]? = none ∧ r' = r := by
  revert h
  fun_cases closeEpoch r proxy with
  | case1 p hp hfree => exact fun h => .inl ⟨p, hp, hfree, (some.inj h).symm⟩
  | case2 => exact nofun
  | case3 hnone => exact fun h => .inr ⟨hnone, (some.inj h).symm⟩

theorem sound_closeEpoch {r' : Resolvers π₄ π₆ α} (hclose : r.closeEpoch proxy = some r') :
    Sound r' := by
  obtain ⟨p, hp, hfree, rfl⟩ | ⟨-, rfl⟩ := closeEpoch_cases hclose
  · refine ⟨?_, h.traced, h.fresh, h.served⟩
    intro i e hi hactive
    obtain ⟨q, hq, hstep⟩ := h.inStep hi hactive
    simp only [getElem?_set]
    split
    · next heq =>
      rw [← heq, hp] at hq
      cases hq
      refine ⟨_, if_pos (List.getElem?_eq_some_iff.mp hp).1, hstep.advance ?_ _⟩
      intro j
      rw [hfree]
      exact (some_ne_none _).symm
    · exact ⟨q, hq, hstep⟩
  · exact h

theorem sound_openEpoch
    (hclosed : ∀ p, r.proxies[proxy]? = some p → p.networkBarrier = some .call) :
    Sound (r.openEpoch proxy) := by
  refine ⟨?_, h.traced, h.fresh, h.served⟩
  intro i e hi hactive
  obtain ⟨q, hq, hstep⟩ := h.inStep hi hactive
  simp only [openEpoch, getElem?_modify, hq]
  refine ⟨_, rfl, ?_⟩
  split
  · next heq =>
    refine hstep.advance (fun j => ?_) none
    rw [hclosed q (by rw [heq, hq])]
    intro hcon
    cases hcon
  · exact hstep

end

/-! ## Calls close what they open -/

/-- The acts left to a call that holds the barrier of `held`. A network change
is due only while nothing has been published, and then the proxy held is that
of the snapshot in force. -/
def Bracketed : Option (Option Nat) → Option Nat → List (Act ν π₄ π₆ α) → Prop
  | _, held, [] => held = none
  | told, held, .closeEpoch proxy :: acts => held = none ∧ Bracketed told (some proxy) acts
  | told, held, .openEpoch proxy :: acts => held = some proxy ∧ Bracketed told none acts
  | told, held, .flush _ networkChange :: acts =>
    (networkChange = true → told = some held) ∧ Bracketed told held acts
  | told, held, .makeProxy _ _ _ :: acts => held = none ∧ Bracketed told none acts
  | _, held, .store _ :: acts => Bracketed none held acts
  | told, held, .forkCache _ _ :: acts => Bracketed told held acts
  | told, held, .cancel _ :: acts => Bracketed told held acts
  | told, held, .setRuleSets _ :: acts => Bracketed told held acts

theorem bracketed_told {told : Option Nat} {held : Option Nat} {acts : List (Act ν π₄ π₆ α)}
    (h : Bracketed none held acts) : Bracketed (some told) held acts := by
  induction acts generalizing held with
  | nil => exact h
  | cons a acts ih =>
    cases a with
    | closeEpoch | openEpoch | makeProxy => exact ⟨h.1, ih h.2⟩
    | flush =>
      exact ⟨fun hnet => absurd (h.1 hnet).symm (some_ne_none _), ih h.2⟩
    | store => exact h
    | forkCache | cancel | setRuleSets => exact ih h

theorem bracketed_revoke (told : Option (Option Nat)) (previous : FlowPolicySnapshot ν π₄ π₆) :
    Bracketed told none (revoke previous : List (Act ν π₄ π₆ α)) := by
  rw [revoke]
  cases previous.dnsProxy with
  | none => exact rfl
  | some => exact ⟨rfl, fun hcon => Bool.noConfusion hcon, rfl, rfl⟩

theorem bracketed_run [RuleSetVerifier α] (current : FlowPolicySnapshot ν π₄ π₆)
    (store : PolicyMutable α) (unused : Unused) (clock : Option Nat) (call : PolicyCall ν π₄ π₆) :
    Bracketed (some current.dnsProxy) none (call.run current store unused clock).2 := by
  cases call with
  | reload expected routes config =>
    simp only [PolicyCall.run]
    fun_cases reload current store unused clock expected routes config with
    | case1 | case3 => exact rfl
    | case2 => exact bracketed_revoke none current
    | case4 =>
      split
      · exact ⟨rfl, bracketed_revoke none current⟩
      · exact ⟨rfl, rfl⟩
  | installDnsRuleSet bundle =>
    simp only [PolicyCall.run]
    fun_cases installDnsRuleSet current store unused clock bundle with
    | case1 | case2 | case3 => exact rfl
    | case4 => exact ⟨rfl, rfl⟩
  | networkChanged =>
    simp only [PolicyCall.run, networkChanged]
    cases current.dnsProxy with
    | none => exact ⟨fun _ => rfl, rfl⟩
    | some => exact ⟨rfl, fun _ => rfl, rfl, rfl⟩

/-- The call under way holds the barrier of the proxy it has closed. -/
def Guarded (w : World ν π₄ π₆ α) : Prop :=
  ∃ held, Bracketed (some w.policies.current.dnsProxy) held w.policies.acts ∧
    ∀ proxy p, held = some proxy → w.resolvers.proxies[proxy]? = some p →
      p.networkBarrier = some .call

theorem forkCache_proxies (r : Resolvers π₄ π₆ α) (source capacity : Nat) :
    (r.forkCache source capacity).proxies = r.proxies := by
  fun_cases forkCache r source capacity <;> rfl

theorem beginExchange_proxies (r : Resolvers π₄ π₆ α) (proxy lease : Nat) (query : Packet)
    (identity : Option DnsIdentity) (bypassesFiltering : Bool) :
    (r.beginExchange proxy lease query identity bypassesFiltering).proxies = r.proxies := by
  fun_cases beginExchange r proxy lease query identity bypassesFiltering <;> rfl

theorem readHints_proxies (r : Resolvers π₄ π₆ α) (cache : Nat) (identity : DnsIdentity)
    (address : IpAddr) : (r.readHints cache identity address).proxies = r.proxies := by
  fun_cases readHints r cache identity address <;> rfl

/-- Resolvers that change no proxy. -/
theorem Guarded.of_proxies (h : Guarded w) (hproxies : r.proxies = w.resolvers.proxies) :
    Guarded { w with resolvers := r } := by
  obtain ⟨held, hbracketed, hcall⟩ := h
  refine ⟨held, hbracketed, ?_⟩
  rw [hproxies]
  exact hcall

theorem guarded_exchangeStep (hsound : Sound w.resolvers) (h : Guarded w) (index : Nat)
    {act : ExchangeAct} (hheeds : ∀ d, w.resolvers.desk index = some d → Heeds d act) :
    Guarded { w with
      resolvers := w.resolvers.exchangeStep w.policies.cancelled index act } := by
  obtain ⟨held, hbracketed, hcall⟩ := h
  refine ⟨held, hbracketed, ?_⟩
  intro proxy p hheld hp
  simp only [exchangeStep] at hp
  split at hp
  · next d hd =>
    obtain ⟨-, hproxy, -, -⟩ := desk_some hd
    obtain ⟨-, hmoved⟩ := steps_step (deskOk_of_sound hsound hd) w.resolvers.now
      (w.policies.cancelled.contains d.exchange.lease) (hheeds d hd)
    simp only [putBack, getElem?_set, hmoved.proxy] at hp
    split at hp
    · next heq =>
      split at hp
      · cases hp
        have hbefore := hcall proxy d.proxy hheld (by rw [← heq, hproxy])
        -- an exchange can neither take nor free a barrier the call holds
        rcases hmoved.barrier with hsame | ⟨hfree, -⟩ | ⟨hother, -⟩
        · exact hsame.trans hbefore
        · rw [hbefore] at hfree
          cases hfree
        · rw [hbefore] at hother
          cases hother
      · cases hp
    · exact hcall proxy p hheld hp
  · exact hcall proxy p hheld hp

/-! ## Runs -/

theorem keeps_closeEpoch (hsound : Sound w.resolvers) {acts : List (Act ν π₄ π₆ α)}
    (hbracketed : Bracketed (some w.policies.current.dnsProxy) (some proxy) acts)
    (hclose : w.resolvers.closeEpoch proxy = some r) :
    Sound r ∧ Guarded ⟨{ w.policies with acts := acts }, r⟩ := by
  refine ⟨sound_closeEpoch hsound hclose, some proxy, hbracketed, ?_⟩
  intro proxy' p hheld hp
  cases hheld
  obtain ⟨_, _, _, rfl⟩ | ⟨hnone, rfl⟩ := closeEpoch_cases hclose
  · simp only [getElem?_set, if_true] at hp
    split at hp
    · rw [← some.inj hp]
    · cases hp
  · rw [hnone] at hp
    cases hp

theorem keeps_act (hsound : Sound w.resolvers) (h : Guarded w) :
    Sound w.act.resolvers ∧ Guarded w.act := by
  obtain ⟨held, hbracketed, hcall⟩ := h
  fun_cases World.act w with
  | case1 => exact ⟨hsound, held, hbracketed, hcall⟩
  | case2 _ _ _ hacts =>
    rw [hacts] at hbracketed
    refine ⟨sound_forkCache hsound _ _, held, hbracketed, ?_⟩
    rw [forkCache_proxies]
    exact hcall
  | case3 _ _ _ _ hacts =>
    rw [hacts] at hbracketed
    exact ⟨sound_makeProxy hsound _ _ _, none, hbracketed.2, by simp⟩
  | case4 _ _ hacts =>
    rw [hacts] at hbracketed
    exact ⟨hsound, held, bracketed_told hbracketed, hcall⟩
  | case5 _ _ hacts | case10 _ _ hacts =>
    rw [hacts] at hbracketed
    exact ⟨hsound, held, hbracketed, hcall⟩
  | case6 proxy _ hacts r hclose =>
    rw [hacts] at hbracketed
    exact keeps_closeEpoch hsound hbracketed.2 hclose
  | case7 => exact ⟨hsound, held, hbracketed, hcall⟩
  | case8 cache networkChange _ hacts =>
    rw [hacts] at hbracketed
    cases networkChange with
    | true =>
      have htold := some.inj (hbracketed.1 rfl)
      refine ⟨sound_changeNetwork hsound cache ?_, held, hbracketed.2, hcall⟩
      rw [htold]
      exact hcall
    | false => exact ⟨sound_flush hsound cache, held, hbracketed.2, hcall⟩
  | case9 proxy _ hacts =>
    rw [hacts] at hbracketed
    exact ⟨sound_openEpoch hsound fun p hp => hcall proxy p hbracketed.1 hp, none, hbracketed.2,
      by simp⟩

theorem keeps_initial (h : World.Initial w) : Sound w.resolvers ∧ Guarded w := by
  obtain ⟨routes, config, store, artifacts, cache, now, hcache, hpolicies, hresolvers⟩ := h
  refine ⟨?_, none, ?_, ?_⟩
  · rw [hresolvers]
    refine sound_makeProxy ⟨?_, ?_, ?_, ?_⟩ config 0 artifacts
    · intro i e hi
      cases hi
    · intro c hc
      rw [mem_singleton.mp hc]
      rcases hcache with rfl | ⟨previous, rfl⟩
      · exact traced_of_empty rfl rfl {}
      · exact traced_of_empty rfl rfl {}
    · intro c hc
      rw [mem_singleton.mp hc]
      exact fun _ => fresh_nil 0
    · intro s hs
      cases hs
  · rw [hpolicies]
    exact rfl
  · intro proxy p hheld
    cases hheld

variable [RuleSetVerifier α]

/-- No step reads from a cache, or writes for an exchange, that a network
change has passed over. -/
def Heedful (w : World ν π₄ π₆ α) : Action ν π₄ π₆ → Prop
  | .exchange index act => ∀ d ∈ w.resolvers.desk index, Heeds d act
  | .routeHints flow _ _ => ∀ snapshot ∈ w.policies.flows[flow]?,
      ∀ c ∈ w.resolvers.caches[snapshot.dns]?, c.2.passedOver = false
  | _ => True

instance (w : World ν π₄ π₆ α) : ∀ action, Decidable (Heedful w action)
  | .exchange index act =>
    inferInstanceAs (Decidable (∀ d ∈ w.resolvers.desk index, Heeds d act))
  | .routeHints flow _ _ =>
    inferInstanceAs (Decidable (∀ snapshot ∈ w.policies.flows[flow]?,
      ∀ c ∈ w.resolvers.caches[snapshot.dns]?, c.2.passedOver = false))
  | .call _ _ | .act | .admitFlow | .beginExchange _ _ _ _ | .tick _ => .isTrue trivial

theorem keeps_apply (hsound : Sound w.resolvers) (h : Guarded w) {action : Action ν π₄ π₆}
    (hheedful : Heedful w action) :
    Sound (w.apply action).resolvers ∧ Guarded (w.apply action) := by
  fun_cases World.apply w action with
  | case1 call clock =>
    fun_cases World.takeLock w call clock with
    | case1 => exact ⟨hsound, none, bracketed_run _ _ _ _ _, by simp⟩
    | case2 => exact ⟨hsound, h⟩
  | case2 => exact keeps_act hsound h
  | case5 =>
    exact ⟨sound_beginExchange hsound _ _ _ _ _, h.of_proxies (beginExchange_proxies _ _ _ _ _ _)⟩
  | case8 index =>
    exact ⟨sound_exchangeStep hsound _ index hheedful,
      guarded_exchangeStep hsound h index hheedful⟩
  | case9 _ identity address snapshot hflow =>
    exact ⟨sound_readHints hsound identity address fun c hc => hheedful snapshot hflow c hc,
      h.of_proxies (readHints_proxies _ _ _ _)⟩
  | case11 => exact ⟨⟨hsound.inStep, hsound.traced, hsound.fresh, hsound.served⟩, h⟩
  | _ => exact ⟨hsound, h⟩

theorem sound_of_reach (h : Reach World.Initial World.apply Heedful w) : Sound w.resolvers := by
  have hboth := Reach.invariant (P := fun w => Sound w.resolvers ∧ Guarded w)
    (fun _ hw => keeps_initial hw)
    (fun _ _ hw hheedful => keeps_apply hw.1 hw.2 hheedful) h
  exact hboth.1

/-- In every interleaving in which no step reads from a cache or writes for an
exchange that a network change has passed over: each response and each name
read stems from exchanges that had read their epoch after every network change
there had been by then, and the trails these origins are taken from account for
all that the caches hold. -/
theorem served_up_to_date_unless_passed_over {w : World ν π₄ π₆ α}
    (h : Reach World.Initial World.apply Heedful w) :
    (∀ s ∈ w.resolvers.served, s.origins ≠ [] ∧ ∀ origin ∈ s.origins, origin = s.readAt) ∧
      ∀ c ∈ w.resolvers.caches, Traced c.1 c.2 := by
  have hsound := sound_of_reach h
  exact ⟨hsound.served, hsound.traced⟩

end

/-! ## An exchange overtaken by a new resolver

An exchange has its answer when a rule set is installed. The resolver made for
it shares the cache, and the network change that follows is told to that
resolver alone, so the epoch the exchange compares with is still its own. -/

/-- A verifier that signs nothing: a manifest is a sequence number. -/
instance : RuleSetVerifier (List UInt8) where
  decodeBase64 _ := some [0]
  sha256 bytes := bytes
  verifyRuleSet bundle publicKey name minimumSequence _ :=
    let sequence := (bundle.manifest.headD 0).toNat
    if sequence < minimumSequence then .error "sequence"
    else .ok ⟨⟨name, sequence, 0, 0, bundle.artifact, publicKey, none⟩, bundle.artifact⟩
  selectCategories artifact _ := .ok artifact

def ruledConfig : DnsConfig (Subnet 32) (Subnet 128) :=
  { plainConfig with
    ruleSets := [{ name := Str.ofChars ['r'], publicKey := [], required := false }] }

def ruledWorld : World Cidr (Subnet 32) (Subnet 128) (List UInt8) where
  policies :=
    { current := ⟨1, plainRoutes, ruledConfig, 0, some 0, 0⟩
      store := {}
      nextToken := 1
      published := [⟨1, plainRoutes, ruledConfig, 0, some 0, 0⟩] }
  resolvers := makeProxy
    { caches := [(DnsCache.new 4096, {})]
      proxies := [], exchanges := [], served := [], changes := 0, now := 0 } ruledConfig 0 []

theorem ruledWorld_initial : World.Initial ruledWorld :=
  ⟨plainRoutes, ruledConfig, {}, [], DnsCache.new 4096, 0, .inl rfl, rfl, rfl⟩

abbrev RuledAction : Type := Action Cidr (Subnet 32) (Subnet 128)

def app : DnsIdentity := ⟨10001, []⟩

/-- An exchange begun for a flow, as far as its upstream's answer. -/
def askUpstream (flow index : Nat) : List RuledAction :=
  [.beginExchange flow (letterQuery 97) (some app) true, .exchange index .readEpoch,
    .exchange index (.lookup .clear), .exchange index (.answer (letterAnswer 97 1 60))]

/-- The rest of it. -/
def storeAnswer (index : Nat) : List RuledAction :=
  [.exchange index (.enter .clear), .exchange index .observe, .exchange index .insert,
    .exchange index .teach]

def install (sequence : UInt8) : List RuledAction :=
  [.call (.installDnsRuleSet ⟨Str.ofChars ['r'], [sequence], [], []⟩) (some 0), .act, .act, .act]

def changeOfNetwork : List RuledAction :=
  [.call .networkChanged (some 0), .act, .act, .act, .act, .act]

def readAddress (flow : Nat) : RuledAction := .routeHints flow app (.v4 0x0a000001)

/-- An exchange that a network change overtakes is told of it and drops its
answer; the name read afterwards comes from an exchange that began after the
change. -/
theorem name_read_after_change :
    let actions := .admitFlow :: askUpstream 0 0 ++ changeOfNetwork ++ storeAnswer 0 ++
      .admitFlow :: askUpstream 1 1 ++ storeAnswer 1 ++ [readAddress 1]
    let w := actions.foldl World.apply ruledWorld
    w.resolvers.served = [⟨[1], 1⟩] ∧
      ∀ s ∈ w.resolvers.served, s.origins ≠ [] ∧ ∀ origin ∈ s.origins, origin = s.readAt := by
  intro actions w
  have hreach : Reach World.Initial World.apply Heedful w :=
    Reach.run (.start ruledWorld_initial) (by decide +kernel)
  exact ⟨by decide +kernel, (served_up_to_date_unless_passed_over hreach).1⟩

/-- With a rule set installed before the change, the answer is stored after it.
A flow admitted since reads a name from it, and so does an exchange of the next
resolver, whose epochs start at zero again, the response. -/
theorem old_answer_survives :
    let actions := .admitFlow :: askUpstream 0 0 ++ install 1 ++ changeOfNetwork ++
      storeAnswer 0 ++ [.admitFlow, readAddress 1] ++ install 2 ++
      [.admitFlow, .beginExchange 2 (letterQuery 97) (some app) true, .exchange 1 .readEpoch,
        .exchange 1 (.lookup .clear)]
    let w := actions.foldl World.apply ruledWorld
    Reach World.Initial World.apply anyAction w ∧
      w.resolvers.served = [⟨[0], 1⟩, ⟨[0], 1⟩] := by
  exact ⟨Reach.run (.start ruledWorld_initial) (admissible_any _ _ _), by decide +kernel⟩

end Foxcore.Proofs
