import Foxcore.Proofs.CacheTrail

/-!
# One step of an exchange

An exchange compares the epoch it has read with its proxy's before it reads
from the cache or writes to it, and holds the barrier while it writes. `InStep`
is what this achieves: as long as no network change has passed it over, an
exchange has either seen them all or holds an epoch its proxy has left behind,
and inside the section guarded by the barrier the epochs agree.

`Heeds` is the condition on a step: a cache that is read and an exchange that
writes have not been passed over.
-/

namespace Foxcore.Proofs

open Lib Ref List Desk

variable {π₄ π₆ α : Type}
variable {act : ExchangeAct}

variable {phase : Phase}

/-- The phases in which an exchange holds the barrier. -/
def InSection : Phase → Prop
  | .relearning _ _ => True
  | .storing _ _ => True
  | .inserting _ => True
  | .teaching _ => True
  | _ => False

/-- The phases in which an exchange has read its epoch and still acts on it. -/
def Active : Phase → Prop
  | .begun => False
  | .done => False
  | _ => True

theorem active_of_inSection (h : InSection phase) : Active phase := by
  cases phase <;> first | exact h | exact trivial

structure InStep (index changes : Nat) (e : Exchange) (p : DnsProxy π₄ π₆ α) : Prop where
  holds : InSection e.phase →
    p.networkBarrier = some (.exchange index) ∧ p.networkEpoch = e.epoch
  epoch_le : e.epoch ≤ p.networkEpoch
  closed : p.networkBarrier = some .call → e.epoch < p.networkEpoch
  seen : e.passedOver = false → e.readAt = changes ∨ e.epoch < p.networkEpoch
  origin : ∀ {response origin}, e.phase = .relearning response origin →
    e.passedOver = false → origin = changes

/-- What a cache holds stems from exchanges that have seen every change. -/
def Fresh (changes : Nat) (t : Trail) : Prop :=
  (∀ s ∈ t.stored, s.origin = changes) ∧ ∀ x ∈ t.taught, x.2 = changes

theorem fresh_nil (changes : Nat) : Fresh changes {} :=
  ⟨nofun, nofun⟩

/-- Something read stems from exchanges that had seen every change there had
been. -/
def UpToDate (s : Served) : Prop := s.origins ≠ [] ∧ ∀ origin ∈ s.origins, origin = s.readAt

structure DeskOk (index changes : Nat) (d : Desk π₄ π₆ α) : Prop where
  inStep : Active d.exchange.phase → InStep index changes d.exchange d.proxy
  traced : Traced d.cache d.trail
  fresh : d.trail.passedOver = false → Fresh changes d.trail
  served : ∀ s ∈ d.served, UpToDate s

/-- What a step leaves alone, and how it moves the barrier. -/
structure Moved (index : Nat) (d d' : Desk π₄ π₆ α) : Prop where
  proxy : d'.exchange.proxy = d.exchange.proxy
  cache : d'.proxy.cache = d.proxy.cache
  epoch : d'.proxy.networkEpoch = d.proxy.networkEpoch
  barrier : d'.proxy.networkBarrier = d.proxy.networkBarrier ∨
    (d.proxy.networkBarrier = none ∧ d'.proxy.networkBarrier = some (.exchange index)) ∨
    (d.proxy.networkBarrier = some (.exchange index) ∧ d'.proxy.networkBarrier = none)

/-- A step from one desk to another that is as it should be. -/
def Steps (index changes : Nat) (d d' : Desk π₄ π₆ α) : Prop :=
  DeskOk index changes d' ∧ Moved index d d'

/-- The cache that is read, or the exchange that writes, has not been passed
over. -/
def Heeds (d : Desk π₄ π₆ α) : ExchangeAct → Prop
  | .lookup _ => d.trail.passedOver = false
  | .lookupStale _ => d.trail.passedOver = false
  | .relearn => d.exchange.passedOver = false
  | .insert => d.exchange.passedOver = false
  | .teach => d.exchange.passedOver = false
  | _ => True

instance (d : Desk π₄ π₆ α) (act : ExchangeAct) : Decidable (Heeds d act) := by
  cases act <;> first | exact .isTrue trivial | exact inferInstanceAs (Decidable (_ = _))

variable {index changes now : Nat} {d : Desk π₄ π₆ α}

/-! ## What a step can do -/

/-- The cache as a lookup leaves it. -/
def afterLookup (d : Desk π₄ π₆ α) (now : Nat) (stale : Bool) : DnsCache :=
  (d.cache.cachedResponse now d.exchange.query stale (some d.responseScope)).2

/-- What a lookup reads from the cache, and who has passed for it. -/
structure Found (d : Desk π₄ π₆ α) (now : Nat) (stale : Bool) (verdict : AliasVerdict)
    (act : ExchangeAct) (response : Packet) : Prop where
  act_eq : act = if stale then .lookupStale verdict else .lookup verdict
  active : Active d.exchange.phase
  free : d.proxy.networkBarrier = none
  epoch : d.proxy.networkEpoch = d.exchange.epoch
  found : (d.cache.cachedResponse now d.exchange.query stale (some d.responseScope)).1 =
    some response

/-- The desk after a step. -/
inductive DeskStep (index changes now : Nat) (d : Desk π₄ π₆ α) :
    ExchangeAct → Desk π₄ π₆ α → Prop
  | stay (act : ExchangeAct) : DeskStep index changes now d act d
  | begin (hfree : d.proxy.networkBarrier = none) :
    DeskStep index changes now d .readEpoch { d with exchange := { d.exchange with
      epoch := d.proxy.networkEpoch, readAt := changes, passedOver := false, phase := .asking } }
  /-- To a phase outside the section. -/
  | goTo {act : ExchangeAct} {phase : Phase} (hout : ¬ InSection phase)
    (hactive : Active phase → Active d.exchange.phase) :
    DeskStep index changes now d act (d.goTo phase)
  | miss {act : ExchangeAct} {phase : Phase} (stale : Bool) (hout : ¬ InSection phase)
    (hactive : Active d.exchange.phase) :
    DeskStep index changes now d act
      (goTo { d with cache := afterLookup d now stale } phase)
  | serve {act : ExchangeAct} {stale : Bool} {verdict : AliasVerdict} {response : Packet}
    (hfound : Found d now stale verdict act response)
    (hpasses : (d.exchange.bypassesFiltering || verdict = .clear) = true) :
    DeskStep index changes now d act (hold (goTo { d with
      cache := afterLookup d now stale
      served := ⟨(d.lastStored.map StoredAnswer.origin).toList, changes⟩ :: d.served }
        (.relearning response ((d.lastStored.map StoredAnswer.origin).toList.headD 0))) index)
  | found {act : ExchangeAct} {stale : Bool} {verdict : AliasVerdict} {response : Packet}
    (hfound : Found d now stale verdict act response) :
    DeskStep index changes now d act (goTo { d with
      cache := afterLookup d now stale
      served := if d.exchange.bypassesFiltering || verdict = .clear then
        ⟨(d.lastStored.map StoredAnswer.origin).toList, changes⟩ :: d.served else d.served } .done)
  | enter {i : Nat} {response : Packet} {verdict : AliasVerdict}
    (hphase : d.exchange.phase = .answered i response)
    (hclear : d.exchange.bypassesFiltering = false → verdict = .clear)
    (hfree : d.proxy.networkBarrier = none) (hepoch : d.proxy.networkEpoch = d.exchange.epoch) :
    DeskStep index changes now d (.enter verdict) ((d.goTo (.storing i response)).hold index)
  | observe {i : Nat} {response : Packet} (hphase : d.exchange.phase = .storing i response) :
    DeskStep index changes now d .observe
      (goTo { d with cache := d.cache.observeResponse now response } (.inserting response))
  | reject {phase : Phase} (hin : InSection d.exchange.phase) (hout : ¬ InSection phase) :
    DeskStep index changes now d .observe (d.goTo phase).release
  | insert {response : Packet} (hphase : d.exchange.phase = .inserting response) :
    DeskStep index changes now d .insert ((d.insert now response).goTo (.teaching response))
  | relearn {response : Packet} {origin : Nat}
    (hphase : d.exchange.phase = .relearning response origin) :
    DeskStep index changes now d .relearn ((d.learn now response origin).goTo .done).release
  | teach {response : Packet} (hphase : d.exchange.phase = .teaching response) :
    DeskStep index changes now d .teach
      ((d.learn now response d.exchange.readAt).goTo .done).release

/-- Upstreams are tried outside the section. -/
theorem tryUpstream_eq (d : Desk π₄ π₆ α) (revoked : Bool) (i : Nat) :
    ∃ phase, ¬ InSection phase ∧ d.tryUpstream revoked i = d.goTo phase := by
  rw [tryUpstream]
  split
  · exact ⟨.done, id, rfl⟩
  · exact ⟨.waiting i, id, rfl⟩

theorem outcome_tryUpstream (hactive : Active d.exchange.phase) (revoked : Bool) (i : Nat) :
    DeskStep index changes now d act (d.tryUpstream revoked i) := by
  obtain ⟨phase, hout, heq⟩ := tryUpstream_eq d revoked i
  rw [heq]
  exact .goTo hout fun _ => hactive

theorem outcome_lookup {stale : Bool} {verdict : AliasVerdict} {miss : Desk π₄ π₆ α → Desk π₄ π₆ α}
    (hact : act = if stale then .lookupStale verdict else .lookup verdict)
    (hactive : Active d.exchange.phase)
    (hmiss : ∀ d₁, ∃ phase, ¬ InSection phase ∧ miss d₁ = d₁.goTo phase) :
    DeskStep index changes now d act (d.lookup index changes now stale verdict miss) := by
  fun_cases lookup d index changes now stale verdict miss with
  | case1 => exact .stay act
  | case2 => exact .goTo id False.elim
  | case3 hfree hepoch found =>
    obtain ⟨phase, hout, heq⟩ := hmiss { d with cache := found.2 }
    rw [heq]
    exact .miss stale hout hactive
  | case4 hfree hepoch found passes response hsome origins d₁ hserve =>
    have hpasses : passes = true := hserve.2
    have hd₁ : d₁ = { d with cache := found.2, served := ⟨origins, changes⟩ :: d.served } := by
      simp [d₁, hpasses]
    rw [hd₁]
    exact .serve ⟨hact, hactive, not_not.mp hfree, not_not.mp hepoch, hsome⟩ hpasses
  | case5 hfree hepoch found passes response hsome =>
    exact .found ⟨hact, hactive, not_not.mp hfree, not_not.mp hepoch, hsome⟩

theorem outcome_step (d : Desk π₄ π₆ α) (index changes now : Nat) (revoked : Bool)
    (act : ExchangeAct) :
    DeskStep index changes now d act (d.step index changes now revoked act) := by
  have hphase : ∀ {phase}, d.exchange.phase = phase → Active phase → Active d.exchange.phase :=
    fun heq hactive => heq ▸ hactive
  fun_cases step d index changes now revoked act with
  | case3 hgo => exact .begin (not_not.mp (not_or.mp hgo).2)
  | case5 verdict hasking =>
    refine outcome_lookup rfl (hphase (not_not.mp hasking) trivial) fun d₁ => ?_
    split
    · exact ⟨.done, id, rfl⟩
    · exact tryUpstream_eq d₁ revoked 0
  | case6 response origin heq => exact .relearn heq
  | case8 i heq => exact outcome_tryUpstream (hphase heq trivial) revoked (i + 1)
  | case13 response i heq => exact .goTo id fun _ => hphase heq trivial
  | case16 verdict i response heq => exact outcome_tryUpstream (hphase heq trivial) revoked (i + 1)
  | case19 verdict i response heq hblocked hinvalid hfree hepoch =>
    refine .enter heq (fun hfilter => ?_) (not_not.mp hfree) (not_not.mp hepoch)
    -- it was neither blocked nor invalid
    cases verdict with
    | clear => rfl
    | blocked => exact absurd ⟨hfilter, rfl⟩ hblocked
    | invalid => exact absurd ⟨hfilter, rfl⟩ hinvalid
  | case21 i response heq => exact .observe heq
  | case22 i response heq =>
    obtain ⟨phase, hout, htry⟩ := tryUpstream_eq d revoked (i + 1)
    rw [htry]
    exact .reject (by rw [heq]; exact trivial) hout
  | case24 response heq => exact .insert heq
  | case26 response heq => exact .teach heq
  | case29 verdict i heq =>
    exact outcome_lookup rfl (hphase heq trivial) fun d₁ => ⟨.done, id, rfl⟩
  | case2 | case12 | case15 | case18 | case31 => exact .goTo id False.elim
  | _ => exact .stay _

/-! ## Changes of phase -/

variable (h : DeskOk index changes d)

include h

omit h in
/-- A step taken after the cache alone has changed. -/
theorem Steps.after {d₁ d' : Desk π₄ π₆ α} (h : Steps index changes d₁ d')
    (hframe : d₁.exchange = d.exchange ∧ d₁.proxy = d.proxy) : Steps index changes d d' := by
  obtain ⟨hok, hproxy, hcache, hepoch, hbarrier⟩ := h
  rw [hframe.1] at hproxy
  rw [hframe.2] at hcache hepoch hbarrier
  exact ⟨hok, hproxy, hcache, hepoch, hbarrier⟩

/-- To a phase outside the section. -/
theorem steps_goTo (hout : ¬ InSection phase) (hactive : Active phase → Active d.exchange.phase) :
    Steps index changes d (d.goTo phase) := by
  refine ⟨⟨fun hphase => ?_, h.traced, h.fresh, h.served⟩, rfl, rfl, rfl, .inl rfl⟩
  have hstep := h.inStep (hactive hphase)
  refine ⟨fun hin => (hout hin).elim, hstep.epoch_le, hstep.closed, hstep.seen, ?_⟩
  intro response origin heq _
  have heq : phase = .relearning response origin := heq
  rw [heq] at hout
  exact (hout trivial).elim

theorem steps_done : Steps index changes d (d.goTo .done) :=
  steps_goTo h id False.elim

/-- Into the section: the barrier is free and the epochs agree. -/
theorem steps_enter (hactive : Active d.exchange.phase) (hfree : d.proxy.networkBarrier = none)
    (hepoch : d.proxy.networkEpoch = d.exchange.epoch) (phase : Phase)
    (horigin : ∀ {response origin}, phase = .relearning response origin → origin = changes) :
    Steps index changes d ((d.goTo phase).hold index) := by
  have hstep := h.inStep hactive
  refine ⟨⟨fun _ => ⟨fun _ => ⟨rfl, hepoch⟩, hstep.epoch_le, ?_, hstep.seen, ?_⟩, h.traced,
    h.fresh, h.served⟩, rfl, rfl, rfl, .inr (.inl ⟨hfree, rfl⟩)⟩
  · intro hcall
    cases hcall
  · intro response origin heq _
    exact horigin heq

/-- From one phase of the section to the next. -/
theorem steps_onward (hin : InSection d.exchange.phase)
    (hphase : ∀ {response origin}, phase ≠ .relearning response origin) :
    Steps index changes d (d.goTo phase) := by
  have hstep := h.inStep (active_of_inSection hin)
  refine ⟨⟨fun _ => ⟨fun _ => hstep.holds hin, hstep.epoch_le, hstep.closed, hstep.seen, ?_⟩,
    h.traced, h.fresh, h.served⟩, rfl, rfl, rfl, .inl rfl⟩
  intro response origin heq _
  exact (hphase heq).elim

/-- Out of the section, which frees the barrier. -/
theorem steps_leave (hin : InSection d.exchange.phase) {d' : Desk π₄ π₆ α}
    (hsteps : Steps index changes d d') (hout : ¬ InSection d'.exchange.phase) :
    Steps index changes d d'.release := by
  obtain ⟨hok, hmoved⟩ := hsteps
  have hheld := (h.inStep (active_of_inSection hin)).holds hin
  refine ⟨⟨fun hactive => ?_, hok.traced, hok.fresh, hok.served⟩, hmoved.proxy, hmoved.cache,
    hmoved.epoch, .inr (.inr ⟨hheld.1, rfl⟩)⟩
  have hstep := hok.inStep hactive
  refine ⟨fun hin' => (hout hin').elim, hstep.epoch_le, ?_, hstep.seen, hstep.origin⟩
  intro hcall
  cases hcall

/-! ## Reading the cache -/

theorem deskOk_read {cache : DnsCache} {served : List Served} (htraced : Traced cache d.trail)
    (hserved : ∀ s ∈ served, UpToDate s) :
    DeskOk index changes { d with cache := cache, served := served } :=
  ⟨h.inStep, htraced, h.fresh, hserved⟩

/-- A response found under the exchange's key was stored under it. -/
theorem lastStored_of_found (hheeds : Heeds d act) {stale : Bool} {verdict : AliasVerdict}
    {response : Packet} (hfound : Found d now stale verdict act response) :
    d.lastStored.map StoredAnswer.origin = some changes := by
  have hfresh : d.trail.passedOver = false := by
    rw [hfound.act_eq] at hheeds
    cases stale <;> exact hheeds
  obtain ⟨-, hserved⟩ := traced_cachedResponse h.traced now d.exchange.query stale
    (some d.responseScope)
  obtain ⟨question, s, hkey, hfind⟩ := hserved response hfound.found
  have hlast : d.lastStored = some s := by
    simp only [lastStored, responseKey, hkey]
    exact hfind
  rw [hlast, Option.map_some, (h.fresh hfresh).1 s (mem_of_find?_eq_some hfind)]

theorem upToDate_cons : ∀ s ∈ (⟨[changes], changes⟩ : Served) :: d.served, UpToDate s :=
  forall_mem_cons.mpr
    ⟨⟨cons_ne_nil _ _, fun _ ho => mem_singleton.mp ho⟩, h.served⟩

/-! ## Writing to it -/

/-- An exchange that writes and has not been passed over has seen every
change. -/
theorem readAt_of_inSection (hin : InSection d.exchange.phase)
    (htold : d.exchange.passedOver = false) : d.exchange.readAt = changes := by
  have hstep := h.inStep (active_of_inSection hin)
  have hepoch := (hstep.holds hin).2
  rcases hstep.seen htold with hseen | hlt
  · exact hseen
  · omega

theorem deskOk_learn (now : Nat) (response : Packet) {origin : Nat} (horigin : origin = changes) :
    DeskOk index changes (d.learn now response origin) := by
  fun_cases learn d now response origin with
  | case1 identity =>
    refine ⟨h.inStep, ?_, fun hfresh => ⟨(h.fresh hfresh).1, ?_⟩, h.served⟩
    · exact traced_learn h.traced ⟨identity, d.exchange.query, response, now⟩ origin
    · exact forall_mem_cons.mpr ⟨horigin, (h.fresh hfresh).2⟩
  | case2 => exact h

theorem deskOk_insert (now : Nat) (response : Packet) (hread : d.exchange.readAt = changes) :
    DeskOk index changes (d.insert now response) := by
  fun_cases insert d now response with
  | case1 key metadata =>
    refine ⟨h.inStep, ?_, fun hfresh => ⟨?_, (h.fresh hfresh).2⟩, h.served⟩
    · exact traced_insert h.traced now key response metadata d.exchange.readAt
    · exact forall_mem_cons.mpr ⟨hread, (h.fresh hfresh).1⟩
  | case2 | case3 => exact h

omit h in
theorem learn_frame (d : Desk π₄ π₆ α) (now : Nat) (response : Packet) (origin : Nat) :
    (d.learn now response origin).exchange = d.exchange ∧
      (d.learn now response origin).proxy = d.proxy := by
  fun_cases learn d now response origin <;> exact ⟨rfl, rfl⟩

omit h in
theorem insert_frame (d : Desk π₄ π₆ α) (now : Nat) (response : Packet) :
    (d.insert now response).exchange = d.exchange ∧
      (d.insert now response).proxy = d.proxy := by
  fun_cases insert d now response <;> exact ⟨rfl, rfl⟩

theorem steps_learn (hin : InSection d.exchange.phase) (now : Nat) (response : Packet)
    {origin : Nat} (horigin : origin = changes) :
    Steps index changes d ((d.learn now response origin).goTo .done).release :=
  steps_leave h hin
    ((steps_done (deskOk_learn h now response horigin)).after (learn_frame _ _ _ _)) id

/-! ## The step -/

/-- Every step of an exchange that heeds the marks keeps it in step, and what
its cache holds and has served accounted for. -/
theorem steps_step (now : Nat) (revoked : Bool) (hheeds : Heeds d act) :
    Steps index changes d (d.step index changes now revoked act) := by
  have houtcome := outcome_step d index changes now revoked act
  have htraced := fun stale =>
    (traced_cachedResponse h.traced now d.exchange.query stale (some d.responseScope)).1
  have hsection : ∀ {phase}, d.exchange.phase = phase → InSection phase →
      InSection d.exchange.phase := fun heq hin => heq ▸ hin
  generalize d.step index changes now revoked act = d' at houtcome ⊢
  cases houtcome with
  | stay => exact ⟨h, rfl, rfl, rfl, .inl rfl⟩
  | begin hfree =>
    refine ⟨⟨fun _ => ⟨False.elim, Nat.le_refl _, fun hcall => ?_, fun _ => .inl rfl, ?_⟩,
      h.traced, h.fresh, h.served⟩, rfl, rfl, rfl, .inl rfl⟩
    · rw [hfree] at hcall
      cases hcall
    · intro response origin heq
      cases heq
  | goTo hout hactive => exact steps_goTo h hout hactive
  | miss stale hout hactive =>
    exact (steps_goTo (deskOk_read h (htraced stale) h.served) hout fun _ => hactive).after
      ⟨rfl, rfl⟩
  | serve hfound =>
    simp only [lastStored_of_found h hheeds hfound]
    exact (steps_enter (deskOk_read h (htraced _) (upToDate_cons h)) hfound.active hfound.free
      hfound.epoch _ fun heq => (Phase.relearning.inj heq).2.symm).after ⟨rfl, rfl⟩
  | found hfound =>
    simp only [lastStored_of_found h hheeds hfound]
    refine (steps_done (deskOk_read h (htraced _) ?_)).after ⟨rfl, rfl⟩
    split
    · exact upToDate_cons h
    · exact h.served
  | enter hphase _ hfree hepoch =>
    refine steps_enter h ?_ hfree hepoch _ nofun
    rw [hphase]
    exact trivial
  | observe hphase =>
    refine (steps_onward (deskOk_read h (traced_observe h.traced now _) h.served)
      (hsection hphase trivial) ?_).after ⟨rfl, rfl⟩
    exact nofun
  | reject hin hout =>
    exact steps_leave h hin (steps_goTo h hout fun _ => active_of_inSection hin) hout
  | @insert response hphase =>
    have hin := hsection hphase trivial
    have hframe := insert_frame d now response
    refine (steps_onward (deskOk_insert h now _ (readAt_of_inSection h hin hheeds)) ?_ ?_).after
      hframe
    · rw [hframe.1]
      exact hin
    · exact nofun
  | relearn hphase =>
    have hin := hsection hphase trivial
    exact steps_learn h hin now _ ((h.inStep (active_of_inSection hin)).origin hphase hheeds)
  | teach hphase =>
    have hin := hsection hphase trivial
    exact steps_learn h hin now _ (readAt_of_inSection h hin hheeds)

end Foxcore.Proofs
