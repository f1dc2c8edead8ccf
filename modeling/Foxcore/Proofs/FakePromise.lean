import Foxcore.Ref.DnsConfig
import Foxcore.Proofs.FakeRun

/-!
# How long a promise is kept

An answer tells its client to keep the address for its TTL. The table keeps
the promise that long unless the same name is asked for again with a shorter
TTL, as it is when a reload has lowered `fake_ttl_s`: the promise then ends
with the new answer's time, and a client that holds the first answer is left
with an address nothing stands behind.

Where no call cuts a live promise short, every promise is kept to its end. The
invariant is `Kept`; what it needs of a step is exactly that the new promise
for a live address ends no sooner than the old one.
-/

namespace Foxcore.Proofs

open Lib Ref Spec

section Pools

variable {π₄ π₆ : Type} [Ipv4Net π₄] [Ipv6Net π₆] {w : FakeWorld π₄ π₆}

/-- Every call is made with the pools and the TTL of a document that passed the
checks. -/
def ValidCall (_ : FakeWorld π₄ π₆) : FakeOp π₄ π₆ → Prop
  | .fakeResponse _ _ pool4 pool6 ttl => ∃ config : DnsConfig π₄ π₆,
      config.validateLimits = .ok () ∧ config.mode = .fakeIp ∧
        config.fakeIpv4Pool = pool4 ∧ config.fakeIpv6Pool = pool6 ∧ config.fakeTtlS = ttl
  | _ => True

/-- What holds of the promise a call finds can be found out. -/
def decidableFound {α β : Type} (asked : Option α) (found : α → Option β) (P : β → Prop)
    [DecidablePred P] : Decidable (∀ a b, asked = some a → found a = some b → P b) :=
  decidable_of_iff (asked.all fun a => (found a).all fun b => P b) (by
    simp only [Option.all_eq_true, decide_eq_true_eq]
    exact ⟨fun h a b ha => h a ha b, fun h a ha b => h a b ha⟩)

/-- The call does not cut short the promise it finds. -/
def CutsNothing (w : FakeWorld π₄ π₆) : FakeOp π₄ π₆ → Prop
  | .fakeResponse _ query _ _ ttl => ∀ parsed e, addressQuestion query = some parsed →
      w.fake.fakeByDomain.lookup ⟨parsed.question.domain, parsed.question.recordType⟩ =
        some e → w.now < e.expires → e.expires ≤ w.now + secs (min ttl maxTtl)
  | _ => True

instance (w : FakeWorld π₄ π₆) (op : FakeOp π₄ π₆) : Decidable (CutsNothing w op) :=
  match op with
  | .fakeResponse .. => decidableFound _ _ _
  | .fakeDomain .. | .flushResponses _ | .forkForPolicy .. | .tick _ => isTrue trivial

/-- The end of the time an answer has told its client. -/
def promisedUntil (i : Issue π₄ π₆) : Nat := i.issuedAt + secs i.ttl

/-- Every answer whose time is not over has its promise in the table. -/
def Kept (w : FakeWorld π₄ π₆) : Prop :=
  ∀ i ∈ w.issued, w.now < promisedUntil i →
    ∃ expires, view w.fake i.address = some (i.domain, expires) ∧ promisedUntil i ≤ expires

/-- While an answer's time is not over, its address goes out for no other
name. -/
def Exclusive (w : FakeWorld π₄ π₆) : Prop :=
  w.issued.Pairwise fun newer older => newer.address = older.address →
    newer.issuedAt < promisedUntil older → newer.domain = older.domain

theorem secs_le_promiseTtl (ttl : Nat) : secs ttl ≤ promiseTtl ttl :=
  Nat.mul_le_mul_right _ (le_max_left _ _)

/-- An answer made while an older one for its address is in time is made for
the same name, and its promise covers the older one. -/
theorem hands_covers (hkept : Kept w) {index : Nat} {query : Packet} {ttl : Nat} {i j : Issue π₄ π₆}
    (hands : Hands w query ttl j)
    (hcuts : CutsNothing w (.fakeResponse index query j.pool4 j.pool6 ttl)) (hi : i ∈ w.issued)
    (hnow : w.now < promisedUntil i) (haddr : i.address = j.address) :
    i.domain = j.domain ∧ promisedUntil i ≤ w.now + promiseTtl j.ttl := by
  obtain ⟨expires, hview, hle⟩ := hkept i hi hnow
  have hlive : (view w.fake).live w.now j.address = some (i.domain, expires) := by
    rw [← haddr]
    exact Promises.live_eq_some_iff.mpr ⟨hview, lt_of_lt_of_le hnow hle⟩
  rcases hands.source with ⟨hnone, -⟩ | ⟨e, hlook, -, hsome⟩
  · rw [hlive] at hnone
    cases hnone
  · rw [hlive] at hsome
    obtain ⟨hdomain, rfl⟩ := Prod.mk.inj (Option.some.inj hsome)
    obtain ⟨parsed, hquery, hd, ht⟩ := hands.question
    have hend : e.expires ≤ w.now + secs (min ttl maxTtl) := by
      refine hcuts parsed e hquery ?_ (lt_of_lt_of_le hnow hle)
      rw [hd, ht]
      exact hlook
    refine ⟨hdomain, ?_⟩
    have := secs_le_promiseTtl j.ttl
    rw [← hands.ttl] at hend
    omega

theorem kept_apply (hmutual : Mutual w.fake) (hkept : Kept w) (op : FakeOp π₄ π₆)
    (hcuts : CutsNothing w op) : Kept (w.apply op) := by
  intro i hi hnow
  obtain ⟨-, hquiet | ⟨_, query, ttl, j, rfl, hands, hissued, htime, hview⟩⟩ :=
    apply_spec hmutual op
  · have hbefore : w.now < promisedUntil i := lt_of_le_of_lt hquiet.now hnow
    rw [hquiet.issued] at hi
    obtain ⟨expires, hfound, hle⟩ := hkept i hi hbefore
    exact ⟨expires, hquiet.view.eq_some hfound (lt_of_lt_of_le hbefore hle), hle⟩
  · rw [htime] at hnow
    rw [hissued] at hi
    rw [hview, hands.issuedAt]
    rcases List.mem_cons.mp hi with rfl | hold
    · refine ⟨_, Function.update_self .., ?_⟩
      have := secs_le_promiseTtl i.ttl
      have := hands.issuedAt
      rw [promisedUntil]
      omega
    · by_cases haddr : i.address = j.address
      · obtain ⟨hdomain, hle⟩ := hands_covers hkept hands hcuts hold hnow haddr
        refine ⟨_, ?_, hle⟩
        rw [haddr, Function.update_self, hdomain]
      · obtain ⟨expires, hfound, hle⟩ := hkept i hold hnow
        refine ⟨expires, ?_, hle⟩
        rw [Function.update_of_ne haddr]
        exact Promises.live_eq_some_iff.mpr ⟨hfound, lt_of_lt_of_le hnow hle⟩

theorem exclusive_apply (hmutual : Mutual w.fake) (hkept : Kept w) (h : Exclusive w)
    (op : FakeOp π₄ π₆) (hcuts : CutsNothing w op) : Exclusive (w.apply op) := by
  rw [Exclusive]
  obtain ⟨-, hquiet | ⟨_, query, ttl, j, rfl, hands, hissued, -, -⟩⟩ := apply_spec hmutual op
  · rw [hquiet.issued]
    exact h
  · rw [hissued]
    refine List.pairwise_cons.mpr ⟨fun i hi haddr hnow => ?_, h⟩
    rw [hands.issuedAt] at hnow
    exact (hands_covers hkept hands hcuts hi hnow haddr.symm).1.symm

theorem kept_of_reach (h : Reach FakeWorld.Initial FakeWorld.apply CutsNothing w) :
    Kept w ∧ Exclusive w := by
  refine Reach.invariant_with (P := fun w => Kept w ∧ Exclusive w)
    (fun w h => remembered_of_reach h) ?_ ?_ h
  · rintro w ⟨-, -, hnone⟩
    refine ⟨fun i hi => ?_, ?_⟩
    · rw [hnone] at hi
      cases hi
    · rw [Exclusive]
      rw [hnone]
      exact .nil
  · intro w op hw hcase hcuts
    obtain ⟨hkept, hexclusive⟩ := hcase
    exact ⟨kept_apply hw.linked hkept op hcuts,
      exclusive_apply hw.linked hkept hexclusive op hcuts⟩

/-- In every run in which no call cuts a live promise short, an answer's
address stands for its name until the time the answer gave, and goes out for
no other name before. -/
theorem promise_kept_unless_cut {w : FakeWorld π₄ π₆}
    (h : Reach FakeWorld.Initial FakeWorld.apply CutsNothing w) :
    (∀ i ∈ w.issued, w.now < i.issuedAt + secs i.ttl →
      (w.fake.fakeDomain w.now i.address).1 = some i.domain) ∧
    w.issued.Pairwise fun newer older => newer.address = older.address →
      newer.issuedAt < older.issuedAt + secs older.ttl → newer.domain = older.domain := by
  obtain ⟨hkept, hexclusive⟩ := kept_of_reach h
  refine ⟨fun i hi hnow => ?_, hexclusive⟩
  obtain ⟨expires, hview, hle⟩ := hkept i hi hnow
  have hlive : (view w.fake).live w.now i.address = some (i.domain, expires) :=
    Promises.live_eq_some_iff.mpr ⟨hview, lt_of_lt_of_le hnow hle⟩
  rw [(fakeDomain_spec (remembered_of_reach h).linked w.now i.address).2.2, hlive]
  rfl

end Pools

/-- `a` asked for with thirty seconds and again with five minutes: the address
still stands for it a minute later. -/
theorem promise_kept_lengthened :
    let w := (((freshWorld 4).apply (askLetter 0 15 0x61 30)).apply
      (askLetter 0 15 0x61 300)).apply (.tick (secs 60))
    ∀ i ∈ w.issued, w.now < i.issuedAt + secs i.ttl →
      (w.fake.fakeDomain w.now i.address).1 = some i.domain := by
  refine (promise_kept_unless_cut (.step (.step (.step (.start (freshWorld_initial 4))
    ?_) ?_) ?_)).1
  · decide +kernel
  · decide +kernel
  · decide +kernel

/-- Settings with which `askLetter` calls a cache of two names. -/
def letterConfig (len ttl : Nat) : DnsConfig (Subnet 32) (Subnet 128) where
  mode := .fakeIp
  cacheSize := 2
  fakeIpv4Pool := ⟨0xc6120000, len⟩
  fakeIpv6Pool := ⟨0xfd000000000000000000000000000000, 64⟩
  fakeTtlS := ttl

/-- Two addresses to give. `a` is asked for with a day and then, by another
client of the cache forked in a reload, with thirty seconds. Half a minute
later `b` and `c` are asked for, and the address that the first answer gave to
`a` for a day stands for `c`. -/
theorem promise_cut_short :
    ∃ w : FakeWorld (Subnet 32) (Subnet 128),
      Reach FakeWorld.Initial FakeWorld.apply ValidCall w ∧
      ∃ i ∈ w.issued, w.now < i.issuedAt + secs i.ttl ∧ i.domain = [0x61] ∧
        (w.fake.fakeDomain w.now i.address).1 = some [0x63] := by
  refine ⟨((((((freshWorld 2).apply (askLetter 0 30 0x61 86400)).apply
    (.forkForPolicy 0 2)).apply (askLetter 1 30 0x61 30)).apply (.tick (secs 30))).apply
      (askLetter 1 30 0x62 30)).apply (askLetter 1 30 0x63 30), ?_,
    ⟨[0x61], .v4 0xc6120002, 0, 86400, ⟨0xc6120000, 30⟩,
      ⟨0xfd000000000000000000000000000000, 64⟩⟩, ?_, ?_, ?_, ?_⟩
  · have hday : (letterConfig 30 86400).validateLimits = .ok () := by decide +kernel
    have hhalf : (letterConfig 30 30).validateLimits = .ok () := by decide +kernel
    exact .step (.step (.step (.step (.step (.step (.start (freshWorld_initial 2))
      ⟨_, hday, rfl, rfl, rfl, rfl⟩) trivial) ⟨_, hhalf, rfl, rfl, rfl, rfl⟩) trivial)
        ⟨_, hhalf, rfl, rfl, rfl, rfl⟩) ⟨_, hhalf, rfl, rfl, rfl, rfl⟩
  · exact List.mem_of_getLast? (by decide +kernel)
  · decide +kernel
  · decide +kernel
  · decide +kernel

end Foxcore.Proofs
