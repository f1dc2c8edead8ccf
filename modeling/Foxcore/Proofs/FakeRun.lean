import Foxcore.Proofs.DnsAnswers
import Foxcore.Proofs.FakeTable

/-!
# Runs over a cache and its forks

A run calls any of the caches that share one table, and lets time pass. What
a call does to the promises is said once, in `apply_spec`: it forgets at most
what is over, or it hands one address out. The invariants of runs are read off
that.
-/

namespace Foxcore.Proofs

open Lib Ref Spec

variable {π₄ π₆ : Type} [Ipv4Net π₄] [Ipv6Net π₆]

variable {w : FakeWorld π₄ π₆}

/-! ## One step -/

/-- The answer `i` goes out for `query`: its address was free and comes from
the pools, or stands for the name already. -/
structure Hands (w : FakeWorld π₄ π₆) (query : Packet) (ttl : Nat) (i : Issue π₄ π₆) :
    Prop where
  question : ∃ parsed, addressQuestion query = some parsed ∧
    parsed.question.domain = i.domain ∧ parsed.question.recordType = i.address.recordType
  ttl : i.ttl = min ttl maxTtl
  issuedAt : i.issuedAt = w.now
  source : ((view w.fake).live w.now i.address = none ∧
      Allocated i.pool4 i.pool6 i.address.recordType i.address) ∨
    ∃ e, w.fake.fakeByDomain.lookup ⟨i.domain, i.address.recordType⟩ = some e ∧
      e.address = i.address ∧ (view w.fake).live w.now i.address = some (i.domain, e.expires)

/-- Nothing goes out: time may pass, and what is over may be forgotten. -/
structure Quiet (w w' : FakeWorld π₄ π₆) : Prop where
  issued : w'.issued = w.issued
  now : w.now ≤ w'.now
  view : Forgets w.now (view w.fake) (view w'.fake)

omit [Ipv4Net π₄] [Ipv6Net π₆] in
theorem Quiet.refl (w : FakeWorld π₄ π₆) : Quiet w w :=
  ⟨rfl, le_rfl, fun _ => .inl rfl⟩

/-- A query that asks for no address leaves the table alone. -/
theorem fakeResponse_other (capacity now : Nat) {query : Packet} (pool4 : π₄) (pool6 : π₆)
    (ttl : Nat) (s : FakeState) (h : addressQuestion query = none) :
    (fakeResponse capacity now query pool4 pool6 ttl s).2 = s := by
  simp only [fakeResponse, h]
  split
  · split
    · rfl
    · rfl
  · rfl

theorem fakeResponse_spec (h : Mutual w.fake) (cache : DnsCache) (query : Packet) (pool4 : π₄)
    (pool6 : π₆) (ttl : Nat) {w' : FakeWorld π₄ π₆} (hw' : w' = { w with
      fake := (fakeResponse cache.capacity w.now query pool4 pool6 ttl w.fake).2
      issued := (w.handedOut cache.capacity query pool4 pool6 ttl).toList ++ w.issued }) :
    Mutual w'.fake ∧ (Quiet w w' ∨ ∃ i : Issue π₄ π₆, i.pool4 = pool4 ∧ i.pool6 = pool6 ∧
      Hands w query ttl i ∧ w'.issued = i :: w.issued ∧ w'.now = w.now ∧
      view w'.fake = Function.update ((view w.fake).live w.now) i.address
        (some (i.domain, i.issuedAt + promiseTtl i.ttl))) := by
  subst hw'
  cases hquery : addressQuestion query with
  | none =>
    have hout : w.handedOut cache.capacity query pool4 pool6 ttl = none := by
      simp only [FakeWorld.handedOut, hquery]
    simp only [fakeResponse_other _ _ _ _ _ _ hquery, hout]
    exact ⟨h, .inl (.refl w)⟩
  | some parsed =>
    simp only [fakeResponse, FakeWorld.handedOut, hquery]
    generalize hr : w.fake.fakeAddress cache.capacity w.now parsed.question.domain
      parsed.question.recordType pool4 pool6 (min ttl maxTtl) = r
    obtain ⟨hmutual, hgiven, hnone⟩ := fakeAddress_spec h _ _ _ _ pool4 pool6 _ hr
    refine ⟨hmutual, ?_⟩
    split
    · next a ha =>
      obtain ⟨hview, htype, hsource⟩ := hgiven a ha
      refine .inr ⟨⟨parsed.question.domain, a, w.now, min ttl maxTtl, pool4, pool6⟩,
        rfl, rfl, ⟨⟨parsed, hquery, rfl, htype.symm⟩, rfl, rfl, ?_⟩, rfl, trivial, hview⟩
      rw [htype]
      exact hsource
    · next hother =>
      refine .inl ⟨rfl, le_rfl, ?_⟩
      rw [hnone hother]
      exact forgets_live w.now (view w.fake)

/-- What a step does: nothing goes out, or one answer does and a promise is
made for it. -/
theorem apply_spec (h : Mutual w.fake) (op : FakeOp π₄ π₆) :
    Mutual (w.apply op).fake ∧ (Quiet w (w.apply op) ∨
      ∃ index query ttl, ∃ i : Issue π₄ π₆,
        op = .fakeResponse index query i.pool4 i.pool6 ttl ∧ Hands w query ttl i ∧
        (w.apply op).issued = i :: w.issued ∧ (w.apply op).now = w.now ∧
        view (w.apply op).fake = Function.update ((view w.fake).live w.now) i.address
          (some (i.domain, i.issuedAt + promiseTtl i.ttl))) := by
  fun_cases FakeWorld.apply
  case case1 index query pool4 pool6 ttl cache _ =>
    obtain ⟨hmutual, hquiet | ⟨i, rfl, rfl, hi⟩⟩ :=
      fakeResponse_spec h cache query pool4 pool6 ttl rfl
    · exact ⟨hmutual, .inl hquiet⟩
    · exact ⟨hmutual, .inr ⟨index, query, ttl, i, rfl, hi⟩⟩
  case case3 a _ _ =>
    obtain ⟨hmutual, hforgets, -⟩ := fakeDomain_spec h w.now a
    exact ⟨hmutual, .inl ⟨rfl, le_rfl, hforgets⟩⟩
  case case8 => exact ⟨h, .inl ⟨rfl, Nat.le_add_right _ _, fun _ => .inl rfl⟩⟩
  all_goals exact ⟨h, .inl ⟨rfl, le_rfl, fun _ => .inl rfl⟩⟩

/-! ## The last answer that carried an address -/

/-- The table's two sides agree, and a promise in it is that of the last answer
that carried its address. -/
structure Remembered (w : FakeWorld π₄ π₆) : Prop where
  linked : Mutual w.fake
  last : ∀ {a p}, view w.fake a = some p → ∃ i, w.issued.find? (·.address = a) = some i ∧
    p = (i.domain, i.issuedAt + promiseTtl i.ttl)

theorem remembered_apply (h : Remembered w) (op : FakeOp π₄ π₆) : Remembered (w.apply op) := by
  obtain ⟨hmutual, hcase⟩ := apply_spec h.linked op
  refine ⟨hmutual, fun {a p} ha => ?_⟩
  obtain hquiet | ⟨_, _, _, i, -, -, hissued, -, hview⟩ := hcase
  · rw [hquiet.issued]
    exact h.last (hquiet.view.of_some ha)
  · rw [hissued]
    rw [hview] at ha
    by_cases heq : a = i.address
    · subst heq
      rw [Function.update_self] at ha
      refine ⟨i, ?_, (Option.some.inj ha).symm⟩
      simp
    · rw [Function.update_of_ne heq] at ha
      obtain ⟨j, hj, hp⟩ := h.last (Promises.live_eq_some_iff.mp ha).1
      refine ⟨j, ?_, hp⟩
      rw [List.find?_cons_of_neg (by simpa using Ne.symm heq)]
      exact hj

theorem remembered_of_reach {ok : FakeWorld π₄ π₆ → FakeOp π₄ π₆ → Prop}
    (h : Reach FakeWorld.Initial FakeWorld.apply ok w) : Remembered w := by
  refine h.invariant ?_ fun w op hw _ => remembered_apply hw op
  rintro w ⟨hfake, -, -⟩
  refine ⟨?_, fun {a p} ha => ?_⟩
  · rw [hfake]
    exact mutual_empty
  · rw [hfake] at ha
    cases ha

/-- In every run over a cache and its forks the two tables are inverse to each
other, no address stands under two keys, and the name found for an address is
that of the last answer that carried it, whose time is not over. -/
theorem fakeTable_answers_last {w : FakeWorld π₄ π₆}
    (h : Reach FakeWorld.Initial FakeWorld.apply anyAction w) :
    (∀ k e, w.fake.fakeByDomain.lookup k = some e →
      e.domain = k.domain ∧ e.address.recordType = k.recordType ∧
        w.fake.fakeReverse.lookup e.address = some e) ∧
    (∀ a e, w.fake.fakeReverse.lookup a = some e →
      e.address = a ∧ w.fake.fakeByDomain.lookup ⟨e.domain, a.recordType⟩ = some e) ∧
    (∀ k k' e e', w.fake.fakeByDomain.lookup k = some e →
      w.fake.fakeByDomain.lookup k' = some e' → e.address = e'.address → k = k') ∧
    ∀ a domain, (w.fake.fakeDomain w.now a).1 = some domain →
      ∃ i, w.issued.find? (·.address = a) = some i ∧ i.domain = domain ∧
        w.now < i.issuedAt + promiseTtl i.ttl := by
  obtain ⟨hmutual, hlast⟩ := remembered_of_reach h
  refine ⟨fun k e hk => ?_, fun a e ha => ?_, fun k k' e e' => hmutual.key_unique,
    fun a domain hd => ?_⟩
  · have hkey := hmutual.key hk
    exact ⟨congrArg FakeKey.domain hkey, congrArg FakeKey.recordType hkey,
      hmutual.bwd_of_fwd hk⟩
  · have haddr : e.address = a := hmutual.addr ha
    have hfwd := hmutual.fwd_of_bwd ha
    rw [keyOf, haddr] at hfwd
    exact ⟨haddr, hfwd⟩
  · rw [(fakeDomain_spec hmutual w.now a).2.2] at hd
    obtain ⟨p, hp, hdomain⟩ := Option.map_eq_some_iff.mp hd
    obtain ⟨hfound, hnow⟩ := Promises.live_eq_some_iff.mp hp
    obtain ⟨i, hi, heq⟩ := hlast hfound
    rw [heq] at hdomain hnow
    exact ⟨i, hi, hdomain, hnow⟩

/-- A cache of the given size just made, and its table. -/
def freshWorld (capacity : Nat) : FakeWorld (Subnet 32) (Subnet 128) :=
  ⟨{}, [DnsCache.new capacity], 0, []⟩

theorem freshWorld_initial (capacity : Nat) : FakeWorld.Initial (freshWorld capacity) :=
  ⟨rfl, ⟨capacity, rfl⟩, rfl⟩

/-- A cache asked for a name of one letter, with a pool at `198.18.0.0` of the
given prefix length and the pool `fd00::/64`. -/
def askLetter (index len : Nat) (letter : UInt8) (ttl : Nat) :
    FakeOp (Subnet 32) (Subnet 128) :=
  .fakeResponse index (letterQuery letter) ⟨0xc6120000, len⟩
    ⟨0xfd000000000000000000000000000000, 64⟩ ttl

/-- `a` asked for twice, and its address looked up five seconds later. -/
theorem fakeTable_answers_last_twice :
    ∃ i, ((((freshWorld 4).apply (askLetter 0 15 0x61 60)).apply (askLetter 0 15 0x61 30)).apply
        (.tick (secs 5))).issued.find? (·.address = .v4 0xc6120002) = some i ∧
      i.domain = [0x61] ∧ secs 5 < i.issuedAt + promiseTtl i.ttl :=
  (fakeTable_answers_last (.step (.step (.step (.start (freshWorld_initial 4)) trivial)
    trivial) trivial)).2.2.2 (.v4 0xc6120002) [0x61] (by decide +kernel)

end Foxcore.Proofs
