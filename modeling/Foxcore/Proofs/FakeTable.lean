import Foxcore.Lib.Bimap
import Foxcore.Spec.FakeIp

/-!
# The table of promises

The table is kept by name and by address, and every path through it touches
the two sides separately. `Mutual` says that the sides hold the same promises.
What each function can do to the table is said once — `purgeFake_lookup`,
`fakeAddress_cases`, `fakeDomain_cases` — and what follows, here and for the
later results, is read off those.

The history of answers that a run has given is part of the world. Along every
run the promise found under an address is the one made by the last answer that
carried it.
-/

namespace Foxcore.Proofs

open Lib Ref Spec Option FakeState FakeEntry HashMap

variable {s : FakeState}

/-! ## The two sides -/

/-- The name and record type a promise is filed under. -/
def keyOf (entry : FakeEntry) : FakeKey := ⟨entry.domain, entry.address.recordType⟩

-- Renewals are by a computed time, which the kernel must not be made to
-- compare with a field; hence these equations for an arbitrary one.
theorem keyOf_refresh (n expires : Nat) (entry : FakeEntry) :
    keyOf (entry.refresh n expires) = keyOf entry := rfl

theorem address_refresh (n expires : Nat) (entry : FakeEntry) :
    (entry.refresh n expires).address = entry.address := rfl

theorem keyOf_touch (n : Nat) (entry : FakeEntry) : keyOf (entry.touch n) = keyOf entry := rfl

/-- Both sides of the table hold the same promises. -/
def Mutual (s : FakeState) : Prop :=
  Linked keyOf address s.fakeByDomain s.fakeReverse

theorem mutual_empty : Mutual {} := Linked.empty

theorem dropKey_mutual (h : Mutual s) (key : FakeKey) : Mutual (s.dropKey key) := by
  fun_cases dropKey s key with
  | case1 entry hk => exact h.erase hk
  | case2 => exact h

theorem dropKeys_mutual (h : Mutual s) (keys : List FakeKey) :
    Mutual (keys.foldl dropKey s) := by
  induction keys generalizing s with
  | nil => exact h
  | cons key rest ih => exact ih (dropKey_mutual h key)

theorem dropKeys_lookup (s : FakeState) (keys : List FakeKey) (k : FakeKey) :
    (keys.foldl dropKey s).fakeByDomain.lookup k =
      if k ∈ keys then none else s.fakeByDomain.lookup k := by
  induction keys generalizing s with
  | nil => simp
  | cons key rest ih =>
    have hdrop : (s.dropKey key).fakeByDomain.lookup k =
        if k = key then none else s.fakeByDomain.lookup k := by
      fun_cases dropKey s key with
      | case1 => exact lookup_erase key k s.fakeByDomain
      | case2 => grind
    rw [List.foldl_cons, ih, hdrop]
    grind

theorem purgeFake_mutual (h : Mutual s) (now : Nat) : Mutual (s.purgeFake now) :=
  dropKeys_mutual h _

/-- A purge keeps exactly the promises whose time is not over. -/
theorem purgeFake_lookup (s : FakeState) (now : Nat) (k : FakeKey) (e : FakeEntry) :
    (s.purgeFake now).fakeByDomain.lookup k = some e ↔
      s.fakeByDomain.lookup k = some e ∧ now < e.expires := by
  have hexpired : k ∈ ((s.fakeByDomain.entries.filter fun x => x.2.expires ≤ now).map
      Sigma.fst) ↔ ∃ e, s.fakeByDomain.lookup k = some e ∧ e.expires ≤ now := by
    simp [mem_entries]
  rw [purgeFake, dropKeys_lookup]
  simp only [hexpired]
  grind

theorem purgeFake_reverse (h : Mutual s) (now : Nat) (a : IpAddr) (e : FakeEntry) :
    (s.purgeFake now).fakeReverse.lookup a = some e ↔
      s.fakeReverse.lookup a = some e ∧ now < e.expires := by
  have hp := purgeFake_mutual h now
  constructor
  · intro he
    obtain ⟨hlook, hlt⟩ := (purgeFake_lookup s now _ e).mp (hp.fwd_of_bwd he)
    have hback := h.bwd_of_fwd hlook
    rw [hp.addr he] at hback
    exact ⟨hback, hlt⟩
  · rintro ⟨he, hlt⟩
    have hfwd := (purgeFake_lookup s now _ e).mpr ⟨h.fwd_of_bwd he, hlt⟩
    have hback := hp.bwd_of_fwd hfwd
    rwa [h.addr he] at hback

/-! ## Allocation

The allocator moves its counters and looks the table up; it never changes the
table. An address it returns is free and made of the pool's network and an
offset below the pool's size. -/

/-- Neither side of the table differs. -/
def SameTable (s s' : FakeState) : Prop :=
  s'.fakeByDomain = s.fakeByDomain ∧ s'.fakeReverse = s.fakeReverse

/-- The table is left alone, and an address that is given is free and as it should be. -/
def Allots {α : Type} (s : FakeState) (given : IpAddr → α) (P : IpAddr → Prop)
    (r : α × FakeState) : Prop :=
  SameTable s r.2 ∧ ∀ a, r.1 = given a → s.fakeReverse.lookup a = none ∧ P a

theorem Allots.imp {α : Type} {given : IpAddr → α} {P Q : IpAddr → Prop} {r : α × FakeState}
    (h : Allots s given P r) (hPQ : ∀ a, P a → Q a) : Allots s given Q r :=
  ⟨h.1, fun a ha => (h.2 a ha).imp_right (hPQ a)⟩

theorem nextFakeV4Go_spec (network : BitVec 32) (usable rounds : Nat) (s : FakeState) :
    Allots s (.ok ∘ some) (fun a => ∃ offset, 0 < offset ∧ offset ≤ usable ∧
      a = .v4 (network ||| BitVec.ofNat 32 offset)) (nextFakeV4Go network usable rounds s) := by
  fun_induction nextFakeV4Go network usable rounds s with
  | case1 | case2 => exact ⟨⟨rfl, rfl⟩, nofun⟩
  | case3 _ _ _ hpos _ _ hfree =>
    refine ⟨⟨rfl, rfl⟩, ?_⟩
    rintro a ⟨⟩
    refine ⟨isNone_iff_eq_none.mp hfree, _, Nat.succ_pos _, ?_, rfl⟩
    exact Nat.mod_lt _ (by omega)
  | case4 _ _ _ _ _ _ _ ih => exact ih

theorem hostOffset_le (sequence hostMask : Nat) :
    hostOffset sequence hostMask ≤ max hostMask 1 := by
  unfold hostOffset
  simp only []
  split
  · omega
  · exact le_trans Nat.and_le_right (le_max_left _ _)

theorem nextFakeV6Go_spec (network : BitVec 128) (hostMask rounds : Nat) (s : FakeState) :
    Allots s some (fun a => ∃ offset, offset ≤ max hostMask 1 ∧
      a = .v6 (network ||| BitVec.ofNat 128 offset)) (nextFakeV6Go network hostMask rounds s) := by
  fun_induction nextFakeV6Go network hostMask rounds s with
  | case1 => exact ⟨⟨rfl, rfl⟩, nofun⟩
  | case2 _ _ _ _ _ hfree =>
    refine ⟨⟨rfl, rfl⟩, ?_⟩
    rintro a ⟨⟩
    exact ⟨isNone_iff_eq_none.mp hfree, _, hostOffset_le _ _, rfl⟩
  | case3 _ _ _ _ _ _ ih => exact ih

section Pools

variable {π₄ π₆ : Type} [Ipv4Net π₄] [Ipv6Net π₆]

/-- What an allocated address is made of. -/
def Allocated (pool4 : π₄) (pool6 : π₆) (recordType : Nat) (a : IpAddr) : Prop :=
  (recordType = recordA ∧ ∃ offset, 0 < offset ∧
    offset + 2 ≤ 2 ^ (32 - Ipv4Net.prefixLen pool4) ∧
      a = .v4 (Ipv4Net.network pool4 ||| BitVec.ofNat 32 offset)) ∨
  (recordType = recordAaaa ∧ ∃ offset,
    offset ≤ max (2 ^ (128 - Ipv6Net.prefixLen pool6) - 1) 1 ∧
      a = .v6 (Ipv6Net.network pool6 ||| BitVec.ofNat 128 offset))

theorem Allocated.recordType_eq {pool4 : π₄} {pool6 : π₆} {recordType : Nat} {a : IpAddr}
    (h : Allocated pool4 pool6 recordType a) : a.recordType = recordType := by
  rcases h with ⟨rfl, _, -, -, rfl⟩ | ⟨rfl, _, -, rfl⟩
  · rfl
  · rfl

theorem nextFakeV4_spec (pool4 : π₄) (pool6 : π₆) (capacity : Nat) (s : FakeState) :
    Allots s (.ok ∘ some) (Allocated pool4 pool6 recordA) (s.nextFakeV4 pool4 capacity) := by
  fun_cases nextFakeV4 pool4 capacity s with
  | case1 | case2 => exact ⟨⟨rfl, rfl⟩, nofun⟩
  | case3 =>
    refine (nextFakeV4Go_spec _ (2 ^ (32 - Ipv4Net.prefixLen pool4) - 2) _ s).imp ?_
    rintro a ⟨offset, hpos, hle, ha⟩
    exact .inl ⟨rfl, offset, hpos, by omega, ha⟩

theorem nextFakeV6_spec (pool4 : π₄) (pool6 : π₆) (capacity : Nat) (s : FakeState) :
    Allots s some (Allocated pool4 pool6 recordAaaa) (s.nextFakeV6 pool6 capacity) := by
  fun_cases nextFakeV6 pool6 capacity s with
  | case1 => exact ⟨⟨rfl, rfl⟩, nofun⟩
  | case2 => exact (nextFakeV6Go_spec _ _ _ s).imp fun a h => .inr ⟨rfl, h⟩

theorem allocate_spec (capacity recordType : Nat) (pool4 : π₄) (pool6 : π₆) (s : FakeState) :
    Allots s (.ok ∘ some) (Allocated pool4 pool6 recordType)
      (s.allocate capacity recordType pool4 pool6) := by
  fun_cases allocate capacity recordType pool4 pool6 s with
  | case1 h =>
    rw [h]
    exact nextFakeV4_spec pool4 pool6 capacity s
  | case2 _ h =>
    obtain ⟨hsame, hfound⟩ := nextFakeV6_spec pool4 pool6 capacity s
    rw [h]
    exact ⟨hsame, fun a ha => hfound a (Except.ok.inj ha)⟩
  | case3 => exact ⟨⟨rfl, rfl⟩, nofun⟩

/-! ## What a call can do -/

/-- A call of `fake_address` finds a live promise and renews it, makes a new
one with a free address, or gives nothing out and leaves what the purge
left. -/
theorem fakeAddress_cases (capacity now : Nat) (domain : Str) (recordType : Nat) (pool4 : π₄)
    (pool6 : π₆) (ttl : Nat) (s : FakeState) {r : Except Panic (Option IpAddr) × FakeState}
    (hr : s.fakeAddress capacity now domain recordType pool4 pool6 ttl = r) :
    (∃ e n, (s.purgeFake now).fakeByDomain.lookup ⟨domain, recordType⟩ = some e ∧
      r.1 = .ok (some e.address) ∧
      r.2.fakeByDomain = (s.purgeFake now).fakeByDomain.modify ⟨domain, recordType⟩
        (refresh n (now + promiseTtl ttl)) ∧
      r.2.fakeReverse = (s.purgeFake now).fakeReverse.modify e.address
        (refresh n (now + promiseTtl ttl))) ∨
    (∃ e : FakeEntry, e.domain = domain ∧ e.expires = now + promiseTtl ttl ∧
      (s.purgeFake now).fakeByDomain.lookup ⟨domain, recordType⟩ = none ∧
      (s.purgeFake now).fakeReverse.lookup e.address = none ∧
      Allocated pool4 pool6 recordType e.address ∧ r.1 = .ok (some e.address) ∧
      r.2.fakeByDomain = (s.purgeFake now).fakeByDomain.insert ⟨domain, recordType⟩ e ∧
      r.2.fakeReverse = (s.purgeFake now).fakeReverse.insert e.address e) ∨
    ((∀ a, r.1 ≠ .ok (some a)) ∧ SameTable (s.purgeFake now) r.2) := by
  subst hr
  fun_cases fakeAddress with
  | case1 _ _ _ e hkey => exact .inl ⟨e, _, hkey, rfl, rfl, rfl⟩
  | case2 => exact .inr (.inr ⟨nofun, rfl, rfl⟩)
  | case3 key q expires hkey _ allocated a ha =>
    obtain ⟨⟨hfwd, hbwd⟩, hfound⟩ := allocate_spec capacity recordType pool4 pool6 q
    obtain ⟨hfree, halloc⟩ := hfound a ha
    exact .inr (.inl ⟨⟨domain, a, expires, allocated.2.sequence⟩, rfl, rfl, hkey, hfree, halloc,
      rfl, congrArg (AList.insert _ _) hfwd, congrArg (AList.insert _ _) hbwd⟩)
  | case4 _ q _ _ _ hnone =>
    exact .inr (.inr ⟨hnone, (allocate_spec capacity recordType pool4 pool6 q).1⟩)

/-- A call of `fake_domain` may sweep first. Then it finds no promise, finds
one lapsed and drops it, or finds one and touches it. -/
theorem fakeDomain_cases (now : Nat) (a : IpAddr) (s : FakeState) :
    ∃ q : FakeState, (q = s.bump ∨ q = s.bump.purgeFake now) ∧
      ((q.fakeReverse.lookup a = none ∧ s.fakeDomain now a = (none, q)) ∨
      (∃ e, q.fakeReverse.lookup a = some e ∧ e.expires ≤ now ∧
        s.fakeDomain now a = (none, { q with
          fakeReverse := q.fakeReverse.erase a
          fakeByDomain := q.fakeByDomain.erase ⟨e.domain, a.recordType⟩ })) ∨
      ∃ e n, q.fakeReverse.lookup a = some e ∧ now < e.expires ∧
        s.fakeDomain now a = (some e.domain, { q with
          fakeReverse := q.fakeReverse.modify a (touch n)
          fakeByDomain := q.fakeByDomain.modify ⟨e.domain, a.recordType⟩
            (touch n) })) := by
  refine ⟨if s.bump.sequence % fakeSweepInterval = 0 then s.bump.purgeFake now else s.bump,
    ?_, ?_⟩
  · split
    · exact .inr rfl
    · exact .inl rfl
  · rw [fakeDomain]
    generalize (if s.bump.sequence % fakeSweepInterval = 0 then s.bump.purgeFake now
      else s.bump) = q
    cases ha : q.fakeReverse.lookup a with
    | none => exact .inl ⟨rfl, rfl⟩
    | some e =>
      by_cases hlapsed : e.expires ≤ now
      · refine .inr (.inl ⟨e, rfl, hlapsed, ?_⟩)
        simp only [if_pos hlapsed]
      · refine .inr (.inr ⟨e, s.bump.sequence, rfl, by omega, ?_⟩)
        simp only [if_neg hlapsed]

/-! ## The table as a partial function -/

/-- What the table promises. -/
def view (s : FakeState) : Promises :=
  fun a => (s.fakeReverse.lookup a).map fun e => (e.domain, e.expires)

theorem view_purgeFake (h : Mutual s) (now : Nat) : view (s.purgeFake now) = (view s).live now := by
  funext a
  ext p
  rw [Promises.live_eq_some_iff]
  simp only [view, map_eq_some_iff]
  constructor
  · rintro ⟨e, he, rfl⟩
    obtain ⟨hin, hlt⟩ := (purgeFake_reverse h now a e).mp he
    exact ⟨⟨e, hin, rfl⟩, hlt⟩
  · rintro ⟨⟨e, he, rfl⟩, hlt⟩
    exact ⟨e, (purgeFake_reverse h now a e).mpr ⟨he, hlt⟩, rfl⟩

/-- Looking an address up reads its live promise and forgets at most what is
over. -/
theorem fakeDomain_spec (h : Mutual s) (now : Nat) (a : IpAddr) :
    Mutual (s.fakeDomain now a).2 ∧
      Forgets now (view s) (view (s.fakeDomain now a).2) ∧
      (s.fakeDomain now a).1 = ((view s).live now a).map Prod.fst := by
  obtain ⟨q, hq, hcases⟩ := fakeDomain_cases now a s
  have hbump : Mutual s.bump := h
  have hmutual : Mutual q := by
    rcases hq with rfl | rfl
    · exact hbump
    · exact purgeFake_mutual hbump now
  have hforget : Forgets now (view s) (view q) := by
    rcases hq with rfl | rfl
    · exact fun x => .inl rfl
    · rw [view_purgeFake hbump]
      exact forgets_live now (view s)
  rcases hcases with ⟨ha, hr⟩ | ⟨e, ha, hlapsed, hr⟩ | ⟨e, n, ha, hlive, hr⟩
  · rw [hr, ← hforget.live_eq]
    refine ⟨hmutual, hforget, ?_⟩
    simp [Promises.live, view, ha]
  · have haddr : e.address = a := hmutual.addr ha
    have hnone : (view q).live now a = none := by
      simp [Promises.live, view, ha, hlapsed]
    rw [hr, ← hforget.live_eq, hnone]
    refine ⟨?_, hforget.trans fun x => ?_, rfl⟩
    · have herase := hmutual.erase (hmutual.fwd_of_bwd ha)
      rw [keyOf, haddr] at herase
      exact herase
    · by_cases hx : x = a
      · subst hx
        refine .inr ⟨?_, hnone⟩
        simp [view]
      · refine .inl ?_
        simp only [view, lookup_erase, if_neg hx]
  · have haddr : e.address = a := hmutual.addr ha
    have hsame : ∀ {f : HashMap FakeKey FakeEntry}, view { q with
        fakeReverse := q.fakeReverse.modify a (touch n)
        fakeByDomain := f } = view q := by
      intro f
      funext x
      simp only [view, lookup_modify]
      split
      · next hx => rw [hx, ha]; rfl
      · rfl
    have hfound : (view q).live now a = some (e.domain, e.expires) := by
      simp [Promises.live, view, ha, hlive]
    rw [hr, ← hforget.live_eq, hfound]
    refine ⟨?_, ?_, rfl⟩
    · have hmodify := hmutual.modify (hmutual.fwd_of_bwd ha) (keyOf_touch n) fun _ => rfl
      rw [keyOf, haddr] at hmodify
      exact hmodify
    · rw [hsame]
      exact hforget

/-- Handing an address out makes one promise over what is live: for an address
that was free, or that stood for the same name already. A call that hands
nothing out leaves what is live. -/
theorem fakeAddress_spec (h : Mutual s) (capacity now : Nat) (domain : Str) (recordType : Nat)
    (pool4 : π₄) (pool6 : π₆) (ttl : Nat) {r : Except Panic (Option IpAddr) × FakeState}
    (hr : s.fakeAddress capacity now domain recordType pool4 pool6 ttl = r) :
    Mutual r.2 ∧
    (∀ a, r.1 = .ok (some a) →
      view r.2 = Function.update ((view s).live now) a
        (some (domain, now + promiseTtl ttl)) ∧
      a.recordType = recordType ∧
      ((view s).live now a = none ∧ Allocated pool4 pool6 recordType a ∨
        ∃ e, s.fakeByDomain.lookup ⟨domain, recordType⟩ = some e ∧ e.address = a ∧
          (view s).live now a = some (domain, e.expires))) ∧
    ((∀ a, r.1 ≠ .ok (some a)) → view r.2 = (view s).live now) := by
  have hp := purgeFake_mutual h now
  rw [← view_purgeFake h now]
  rcases fakeAddress_cases capacity now domain recordType pool4 pool6 ttl s hr with
    ⟨e, n, hlook, hgiven, hfwd, hbwd⟩ |
    ⟨e, rfl, hexp, hkey, hfree, halloc, hgiven, hfwd, hbwd⟩ | ⟨hgiven, hfwd, hbwd⟩
  · have hdomain : e.domain = domain := congrArg FakeKey.domain (hp.key hlook)
    have hback := hp.bwd_of_fwd hlook
    refine ⟨?_, fun a ha => ?_, fun hnone => absurd hgiven (hnone _)⟩
    · rw [Mutual, hfwd, hbwd]
      exact hp.modify hlook (keyOf_refresh n (now + promiseTtl ttl))
        (address_refresh n (now + promiseTtl ttl))
    · cases hgiven.symm.trans ha
      refine ⟨?_, congrArg FakeKey.recordType (hp.key hlook),
        .inr ⟨e, ((purgeFake_lookup s now _ e).mp hlook).1, rfl, ?_⟩⟩
      · funext x
        simp only [view, hbwd, lookup_modify, Function.update_apply]
        split
        · rw [hback, ← hdomain, map_some, map_some, refresh]
        · rfl
      · rw [view, hback, ← hdomain]
        rfl
  · have hkeyOf : keyOf e = ⟨e.domain, recordType⟩ := by
      rw [keyOf, halloc.recordType_eq]
    refine ⟨?_, fun a ha => ?_, fun hnone => absurd hgiven (hnone _)⟩
    · rw [Mutual, hfwd, hbwd, ← hkeyOf]
      rw [← hkeyOf] at hkey
      exact hp.insert hkey hfree
    · cases hgiven.symm.trans ha
      refine ⟨?_, halloc.recordType_eq, .inl ⟨?_, halloc⟩⟩
      · funext x
        rw [← hexp]
        simp only [view, hbwd, lookup_insert, Function.update_apply]
        split
        · rfl
        · rfl
      · rw [view, hfree]
        rfl
  · refine ⟨?_, fun a ha => absurd ha (hgiven a), fun _ => ?_⟩
    · rw [Mutual, hfwd, hbwd]
      exact hp
    · funext x
      simp only [view, hbwd]

end Pools

end Foxcore.Proofs
