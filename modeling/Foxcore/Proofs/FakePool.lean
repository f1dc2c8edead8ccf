import Foxcore.Proofs.FakePromise

/-!
# Answers and the pool they were asked from

`DnsConfig::synthesizes` recognises a synthetic address by the pools of the
configuration in force. An address the allocator makes lies in the pool it was
made from, whenever the pool has room for a cache at all. An address found in
the table lies in the pool it was once made from, which a reload may have
replaced; then the answer is one that its own configuration takes for real.

The laws of the pool types are what `ipnet` documents: an address belongs to a
network when it agrees with the network address on the leading bits.
-/

namespace Foxcore.Proofs

open Lib Ref Spec

variable {width : Nat}

/-! ## Pools -/

class LawfulIpv4Net (π : Type) [Ipv4Net π] : Prop where
  contains_iff (pool : π) (a : BitVec 32) : Ipv4Net.contains pool a = true ↔
    a >>> (32 - Ipv4Net.prefixLen pool) =
      Ipv4Net.network pool >>> (32 - Ipv4Net.prefixLen pool)

class LawfulIpv6Net (π : Type) [Ipv6Net π] : Prop where
  contains_iff (pool : π) (a : BitVec 128) : Ipv6Net.contains pool a = true ↔
    a >>> (128 - Ipv6Net.prefixLen pool) =
      Ipv6Net.network pool >>> (128 - Ipv6Net.prefixLen pool)

theorem network_ushiftRight (net : Subnet width) :
    net.network >>> net.hostBits = net.addr >>> net.hostBits := by
  apply BitVec.eq_of_toNat_eq
  rw [Subnet.network]
  rw [BitVec.toNat_ushiftRight, BitVec.toNat_shiftLeft, BitVec.toNat_ushiftRight,
    Nat.shiftRight_eq_div_pow, Nat.shiftRight_eq_div_pow, Nat.shiftLeft_eq]
  have hle : net.addr.toNat / 2 ^ net.hostBits * 2 ^ net.hostBits ≤ net.addr.toNat :=
    Nat.div_mul_le_self _ _
  rw [Nat.mod_eq_of_lt (lt_of_le_of_lt hle net.addr.isLt),
    Nat.mul_div_cancel _ (Nat.two_pow_pos _)]

theorem subnet_contains_iff (net : Subnet width) (a : BitVec width) :
    net.contains a = true ↔ a >>> net.hostBits = net.network >>> net.hostBits := by
  rw [network_ushiftRight]
  exact decide_eq_true_iff

instance : LawfulIpv4Net (Subnet 32) := ⟨subnet_contains_iff⟩

instance : LawfulIpv6Net (Subnet 128) := ⟨subnet_contains_iff⟩

/-- A host part below the size of the pool does not reach the prefix. -/
theorem or_host_ushiftRight {hostBits offset : Nat} (network : BitVec width)
    (hlt : offset < 2 ^ hostBits) :
    (network ||| BitVec.ofNat width offset) >>> hostBits = network >>> hostBits := by
  have hzero : BitVec.ofNat width offset >>> hostBits = BitVec.ofNat width 0 := by
    apply BitVec.eq_of_toNat_eq
    rw [BitVec.toNat_ushiftRight, Nat.shiftRight_eq_div_pow]
    exact Nat.div_eq_of_lt (lt_of_le_of_lt (Nat.mod_le _ _) hlt)
  rw [BitVec.ushiftRight_or_distrib, hzero, BitVec.or_zero]

section Pools

variable {π₄ π₆ : Type} [Ipv4Net π₄] [Ipv6Net π₆]

/-- Whether an address is one of the pools'. -/
def inPools (pool4 : π₄) (pool6 : π₆) : IpAddr → Bool
  | .v4 a => Ipv4Net.contains pool4 a
  | .v6 a => Ipv6Net.contains pool6 a

/-- The allocator keeps to a pool with room for a cache. -/
theorem allocated_inPools [LawfulIpv4Net π₄] [LawfulIpv6Net π₆] {config : DnsConfig π₄ π₆}
    (hlimits : config.validateLimits = .ok ()) {recordType : Nat} {a : IpAddr}
    (h : Allocated config.fakeIpv4Pool config.fakeIpv6Pool recordType a) :
    inPools config.fakeIpv4Pool config.fakeIpv6Pool a = true := by
  have hlimited := (validateLimits_ok config).mp hlimits
  rcases h with ⟨-, offset, -, hsize, rfl⟩ | ⟨-, offset, hsize, rfl⟩
  · refine (LawfulIpv4Net.contains_iff _ _).mpr (or_host_ushiftRight _ ?_)
    omega
  · refine (LawfulIpv6Net.contains_iff _ _).mpr (or_host_ushiftRight _ ?_)
    have hcapacity : 1 ≤ fakeIpv6Capacity config.fakeIpv6Pool :=
      le_trans hlimited.cacheSize.1 hlimited.pools.2
    unfold fakeIpv6Capacity at hcapacity
    simp only [] at hcapacity
    split at hcapacity
    · next hbits =>
      rw [hbits] at hsize ⊢
      omega
    · omega

/-! ## Runs -/

/-- The promise a call finds is for an address of the pools the call passes. -/
def FindsInPool (w : FakeWorld π₄ π₆) : FakeOp π₄ π₆ → Prop
  | .fakeResponse _ query pool4 pool6 _ => ∀ parsed e, addressQuestion query = some parsed →
      w.fake.fakeByDomain.lookup ⟨parsed.question.domain, parsed.question.recordType⟩ =
        some e → w.now < e.expires → inPools pool4 pool6 e.address = true
  | _ => True

instance (w : FakeWorld π₄ π₆) (op : FakeOp π₄ π₆) : Decidable (FindsInPool w op) :=
  match op with
  | .fakeResponse .. => decidableFound _ _ _
  | .fakeDomain .. | .flushResponses _ | .forkForPolicy .. | .tick _ => isTrue trivial

/-- An answer goes out of the pools its call passed. -/
theorem hands_inPools [LawfulIpv4Net π₄] [LawfulIpv6Net π₆] {w : FakeWorld π₄ π₆} {index : Nat}
    {query : Packet} {ttl : Nat} {i : Issue π₄ π₆} (hands : Hands w query ttl i)
    (hvalid : ValidCall w (.fakeResponse index query i.pool4 i.pool6 ttl))
    (hfinds : FindsInPool w (.fakeResponse index query i.pool4 i.pool6 ttl)) :
    inPools i.pool4 i.pool6 i.address = true := by
  obtain ⟨config, hlimits, -, h4, h6, -⟩ := hvalid
  rcases hands.source with ⟨-, halloc⟩ | ⟨e, hlook, haddr, hlive⟩
  · rw [← h4, ← h6] at halloc ⊢
    exact allocated_inPools hlimits halloc
  · obtain ⟨parsed, hquery, hd, ht⟩ := hands.question
    rw [← hd, ← ht] at hlook
    rw [← haddr]
    exact hfinds parsed e hquery hlook (Promises.live_eq_some_iff.mp hlive).2

/-- In every run whose calls pass the pools of validated documents and find no
promise outside them, every answer is out of the pools its call passed, and a
document with these pools recognises it. -/
theorem answer_in_pool_unless_moved [LawfulIpv4Net π₄] [LawfulIpv6Net π₆]
    {w : FakeWorld π₄ π₆}
    (h : Reach FakeWorld.Initial FakeWorld.apply
      (fun w op => ValidCall w op ∧ FindsInPool w op) w) :
    ∀ i ∈ w.issued, inPools i.pool4 i.pool6 i.address = true ∧
      ∀ config : DnsConfig π₄ π₆, config.mode = .fakeIp → config.fakeIpv4Pool = i.pool4 →
        config.fakeIpv6Pool = i.pool6 → config.synthesizes i.address = true := by
  have hinside : ∀ i ∈ w.issued, inPools i.pool4 i.pool6 i.address = true := by
    refine Reach.invariant_with
      (P := fun w => ∀ i ∈ w.issued, inPools i.pool4 i.pool6 i.address = true)
      (fun w h => remembered_of_reach h) ?_ ?_ h
    · intro w hcase i hi
      obtain ⟨-, -, hnone⟩ := hcase
      rw [hnone] at hi
      cases hi
    · intro w op hw hinside hcase i hi
      obtain ⟨hvalid, hfinds⟩ := hcase
      obtain ⟨-, hquiet | ⟨_, query, ttl, j, rfl, hands, hissued, -, -⟩⟩ :=
        apply_spec hw.linked op
      · rw [hquiet.issued] at hi
        exact hinside i hi
      · rw [hissued] at hi
        rcases List.mem_cons.mp hi with rfl | hold
        · exact hands_inPools hands hvalid hfinds
        · exact hinside i hold
  refine fun i hi => ⟨hinside i hi, fun config hmode h4 h6 => ?_⟩
  have hin := hinside i hi
  unfold DnsConfig.synthesizes
  rw [hmode, h4, h6]
  cases haddress : i.address <;> rwa [haddress] at hin

end Pools

/-- `a` asked for twice under one configuration. -/
theorem answer_in_pool_renewed :
    let w := ((freshWorld 2).apply (askLetter 0 15 0x61 60)).apply (askLetter 0 15 0x61 60)
    ∀ i ∈ w.issued, inPools i.pool4 i.pool6 i.address = true := by
  have hvalid : (letterConfig 15 60).validateLimits = .ok () := by decide +kernel
  intro w i hi
  have hreach : Reach FakeWorld.Initial FakeWorld.apply
      (fun w op => ValidCall w op ∧ FindsInPool w op) w :=
    .step (.step (.start (freshWorld_initial 2))
      ⟨⟨_, hvalid, rfl, rfl, rfl, rfl⟩, by decide +kernel⟩)
      ⟨⟨_, hvalid, rfl, rfl, rfl, rfl⟩, by decide +kernel⟩
  exact (answer_in_pool_unless_moved hreach i hi).1

/-- `a` asked for under `198.18.0.0/15`, then, after a reload, under
`10.0.0.0/15`: the second answer carries the first one's address, which the
second configuration does not recognise. -/
theorem answer_outside_pool :
    let moved : DnsConfig (Subnet 32) (Subnet 128) :=
      { letterConfig 15 60 with fakeIpv4Pool := ⟨0x0a000000, 15⟩ }
    ∃ w : FakeWorld (Subnet 32) (Subnet 128),
      Reach FakeWorld.Initial FakeWorld.apply ValidCall w ∧
      ∃ i ∈ w.issued, i.pool4 = moved.fakeIpv4Pool ∧ i.pool6 = moved.fakeIpv6Pool ∧
        inPools i.pool4 i.pool6 i.address = false ∧ moved.synthesizes i.address = false := by
  intro moved
  have hfirst : (letterConfig 15 60).validateLimits = .ok () := by decide +kernel
  have hmoved : moved.validateLimits = .ok () := by decide +kernel
  refine ⟨(((freshWorld 2).apply (askLetter 0 15 0x61 60)).apply (.forkForPolicy 0 2)).apply
    (.fakeResponse 1 (letterQuery 0x61) moved.fakeIpv4Pool moved.fakeIpv6Pool 60), ?_,
    ⟨[0x61], .v4 0xc6120002, 0, 60, moved.fakeIpv4Pool, moved.fakeIpv6Pool⟩, ?_, rfl, rfl,
    ?_, ?_⟩
  · exact .step (.step (.step (.start (freshWorld_initial 2))
      ⟨_, hfirst, rfl, rfl, rfl, rfl⟩) trivial) ⟨_, hmoved, rfl, rfl, rfl, rfl⟩
  · exact List.mem_of_mem_head? (by decide +kernel)
  · decide +kernel
  · decide +kernel

end Foxcore.Proofs
