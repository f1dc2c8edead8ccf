import Foxcore.Lib.System
import Foxcore.Ref.DnsCache

/-!
# Synthetic addresses

In fake-IP mode the resolver answers an address query itself, with an address
out of a reserved pool, and remembers which name the address stands for until
the answer's lifetime is over. The table of such promises is shared by a cache
and every cache forked from it for a later policy, so a promise survives a
reload. It is kept twice, by name and by address.

Pools come from the `ipnet` crate; `Ipv4Net` and `Ipv6Net` are what the
allocator and the configuration ask of it. A pool with no usable address makes
the allocator divide by zero, which ends the call in a panic; the lock it held
is recovered by the next caller with whatever had been written by then.
-/

namespace Foxcore.Ref

open Lib

class Ipv4Net (π : Type) where
  prefixLen : π → Nat
  network : π → BitVec 32
  contains : π → BitVec 32 → Bool

class Ipv6Net (π : Type) where
  prefixLen : π → Nat
  network : π → BitVec 128
  contains : π → BitVec 128 → Bool

/-- A pool as the crate documents it: an address and how many of its leading
bits the addresses of the pool share. -/
structure Subnet (width : Nat) where
  addr : BitVec width
  prefixLen : Nat
  deriving DecidableEq

namespace Subnet

variable {width : Nat}

/-- The bits of an address that are not the prefix's. -/
def hostBits (net : Subnet width) : Nat := width - net.prefixLen

def network (net : Subnet width) : BitVec width :=
  (net.addr >>> net.hostBits) <<< net.hostBits

def contains (net : Subnet width) (address : BitVec width) : Bool :=
  address >>> net.hostBits = net.addr >>> net.hostBits

end Subnet

instance : Ipv4Net (Subnet 32) := ⟨Subnet.prefixLen, Subnet.network, Subnet.contains⟩

instance : Ipv6Net (Subnet 128) := ⟨Subnet.prefixLen, Subnet.network, Subnet.contains⟩

/-- A call that does not return. -/
inductive Panic where
  | remainderByZero
  deriving DecidableEq

structure FakeKey where
  domain : Str
  recordType : Nat
  deriving DecidableEq

structure FakeEntry where
  domain : Str
  address : IpAddr
  expires : Nat
  lastUsed : Nat
  deriving DecidableEq

structure FakeState where
  sequence : Nat := 0
  fakeByDomain : HashMap FakeKey FakeEntry := ∅
  fakeReverse : HashMap IpAddr FakeEntry := ∅
  fakeV4Sequence : Nat := 0
  fakeV6Sequence : Nat := 0

/-- A promise used again. -/
def FakeEntry.refresh (sequence expires : Nat) (entry : FakeEntry) : FakeEntry :=
  { entry with lastUsed := sequence, expires := expires }

/-- A promise looked at. -/
def FakeEntry.touch (sequence : Nat) (entry : FakeEntry) : FakeEntry :=
  { entry with lastUsed := sequence }

/-- How long an answer with this lifetime is remembered: at least a second. -/
def promiseTtl (ttl : Nat) : Nat := secs (max ttl 1)

/-- The record type that asks for addresses of this family. -/
def IpAddr.recordType : IpAddr → Nat
  | .v4 _ => recordA
  | .v6 _ => recordAaaa

def fakeSweepInterval : Nat := 256

namespace FakeState

/-- Drops one promise from both tables. -/
def dropKey (state : FakeState) (key : FakeKey) : FakeState :=
  match state.fakeByDomain.lookup key with
  | some entry =>
    { state with
      fakeByDomain := state.fakeByDomain.erase key
      fakeReverse := state.fakeReverse.erase entry.address }
  | none => state

/-- `purge_fake`: every promise whose time is over is dropped. -/
def purgeFake (now : Nat) (state : FakeState) : FakeState :=
  let expired := (state.fakeByDomain.entries.filter fun s => s.2.expires ≤ now).map Sigma.fst
  expired.foldl dropKey state

/-- The loop of `next_fake_v4`. An offset never exceeds the size of the pool,
so it fits in thirty-two bits. -/
def nextFakeV4Go (network : BitVec 32) (usable : Nat) :
    Nat → FakeState → Except Panic (Option IpAddr) × FakeState
  | 0, state => (.ok none, state)
  | rounds + 1, state =>
    let state := { state with fakeV4Sequence := wrapSucc state.fakeV4Sequence }
    if usable = 0 then (.error .remainderByZero, state)
    else
      let offset := state.fakeV4Sequence % usable + 1
      let address := IpAddr.v4 (network ||| BitVec.ofNat 32 offset)
      if (state.fakeReverse.lookup address).isNone then (.ok (some address), state)
      else nextFakeV4Go network usable rounds state

def nextFakeV4 {π : Type} [Ipv4Net π] (pool : π) (capacity : Nat) (state : FakeState) :
    Except Panic (Option IpAddr) × FakeState :=
  let len := Ipv4Net.prefixLen pool
  if 32 < len then (.ok none, state)
  else
    let total := 2 ^ (32 - len)
    if total < 2 then (.ok none, state)
    else nextFakeV4Go (Ipv4Net.network pool) (total - 2) (capacity + 1) state

/-- The host part of an IPv6 address: never the network address itself. -/
def hostOffset (sequence hostMask : Nat) : Nat :=
  let masked := sequence &&& hostMask
  if masked = 0 then 1 else masked

/-- The loop of `next_fake_v6`. -/
def nextFakeV6Go (network : BitVec 128) (hostMask : Nat) :
    Nat → FakeState → Option IpAddr × FakeState
  | 0, state => (none, state)
  | rounds + 1, state =>
    let state := { state with fakeV6Sequence := (state.fakeV6Sequence + 1) % 2 ^ 128 }
    let offset := hostOffset state.fakeV6Sequence hostMask
    let address := IpAddr.v6 (network ||| BitVec.ofNat 128 offset)
    if (state.fakeReverse.lookup address).isNone then (some address, state)
    else nextFakeV6Go network hostMask rounds state

def nextFakeV6 {π : Type} [Ipv6Net π] (pool : π) (capacity : Nat) (state : FakeState) :
    Option IpAddr × FakeState :=
  let len := Ipv6Net.prefixLen pool
  if 128 < len then (none, state)
  else nextFakeV6Go (Ipv6Net.network pool) (2 ^ (128 - len) - 1) (capacity + 1) state

/-- A promise found in the table, made again on both sides. -/
def renew (key : FakeKey) (entry : FakeEntry) (expires : Nat) (state : FakeState) :
    FakeState :=
  { state with
    fakeByDomain := state.fakeByDomain.modify key (FakeEntry.refresh state.sequence expires)
    fakeReverse := state.fakeReverse.modify entry.address
      (FakeEntry.refresh state.sequence expires) }

/-- A free address of the family a record type asks for. -/
def allocate {π₄ π₆ : Type} [Ipv4Net π₄] [Ipv6Net π₆] (capacity recordType : Nat)
    (pool4 : π₄) (pool6 : π₆) (state : FakeState) :
    Except Panic (Option IpAddr) × FakeState :=
  if recordType = recordA then state.nextFakeV4 pool4 capacity
  else if recordType = recordAaaa then
    let found := state.nextFakeV6 pool6 capacity
    (.ok found.1, found.2)
  else (.ok none, state)

/-- A new promise, entered on both sides. -/
def enter (key : FakeKey) (address : IpAddr) (expires : Nat) (state : FakeState) :
    FakeState :=
  let entry : FakeEntry := ⟨key.domain, address, expires, state.sequence⟩
  { state with
    fakeByDomain := state.fakeByDomain.insert key entry
    fakeReverse := state.fakeReverse.insert address entry }

/-- The tables as every use of them finds them, one tick later. -/
def bump (state : FakeState) : FakeState :=
  { state with sequence := wrapSucc state.sequence }

/-- `fake_address`: the address that stands for a name, promised again when it
is still remembered and allocated otherwise. -/
def fakeAddress {π₄ π₆ : Type} [Ipv4Net π₄] [Ipv6Net π₆] (capacity now : Nat)
    (domain : Str) (recordType : Nat) (pool4 : π₄) (pool6 : π₆) (ttl : Nat)
    (state : FakeState) : Except Panic (Option IpAddr) × FakeState :=
  let key : FakeKey := ⟨domain, recordType⟩
  let state := (state.purgeFake now).bump
  let expires := now + promiseTtl ttl
  match state.fakeByDomain.lookup key with
  | some entry => (.ok (some entry.address), state.renew key entry expires)
  | none =>
    if capacity ≤ state.fakeByDomain.len then (.ok none, state)
    else
      let allocated := state.allocate capacity recordType pool4 pool6
      match allocated.1 with
      | .ok (some address) => (.ok (some address), allocated.2.enter key address expires)
      | other => (other, allocated.2)

/-- `fake_domain`: the name an address stands for. A promise found lapsed is
dropped on the way. -/
def fakeDomain (now : Nat) (address : IpAddr) (state : FakeState) : Option Str × FakeState :=
  let state := state.bump
  let sequence := state.sequence
  let state := if sequence % fakeSweepInterval = 0 then state.purgeFake now else state
  match state.fakeReverse.lookup address with
  | none => (none, state)
  | some entry =>
    let key : FakeKey := ⟨entry.domain, address.recordType⟩
    if entry.expires ≤ now then
      (none, { state with
        fakeReverse := state.fakeReverse.erase address
        fakeByDomain := state.fakeByDomain.erase key })
    else
      (some entry.domain, { state with
        fakeReverse := state.fakeReverse.modify address (FakeEntry.touch sequence)
        fakeByDomain := state.fakeByDomain.modify key (FakeEntry.touch sequence) })

end FakeState

/-! ## Answers -/

/-- `empty_response`: the question sent back under a response code. -/
def emptyResponse (query : Packet) (rcode : Nat) : Option Packet := do
  let parsed ← parseQuestion query
  let requestFlags ← be16 query 2
  let flags := 0x8000 ||| 0x0080 ||| (requestFlags &&& 0x0110) ||| rcode
  return query.take 2 ++ toBe16 flags ++ toBe16 1 ++ toBe16 0 ++ toBe16 0 ++ toBe16 0 ++
    (query.take parsed.questionEnd).drop dnsHeaderLen

def servfailResponse (query : Packet) : Option Packet := emptyResponse query 2

def nxdomainResponse (query : Packet) : Option Packet := emptyResponse query 3

/-- `truncated_response`: an empty answer with the truncation bit. -/
def truncatedResponse (query : Packet) : Option Packet :=
  (emptyResponse query 0).map fun response => response.modify 2 (· ||| 0x02)

/-- The record data of an address. -/
def addressData : IpAddr → List UInt8
  | .v4 a => toBe16 4 ++ toBe32 a.toNat
  | .v6 a =>
    toBe16 16 ++ toBe32 (a.toNat / 2 ^ 96) ++ toBe32 (a.toNat / 2 ^ 64 % 2 ^ 32) ++
      toBe32 (a.toNat / 2 ^ 32 % 2 ^ 32) ++ toBe32 (a.toNat % 2 ^ 32)

/-- The answer `fake_response` makes of an address. -/
def fakeAnswer (query : Packet) (parsed : ParsedQuestion) (ttl : Nat) (address : IpAddr) :
    Packet :=
  let requestFlags := (be16 query 2).getD 0
  let flags := 0x8000 ||| 0x0080 ||| (requestFlags &&& 0x0110)
  query.take 2 ++ toBe16 flags ++ toBe16 1 ++ toBe16 1 ++ toBe16 0 ++ toBe16 0 ++
    (query.take parsed.questionEnd).drop dnsHeaderLen ++ [0xc0, 0x0c] ++
    toBe16 parsed.question.recordType ++ toBe16 classIn ++ toBe32 (min ttl maxTtl) ++
    addressData address

def addressQuestion (query : Packet) : Option ParsedQuestion :=
  (parseQuestion query).filter fun parsed =>
    parsed.question.class_ = classIn ∧
      (parsed.question.recordType = recordA ∨ parsed.question.recordType = recordAaaa)

/-- `fake_response`. Queries for service bindings are answered empty, since
their records would carry real addresses. -/
def fakeResponse {π₄ π₆ : Type} [Ipv4Net π₄] [Ipv6Net π₆] (capacity now : Nat)
    (query : Packet) (pool4 : π₄) (pool6 : π₆) (ttl : Nat) (state : FakeState) :
    Except Panic (Option Packet) × FakeState :=
  match addressQuestion query with
  | some parsed =>
    let found := state.fakeAddress capacity now parsed.question.domain
      parsed.question.recordType pool4 pool6 (min ttl maxTtl)
    (found.1.map fun address => address.map (fakeAnswer query parsed ttl), found.2)
  | none =>
    match parseQuestion query with
    | some parsed =>
      if parsed.question.class_ = classIn ∧
          (parsed.question.recordType = recordSvcb ∨
            parsed.question.recordType = recordHttps) then
        (.ok (emptyResponse query 0), state)
      else (.ok none, state)
    | none => (.ok none, state)

/-! ## A cache, its forks and the promises they make -/

/-- An answer that went out with a synthetic address in it. -/
structure Issue (π₄ π₆ : Type) where
  domain : Str
  address : IpAddr
  issuedAt : Nat
  ttl : Nat
  pool4 : π₄
  pool6 : π₆
  deriving DecidableEq

/-- The table, the caches that share it, the clock, and every answer that has
gone out so far, newest first. -/
structure FakeWorld (π₄ π₆ : Type) where
  fake : FakeState
  caches : List DnsCache
  now : Nat
  issued : List (Issue π₄ π₆)

inductive FakeOp (π₄ π₆ : Type) where
  | fakeResponse (index : Nat) (query : Packet) (pool4 : π₄) (pool6 : π₆) (ttl : Nat)
  | fakeDomain (index : Nat) (address : IpAddr)
  | flushResponses (index : Nat)
  | forkForPolicy (index : Nat) (capacity : Nat)
  | tick (elapsed : Nat)

namespace FakeWorld

variable {π₄ π₆ : Type} [Ipv4Net π₄] [Ipv6Net π₆]

/-- What a call of `fake_response` hands out, if it hands out an address. -/
def handedOut (w : FakeWorld π₄ π₆) (capacity : Nat) (query : Packet) (pool4 : π₄)
    (pool6 : π₆) (ttl : Nat) : Option (Issue π₄ π₆) :=
  match addressQuestion query with
  | some parsed =>
    match (w.fake.fakeAddress capacity w.now parsed.question.domain
        parsed.question.recordType pool4 pool6 (min ttl maxTtl)).1 with
    | .ok (some address) =>
      some ⟨parsed.question.domain, address, w.now, min ttl maxTtl, pool4, pool6⟩
    | _ => none
  | none => none

/-- One call on the cache at a position, or the passing of time. -/
def apply (w : FakeWorld π₄ π₆) : FakeOp π₄ π₆ → FakeWorld π₄ π₆
  | .fakeResponse index query pool4 pool6 ttl =>
    match w.caches[index]? with
    | some cache =>
      { w with
        fake := (fakeResponse cache.capacity w.now query pool4 pool6 ttl w.fake).2
        issued := (w.handedOut cache.capacity query pool4 pool6 ttl).toList ++ w.issued }
    | none => w
  | .fakeDomain index address =>
    match w.caches[index]? with
    | some _ => { w with fake := (w.fake.fakeDomain w.now address).2 }
    | none => w
  | .flushResponses index => { w with caches := w.caches.modify index DnsCache.flushResponses }
  | .forkForPolicy index capacity =>
    match w.caches[index]? with
    | some cache =>
      let forked := cache.forkForPolicy capacity w.now
      { w with caches := w.caches.set index forked.2 ++ [forked.1] }
    | none => w
  | .tick elapsed => { w with now := w.now + elapsed }

/-- A cache just made. -/
def Initial (w : FakeWorld π₄ π₆) : Prop :=
  w.fake = {} ∧ (∃ capacity, w.caches = [DnsCache.new capacity]) ∧ w.issued = []

end FakeWorld

end Foxcore.Ref
