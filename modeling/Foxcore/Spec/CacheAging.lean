import Foxcore.Lib.System
import Foxcore.Ref.DnsCache
import Foxcore.Spec.Records
import Foxcore.Spec.WireName

/-!
# Responses that age in the cache

A response waits in the cache under its query and is handed out later under
another identifier, its lifetimes counted down. `CacheRun` is the cache with a
list of what was kept in it, and `Aged` says how what is handed out is to
differ from what was kept.

Names are read from anywhere in a message, so they may be read from a lifetime
or from the identifier, and then they change with it. `Rereads` says that the
names of an aged packet still read as they must, and `Steady` when this is
plain from the query and the response.
-/

namespace Foxcore.Spec

open Lib Ref

/-! ## Runs of a cache -/

structure Kept where
  key : ResponseKey
  query : Packet
  response : Packet
  keptAt : Nat
  deriving DecidableEq

/-- What is kept of a response that is offered to the cache. -/
def Kept.of (now : Nat) (query response : Packet) (negativeCache : Bool)
    (scope : Option DnsResponseScope) : Option Kept := do
  let question ← queryKey query
  let metadata ← responseMetadata query response
  if DnsCache.keepsResponse metadata negativeCache then
    some ⟨⟨question, scope⟩, query, response, now⟩
  else none

/-- A cache and what was kept in it, the latest first. -/
structure CacheRun where
  cache : DnsCache
  kept : List Kept := []

/-- Everything that may be done to a cache. The clock is read before the lock
is taken, so the times need not be in order. -/
inductive CacheAction where
  | observe (now : Nat) (packet : Packet)
  | reverse (now : Nat) (address : IpAddr)
  | learn (now : Nat) (query response : Packet) (identity : DnsIdentity)
  | hints (now : Nat) (identity : DnsIdentity) (address : IpAddr)
  | lookup (now : Nat) (query : Packet) (allowStale : Bool) (scope : Option DnsResponseScope)
  | keep (observedAt now : Nat) (query response : Packet) (negativeCache : Bool)
      (scope : Option DnsResponseScope)
  | fork (capacity now : Nat)
  | flush
  deriving DecidableEq

namespace CacheRun

def apply (s : CacheRun) : CacheAction → CacheRun
  | .observe now packet => { s with cache := s.cache.observeResponse now packet }
  | .reverse now address => { s with cache := (s.cache.reverseDomain now address).2 }
  | .learn now query response identity =>
    { s with cache := s.cache.learnRouteHints now query response identity }
  | .hints now identity address =>
    { s with cache := (s.cache.routeHints now identity address).2 }
  | .lookup now query allowStale scope =>
    { s with cache := (s.cache.cachedResponse now query allowStale scope).2 }
  | .keep observedAt now query response negativeCache scope =>
    { cache := (s.cache.cacheResponse observedAt now query response negativeCache scope).2
      kept := (Kept.of now query response negativeCache scope).toList ++ s.kept }
  | .fork capacity now => { s with cache := (s.cache.forkForPolicy capacity now).2 }
  | .flush => { s with cache := s.cache.flushResponses }

/-- A cache starts without responses, be it new or the fork of another. -/
def Initial (s : CacheRun) : Prop := s.cache.state.responses = ∅ ∧ s.kept = []

/-- What was last kept under a key. -/
def latest (s : CacheRun) (key : ResponseKey) : Option Kept :=
  s.kept.find? fun k => k.key = key

end CacheRun

/-! ## Lifetimes -/

def Kept.expires (k : Kept) (v : Reading) : Nat :=
  k.keptAt + secs (min v.metadata.minTtl maxTtl)

/-- What is left of a lifetime: the whole seconds that have passed are taken
from it, and everything once the response has expired. -/
def Kept.remaining (k : Kept) (v : Reading) (now ttl : Nat) : Nat :=
  if k.expires v ≤ now then 0 else ttl - (now - k.keptAt) / secs 1

/-- An offset is neither in the identifier nor in a lifetime. -/
def Unaged (records : List Record) (i : Nat) : Prop :=
  2 ≤ i ∧ ∀ r ∈ lasting records, ¬ (r.ttlField.1 ≤ i ∧ i < r.ttlField.1 + 4)

/-- A packet is a response with another identifier and other lifetimes. -/
structure Aged (query response : Packet) (records : List Record) (remaining : Nat → Nat)
    (packet : Packet) : Prop where
  length : packet.length = response.length
  id : packet.take 2 = query.take 2
  inside : ∀ r ∈ lasting records, r.ttlField.1 + 4 ≤ response.length
  ttl : ∀ r ∈ lasting records, be32 packet r.ttlField.1 = some (remaining r.ttl)
  rest : ∀ i, Unaged records i → packet[i]? = response[i]?

/-! ## Names that age -/

/-- Where records begin, the first at the given offset. -/
def recordOffsets (offset : Nat) : List Record → List Nat
  | [] => []
  | r :: records => offset :: recordOffsets (r.start + r.len) records

/-- The names of an aged packet read as they must: its question's as the
query's, its owners' in any way. -/
structure Rereads (query packet : Packet) (v : Reading) : Prop where
  question : ∃ parsed, parseQuestion query = some parsed ∧
    (readName packet dnsHeaderLen).map Prod.fst = some parsed.question.domain
  owners : ∀ p ∈ recordOffsets (v.next + 4) v.records, (readName packet p).isSome = true

/-- No name is read from anything that ages. -/
structure Steady (query response : Packet) (v : Reading) : Prop where
  query : ∀ w, NameAt query dnsHeaderLen w → ∀ i ∈ w.bytes, 2 ≤ i
  question : ∀ w, NameAt response dnsHeaderLen w → ∀ i ∈ w.bytes, Unaged v.records i
  owners : ∀ p ∈ recordOffsets (v.next + 4) v.records, ∀ w, NameAt response p w →
    ∀ i ∈ w.bytes, Unaged v.records i

end Foxcore.Spec
