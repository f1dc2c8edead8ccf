import Foxcore.Lib.System
import Foxcore.Ref.DnsCache

/-!
# What the inferred names are for

A flow to a bare address is routed by the names the address may stand for. The
table of inferred names is to say, for an application and an address, exactly
which names were answered with the address and are in time, or to say nothing.

The meaning is given over the answers themselves: an answer carries an address
when a record of it stands at the end of the alias chain that starts at the
question. A world keeps, next to the cache, the answers learned since the last
flush.
-/

namespace Foxcore.Spec

open Lib Ref

/-- The chain of aliases from a name to the name its records stand under, with
the least lifetime of its links. -/
inductive AliasChain (aliases : HashMap Str (Str × Nat)) : Str → Str → Nat → Prop
  | last {owner : Str} : aliases.lookup owner = none →
      AliasChain aliases owner owner (2 ^ 32 - 1)
  | link {owner target last : Str} {ttl rest : Nat} :
      aliases.lookup owner = some (target, ttl) → AliasChain aliases target last rest →
      AliasChain aliases owner last (min ttl rest)

/-- A response answers the name it asks for with an address, for a lifetime. -/
def Carries (response : Packet) (domain : Str) (address : IpAddr) (ttl : Nat) : Prop :=
  ∃ offset queryType count answers owner recordTtl chainTtl,
    readName response dnsHeaderLen = some (domain, offset) ∧
    be16 response offset = some queryType ∧ be16 response 6 = some count ∧
    answerRecords response queryType count (offset + 4) {} = some answers ∧
    AliasChain answers.aliases domain owner chainTtl ∧
    (owner, address, recordTtl) ∈ answers.addresses ∧ ttl = min recordTtl chainTtl

/-- That a name stands for an address until a time, for one application. -/
structure HintFact where
  identity : DnsIdentity
  address : IpAddr
  name : Str
  until_ : Nat

/-- A validated answer to a query for a name says so of each address it
carries with a positive lifetime, for as long as that is. -/
def Teaches (l : Lesson) (f : HintFact) : Prop :=
  f.identity = l.identity ∧ (responseMetadata l.query l.response).isSome ∧
    (parseAddresses l.response).isSome ∧
    (∃ parsed, parseQuestion l.query = some parsed ∧ parsed.question.domain = f.name) ∧
    ∃ ttl, 0 < ttl ∧ Carries l.response f.name f.address ttl ∧
      f.until_ = l.learnedAt + secs ttl

/-! ## Runs with their history -/

/-- A cache, the clock, and what has been learned since the last flush. -/
structure HintWorld where
  cache : DnsCache
  now : Nat
  learned : List Lesson

inductive HintOp where
  | learnRouteHints (query response : Packet) (identity : DnsIdentity)
  | routeHints (identity : DnsIdentity) (address : IpAddr)
  | flushResponses
  | tick (elapsed : Nat)

namespace HintWorld

def apply (w : HintWorld) : HintOp → HintWorld
  | .learnRouteHints query response identity =>
    { w with
      cache := w.cache.learnRouteHints w.now query response identity
      learned := ⟨identity, query, response, w.now⟩ :: w.learned }
  | .routeHints identity address =>
    { w with cache := (w.cache.routeHints w.now identity address).2 }
  | .flushResponses => { w with cache := w.cache.flushResponses, learned := [] }
  | .tick elapsed => { w with now := w.now + elapsed }

/-- A cache just made. -/
def Initial (w : HintWorld) : Prop :=
  (∃ capacity, w.cache = DnsCache.new capacity) ∧ w.learned = []

/-- What the answers learned since the last flush say. -/
def Facts (w : HintWorld) : Set HintFact := {f | ∃ l ∈ w.learned, Teaches l f}

/-- The names in time for an application and an address. -/
def Names (w : HintWorld) (identity : DnsIdentity) (address : IpAddr) : Set Str :=
  {d | ∃ u, ⟨identity, address, d, u⟩ ∈ w.Facts ∧ w.now < u}

end HintWorld

end Foxcore.Spec
