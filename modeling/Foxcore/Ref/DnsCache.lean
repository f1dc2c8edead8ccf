import Foxcore.Ref.Wire

/-!
# The resolver's cache

One cache holds the answers of upstream resolvers, the names inferred for an
address from them, and a record of past answers kept for telemetry. Every
operation takes the cache's lock for its whole length, so it is one function
on the state behind the lock. The clock is read on entry and is an argument
here, in nanoseconds.
-/

namespace Foxcore.Ref

open Lib

/-- `Duration::from_secs`, in nanoseconds. -/
def secs (n : Nat) : Nat := n * 1000000000

def staleTtl : Nat := secs (5 * 60)

/-- `u64::wrapping_add(1)`. -/
def wrapSucc (n : Nat) : Nat := (n + 1) % 2 ^ 64

structure DnsIdentity where
  uid : Nat
  packages : List Str
  deriving DecidableEq

inductive DnsResponseLane where
  | profile
  | direct
  deriving DecidableEq

structure DnsResponseScope where
  lane : DnsResponseLane
  identity : Option DnsIdentity
  networkEpoch : Nat
  deriving DecidableEq

structure ResponseKey where
  question : Packet
  scope : Option DnsResponseScope
  deriving DecidableEq

structure RouteHints where
  names : HashMap Str Nat := ∅
  overflowUntil : Option Nat := none

structure CacheEntry where
  domain : Str
  expires : Nat
  lastUsed : Nat
  deriving DecidableEq

structure ResponseEntry where
  packet : Packet
  inserted : Nat
  expires : Nat
  staleUntil : Nat
  ttlFields : List (Nat × Nat)
  lastUsed : Nat
  deriving DecidableEq

structure CacheState where
  sequence : Nat := 0
  reverse : HashMap IpAddr CacheEntry := ∅
  routeHints : HashMap (DnsIdentity × IpAddr) RouteHints := ∅
  responses : HashMap ResponseKey ResponseEntry := ∅

structure DnsCache where
  capacity : Nat
  capacity_pos : 0 < capacity
  state : CacheState

namespace DnsCache

def new (capacity : Nat) : DnsCache where
  capacity := max capacity 1
  capacity_pos := by omega
  state := {}

/-- `fork_for_policy`, as far as the part that is not shared goes: the new
cache, and the old one without its lapsed telemetry. -/
def forkForPolicy (cache : DnsCache) (capacity now : Nat) : DnsCache × DnsCache :=
  let source := { cache.state with
    reverse := cache.state.reverse.retain fun _ entry => now < entry.expires }
  ({ capacity := max capacity 1
     capacity_pos := by omega
     state := {
       sequence := source.sequence
       reverse := source.reverse.evict CacheEntry.lastUsed (max capacity 1) } },
   { cache with state := source })

/-- `flush_responses`: answers and inferred names go, telemetry stays. -/
def flushResponses (cache : DnsCache) : DnsCache :=
  { cache with state := { cache.state with routeHints := ∅, responses := ∅ } }

/-! ## Telemetry -/

/-- One answer entered by `observe_response`. -/
def observeAnswer (capacity now : Nat) (state : CacheState) (answer : AddressAnswer) :
    CacheState :=
  if answer.ttl = 0 then state
  else
    let sequence := wrapSucc state.sequence
    let entry : CacheEntry :=
      ⟨answer.domain, now + secs (min answer.ttl maxTtl), sequence⟩
    { state with
      sequence := sequence
      reverse := HashMap.evict CacheEntry.lastUsed capacity
        (state.reverse.insert answer.address entry) }

def observeResponse (cache : DnsCache) (now : Nat) (packet : Packet) : DnsCache :=
  match parseAddresses packet with
  | none => cache
  | some answers =>
    let state := { cache.state with
      reverse := cache.state.reverse.retain fun _ entry => now < entry.expires }
    { cache with state := answers.foldl (observeAnswer cache.capacity now) state }

/-- `reverse_domain`. -/
def reverseDomain (cache : DnsCache) (now : Nat) (address : IpAddr) : Option Str × DnsCache :=
  let state := cache.state
  let bumped := { state with sequence := wrapSucc state.sequence }
  match state.reverse.lookup address with
  | none => (none, { cache with state := bumped })
  | some entry =>
    if entry.expires ≤ now then
      (none, { cache with state := { state with reverse := state.reverse.erase address } })
    else
      (some entry.domain,
        { cache with state := { bumped with
            reverse := state.reverse.insert address
              { entry with lastUsed := bumped.sequence } } })

/-! ## Inferred names -/

end DnsCache

/-- How many names one address may carry. -/
def maxHintNames : Nat := 16

namespace RouteHints

/-- Drops the names whose time is over. -/
def prune (now : Nat) (hints : RouteHints) : RouteHints :=
  { hints with names := hints.names.retain fun _ expiry => now < expiry }

def overflowing (now : Nat) (hints : RouteHints) : Bool :=
  hints.overflowUntil.any fun expiry => now < expiry

/-- Enters a name until its time, or notes until when a name is missing. -/
def record (domain : Str) (expires : Nat) (hints : RouteHints) : RouteHints :=
  if (hints.names.lookup domain).isSome ∨ hints.names.len < maxHintNames then
    { hints with names := hints.names.upsert domain fun previous =>
        (previous.map fun p => max p expires).getD expires }
  else
    { hints with overflowUntil := some (max (hints.overflowUntil.getD expires) expires) }

end RouteHints

namespace DnsCache

/-- The sweep `learn_route_hints` starts with. -/
def pruneHints (now : Nat) (hints : HashMap (DnsIdentity × IpAddr) RouteHints) :
    HashMap (DnsIdentity × IpAddr) RouteHints :=
  hints.filterMap fun _ h =>
    if h.overflowing now || !(h.prune now).names.entries.isEmpty then some (h.prune now)
    else none

/-- One answer learned. An address that is not in the table yet is passed over
when the table is full. -/
def learnAnswer (capacity now : Nat) (identity : DnsIdentity)
    (table : HashMap (DnsIdentity × IpAddr) RouteHints) (answer : AddressAnswer) :
    HashMap (DnsIdentity × IpAddr) RouteHints :=
  if answer.ttl = 0 then table
  else if (table.lookup (identity, answer.address)).isNone ∧ capacity ≤ table.len then table
  else
    table.upsert (identity, answer.address) fun hints =>
      (hints.getD {}).record answer.domain (now + secs (min answer.ttl maxTtl))

def learnRouteHints (cache : DnsCache) (now : Nat) (query response : Packet)
    (identity : DnsIdentity) : DnsCache :=
  match responseMetadata query response, parseAddresses response with
  | some _, some answers =>
    { cache with state := { cache.state with
        routeHints := answers.foldl (learnAnswer cache.capacity now identity)
          (pruneHints now cache.state.routeHints) } }
  | _, _ => cache

end DnsCache

/-- A query and its response, whose they are and when they were learned. -/
structure Lesson where
  identity : DnsIdentity
  query : Packet
  response : Packet
  learnedAt : Nat
  deriving DecidableEq

/-- The addresses a lesson gives a name to, with the name. -/
def Lesson.names (l : Lesson) : List (IpAddr × Str) :=
  match responseMetadata l.query l.response, parseAddresses l.response with
  | some _, some answers =>
    (answers.filter fun a => a.ttl ≠ 0).map fun a => (a.address, a.domain)
  | _, _ => []

namespace DnsCache

/-- `route_hints`: the names an address may stand for, or nothing when they
are not all known. -/
def routeHints (cache : DnsCache) (now : Nat) (identity : DnsIdentity) (address : IpAddr) :
    Option (List Str) × DnsCache :=
  match cache.state.routeHints.lookup (identity, address) with
  | none => (none, cache)
  | some hints =>
    if hints.overflowing now then (none, cache)
    else
      let pruned := hints.prune now
      let cache := { cache with state := { cache.state with
        routeHints := cache.state.routeHints.insert (identity, address) pruned } }
      if pruned.names.entries.isEmpty then (none, cache)
      else (some (pruned.names.keys.insertionSort (· ≤ ·)), cache)

/-! ## Responses -/

/-- The four bytes of a lifetime written over a packet. -/
def writeTtl (packet : Packet) (field : Nat × Nat) : Packet :=
  packet.take field.1 ++ toBe32 field.2 ++ packet.drop (field.1 + 4)

/-- What is left of a lifetime. -/
def remainingTtl (entry : ResponseEntry) (now original : Nat) : Nat :=
  if entry.expires ≤ now then 0
  else original - min ((now - entry.inserted) / secs 1) (2 ^ 32 - 1)

/-- A stored response under the caller's transaction identifier, its lifetimes
counted down. -/
def renderResponse (entry : ResponseEntry) (now : Nat) (query : Packet) : Packet :=
  (entry.ttlFields.map fun field => (field.1, remainingTtl entry now field.2)).foldl
    writeTtl (query.take 2 ++ entry.packet.drop 2)

/-- `cached_response_inner`. -/
def cachedResponse (cache : DnsCache) (now : Nat) (query : Packet) (allowStale : Bool)
    (scope : Option DnsResponseScope) : Option Packet × DnsCache :=
  match queryKey query with
  | none => (none, cache)
  | some question =>
    let key : ResponseKey := ⟨question, scope⟩
    let state := cache.state
    let bumped := { state with sequence := wrapSucc state.sequence }
    match state.responses.lookup key with
    | none => (none, { cache with state := bumped })
    | some entry =>
      if entry.staleUntil ≤ now then
        (none, { cache with state := { state with responses := state.responses.erase key } })
      else if entry.expires ≤ now ∧ allowStale = false then (none, cache)
      else
        (some (renderResponse entry now query),
          { cache with state := { bumped with
              responses := state.responses.insert key
                { entry with lastUsed := bumped.sequence } } })

/-- What `cache_response_inner` enters, once it has decided to. -/
def insertResponse (cache : DnsCache) (now : Nat) (key : ResponseKey) (response : Packet)
    (metadata : ResponseMetadata) : DnsCache :=
  let state := cache.state
  let sequence := wrapSucc state.sequence
  let ttl := secs (min metadata.minTtl maxTtl)
  let entry : ResponseEntry :=
    { packet := zeroId response
      inserted := now
      expires := now + ttl
      staleUntil := now + ttl + staleTtl
      ttlFields := metadata.ttlFields
      lastUsed := sequence }
  { cache with state := { state with
      sequence := sequence
      responses := HashMap.evict ResponseEntry.lastUsed cache.capacity
        (state.responses.insert key entry) } }

/-- Whether a valid response is worth keeping. -/
def keepsResponse (metadata : ResponseMetadata) (negativeCache : Bool) : Bool :=
  !(metadata.negative && !negativeCache) && min metadata.minTtl maxTtl != 0

/-- `cache_response_inner`. The clock is read twice, once for the telemetry
and once for the entry. -/
def cacheResponse (cache : DnsCache) (observedAt now : Nat) (query response : Packet)
    (negativeCache : Bool) (scope : Option DnsResponseScope) : Bool × DnsCache :=
  match queryKey query, responseMetadata query response with
  | some question, some metadata =>
    let cache := cache.observeResponse observedAt response
    if keepsResponse metadata negativeCache then
      (true, cache.insertResponse now ⟨question, scope⟩ response metadata)
    else (true, cache)
  | _, _ => (false, cache)

end DnsCache

end Foxcore.Ref
