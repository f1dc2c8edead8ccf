import Foxcore.Ref.Policy

/-!
# The store, its resolvers and the exchanges under way

Any number of flows, each with the snapshot it was admitted under, ask the
resolver of their snapshot while calls replace snapshots. Every action below
is one step no other thread can divide: a load or store of the snapshot, a
token's cancellation, a section under a cache's lock, an epoch read under a
proxy's barrier. The barrier is a lock of its own and is held across several
such steps, so it is part of the state. A step that has to wait, or that the
exchange is not at, leaves the world as it is.

Two things are left open: what an upstream answers and whether the blocklist
passes a response. Every outcome is an action.

Next to what the program keeps, the world keeps a history. Each cache has a
trail of what was written to it since it was last flushed, with the number of
network changes there had been when the writing exchange read its epoch, and
`served` lists for everything read from a cache where it stems from. A network
change is told to one resolver, that of the snapshot in force; the exchanges
of the others and their caches are marked as passed over.
-/

namespace Foxcore.Ref

open Lib

/-- Who holds a proxy's barrier. -/
inductive Holder where
  | call
  | exchange (index : Nat)
  deriving DecidableEq

structure DnsProxy (π₄ π₆ α : Type) where
  config : DnsConfig π₄ π₆
  cache : Nat
  artifacts : List α
  /-- A `u64`, taken not to wrap. -/
  networkEpoch : Nat := 0
  networkBarrier : Option Holder := none

/-- Where an exchange is. In `relearning` and from `storing` to `teaching` it
holds its proxy's barrier. -/
inductive Phase where
  | begun
  | asking
  | relearning (response : Packet) (origin : Nat)
  | waiting (upstream : Nat)
  | answered (upstream : Nat) (response : Packet)
  | storing (upstream : Nat) (response : Packet)
  | inserting (response : Packet)
  | teaching (response : Packet)
  | done
  deriving DecidableEq

/-- An exchange, the token it is leased under, the epoch it has read, how many
network changes there had been then, and whether one since has passed its
proxy over. -/
structure Exchange where
  proxy : Nat
  lease : Nat
  query : Packet
  identity : Option DnsIdentity
  bypassesFiltering : Bool
  epoch : Nat := 0
  readAt : Nat := 0
  passedOver : Bool := false
  phase : Phase := .begun
  deriving DecidableEq

/-- A response stored in a cache, with the changes its exchange had seen. -/
structure StoredAnswer where
  key : ResponseKey
  response : Packet
  origin : Nat
  deriving DecidableEq

/-- What was written to a cache since it was last flushed or made, newest
first, and whether a network change since has passed it over. -/
structure Trail where
  stored : List StoredAnswer := []
  taught : List (Lesson × Nat) := []
  passedOver : Bool := false

/-- Something read from a cache: the network changes seen by the exchanges it
stems from, and those there had been when it was read. -/
structure Served where
  origins : List Nat
  readAt : Nat
  deriving DecidableEq

/-- What the blocklist says of the names a response leads to. -/
inductive AliasVerdict where
  | clear
  | blocked
  | invalid
  deriving DecidableEq

inductive ExchangeAct where
  | readEpoch
  | lookup (verdict : AliasVerdict)
  | relearn
  | fail
  | answer (response : Packet)
  | enter (verdict : AliasVerdict)
  | observe
  | insert
  | teach
  | lookupStale (verdict : AliasVerdict)
  | abandon
  deriving DecidableEq

/-! ## One exchange

`Desk` is what an exchange has in its hands during a step: itself, its proxy
and the proxy's cache. -/

structure Desk (π₄ π₆ α : Type) where
  exchange : Exchange
  proxy : DnsProxy π₄ π₆ α
  cache : DnsCache
  trail : Trail
  served : List Served

namespace Desk

variable {π₄ π₆ α : Type}

def goTo (d : Desk π₄ π₆ α) (phase : Phase) : Desk π₄ π₆ α :=
  { d with exchange := { d.exchange with phase := phase } }

def release (d : Desk π₄ π₆ α) : Desk π₄ π₆ α :=
  { d with proxy := { d.proxy with networkBarrier := none } }

def hold (d : Desk π₄ π₆ α) (index : Nat) : Desk π₄ π₆ α :=
  { d with proxy := { d.proxy with networkBarrier := some (.exchange index) } }

/-- `response_scope`. -/
def responseScope (d : Desk π₄ π₆ α) : DnsResponseScope where
  lane := if d.proxy.config.route = .direct then .direct else .profile
  identity := d.exchange.identity
  networkEpoch := d.exchange.epoch

/-- Whether the resolver answers the query itself in fake-IP mode. -/
def synthesizes (d : Desk π₄ π₆ α) : Bool :=
  d.proxy.config.mode = .fakeIp ∧ (parseQuestion d.exchange.query).any fun parsed =>
    parsed.question.class_ = classIn ∧
      parsed.question.recordType ∈ [recordA, recordAaaa, recordSvcb, recordHttps]

/-- The next upstream, for a lease that still stands. -/
def tryUpstream (d : Desk π₄ π₆ α) (revoked : Bool) (i : Nat) : Desk π₄ π₆ α :=
  if i < d.proxy.config.upstreams.length ∧ revoked then d.goTo .done else d.goTo (.waiting i)

/-- The key an exchange asks the cache under. -/
def responseKey (d : Desk π₄ π₆ α) : Option ResponseKey :=
  (queryKey d.exchange.query).map fun question => ⟨question, some d.responseScope⟩

/-- What was last stored under the exchange's key. -/
def lastStored (d : Desk π₄ π₆ α) : Option StoredAnswer :=
  d.responseKey.bind fun key => d.trail.stored.find? fun s => s.key = key

/-- The section of `DnsProxy::cached_response`, up to the lesson drawn from a
response found. `miss` is where the exchange goes when there is none. -/
def lookup (d : Desk π₄ π₆ α) (index changes now : Nat) (stale : Bool)
    (verdict : AliasVerdict) (miss : Desk π₄ π₆ α → Desk π₄ π₆ α) : Desk π₄ π₆ α :=
  if d.proxy.networkBarrier ≠ none then d
  else if d.proxy.networkEpoch ≠ d.exchange.epoch then d.goTo .done
  else
    let found := d.cache.cachedResponse now d.exchange.query stale (some d.responseScope)
    let passes := d.exchange.bypassesFiltering || verdict = .clear
    match found.1 with
    | none => miss { d with cache := found.2 }
    | some response =>
      let origins := (d.lastStored.map StoredAnswer.origin).toList
      let d := { d with
        cache := found.2
        served := if passes then ⟨origins, changes⟩ :: d.served else d.served }
      if d.exchange.identity.isSome ∧ passes then
        (d.goTo (.relearning response (origins.headD 0))).hold index
      else d.goTo .done

/-- A lesson from a response, with the changes its origin had seen. -/
def learn (d : Desk π₄ π₆ α) (now : Nat) (response : Packet) (origin : Nat) :
    Desk π₄ π₆ α :=
  match d.exchange.identity with
  | some identity =>
    { d with
      cache := d.cache.learnRouteHints now d.exchange.query response identity
      trail := { d.trail with
        taught := (⟨identity, d.exchange.query, response, now⟩, origin) :: d.trail.taught } }
  | none => d

/-- The entry of a valid response, if it is worth keeping. -/
def insert (d : Desk π₄ π₆ α) (now : Nat) (response : Packet) : Desk π₄ π₆ α :=
  match d.responseKey, responseMetadata d.exchange.query response with
  | some key, some metadata =>
    if DnsCache.keepsResponse metadata d.proxy.config.negativeCache then
      { d with
        cache := d.cache.insertResponse now key response metadata
        trail := { d.trail with
          stored := ⟨key, response, d.exchange.readAt⟩ :: d.trail.stored } }
    else d
  | _, _ => d

def step (d : Desk π₄ π₆ α) (index changes now : Nat) (revoked : Bool) :
    ExchangeAct → Desk π₄ π₆ α
  | .readEpoch =>
    if d.exchange.phase ≠ .begun ∨ d.proxy.networkBarrier ≠ none then d
    else if d.proxy.networkEpoch % 2 = 1 then d.goTo .done
    else { d with exchange := { d.exchange with
        epoch := d.proxy.networkEpoch, readAt := changes, passedOver := false,
        phase := .asking } }
  | .lookup verdict =>
    if d.exchange.phase ≠ .asking then d
    else d.lookup index changes now false verdict fun d =>
      if d.synthesizes then d.goTo .done else d.tryUpstream revoked 0
  | .relearn =>
    match d.exchange.phase with
    | .relearning response origin => ((d.learn now response origin).goTo .done).release
    | _ => d
  | .fail =>
    match d.exchange.phase with
    | .waiting i =>
      if i < d.proxy.config.upstreams.length then d.tryUpstream revoked (i + 1) else d
    | _ => d
  | .answer response =>
    match d.exchange.phase with
    | .waiting i =>
      if d.proxy.config.upstreams.length ≤ i ∨
          d.proxy.config.maxResponseBytes < response.length then d
      else if revoked then d.goTo .done
      else d.goTo (.answered i response)
    | _ => d
  | .enter verdict =>
    match d.exchange.phase with
    | .answered i response =>
      if d.exchange.bypassesFiltering = false ∧ verdict = .blocked then d.goTo .done
      else if d.exchange.bypassesFiltering = false ∧ verdict = .invalid then
        d.tryUpstream revoked (i + 1)
      else if d.proxy.networkBarrier ≠ none then d
      else if d.proxy.networkEpoch ≠ d.exchange.epoch then d.goTo .done
      else (d.goTo (.storing i response)).hold index
    | _ => d
  | .observe =>
    match d.exchange.phase with
    | .storing i response =>
      if (queryKey d.exchange.query).isSome ∧
          (responseMetadata d.exchange.query response).isSome then
        ({ d with cache := d.cache.observeResponse now response }).goTo (.inserting response)
      else (d.tryUpstream revoked (i + 1)).release
    | _ => d
  | .insert =>
    match d.exchange.phase with
    | .inserting response => (d.insert now response).goTo (.teaching response)
    | _ => d
  | .teach =>
    match d.exchange.phase with
    | .teaching response => ((d.learn now response d.exchange.readAt).goTo .done).release
    | _ => d
  | .lookupStale verdict =>
    match d.exchange.phase with
    | .waiting i =>
      if i < d.proxy.config.upstreams.length ∨ d.proxy.config.staleOnError = false then d
      else d.lookup index changes now true verdict fun d => d.goTo .done
    | _ => d
  | .abandon =>
    match d.exchange.phase with
    | .waiting _ => d.goTo .done
    | _ => d

end Desk

/-! ## The resolvers -/

structure Resolvers (π₄ π₆ α : Type) where
  caches : List (DnsCache × Trail)
  proxies : List (DnsProxy π₄ π₆ α)
  exchanges : List Exchange
  served : List Served
  changes : Nat
  now : Nat

namespace Resolvers

variable {π₄ π₆ α : Type}

/-- What an exchange has in its hands. -/
def desk (r : Resolvers π₄ π₆ α) (index : Nat) : Option (Desk π₄ π₆ α) := do
  let exchange ← r.exchanges[index]?
  let proxy ← r.proxies[exchange.proxy]?
  let (cache, trail) ← r.caches[proxy.cache]?
  return ⟨exchange, proxy, cache, trail, r.served⟩

/-- What is put back after a step. -/
def putBack (r : Resolvers π₄ π₆ α) (index : Nat) (d : Desk π₄ π₆ α) : Resolvers π₄ π₆ α :=
  { r with
    caches := r.caches.set d.proxy.cache (d.cache, d.trail)
    proxies := r.proxies.set d.exchange.proxy d.proxy
    exchanges := r.exchanges.set index d.exchange
    served := d.served }

def exchangeStep (r : Resolvers π₄ π₆ α) (cancelled : List Nat) (index : Nat)
    (act : ExchangeAct) : Resolvers π₄ π₆ α :=
  match r.desk index with
  | some d =>
    r.putBack index
      (d.step index r.changes r.now (cancelled.contains d.exchange.lease) act)
  | none => r

/-- A query taken up for a flow, whose lease stands. -/
def beginExchange (r : Resolvers π₄ π₆ α) (proxy lease : Nat) (query : Packet)
    (identity : Option DnsIdentity) (bypassesFiltering : Bool) : Resolvers π₄ π₆ α :=
  if query.length < 12 ∨ 65535 < query.length ∨ (parseQuestion query).isNone then r
  else
    let exchange : Exchange :=
      { proxy := proxy, lease := lease, query := query, identity := identity,
        bypassesFiltering := bypassesFiltering }
    { r with exchanges := r.exchanges ++ [exchange] }

/-- The exchanges that taught a name for an address, by the changes they had
seen. -/
def teachers (trail : Trail) (identity : DnsIdentity) (address : IpAddr) (name : Str) :
    List Nat :=
  (trail.taught.filter fun t => t.1.identity = identity ∧ (address, name) ∈ t.1.names).map
    Prod.snd

/-- `route_hints` on a snapshot's cache. -/
def readHints (r : Resolvers π₄ π₆ α) (cache : Nat) (identity : DnsIdentity)
    (address : IpAddr) : Resolvers π₄ π₆ α :=
  match r.caches[cache]? with
  | some (dns, trail) =>
    let found := dns.routeHints r.now identity address
    { r with
      caches := r.caches.set cache (found.2, trail)
      served := (found.1.getD []).map (fun name =>
        ⟨teachers trail identity address name, r.changes⟩) ++ r.served }
  | none => r

def forkCache (r : Resolvers π₄ π₆ α) (source capacity : Nat) : Resolvers π₄ π₆ α :=
  match r.caches[source]? with
  | some (dns, trail) =>
    let forked := dns.forkForPolicy capacity r.now
    { r with caches := r.caches.set source (forked.2, trail) ++
        [(forked.1, {})] }
  | none => r

/-- A legacy upstream becomes the only one of a configuration without any. -/
def withLegacyUpstream (config : DnsConfig π₄ π₆) : DnsConfig π₄ π₆ :=
  if config.upstreams.isEmpty then
    { config with upstream := none, upstreams := config.upstream.toList.map .udp }
  else config

def makeProxy (r : Resolvers π₄ π₆ α) (config : DnsConfig π₄ π₆) (cache : Nat)
    (artifacts : List α) : Resolvers π₄ π₆ α :=
  if config.intercepts then
    let proxy : DnsProxy π₄ π₆ α :=
      { config := withLegacyUpstream config, cache := cache, artifacts := artifacts }
    { r with proxies := r.proxies ++ [proxy] }
  else r

/-- `flush_responses`. -/
def flush (r : Resolvers π₄ π₆ α) (cache : Nat) : Resolvers π₄ π₆ α :=
  { r with caches := r.caches.modify cache fun c => (c.1.flushResponses, {}) }

/-- The moment of a network change: it is told to one proxy, if there is one,
and has one cache flushed. -/
def changeNetwork (r : Resolvers π₄ π₆ α) (proxy : Option Nat) (cache : Nat) :
    Resolvers π₄ π₆ α :=
  let passOver := fun exchange : Exchange =>
    if proxy = some exchange.proxy then exchange else { exchange with passedOver := true }
  let others := r.caches.map fun c => (c.1, { c.2 with passedOver := true })
  ({ r with
      caches := others
      exchanges := r.exchanges.map passOver
      changes := r.changes + 1 }).flush cache

/-- `network_changed` takes the barrier, when it is free, and makes the epoch
odd. -/
def closeEpoch (r : Resolvers π₄ π₆ α) (proxy : Nat) : Option (Resolvers π₄ π₆ α) :=
  match r.proxies[proxy]? with
  | some p =>
    if p.networkBarrier = none then
      let closed := { p with
        networkEpoch := p.networkEpoch + 1, networkBarrier := some .call }
      some { r with proxies := r.proxies.set proxy closed }
    else none
  | none => some r

def openEpoch (r : Resolvers π₄ π₆ α) (proxy : Nat) : Resolvers π₄ π₆ α :=
  let reopen := fun p : DnsProxy π₄ π₆ α =>
    { p with networkEpoch := p.networkEpoch + 1, networkBarrier := none }
  { r with proxies := r.proxies.modify proxy reopen }

end Resolvers

/-! ## The world -/

/-- The store, and what has been published and admitted so far. `acts` is what
the call that holds the lock has left to do; `lastCall` is the latest call,
with whether it passed the check of its revision. -/
structure Policies (ν π₄ π₆ α : Type) where
  current : FlowPolicySnapshot ν π₄ π₆
  store : PolicyMutable α
  acts : List (Act ν π₄ π₆ α) := []
  nextToken : Nat
  cancelled : List Nat := []
  published : List (FlowPolicySnapshot ν π₄ π₆)
  flows : List (FlowPolicySnapshot ν π₄ π₆) := []
  lastCall : Option (PolicyCall ν π₄ π₆ × Bool) := none

structure World (ν π₄ π₆ α : Type) where
  policies : Policies ν π₄ π₆ α
  resolvers : Resolvers π₄ π₆ α

inductive Action (ν π₄ π₆ : Type) where
  | call (call : PolicyCall ν π₄ π₆) (clock : Option Nat)
  | act
  | admitFlow
  | beginExchange (flow : Nat) (query : Packet) (identity : Option DnsIdentity)
      (bypassesFiltering : Bool)
  | exchange (index : Nat) (act : ExchangeAct)
  | routeHints (flow : Nat) (identity : DnsIdentity) (address : IpAddr)
  | tick (elapsed : Nat)

namespace World

variable {ν π₄ π₆ α : Type}

/-- Whether a call is meant for the revision it finds. -/
def passesRevision (current : FlowPolicySnapshot ν π₄ π₆) : PolicyCall ν π₄ π₆ → Bool
  | .reload expectedRevision _ _ => revisionMatches expectedRevision current
  | _ => true

/-- A call takes the lock, when it is free. -/
def takeLock [RuleSetVerifier α] (w : World ν π₄ π₆ α) (call : PolicyCall ν π₄ π₆)
    (clock : Option Nat) : World ν π₄ π₆ α :=
  if w.policies.acts.isEmpty then
    let unused : Unused :=
      ⟨w.policies.nextToken, w.resolvers.caches.length, w.resolvers.proxies.length⟩
    { w with policies := { w.policies with
        acts := (call.run w.policies.current w.policies.store unused clock).2
        nextToken := w.policies.nextToken + 1
        lastCall := some (call, passesRevision w.policies.current call) } }
  else w

/-- The first act of the call under way. Only the barrier of a proxy can make
it wait. -/
def act (w : World ν π₄ π₆ α) : World ν π₄ π₆ α :=
  match w.policies.acts with
  | [] => w
  | .forkCache source capacity :: acts =>
    { policies := { w.policies with acts := acts }
      resolvers := w.resolvers.forkCache source capacity }
  | .makeProxy config cache artifacts :: acts =>
    { policies := { w.policies with acts := acts }
      resolvers := w.resolvers.makeProxy config cache artifacts }
  | .store snapshot :: acts =>
    { w with policies := { w.policies with
        acts := acts, current := snapshot, published := snapshot :: w.policies.published } }
  | .cancel token :: acts =>
    { w with policies := { w.policies with
        acts := acts, cancelled := token :: w.policies.cancelled } }
  | .closeEpoch proxy :: acts =>
    match w.resolvers.closeEpoch proxy with
    | some resolvers => ⟨{ w.policies with acts := acts }, resolvers⟩
    | none => w
  | .flush cache networkChange :: acts =>
    { policies := { w.policies with acts := acts }
      resolvers :=
        if networkChange then w.resolvers.changeNetwork w.policies.current.dnsProxy cache
        else w.resolvers.flush cache }
  | .openEpoch proxy :: acts =>
    { policies := { w.policies with acts := acts }
      resolvers := w.resolvers.openEpoch proxy }
  | .setRuleSets ruleSets :: acts =>
    { w with policies := { w.policies with
        acts := acts, store := { w.policies.store with ruleSets := ruleSets } } }

def apply [RuleSetVerifier α] (w : World ν π₄ π₆ α) : Action ν π₄ π₆ → World ν π₄ π₆ α
  | .call call clock => w.takeLock call clock
  | .act => w.act
  | .admitFlow => { w with policies := { w.policies with
      flows := w.policies.flows ++ [w.policies.current] } }
  | .beginExchange flow query identity bypassesFiltering =>
    match w.policies.flows[flow]? with
    | some snapshot =>
      match snapshot.dnsProxy with
      | some proxy =>
        if w.policies.cancelled.contains snapshot.revocation then w
        else
          ⟨w.policies, w.resolvers.beginExchange proxy snapshot.revocation query
            identity bypassesFiltering⟩
      | none => w
    | none => w
  | .exchange index act =>
    { w with resolvers := w.resolvers.exchangeStep w.policies.cancelled index act }
  | .routeHints flow identity address =>
    match w.policies.flows[flow]? with
    | some snapshot =>
      { w with resolvers := w.resolvers.readHints snapshot.dns identity address }
    | none => w
  | .tick elapsed =>
    { w with resolvers := { w.resolvers with now := w.resolvers.now + elapsed } }

/-- A store just made: its first snapshot, one cache, new or forked from that of
a store before it, and a proxy if it intercepts. -/
def Initial (w : World ν π₄ π₆ α) : Prop :=
  ∃ (routes : RouteTable ν) (config : DnsConfig π₄ π₆) (store : PolicyMutable α)
    (artifacts : List α) (cache : DnsCache) (now : Nat),
    (cache = DnsCache.new config.cacheSize ∨
      ∃ previous : DnsCache, cache = (previous.forkForPolicy config.cacheSize now).1) ∧
    w.policies =
      { current := ⟨1, routes, config, 0, if config.intercepts then some 0 else none, 0⟩
        store := store
        nextToken := 1
        published := [⟨1, routes, config, 0, if config.intercepts then some 0 else none, 0⟩] } ∧
    w.resolvers =
      Resolvers.makeProxy
        { caches := [(cache, {})]
          proxies := [], exchanges := [], served := [], changes := 0, now := now }
        config 0 artifacts

end World

end Foxcore.Ref
