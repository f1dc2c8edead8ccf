import Foxcore.Ref.Blocklist
import Foxcore.Ref.Runtime

/-!
# Filtering in the resolver

The world of the policy store leaves open what the blocklist says of a
response. Here every proxy has its blocklist, and the answers are filled in:
whether a query bypasses filtering is read off the packages it is attributed
to, and a response is passed or not by the names its aliases lead to.
`FilteredWorld` also keeps what the exchanges return to their callers.

A blocklist is made with its proxy and never changes, so the blocklists are a
function of the proxy. The table of synthetic addresses is behind a lock of its
own and any other user of it may have been there before, so an answer made from
it may start from any table.
-/

namespace Foxcore.Ref

open Lib

inductive IoErrorKind where
  | invalidData
  | permissionDenied
  deriving DecidableEq

structure IoError where
  kind : IoErrorKind
  message : String
  deriving DecidableEq

/-! ## Names of the overlays -/

def Str.trimEndMatches (c : UInt8) (s : Str) : Str := (s.reverse.dropWhile (· == c)).reverse

def Str.eqIgnoreAsciiCase (s t : Str) : Bool :=
  Str.toAsciiLowercase s = Str.toAsciiLowercase t

/-- `has_overlay_suffix`: the name is the suffix or ends in it behind a dot. -/
def hasOverlaySuffix (domain suffix : Str) : Bool :=
  let domain := Str.trimEndMatches dot domain
  if domain.length < suffix.length then false
  else
    let offset := domain.length - suffix.length
    if offset = 0 then Str.eqIgnoreAsciiCase domain suffix
    else domain[offset - 1]? = some dot && Str.eqIgnoreAsciiCase (domain.drop offset) suffix

def isOnion (domain : Str) : Bool :=
  hasOverlaySuffix domain (Str.ofChars ['o', 'n', 'i', 'o', 'n'])

def isI2p (domain : Str) : Bool := hasOverlaySuffix domain (Str.ofChars ['i', '2', 'p'])

/-! ## The filter of a proxy -/

structure DnsBlocklistCategoryConfig where
  category : DnsCategory
  exact : List Str := []
  suffixes : List Str := []
  deriving DecidableEq

structure DnsBlocklistConfig where
  exact : List Str := []
  suffixes : List Str := []
  categories : List DnsBlocklistCategoryConfig := []
  allowExact : List Str := []
  allowSuffixes : List Str := []
  bypassPackages : List Str := []
  deriving DecidableEq

/-- The sources `DnsProxy::new` compiles. -/
def DnsBlocklistConfig.sources (config : DnsBlocklistConfig) : List BlocklistSource :=
  { category := none, exact := config.exact, suffixes := config.suffixes } ::
    config.categories.map fun group =>
      { category := some group.category, exact := group.exact, suffixes := group.suffixes }

/-- What a proxy filters by. -/
structure Filter (μ : Type) [Transducer μ UInt8 Flags] where
  config : DnsBlocklistConfig
  ruleSets : List (RuleSetArtifact μ)
  torEnabled : Bool
  i2pEnabled : Bool
  torRegistered : Bool
  i2pRegistered : Bool

def DnsIdentity.new (uid : Nat) (packages : List Str) : DnsIdentity :=
  ⟨uid, (packages.insertionSort (· ≤ ·)).dedup⟩

/-- How a query fares before the cache is asked. -/
inductive Admission where
  | refused (reply : Packet)
  | admitted (bypassesFiltering : Bool)
  deriving DecidableEq

namespace Filter

variable {μ : Type} [Transducer μ UInt8 Flags]

def blocklist (f : Filter μ) : DomainBlocklist μ :=
  ((DomainBlocklist.compileSources f.config.sources).withAllowlist f.config.allowExact
    f.config.allowSuffixes).withRuleSets f.ruleSets

/-- Why a name of an overlay is refused outright. -/
def overlayRefusal (f : Filter μ) (name : Str) : Option String :=
  if isOnion name && !f.torEnabled then
    some ".onion DNS is disabled by the active traffic policy"
  else if isI2p name && !f.i2pEnabled then
    some ".i2p DNS is disabled by the active traffic policy"
  else if isOnion name && !f.torRegistered then
    some ".onion DNS requires a registered Tor outbound"
  else if isI2p name && !f.i2pRegistered then
    some ".i2p DNS requires a registered I2P outbound"
  else none

/-- Filtering is bypassed when there is a package and every package is listed.
The primary package counts when no others are known. -/
def bypassesFiltering (f : Filter μ) (primaryPackage : Option Str) (packages : List Str) :
    Bool :=
  match if packages.isEmpty then primaryPackage.toList else packages with
  | [] => false
  | package :: others =>
    f.config.bypassPackages.contains package &&
      others.all fun other => f.config.bypassPackages.contains other

/-- `exchange_attributed_leased`, up to the blocklist. -/
def admitQuery (f : Filter μ) (query : Packet) (primaryPackage : Option Str)
    (packages : List Str) : Except IoError Admission :=
  if query.length < 12 ∨ 65535 < query.length then
    .error ⟨.invalidData, "DNS query length must be in 12..=65535"⟩
  else
    match parseQuestion query with
    | none => .error ⟨.invalidData, "DNS requires one valid standard query question"⟩
    | some parsed =>
      match f.overlayRefusal parsed.question.domain with
      | some message => .error ⟨.permissionDenied, message⟩
      | none =>
        let bypasses := f.bypassesFiltering primaryPackage packages
        if bypasses = false ∧ (f.blocklist.lookup parsed.question.domain).isSome then
          match nxdomainResponse query with
          | some reply => .ok (.refused reply)
          | none => .error ⟨.invalidData,
              "cannot answer a malformed DNS query with NXDOMAIN"⟩
        else .ok (.admitted bypasses)

/-- `blocked_response_alias`. -/
def blockedResponseAlias (f : Filter μ) (query response : Packet) : AliasVerdict :=
  if f.blocklist.entries = 0 then .clear
  else
    match responseDomainChain query response with
    | none => .invalid
    | some chain =>
      if chain.any fun domain => (f.blocklist.lookup domain).isSome then .blocked else .clear

end Filter

/-! ## What an exchange returns -/

namespace Desk

variable {π₄ π₆ α : Type}

/-- The response the cache has for an exchange. -/
def found (d : Desk π₄ π₆ α) (now : Nat) (stale : Bool) : Option Packet :=
  (d.cache.cachedResponse now d.exchange.query stale (some d.responseScope)).1

/-- Nobody holds the barrier and the network is still the same. -/
def atCache (d : Desk π₄ π₆ α) : Bool :=
  d.proxy.networkBarrier = none ∧ d.proxy.networkEpoch = d.exchange.epoch

end Desk

namespace Filter

variable {μ π₄ π₆ α : Type} [Transducer μ UInt8 Flags]

/-- An act with the blocklist's answer in it. -/
def withVerdict (f : Filter μ) (d : Desk π₄ π₆ α) (now : Nat) : ExchangeAct → ExchangeAct
  | .lookup _ =>
    .lookup (((d.found now false).map (f.blockedResponseAlias d.exchange.query)).getD .clear)
  | .lookupStale _ =>
    .lookupStale
      (((d.found now true).map (f.blockedResponseAlias d.exchange.query)).getD .clear)
  | .enter _ =>
    match d.exchange.phase with
    | .answered _ response => .enter (f.blockedResponseAlias d.exchange.query response)
    | _ => .enter .clear
  | act => act

/-- What is returned of a response found in the cache. One that passes goes out
once its lesson is drawn, if there is anyone to draw it for. -/
def serve (f : Filter μ) (d : Desk π₄ π₆ α) (response : Packet) : Option Packet :=
  if d.exchange.bypassesFiltering then
    if d.exchange.identity.isSome then none else some response
  else
    match f.blockedResponseAlias d.exchange.query response with
    | .clear => if d.exchange.identity.isSome then none else some response
    | .blocked => nxdomainResponse d.exchange.query
    | .invalid => none

/-- An answer with a synthetic address. -/
def synthesized [Ipv4Net π₄] [Ipv6Net π₆] (d : Desk π₄ π₆ α) (now : Nat) (fake : FakeState) :
    Option Packet :=
  match (fakeResponse d.cache.capacity now d.exchange.query d.proxy.config.fakeIpv4Pool
    d.proxy.config.fakeIpv6Pool d.proxy.config.fakeTtlS fake).1 with
  | .ok reply => reply
  | .error _ => none

/-- The packet an exchange returns to its caller in a step, if it does. -/
def returned [Ipv4Net π₄] [Ipv6Net π₆] (f : Filter μ) (d : Desk π₄ π₆ α) (now : Nat)
    (fake : FakeState) : ExchangeAct → Option Packet
  | .lookup _ =>
    if d.exchange.phase ≠ .asking ∨ d.atCache = false then none
    else
      match d.found now false with
      | some response => f.serve d response
      | none => if d.synthesizes then synthesized d now fake else none
  | .relearn =>
    match d.exchange.phase with
    | .relearning response _ => some response
    | _ => none
  | .enter _ =>
    match d.exchange.phase with
    | .answered _ response =>
      if d.exchange.bypassesFiltering = false ∧
          f.blockedResponseAlias d.exchange.query response = .blocked then
        nxdomainResponse d.exchange.query
      else none
    | _ => none
  | .teach =>
    match d.exchange.phase with
    | .teaching response => some response
    | _ => none
  | .lookupStale _ =>
    match d.exchange.phase with
    | .waiting i =>
      if i < d.proxy.config.upstreams.length ∨ d.proxy.config.staleOnError = false ∨
          d.atCache = false then none
      else (d.found now true).bind (f.serve d)
    | _ => none
  | _ => none

/-- A name of an overlay that nobody has an answer for is not asked about. -/
def staysLocal (d : Desk π₄ π₆ α) : ExchangeAct → Bool
  | .lookup _ => (parseQuestion d.exchange.query).any fun parsed =>
    isOnion parsed.question.domain || isI2p parsed.question.domain
  | _ => false

end Filter

/-! ## Runs with what they return -/

/-- A packet returned to a caller. -/
structure Reply where
  proxy : Nat
  query : Packet
  bypassesFiltering : Bool
  packet : Packet
  deriving DecidableEq

structure FilteredWorld (ν π₄ π₆ α : Type) where
  world : World ν π₄ π₆ α
  replies : List Reply := []

inductive FilteredAction (ν π₄ π₆ : Type) where
  | elsewhere (action : Action ν π₄ π₆)
  | ask (flow : Nat) (query : Packet) (uid : Option Nat) (primaryPackage : Option Str)
      (packages : List Str)
  | exchange (index : Nat) (act : ExchangeAct) (fake : FakeState)

/-- Whether an action is one of an exchange. -/
def Action.isExchange {ν π₄ π₆ : Type} : Action ν π₄ π₆ → Bool
  | .beginExchange _ _ _ _ => true
  | .exchange _ _ => true
  | _ => false

namespace FilteredWorld

variable {μ ν π₄ π₆ α : Type} [Transducer μ UInt8 Flags] [Ipv4Net π₄] [Ipv6Net π₆]
  [RuleSetVerifier α]

/-- A query of a flow whose lease stands. -/
def ask (filters : Nat → Filter μ) (s : FilteredWorld ν π₄ π₆ α) (flow : Nat) (query : Packet)
    (uid : Option Nat) (primaryPackage : Option Str) (packages : List Str) :
    FilteredWorld ν π₄ π₆ α :=
  match s.world.policies.flows[flow]? with
  | none => s
  | some snapshot =>
    match snapshot.dnsProxy with
    | none => s
    | some proxy =>
      if s.world.policies.cancelled.contains snapshot.revocation then s
      else
        match (filters proxy).admitQuery query primaryPackage packages with
        | .error _ => s
        | .ok (.refused reply) =>
          { s with replies := ⟨proxy, query, false, reply⟩ :: s.replies }
        | .ok (.admitted bypasses) =>
          { s with world := s.world.apply (.beginExchange flow query
              (uid.map fun uid => DnsIdentity.new uid packages) bypasses) }

/-- A step of an exchange. What it returns is dropped when its lease has been
revoked by then. -/
def exchange (filters : Nat → Filter μ) (s : FilteredWorld ν π₄ π₆ α) (index : Nat)
    (act : ExchangeAct) (fake : FakeState) : FilteredWorld ν π₄ π₆ α :=
  match s.world.resolvers.desk index with
  | none => s
  | some d =>
    let f := filters d.exchange.proxy
    let now := s.world.resolvers.now
    let stepped := s.world.apply (.exchange index (f.withVerdict d now act))
    let returned :=
      if s.world.policies.cancelled.contains d.exchange.lease then none
      else f.returned d now fake act
    { world :=
        if Filter.staysLocal d act then stepped.apply (.exchange index .abandon) else stepped
      replies := (returned.map fun packet =>
        ⟨d.exchange.proxy, d.exchange.query, d.exchange.bypassesFiltering, packet⟩).toList ++
          s.replies }

def apply (filters : Nat → Filter μ) (s : FilteredWorld ν π₄ π₆ α) :
    FilteredAction ν π₄ π₆ → FilteredWorld ν π₄ π₆ α
  | .elsewhere action => if action.isExchange then s else { s with world := s.world.apply action }
  | .ask flow query uid primaryPackage packages =>
    s.ask filters flow query uid primaryPackage packages
  | .exchange index act fake => s.exchange filters index act fake

omit [Ipv4Net π₄] [Ipv6Net π₆] [RuleSetVerifier α] in
def Initial (s : FilteredWorld ν π₄ π₆ α) : Prop := s.world.Initial ∧ s.replies = []

end FilteredWorld

end Foxcore.Ref
