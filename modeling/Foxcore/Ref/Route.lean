import Foxcore.Ref.RouteIndex

/-!
# The compiled rule table

`RouteTable` is the policy as the data plane consults it. Three of its parts
are redundant — the index, the flag that says some rule blocks, the flag that
says something expires — and exist to save work. The type ties them to the
rule list, so a table whose shortcuts lie cannot be built.

The source hands out references to actions, and one of its callers compares
them by address. `ActionRef` is such a reference: the place it points to next
to the action found there.
-/

namespace Foxcore.Ref

open Lib

variable {ν : Type}

/-- Where a borrowed action lives. -/
inductive Origin where
  | block
  | default
  | rule (index : Nat)
  | application (package : Str)
  deriving DecidableEq

structure ActionRef where
  origin : Origin
  action : RouteAction
  deriving DecidableEq

/-- The borrowed `block` field of a table. -/
def blockRef : ActionRef := ⟨.block, .block⟩

def ruleRef (entry : RouteRule ν × Nat) : ActionRef := ⟨.rule entry.2, entry.1.action⟩

structure ApplicationEntry where
  action : RouteAction
  expiresAtMs : Option Nat
  deriving DecidableEq

def ApplicationEntry.isActive (entry : ApplicationEntry) (nowMs : Option Nat) : Bool :=
  match entry.expiresAtMs, nowMs with
  | some expires, some now => now < expires
  | _, _ => true

def RouteRule.blocks (rule : RouteRule ν) : Bool := rule.action = .block

structure RouteTable (ν : Type) where
  rules : List (RouteRule ν)
  index : RuleIndex
  default : RouteAction
  applications : HashMap Str ApplicationEntry
  torEnabled : Bool
  i2pEnabled : Bool
  requiresUid : Bool
  requiresPackage : Bool
  hasBlockRules : Bool
  killSwitch : Bool
  quarantine : Option (HashMap Str (Option (List UInt8)))
  hasExpiring : Bool
  indexed : index.Indexes rules.zipIdx
  hasBlockRules_eq : hasBlockRules = rules.any RouteRule.blocks
  hasExpiring_eq : hasExpiring =
    (rules.any (fun rule => rule.expiresAtMs.isSome) ||
      applications.values.any fun entry => entry.expiresAtMs.isSome)

/-- The free function `application_action`: what the user's word for an
action means in a runtime with the given primary outbound. -/
def applicationAction (action : ApplicationRouteAction) (vpn : RouteAction) : RouteAction :=
  match action with
  | .vpn => vpn
  | .direct => .direct
  | .tor => .tor
  | .block => .block

def compileApplications (traffic : TrafficPolicyConfig) (vpn : RouteAction) :
    HashMap Str ApplicationEntry :=
  HashMap.collect (traffic.applications.map fun application =>
    (application.package,
      ⟨applicationAction application.action vpn, application.expiresAtMs⟩))

def compileQuarantine (traffic : TrafficPolicyConfig) :
    Option (HashMap Str (Option (List UInt8))) :=
  if traffic.quarantineNewApps then
    some (HashMap.collect (traffic.knownApps.map fun app =>
      (app.package, app.signingDigest.bind decodeSigningDigest)))
  else none

/-- The packages a flow is judged by: those of its UID, or the single one when
the UID was not resolved to a list. -/
def FlowContext.attributed (flow : FlowContext) : List Str :=
  flow.packages ++ (flow.package.filter fun _ => flow.packages.isEmpty).toList

/-- A flow once attribution has found the packages of its UID. -/
def FlowContext.attributedTo (flow : FlowContext) (packages : List Str) : FlowContext :=
  { flow with package := packages.head?, packages := packages }

/-- The package is unknown, or known under another signature. -/
def heldBack (known : HashMap Str (Option (List UInt8))) (flow : FlowContext)
    (package : Str) : Bool :=
  match known.lookup package with
  | none => true
  | some none => false
  | some (some expected) => flow.signingDigest != some expected

def isQuarantined (known : HashMap Str (Option (List UInt8))) (flow : FlowContext) : Bool :=
  flow.attributed.isEmpty || flow.attributed.any fun package => heldBack known flow package

/-- The deadline of a rule has passed. -/
def RouteRule.lapsed (rule : RouteRule ν) (nowMs : Option Nat) : Bool :=
  match rule.expiresAtMs, nowMs with
  | some expires, some now => expires ≤ now
  | _, _ => false

/-- `rule_matches`: every selector but the names. -/
def ruleMatches [IpNet ν] (rule : RouteRule ν) (flow : FlowContext)
    (nowMs : Option Nat) : Bool :=
  if rule.lapsed nowMs then false
  else if rule.uid.any fun uid => flow.uid != some uid then false
  else if rule.package.any fun package =>
      flow.package != some package && !flow.packages.contains package then false
  else if rule.network.any fun network => flow.network != some network then false
  else if rule.transport.any fun transport => flow.transport != transport then false
  else if !rule.ports.isEmpty &&
      !rule.ports.any fun range => range.contains flow.destination.port then false
  else if !rule.cidrs.isEmpty then
    let ip := flow.destination.ip.or
      (if flow.domainHint.isNone then parseIpAddr flow.destination.host else none)
    match ip with
    | none => false
    | some ip => rule.cidrs.any fun network => IpNet.contains network ip
  else true

/-- The name a flow is matched under: the hint, or the host when it is not a
literal address. -/
def FlowContext.domain (flow : FlowContext) : Option Str :=
  (flow.domainHint.or
    (if flow.destination.ip.isNone then some flow.destination.host else none)).map
      normalizeDomain

namespace RouteTable

def compileWithTraffic (rules : List (RouteRule ν)) (vpn : RouteAction)
    (traffic : TrafficPolicyConfig) (torEnabled i2pEnabled : Bool) : RouteTable ν where
  rules := rules
  index := indexRules rules
  default := applicationAction traffic.defaultAction vpn
  applications := compileApplications traffic vpn
  torEnabled := torEnabled
  i2pEnabled := i2pEnabled
  requiresUid := rules.any fun rule => rule.uid.isSome
  requiresPackage := rules.any (fun rule => rule.package.isSome) ||
    !traffic.applications.isEmpty || traffic.quarantineNewApps
  hasBlockRules := rules.any RouteRule.blocks
  killSwitch := traffic.killSwitch
  quarantine := compileQuarantine traffic
  hasExpiring := rules.any (fun rule => rule.expiresAtMs.isSome) ||
    (compileApplications traffic vpn).values.any fun entry => entry.expiresAtMs.isSome
  indexed := indexRules_indexes rules
  hasBlockRules_eq := rfl
  hasExpiring_eq := rfl

def compile (rules : List (RouteRule ν)) (default : RouteAction) : RouteTable ν :=
  compileWithTraffic rules default {} true true

/-- `with_emergency_block`: the deny gate armed over the rules already
admitted. -/
def withEmergencyBlock (t : RouteTable ν) : RouteTable ν := { t with killSwitch := true }

def requiresIdentity (t : RouteTable ν) : Bool := t.requiresUid || t.requiresPackage

def requiresDomainHints (t : RouteTable ν) : Bool :=
  !t.index.exactDomains.entries.isEmpty || !t.index.suffixDomains.children.isEmpty

def defaultRef (t : RouteTable ν) : ActionRef := ⟨.default, t.default⟩

def firstMatch [IpNet ν] (t : RouteTable ν) (candidates : List Nat) (flow : FlowContext)
    (nowMs : Option Nat) : Option ActionRef :=
  ((candidates.filterMap fun i => t.rules[i]?.map fun rule => (rule, i)).find?
    fun x => ruleMatches x.1 flow nowMs).map ruleRef

/-- Most specific first: the exact name, then the longest suffix, then the
rules that mention no name. -/
def matchRules [IpNet ν] (t : RouteTable ν) (flow : FlowContext)
    (nowMs : Option Nat) : Option ActionRef :=
  let named :=
    match flow.domain with
    | none => none
    | some domain =>
      let exact := (t.index.exactDomains.lookup domain).bind fun candidates =>
        t.firstMatch candidates flow nowMs
      exact.or (t.firstMatch (t.index.suffixDomains.collect domain) flow nowMs)
  named.or (t.firstMatch t.index.fallback flow nowMs)

/-- The loop over a flow's packages. It leaves early, with a block, when two
of them are ruled on differently. -/
def applicationScan (t : RouteTable ν) (nowMs : Option Nat) :
    List Str → (matched : Option ActionRef) → (hasUnconfigured : Bool) → Option ActionRef
  | [], matched, hasUnconfigured =>
    match matched with
    | some ref =>
      if hasUnconfigured ∧ ref.action ≠ t.default then some blockRef else some ref
    | none => none
  | package :: rest, matched, hasUnconfigured =>
    match (t.applications.lookup package).filter fun entry => entry.isActive nowMs with
    | some entry =>
      match matched with
      | some previous =>
        if previous.action ≠ entry.action then some blockRef
        else applicationScan t nowMs rest matched hasUnconfigured
      | none =>
        applicationScan t nowMs rest
          (some ⟨.application package, entry.action⟩) hasUnconfigured
    | none => applicationScan t nowMs rest matched true

/-- The method `application_action`. -/
def applicationVerdict (t : RouteTable ν) (flow : FlowContext) (nowMs : Option Nat) :
    Option ActionRef :=
  if t.applications.entries.isEmpty then none
  else t.applicationScan nowMs flow.attributed none false

end RouteTable

/-- The name of the outbound that carries Tor traffic. -/
def torId : Str := Str.ofChars ['t', 'o', 'r']

/-- The name of the outbound that carries I2P traffic. -/
def i2pId : Str := Str.ofChars ['i', '2', 'p']

def actionUsesTor (action : RouteAction) : Bool :=
  action = .tor || action = .outbound torId

def actionUsesI2p (action : RouteAction) : Bool :=
  action = .i2p || action = .outbound i2pId

namespace RouteTable

def gated (t : RouteTable ν) (ref : ActionRef) : ActionRef :=
  if (!t.torEnabled && actionUsesTor ref.action) ||
      (!t.i2pEnabled && actionUsesI2p ref.action) then blockRef
  else ref

/-- The stages of `decide_at` behind a winning block. `matched` is what the
rules gave if they have been asked already. -/
def decideUnblocked [IpNet ν] (t : RouteTable ν) (flow : FlowContext) (nowMs : Option Nat)
    (matched : Option (Option ActionRef)) : ActionRef :=
  if t.quarantine.any fun known => isQuarantined known flow then blockRef
  else
    match t.applicationVerdict flow nowMs with
    | some ref => t.gated ref
    | none =>
      if t.default = .block then blockRef
      else t.gated ((matched.getD (t.matchRules flow nowMs)).getD t.defaultRef)

def decideAt [IpNet ν] (t : RouteTable ν) (flow : FlowContext) (nowMs : Option Nat) :
    ActionRef :=
  if t.killSwitch then blockRef
  else
    let matched := if t.hasBlockRules then some (t.matchRules flow nowMs) else none
    match matched.join.filter fun ref => ref.action = .block with
    | some ref => ref
    | none => t.decideUnblocked flow nowMs matched

/-- `decide`, with the wall clock's reading for an argument: it is passed on
only when the table holds a deadline. -/
def decide [IpNet ν] (t : RouteTable ν) (clock : Nat) (flow : FlowContext) : RouteAction :=
  (t.decideAt flow (if t.hasExpiring then some clock else none)).action

/-! ## Inferred names -/

/-- The loop of `constrain_with_dns_hints` over the names, with its three
running values. -/
def constrainLoop [IpNet ν] (t : RouteTable ν) (clock : Nat) (flow : FlowContext) :
    List Str → (selected : RouteAction) → (selectedName : Option Str) →
    (conflict : Bool) → Bool × FlowContext
  | [], _, selectedName, conflict => (!conflict, { flow with domainHint := selectedName })
  | name :: rest, selected, selectedName, conflict =>
    let action := t.decide clock { flow with domainHint := some name }
    if action = .block then (true, { flow with domainHint := some name })
    else if action = .direct ∨ action = selected then
      constrainLoop t clock flow rest selected selectedName conflict
    else if selected = .direct then
      constrainLoop t clock flow rest action (some name) conflict
    else constrainLoop t clock flow rest selected selectedName true

/-- Whether the names an address may stand for leave the flow a route, and the
flow under the name that restricts it most. -/
def constrainWithDnsHints [IpNet ν] (t : RouteTable ν) (clock : Nat) (flow : FlowContext)
    (names : List Str) : Bool × FlowContext :=
  let flow := { flow with domainHint := none }
  let selected := t.decide clock flow
  if selected = .block then (true, flow)
  else if names.isEmpty then (false, flow)
  else t.constrainLoop clock flow names selected none false

end RouteTable

end Foxcore.Ref
