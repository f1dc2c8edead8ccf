import Foxcore.Ref.Route

/-!
# What a routing decision should be

The reference decision. It knows no index and no shortcut: it walks the rule
list once, keeps the rule of best `Specificity`, and combines that winner
with the rest of the policy in the documented order. Application entries and
known applications are read from the configuration as written, the last entry
of a package counting.
-/

namespace Foxcore.Spec

open Lib Ref

variable {ν : Type}

/-! ## Which rule wins -/

/-- The rule has not expired and each of its selectors, the names apart,
admits the flow. -/
structure Admits [IpNet ν] (rule : RouteRule ν) (flow : FlowContext)
    (now : Option Nat) : Prop where
  unexpired : ∀ expires ∈ rule.expiresAtMs, ∀ n ∈ now, n < expires
  uid : ∀ uid ∈ rule.uid, flow.uid = some uid
  package : ∀ p ∈ rule.package, flow.package = some p ∨ p ∈ flow.packages
  network : ∀ network ∈ rule.network, flow.network = some network
  transport : ∀ transport ∈ rule.transport, flow.transport = transport
  ports : rule.ports = [] ∨ ∃ range ∈ rule.ports,
    range.start ≤ flow.destination.port ∧ flow.destination.port ≤ range.end
  cidrs : rule.cidrs = [] ∨ ∃ ip ∈ flow.destination.ip,
    ∃ network ∈ rule.cidrs, IpNet.contains network ip = true

/-- How closely a rule names the flow. -/
inductive Specificity where
  | exact
  | suffix (labels : Nat)
  | generic
  deriving DecidableEq

/-- An exact name before any suffix, a longer suffix before a shorter one, any
suffix before no name. -/
def Specificity.before : Specificity → Specificity → Bool
  | .exact, .exact => false
  | .exact, _ => true
  | .suffix m, .suffix n => n < m
  | .suffix _, .generic => true
  | _, _ => false

instance : LT Specificity := ⟨fun a b => a.before b = true⟩

instance : DecidableRel (α := Specificity) (· < ·) :=
  fun a b => inferInstanceAs (Decidable (a.before b = true))

/-- The labels of a name as written in a rule. -/
def labels (domain : Str) : List Str := Str.split dot (normalizeDomain domain)

/-- The lengths of the rule's suffixes that end the flow's name at a label
boundary. -/
def suffixDepths (rule : RouteRule ν) (domain : Str) : List Nat :=
  rule.domainSuffixes.filterMap fun suffix =>
    if labels suffix <:+ Str.split dot domain then some (labels suffix).length else none

def specificity (rule : RouteRule ν) (domain : Option Str) : Option Specificity :=
  let generic :=
    if rule.exactDomains = [] ∧ rule.domainSuffixes = [] then some .generic else none
  match domain with
  | none => generic
  | some domain =>
    if domain ∈ rule.exactDomains.map normalizeDomain then some .exact
    else
      match (suffixDepths rule domain).max? with
      | some depth => some (.suffix depth)
      | none => generic

open Classical in
/-- How closely a rule names a flow it admits. -/
noncomputable def priority [IpNet ν] (flow : FlowContext) (now : Option Nat)
    (entry : RouteRule ν × Nat) : Option Specificity :=
  if Admits entry.1 flow now then specificity entry.1 flow.domain else none

/-- The winning rule and its position. -/
noncomputable def winner [IpNet ν] (rules : List (RouteRule ν)) (flow : FlowContext)
    (now : Option Nat) : Option (RouteRule ν × Nat) :=
  scanMin (priority flow now) rules.zipIdx

/-! ## What the rest of the policy makes of it -/

/-- The action the user chose for a package, unless the choice has lapsed. -/
def configured (traffic : TrafficPolicyConfig) (vpn : RouteAction) (now : Option Nat)
    (package : Str) : Option RouteAction :=
  ((traffic.applications.reverse.find? fun a => a.package = package).filter fun a =>
    decide (∀ expires ∈ a.expiresAtMs, ∀ n ∈ now, n < expires)).map fun a =>
      applicationAction a.action vpn

/-- What several packages agree on, one choice for each. Two that disagree
block the flow, and so does one without a choice of its own, unless the others
chose what it would get anyway. -/
def consensus (default : RouteAction) (choices : List (Option RouteAction)) :
    Option RouteAction :=
  match choices.reduceOption with
  | [] => none
  | action :: others =>
    if ∃ other ∈ others, other ≠ action then some .block
    else if none ∈ choices ∧ action ≠ default then some .block
    else some action

/-- The user has cleared the package, and the flow presents the signature the
user cleared it with. -/
def Cleared (traffic : TrafficPolicyConfig) (flow : FlowContext) (package : Str) : Prop :=
  ∃ app ∈ traffic.knownApps.reverse.find? fun a => a.package = package,
    ∀ digest ∈ app.signingDigest.bind decodeSigningDigest,
      flow.signingDigest = some digest

def Quarantined (traffic : TrafficPolicyConfig) (flow : FlowContext) : Prop :=
  traffic.quarantineNewApps = true ∧
    (flow.attributed = [] ∨ ∃ package ∈ flow.attributed, ¬ Cleared traffic flow package)

/-- An overlay that is switched off blocks what would have used it. -/
def gate (tor i2p : Bool) (action : RouteAction) : RouteAction :=
  if (tor = false ∧ (action = .tor ∨ action = .outbound torId)) ∨
      (i2p = false ∧ (action = .i2p ∨ action = .outbound i2pId)) then .block
  else action

open Classical in
/-- Kill switch, winning block, quarantine, application entry, default block,
and only then the winner or the default. -/
noncomputable def decision [IpNet ν] (rules : List (RouteRule ν)) (vpn : RouteAction)
    (traffic : TrafficPolicyConfig) (tor i2p : Bool) (flow : FlowContext)
    (now : Option Nat) : RouteAction :=
  let chosen := (winner rules flow now).map fun entry => entry.1.action
  let default := applicationAction traffic.defaultAction vpn
  if traffic.killSwitch then .block
  else if chosen = some .block then .block
  else if Quarantined traffic flow then .block
  else
    match consensus default (flow.attributed.map (configured traffic vpn now)) with
    | some action => gate tor i2p action
    | none => if default = .block then .block else gate tor i2p (chosen.getD default)

/-! ## Inferred names

An address may stand for several names, and the flow cannot say which. What
the policy decides for the address and for each name is combined by
strictness: a block first, then a protected route, then the open network. Two
different protected routes have no common ground. -/

def Incompatible (actions : List RouteAction) : Prop :=
  ∃ a ∈ actions, ∃ b ∈ actions, a ≠ .direct ∧ b ≠ .direct ∧ a ≠ b

structure Strictest (base : RouteAction) (inferred : List RouteAction)
    (result : RouteAction) : Prop where
  block : .block ∈ base :: inferred → result = .block
  ofBase : .block ∉ base :: inferred → base ≠ .direct → result = base
  ofInferred : .block ∉ base :: inferred → base = .direct →
    ∀ action ∈ inferred, action ≠ .direct → result = action
  direct : (∀ action ∈ base :: inferred, action = .direct) → result = .direct

end Foxcore.Spec
