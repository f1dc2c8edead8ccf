import Foxcore.Ref.Route

/-!
# Explaining a decision

`RouteTable::explain` repeats a decision for a reader: what was decided, which
rule the names of the flow select, and which blocking rules that selection
passed over. It finds the rule by the address of its action, and the rules
passed over by comparing texts where the index walks labels.
-/

namespace Foxcore.Ref

variable {ν : Type}

/-- `str::strip_suffix`. -/
def Str.stripSuffix (suffix s : Str) : Option Str :=
  if suffix <:+ s then some (s.take (s.length - suffix.length)) else none

structure RouteExplanation where
  action : RouteAction
  routeRuleIndex : Option Nat
  routeRuleApplied : Bool
  shadowedBlockRules : List Nat
  deriving DecidableEq

/-- The name is the suffix, or ends in a dot and the suffix. -/
def endsInSuffix (domain suffix : Str) : Bool :=
  domain = suffix ∨ (Str.stripSuffix suffix domain).any fun front => front.getLast? = some dot

/-- A rule mentions no name, or one of its names fits that of the flow. -/
def RouteRule.fitsName (rule : RouteRule ν) (domain : Option Str) : Bool :=
  rule.isGeneric || domain.any fun domain =>
    (rule.exactDomains.any fun name => normalizeDomain name = domain) ||
      rule.domainSuffixes.any fun suffix => endsInSuffix domain (normalizeDomain suffix)

def RouteTable.explain [IpNet ν] (t : RouteTable ν) (clock : Nat) (flow : FlowContext) :
    RouteExplanation :=
  let now := if t.hasExpiring then some clock else none
  let action := t.decideAt flow now
  let candidate := t.matchRules flow now
  let routeRuleIndex := candidate.bind fun ref =>
    (List.range t.rules.length).find? fun index => Origin.rule index = ref.origin
  { action := action.action
    routeRuleIndex
    routeRuleApplied := candidate.any fun ref => ref.origin = action.origin
    shadowedBlockRules := (t.rules.zipIdx.filter fun x =>
      some x.2 ≠ routeRuleIndex && x.1.blocks && ruleMatches x.1 flow now &&
        x.1.fitsName flow.domain).map Prod.snd }

end Foxcore.Ref
