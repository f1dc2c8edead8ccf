import Foxcore.Ref.Engine

/-!
# The classifier beside the policy store

One task classifies the packets of the tun. On a miss it takes the revocation token of
the policy in force, loads the policy a second time for the verdict, waits for the
platform's answer, and enters the verdict under the token. Calls that change the policy
run beside it and are seen act by act, so each load is a step of its own.

Beside what the program keeps, the world keeps for every verdict the two snapshots it
was reached under, whether the kill switch is on for good (`armed`: a call has returned
with the switch on and no snapshot without it was published since), how many calls have
returned with the switch off, and what was known when a packet's route was settled.
-/

namespace Foxcore.Ref.Classifier

open Lib Ref.Split Ref.Engine

/-- Where a verdict comes from: the snapshot its token was taken from and the snapshot it
was reached under, how many calls had returned with the switch off when that was loaded,
and whether the switch was on for good when the verdict was reached. -/
structure Origin (ν π₄ π₆ : Type) where
  captured : FlowPolicySnapshot ν π₄ π₆
  loaded : FlowPolicySnapshot ν π₄ π₆
  cleared : Nat
  armed : Bool := false

inductive Phase (ν π₄ π₆ : Type) where
  | waiting
  | missed (key : FlowKey) (length nowMs : Nat)
  | captured (key : FlowKey) (length nowMs : Nat) (captured : FlowPolicySnapshot ν π₄ π₆)
  | deciding (key : FlowKey) (length nowMs : Nat) (origin : Origin ν π₄ π₆)
      (begun : Verdict ⊕ FlowContext)
  | settled (key : FlowKey) (length : Nat) (route : PacketRoute)

/-- A route that was settled, by a verdict used again or by one just reached. -/
structure Settled (ν π₄ π₆ : Type) where
  route : PacketRoute
  armed : Bool
  cleared : Nat
  reused : Option (Origin ν π₄ π₆)

structure PacketWorld (ν π₄ π₆ α : Type) where
  world : World ν π₄ π₆ α
  ingress : Ingress
  phase : Phase ν π₄ π₆ := .waiting
  origins : FlowKey → Option (Origin ν π₄ π₆) := fun _ => none
  armed : Bool := false
  cleared : Nat := 0
  settled : List (Settled ν π₄ π₆) := []

/-- What a decision reads besides the policy and the resolver. -/
structure Answer where
  bypassPackages : List Str := []
  clock : Nat := 0
  attributor : Option (Option FlowIdentity) := none
  continuity : Continuity.ContinuityGate

inductive PacketAction (ν π₄ π₆ : Type) where
  | policy (action : Action ν π₄ π₆)
  | packet (bytes : Packet) (nowMs : Nat)
  | capture
  | load (fake : FakeState)
  | decide (answer : Answer)
  | handOver
  | revokeFlow (flow : Nat)

namespace PacketWorld

variable {ν π₄ π₆ α : Type}

def current (w : PacketWorld ν π₄ π₆ α) : FlowPolicySnapshot ν π₄ π₆ := w.world.policies.current

/-- The resolver's cache of a snapshot. -/
def cacheOf (w : PacketWorld ν π₄ π₆ α) (snapshot : FlowPolicySnapshot ν π₄ π₆) : DnsCache :=
  match w.world.resolvers.caches[snapshot.dns]? with
  | some (cache, _) => cache
  | none => DnsCache.new 0

def readings (w : PacketWorld ν π₄ π₆ α) (snapshot : FlowPolicySnapshot ν π₄ π₆)
    (answer : Answer) : Readings ν π₄ π₆ where
  policy := snapshot
  bypassPackages := answer.bypassPackages
  cache := w.cacheOf snapshot
  now := w.world.resolvers.now
  clock := answer.clock
  attributor := answer.attributor
  continuity := answer.continuity

/-- A step of the policy store, and what it means for the kill switch. -/
def stepPolicy [RuleSetVerifier α] (w : PacketWorld ν π₄ π₆ α) (action : Action ν π₄ π₆) :
    PacketWorld ν π₄ π₆ α :=
  let after := w.world.apply action
  let on := after.policies.current.routes.killSwitch
  { w with
    world := after
    armed := on && (after.policies.acts.isEmpty || w.armed)
    cleared :=
      if w.world.policies.acts ≠ [] ∧ after.policies.acts = [] ∧ on = false then w.cleared + 1
      else w.cleared }

/-- The verdict that was begun, completed. -/
def complete [IpNet ν] [Ipv4Net π₄] [Ipv6Net π₆] (w : PacketWorld ν π₄ π₆ α) (key : FlowKey)
    (loaded : FlowPolicySnapshot ν π₄ π₆) (answer : Answer) : Verdict ⊕ FlowContext → Verdict
  | .inl verdict => verdict
  | .inr context => finishDecision (w.readings loaded answer) key context

variable [IpNet ν] [Ipv4Net π₄] [Ipv6Net π₆] [RuleSetVerifier α]

def apply (w : PacketWorld ν π₄ π₆ α) : PacketAction ν π₄ π₆ → PacketWorld ν π₄ π₆ α
  | .policy action => w.stepPolicy action
  | .packet bytes nowMs =>
    match w.phase, FlowKey.fromPacket bytes with
    | .waiting, some key =>
      let found := w.ingress.lookup w.world.policies.cancelled key nowMs
      match found.1 with
      | some route =>
        { w with
          ingress := found.2
          phase := .settled key bytes.length route
          settled := ⟨route, w.armed, w.cleared, w.origins key⟩ :: w.settled }
      | none => { w with ingress := found.2, phase := .missed key bytes.length nowMs }
    | _, _ => w
  | .capture =>
    match w.phase with
    | .missed key length nowMs => { w with phase := .captured key length nowMs w.current }
    | _ => w
  | .load fake =>
    match w.phase with
    | .captured key length nowMs captured =>
      let origin := { captured, loaded := w.current, cleared := w.cleared }
      let begun := beginDecision w.current fake w.world.resolvers.now key
      { w with phase := .deciding key length nowMs origin begun }
    | _ => w
  | .decide answer =>
    match w.phase with
    | .deciding key length nowMs origin begun =>
      let verdict := w.complete key origin.loaded answer begun
      { w with
        ingress := w.ingress.insert key (verdict.voidedBy origin.captured.revocation) nowMs
        phase := .settled key length verdict.route
        origins := Function.update w.origins key (some { origin with armed := w.armed })
        settled := ⟨verdict.route, w.armed, w.cleared, none⟩ :: w.settled }
    | _ => w
  | .handOver =>
    match w.phase with
    | .settled key length route =>
      { w with
        ingress := if route = .tunnel then w.ingress.countUp key length else w.ingress
        phase := .waiting }
    | _ => w
  | .revokeFlow flow =>
    { w with ingress := { w.ingress with revoked := flow :: w.ingress.revoked } }

/-- A store and a classifier just made. -/
def Initial (w : PacketWorld ν π₄ π₆ α) : Prop :=
  ∃ world capacity idleTimeoutMs, World.Initial world ∧
    w = { world := world, ingress := { splitter := PacketSplitter.new capacity idleTimeoutMs } }

end PacketWorld

end Foxcore.Ref.Classifier
