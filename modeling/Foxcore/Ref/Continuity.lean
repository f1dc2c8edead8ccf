import Foxcore.Ref.TrafficMap

/-!
# Holding traffic until somebody confirms

Where the policy does not let the core repair itself the gate holds the lanes an
interruption affects and asks a question with a token. A wider interruption asks
anew and a narrower one joins. Answering is claimed first and completed later.

What is done under the lock is one step, and so is each load of the policy, each
answer to those who wait and each look such a waiter takes. The answer to a
question is an object of its own that waiters share; here it is a place in a list,
which keeps beside its state what the hold was for and what became of it.
-/

namespace Foxcore.Ref.Continuity

open Ref.Traffic (FlowLane wrappingAdd)

inductive ContinuityInterruption where
  | proxySession
  | selectorMember
  | networkSwitch
  | vpnFailure
  deriving DecidableEq

structure ContinuityConfig where
  seamlessReconnect : Bool := true
  seamlessFailover : Bool := true
  seamlessNetworkSwitch : Bool := true
  splitTunnelOnVpnFailure : Bool := true
  confirmationTimeoutMs : Nat := 0
  deriving DecidableEq

/-- `FlowLane::index`. -/
def laneIndex : FlowLane → Nat
  | .vpn => 0
  | .tor => 1
  | .i2p => 2
  | .direct => 3

/-- `ALL_LANES`. -/
def allLaneBits : Nat := 0b1111

def laneBit (lane : FlowLane) : Nat := 1 <<< laneIndex lane

def affectedLanes : ContinuityInterruption → Nat
  | .proxySession | .selectorMember => laneBit .vpn
  | .vpnFailure => laneBit .vpn ||| laneBit .direct
  | .networkSwitch => allLaneBits

def isPermitted (config : ContinuityConfig) : ContinuityInterruption → Bool
  | .proxySession => config.seamlessReconnect
  | .selectorMember => config.seamlessFailover
  | .networkSwitch => config.seamlessNetworkSwitch
  | .vpnFailure => config.splitTunnelOnVpnFailure

inductive ContinuityConfirm where
  | confirmed
  | nothingPending
  | staleToken
  deriving DecidableEq

inductive ContinuityOutcome where
  | permitted
  | held (token : Nat)
  | alreadyHeld
  deriving DecidableEq

inductive ContinuityExpiry where
  | nothing
  | keptBlocking
  deriving DecidableEq

inductive CoreEvent where
  | confirmationRequired (interruption : ContinuityInterruption) (token : Nat)
      (expiresInMs : Option Nat)
  | confirmationExpired (interruption : ContinuityInterruption) (token : Nat)
  deriving DecidableEq

/-! ## The gate -/

/-- What has become of a hold. -/
inductive Fate where
  | standing
  | completed
  /-- Another hold has taken its place. -/
  | replaced (hold : Nat)
  deriving DecidableEq

inductive ConfirmationState where
  | unanswered
  | confirmed
  | dismissed
  deriving DecidableEq

/-- The answer waiters share. -/
structure Confirmation where
  state : ConfirmationState := .unanswered
  interruption : ContinuityInterruption
  token : Nat
  fate : Fate := .standing
  deriving DecidableEq

/-- `Confirmation::finish`: only the first answer counts. -/
def Confirmation.finish (c : Confirmation) (confirmed : Bool) : Confirmation :=
  if c.state = .unanswered then
    { c with state := if confirmed then .confirmed else .dismissed }
  else c

structure Pending where
  interruption : ContinuityInterruption
  token : Nat
  deadline : Option Nat
  expired : Bool
  confirming : Bool
  confirmation : Nat
  deriving DecidableEq

structure ContinuityGate where
  config : ContinuityConfig
  held : Nat := 0
  nextToken : Nat := 1
  pending : Option Pending := none
  confirmations : List Confirmation := []
  events : List CoreEvent := []
  deriving DecidableEq

namespace ContinuityGate

def isHeld (g : ContinuityGate) (lane : FlowLane) : Bool := g.held &&& laneBit lane ≠ 0

def setConfig (g : ContinuityGate) (config : ContinuityConfig) : ContinuityGate := { g with config }

def finish (g : ContinuityGate) (hold : Nat) (confirmed : Bool) : ContinuityGate :=
  { g with confirmations := g.confirmations.modify hold (·.finish confirmed) }

def emit (g : ContinuityGate) (event : CoreEvent) : ContinuityGate :=
  { g with events := g.events ++ [event] }

def settle (g : ContinuityGate) (hold : Nat) (fate : Fate) : List Confirmation :=
  g.confirmations.modify hold fun c => { c with fate }

/-- A question is asked, in the place of the one that is open. -/
def raise (g : ContinuityGate) (config : ContinuityConfig) (interruption : ContinuityInterruption)
    (now : Nat) : ContinuityGate :=
  let hold := g.confirmations.length
  { g with
    nextToken := wrappingAdd g.nextToken 1
    held := g.held ||| affectedLanes interruption
    pending := some
      { interruption
        token := g.nextToken
        deadline :=
          if config.confirmationTimeoutMs ≠ 0 then some (now + config.confirmationTimeoutMs)
          else none
        expired := false
        confirming := false
        confirmation := hold }
    confirmations :=
      (match g.pending with
        | none => g.confirmations
        | some replaced => g.settle replaced.confirmation (.replaced hold)) ++
        [{ interruption, token := g.nextToken }] }

/-- The question that is open, where it covers these lanes. -/
def covering (g : ContinuityGate) (lanes : Nat) : Option Pending :=
  g.pending.filter fun _ => g.held &&& lanes = lanes

def claimConfirmation (g : ContinuityGate) (token : Nat) : ContinuityConfirm × ContinuityGate :=
  match g.pending with
  | none => (.nothingPending, g)
  | some current =>
    if current.token ≠ token then (.staleToken, g)
    else if current.confirming then (.staleToken, g)
    else (.confirmed, { g with pending := some { current with confirming := true } })

/-- `complete_confirmation` as far as the lock is held. What is left to do is to
answer those who wait for this hold. -/
def completeConfirmation (g : ContinuityGate) (token : Nat) :
    ContinuityConfirm × Option Nat × ContinuityGate :=
  match g.pending with
  | none => (.nothingPending, none, g)
  | some current =>
    if current.token ≠ token ∨ current.confirming = false then (.staleToken, none, g)
    else
      (.confirmed, some current.confirmation,
        { g with
          pending := none, held := 0
          confirmations := g.settle current.confirmation .completed })

def expire (g : ContinuityGate) (now : Nat) : ContinuityExpiry × ContinuityGate :=
  match g.pending with
  | none => (.nothing, g)
  | some current =>
    if current.deadline.any (· ≤ now) then
      (.keptBlocking,
        { g with pending := some { current with deadline := none, expired := true } }.emit
          (.confirmationExpired current.interruption current.token))
    else (.nothing, g)

end ContinuityGate

/-! ## Calls -/

/-- A call of the gate and where it is. `wait` is a call that asks for a permit
and so gets a future where the lanes are held. -/
inductive Call where
  | interrupting (wait : Bool) (interruption : ContinuityInterruption)
  | entering (wait : Bool) (interruption : ContinuityInterruption) (config : ContinuityConfig)
  | announcing (wait : Bool) (interruption : ContinuityInterruption) (config : ContinuityConfig)
      (token hold : Nat) (replaced : Option Nat)
  | interrupted (outcome : ContinuityOutcome)
  | proceeding
  | waiting (hold : Nat)
  | resolved (hold : Nat) (answer : Bool)
  | claiming (token : Nat)
  | completing (token : Nat)
  | releasing (hold : Nat)
  | answered (answer : ContinuityConfirm)
  deriving DecidableEq

/-- What a call that found lanes held comes back with. -/
def Call.returning (wait : Bool) (hold : Nat) (outcome : ContinuityOutcome) : Call :=
  if wait then .waiting hold else .interrupted outcome

structure World where
  gate : ContinuityGate
  calls : List Call
  /-- The interruptions that were not permitted, since the last confirmation. -/
  raised : List ContinuityInterruption
  claimed : List Nat
  completed : List Nat
  deriving DecidableEq

namespace World

inductive Action where
  | setConfig (config : ContinuityConfig)
  | interrupt (interruption : ContinuityInterruption)
  | permit (interruption : ContinuityInterruption)
  | claimConfirmation (token : Nat)
  | completeConfirmation (token : Nat)
  | confirm (token : Nat)
  | expire (now : Nat)
  /-- A call goes on. -/
  | step (call now : Nat)
  deriving DecidableEq

def start (w : World) (call : Call) : World := { w with calls := w.calls ++ [call] }

def goTo (w : World) (i : Nat) (call : Call) : World := { w with calls := w.calls.set i call }

/-- The section of an interruption that is not permitted. -/
def enter (w : World) (i : Nat) (wait : Bool) (interruption : ContinuityInterruption)
    (config : ContinuityConfig) (now : Nat) : World :=
  let w := { w with raised := w.raised ++ [interruption] }
  match w.gate.covering (affectedLanes interruption) with
  | some current => w.goTo i (.returning wait current.confirmation .alreadyHeld)
  | none =>
    { w with gate := w.gate.raise config interruption now }.goTo i
      (.announcing wait interruption config w.gate.nextToken w.gate.confirmations.length
        (w.gate.pending.map Pending.confirmation))

def claim (w : World) (token : Nat) : ContinuityConfirm × World :=
  let (answer, gate) := w.gate.claimConfirmation token
  (answer,
    { w with gate, claimed := if answer = .confirmed then w.claimed ++ [token] else w.claimed })

def complete (w : World) (i token : Nat) : World :=
  match w.gate.completeConfirmation token with
  | (answer, none, gate) => { w with gate }.goTo i (.answered answer)
  | (_, some hold, gate) =>
    { w with gate, raised := [], completed := w.completed ++ [token] }.goTo i (.releasing hold)

def stepCall (w : World) (i now : Nat) : World :=
  match w.calls[i]? with
  | some (.interrupting wait interruption) =>
    if isPermitted w.gate.config interruption then
      w.goTo i (if wait then .proceeding else .interrupted .permitted)
    else w.goTo i (.entering wait interruption w.gate.config)
  | some (.entering wait interruption config) => w.enter i wait interruption config now
  | some (.announcing wait interruption config token hold replaced) =>
    let gate := match replaced with
      | none => w.gate
      | some replaced => w.gate.finish replaced false
    { w with gate := gate.emit (.confirmationRequired interruption token
        (if config.confirmationTimeoutMs ≠ 0 then some config.confirmationTimeoutMs
          else none)) }.goTo i (.returning wait hold (.held token))
  | some (.waiting hold) =>
    match (w.gate.confirmations[hold]?).map Confirmation.state with
    | some .confirmed => w.goTo i (.resolved hold true)
    | some .dismissed => w.goTo i (.resolved hold false)
    | some .unanswered | none => w
  | some (.claiming token) =>
    let (answer, w) := w.claim token
    w.goTo i (if answer = .confirmed then .completing token else .answered answer)
  | some (.completing token) => w.complete i token
  | some (.releasing hold) =>
    { w with gate := w.gate.finish hold true }.goTo i (.answered .confirmed)
  | some (.interrupted _) | some .proceeding | some (.resolved _ _) | some (.answered _) => w
  | none => w

def apply (w : World) : Action → World
  | .setConfig config => { w with gate := w.gate.setConfig config }
  | .interrupt interruption => w.start (.interrupting false interruption)
  | .permit interruption => w.start (.interrupting true interruption)
  | .claimConfirmation token => (w.claim token).2
  | .completeConfirmation token => w.start (.completing token)
  | .confirm token => w.start (.claiming token)
  | .expire now => { w with gate := (w.gate.expire now).2 }
  | .step i now => w.stepCall i now

/-- A new gate. -/
def Initial (w : World) : Prop :=
  (∃ config, w.gate = { config }) ∧ w.calls = [] ∧ w.raised = [] ∧ w.claimed = [] ∧ w.completed = []

/-- Tokens are not used up: zero is none, so there is one less than numbers. -/
def Few (w : World) (action : Action) : Prop :=
  (w.apply action).gate.confirmations.length < 2 ^ 64

instance (w : World) (action : Action) : Decidable (w.Few action) :=
  inferInstanceAs (Decidable (_ < _))

end World

end Foxcore.Ref.Continuity
