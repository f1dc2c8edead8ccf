import Foxcore.Ref.Continuity

/-!
# A change of the network

The app reports that the network has changed and which one it is now. Where the
policy lets the core follow, the dialer gets the new network's handle at once.
Where it does not, the handle is put aside, the gate asks, and the confirmation
hands it to the dialer. What the dialer and the cell have is kept here with the
number of the report it came from.

Calls take turns between their steps: a load of the policy, a section under a
lock, a store. What a rebinding moves beside the handle (outbounds, resolver,
packet tunnel) is left out.
-/

namespace Foxcore.Ref.NetworkSwitch

open Ref.Continuity (ContinuityConfig ContinuityConfirm ContinuityInterruption)

/-- A network's handle and the how manieth report named it. -/
structure Report where
  handle : Nat
  number : Nat
  deriving DecidableEq

inductive ConfirmResult where
  | confirmed
  | nothingPending
  | staleToken
  deriving DecidableEq

def ConfirmResult.ofConfirm : ContinuityConfirm → ConfirmResult
  | .confirmed => .confirmed
  | .nothingPending => .nothingPending
  | .staleToken => .staleToken

/-- A call and where it is. The first ones are `network_changed` and
`network_changed_with_handle`, the last ones `confirm_continuity`. -/
inductive Call where
  | checking (report : Option Report)
  | deferring (report : Option Report)
  | interrupting
  /-- In the gate, in the call of this number. -/
  | holding (gateCall : Nat)
  | switching (report : Option Report)
  | switched
  | claiming (token : Nat)
  | taking (token : Nat)
  | completing (token : Nat)
  | finishing (gateCall : Nat)
  | answered (result : ConfirmResult)
  deriving DecidableEq

structure World where
  gate : Continuity.World
  networkHandle : Report
  deferredNetwork : Option Report
  calls : List Call
  /-- The handles that were reported. -/
  reports : List Nat
  deriving DecidableEq

namespace World

inductive Action where
  | networkChanged
  | networkChangedWithHandle (handle : Nat)
  | confirmContinuity (token : Nat)
  /-- A policy is applied. -/
  | reload (config : ContinuityConfig)
  | interrupt (interruption : ContinuityInterruption)
  | permit (interruption : ContinuityInterruption)
  | expire (now : Nat)
  | gateStep (gateCall now : Nat)
  /-- A call goes on. -/
  | step (call : Nat)
  deriving DecidableEq

def start (w : World) (call : Call) : World := { w with calls := w.calls ++ [call] }

def goTo (w : World) (i : Nat) (call : Call) : World := { w with calls := w.calls.set i call }

def stepCall (w : World) (i : Nat) : World :=
  match w.calls[i]? with
  | some (.checking report) =>
    w.goTo i (if w.gate.gate.config.seamlessNetworkSwitch then .switching report
      else .deferring report)
  | some (.deferring report) =>
    { w with deferredNetwork := report.or w.deferredNetwork }.goTo i .interrupting
  | some .interrupting =>
    { w with gate := w.gate.start (.interrupting false .networkSwitch) }.goTo i
      (.holding w.gate.calls.length)
  | some (.holding gateCall) =>
    match w.gate.calls[gateCall]? with
    | some (.interrupted _) => w.goTo i .switched
    | _ => w
  | some (.switching report) =>
    { w with networkHandle := report.getD w.networkHandle }.goTo i .switched
  | some (.claiming token) =>
    let (answer, gate) := w.gate.claim token
    { w with gate }.goTo i
      (if answer = ContinuityConfirm.confirmed then .taking token
        else .answered (.ofConfirm answer))
  | some (.taking token) =>
    { w with
      networkHandle := w.deferredNetwork.getD w.networkHandle
      deferredNetwork := none }.goTo i (.completing token)
  | some (.completing token) =>
    { w with gate := w.gate.start (.completing token) }.goTo i (.finishing w.gate.calls.length)
  | some (.finishing gateCall) =>
    match w.gate.calls[gateCall]? with
    | some (.answered answer) => w.goTo i (.answered (.ofConfirm answer))
    | _ => w
  | some .switched | some (.answered _) => w
  | none => w

def apply (w : World) : Action → World
  | .networkChanged => w.start (.checking none)
  | .networkChangedWithHandle handle =>
    { w with reports := w.reports ++ [handle] }.start
      (.checking (some ⟨handle, w.reports.length + 1⟩))
  | .confirmContinuity token => w.start (.claiming token)
  | .reload config => { w with gate := w.gate.apply (.setConfig config) }
  | .interrupt interruption => { w with gate := w.gate.apply (.interrupt interruption) }
  | .permit interruption => { w with gate := w.gate.apply (.permit interruption) }
  | .expire now => { w with gate := w.gate.apply (.expire now) }
  | .gateStep gateCall now => { w with gate := w.gate.apply (.step gateCall now) }
  | .step i => w.stepCall i

/-- An engine that has started. -/
def Initial (w : World) : Prop :=
  w.gate.Initial ∧ (∃ handle, w.networkHandle = ⟨handle, 0⟩) ∧ w.deferredNetwork = none ∧
    w.calls = [] ∧ w.reports = []

end World

end Foxcore.Ref.NetworkSwitch
