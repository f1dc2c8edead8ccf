import Foxcore.Ref.NetworkSwitch

/-!
# Which network a confirmed reconnection uses

The one that was reported last. `Apart` is what it takes: calls that do not
overlap, and a policy that does not begin to follow silently while a network is
put aside for a confirmation.
-/

namespace Foxcore.Spec.NetworkSwitch

open Ref.NetworkSwitch

/-- The call is about to come back with a confirmation. -/
def Confirms (w : World) (i : Nat) : Prop :=
  ∃ gateCall : Nat, w.calls[i]? = some (.finishing gateCall) ∧
    w.gate.calls[gateCall]? = some (.answered .confirmed)

structure Current (w : World) : Prop where
  confirmed : ∀ i, Confirms w i → ∀ handle, w.reports.getLast? = some handle →
    (w.apply (.step i)).networkHandle.handle = handle
  /-- No older network is put in the place of a newer one. -/
  newer : ∀ (i : Nat) token report, w.calls[i]? = some (.taking token) →
    w.deferredNetwork = some report → w.networkHandle.number ≤ report.number

/-- A report that has not had its effect yet. -/
def unsettled : Call → Bool
  | .checking (some _) | .deferring (some _) | .switching (some _) => true
  | _ => false

def confirming : Call → Bool
  | .claiming _ | .taking _ | .completing _ | .finishing _ => true
  | _ => false

/-- Reports and confirmations do not overlap, and networks are not followed
silently from a moment on when one is still put aside or about to be. -/
def Apart (w : World) : World.Action → Prop
  | .networkChangedWithHandle _ => ∀ call ∈ w.calls, ¬ unsettled call ∧ ¬ confirming call
  | .confirmContinuity _ => ∀ call ∈ w.calls, ¬ unsettled call
  | .reload config => config.seamlessNetworkSwitch →
      w.deferredNetwork = none ∧ ∀ call ∈ w.calls, ¬ unsettled call
  | _ => True

instance (w : World) : ∀ action, Decidable (Apart w action)
  | .networkChangedWithHandle _ =>
    inferInstanceAs (Decidable (∀ call ∈ w.calls, ¬ unsettled call ∧ ¬ confirming call))
  | .confirmContinuity _ => inferInstanceAs (Decidable (∀ call ∈ w.calls, ¬ unsettled call))
  | .reload config => inferInstanceAs (Decidable (config.seamlessNetworkSwitch →
      w.deferredNetwork = none ∧ ∀ call ∈ w.calls, ¬ unsettled call))
  | .networkChanged | .interrupt _ | .permit _ | .expire _ | .gateStep _ _ | .step _ =>
    .isTrue trivial

end Foxcore.Spec.NetworkSwitch
