import Foxcore.Ref.Continuity

/-!
# What a hold promises

Nothing but an answer to the question that is open lets traffic go on, and who
waits for an answer gets the one to the question asked when the wait began.
-/

namespace Foxcore.Spec.Continuity

open Ref.Continuity
open Ref.Traffic (FlowLane)

/-- All lanes that some of the interruptions affect. -/
def lanesOf (interruptions : List ContinuityInterruption) : Nat :=
  interruptions.foldl (fun lanes interruption => lanes ||| affectedLanes interruption) 0

/-- The tokens that were issued, in this order. -/
def tokens (w : World) : List Nat := w.gate.confirmations.map (·.token)

/-- How often the deadline of a token was reported. -/
def reports (w : World) (token : Nat) : Nat :=
  w.gate.events.countP fun event =>
    match event with
    | .confirmationExpired _ own => own = token
    | .confirmationRequired _ _ _ => false

/-- One interruption affects all the other does, and more. -/
def Wider (wide narrow : ContinuityInterruption) : Prop :=
  affectedLanes wide &&& affectedLanes narrow = affectedLanes narrow ∧
    affectedLanes wide ≠ affectedLanes narrow

def Completed (w : World) (hold : Nat) : Prop :=
  ∃ c, w.gate.confirmations[hold]? = some c ∧ c.fate = .completed

/-- A wider hold has taken its place. -/
def Replaced (w : World) (hold : Nat) : Prop :=
  ∃ c other wide, w.gate.confirmations[hold]? = some c ∧ c.fate = .replaced other ∧
    w.gate.confirmations[other]? = some wide ∧ Wider wide.interruption c.interruption

structure FailClosed (w : World) : Prop where
  increasing : (tokens w).Pairwise (· < ·)
  asked : w.gate.pending.isSome ↔ ∃ lane, w.gate.isHeld lane
  mask : w.gate.held = lanesOf w.raised
  /-- A lane is released by completing the newest question, which was claimed. -/
  released : ∀ action lane, w.gate.isHeld lane → ¬ (w.apply action).gate.isHeld lane →
    ∃ i now token, action = .step i now ∧ w.calls[i]? = some (.completing token) ∧
      (tokens w).getLast? = some token ∧ token ∈ w.claimed
  once : w.completed.Nodup
  reported : ∀ token, reports w token ≤ 1
  granted : ∀ (i : Nat) hold, w.calls[i]? = some (.resolved hold true) → Completed w hold
  refused : ∀ (i : Nat) hold, w.calls[i]? = some (.resolved hold false) → Replaced w hold

end Foxcore.Spec.Continuity
