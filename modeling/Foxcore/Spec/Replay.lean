import Foxcore.Ref.Replay

/-!
# A window that remembers everything

The specification keeps every accepted counter and has no ring.
-/

namespace Foxcore.Spec

open Ref

/-- Whether a counter is accepted after those that were. -/
def fresh (accepted : List Nat) (counter : Nat) : Bool :=
  counter < rejectAfterMessages ∧
    (accepted.max?.all fun highest => highest - counter ≤ replayWindow) ∧ counter ∉ accepted

/-- The answers to counters offered one after the other, and all those accepted. -/
def remember : List Nat → List Nat → List Bool × List Nat
  | accepted, [] => ([], accepted)
  | accepted, counter :: counters =>
    let answer := fresh accepted counter
    let rest := remember (if answer then counter :: accepted else accepted) counters
    (answer :: rest.1, rest.2)

end Foxcore.Spec
