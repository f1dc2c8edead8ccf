import Foxcore.Ref.Classifier

/-!
# The kill switch on the packet path

Nothing goes to the tunnel while the switch is on for good, and a verdict reached while
it was on is not used after it is off. `Undivided` is the condition under which the
classifier keeps this.
-/

namespace Foxcore.Spec.Classifier

open Ref Ref.Split Ref.Classifier

section

variable {ν π₄ π₆ α : Type}

/-- The verdict was reached under a policy with the switch on, or while it was on for
good. -/
def TakenArmed (origin : Origin ν π₄ π₆) : Prop :=
  origin.loaded.routes.killSwitch = true ∨ origin.armed = true

/-- What is owed for every route that was settled. -/
structure Obeys (s : Settled ν π₄ π₆) : Prop where
  blocked : s.armed = true → s.route ≠ .tunnel
  renewed : ∀ origin, s.reused = some origin → TakenArmed origin → origin.cleared = s.cleared

def KillSwitchHolds (w : PacketWorld ν π₄ π₆ α) : Prop := ∀ s ∈ w.settled, Obeys s

/-- The next act of the call under way publishes a policy with the switch on. -/
def publishesArmed (p : Policies ν π₄ π₆ α) : Bool :=
  match p.acts with
  | .store snapshot :: _ => snapshot.routes.killSwitch
  | _ => false

/-- A verdict is being reached under a policy without the switch. -/
def decidesUnarmed : Phase ν π₄ π₆ → Bool
  | .deciding _ _ _ origin _ => !origin.loaded.routes.killSwitch
  | _ => false

/-- No policy with the switch on is published between the load of one without it and the
verdict reached under that. -/
def Undivided (w : PacketWorld ν π₄ π₆ α) : PacketAction ν π₄ π₆ → Prop
  | .policy .act => (publishesArmed w.world.policies && decidesUnarmed w.phase) = false
  | _ => True

instance (w : PacketWorld ν π₄ π₆ α) : (a : PacketAction ν π₄ π₆) → Decidable (Undivided w a)
  | .policy .act => inferInstanceAs (Decidable (_ = _))
  | .policy (.call _ _) | .policy .admitFlow | .policy (.beginExchange ..) | .policy (.exchange ..)
  | .policy (.routeHints ..) | .policy (.tick _) | .packet .. | .capture | .load _ | .decide _
  | .handOver | .revokeFlow _ => .isTrue trivial

end

end Foxcore.Spec.Classifier
