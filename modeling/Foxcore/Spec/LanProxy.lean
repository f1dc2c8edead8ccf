import Foxcore.Ref.LanProxy

/-!
# One owner for a name

A handle owns its identity from the start of its proxy until it is stopped or
dropped for the first time.
-/

namespace Foxcore.Spec.Lan

open Ref.Lan

variable {κ : Type}

def Owns (w : World κ) (i : Nat) (id : κ) : Prop :=
  ∃ h, w.handles[i]? = some h ∧ h.id = id ∧ h.everStopped = false

variable [DecidableEq κ]

/-- Names are taken by their owners and by nobody else. -/
structure OneOwner (w : World κ) : Prop where
  registered : ∀ id, id ∈ w.lanProxies ↔ ∃ i, Owns w i id
  unique : ∀ i j id, Owns w i id → Owns w j id → i = j
  refused : ∀ platform request, w.start platform request = .error .alreadyExists →
    ∃ i, Owns w i request.id
  kept : ∀ i j id, i ≠ j → Owns w j id →
    id ∈ (w.apply (.stop i)).lanProxies ∧ id ∈ (w.apply (.drop i)).lanProxies

/-- A proxy that was stopped is not told of a network change. -/
def NotAfterStop (w : World κ) : World.Action κ → Prop
  | .networkChanged i => ∀ h ∈ w.handle i, h.everStopped = false
  | _ => True

instance (w : World κ) : (action : World.Action κ) → Decidable (NotAfterStop w action)
  | .networkChanged i => inferInstanceAs (Decidable (∀ h ∈ w.handle i, h.everStopped = false))
  | .start _ _ | .stop _ | .drop _ => .isTrue trivial

end Foxcore.Spec.Lan
