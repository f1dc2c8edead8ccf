import Foxcore.Ref.Selector

/-!
# What a group of nodes promises

Whoever replaces the active member does so under a reservation, and there is only
one that counts at a time. A choice of the user's beats everything that was under
way when it was made.
-/

namespace Foxcore.Spec.Selector

open Ref.Selector

variable {τ : Type}

/-- The round holds the reservation that is current. -/
def Live (w : World τ) (i : Nat) : Prop :=
  ∃ round r, w.rounds[i]? = some round ∧ round.turn.reservation = some r ∧
    r.revision = w.group.selectionRevision ∧ w.group.selectionRevision % 2 = 1

/-- The round is dropped and what it holds with it. -/
def dropRound (w : World τ) (i : Nat) : World τ :=
  (w.apply (.round i .cancel)).apply (.round i .run)

def tried (w : World τ) (f : Failover τ) (offset : Nat) : Nat :=
  (f.turn.active + offset) % w.group.members.length

/-- Every failover that is at a member other than the one it started with has
reserved the change, and it meets a condition. -/
def Contacts (w : World τ) (allowed : Failover τ → Prop) : Prop :=
  ∀ (i : Nat) (f : Failover τ) (offset : Nat), w.rounds[i]? = some (Round.failover f) →
    f.phase = .attempting offset → tried w f offset ≠ f.turn.active →
      f.turn.reservation.isSome ∧ allowed f

/-- What holds of a group wherever its rounds are, but for the permit a failover
needs. -/
structure Linearizable (w : World τ) : Prop where
  member : w.group.active < w.group.members.length
  single : ∀ i j, Live w i → Live w j → i = j
  owned : w.group.selectionRevision % 2 = 1 → ∃ i, Live w i
  dropped : ∀ i, Live w i → (dropRound w i).group.selectionRevision % 2 = 0
  stale : ∀ (i : Nat) (round : Round τ) input, w.rounds[i]? = some round → round.turn.read →
    round.turn.readAt < w.selects → (w.apply (.round i input)).group.active = w.group.active
  answered : ∀ (i : Nat) (f f' : Failover τ) input value m, w.rounds[i]? = some (Round.failover f) →
    (∀ outcome, f.phase ≠ .done outcome) →
    (w.apply (.round i input)).rounds[i]? = some (Round.failover f') →
    f'.phase = .done (.ok value m) →
      (∃ offset, f.phase = .answered offset value ∧ m = tried w f offset) ∧
        (w.apply (.round i input)).group.active = m

end Foxcore.Spec.Selector
