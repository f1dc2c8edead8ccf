/-!
# Runs of a system

A system is a set of initial states and a function that says what an action
does to a state. `Reach` is the set of states its runs pass through, where
every action taken has to meet a condition on the state it is taken in. With
the condition that always holds these are all the reachable states.

`Reach.invariant` is the one induction over runs the development needs: what
holds initially and survives every admissible action holds throughout.
-/

namespace Foxcore.Lib

variable {σ α : Type}

/-- The states that runs from `init` pass through when each action `a` taken in
a state `s` satisfies `ok s a`. -/
inductive Reach (init : σ → Prop) (step : σ → α → σ) (ok : σ → α → Prop) : σ → Prop
  | start {s : σ} : init s → Reach init step ok s
  | step {s : σ} {a : α} : Reach init step ok s → ok s a → Reach init step ok (step s a)

/-- A condition that admits every action. -/
def anyAction : σ → α → Prop := fun _ _ => True

/-- A list of actions, each admissible where it is taken. -/
def Admissible (step : σ → α → σ) (ok : σ → α → Prop) : σ → List α → Prop
  | _, [] => True
  | s, a :: rest => ok s a ∧ Admissible step ok (step s a) rest

instance Admissible.decidable (step : σ → α → σ) (ok : σ → α → Prop)
    [∀ s a, Decidable (ok s a)] : ∀ s l, Decidable (Admissible step ok s l)
  | _, [] => .isTrue trivial
  | s, a :: rest =>
    have := Admissible.decidable step ok (step s a) rest
    inferInstanceAs (Decidable (ok s a ∧ Admissible step ok (step s a) rest))

theorem admissible_any (step : σ → α → σ) (s : σ) (l : List α) : Admissible step anyAction s l := by
  induction l generalizing s with
  | nil => exact trivial
  | cons a rest ih => exact ⟨trivial, ih _⟩

namespace Reach

variable {init : σ → Prop} {step : σ → α → σ} {ok : σ → α → Prop} {s : σ}

theorem invariant {P : σ → Prop} (hinit : ∀ s, init s → P s)
    (hstep : ∀ s a, P s → ok s a → P (step s a)) (h : Reach init step ok s) : P s := by
  induction h with
  | start h => exact hinit _ h
  | step _ hok ih => exact hstep _ _ ih hok

/-- An invariant may be proved with the help of one proved before. -/
theorem invariant_with {P Q : σ → Prop} (hQ : ∀ s, Reach init step ok s → Q s)
    (hinit : ∀ s, init s → P s) (hstep : ∀ s a, Q s → P s → ok s a → P (step s a))
    (h : Reach init step ok s) : P s := by
  induction h with
  | start h => exact hinit _ h
  | step hreach hok ih => exact hstep _ _ (hQ _ hreach) ih hok

/-- A run that is written out. -/
theorem run {l : List α} (h : Reach init step ok s) (hl : Admissible step ok s l) :
    Reach init step ok (l.foldl step s) := by
  induction l generalizing s with
  | nil => exact h
  | cons a rest ih => exact ih (.step h hl.1) hl.2

end Reach

end Foxcore.Lib
