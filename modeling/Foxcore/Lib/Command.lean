import Mathlib

/-!
# Commands

A command reads and writes a state and may fail. When it fails, what it has
written by then stays written. `Ends m s Q` says how the command `m` ends when
it is started in `s`; the rules go along the structure of the command, so that
what is known of a part is used where the part is run. `Leaves f m` says that
`m` does not change what `f` reads, however it ends, `Follows R m` that
whatever `m` does is done by steps of `R`, and `FailsOnly P m` which errors it
reports.

A computation that is written for any monad is met in several. `Answers` is what
one has to know of a monad to say what such a computation answers.
-/

namespace Foxcore.Lib

/-- A notion of what all answers of a computation have in common. -/
structure Answers (m : Type → Type) [Monad m] where
  all : {α : Type} → m α → (α → Prop) → Prop
  of_forall : {α : Type} → {x : m α} → {P : α → Prop} → (∀ a, P a) → all x P
  pure : {α : Type} → {a : α} → {P : α → Prop} → P a → all (Pure.pure a) P
  bind : {α β : Type} → {x : m α} → {f : α → m β} → {P : α → Prop} → {Q : β → Prop} →
    all x P → (∀ a, P a → all (f a) Q) → all (x >>= f) Q

/-- The answers of a computation over a state. -/
def Answers.ofState (σ : Type) : Answers (StateM σ) where
  all x P := ∀ s, P (x.run s).1
  of_forall h _ := h _
  pure h _ := h
  bind hx hf s := hf _ (hx s) _

abbrev Command (σ ε α : Type) : Type := ExceptT ε (StateM σ) α

namespace Command

variable {σ ε α β τ υ : Type}

/-- The answer of a command and the state it leaves. -/
def exec (m : Command σ ε α) (s : σ) : Except ε α × σ := StateT.run (ExceptT.run m) s

/-- Run a command and answer how it ended. -/
def attempt (m : Command σ ε α) : Command σ ε (Except ε α) :=
  ExceptT.mk fun s => (.ok (m.exec s).1, (m.exec s).2)

/-- The command that is known to answer `x` without touching the state. -/
def give (x : Except ε α) : Command σ ε α := ExceptT.mk fun s => (x, s)

/-- How `m` ends when it is started in `s`. -/
def Ends (m : Command σ ε α) (s : σ) (Q : Except ε α → σ → Prop) : Prop :=
  Q (m.exec s).1 (m.exec s).2

section Rules

variable {m : Command σ ε α} {f : α → Command σ ε β} {s : σ}
  {Q : Except ε β → σ → Prop} {R R' : Except ε α → σ → Prop}

@[simp] theorem ends_throw {e : ε} :
    Ends (throw e : Command σ ε α) s R ↔ R (.error e) s := Iff.rfl

@[simp] theorem ends_attempt {R : Except ε (Except ε α) → σ → Prop} :
    Ends (attempt m) s R ↔ Ends m s fun r s' => R (.ok r) s' := Iff.rfl

@[simp] theorem ends_get_bind {f : σ → Command σ ε β} :
    Ends (get >>= f) s Q ↔ Ends (f s) s Q := Iff.rfl

@[simp] theorem ends_modify_bind {g : σ → σ} {f : PUnit → Command σ ε β} :
    Ends (modify g >>= f) s Q ↔ Ends (f ⟨⟩) (g s) Q := Iff.rfl

theorem exec_bind :
    (m >>= f).exec s = match m.exec s with
      | (.ok a, s') => (f a).exec s'
      | (.error e, s') => (.error e, s') := by
  show (match (m.exec s).1 with | .ok a => _ | .error e => _ : StateM σ _).run (m.exec s).2 = _
  rcases m.exec s with ⟨e | a, s'⟩ <;> rfl

theorem exec_bind_of_exec {a : α} {s' : σ} (h : m.exec s = (.ok a, s')) :
    (m >>= f).exec s = (f a).exec s' := by
  rw [exec_bind, h]

theorem exec_get_bind {f : σ → Command σ ε β} : (get >>= f).exec s = (f s).exec s := rfl

theorem exec_modify_bind {g : σ → σ} {f : PUnit → Command σ ε β} :
    (modify g >>= f).exec s = (f ⟨⟩).exec (g s) := rfl

theorem exec_give_bind {a : α} : (give (.ok a) >>= f).exec s = (f a).exec s := rfl

/-- What is attempted does not fail. -/
theorem exec_attempt_bind {f : Except ε α → Command σ ε β} :
    (attempt m >>= f).exec s = (f (m.exec s).1).exec (m.exec s).2 := rfl

/-- What a sequence does is what its second part does where the first succeeds. -/
theorem ends_bind :
    Ends (m >>= f) s Q ↔ Ends m s fun r s' => match r with
      | .ok a => Ends (f a) s' Q
      | .error e => Q (.error e) s' := by
  rw [Ends, Ends, exec_bind]
  rcases m.exec s with ⟨e | a, s'⟩ <;> exact Iff.rfl

theorem ends_bind_of_exec {a : α} {s' : σ} (h : m.exec s = (.ok a, s')) :
    Ends (m >>= f) s Q ↔ Ends (f a) s' Q := by
  rw [Ends, exec_bind_of_exec h, Ends]

theorem ends_give_bind {x : Except ε α} :
    Ends (give x >>= f) s Q ↔ (∀ e, x = .error e → Q (.error e) s) ∧
      ∀ a, x = .ok a → Ends (f a) s Q := by
  cases x with
  | error e =>
    exact ⟨fun h => ⟨fun _ he => by cases he; exact h, fun _ ha => nomatch ha⟩,
      fun h => h.1 e rfl⟩
  | ok a =>
    exact ⟨fun h => ⟨nofun, fun _ ha => by cases ha; exact h⟩,
      fun h => h.2 a rfl⟩

theorem Ends.imp (h : Ends m s R) (hR : ∀ r s', R r s' → R' r s') : Ends m s R' := hR _ _ h

/-- The rule for a sequence, from what is known of its first part. -/
theorem Ends.bind (hm : Ends m s R) (hok : ∀ a s', R (.ok a) s' → Ends (f a) s' Q)
    (herror : ∀ e s', R (.error e) s' → Q (.error e) s') : Ends (m >>= f) s Q := by
  rw [ends_bind]
  refine hm.imp fun r s' hr => ?_
  cases r with
  | error e => exact herror e s' hr
  | ok a => exact hok a s' hr

theorem Ends.and (h : Ends m s R) (h' : Ends m s R') : Ends m s fun r s' => R r s' ∧ R' r s' :=
  ⟨h, h'⟩

end Rules

/-- The answers of a command are those it gives when it succeeds. -/
def answers (σ ε : Type) : Answers (Command σ ε) where
  all m P := ∀ s, Ends m s fun r _ => ∀ a, r = .ok a → P a
  of_forall h _ := fun a _ => h a
  pure h _ := fun a ha => by
    cases ha
    exact h
  bind hm hf s := (hm s).bind (fun a s' ha => hf a (ha a rfl) s') nofun

/-- What `g` reads is not changed, whatever the state before. -/
def Leaves (g : σ → τ) (m : Command σ ε α) : Prop := ∀ s, Ends m s fun _ s' => g s' = g s

namespace Leaves

variable {g : σ → τ} {m : Command σ ε α} {f : α → Command σ ε β}

theorem pure (a : α) : Leaves g (Pure.pure a : Command σ ε α) := fun _ => rfl

theorem throw (e : ε) : Leaves g (throw e : Command σ ε α) := fun _ => rfl

theorem give (x : Except ε α) : Leaves g (give x : Command σ ε α) := fun _ => rfl

theorem bind (hm : Leaves g m) (hf : ∀ a, Leaves g (f a)) : Leaves g (m >>= f) := fun s =>
  (hm s).bind (fun a s' hs' => (hf a s').imp fun _ _ h => h.trans hs') fun _ _ h => h

theorem get_bind {f : σ → Command σ ε β} (hf : ∀ s, Leaves g (f s)) : Leaves g (get >>= f) :=
  fun s => hf s s

theorem ite {c : Prop} [Decidable c] {m' : Command σ ε α} (hm : Leaves g m) (hm' : Leaves g m') :
    Leaves g (if c then m else m') := by
  split
  · exact hm
  · exact hm'

theorem mapM {f : α → Command σ ε β} (hf : ∀ a, Leaves g (f a)) (l : List α) :
    Leaves g (l.mapM f) := by
  induction l with
  | nil => exact pure []
  | cons a l ih =>
    rw [List.mapM_cons]
    exact (hf a).bind fun b => ih.bind fun bs => pure _

end Leaves

/-- What the command does to the state is a sequence of steps, however it ends. -/
def Follows (step : σ → σ → Prop) (m : Command σ ε α) : Prop :=
  ∀ s, Ends m s fun _ s' => Relation.ReflTransGen step s s'

namespace Follows

variable {step : σ → σ → Prop} {m : Command σ ε α} {f : α → Command σ ε β}

theorem pure (a : α) : Follows step (Pure.pure a : Command σ ε α) := fun _ => .refl

theorem throw (e : ε) : Follows step (throw e : Command σ ε α) := fun _ => .refl

theorem give (x : Except ε α) : Follows step (give x : Command σ ε α) := fun _ => .refl

theorem modify {g : σ → σ} (h : ∀ s, step s (g s)) :
    Follows step (modify g : Command σ ε PUnit) := fun s => .single (h s)

theorem bind (hm : Follows step m) (hf : ∀ a, Follows step (f a)) : Follows step (m >>= f) :=
  fun s => (hm s).bind (fun a s' hs' => (hf a s').imp fun _ _ h => hs'.trans h) fun _ _ h => h

/-- What is read of the state may be used for what follows. -/
theorem get_bind {f : σ → Command σ ε β}
    (hf : ∀ s, Ends (f s) s fun _ s' => Relation.ReflTransGen step s s') :
    Follows step (get >>= f) := hf

/-- Steps of another kind do as well, if they can do as much. -/
theorem mono {step' : σ → σ → Prop} (hm : Follows step m) (h : ∀ s s', step s s' → step' s s') :
    Follows step' m := fun s => (hm s).imp fun _ _ hsteps => Relation.ReflTransGen.mono h _ _ hsteps

theorem ite {c : Prop} [Decidable c] {m' : Command σ ε α} (hm : Follows step m)
    (hm' : Follows step m') : Follows step (if c then m else m') := by
  split
  · exact hm
  · exact hm'

end Follows

/-- No other errors are reported. -/
def FailsOnly (P : ε → Prop) (m : Command σ ε α) : Prop :=
  ∀ s, Ends m s fun r _ => ∀ e, r = .error e → P e

namespace FailsOnly

variable {P : ε → Prop} {m : Command σ ε α} {f : α → Command σ ε β}

theorem pure (a : α) : FailsOnly P (Pure.pure a : Command σ ε α) := nofun

theorem bind (hm : FailsOnly P m) (hf : ∀ a, FailsOnly P (f a)) : FailsOnly P (m >>= f) := fun s =>
  (hm s).bind (fun a s' _ => hf a s') fun e _ h e' he => by
    cases he
    exact h e rfl

theorem ite {c : Prop} [Decidable c] {m' : Command σ ε α} (hm : FailsOnly P m)
    (hm' : FailsOnly P m') : FailsOnly P (if c then m else m') := by
  split
  · exact hm
  · exact hm'

end FailsOnly

end Command

end Foxcore.Lib
