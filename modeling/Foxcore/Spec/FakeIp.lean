import Foxcore.Ref.FakeIp

/-!
# What the table of promises is for

To the rest of the program the table is a partial function: an address stands
for a name until a time. Looking an address up may forget promises whose time
is over and nothing else. Handing an address out makes one promise, over what
is still live.
-/

namespace Foxcore.Spec

open Ref

/-- The name an address stands for, and until when. -/
abbrev Promises : Type := IpAddr → Option (Str × Nat)

/-- The promises whose time is not over. -/
def Promises.live (P : Promises) (now : Nat) : Promises :=
  fun a => (P a).filter fun p => now < p.2

/-- Nothing has happened but the forgetting of promises whose time is over. -/
def Forgets (now : Nat) (P P' : Promises) : Prop :=
  ∀ a, P' a = P a ∨ P' a = none ∧ P.live now a = none

theorem Promises.live_eq_some_iff {P : Promises} {now : Nat} {a : IpAddr} {p : Str × Nat} :
    P.live now a = some p ↔ P a = some p ∧ now < p.2 := by
  simp [Promises.live, Option.filter_eq_some_iff]

theorem forgets_live (now : Nat) (P : Promises) : Forgets now P (P.live now) := by
  intro a
  cases h : P.live now a with
  | none => exact .inr ⟨rfl, rfl⟩
  | some p => exact .inl (Promises.live_eq_some_iff.mp h).1.symm

/-- What is live is never forgotten. -/
theorem Forgets.eq_some {now : Nat} {P P' : Promises} (h : Forgets now P P') {a : IpAddr}
    {p : Str × Nat} (ha : P a = some p) (hlive : now < p.2) : P' a = some p := by
  rcases h a with heq | ⟨-, hnone⟩
  · rw [heq, ha]
  · rw [Promises.live_eq_some_iff.mpr ⟨ha, hlive⟩] at hnone
    cases hnone

/-- Forgetting makes no promise. -/
theorem Forgets.of_some {now : Nat} {P P' : Promises} (h : Forgets now P P') {a : IpAddr}
    {p : Str × Nat} (ha : P' a = some p) : P a = some p := by
  rcases h a with heq | ⟨hnone, -⟩
  · rw [← heq, ha]
  · rw [hnone] at ha
    cases ha

theorem Forgets.live_eq {now : Nat} {P P' : Promises} (h : Forgets now P P') :
    P'.live now = P.live now := by
  funext a
  ext p
  rw [Promises.live_eq_some_iff, Promises.live_eq_some_iff]
  exact ⟨fun hp => ⟨h.of_some hp.1, hp.2⟩, fun hp => ⟨h.eq_some hp.1 hp.2, hp.2⟩⟩

theorem Forgets.trans {now : Nat} {P Q R : Promises} (h : Forgets now P Q) (h' : Forgets now Q R) :
    Forgets now P R := by
  intro a
  rcases h' a with hR | ⟨hR, hlive⟩
  · rw [hR]
    exact h a
  · rw [h.live_eq] at hlive
    exact .inr ⟨hR, hlive⟩

end Foxcore.Spec
