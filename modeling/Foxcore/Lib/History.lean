import Mathlib

/-!
# Histories

A history is a list that grows at its end. `Throughout P h` says of every entry
that it stood in the relation `P` to what was there before it, when it was
written.
-/

namespace Foxcore.Lib

open List

variable {α : Type}

def Throughout (P : List α → α → Prop) (history : List α) : Prop :=
  ∀ before entry after, history = before ++ entry :: after → P before entry

theorem throughout_nil {P : List α → α → Prop} : Throughout P [] := by
  intro before entry after h
  simp at h

theorem throughout_concat {P : List α → α → Prop} {history : List α} {entry : α} :
    Throughout P (history ++ [entry]) ↔ Throughout P history ∧ P history entry := by
  constructor
  · intro h
    refine ⟨fun before e after heq => h before e (after ++ [entry]) ?_, h history entry [] rfl⟩
    rw [heq, append_assoc, cons_append]
  · rintro ⟨hold, hnew⟩ before e after heq
    -- the entry is the new one when nothing is behind it
    rcases eq_nil_or_concat after with rfl | ⟨after, last, rfl⟩
    · obtain ⟨rfl, hlast⟩ := append_inj' heq rfl
      cases hlast
      exact hnew
    · refine hold before e after ?_
      rw [concat_eq_append, ← cons_append, ← append_assoc] at heq
      exact (append_inj' heq rfl).1

end Foxcore.Lib
