import Mathlib

/-!
# Calls that are under way

A list whose places are calls: a new one is put at the end, and a call that goes on
changes its own place. These say what is at a place after that.
-/

namespace Foxcore.Lib

open List

variable {α : Type} {calls : List α} {call other : α} {i j : Nat}

theorem getElem?_set_some (h : (calls.set i call)[j]? = some other) :
    (j = i ∧ other = call) ∨ (j ≠ i ∧ calls[j]? = some other) := by
  by_cases hij : j = i
  · subst hij
    obtain ⟨hlt, hget⟩ := List.getElem?_eq_some_iff.mp h
    rw [getElem_set_self] at hget
    exact .inl ⟨rfl, hget.symm⟩
  · rw [getElem?_set_ne (Ne.symm hij)] at h
    exact .inr ⟨hij, h⟩

theorem getElem?_concat_some (h : (calls ++ [call])[i]? = some other) :
    calls[i]? = some other ∨ (i = calls.length ∧ other = call) := by
  obtain hlt | heq | hgt := Nat.lt_trichotomy i calls.length
  · rw [getElem?_append_left hlt] at h
    exact .inl h
  · subst heq
    rw [getElem?_concat_length] at h
    exact .inr ⟨rfl, (Option.some.inj h).symm⟩
  · have hlt := (List.getElem?_eq_some_iff.mp h).1
    rw [length_append, length_singleton] at hlt
    omega

theorem getElem?_concat_of_some (h : calls[i]? = some other) :
    (calls ++ [call])[i]? = some other := by
  rw [getElem?_append_left (List.getElem?_eq_some_iff.mp h).1]
  exact h

theorem getElem?_set_of_some (h : calls[i]? = some other) : (calls.set i call)[i]? = some call :=
  getElem?_set_self (List.getElem?_eq_some_iff.mp h).1

end Foxcore.Lib
