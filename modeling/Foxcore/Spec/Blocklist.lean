import Foxcore.Lib.Words
import Foxcore.Ref.Blocklist

/-!
# What a blocklist means

Here a list is two sets of rules over label lists, and the verdict on a name is
read off the rules that cover it: none when an exception does, otherwise the
union of what the others contribute. Nothing is reversed, joined or walked.

`listedRules` are the rules of a list of names, where the listings of one name
are one rule with the flags of all. `mapRules` are those of a stored map.
-/

namespace Foxcore.Spec

open Lib Ref

/-- The labels of a name, without case and empty labels. -/
def nameLabels (name : Str) : List Str := (words dot name).map Str.toAsciiLowercase

/-- A rule about a name, and the categories selected where it comes from. -/
structure Rule where
  labels : List Str
  flags : Flags
  selection : Option Flags := none

namespace Rule

/-- An exact rule covers its own name, a suffix rule also what is below it. -/
def Covers (r : Rule) (name : List Str) : Prop :=
  (r.flags &&& flagExact ≠ 0 ∧ r.labels = name) ∨
    (r.flags &&& flagSuffix ≠ 0 ∧ r.labels <:+ name)

/-- All flags, or where categories are selected how it matches and those of its
categories that are; nothing when none is. -/
def contribution (r : Rule) : Flags :=
  match r.selection with
  | none => r.flags
  | some selected =>
    if r.flags &&& selected = 0 then 0
    else (r.flags &&& (flagExact ||| flagSuffix)) ||| (r.flags &&& selected)

end Rule

structure Rules where
  allow : Set Rule
  block : Set Rule

namespace Rules

def Allows (R : Rules) (name : List Str) : Prop := ∃ r ∈ R.allow, r.Covers name

/-- A covering rule contributes the bit. -/
def Contributes (R : Rules) (name : List Str) (i : Nat) : Prop :=
  ∃ r ∈ R.block, r.Covers name ∧ r.contribution.getLsbD i = true

def Verdict (R : Rules) (name : List Str) : Option BlockVerdict → Prop
  | none => R.Allows name ∨ ∀ i, ¬ R.Contributes name i
  | some verdict => ¬ R.Allows name ∧ (∃ i, R.Contributes name i) ∧
      ∀ i, verdict.flags.getLsbD i = true ↔ R.Contributes name i

theorem Verdict.unique {R : Rules} {name : List Str} {v v' : Option BlockVerdict}
    (h : R.Verdict name v) (h' : R.Verdict name v') : v = v' := by
  cases v with
  | none =>
    cases v' with
    | none => rfl
    | some verdict' =>
      obtain ⟨hallow, ⟨i, hi⟩, -⟩ := h'
      rcases h with hallowed | hnone
      · exact (hallow hallowed).elim
      · exact (hnone i hi).elim
  | some verdict =>
    obtain ⟨hallow, ⟨i, hi⟩, hbits⟩ := h
    cases v' with
    | none =>
      rcases h' with hallowed | hnone
      · exact (hallow hallowed).elim
      · exact (hnone i hi).elim
    | some verdict' =>
      have hflags : verdict.flags = verdict'.flags :=
        BitVec.eq_of_getLsbD_eq fun j _ =>
          Bool.eq_iff_iff.mpr ((hbits j).trans (h'.2.2 j).symm)
      cases verdict
      cases verdict'
      exact congrArg some (congrArg BlockVerdict.mk hflags)

end Rules

def listedRules (listings : List (Str × Flags)) : Set Rule :=
  {r | r.selection = none ∧ (∃ l ∈ listings, nameLabels l.1 = r.labels) ∧
    ∀ i, r.flags.getLsbD i = true ↔
      ∃ l ∈ listings, nameLabels l.1 = r.labels ∧ l.2.getLsbD i = true}

/-- Whether a name can be listed: between its outer dots it is not empty, not
too long and ASCII. -/
def Listable (name : Str) : Prop :=
  Str.trimMatches dot name ≠ [] ∧ (Str.trimMatches dot name).length ≤ maxDomainBytes ∧
    Str.isAscii (Str.trimMatches dot name) = true

instance (name : Str) : Decidable (Listable name) := inferInstanceAs (Decidable (_ ∧ _))

section

variable {μ : Type} [Transducer μ UInt8 Flags]

def mapRules (map : μ) (selection : Option Flags) : Set Rule :=
  {r | r.selection = selection ∧ ∃ key, (key, r.flags) ∈ Transducer.entries map ∧
    r.labels = (Str.split dot key).reverse}

def rules (block : List (Str × Flags)) (allow : List (List (Str × Flags)))
    (artifacts : List (RuleSetArtifact μ)) : Rules where
  allow := (⋃ listings ∈ allow, listedRules listings) ∪
    ⋃ artifact ∈ artifacts, mapRules artifact.allow none
  block := listedRules block ∪
    ⋃ artifact ∈ artifacts, mapRules artifact.block artifact.enabledCategoryMask

end

end Foxcore.Spec
