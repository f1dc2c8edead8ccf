import Foxcore.Lib.HashMap

/-!
# Two tables over the same records

A program that must find a record by either of two of its fields keeps two
tables and updates both. `Linked` says the tables agree: a record stands in
one under its first field exactly when it stands in the other under its
second. The lemmas below are the ways a program may touch the pair — entering
a record under two free fields, dropping one from both tables, changing the
rest of it in both — each keeping the tables linked.

A linked pair is a one-to-one correspondence between the fields in use, which
is what `Linked.key_unique` says from one side.
-/

namespace Foxcore.Lib

variable {K A V : Type} [DecidableEq K] [DecidableEq A]

/-- The tables hold the same records, each under its own field. -/
structure Linked (keyOf : V → K) (addrOf : V → A) (fwd : HashMap K V) (bwd : HashMap A V) :
    Prop where
  key : ∀ {k v}, fwd.lookup k = some v → keyOf v = k
  addr : ∀ {a v}, bwd.lookup a = some v → addrOf v = a
  same : ∀ v, fwd.lookup (keyOf v) = some v ↔ bwd.lookup (addrOf v) = some v

namespace Linked

variable {keyOf : V → K} {addrOf : V → A} {fwd : HashMap K V} {bwd : HashMap A V} {k k' : K}
  {v w : V}

/-- Either table shows that they agree. -/
theorem of_sides
    (hfwd : ∀ {k v}, fwd.lookup k = some v → keyOf v = k ∧ bwd.lookup (addrOf v) = some v)
    (hbwd : ∀ {a v}, bwd.lookup a = some v → addrOf v = a ∧ fwd.lookup (keyOf v) = some v) :
    Linked keyOf addrOf fwd bwd :=
  ⟨fun h => (hfwd h).1, fun h => (hbwd h).1, fun _ => ⟨fun h => (hfwd h).2, fun h => (hbwd h).2⟩⟩

theorem empty : Linked keyOf addrOf (∅ : HashMap K V) (∅ : HashMap A V) := by
  refine ⟨?_, ?_, ?_⟩
  · intro k v h
    cases h
  · intro a v h
    cases h
  · intro v
    exact Iff.rfl

variable (h : Linked keyOf addrOf fwd bwd)

include h

theorem symm : Linked addrOf keyOf bwd fwd := ⟨h.addr, h.key, fun v => (h.same v).symm⟩

theorem bwd_of_fwd (hk : fwd.lookup k = some v) : bwd.lookup (addrOf v) = some v := by
  rw [← h.same, h.key hk]
  exact hk

theorem fwd_of_bwd {a : A} (ha : bwd.lookup a = some v) : fwd.lookup (keyOf v) = some v :=
  h.symm.bwd_of_fwd ha

/-- No second field is in use under two first fields. -/
theorem key_unique (hk : fwd.lookup k = some v) (hk' : fwd.lookup k' = some w)
    (heq : addrOf v = addrOf w) : k = k' := by
  have hb := h.bwd_of_fwd hk
  have hb' := h.bwd_of_fwd hk'
  rw [← heq, hb] at hb'
  cases hb'
  rw [← h.key hk, ← h.key hk']

theorem insert_side (ha : bwd.lookup (addrOf v) = none)
    (hw : (fwd.insert (keyOf v) v).lookup k = some w) :
    keyOf w = k ∧ (bwd.insert (addrOf v) v).lookup (addrOf w) = some w := by
  rw [HashMap.lookup_insert] at hw ⊢
  split at hw
  · next heq =>
    cases hw
    exact ⟨heq.symm, if_pos rfl⟩
  · have hb := h.bwd_of_fwd hw
    refine ⟨h.key hw, ?_⟩
    rw [if_neg]
    · exact hb
    · intro heq
      rw [heq, ha] at hb
      cases hb

theorem insert (hk : fwd.lookup (keyOf v) = none) (ha : bwd.lookup (addrOf v) = none) :
    Linked keyOf addrOf (fwd.insert (keyOf v) v) (bwd.insert (addrOf v) v) :=
  of_sides (h.insert_side ha) (h.symm.insert_side hk)

variable (hk : fwd.lookup k = some v)

include hk

theorem erase_side (hw : (fwd.erase k).lookup k' = some w) :
    keyOf w = k' ∧ (bwd.erase (addrOf v)).lookup (addrOf w) = some w := by
  rw [HashMap.lookup_erase] at hw ⊢
  split at hw
  · cases hw
  · next hne =>
    refine ⟨h.key hw, ?_⟩
    rw [if_neg]
    · exact h.bwd_of_fwd hw
    · intro heq
      exact hne (h.key_unique hw hk heq)

theorem erase : Linked keyOf addrOf (fwd.erase k) (bwd.erase (addrOf v)) := by
  refine of_sides (h.erase_side hk) fun hw => ?_
  have hside := h.symm.erase_side (h.bwd_of_fwd hk) hw
  rw [h.key hk] at hside
  exact hside

theorem modify_side {f : V → V} (hkey : keyOf (f v) = keyOf v) (haddr : addrOf (f v) = addrOf v)
    (hw : (fwd.modify k f).lookup k' = some w) :
    keyOf w = k' ∧ (bwd.modify (addrOf v) f).lookup (addrOf w) = some w := by
  rw [HashMap.lookup_modify] at hw ⊢
  split at hw
  · next heq =>
    rw [hk] at hw
    cases hw
    rw [hkey, h.key hk, if_pos haddr, h.bwd_of_fwd hk]
    exact ⟨heq.symm, rfl⟩
  · next hne =>
    refine ⟨h.key hw, ?_⟩
    rw [if_neg]
    · exact h.bwd_of_fwd hw
    · intro heq
      exact hne (h.key_unique hw hk heq)

/-- Changing the rest of a record in both tables. -/
theorem modify {f : V → V} (hkey : ∀ v, keyOf (f v) = keyOf v)
    (haddr : ∀ v, addrOf (f v) = addrOf v) :
    Linked keyOf addrOf (fwd.modify k f) (bwd.modify (addrOf v) f) := by
  refine of_sides (h.modify_side hk (hkey v) (haddr v)) fun hw => ?_
  have hside := h.symm.modify_side (h.bwd_of_fwd hk) (haddr v) (hkey v) hw
  rw [h.key hk] at hside
  exact hside

end Linked

end Foxcore.Lib
