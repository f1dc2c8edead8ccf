import Mathlib

/-!
# Rings of bit blocks

A set of numbers of which only the ones near the top matter can be kept in a
ring of `n` blocks of `w` bits: number `k` is bit `k % w` of block `k / w`, and
block `b` is kept in slot `b % n`. As the top moves up, the blocks it moves over
are cleared and then stand for new numbers.

`Shows` says that a ring is right about the last `n` blocks up to the top. It
survives clearing what the top moves over (`shows_advance`) and adding a number
(`shows_mark`).
-/

namespace Foxcore.Lib

/-- `n` blocks of `w` bits. -/
abbrev BitRing (n w : Nat) : Type := Vector (BitVec w) n

namespace BitRing

variable {n w : Nat} [NeZero n]

/-- Where a block is kept. -/
def slot (n block : Nat) [NeZero n] : Fin n := Fin.ofNat n block

/-- The bit of a number. -/
def test (ring : BitRing n w) (k : Nat) : Bool := (ring.get (slot n (k / w))).getLsbD (k % w)

/-- A block with all bits off. -/
def clear (ring : BitRing n w) (block : Nat) : BitRing n w :=
  ring.set (slot n block) 0 (slot n block).isLt

/-- The bit of a number set. -/
def mark (ring : BitRing n w) (k : Nat) : BitRing n w :=
  ring.set (slot n (k / w)) (ring.get (slot n (k / w)) ||| BitVec.twoPow w (k % w))
    (slot n (k / w)).isLt

/-- The blocks after the top cleared, so many of them. -/
def advance (ring : BitRing n w) (top steps : Nat) : BitRing n w :=
  (List.range steps).foldl (fun ring i => ring.clear (top + (i + 1))) ring

/-- The ring is right about the members of a set in the last `n` blocks. -/
def Shows (ring : BitRing n w) (top : Nat) (S : Set Nat) : Prop :=
  ∀ k, k / w ≤ top → top < k / w + n → (ring.test k = true ↔ k ∈ S)

theorem slot_eq_iff {a b : Nat} : slot n a = slot n b ↔ a % n = b % n :=
  Fin.ext_iff

/-- Two blocks less than `n` apart are kept in different slots. -/
theorem slot_ne {a b : Nat} (h : a < b) (hlt : b < a + n) : slot n a ≠ slot n b := by
  intro heq
  have hdvd : n ∣ b - a := (Nat.modEq_iff_dvd' h.le).mp (slot_eq_iff.mp heq)
  have hle := Nat.le_of_dvd (by omega) hdvd
  omega

omit [NeZero n] in
theorem get_set (ring : BitRing n w) (i j : Fin n) (block : BitVec w) :
    Vector.get (ring.set i block i.isLt) j = if i = j then block else ring.get j := by
  show (ring.set i block i.isLt)[j.val] = _
  rw [Vector.getElem_set]
  by_cases h : i = j
  · rw [if_pos h, if_pos (congrArg Fin.val h)]
  · rw [if_neg h, if_neg fun hval => h (Fin.ext hval)]
    rfl

/-- A bit that is set stays as it is. -/
theorem mark_of_test {ring : BitRing n w} {k : Nat} (h : ring.test k = true) :
    ring.mark k = ring := by
  have hblock : ring.get (slot n (k / w)) ||| BitVec.twoPow w (k % w) =
      ring.get (slot n (k / w)) := by
    refine BitVec.eq_of_getLsbD_eq fun j hj => ?_
    rw [BitVec.getLsbD_or]
    by_cases hbit : k % w = j
    · rw [← hbit, show (ring.get (slot n (k / w))).getLsbD (k % w) = true from h, Bool.true_or]
    · simp [hbit]
  rw [mark, hblock]
  exact Vector.set_getElem_self _

theorem test_clear (ring : BitRing n w) (block k : Nat) :
    (ring.clear block).test k = (decide (slot n block ≠ slot n (k / w)) && ring.test k) := by
  rw [test, clear, get_set]
  by_cases h : slot n block = slot n (k / w)
  · simp [h]
  · simp [h, test]

theorem test_mark (ring : BitRing n w) {c k : Nat} (hw : 0 < w) :
    (ring.mark c).test k =
      (decide (slot n (c / w) = slot n (k / w) ∧ c % w = k % w) || ring.test k) := by
  rw [test, mark, get_set]
  by_cases h : slot n (c / w) = slot n (k / w)
  · have hbit : c % w < w := Nat.mod_lt _ hw
    rw [if_pos h, BitVec.getLsbD_or, h, test]
    simp [hbit, Bool.or_comm]
  · simp [h, test]

theorem advance_succ (ring : BitRing n w) (top steps : Nat) :
    ring.advance top (steps + 1) = (ring.advance top steps).clear (top + (steps + 1)) := by
  rw [advance, List.range_succ, List.foldl_append]
  rfl

theorem test_advance (ring : BitRing n w) (top steps k : Nat) :
    (ring.advance top steps).test k = true ↔
      ring.test k = true ∧ ∀ i < steps, slot n (top + (i + 1)) ≠ slot n (k / w) := by
  induction steps with
  | zero => simp [advance]
  | succ steps ih =>
    rw [advance_succ, test_clear, Bool.and_eq_true, decide_eq_true_eq, ih]
    constructor
    · rintro ⟨hlast, htest, hall⟩
      refine ⟨htest, fun i hi => ?_⟩
      rcases Nat.lt_succ_iff_lt_or_eq.mp hi with hlt | rfl
      · exact hall i hlt
      · exact hlast
    · rintro ⟨htest, hall⟩
      exact ⟨hall steps (Nat.lt_succ_self _), htest, fun i hi => hall i (Nat.lt_succ_of_lt hi)⟩

/-- A ring with all bits off is right about numbers that are all out of reach. -/
theorem shows_cleared {top : Nat} {S : Set Nat} (h : ∀ k ∈ S, k / w + n ≤ top) :
    Shows (Vector.replicate n (0 : BitVec w)) top S := by
  intro k _ hlow
  have hzero : (Vector.replicate n (0 : BitVec w)).get (slot n (k / w)) = 0 := by
    show (Vector.replicate n (0 : BitVec w))[(slot n (k / w)).val] = 0
    rw [Vector.getElem_replicate]
  have hout : k ∉ S := fun hin => Nat.not_le.mpr hlow (h k hin)
  rw [test, hzero]
  simp [hout]

/-- The top moves up, and what it moves over is cleared. No more than `n` blocks
need be. -/
theorem shows_advance {ring : BitRing n w} {top top' : Nat} {S : Set Nat} (h : Shows ring top S)
    (hS : ∀ k ∈ S, k / w ≤ top) (hle : top ≤ top') :
    Shows (ring.advance top (min (top' - top) n)) top' S := by
  intro k hk hlow
  rw [test_advance]
  by_cases hold : k / w ≤ top
  · rw [h k hold (by omega)]
    refine ⟨fun hin => hin.1, fun hin => ⟨hin, fun i hi => ?_⟩⟩
    exact (slot_ne (by omega) (by omega)).symm
  · -- a block the top has moved over: its slot was cleared, if need be on an earlier lap
    have hout : k ∉ S := fun hin => hold (hS k hin)
    refine ⟨fun hin => ?_, fun hin => absurd hin hout⟩
    have hpos : 0 < n := Nat.pos_of_neZero n
    refine absurd ?_ (hin.2 ((k / w - top - 1) % n) ?_)
    · refine slot_eq_iff.mpr ?_
      have hsum : k / w = top + 1 + (k / w - top - 1) := by omega
      rw [show top + ((k / w - top - 1) % n + 1) = top + 1 + (k / w - top - 1) % n by omega,
        Nat.add_mod_mod]
      exact congrArg (· % n) hsum.symm
    · have hmod := Nat.mod_lt (k / w - top - 1) hpos
      have hmodle := Nat.mod_le (k / w - top - 1) n
      omega

theorem shows_mark {ring : BitRing n w} {top c : Nat} {S : Set Nat} (hw : 0 < w)
    (h : Shows ring top S) (hc : c / w ≤ top) (hlow : top < c / w + n) :
    Shows (ring.mark c) top (insert c S) := by
  intro k hk hklow
  rw [test_mark ring hw, Bool.or_eq_true, decide_eq_true_eq, h k hk hklow]
  refine or_congr_left ⟨fun ⟨hslot, hbit⟩ => ?_, fun heq => ?_⟩
  · have hblock : c / w = k / w := by
      by_contra hne
      rcases Nat.lt_or_gt_of_ne hne with hlt | hgt
      · exact slot_ne hlt (by omega) hslot
      · exact slot_ne hgt (by omega) hslot.symm
    rw [← Nat.div_add_mod k w, ← Nat.div_add_mod c w, hblock, hbit]
  · rw [heq]
    exact ⟨rfl, rfl⟩

end BitRing

end Foxcore.Lib
