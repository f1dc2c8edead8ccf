import Mathlib

/-!
# The Internet checksum

One's-complement sums of 16-bit words. A sum is folded by adding its carries back in
until none is left; what comes out is determined by the sum modulo 65535, except that
zero has two encodings and only the sum zero folds to the first of them. Data verify
when their words, the checksum among them, fold to all ones.

`overwrite` replaces a stretch of a list. Where the stretch starts at a word and is made
of whole words, the sum changes by the difference of the two stretches, and that is what
makes an incremental update of a checksum right.
-/

namespace Foxcore.Lib

open List

/-! ## Overwriting a stretch -/

section Overwrite

variable {α : Type} {l b : List α} {o n : Nat}

/-- The list with `b` in the place of what stands at `o`. -/
def overwrite (l : List α) (o : Nat) (b : List α) : List α :=
  l.take o ++ b ++ l.drop (o + b.length)

theorem length_overwrite (h : o + b.length ≤ l.length) : (overwrite l o b).length = l.length := by
  simp only [overwrite, length_append, length_take, length_drop]
  omega

theorem getElem?_overwrite (h : o ≤ l.length) (i : Nat) :
    (overwrite l o b)[i]? =
      if i < o then l[i]? else if i < o + b.length then b[i - o]? else l[i]? := by
  have htake : (l.take o).length = o := by
    rw [length_take]
    omega
  rw [overwrite, append_assoc]
  split
  · next hi => rw [getElem?_append_left (by omega), getElem?_take_of_lt hi]
  · next hi =>
    rw [getElem?_append_right (by omega), htake]
    split
    · rw [getElem?_append_left (by omega)]
    · rw [getElem?_append_right (by omega), getElem?_drop]
      congr 1
      omega

theorem getElem?_overwrite_of_not {i : Nat} (h : o ≤ l.length) (hi : i < o ∨ o + b.length ≤ i) :
    (overwrite l o b)[i]? = l[i]? := by
  rw [getElem?_overwrite h]
  split
  · rfl
  · rw [if_neg (by omega)]

/-- The stretch reads as what was written. -/
theorem slice_overwrite (h : o ≤ l.length) : ((overwrite l o b).drop o).take b.length = b := by
  have htake : (l.take o).length = o := by
    rw [length_take]
    omega
  rw [overwrite, append_assoc, drop_left' htake, take_left]

theorem take_overwrite_within (h : o + b.length ≤ n) (hl : o ≤ l.length) :
    (overwrite l o b).take n = overwrite (l.take n) o b := by
  refine ext_getElem? fun i => ?_
  rw [getElem?_take, getElem?_overwrite hl,
    getElem?_overwrite (by rw [length_take]; omega), getElem?_take]
  by_cases hi : i < n
  · simp only [if_pos hi]
  · simp [if_neg (show ¬i < o + b.length by omega)]

/-- Two lists one after the other, a stretch of the first overwritten. -/
theorem overwrite_append_left {r : List α} (h : o + b.length ≤ l.length) :
    overwrite (l ++ r) o b = overwrite l o b ++ r := by
  rw [overwrite, overwrite, take_append_of_le_length (by omega),
    drop_append_of_le_length h, append_assoc, append_assoc, append_assoc]

theorem overwrite_append_right {r : List α} (h : l.length ≤ o) :
    overwrite (l ++ r) o b = l ++ overwrite r (o - l.length) b := by
  rw [overwrite, overwrite, take_append, drop_append, take_of_length_le h,
    drop_of_length_le (by omega), nil_append, append_assoc, append_assoc,
    append_assoc]
  congr 4
  omega

theorem overwrite_eq_take_append (h : n ≤ o) (hn : n ≤ l.length) :
    overwrite l o b = l.take n ++ overwrite (l.drop n) (o - n) b := by
  have hlen : (l.take n).length = n := by
    rw [length_take]
    omega
  have hright := overwrite_append_right (r := l.drop n) (b := b) (hlen.trans_le h)
  rwa [take_append_drop, hlen] at hright

end Overwrite

/-! ## Sums of words -/

/-- The sum of the 16-bit words, most significant byte first. An odd byte at the end is
the high half of a word. -/
def wordSum : List UInt8 → Nat
  | a :: b :: rest => a.toNat * 256 + b.toNat + wordSum rest
  | [a] => a.toNat * 256
  | [] => 0

theorem wordSum_append {a : List UInt8} (b : List UInt8) (h : a.length % 2 = 0) :
    wordSum (a ++ b) = wordSum a + wordSum b := by
  fun_induction wordSum a with
  | case1 x y rest =>
    have heven : rest.length % 2 = 0 := by
      rw [length_cons, length_cons] at h
      omega
    rw [cons_append, cons_append, wordSum]
    omega
  | case2 => cases h
  | case3 => rw [nil_append, Nat.zero_add]

/-- What overwriting whole words does to the sum. -/
theorem wordSum_overwrite {l b : List UInt8} {o : Nat} (ho : o % 2 = 0) (hb : b.length % 2 = 0)
    (h : o + b.length ≤ l.length) :
    wordSum (overwrite l o b) + wordSum ((l.drop o).take b.length) = wordSum l + wordSum b := by
  have htake : (l.take o).length = o := by
    rw [length_take]
    omega
  have hslice : ((l.drop o).take b.length).length = b.length := by
    rw [length_take, length_drop]
    omega
  have hsplit : l = l.take o ++ ((l.drop o).take b.length ++ l.drop (o + b.length)) := by
    rw [← drop_drop, take_append_drop, take_append_drop]
  have hl : wordSum l =
      wordSum (l.take o) +
        (wordSum ((l.drop o).take b.length) + wordSum (l.drop (o + b.length))) := by
    conv_lhs => rw [hsplit]
    rw [wordSum_append _ (by omega), wordSum_append _ (by omega)]
  rw [overwrite, append_assoc, wordSum_append _ (by omega), wordSum_append _ hb]
  omega

/-! ## Folding carries -/

/-- The loop that adds the carries back in. -/
def foldCarries : (fuel sum : Nat) → Nat
  | 0, sum => sum
  | fuel + 1, sum =>
    if sum / 65536 = 0 then sum else foldCarries fuel (sum % 65536 + sum / 65536)

/-- The one's-complement sum. -/
def onesSum (sum : Nat) : Nat := foldCarries sum sum

theorem foldCarries_eq {fuel sum : Nat} (h : sum ≤ fuel) :
    foldCarries fuel sum = if sum = 0 then 0 else (sum - 1) % 65535 + 1 := by
  induction fuel generalizing sum with
  | zero =>
    obtain rfl := Nat.le_zero.mp h
    rfl
  | succ fuel ih =>
    rw [foldCarries]
    by_cases hsmall : sum / 65536 = 0
    · rw [if_pos hsmall]
      split
      · next hzero => exact hzero
      · omega
    · rw [if_neg hsmall, ih (by omega), if_neg (by omega), if_neg (by omega)]
      -- a carry is worth 65536, which is one more than nothing
      have hsum : sum - 1 = sum % 65536 + sum / 65536 - 1 + 65535 * (sum / 65536) := by omega
      rw [hsum, Nat.add_mul_mod_self_left]

theorem onesSum_eq (sum : Nat) :
    onesSum sum = if sum = 0 then 0 else (sum - 1) % 65535 + 1 := foldCarries_eq le_rfl

/-- The words verify: they fold to all ones. -/
def Verifies (sum : Nat) : Prop := onesSum sum = 65535

instance (sum : Nat) : Decidable (Verifies sum) := inferInstanceAs (Decidable (_ = _))

theorem verifies_iff (sum : Nat) : Verifies sum ↔ sum ≠ 0 ∧ sum % 65535 = 0 := by
  rw [Verifies, onesSum_eq]
  split
  · omega
  · omega

end Foxcore.Lib
