import Foxcore.Spec.Replay

/-!
# The replay window against its specification

The ring is right about the last 128 blocks up to that of the newest counter
(`Remembers`). A counter at most 127 blocks behind the newest one is in one of
them, so its bit says whether it was accepted before.
-/

namespace Foxcore.Proofs

open Lib Ref Spec List Option ReplayWindow

variable {w : ReplayWindow} {accepted : List Nat} {counter : Nat}

instance : NeZero ringBlocks := ⟨by decide⟩

/-! ## The ring -/

theorem shift_six (n : Nat) : n >>> 6 = n / blockBits := Nat.shiftRight_eq_div_pow n 6

theorem and_ringMask (n : Nat) : n &&& ringMask = n % ringBlocks :=
  Nat.and_two_pow_sub_one_eq_mod n 7

theorem and_blockMask (n : Nat) : n &&& blockMask = n % blockBits :=
  Nat.and_two_pow_sub_one_eq_mod n 6

theorem clearBlocks_eq (ring : BitRing ringBlocks blockBits) {current advanced : Nat}
    (h : current + advanced < 2 ^ 64) :
    clearBlocks ring current advanced = some (ring.advance current advanced) := by
  rw [clearBlocks]
  induction advanced with
  | zero => rfl
  | succ advanced ih =>
    have hadd : add64 current (advanced + 1) = some (current + (advanced + 1)) := if_pos h
    have hlt : (current + (advanced + 1)) % ringBlocks < ringBlocks :=
      Nat.mod_lt _ (by decide)
    rw [range_succ, foldlM_append, ih (by omega), BitRing.advance_succ]
    simp only [bind_eq_bind, bind_some, foldlM_cons, hadd, and_ringMask, dif_pos hlt]
    rfl

theorem and_bit_eq_zero {block : BitVec blockBits} {i : Nat} (h : i < blockBits) :
    block &&& (BitVec.ofNat blockBits 1 <<< i) = 0 ↔ block.getLsbD i = false := by
  have hbit : BitVec.ofNat blockBits 1 <<< i = BitVec.twoPow blockBits i := rfl
  rw [hbit]
  constructor
  · intro hzero
    have hi := congrArg (fun b => BitVec.getLsbD b i) hzero
    simpa [h] using hi
  · intro hoff
    refine BitVec.eq_of_getLsbD_eq fun j hj => ?_
    rw [BitVec.getLsbD_and]
    by_cases hij : i = j
    · rw [← hij, hoff]
      simp
    · simp [hij]

/-- The answer of a counter's bit, and the bit set. -/
def recorded (w : ReplayWindow) (counter : Nat) : Bool × ReplayWindow :=
  (!w.ring.test counter, { w with ring := w.ring.mark counter })

theorem record_eq (w : ReplayWindow) (counter : Nat) :
    w.record counter = some (recorded w counter) := by
  have hindex : (counter / blockBits) % ringBlocks < ringBlocks := Nat.mod_lt _ (by decide)
  have hshift : counter % blockBits < blockBits := Nat.mod_lt _ (by decide)
  have hbit : bit64 (counter % blockBits) =
      some (BitVec.ofNat blockBits 1 <<< (counter % blockBits)) := if_pos hshift
  simp only [record, shift_six, and_ringMask, and_blockMask, hbit, dif_pos hindex]
  refine congrArg some (Prod.ext ?_ rfl)
  rw [recorded, Bool.eq_iff_iff, decide_eq_true_eq, and_bit_eq_zero hshift, Bool.not_eq_true']
  rfl

/-- What the window does once nothing in it can overflow. -/
theorem accept_eq (w : ReplayWindow) (counter : Nat) :
    w.accept counter = some (
      if rejectAfterMessages ≤ counter then (false, w)
      else if w.last < counter then
        recorded ⟨counter, w.ring.advance (w.last / blockBits)
          (min (counter / blockBits - w.last / blockBits) ringBlocks)⟩ counter
      else if replayWindow < w.last - counter then (false, w)
      else recorded w counter) := by
  rw [accept]
  split
  · rfl
  · next hlimit =>
    split
    · next hlast =>
      have hmoved : sub64 (counter / blockBits) (w.last / blockBits) =
          some (counter / blockBits - w.last / blockBits) :=
        if_pos (Nat.div_le_div_right hlast.le)
      have hfit : w.last / blockBits +
          min (counter / blockBits - w.last / blockBits) ringBlocks < 2 ^ 64 := by
        have hwide : rejectAfterMessages = 18446744073709543422 := rfl
        rw [blockBits]
        omega
      simp only [shift_six, hmoved, bind_eq_bind, bind_some, clearBlocks_eq _ hfit,
        record_eq]
    · next hlast =>
      have hbehind : sub64 w.last counter = some (w.last - counter) :=
        if_pos (le_of_not_gt hlast)
      simp only [hbehind, bind_eq_bind, bind_some, record_eq]
      split <;> rfl

/-! ## What the window remembers -/

/-- The ring is right about what was accepted, none of it newer than `last`. -/
structure Shown (w : ReplayWindow) (accepted : List Nat) : Prop where
  le_last : ∀ k ∈ accepted, k ≤ w.last
  below : w.last < rejectAfterMessages
  shows : w.ring.Shows (w.last / blockBits) {k | k ∈ accepted}

/-- And `last` is the newest of it. -/
structure Remembers (w : ReplayWindow) (accepted : List Nat) : Prop extends Shown w accepted where
  newest : w.last ∈ accepted ∨ accepted = [] ∧ w.last = 0

theorem remembers_nil : Remembers {} [] := by
  refine ⟨⟨nofun, by decide, ?_⟩, .inr ⟨rfl, rfl⟩⟩
  exact BitRing.shows_cleared nofun

/-- The newest counter is the highest one accepted. -/
theorem fresh_eq (h : Remembers w accepted) (counter : Nat) :
    fresh accepted counter = decide (counter < rejectAfterMessages ∧
      w.last - counter ≤ replayWindow ∧ counter ∉ accepted) := by
  have hwindow :
      (accepted.max?.all fun highest => decide (highest - counter ≤ replayWindow)) = true ↔
        w.last - counter ≤ replayWindow := by
    rcases h.newest with hin | ⟨rfl, hzero⟩
    · have hmax : accepted.max? = some w.last :=
        max?_eq_some_iff.mpr ⟨hin, fun k hk => h.le_last k hk⟩
      rw [hmax, all_some, decide_eq_true_eq]
    · rw [hzero]
      simp
  rw [fresh, decide_eq_decide, hwindow]

/-- A counter inside the window is in one of the blocks the ring is right about. -/
theorem block_within {last : Nat} (hle : counter ≤ last) (hwindow : last - counter ≤ replayWindow) :
    counter / blockBits ≤ last / blockBits ∧
      last / blockBits < counter / blockBits + ringBlocks := by
  have hsize : replayWindow = 8128 := rfl
  rw [blockBits, ringBlocks]
  omega

theorem Shown.recorded (h : Shown w accepted) (hle : counter ≤ w.last)
    (hwindow : w.last - counter ≤ replayWindow) (hnewest : w.last ∈ accepted ∨ w.last = counter) :
    (recorded w counter).1 = decide (counter ∉ accepted) ∧
      Remembers (recorded w counter).2
        (if counter ∉ accepted then counter :: accepted else accepted) ∧
      (counter ∈ accepted → (recorded w counter).2 = w) := by
  obtain ⟨hblock, hlow⟩ := block_within hle hwindow
  have htest : w.ring.test counter = true ↔ counter ∈ accepted := h.shows counter hblock hlow
  refine ⟨?_, ?_⟩
  · rw [Proofs.recorded, Bool.eq_iff_iff, Bool.not_eq_true', decide_eq_true_eq,
      ← Bool.not_eq_true, htest]
  by_cases hin : counter ∈ accepted
  · have hsame : (Proofs.recorded w counter).2 = w := by
      rw [Proofs.recorded, BitRing.mark_of_test (htest.mpr hin)]
    rw [hsame, if_neg (not_not_intro hin)]
    refine ⟨⟨h, .inl ?_⟩, fun _ => rfl⟩
    rcases hnewest with hlast | hlast
    · exact hlast
    · exact hlast ▸ hin
  · have hset : {k | k ∈ counter :: accepted} = insert counter {k | k ∈ accepted} := by
      ext k
      simp
    rw [if_pos hin]
    refine ⟨⟨⟨forall_mem_cons.mpr ⟨hle, h.le_last⟩, h.below, ?_⟩, .inl ?_⟩,
      fun h => absurd h hin⟩
    · rw [hset]
      exact BitRing.shows_mark (by decide) h.shows hblock hlow
    · rcases hnewest with hlast | hlast
      · exact mem_cons_of_mem _ hlast
      · exact hlast ▸ mem_cons_self

/-- The window moved up to a newer counter. -/
theorem Shown.advance (h : Shown w accepted) (hlt : w.last < counter)
    (hbelow : counter < rejectAfterMessages) :
    Shown ⟨counter, w.ring.advance (w.last / blockBits)
      (min (counter / blockBits - w.last / blockBits) ringBlocks)⟩ accepted := by
  refine ⟨fun k hk => (h.le_last k hk).trans hlt.le, hbelow, ?_⟩
  refine BitRing.shows_advance h.shows (fun k hk => ?_) (Nat.div_le_div_right hlt.le)
  exact Nat.div_le_div_right (h.le_last k hk)

/-- The answer to one counter, and what the window remembers after it. -/
theorem accept_spec (h : Remembers w accepted) (counter : Nat) :
    ∃ w', w.accept counter = some (fresh accepted counter, w') ∧
      Remembers w' (if fresh accepted counter then counter :: accepted else accepted) ∧
      (fresh accepted counter = false → w' = w) := by
  rw [accept_eq, fresh_eq h]
  split
  · next hlimit =>
    rw [decide_eq_false fun hall => not_lt.mpr hlimit hall.1]
    exact ⟨w, rfl, h, fun _ => rfl⟩
  · next hlimit =>
    have hbelow : counter < rejectAfterMessages := not_le.mp hlimit
    split
    · -- newer than all others: the ring moves up and the bit is off
      next hnew =>
      have hnone : counter ∉ accepted := fun hin => not_le.mpr hnew (h.le_last counter hin)
      obtain ⟨hanswer, hafter, -⟩ := (h.toShown.advance hnew hbelow).recorded le_rfl
        (by omega) (.inr rfl)
      rw [decide_eq_true hnone] at hanswer
      rw [if_pos hnone] at hafter
      rw [decide_eq_true ⟨hbelow, by omega, hnone⟩]
      exact ⟨_, congrArg some (Prod.ext hanswer rfl), hafter, nofun⟩
    · next hold =>
      split
      · next hfar =>
        rw [decide_eq_false fun hall => not_le.mpr hfar hall.2.1]
        exact ⟨w, rfl, h, fun _ => rfl⟩
      · next hnear =>
        have hwindow : w.last - counter ≤ replayWindow := not_lt.mp hnear
        obtain ⟨hanswer, hafter, hsame⟩ := h.toShown.recorded (not_lt.mp hold) hwindow
          (h.newest.imp_right fun hzero => by omega)
        refine ⟨_, congrArg some (Prod.ext (hanswer.trans ?_) rfl), ?_, fun hstale => hsame ?_⟩
        · simp [hbelow, hwindow]
        · simpa [hbelow, hwindow] using hafter
        · simpa [hbelow, hwindow] using hstale

theorem nodup_remember (h : accepted.Nodup) (counters : List Nat) :
    (remember accepted counters).2.Nodup := by
  induction counters generalizing accepted with
  | nil => exact h
  | cons counter counters ih =>
    rw [remember]
    by_cases hfresh : fresh accepted counter = true
    · rw [if_pos hfresh]
      refine ih (nodup_cons.mpr ⟨?_, h⟩)
      rw [fresh, decide_eq_true_eq] at hfresh
      exact hfresh.2.2
    · rw [if_neg hfresh]
      exact ih h

theorem run_remembers (h : Remembers w accepted) (counters : List Nat) :
    ∃ w', w.run counters = some ((remember accepted counters).1, w') ∧
      Remembers w' (remember accepted counters).2 := by
  induction counters generalizing w accepted with
  | nil => exact ⟨w, rfl, h⟩
  | cons counter counters ih =>
    obtain ⟨w₁, haccept, h₁, -⟩ := accept_spec h counter
    obtain ⟨w₂, hrun, h₂⟩ := ih h₁
    refine ⟨w₂, ?_, h₂⟩
    simp only [run, haccept, hrun, bind_eq_bind, bind_some]
    rfl

/-- The window answers as if it remembered every counter, to any counters in any
order; no computation of it overflows, and no counter is accepted twice. -/
theorem replay_window_remembers (counters : List Nat) :
    (∃ w, ReplayWindow.run {} counters = some ((remember [] counters).1, w)) ∧
      (remember [] counters).2.Nodup := by
  obtain ⟨w, hrun, -⟩ := run_remembers remembers_nil counters
  exact ⟨⟨w, hrun⟩, nodup_remember nodup_nil counters⟩

end Foxcore.Proofs
