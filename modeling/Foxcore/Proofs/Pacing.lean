import Mathlib
import Foxcore.Ref.Pacing

/-!
# The rate is kept

A datagram leaves when the one before it has taken its time, so what went out
lies side by side on the clock: each datagram's interval ends before the next
one begins. The bytes of a stretch of such datagrams are bounded by the time up
to the last of them (`bytes_le_of_apart`), which is the bound for a window.
-/

namespace Foxcore.Proofs.Pacing

open Lib Ref.Pacing Budget

variable {rate : Nat} {ε : Type}

/-- The newer datagram leaves when the older one has taken its time. -/
def Apart (rate : Nat) (newer older : Sent) : Prop :=
  older.time + interval older.bytes rate ≤ newer.time

/-- The newest datagram sets the budget, and no two overlap. -/
structure Paced (rate : Nat) (w : World) : Prop where
  budget : w.budget.next = w.sent.head?.map fun s => s.time + interval s.bytes rate
  apart : w.sent.Pairwise (Apart rate)

theorem bytes_le_interval (hrate : 0 < rate) (bytes : Nat) :
    nanosPerSecond * bytes ≤ rate * interval bytes rate := by
  have hdiv := Nat.lt_mul_div_succ (bytes * nanosPerSecond + (rate - 1)) hrate
  rw [interval, Nat.mul_comm nanosPerSecond]
  rw [mul_add] at hdiv
  omega

/-- Datagrams that lie side by side from `t₀` on and are finished by `finish`. -/
theorem bytes_le_of_apart (hrate : 0 < rate) {l : List Sent} {t₀ finish : Nat}
    (hapart : l.Pairwise (Apart rate)) (hfrom : ∀ s ∈ l, t₀ ≤ s.time)
    (hover : ∀ s ∈ l, s.time + interval s.bytes rate ≤ finish) :
    nanosPerSecond * (l.map Sent.bytes).sum ≤ rate * (finish - t₀) := by
  induction l generalizing finish with
  | nil => simp
  | cons s rest ih =>
    obtain ⟨hnewer, hrest⟩ := List.pairwise_cons.mp hapart
    obtain ⟨hbegin, hfrom⟩ := List.forall_mem_cons.mp hfrom
    have hend := hover s List.mem_cons_self
    have hbefore := ih hrest hfrom hnewer
    have hown := bytes_le_interval hrate s.bytes
    have htime : rate * (s.time - t₀) + rate * interval s.bytes rate ≤
        rate * (finish - t₀) := by
      rw [← mul_add]
      exact Nat.mul_le_mul_left rate (by omega)
    rw [List.map_cons, List.sum_cons, mul_add]
    omega

/-! ## Runs -/

theorem trySend_cases (hrate : 0 < rate) (b : Budget) (t : Transmit ε) :
    (∃ error, trySend rate b t = (.error error, b) ∧
      (error = .wouldBlock → ∃ due, b.next = some due ∧ t.now < due)) ∨
    (∀ due, b.next = some due → due ≤ t.now) ∧
      trySend rate b t = (.ok (), ⟨some (t.now + interval t.bytes rate)⟩) := by
  have hpos : rate ≠ 0 := Nat.pos_iff_ne_zero.mp hrate
  rw [trySend, deadline, if_neg hpos]
  split
  · exact .inl ⟨_, rfl, nofun⟩
  · simp only []
    split
    · next hdue =>
      obtain ⟨due, hfound⟩ := Option.isSome_iff_exists.mp hdue
      obtain ⟨hnext, hlt⟩ := Option.filter_eq_some_iff.mp hfound
      exact .inl ⟨_, rfl, fun _ => ⟨due, hnext, of_decide_eq_true hlt⟩⟩
    · next hdue =>
      cases t.inner with
      | error error => exact .inl ⟨_, rfl, nofun⟩
      | ok =>
        refine .inr ⟨fun due hnext => ?_, ?_⟩
        · rw [hnext] at hdue
          by_contra hlater
          exact hdue (by simp [Option.filter, not_le.mp hlater])
        · rw [sent, if_neg hpos]

theorem paced_apply (hrate : 0 < rate) {w : World} (h : Paced rate w) (t : Transmit ε) :
    Paced rate (w.apply rate t) := by
  rw [World.apply]
  rcases trySend_cases hrate w.budget t with ⟨error, heq, -⟩ | ⟨hfree, heq⟩
  · rw [heq]
    exact ⟨h.budget, h.apart⟩
  · rw [heq]
    refine ⟨rfl, List.pairwise_cons.mpr ⟨fun older holder => ?_, h.apart⟩⟩
    cases hsent : w.sent with
    | nil =>
      rw [hsent] at holder
      cases holder
    | cons newest rest =>
      have hover : newest.time + interval newest.bytes rate ≤ t.now :=
        hfree _ (by rw [h.budget, hsent]; rfl)
      have hapart := h.apart
      rw [hsent] at holder hapart
      rcases List.mem_cons.mp holder with rfl | hrest
      · exact hover
      · have hold : older.time + interval older.bytes rate ≤ newest.time :=
          (List.pairwise_cons.mp hapart).1 older hrest
        show older.time + interval older.bytes rate ≤ t.now
        omega

/-- What was sent in a window, newest first. -/
def window (w : World) (t₀ t₁ : Nat) : List Sent :=
  w.sent.filter fun s => t₀ ≤ s.time ∧ s.time ≤ t₁

/-- In every run at a constant rate, whatever the clock reads, the bytes of a window are
bounded by its length and its last datagram. A call that fails spends nothing, and one
that is held back is held back by the interval of the datagram before it. -/
theorem pacing_keeps_rate (hrate : 0 < rate) {w : World}
    (h : Reach (· = {}) (World.apply rate (ε := ε)) anyAction w) :
    (∀ t₀ t₁, nanosPerSecond * ((window w t₀ t₁).map Sent.bytes).sum ≤
      rate * (t₁ - t₀) + nanosPerSecond * ((window w t₀ t₁).head?.map Sent.bytes).getD 0) ∧
    ∀ (t : Transmit ε) (error : SendError ε), (trySend rate w.budget t).1 = .error error →
      (w.apply rate t).budget = w.budget ∧ (w.apply rate t).sent = w.sent ∧
      (error = .wouldBlock → ∃ previous, w.sent.head? = some previous ∧
        t.now < previous.time + Budget.interval previous.bytes rate) := by
  have hpaced : Paced rate w := by
    refine h.invariant ?_ fun w t hw _ => paced_apply hrate hw t
    rintro _ rfl
    exact ⟨rfl, .nil⟩
  refine ⟨fun t₀ t₁ => ?_, fun t error herror => ?_⟩
  · have hapart := hpaced.apart.filter fun s => t₀ ≤ s.time ∧ s.time ≤ t₁
    have hinside : ∀ s ∈ window w t₀ t₁, t₀ ≤ s.time ∧ s.time ≤ t₁ :=
      fun s hs => of_decide_eq_true (List.mem_filter.mp hs).2
    change (window w t₀ t₁).Pairwise _ at hapart
    cases hwindow : window w t₀ t₁ with
    | nil => simp
    | cons last rest =>
      rw [hwindow] at hapart hinside
      obtain ⟨hnewer, hrest⟩ := List.pairwise_cons.mp hapart
      obtain ⟨hlast, hinside⟩ := List.forall_mem_cons.mp hinside
      have hbytes := bytes_le_of_apart hrate hrest (fun s hs => (hinside s hs).1) hnewer
      have htime : rate * (last.time - t₀) ≤ rate * (t₁ - t₀) :=
        Nat.mul_le_mul_left rate (Nat.sub_le_sub_right hlast.2 t₀)
      rw [List.map_cons, List.sum_cons, mul_add, List.head?_cons, Option.map_some,
        Option.getD_some]
      omega
  · rw [World.apply]
    rcases trySend_cases hrate w.budget t with ⟨error', heq, hblock⟩ | ⟨-, heq⟩
    · rw [heq] at herror ⊢
      obtain rfl := Except.error.inj herror
      refine ⟨rfl, rfl, fun hheld => ?_⟩
      obtain ⟨due, hnext, hlt⟩ := hblock hheld
      rw [hpaced.budget] at hnext
      obtain ⟨previous, hprevious, rfl⟩ := Option.map_eq_some_iff.mp hnext
      exact ⟨previous, hprevious, hlt⟩
    · rw [heq] at herror
      cases herror

/-- A thousand bytes a second: a hundred bytes, and fifty more a tenth of a second
later. -/
theorem pacing_keeps_rate_twice :
    let w := (({} : World).apply 1000 (ε := Empty) ⟨0, 100, none, .ok ()⟩).apply 1000 (ε := Empty)
      ⟨100000000, 50, none, .ok ()⟩
    nanosPerSecond * ((window w 0 100000000).map Sent.bytes).sum ≤
      1000 * 100000000 + nanosPerSecond * 50 :=
  (pacing_keeps_rate (by decide) (.step (.step (.start rfl) trivial) trivial)).1 0 100000000

end Foxcore.Proofs.Pacing
