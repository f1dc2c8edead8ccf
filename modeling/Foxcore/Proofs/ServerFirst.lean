import Foxcore.Spec.ServerFirst

/-!
# The header leaves before the first read

`Stage` is what each phase stands for: nothing was written, the write of nothing is
begun and not complete, or the header went with a write of the application or was
flushed. A flush before the first write goes to the last phase with no header, and a
flush of the header that has to wait leaves the write of nothing to be made again.
-/

namespace Foxcore.Proofs.ServerFirst

open Lib Ref.ServerFirst Spec.ServerFirst

variable {w : World} {s : ServerFirstStream}

/-- The header went with a write of the application or was flushed. -/
structure Headed (i : Inner) : Prop where
  early : i.early = false
  primes : i.primes ≤ 1
  begun : i.begun = true
  gone : i.written = true ∨ i.flushed = true

inductive Stage : ServerFirstStream → Prop
  | idle : Stage ⟨{}, .idle⟩
  | priming : Stage ⟨{ held := some [], begun := true }, .priming⟩
  | written {i : Inner} : Headed i → Stage ⟨i, .written⟩

variable {i : Inner}

structure Sound (w : World) : Prop where
  stage : Stage w.stream
  exact : w.reported = w.stream.inner.wire.getD []

theorem Headed.pollRead (h : Headed i) : Headed i.pollRead := by
  refine ⟨?_, h.primes, h.begun, h.gone⟩
  have hgone : (i.written || i.flushed) = true := Bool.or_eq_true_iff.mpr h.gone
  simp only [Inner.pollRead, h.early, h.begun, hgone]
  rfl

theorem Headed.pollFlush (h : Headed i) (flush : Polled Unit) : Headed (i.pollFlush flush) := by
  cases flush with
  | pending | failed => exact h
  | ready =>
    refine ⟨h.early, h.primes, h.begun, h.gone.imp_right fun hflushed => ?_⟩
    simp [Inner.pollFlush, hflushed]

/-- The write of nothing completes, and the header is flushed. -/
theorem Stage.prime (h : Stage s) (hphase : s.phase ≠ .written) (n : Nat) :
    Headed ((s.inner.prime (.ready n)).pollFlush (.ready ())) ∧
      (s.inner.prime (.ready n)).wire = some [] := by
  have hempty : [] ++ List.take n ([] : Bytes) = [] := by rw [List.take_nil, List.append_nil]
  cases h with
  | idle | priming => exact ⟨⟨rfl, Nat.le_refl 1, rfl, .inr rfl⟩, congrArg some hempty⟩
  | written => exact absurd rfl hphase

/-- A write of the application reaches the inner stream behind at most one of nothing. -/
theorem Stage.finish (h : Stage s) (zero : Polled Nat) :
    s.pollFinishPriming zero = (.pending, s) ∨ s.pollFinishPriming zero = (.failed, s) ∨
      ∃ i, s.pollFinishPriming zero = (.ready (), ⟨i, .written⟩) ∧ i.early = false ∧
        i.primes ≤ 1 ∧ i.wire.getD [] = s.inner.wire.getD [] ∧
        ∀ held ∈ i.held, s.phase = .written ∧ held ∈ s.inner.held := by
  cases h with
  | idle => exact .inr (.inr ⟨_, rfl, rfl, Nat.zero_le 1, rfl, nofun⟩)
  | written h =>
    exact .inr (.inr ⟨_, rfl, h.early, h.primes, rfl, fun _ hheld => ⟨rfl, hheld⟩⟩)
  | priming =>
    cases zero with
    | pending => exact .inl rfl
    | failed => exact .inr (.inl rfl)
    | ready n =>
      refine .inr (.inr ⟨_, rfl, rfl, Nat.le_refl 1, ?_, nofun⟩)
      rw [(Stage.prime .priming nofun n).2]
      rfl

theorem Sound.pollWrite (h : Sound w) {buffer : Bytes} {zero answer : Polled Nat}
    (hok : Orderly w (.pollWrite zero buffer answer)) :
    Sound (w.step (.pollWrite zero buffer answer)) := by
  rw [World.step, ServerFirstStream.pollWrite]
  obtain heq | heq | ⟨i, heq, hearly, hprimes, hwire, hheld⟩ := h.stage.finish zero
  · rw [heq]
    exact h
  · rw [heq]
    exact h
  · rw [heq]
    have hheaded : ∀ {wire held}, Stage ⟨{ i with wire, held, begun := true, written := true },
        .written⟩ := .written ⟨hearly, hprimes, rfl, .inl rfl⟩
    cases answer with
    | pending | failed => exact ⟨hheaded, h.exact.trans hwire.symm⟩
    | ready =>
      have hbuffer : i.held.getD buffer = buffer := by
        cases hcase : i.held with
        | none => rfl
        | some held => exact hok (hheld held hcase).1 held (hheld held hcase).2
      refine ⟨hheaded, ?_⟩
      simp only [Inner.pollWrite, Option.getD_some, hbuffer, hwire, h.exact]

theorem Sound.step (h : Sound w) {call : Call} (hok : Orderly w call) : Sound (w.step call) := by
  obtain ⟨s, reported⟩ := w
  have hprime := h.stage.prime
  obtain ⟨hstage, hexact⟩ := h
  cases call with
  | pollWrite => exact Sound.pollWrite ⟨hstage, hexact⟩ hok
  | pollRead zero =>
    cases hstage with
    | written hheaded => exact ⟨.written hheaded.pollRead, hexact⟩
    | idle | priming =>
      cases zero with
      | pending | failed => exact ⟨.priming, hexact⟩
      | ready n =>
        obtain rfl := hok nofun rfl
        obtain ⟨hheaded, hwire⟩ := hprime nofun n
        exact ⟨.written hheaded.pollRead, hexact.trans (congrArg (Option.getD · []) hwire).symm⟩
  | pollFlush zero flush =>
    cases hstage with
    | idle => exact absurd rfl hok.1
    | written hheaded =>
      refine ⟨.written (hheaded.pollFlush flush), hexact.trans ?_⟩
      cases flush <;> rfl
    | priming =>
      cases zero with
      | pending | failed => exact ⟨.priming, hexact⟩
      | ready n =>
        obtain rfl := hok.2 rfl rfl
        obtain ⟨hheaded, hwire⟩ := hprime nofun n
        exact ⟨.written hheaded, hexact.trans (congrArg (Option.getD · []) hwire).symm⟩
  | pollShutdown =>
    cases hstage with
    | written hheaded => exact ⟨.written hheaded, hexact⟩
    | idle | priming => cases hok

theorem Sound.kept (h : Sound w) : HeaderKept w := by
  obtain ⟨⟨i, phase⟩, reported⟩ := w
  obtain ⟨hstage, hexact⟩ := h
  cases hstage with
  | idle | priming => exact ⟨rfl, Nat.zero_le 1, hexact⟩
  | written hheaded => exact ⟨hheaded.early, hheaded.primes, hexact⟩

/-- In every run of orderly polls the header leaves before the first read, nothing is
written at most once, and the bytes behind the header are those reported as written. -/
theorem orderly_kept (h : Reach (· = ({} : World)) World.step Orderly w) : HeaderKept w := by
  have hsound : Sound w := by
    refine h.invariant ?_ fun _ _ hs hok => hs.step hok
    rintro _ rfl
    exact ⟨.idle, rfl⟩
  exact hsound.kept

/-- A read that has to wait for the header, which a write of the application completes. -/
theorem orderly_kept_example :
    HeaderKept (([.pollRead .pending .pending, .pollWrite (.ready 0) [1, 2] .pending,
      .pollWrite (.ready 0) [1, 2] (.ready 2), .pollRead .pending .pending] : List Call).foldl
      World.step {}) := by
  refine orderly_kept (Reach.run (.start rfl) ⟨nofun, nofun, ?_, nofun, trivial⟩)
  rintro - _ ⟨⟩
  rfl

/-- A flush before the first write leaves the header behind for good; a flush of the
header that has to wait has it written twice. -/
theorem server_first_fails :
    ¬ HeaderKept (([.pollFlush .pending (.ready ()), .pollRead .pending .pending] :
        List Call).foldl World.step {}) ∧
      ¬ HeaderKept (([.pollRead (.ready 0) .pending, .pollRead (.ready 0) (.ready ())] :
        List Call).foldl World.step {}) :=
  ⟨fun h => absurd h.header (by decide), fun h => absurd h.once (by decide)⟩

end Foxcore.Proofs.ServerFirst
