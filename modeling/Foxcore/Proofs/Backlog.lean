import Foxcore.Spec.Backlog

/-!
# The backlog guard is a faithful bounded queue

What has got to the writer and what is still held make up one list (`total`). Draining
leaves it as it is and holding appends to it (`Moves`, `held_hold`), so it is what was
acknowledged. The clock stands at the last call in which the writer accepted something or
the backlog began, and nothing else moves it while something is held (`CallLaw.clock`);
that is the call from which a stall is counted.
-/

namespace Foxcore.Proofs.Backlog

open Lib Ref.Backlog Spec.Backlog List BacklogGuard Touch

variable {σ : Type} {writer : Writer σ} {g g' : BacklogGuard (σ × List Touch)} {now : Nat}
  {timerReady : Bool}

variable {inner : σ × List Touch} {w : World σ}

def held (g : BacklogGuard (σ × List Touch)) : List UInt8 := g.pending.drop g.sent

theorem length_held (g : BacklogGuard (σ × List Touch)) : (held g).length = g.backlog :=
  length_drop

theorem held_eq_nil : held g = [] ↔ g.backlog = 0 := by
  rw [← length_held, length_eq_zero_iff]

/-- What the notes say the writer accepted. -/
def taken (g : BacklogGuard (σ × List Touch)) : List UInt8 := g.inner.2.flatMap bytes

def total (g : BacklogGuard (σ × List Touch)) : List UInt8 := taken g ++ held g

def passed (g : BacklogGuard (σ × List Touch)) : Bool := g.inner.2.any passes

/-! ## The writer with its notes -/

theorem noting_ok {s s' : σ × List Touch} {buf : List UInt8} {n : Nat}
    (h : (noting writer).pollWrite s buf = (.ok n, s')) :
    n ≤ buf.length ∧ s'.2 = s.2 ++ [.accepted (buf.take n)] := by
  refine ⟨(noting writer).count_le h, ?_⟩
  simp only [noting] at h
  split at h
  · cases h
    rfl
  · next result inner hne heq =>
    cases h
    exact absurd rfl (hne n)

theorem noting_not_ok {s s' : σ × List Touch} {buf : List UInt8} {result : Poll Nat Nat}
    (h : (noting writer).pollWrite s buf = (result, s')) (hne : ∀ n, result ≠ .ok n) :
    s'.2 = s.2 := by
  simp only [noting] at h
  split at h
  · cases h
    exact absurd rfl (hne _)
  · cases h
    rfl

/-! ## Draining -/

/-- What is sent leaves the backlog, and the clock is set if anything was. -/
structure Moves (now : Nat) (g g' : BacklogGuard (σ × List Touch)) : Prop where
  total : total g' = total g
  passed : passed g' = passed g
  ceiling : g'.ceiling = g.ceiling
  stallAfter : g'.stallAfter = g.stallAfter
  shorter : (held g').length ≤ (held g).length
  clock : g'.progress = now ∨ (g'.progress = g.progress ∧ taken g' = taken g)

theorem Moves.trans {g'' : BacklogGuard (σ × List Touch)} (h : Moves now g g')
    (h' : Moves now g' g'') : Moves now g g'' where
  total := h'.total.trans h.total
  passed := h'.passed.trans h.passed
  ceiling := h'.ceiling.trans h.ceiling
  stallAfter := h'.stallAfter.trans h.stallAfter
  shorter := le_trans h'.shorter h.shorter
  clock := by grind [h.clock, h'.clock]

/-- Only the state of the writer changes, and it notes nothing. -/
theorem moves_inner (h : inner.2.flatMap bytes = taken g)
    (h' : inner.2.any passes = passed g) : Moves now g { g with inner } where
  total := congrArg (· ++ held g) h
  passed := h'
  ceiling := rfl
  stallAfter := rfl
  shorter := le_rfl
  clock := .inr ⟨rfl, h⟩

/-- One round of the loop. -/
theorem moves_sent {n : Nat} (h : (noting writer).pollWrite g.inner (held g) = (.ok n, inner)) :
    Moves now g { g with inner, sent := g.sent + n, progress := now } := by
  obtain ⟨-, hnotes⟩ := noting_ok h
  refine ⟨?_, ?_, rfl, rfl, ?_, .inl rfl⟩
  · have hsplit : held g = (held g).take n ++ g.pending.drop (g.sent + n) := by
      rw [← drop_drop]
      exact (take_append_drop n _).symm
    calc inner.2.flatMap bytes ++ g.pending.drop (g.sent + n)
        = taken g ++ ((held g).take n ++ g.pending.drop (g.sent + n)) := by
          rw [hnotes, flatMap_append, flatMap_singleton, append_assoc]
          rfl
      _ = taken g ++ held g := by rw [← hsplit]
  · change inner.2.any passes = g.inner.2.any passes
    rw [hnotes]
    simp [passes]
  · simp only [held, length_drop]
    omega

/-- Draining sends what it can, and is done exactly when nothing is held. -/
structure Drains (now : Nat) (g : BacklogGuard (σ × List Touch))
    (result : Poll IoError Unit × BacklogGuard (σ × List Touch)) : Prop where
  moves : Moves now g result.2
  done : result.1 = .ok () ↔ held result.2 = []
  unstalled : stalled result.1 = false

theorem drainLoop_drains {fuel : Nat} (h : g.backlog ≤ fuel) :
    Drains now g (g.drainLoop (noting writer) now fuel) := by
  have hstay : ∀ (g : BacklogGuard (σ × List Touch)) {inner}, inner.2 = g.inner.2 →
      Moves now g { g with inner } := fun g inner hsame =>
    moves_inner (by rw [hsame]; rfl) (by rw [hsame]; rfl)
  have hheld : ∀ {g : BacklogGuard (σ × List Touch)}, g.sent < g.pending.length → held g ≠ [] := by
    intro g hmore
    rw [Ne, held_eq_nil, backlog]
    omega
  fun_induction drainLoop (noting writer) now fuel g with
  | case1 g =>
    have hnil : held g = [] := held_eq_nil.mpr (Nat.le_zero.mp h)
    exact ⟨hstay g rfl, ⟨fun _ => hnil, fun _ => rfl⟩, rfl⟩
  | case2 fuel g hmore inner heq =>
    have hnotes := (noting_ok heq).2
    refine ⟨moves_inner ?_ ?_, ⟨nofun, fun hnil => absurd hnil (hheld hmore)⟩, rfl⟩
    · rw [hnotes, flatMap_append]
      exact append_nil _
    · rw [hnotes, any_append]
      exact Bool.or_false _
  | case3 fuel g hmore n inner hne heq ih =>
    have hpos : n ≠ 0 := hne
    have hrest := ih (by simp only [backlog] at h ⊢; omega)
    exact ⟨(moves_sent heq).trans hrest.moves, hrest.done, hrest.unstalled⟩
  | case4 fuel g hmore code inner heq =>
    exact ⟨hstay g (noting_not_ok heq nofun), ⟨nofun, fun hnil => absurd hnil (hheld hmore)⟩, rfl⟩
  | case5 fuel g hmore inner heq =>
    exact ⟨hstay g (noting_not_ok heq nofun), ⟨nofun, fun hnil => absurd hnil (hheld hmore)⟩, rfl⟩
  | case6 fuel g =>
    have hnil : held g = [] := held_eq_nil.mpr (by rw [backlog]; omega)
    exact ⟨hstay g rfl, ⟨fun _ => hnil, fun _ => rfl⟩, rfl⟩

theorem drain_drains (writer : Writer σ) (now : Nat) (g : BacklogGuard (σ × List Touch)) :
    Drains now g (g.drain (noting writer) now) := by
  have hloop : Drains now g (g.drainLoop (noting writer) now g.backlog) :=
    drainLoop_drains le_rfl
  rw [drain]
  generalize g.drainLoop (noting writer) now g.backlog = result at hloop
  obtain ⟨result, g'⟩ := result
  cases result with
  | ok =>
    have hnil : held g' = [] := hloop.done.mp rfl
    have hcleared : Moves now g'
        { g' with pending := [], sent := 0, progress := now, deadline := none } :=
      ⟨congrArg (taken g' ++ ·) hnil.symm, rfl, rfl, rfl, Nat.zero_le _, .inl rfl⟩
    exact ⟨hloop.moves.trans hcleared, ⟨fun _ => rfl, fun _ => rfl⟩, rfl⟩
  | error | pending => exact hloop

/-! ## The stall clock and holding -/

/-- The clock is looked at and nothing else is touched. -/
theorem pollStall_cases (g : BacklogGuard (σ × List Touch)) (now : Nat) (timerReady : Bool) :
    (∃ deadline, g.pollStall now timerReady = (none, { g with deadline })) ∨
      (held g ≠ [] ∧ g.stallAfter ≤ now - g.progress ∧ ∃ deadline, g.pollStall now timerReady =
        (some (.outboundStalled g.backlog g.stallAfter), { g with deadline })) := by
  fun_cases pollStall g now timerReady with
  | case3 hne _ _ hlong => exact .inr ⟨fun hnil => hne (held_eq_nil.mp hnil), hlong, _, rfl⟩
  | _ => exact .inl ⟨_, rfl⟩

theorem reclaim_spec (g : BacklogGuard (σ × List Touch)) :
    g.reclaim = { g with pending := held g, sent := 0 } := by
  fun_cases reclaim g with
  | case1 => rfl
  | case2 hzero =>
    have hzero : g.sent = 0 := by omega
    cases g
    cases hzero
    rfl

theorem held_hold (g : BacklogGuard (σ × List Touch)) (now : Nat) (bytes : List UInt8) :
    held (g.hold now bytes) = held g ++ bytes := by
  rw [hold]
  split
  · next hnil => rw [hnil, append_nil]
  · dsimp only
    rw [reclaim_spec]
    split <;> rfl

theorem hold_frame (g : BacklogGuard (σ × List Touch)) (now : Nat) (bytes : List UInt8) :
    (g.hold now bytes).inner = g.inner ∧ (g.hold now bytes).ceiling = g.ceiling ∧
      (g.hold now bytes).stallAfter = g.stallAfter ∧
      (g.hold now bytes).progress =
        if bytes ≠ [] ∧ held g = [] then now else g.progress := by
  rw [hold]
  split
  · next hnil => exact ⟨rfl, rfl, rfl, (if_neg (fun h => h.1 hnil)).symm⟩
  · next hne =>
    dsimp only
    rw [reclaim_spec]
    by_cases hzero : g.backlog = 0
    · rw [if_pos hzero, if_pos ⟨hne, held_eq_nil.mpr hzero⟩]
      exact ⟨rfl, rfl, rfl, rfl⟩
    · rw [if_neg hzero, if_neg fun h => hzero (held_eq_nil.mp h.2)]
      exact ⟨rfl, rfl, rfl, rfl⟩

/-! ## One call -/

/-- What a call does, with `acknowledged` the buffer it answers for. -/
structure CallLaw (now offered : Nat) (acknowledged : List UInt8) (stalled : Bool)
    (g g' : BacklogGuard (σ × List Touch)) : Prop where
  total : total g' = total g ++ acknowledged
  passed : passed g' = true → passed g = true ∨ held g' = []
  ceiling : g'.ceiling = g.ceiling
  stallAfter : g'.stallAfter = g.stallAfter
  bounded : (held g').length < g.ceiling + offered ∨ (held g').length ≤ (held g).length
  clock : held g' ≠ [] → g'.progress = now ∨
    (g'.progress = g.progress ∧ taken g' = taken g ∧ held g ≠ [])
  silent : stalled = true → held g' ≠ [] ∧ taken g' = taken g ∧ held g ≠ [] ∧
    g.progress + stallTimeout ≤ now

theorem Moves.held_ne_nil (h : Moves now g g') (hne : held g' ≠ []) : held g ≠ [] := by
  intro hnil
  have hshorter := h.shorter
  rw [hnil, length_nil, Nat.le_zero, length_eq_zero_iff] at hshorter
  exact hne hshorter

theorem Moves.setDeadline (h : Moves now g g') (deadline : Option Nat) :
    Moves now g { g' with deadline } :=
  ⟨h.total, h.passed, h.ceiling, h.stallAfter, h.shorter, h.clock⟩

/-- A call that drains and acknowledges nothing. -/
theorem Moves.callLaw (h : Moves now g g') (offered : Nat) : CallLaw now offered [] false g g' where
  total := h.total.trans (append_nil _).symm
  passed hpassed := .inl (h.passed.symm.trans hpassed)
  ceiling := h.ceiling
  stallAfter := h.stallAfter
  bounded := .inr h.shorter
  clock hne := h.clock.imp_right fun hsame => ⟨hsame.1, hsame.2, h.held_ne_nil hne⟩
  silent := nofun

section Calls

variable (hstall : g.stallAfter = stallTimeout) (hceiling : 0 < g.ceiling)

include hstall in
/-- A call that drains and fails for a stall. -/
theorem Moves.callLaw_stall (h : Moves now g g') (offered : Nat) (hheld : held g' ≠ [])
    (hlong : g'.stallAfter ≤ now - g'.progress) : CallLaw now offered [] true g g' := by
  rw [h.stallAfter, hstall, stallTimeout] at hlong
  refine { h.callLaw offered with silent := fun _ => ?_ }
  rcases h.clock with hnow | ⟨hsame, htaken⟩
  · omega
  · exact ⟨hheld, htaken, h.held_ne_nil hheld, by rw [stallTimeout]; omega⟩

include hstall in
theorem law_pollThrough {handOn : σ × List Touch → Poll Nat Unit × (σ × List Touch)}
    (hhandOn : ∀ s, (handOn s).2.2.flatMap bytes = s.2.flatMap bytes) :
    CallLaw now 0 [] (stalled (g.pollThrough (noting writer) handOn now timerReady).1) g
      (g.pollThrough (noting writer) handOn now timerReady).2 := by
  have hdrains := drain_drains writer now g
  rw [pollThrough]
  generalize g.drain (noting writer) now = result at hdrains
  obtain ⟨result, g'⟩ := result
  have hmoves : Moves now g g' := hdrains.moves
  cases result with
  | ok =>
    -- the writer is handed on to with nothing held
    have hnil : held g' = [] := hdrains.done.mp rfl
    have hquiet : stalled ((handOn g'.inner).1.mapError IoError.inner) = false := by
      cases (handOn g'.inner).1 <;> rfl
    rw [hquiet]
    refine
      { total := ?_
        passed := fun _ => .inr hnil
        ceiling := hmoves.ceiling
        stallAfter := hmoves.stallAfter
        bounded := .inr hmoves.shorter
        clock := fun hne => absurd hnil hne
        silent := nofun }
    rw [append_nil, ← hmoves.total]
    exact congrArg (· ++ held g') (hhandOn g'.inner)
  | error cause =>
    have hquiet : stalled (.error cause : Poll IoError Unit) = false := hdrains.unstalled
    rw [hquiet]
    exact hmoves.callLaw 0
  | pending =>
    dsimp only
    rcases pollStall_cases g' now timerReady with ⟨deadline, heq⟩ | ⟨hheld, hlong, deadline, heq⟩
    · rw [heq]
      exact (hmoves.setDeadline deadline).callLaw 0
    · rw [heq]
      exact (hmoves.setDeadline deadline).callLaw_stall hstall 0 hheld hlong

/-- A write does what its answer says. -/
def WriteLaw (now : Nat) (buf : List UInt8) (g : BacklogGuard (σ × List Touch))
    (answer : Poll IoError Nat × BacklogGuard (σ × List Touch)) : Prop :=
  CallLaw now buf.length (acknowledges answer.1 buf) (stalled answer.1) g answer.2

/-- What the writer took is noted. -/
theorem taken_inner {bytes : List UInt8} (h : inner.2 = g.inner.2 ++ [.accepted bytes]) :
    taken { g with inner } = taken g ++ bytes ∧ passed { g with inner } = passed g := by
  constructor
  · change inner.2.flatMap Touch.bytes = g.inner.2.flatMap Touch.bytes ++ bytes
    rw [h, flatMap_append, flatMap_singleton]
    rfl
  · change inner.2.any passes = g.inner.2.any passes
    rw [h, any_append]
    exact Bool.or_false _

include hstall hceiling in
/-- A write that finds nothing held: what the writer does not take is held from now on, and
that is too short a time for a stall. -/
theorem law_hold (sent rest : List UInt8) {h : BacklogGuard (σ × List Touch)} (hnil : held h = [])
    (hg : held g = []) (htaken : taken h = taken g ++ sent) (hpassed : passed h = passed g)
    (hceil : h.ceiling = g.ceiling) (hafter : h.stallAfter = g.stallAfter) :
    WriteLaw now (sent ++ rest) g ((h.hold now rest).endWrite now timerReady (sent ++ rest)) := by
  obtain ⟨hinner, hceil', hafter', hprogress⟩ := hold_frame h now rest
  have hheld : held (h.hold now rest) = rest := by rw [held_hold, hnil, nil_append]
  have hclock : held (h.hold now rest) ≠ [] → (h.hold now rest).progress = now := by
    intro hne
    rw [hprogress, if_pos ⟨fun hrest => hne (hheld.trans hrest), hnil⟩]
  rw [endWrite]
  rcases pollStall_cases (h.hold now rest) now timerReady with ⟨deadline, heq⟩ | ⟨hne, hlong, -⟩
  · rw [heq]
    refine
      { total := ?_
        passed := fun hp => .inl ?_
        ceiling := hceil'.trans hceil
        stallAfter := hafter'.trans hafter
        bounded := .inl ?_
        clock := fun hne => .inl (hclock hne)
        silent := nofun }
    · change (h.hold now rest).inner.2.flatMap bytes ++ held (h.hold now rest) =
        taken g ++ held g ++ (sent ++ rest)
      rw [hheld, hinner, hg, append_nil, ← append_assoc]
      exact congrArg (· ++ rest) htaken
    · rw [hinner] at hp
      exact hpassed.symm.trans hp
    · change (held (h.hold now rest)).length < g.ceiling + (sent ++ rest).length
      rw [hheld, length_append]
      omega
  · rw [hclock hne, hafter', hafter, hstall, stallTimeout] at hlong
    omega

include hstall in
/-- Behind a backlog a buffer is held if there is room below the ceiling. -/
theorem law_endWriteBehind (hmoves : Moves now g g') (buf : List UInt8) :
    WriteLaw now buf g (g'.endWriteBehind now timerReady buf) := by
  rw [endWriteBehind]
  rcases pollStall_cases g' now timerReady with ⟨deadline, heq⟩ | ⟨hheld, hlong, deadline, heq⟩
  · rw [heq]
    have hmoves := hmoves.setDeadline deadline
    generalize ({ g' with deadline } : BacklogGuard (σ × List Touch)) = h at hmoves
    dsimp only
    split
    · exact hmoves.callLaw buf.length
    · next hroom =>
      obtain ⟨hinner, hceil, hafter, hprogress⟩ := hold_frame h now buf
      have hheld := held_hold h now buf
      have htaken : taken (h.hold now buf) = taken h := by rw [taken, taken, hinner]
      refine
        { total := ?_
          passed := fun hp => .inl ?_
          ceiling := hceil.trans hmoves.ceiling
          stallAfter := hafter.trans hmoves.stallAfter
          bounded := .inl ?_
          clock := fun hne => ?_
          silent := nofun }
      · change taken (h.hold now buf) ++ held (h.hold now buf) = total g ++ buf
        rw [htaken, hheld, ← append_assoc]
        exact congrArg (· ++ buf) hmoves.total
      · rw [passed, hinner] at hp
        exact hmoves.passed.symm.trans hp
      · rw [hheld, length_append, length_held, ← hmoves.ceiling]
        omega
      · have hkept : held h ≠ [] → held g ≠ [] := hmoves.held_ne_nil
        grind [hmoves.clock]
  · rw [heq]
    exact (hmoves.setDeadline deadline).callLaw_stall hstall buf.length hheld hlong

include hstall hceiling in
theorem law_pollWrite (buf : List UInt8) :
    WriteLaw now buf g (g.pollWrite (noting writer) now timerReady buf) := by
  fun_cases pollWrite (noting writer) g now timerReady buf with
  | case1 hzero written inner heq _ hnone =>
    obtain ⟨htaken, hpassed⟩ := taken_inner (noting_ok heq).2
    rw [hnone.1, take_zero, append_nil] at htaken
    exact (moves_inner htaken hpassed).callLaw buf.length
  | case2 hzero inner _ heq =>
    obtain ⟨htaken, hpassed⟩ := taken_inner (noting_ok heq).2
    rw [take_length] at htaken
    have htotal : total { g with inner, progress := now } = total g ++ buf := by
      change taken { g with inner } ++ held g = taken g ++ held g ++ buf
      rw [htaken, held_eq_nil.mpr hzero, append_nil, append_nil]
    exact
      { total := htotal
        passed := fun hp => .inl (hpassed.symm.trans hp)
        ceiling := rfl
        stallAfter := rfl
        bounded := .inr le_rfl
        clock := fun _ => .inl rfl
        silent := nofun }
  | case3 hzero written inner heq =>
    have hnil := held_eq_nil.mpr hzero
    obtain ⟨htaken, hpassed⟩ := taken_inner (noting_ok heq).2
    have hlaw : WriteLaw now (buf.take written ++ buf.drop written) g
        ((({ g with inner }.noteProgress now).hold now (buf.drop written)).endWrite now
          timerReady (buf.take written ++ buf.drop written)) :=
      law_hold hstall hceiling _ _ hnil hnil htaken hpassed rfl rfl
    rw [take_append_drop] at hlaw
    exact hlaw
  | case4 hzero code inner heq =>
    have hnotes := noting_not_ok heq nofun
    exact (moves_inner (by rw [hnotes]; rfl) (by rw [hnotes]; rfl)).callLaw buf.length
  | case5 hzero inner heq =>
    have hnil := held_eq_nil.mpr hzero
    have hnotes := noting_not_ok heq nofun
    have htaken : taken { g with inner } = taken g ++ [] := by
      rw [append_nil]
      exact congrArg (List.flatMap bytes) hnotes
    have hpassed : passed { g with inner } = passed g :=
      congrArg (List.any · passes) hnotes
    exact law_hold (h := { g with inner }) hstall hceiling [] buf hnil hnil htaken hpassed rfl rfl
  | case6 _ cause g' heq =>
    have hdrains := drain_drains writer now g
    rw [heq] at hdrains
    have hquiet : stalled (.error cause : Poll IoError Nat) = false := by
      rw [← hdrains.unstalled]
      cases cause <;> rfl
    rw [WriteLaw, hquiet]
    exact hdrains.moves.callLaw buf.length
  | case7 _ g' heq | case8 _ g' heq =>
    have hdrains := drain_drains writer now g
    rw [heq] at hdrains
    exact law_endWriteBehind hstall hdrains.moves buf

end Calls

/-! ## Runs -/

/-- The call from which a stall is counted: something is held since, and nothing was
accepted after it. -/
def Since (time : Nat) (events : List Event) : Prop :=
  ∃ between start before, events = between ++ start :: before ∧ start.time = time ∧
    start.held ≠ 0 ∧ ∀ x ∈ between, x.accepted = [] ∧ x.held ≠ 0

structure Sound (w : World σ) : Prop where
  faithful : Faithful w
  ceiling : 0 < w.guard.ceiling
  stallAfter : w.guard.stallAfter = stallTimeout
  since : held w.guard ≠ [] → Since w.guard.progress w.events

theorem sound_initial (h : w.Initial) : Sound w := by
  obtain ⟨inner, relayBufferBytes, haccepts, hw⟩ := h
  have hceiling : 0 < ceilingFor relayBufferBytes := by
    rw [acceptsRelayBuffer, Bool.and_eq_true, decide_eq_true_iff] at haccepts
    rw [ceilingFor, usizeMax]
    omega
  rw [hw]
  refine
    { faithful :=
        { queue := rfl
          passes := nofun
          bounded := Nat.lt_of_lt_of_le hceiling (Nat.le_add_right _ _)
          stalls := fun later e earlier heq => ?_ }
      ceiling := hceiling
      stallAfter := rfl
      since := fun hne => absurd rfl hne }
  cases later <;> cases heq

/-- One call more. -/
theorem sound_call {w' : World σ} {e : Event} (h : Sound w) (hevents : w'.events = e :: w.events)
    (hlaw : CallLaw e.time e.offered e.acknowledged e.stalled w.fresh w'.guard)
    (htouches : e.touches = w'.guard.inner.2) (hheld : e.held = w'.guard.backlog) : Sound w' := by
  have haccepted : e.accepted = taken w'.guard := by rw [Event.accepted, htouches, taken]
  have hheld' : e.held ≠ 0 ↔ held w'.guard ≠ [] := by rw [hheld, Ne, Ne, held_eq_nil]
  have hqueue := h.faithful.queue
  refine
    { faithful :=
        { queue := ?_
          passes := ?_
          bounded := ?_
          stalls := ?_ }
      ceiling := hlaw.ceiling ▸ h.ceiling
      stallAfter := hlaw.stallAfter.trans h.stallAfter
      since := fun hne => ?_ }
  · change w.accepted ++ held w.guard = w.acknowledged at hqueue
    change w'.events.reverse.flatMap Event.accepted ++ held w'.guard =
      w'.events.reverse.flatMap Event.acknowledged
    rw [hevents, reverse_cons, flatMap_append, flatMap_append,
      flatMap_singleton, flatMap_singleton, haccepted, append_assoc]
    calc w.accepted ++ (taken w'.guard ++ held w'.guard)
        = w.accepted ++ (held w.guard ++ e.acknowledged) := congrArg (w.accepted ++ ·) hlaw.total
      _ = w.acknowledged ++ e.acknowledged := by rw [← append_assoc, hqueue]
  · intro x hx hpassed
    rw [hevents] at hx
    rcases mem_cons.mp hx with rfl | hx
    · rw [Event.passed, htouches] at hpassed
      rcases hlaw.passed hpassed with hbefore | hnil
      · cases hbefore
      · rw [hheld, held_eq_nil.mp hnil]
    · exact h.faithful.passes x hx hpassed
  · have hbounded := h.faithful.bounded
    have hceiling := hlaw.ceiling
    have hlaw := hlaw.bounded
    rw [length_held, length_held] at hlaw
    rw [World.largestWrite, hevents]
    change w'.guard.backlog < w'.guard.ceiling + max e.offered w.largestWrite
    change w'.guard.ceiling = w.guard.ceiling at hceiling
    change w'.guard.backlog < w.guard.ceiling + e.offered ∨
      w'.guard.backlog ≤ w.guard.backlog at hlaw
    omega
  · intro later x earlier heq hstalled
    rw [hevents] at heq
    cases later with
    | nil =>
      cases heq
      obtain ⟨hne, htaken, hbefore, hlong⟩ := hlaw.silent hstalled
      obtain ⟨between, start, before, hsplit, htime, hstart, hquiet⟩ := h.since hbefore
      refine ⟨between, start, before, hsplit, htime ▸ hlong, hstart, fun y hy => ?_⟩
      rcases mem_cons.mp hy with rfl | hy
      · exact ⟨haccepted.trans htaken, hheld'.mpr hne⟩
      · exact hquiet y hy
    | cons first later =>
      obtain ⟨_, hsplit⟩ := List.cons.inj heq
      exact h.faithful.stalls later x earlier hsplit hstalled
  · rcases hlaw.clock hne with hnow | ⟨hsame, htaken, hbefore⟩
    · exact ⟨[], e, w.events, hevents, hnow.symm, hheld'.mpr hne, nofun⟩
    · obtain ⟨between, start, before, hsplit, htime, hstart, hquiet⟩ := h.since hbefore
      refine ⟨e :: between, start, before, hevents.trans (congrArg (e :: ·) hsplit),
        htime.trans hsame.symm, hstart, fun y hy => ?_⟩
      rcases mem_cons.mp hy with rfl | hy
      · exact ⟨haccepted.trans htaken, hheld'.mpr hne⟩
      · exact hquiet y hy

theorem sound_step (writer : Writer σ) (h : Sound w) (action : Action) :
    Sound (w.step writer action) := by
  cases action with
  | write elapsed timerReady buf =>
    exact sound_call h rfl (law_pollWrite (g := w.fresh) h.stallAfter h.ceiling buf) rfl rfl
  | flush =>
    refine sound_call h rfl (law_pollThrough (g := w.fresh) h.stallAfter fun s => ?_) rfl rfl
    simp [noting, bytes]
  | shutdown =>
    refine sound_call h rfl (law_pollThrough (g := w.fresh) h.stallAfter fun s => ?_) rfl rfl
    simp [noting, bytes]

/-- The guard is a faithful bounded queue before any writer, and fails for a stall only
behind a writer that has been silent for the timeout. -/
theorem backlog_faithful (writer : Writer σ) {w : World σ}
    (h : Reach World.Initial (World.step writer) anyAction w) : Faithful w :=
  (h.invariant (fun _ => sound_initial) fun _ action hs _ => sound_step writer hs action).faithful

/-- A writer that takes two bytes and then none. -/
def stuck : Writer Nat where
  pollWrite
    | 0, buf => (.ok (min 2 buf.length), 1)
    | n, _ => (.pending, n)
  pollFlush n := (.ok (), n)
  pollShutdown n := (.ok (), n)
  count_le := by
    intro s s' buf written h
    split at h
    · cases h
      exact min_le_right _ _
    · cases h

/-- Two writes to it and, a timeout later, a flush that fails. -/
def stuckRun : World Nat :=
  [.write 0 false [1, 2, 3], .write 5 false [4], .flush stallTimeout true].foldl (World.step stuck)
    { guard := .new (0, []) (ceilingFor 16384) 0, now := 0, events := [] }

theorem stuck_faithful : stuckRun.events.map Event.stalled = [true, false, false] ∧
    Faithful stuckRun :=
  ⟨by decide +kernel,
    backlog_faithful stuck (Reach.run (.start ⟨0, 16384, rfl, rfl⟩) (admissible_any _ _ _))⟩

end Foxcore.Proofs.Backlog
