import Foxcore.Lib.Calls
import Foxcore.Spec.Continuity

/-!
# The gate stays closed

The lanes interruptions affect are nested, so the lanes that are held are those of
the question that is open (`GateFits.held`), and a question that does not cover an
interruption is replaced by a wider one. A question is always the newest hold, and
a hold that was completed or replaced stays so (`Grows`). Whoever is answered is
answered by the one who completed or replaced the hold, after that was done.
-/

namespace Foxcore.Proofs.Continuity

open Lib Ref.Continuity Spec.Continuity List ContinuityGate World Option
open Ref.Traffic (FlowLane wrappingAdd)

variable {holds before after : List Confirmation} {i j hold : Nat} {f : Confirmation → Confirmation}
  {c : Confirmation} {g : ContinuityGate} {p : Pending} {call : Call} {w : World} {lane : FlowLane}
variable {current next interruption : ContinuityInterruption}

/-! ## Lanes -/

/-- Of two interruptions one affects what the other does. -/
theorem lanes_of_uncovered (h : affectedLanes current &&& affectedLanes next ≠ affectedLanes next) :
    affectedLanes current ||| affectedLanes next = affectedLanes next ∧ Wider next current := by
  unfold Wider
  revert h
  cases current <;> cases next <;> decide

theorem lanes_of_covered (h : affectedLanes current &&& affectedLanes next = affectedLanes next) :
    affectedLanes current ||| affectedLanes next = affectedLanes current := by
  revert h
  cases current <;> cases next <;> decide

theorem lanesOf_append (interruptions : List ContinuityInterruption)
    (interruption : ContinuityInterruption) :
    lanesOf (interruptions ++ [interruption]) =
      lanesOf interruptions ||| affectedLanes interruption := by
  rw [lanesOf, foldl_append]
  rfl

/-! ## Holds -/

/-- Holds are added, and what became of one is not changed. -/
def Grows (before after : List Confirmation) : Prop :=
  ∀ ⦃i : Nat⦄ ⦃c : Confirmation⦄, before[i]? = some c → ∃ c', after[i]? = some c' ∧
    c'.interruption = c.interruption ∧ c'.token = c.token ∧ (c.fate ≠ .standing → c'.fate = c.fate)

theorem Grows.refl (holds : List Confirmation) : Grows holds holds :=
  fun _ _ h => ⟨_, h, rfl, rfl, fun _ => rfl⟩

theorem Grows.trans {a b c : List Confirmation} (hab : Grows a b) (hbc : Grows b c) :
    Grows a c := by
  intro i x hx
  obtain ⟨y, hy, hi, ht, hf⟩ := hab hx
  obtain ⟨z, hz, hi', ht', hf'⟩ := hbc hy
  refine ⟨z, hz, hi'.trans hi, ht'.trans ht, fun hne => ?_⟩
  have hfate := hf hne
  exact (hf' (hfate ▸ hne)).trans hfate

theorem Grows.append (holds : List Confirmation) (c : Confirmation) :
    Grows holds (holds ++ [c]) := by
  intro i x hx
  exact ⟨x, getElem?_concat_of_some hx, rfl, rfl, fun _ => rfl⟩

theorem getElem?_modify_some (h : (holds.modify j f)[i]? = some c) :
    ∃ c₀, holds[i]? = some c₀ ∧ c = if j = i then f c₀ else c₀ := by
  rw [getElem?_modify] at h
  obtain ⟨c₀, hc₀, rfl⟩ := map_eq_some_iff.mp h
  exact ⟨c₀, hc₀, rfl⟩

theorem Grows.modify
    (hf : ∀ c, holds[j]? = some c → (f c).interruption = c.interruption ∧ (f c).token = c.token ∧
      (c.fate ≠ .standing → (f c).fate = c.fate)) : Grows holds (holds.modify j f) := by
  intro i c hc
  refine ⟨if j = i then f c else c, ?_, ?_⟩
  · rw [getElem?_modify, hc]
    rfl
  · split
    · next h => exact hf c (h ▸ hc)
    · exact ⟨rfl, rfl, fun _ => rfl⟩

/-- A hold with this fate. -/
def Ended (holds : List Confirmation) (hold : Nat) (fate : Fate) : Prop :=
  ∃ c, holds[hold]? = some c ∧ c.fate = fate

theorem Ended.grows {fate : Fate} (h : Ended before hold fate) (hne : fate ≠ .standing)
    (hgrows : Grows before after) : Ended after hold fate := by
  obtain ⟨c, hc, rfl⟩ := h
  obtain ⟨c', hc', -, -, hfate⟩ := hgrows hc
  exact ⟨c', hc', hfate hne⟩

/-- It was replaced, and by a wider one. -/
def Outdone (holds : List Confirmation) (hold : Nat) : Prop :=
  ∃ c other wide, holds[hold]? = some c ∧ c.fate = .replaced other ∧ holds[other]? = some wide ∧
    Wider wide.interruption c.interruption

theorem Outdone.grows (h : Outdone before hold) (hgrows : Grows before after) :
    Outdone after hold := by
  obtain ⟨c, other, wide, hc, hfate, hwide, hwider⟩ := h
  obtain ⟨c', hc', hinterruption, -, hfate'⟩ := hgrows hc
  obtain ⟨wide', hwide', hinterruption', -⟩ := hgrows hwide
  refine ⟨c', other, wide', hc', (hfate' (by simp [hfate])).trans hfate, hwide', ?_⟩
  rwa [hinterruption, hinterruption']

/-! ## The gate -/

/-- The question that is open is about the newest hold, and its lanes are held. -/
structure OpenFits (g : ContinuityGate) (p : Pending) : Prop where
  newest : p.confirmation + 1 = g.confirmations.length
  held : g.held = affectedLanes p.interruption
  hold : ∃ c, g.confirmations[p.confirmation]? = some c ∧ c.interruption = p.interruption ∧
    c.token = p.token ∧ c.fate = .standing

structure GateFits (g : ContinuityGate) : Prop where
  next : g.nextToken = (g.confirmations.length + 1) % 2 ^ 64
  token : ∀ {i : Nat} {c : Confirmation}, g.confirmations[i]? = some c → c.token = i + 1
  asked : ∀ {p}, g.pending = some p → OpenFits g p
  released : g.pending = none → g.held = 0
  confirmed : ∀ {i : Nat} {c : Confirmation}, g.confirmations[i]? = some c →
    c.state = .confirmed → c.fate = .completed
  dismissed : ∀ {i : Nat} {c : Confirmation}, g.confirmations[i]? = some c →
    c.state = .dismissed → Outdone g.confirmations i

theorem gateFits_new (config : ContinuityConfig) : GateFits { config } :=
  ⟨rfl, nofun, nofun, fun _ => rfl, nofun, nofun⟩

theorem gateFits_emit (h : GateFits g) (event : CoreEvent) : GateFits (g.emit event) :=
  { h with asked := fun hp => { h.asked hp with } }

/-- Claiming and expiring change the question only in what is not about its hold. -/
theorem gateFits_pending (h : GateFits g) {p' : Pending} (hp : g.pending = some p)
    (hinterruption : p'.interruption = p.interruption) (htoken : p'.token = p.token)
    (hhold : p'.confirmation = p.confirmation) : GateFits { g with pending := some p' } := by
  refine ⟨h.next, h.token, ?_, nofun, h.confirmed, h.dismissed⟩
  rintro _ ⟨⟩
  obtain ⟨hnewest, hheld, hc⟩ := h.asked hp
  exact ⟨by rw [hhold]; exact hnewest, by rw [hinterruption]; exact hheld,
    by rw [hinterruption, htoken, hhold]; exact hc⟩

@[simp] theorem finish_config (g : ContinuityGate) (hold : Nat) (confirmed : Bool) :
    (g.finish hold confirmed).config = g.config := rfl

@[simp] theorem finish_pending (g : ContinuityGate) (hold : Nat) (confirmed : Bool) :
    (g.finish hold confirmed).pending = g.pending := rfl

@[simp] theorem finish_nextToken (g : ContinuityGate) (hold : Nat) (confirmed : Bool) :
    (g.finish hold confirmed).nextToken = g.nextToken := rfl

theorem finish_grows (g : ContinuityGate) (hold : Nat) (confirmed : Bool) :
    Grows g.confirmations (g.finish hold confirmed).confirmations := by
  refine Grows.modify fun c _ => ?_
  rw [Confirmation.finish]
  split <;> exact ⟨rfl, rfl, fun _ => rfl⟩

theorem gateFits_finish (h : GateFits g) {confirmed : Bool}
    (hcompleted : confirmed = true → Ended g.confirmations hold .completed)
    (houtdone : confirmed = false → Outdone g.confirmations hold) :
    GateFits (g.finish hold confirmed) := by
  have hgrows := finish_grows g hold confirmed
  have hlength : (g.finish hold confirmed).confirmations.length = g.confirmations.length :=
    length_modify ..
  have hget : ∀ {i : Nat} {c : Confirmation}, (g.finish hold confirmed).confirmations[i]? = some c →
      ∃ c₀, g.confirmations[i]? = some c₀ ∧ c.fate = c₀.fate ∧ c.token = c₀.token ∧
        (c.state = c₀.state ∨
          (hold = i ∧ c.state = if confirmed then .confirmed else .dismissed)) := by
    intro i c hc
    obtain ⟨c₀, hc₀, rfl⟩ := getElem?_modify_some hc
    grind [Confirmation.finish]
  obtain ⟨hnext, htoken, hasked, hreleased, hconfirmed, hdismissed⟩ := h
  refine ⟨by grind [finish_nextToken], by grind, ?_, hreleased, ?_, ?_⟩
  · intro p hp
    obtain ⟨hnewest, hheld, c, hc, hinterruption, htoken, hfate⟩ := hasked hp
    obtain ⟨c', hc', hinterruption', -, -⟩ := hgrows hc
    exact ⟨hlength ▸ hnewest, hheld, c', hc', by grind⟩
  · grind [Ended]
  · intro i c hc hstate
    obtain ⟨c₀, hc₀, -, -, hsame | ⟨rfl, hset⟩⟩ := hget hc
    · exact (hdismissed hc₀ (hsame.symm.trans hstate)).grows hgrows
    · exact (houtdone (by grind)).grows hgrows

/-- At most the fate of standing holds is decided. -/
structure Keeps (before after : List Confirmation) : Prop where
  grows : Grows before after
  length : after.length = before.length
  from_before : ∀ {i : Nat} {c : Confirmation}, after[i]? = some c → ∃ c₀, before[i]? = some c₀ ∧
    c.state = c₀.state ∧ c.token = c₀.token ∧ (c.fate = c₀.fate ∨ c₀.fate = .standing)

theorem Keeps.refl (holds : List Confirmation) : Keeps holds holds :=
  ⟨.refl holds, rfl, fun hc => ⟨_, hc, rfl, rfl, .inl rfl⟩⟩

theorem settle_keeps (h : GateFits g) (hp : g.pending = some p) (fate : Fate) :
    Keeps g.confirmations (g.settle p.confirmation fate) := by
  obtain ⟨-, -, c, hc, -, -, hstanding⟩ := h.asked hp
  refine ⟨Grows.modify fun c' hc' => ⟨rfl, rfl, fun hne => ?_⟩, length_modify .., ?_⟩
  · cases hc.symm.trans hc'
    exact absurd hstanding hne
  · intro i x hx
    obtain ⟨x₀, hx₀, rfl⟩ := getElem?_modify_some hx
    grind

theorem settle_ended (h : GateFits g) (hp : g.pending = some p) (fate : Fate) :
    ∃ c, (g.settle p.confirmation fate)[p.confirmation]? = some c ∧
      c.fate = fate ∧ c.interruption = p.interruption ∧ c.token = p.token := by
  obtain ⟨-, -, c, hc, hinterruption, htoken, -⟩ := h.asked hp
  refine ⟨{ c with fate }, ?_, rfl, hinterruption, htoken⟩
  rw [settle, getElem?_modify, hc]
  simp

/-- No answer is given before the fate of the hold is decided. -/
theorem Keeps.confirmed (hkeeps : Keeps g.confirmations after) (h : GateFits g)
    (hc : after[i]? = some c) (hstate : c.state = .confirmed) : c.fate = .completed := by
  obtain ⟨c₀, hc₀, hsame, -, hfate⟩ := hkeeps.from_before hc
  have hcompleted := h.confirmed hc₀ (hsame.symm.trans hstate)
  grind

theorem Keeps.dismissed (hkeeps : Keeps g.confirmations after) (h : GateFits g)
    (hc : after[i]? = some c) (hstate : c.state = .dismissed) : Outdone after i := by
  obtain ⟨c₀, hc₀, hsame, -, -⟩ := hkeeps.from_before hc
  exact (h.dismissed hc₀ (hsame.symm.trans hstate)).grows hkeeps.grows

theorem Keeps.token (hkeeps : Keeps g.confirmations after) (h : GateFits g)
    (hc : after[i]? = some c) : c.token = i + 1 := by
  obtain ⟨c₀, hc₀, -, htoken, -⟩ := hkeeps.from_before hc
  exact htoken.trans (h.token hc₀)

theorem gateFits_complete (h : GateFits g) (hp : g.pending = some p) :
    GateFits { g with
      pending := none, held := 0, confirmations := g.settle p.confirmation .completed } := by
  have hkeeps := settle_keeps h hp .completed
  refine ⟨?_, hkeeps.token h, nofun, fun _ => rfl, hkeeps.confirmed h, hkeeps.dismissed h⟩
  rw [hkeeps.length]
  exact h.next

theorem held_uncovered {lanes : Nat} (hp : g.pending = some p) (h : g.covering lanes = none) :
    g.held &&& lanes ≠ lanes := by
  rw [covering, hp] at h
  simpa using h

/-- What is on the list when a question is asked, but for the new hold. -/
def earlier (g : ContinuityGate) : List Confirmation :=
  match g.pending with
  | none => g.confirmations
  | some replaced => g.settle replaced.confirmation (.replaced g.confirmations.length)

theorem earlier_keeps (h : GateFits g) : Keeps g.confirmations (earlier g) := by
  rw [earlier]
  split
  · exact .refl _
  · next p hp => exact settle_keeps h hp _

theorem raise_grows (h : GateFits g) (config : ContinuityConfig)
    (interruption : ContinuityInterruption) (now : Nat) :
    Grows g.confirmations (g.raise config interruption now).confirmations :=
  (earlier_keeps h).grows.trans (.append ..)

/-- The question that was open is replaced by a wider one. -/
theorem raise_outdone (h : GateFits g) (hp : g.pending = some p) (config : ContinuityConfig)
    (interruption : ContinuityInterruption) (now : Nat)
    (hcovering : g.covering (affectedLanes interruption) = none) :
    Outdone (g.raise config interruption now).confirmations p.confirmation := by
  obtain ⟨c, hc, hfate, hinterruption, -⟩ :=
    settle_ended h hp (.replaced g.confirmations.length)
  have hlanes := held_uncovered hp hcovering
  rw [(h.asked hp).held] at hlanes
  have hkeeps := settle_keeps h hp (.replaced g.confirmations.length)
  have heq : (g.raise config interruption now).confirmations =
      g.settle p.confirmation (.replaced g.confirmations.length) ++
        [{ interruption, token := g.nextToken }] := by
    simp only [raise, hp]
  refine ⟨c, g.confirmations.length, { interruption, token := g.nextToken }, ?_, hfate, ?_, ?_⟩
  · rw [heq]
    exact getElem?_concat_of_some hc
  · rw [heq, getElem?_append_right (Nat.le_of_eq hkeeps.length), hkeeps.length, Nat.sub_self]
    rfl
  · rw [hinterruption]
    exact (lanes_of_uncovered hlanes).2

theorem gateFits_raise (h : GateFits g) (config : ContinuityConfig)
    (interruption : ContinuityInterruption) (now : Nat)
    (hcovering : g.covering (affectedLanes interruption) = none)
    (hfew : (g.raise config interruption now).confirmations.length < 2 ^ 64) :
    GateFits (g.raise config interruption now) := by
  have hkeeps := earlier_keeps h
  have heq : (g.raise config interruption now).confirmations =
      earlier g ++ [{ interruption, token := g.nextToken }] := rfl
  have hlength : (g.raise config interruption now).confirmations.length =
      g.confirmations.length + 1 := by
    rw [heq, length_append, hkeeps.length]
    rfl
  have htoken : g.nextToken = g.confirmations.length + 1 := by
    have := h.next
    omega
  -- a hold is the new one, or was there before
  have hget : ∀ {i : Nat} {c : Confirmation},
      (g.raise config interruption now).confirmations[i]? = some c →
      (earlier g)[i]? = some c ∨
        i = g.confirmations.length ∧ c = { interruption, token := g.nextToken } :=
    fun hc => hkeeps.length ▸ getElem?_concat_some hc
  refine ⟨?_, ?_, ?_, nofun, ?_, ?_⟩
  · show wrappingAdd g.nextToken 1 = _
    rw [hlength, htoken, wrappingAdd]
  · intro i c hc
    grind [hkeeps.token h (i := i) (c := c)]
  · rintro _ ⟨⟩
    refine ⟨hlength.symm, ?_, { interruption, token := g.nextToken }, ?_, rfl, rfl, rfl⟩
    · show g.held ||| affectedLanes interruption = affectedLanes interruption
      cases hp : g.pending with
      | none => rw [h.released hp, Nat.zero_or]
      | some =>
        have hlanes := held_uncovered hp hcovering
        rw [(h.asked hp).held] at hlanes ⊢
        exact (lanes_of_uncovered hlanes).1
    · rw [← hkeeps.length]
      exact getElem?_concat_length
  · intro i c hc hstate
    grind [hkeeps.confirmed h (i := i) (c := c)]
  · intro i c hc hstate
    obtain hc | ⟨rfl, rfl⟩ := hget hc
    · exact (hkeeps.dismissed h hc hstate).grows (.append ..)
    · cases hstate

/-! ## Calls -/

/-- Who is about to answer knows what became of the hold, and so does who has been
answered. -/
def CallFits (holds : List Confirmation) : Call → Prop
  | .announcing _ _ _ _ _ replaced => ∀ hold ∈ replaced, Outdone holds hold
  | .releasing hold => Ended holds hold .completed
  | .resolved hold true => Ended holds hold .completed
  | .resolved hold false => Outdone holds hold
  | _ => True

theorem CallFits.grows (h : CallFits before call) (hgrows : Grows before after) :
    CallFits after call := by
  cases call with
  | announcing => exact fun hold hhold => (h hold hhold).grows hgrows
  | releasing => exact Ended.grows h (by decide) hgrows
  | resolved hold answer =>
    cases answer with
    | true => exact Ended.grows h (by decide) hgrows
    | false => exact Outdone.grows h hgrows
  | _ => trivial

theorem returning_fits (holds : List Confirmation) (wait : Bool) (hold : Nat)
    (outcome : ContinuityOutcome) : CallFits holds (.returning wait hold outcome) := by
  cases wait <;> trivial

/-! ## The whole -/

structure Sound (w : World) : Prop where
  gate : GateFits w.gate
  mask : w.gate.held = lanesOf w.raised
  claimed : ∀ p ∈ w.gate.pending, p.confirming = true → p.token ∈ w.claimed
  completed : ∀ token ∈ w.completed, ∃ (i : Nat) (c : Confirmation),
    w.gate.confirmations[i]? = some c ∧ c.token = token ∧ c.fate = .completed
  once : w.completed.Nodup
  reported : ∀ token, reports w token ≤ 1
  unreported : ∀ token, w.gate.confirmations.length < token → reports w token = 0
  due : ∀ p ∈ w.gate.pending, p.deadline.isSome → reports w p.token = 0
  calls : ∀ {i : Nat} {call : Call}, w.calls[i]? = some call → CallFits w.gate.confirmations call

theorem sound_initial (h : w.Initial) : Sound w := by
  obtain ⟨⟨config, hgate⟩, hcalls, hraised, -, hcompleted⟩ := h
  constructor
  · rw [hgate]
    exact gateFits_new config
  · rw [hgate, hraised]
    rfl
  all_goals simp [hgate, hcalls, hcompleted, reports]

/-- A call goes on and nothing else happens. -/
theorem Sound.goTo (h : Sound w) (i : Nat) (hcall : CallFits w.gate.confirmations call) :
    Sound (w.goTo i call) := by
  refine ⟨h.gate, h.mask, h.claimed, h.completed, h.once, h.reported, h.unreported, h.due,
    fun hother => ?_⟩
  obtain ⟨-, rfl⟩ | ⟨-, hother⟩ := getElem?_set_some hother
  · exact hcall
  · exact h.calls hother

theorem Sound.start (h : Sound w) (hcall : CallFits w.gate.confirmations call) :
    Sound (w.start call) := by
  refine ⟨h.gate, h.mask, h.claimed, h.completed, h.once, h.reported, h.unreported, h.due, ?_⟩
  intro i other hi
  obtain hi | ⟨-, rfl⟩ := getElem?_concat_some hi
  · exact h.calls hi
  · exact hcall

theorem completed_grows {completed : List Nat}
    (h : ∀ token ∈ completed, ∃ (i : Nat) (c : Confirmation),
      before[i]? = some c ∧ c.token = token ∧ c.fate = .completed) (hgrows : Grows before after) :
    ∀ token ∈ completed, ∃ (i : Nat) (c : Confirmation),
      after[i]? = some c ∧ c.token = token ∧ c.fate = .completed := by
  intro token htoken
  obtain ⟨i, c, hc, rfl, hfate⟩ := h token htoken
  obtain ⟨c', hc', -, htoken', hfate'⟩ := hgrows hc
  exact ⟨i, c', hc', htoken', (hfate' (by simp [hfate])).trans hfate⟩

/-- Holds grow and the question stays as it is. -/
theorem Sound.grow (h : Sound w) {gate : ContinuityGate} (hgate : GateFits gate)
    (hheld : gate.held = w.gate.held) (hpending : gate.pending = w.gate.pending)
    (hgrows : Grows w.gate.confirmations gate.confirmations)
    (hlength : gate.confirmations.length = w.gate.confirmations.length)
    (hreports : ∀ token, reports { w with gate } token = reports w token) :
    Sound { w with gate } := by
  refine ⟨hgate, hheld.trans h.mask, hpending ▸ h.claimed, completed_grows h.completed hgrows,
    h.once, ?_, ?_, ?_, fun hi => (h.calls hi).grows hgrows⟩
  · simpa only [hreports] using h.reported
  · simpa only [hreports, hlength] using h.unreported
  · simpa only [hreports, hpending] using h.due

theorem Sound.setConfig (h : Sound w) (config : ContinuityConfig) :
    Sound { w with gate := w.gate.setConfig config } :=
  h.grow { h.gate with asked := fun hp => { h.gate.asked hp with } } rfl rfl (.refl _) rfl
    fun _ => rfl

theorem Sound.finish (h : Sound w) {confirmed : Bool}
    (hcompleted : confirmed = true → Ended w.gate.confirmations hold .completed)
    (houtdone : confirmed = false → Outdone w.gate.confirmations hold) :
    Sound { w with gate := w.gate.finish hold confirmed } :=
  h.grow (gateFits_finish h.gate hcompleted houtdone) rfl rfl (finish_grows ..)
    (length_modify ..) fun _ => rfl

theorem reports_emit (w : World) (event : CoreEvent) (token : Nat) :
    reports { w with gate := w.gate.emit event } token =
      reports w token + match event with
        | .confirmationExpired _ own => if own = token then 1 else 0
        | .confirmationRequired _ _ _ => 0 := by
  simp only [reports, emit]
  cases event <;> simp

theorem Sound.announce (h : Sound w) (interruption : ContinuityInterruption) (token : Nat)
    (expiresInMs : Option Nat) :
    Sound { w with gate := w.gate.emit (.confirmationRequired interruption token expiresInMs) } :=
  h.grow (gateFits_emit h.gate _) rfl rfl (.refl _) rfl fun token => reports_emit w _ token

/-- The question is claimed or its deadline taken away. -/
theorem Sound.expire (h : Sound w) (now : Nat) :
    Sound { w with gate := (w.gate.expire now).2 } := by
  fun_cases ContinuityGate.expire w.gate now with
  | case2 p hp hdue =>
    have hnone := h.due p hp (isSome_of_any hdue)
    have hfits : GateFits { w.gate with
        pending := some { p with deadline := none, expired := true } } :=
      gateFits_pending h.gate hp rfl rfl rfl
    have hreports : ∀ token, reports { w with
        gate := { w.gate with
          pending := some { p with deadline := none, expired := true } }.emit
            (.confirmationExpired p.interruption p.token) } token =
        reports w token + if p.token = token then 1 else 0 :=
      fun token => reports_emit { w with gate := { w.gate with
        pending := some { p with deadline := none, expired := true } } } _ token
    refine ⟨gateFits_emit hfits _, h.mask, ?_, h.completed, h.once, ?_, ?_, ?_, h.calls⟩
    · rintro _ ⟨⟩
      exact h.claimed p hp
    · intro token
      rw [hreports]
      grind [h.reported token]
    · intro token hlt
      obtain ⟨-, -, c, hc, -, htoken, -⟩ := h.gate.asked hp
      have := h.gate.token hc
      have := (List.getElem?_eq_some_iff.mp hc).1
      have hlt : w.gate.confirmations.length < token := hlt
      rw [hreports, h.unreported token hlt, if_neg (by omega)]
    · rintro _ ⟨⟩ hsome
      cases hsome
  | _ => exact h

theorem claimConfirmation_spec (g : ContinuityGate) (token : Nat) :
    ((g.claimConfirmation token).1 ≠ .confirmed ∧ (g.claimConfirmation token).2 = g) ∨
      ∃ p, g.pending = some p ∧ p.token = token ∧
        g.claimConfirmation token =
          (.confirmed, { g with pending := some { p with confirming := true } }) := by
  fun_cases claimConfirmation g token
  case case4 p hp htoken _ => exact .inr ⟨p, hp, not_not.mp htoken, rfl⟩
  all_goals exact .inl ⟨nofun, rfl⟩

theorem Sound.claim (h : Sound w) (token : Nat) : Sound (w.claim token).2 := by
  obtain ⟨hanswer, hgate⟩ | ⟨p, hp, rfl, heq⟩ := claimConfirmation_spec w.gate token
  · have hsame : (w.claim token).2 = w := by
      simp only [World.claim, hgate, if_neg hanswer]
    rwa [hsame]
  · have hfits : GateFits { w.gate with pending := some { p with confirming := true } } :=
      gateFits_pending h.gate hp rfl rfl rfl
    simp only [World.claim, heq]
    refine ⟨hfits, h.mask, ?_, h.completed, h.once, h.reported, h.unreported, ?_, h.calls⟩
    · rintro _ ⟨⟩ _
      exact mem_append_right _ (mem_singleton.mpr rfl)
    · rintro _ ⟨⟩
      exact h.due p hp

theorem completeConfirmation_spec (g : ContinuityGate) (token : Nat) :
    (∃ answer, g.completeConfirmation token = (answer, none, g)) ∨
      ∃ p, g.pending = some p ∧ p.token = token ∧ p.confirming = true ∧
        g.completeConfirmation token = (.confirmed, some p.confirmation,
          { g with pending := none, held := 0,
                   confirmations := g.settle p.confirmation .completed }) := by
  fun_cases completeConfirmation g token
  case case3 p hp hcurrent =>
    simp only [not_or, not_not, Bool.not_eq_false] at hcurrent
    exact .inr ⟨p, hp, hcurrent.1, hcurrent.2, rfl⟩
  all_goals exact .inl ⟨_, rfl⟩

theorem Sound.complete (h : Sound w) (i token : Nat) : Sound (w.complete i token) := by
  rw [World.complete]
  obtain ⟨answer, heq⟩ | ⟨p, hp, rfl, -, heq⟩ := completeConfirmation_spec w.gate token
  · rw [heq]
    exact h.goTo i trivial
  · rw [heq]
    have hkeeps := settle_keeps h.gate hp .completed
    obtain ⟨c, hc, hfate, -, htoken⟩ := settle_ended h.gate hp .completed
    refine Sound.goTo ?_ i ⟨c, hc, hfate⟩
    refine ⟨gateFits_complete h.gate hp, rfl, nofun, ?_, ?_, h.reported, ?_, nofun, ?_⟩
    · have hcompleted := completed_grows h.completed hkeeps.grows
      exact forall_mem_append.mpr ⟨hcompleted, by simpa using ⟨_, c, hc, htoken, hfate⟩⟩
    · -- a token names one hold, and that of the question was standing
      refine concat_eq_append ▸ h.once.concat fun hmem => ?_
      obtain ⟨j, c₁, hc₁, htoken₁, hfate₁⟩ := h.completed _ hmem
      obtain ⟨-, -, c₂, hc₂, -, htoken₂, hfate₂⟩ := h.gate.asked hp
      have hj : j = p.confirmation := by
        have := h.gate.token hc₁
        have := h.gate.token hc₂
        omega
      grind
    · intro other hlt
      exact h.unreported other (hkeeps.length ▸ hlt)
    · exact fun hi => (h.calls hi).grows hkeeps.grows

/-- An interruption that the open question covers. -/
theorem Sound.join (h : Sound w)
    (hcovering : w.gate.covering (affectedLanes interruption) = some p) :
    Sound { w with raised := w.raised ++ [interruption] } := by
  obtain ⟨hp, hlanes⟩ := filter_eq_some_iff.mp hcovering
  refine ⟨h.gate, ?_, h.claimed, h.completed, h.once, h.reported, h.unreported, h.due, h.calls⟩
  have hheld := (h.gate.asked hp).held
  rw [decide_eq_true_eq, hheld] at hlanes
  rw [lanesOf_append, ← h.mask, hheld, lanes_of_covered hlanes]

/-- An interruption that it does not cover, and so a new question. -/
theorem Sound.raise (h : Sound w) (config : ContinuityConfig) (now : Nat)
    (hcovering : w.gate.covering (affectedLanes interruption) = none)
    (hfew : (w.gate.raise config interruption now).confirmations.length < 2 ^ 64) :
    Sound { w with
      gate := w.gate.raise config interruption now, raised := w.raised ++ [interruption] } := by
  have hgrows := raise_grows h.gate config interruption now
  have hlength : (w.gate.raise config interruption now).confirmations.length =
      w.gate.confirmations.length + 1 := by
    show (earlier w.gate ++ [_]).length = _
    rw [length_append, (earlier_keeps h.gate).length]
    rfl
  refine ⟨gateFits_raise h.gate config interruption now hcovering hfew, ?_, ?_,
    completed_grows h.completed hgrows, h.once, h.reported, ?_, ?_,
    fun hi => (h.calls hi).grows hgrows⟩
  · show w.gate.held ||| affectedLanes interruption = lanesOf (w.raised ++ [interruption])
    rw [lanesOf_append, h.mask]
  · rintro _ ⟨⟩ hconfirming
    cases hconfirming
  · intro token hlt
    have hlt : (w.gate.raise config interruption now).confirmations.length < token := hlt
    exact h.unreported token (by omega)
  · rintro _ ⟨⟩ _
    refine h.unreported w.gate.nextToken ?_
    have := h.gate.next
    omega

theorem Sound.enter (h : Sound w) (i : Nat) (wait : Bool) (interruption : ContinuityInterruption)
    (config : ContinuityConfig) (now : Nat)
    (hfew : (w.enter i wait interruption config now).gate.confirmations.length < 2 ^ 64) :
    Sound (w.enter i wait interruption config now) := by
  cases hcovering : w.gate.covering (affectedLanes interruption) with
  | some =>
    simp only [World.enter, hcovering] at hfew ⊢
    exact (h.join hcovering).goTo i (returning_fits ..)
  | none =>
    simp only [World.enter, hcovering] at hfew ⊢
    refine (h.raise config now hcovering hfew).goTo i ?_
    intro hold hhold
    obtain ⟨p, hp, rfl⟩ := map_eq_some_iff.mp hhold
    exact raise_outdone h.gate hp config interruption now hcovering

theorem Sound.stepCall (h : Sound w) (i now : Nat)
    (hfew : (w.stepCall i now).gate.confirmations.length < 2 ^ 64) : Sound (w.stepCall i now) := by
  revert hfew
  fun_cases World.stepCall w i now <;> intro hfew
  case case1 => exact h.goTo i (by split <;> trivial)
  case case3 => exact h.enter i _ _ _ now hfew
  case case4 replaced hi _ =>
    cases replaced with
    | none => exact (h.announce ..).goTo i (returning_fits ..)
    | some replaced =>
      have hfinish : Sound { w with gate := w.gate.finish replaced false } :=
        h.finish nofun fun _ => h.calls hi replaced rfl
      exact (hfinish.announce ..).goTo i (returning_fits ..)
  case case5 hstate =>
    obtain ⟨c, hc, hstate⟩ := map_eq_some_iff.mp hstate
    exact h.goTo i ⟨c, hc, h.gate.confirmed hc hstate⟩
  case case6 hstate =>
    obtain ⟨c, hc, hstate⟩ := map_eq_some_iff.mp hstate
    exact h.goTo i (h.gate.dismissed hc hstate)
  case case9 token hi answer w' hclaim =>
    have hsound := h.claim token
    rw [hclaim] at hsound
    exact hsound.goTo i (by split <;> trivial)
  case case10 => exact h.complete i _
  case case11 hold hi =>
    have hfinish : Sound { w with gate := w.gate.finish hold true } :=
      h.finish (fun _ => h.calls hi) nofun
    exact hfinish.goTo i trivial
  case case2 => exact h.goTo i trivial
  all_goals exact h

theorem sound_apply (h : Sound w) (action : World.Action) (hfew : w.Few action) :
    Sound (w.apply action) := by
  cases action with
  | setConfig config => exact h.setConfig config
  | interrupt interruption | permit interruption => exact h.start trivial
  | claimConfirmation token => exact h.claim token
  | completeConfirmation token | confirm token => exact h.start trivial
  | expire now => exact h.expire now
  | step i now => exact h.stepCall i now hfew

/-! ## What follows -/

theorem increasing_of_sound (h : Sound w) : (tokens w).Pairwise (· < ·) := by
  rw [tokens, pairwise_map, pairwise_iff_getElem]
  intro i j hi hj hlt
  rw [h.gate.token (getElem?_eq_getElem hi), h.gate.token (getElem?_eq_getElem hj)]
  omega

theorem asked_iff_held (h : Sound w) : w.gate.pending.isSome ↔ ∃ lane, w.gate.isHeld lane := by
  cases hp : w.gate.pending with
  | none => simp [isHeld, h.gate.released hp]
  | some p =>
    refine ⟨fun _ => ⟨.vpn, ?_⟩, fun _ => rfl⟩
    simp only [isHeld, (h.gate.asked hp).held, decide_eq_true_eq]
    cases p.interruption <;> decide

theorem isHeld_iff (g : ContinuityGate) (lane : FlowLane) :
    g.isHeld lane ↔ g.held &&& laneBit lane ≠ 0 := decide_eq_true_iff

theorem isHeld_raise (config : ContinuityConfig) (interruption : ContinuityInterruption) (now : Nat)
    (h : g.isHeld lane) : (g.raise config interruption now).isHeld lane := by
  rw [isHeld_iff] at h ⊢
  show (g.held ||| affectedLanes interruption) &&& laneBit lane ≠ 0
  rw [Nat.and_or_distrib_right]
  exact fun hzero => h (Nat.or_eq_zero_iff.mp hzero).1

theorem claim_held (w : World) (token : Nat) : (w.claim token).2.gate.held = w.gate.held := by
  obtain ⟨-, hgate⟩ | ⟨p, -, -, heq⟩ := claimConfirmation_spec w.gate token
  · simp only [claim, hgate]
  · simp only [claim, heq]

/-- A call takes no lane away unless it completes a confirmation. -/
theorem isHeld_stepCall {now : Nat} (hcall : ∀ token, w.calls[i]? ≠ some (.completing token))
    (h : w.gate.isHeld lane) : (w.stepCall i now).gate.isHeld lane := by
  rw [stepCall]
  split
  · split <;> exact h
  · next interruption config hi =>
    rw [enter]
    split
    · exact h
    · exact isHeld_raise config interruption now h
  · split <;> exact h
  · split <;> exact h
  · next token hi =>
    show (w.claim token).2.gate.isHeld lane
    rwa [isHeld_iff, claim_held, ← isHeld_iff]
  · next token hi => exact absurd hi (hcall token)
  all_goals exact h

/-- A confirmation that takes lanes away completes the newest question. -/
theorem newest_of_complete {token : Nat} (h : Sound w) (hheld : w.gate.isHeld lane)
    (hfree : ¬ (w.complete i token).gate.isHeld lane) :
    (tokens w).getLast? = some token ∧ token ∈ w.claimed := by
  rw [complete] at hfree
  obtain ⟨answer, heq⟩ | ⟨p, hp, rfl, hconfirming, -⟩ := completeConfirmation_spec w.gate token
  · rw [heq] at hfree
    exact absurd hheld hfree
  · obtain ⟨hnewest, -, c, hc, -, htoken, -⟩ := h.gate.asked hp
    refine ⟨?_, h.claimed p hp hconfirming⟩
    rw [tokens, getLast?_map, getLast?_eq_getElem?, ← hnewest, Nat.add_sub_cancel, hc]
    exact congrArg some htoken

theorem released_of_sound (h : Sound w) (action : World.Action) (lane : FlowLane)
    (hheld : w.gate.isHeld lane) (hfree : ¬ (w.apply action).gate.isHeld lane) :
    ∃ i now token, action = .step i now ∧ w.calls[i]? = some (.completing token) ∧
      (tokens w).getLast? = some token ∧ token ∈ w.claimed := by
  cases action with
  | claimConfirmation token =>
    refine absurd ?_ hfree
    show (w.claim token).2.gate.isHeld lane
    rwa [isHeld_iff, claim_held, ← isHeld_iff]
  | expire =>
    refine absurd ?_ hfree
    simp only [apply, expire]
    split
    · exact hheld
    · split <;> exact hheld
  | step i now =>
    by_cases hcall : ∃ token, w.calls[i]? = some (.completing token)
    · obtain ⟨token, hi⟩ := hcall
      simp only [apply, stepCall, hi] at hfree
      exact ⟨i, now, token, rfl, hi, newest_of_complete h hheld hfree⟩
    · exact absurd (isHeld_stepCall (not_exists.mp hcall) hheld) hfree
  | _ => exact absurd hheld hfree

theorem failClosed_of_sound (h : Sound w) : FailClosed w where
  increasing := increasing_of_sound h
  asked := asked_iff_held h
  mask := h.mask
  released := released_of_sound h
  once := h.once
  reported := h.reported
  granted := fun _ _ hi => h.calls hi
  refused := fun _ _ hi => h.calls hi

/-- Whatever is called and however the calls interleave, as long as tokens are not
used up: lanes are held until the newest question is confirmed. -/
theorem continuity_fail_closed (w : World) (h : Reach World.Initial World.apply World.Few w) :
    FailClosed w :=
  failClosed_of_sound (h.invariant (fun _ => sound_initial) fun _ action hw hfew =>
    sound_apply hw action hfew)

namespace ContinuityExample

/-- Nothing is repaired silently. -/
def strict : ContinuityConfig where
  seamlessReconnect := false
  seamlessFailover := false
  seamlessNetworkSwitch := false
  splitTunnelOnVpnFailure := false
  confirmationTimeoutMs := 1000

def start : World := ⟨{ config := strict }, [], [], [], []⟩

/-- A session is lost and its reconnection confirmed. -/
def cycle (w : World) : List World.Action :=
  let call := w.calls.length
  let token := w.gate.nextToken
  [.interrupt .proxySession, .step call 0, .step call 0, .step call 0, .claimConfirmation token,
    .completeConfirmation token, .step (call + 1) 0, .step (call + 1) 0]

theorem map_token_modify (hf : ∀ c, (f c).token = c.token) :
    (holds.modify i f).map (·.token) = holds.map (·.token) := by
  refine ext_getElem? fun j => ?_
  rw [getElem?_map, getElem?_map, getElem?_modify]
  cases holds[j]? with
  | none => rfl
  | some c =>
    split
    · exact congrArg some (hf c)
    · rfl

theorem map_token_finish (g : ContinuityGate) (hold : Nat) (confirmed : Bool) :
    (g.finish hold confirmed).confirmations.map (·.token) = g.confirmations.map (·.token) :=
  map_token_modify fun c => by rw [Confirmation.finish]; split <;> rfl

theorem map_token_settle (g : ContinuityGate) (hold : Nat) (fate : Fate) :
    (g.settle hold fate).map (·.token) = g.confirmations.map (·.token) :=
  map_token_modify fun _ => rfl

theorem cycle_spec (hconfig : w.gate.config = strict) (hpending : w.gate.pending = none) :
    ((cycle w).foldl apply w).gate.config = strict ∧
      ((cycle w).foldl apply w).gate.pending = none ∧
      ((cycle w).foldl apply w).gate.nextToken = wrappingAdd w.gate.nextToken 1 ∧
      tokens ((cycle w).foldl World.apply w) = tokens w ++ [w.gate.nextToken] := by
  simp [cycle, World.apply, World.start, World.stepCall, World.goTo, hconfig, hpending, isPermitted,
    strict, World.enter, covering, raise, emit,
    World.claim, claimConfirmation, World.complete,
    completeConfirmation, tokens, map_token_finish, map_token_settle]

/-- As many sessions are lost as one likes. -/
theorem cycles (n : Nat) : ∃ w, Reach World.Initial World.apply anyAction w ∧
    w.gate.config = strict ∧ w.gate.pending = none ∧ w.gate.nextToken = (n + 1) % 2 ^ 64 ∧
    tokens w = (List.range n).map fun i => (i + 1) % 2 ^ 64 := by
  induction n with
  | zero => exact ⟨start, .start ⟨⟨strict, rfl⟩, rfl, rfl, rfl, rfl⟩, rfl, rfl, rfl, rfl⟩
  | succ n ih =>
    obtain ⟨w, hreach, hconfig, hpending, hnext, htokens⟩ := ih
    obtain ⟨hconfig', hpending', hnext', htokens'⟩ := cycle_spec hconfig hpending
    refine ⟨_, hreach.run (admissible_any _ w (cycle w)), hconfig', hpending', ?_, ?_⟩
    · rw [hnext', hnext, wrappingAdd, Nat.mod_add_mod]
    · rw [htokens', htokens, hnext, range_succ, map_append]
      rfl

/-- A session is lost while nothing is permitted. The network changes as well, and
that is confirmed. -/
def replaced : List World.Action :=
  [.permit .proxySession, .step 0 0, .step 0 0, .step 0 0, .interrupt .networkSwitch, .step 1 0,
    .step 1 0, .step 1 0, .confirm 2, .step 2 0, .step 2 0, .step 2 0, .step 0 0]

end ContinuityExample

open ContinuityExample in
theorem replaced_permit_fail_closed :
    FailClosed (replaced.foldl World.apply start) ∧
      (replaced.foldl World.apply start).calls[0]? = some (.resolved 0 false) :=
  ⟨continuity_fail_closed _
    (Reach.run (.start ⟨⟨strict, rfl⟩, rfl, rfl, rfl, rfl⟩) (by decide +kernel)), by decide +kernel⟩

open ContinuityExample in
/-- The last number of all is followed by zero. -/
theorem tokens_start_over :
    ∃ w, Reach World.Initial World.apply anyAction w ∧ ¬ FailClosed w := by
  obtain ⟨w, hreach, -, -, -, htokens⟩ := cycles (2 ^ 64)
  refine ⟨w, hreach, fun h => ?_⟩
  have hincreasing := h.increasing
  rw [htokens, pairwise_map, pairwise_iff_getElem] at hincreasing
  have hlt := hincreasing 0 (2 ^ 64 - 1) (by simp) (by simp) (by decide)
  rw [getElem_range, getElem_range] at hlt
  omega

end Foxcore.Proofs.Continuity
