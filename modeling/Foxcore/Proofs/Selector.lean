import Foxcore.Lib.Calls
import Foxcore.Spec.Selector

/-!
# Who may replace the active member

`Moves` says what a round can do to the selection and to what it knows of it: read
it, reserve, finish. Revisions only grow, so what a round has read is what the
group is at exactly if the two revisions agree, and a reservation is live exactly
if its revision is the group's. `Orderly` is what follows for all rounds together.
A selection that counts takes the revision two past every even one that was read
before it, which is one further than a reservation made from that reading gets.
-/

namespace Foxcore.Proofs.Selector

open Lib Ref.Selector Spec.Selector Failover World

variable {τ : Type}

variable {t : Turn} {offset active count selects i m : Nat} {g g' : Group}
  {r : SelectionReservation} {f : Failover τ} {round : Round τ} {w : World τ} {value : τ}

/-! ## Where a round may be -/

/-- It has read the selection and reserved nothing. -/
def Ready (t : Turn) : Prop := t.read = true ∧ t.reservation = none

/-- It was granted what it asked for, and it asked if it had to. -/
def Cleared (f : Failover τ) : Prop :=
  (f.asked = true → f.granted = true) ∧ (f.sunk = true → f.asked = true)

/-- At the first member nothing is reserved, at the others something is. -/
def Standing (f : Failover τ) (offset : Nat) : Prop :=
  if offset = 0 then Ready f.turn ∧ f.asked = false
  else f.turn.reservation.isSome ∧ Cleared f

theorem Standing.ready (h : Standing f offset) (h0 : offset = 0) : Ready f.turn := by
  rw [Standing, if_pos h0] at h
  exact h.1

def FailoverFits (f : Failover τ) : Prop :=
  match f.phase with
  | .begun => f.turn.reservation = none ∧ f.asked = false
  | .attempting offset => Standing f offset
  | .answered offset _ => Standing f offset
  | .reserving => Ready f.turn ∧ f.asked = false
  | .reserved => f.turn.reservation.isSome ∧ f.asked = false
  | .asking => f.turn.reservation.isSome ∧ f.asked = true
  | .confirming => f.turn.reservation.isSome ∧ Cleared f
  | .releasing outcome => ∀ value m, outcome ≠ .ok value m
  | .done _ => f.turn.reservation = none

def ProbeFits (count : Nat) (p : Probe) : Prop :=
  match p.phase with
  | .begun => p.turn.reservation = none
  | .measuring => Ready p.turn
  | .reserving winner => Ready p.turn ∧ winner < count
  | .reserved winner => p.turn.reservation.isSome ∧ winner < count
  | .asking winner => p.turn.reservation.isSome ∧ winner < count
  | .finishing winner => p.turn.reservation.isSome ∧ winner < count
  | .releasing => True
  | .done => p.turn.reservation = none

/-- What a group can have of a round. -/
def RoundFits (g : Group) : Round τ → Prop
  | .failover f => FailoverFits f ∧ (f.sunk = true → g.interruption = true)
  | .probe p => ProbeFits g.members.length p

theorem RoundFits.later (h : RoundFits g round) (hmembers : g'.members = g.members)
    (hsink : g.interruption = true → g'.interruption = true) : RoundFits g' round := by
  cases round with
  | failover => exact ⟨h.1, fun hsunk => hsink (h.2 hsunk)⟩
  | probe => rwa [RoundFits, hmembers]

/-! ## What a round can do -/

/-- One step of a round, as far as the selection goes. -/
inductive Moves (g : Group) (selects : Nat) (t : Turn) : Group → Turn → Prop where
  | stay : Moves g selects t g t
  | read : t.reservation = none →
      Moves g selects t g
        { active := g.active, revision := g.selectionRevision, read := true, readAt := selects }
  | reserve : Ready t → g.active = t.active → g.selectionRevision = t.revision →
      t.revision % 2 = 0 →
      Moves g selects t { g with selectionRevision := wrappingAdd t.revision 1 }
        { t with reservation := some ⟨t.active, wrappingAdd t.revision 1⟩ }
  | finish {r : SelectionReservation} (winner : Option Nat) : t.reservation = some r →
      (∀ m ∈ winner, m < g.members.length) →
      Moves g selects t (g.finishReservation r.active r.revision winner).2
        { t with reservation := none }

/-- A reservation is granted to the round that has read the current selection. -/
theorem moves_of_reserve (selects : Nat) (ht : Ready t)
    (h : g.reserve t.active t.revision = (some r, g')) :
    Moves g selects t g' { t with reservation := some r } := by
  rw [Group.reserve] at h
  split at h
  · cases h
  · next hne =>
    simp only [not_or, not_not] at hne
    cases h
    exact .reserve ht hne.1 hne.2.1 hne.2.2

theorem eq_of_reserve_none {revision : Nat} (h : g.reserve active revision = (none, g')) :
    g' = g := by
  rw [Group.reserve] at h
  split at h
  · exact (Prod.mk.inj h).2.symm
  · cases h

theorem next_turn (g : Group) (f : Failover τ) (offset : Nat) :
    (next g f offset).turn = f.turn := by
  rw [next]
  split <;> rfl

theorem leave_fits (f : Failover τ) {outcome : Outcome τ}
    (h : ∀ value m, outcome ≠ .ok value m) : FailoverFits (f.leave outcome) := by
  by_cases hr : f.turn.reservation.isSome
  · simpa only [FailoverFits, leave, if_pos hr] using h
  · simpa only [FailoverFits, leave, if_neg hr, Bool.not_eq_true,
      Option.isSome_eq_false_iff, Option.isNone_iff_eq_none] using hr

theorem next_fits (g : Group) (h : Standing f offset) :
    FailoverFits (next g f offset) := by
  rw [next]
  split
  · by_cases h0 : offset = 0
    · simpa only [FailoverFits, if_pos h0, Standing] using h
    · simpa only [FailoverFits, if_neg h0, Standing, Cleared, Nat.add_one_ne_zero, if_false]
        using h
  · exact leave_fits f (nofun)

theorem failover_moves (selects : Nat) (input : Input τ) (hfits : FailoverFits f)
    (hmember : g.active < g.members.length) :
    Moves g selects f.turn (f.step g selects input).1 (f.step g selects input).2.turn := by
  fun_cases step g selects f input
  case case1 hphase _ _ hread _ _ | case2 hphase _ _ hread _ _ =>
    rw [FailoverFits, hphase] at hfits
    cases hread
    dsimp +zetaDelta only
    rw [Nat.mod_eq_of_lt hmember]
    exact .read hfits.1
  case case4 => simpa only [next_turn] using Moves.stay
  case case5 hreserve => simpa only [eq_of_reserve_none hreserve] using Moves.stay
  case case6 hphase _ _ hreserve =>
    rw [FailoverFits, hphase] at hfits
    exact moves_of_reserve selects hfits.1 hreserve
  case case14 index offset _ _ _ r hr _ _ hfinish =>
    have hlt : ∀ m ∈ some (index offset), m < g.members.length := by
      rintro _ ⟨⟩
      exact Nat.mod_lt _ (Nat.zero_lt_of_lt hmember)
    have hmoves : Moves g selects f.turn _ _ := .finish (some (index offset)) hr hlt
    simpa only [hfinish] using hmoves
  case case18 hr => exact .finish none hr (nofun)
  all_goals exact .stay

theorem failover_sunk (selects : Nat) (input : Input τ)
    (hsink : f.sunk = true → g.interruption = true) :
    (f.step g selects input).2.sunk = true → g.interruption = true := by
  fun_cases step g selects f input
  case case4 =>
    rw [next]
    split <;> exact hsink
  case case6 => exact id
  all_goals exact hsink

theorem failover_fits (selects : Nat) (input : Input τ) (hfits : FailoverFits f)
    (hsink : f.sunk = true → g.interruption = true) :
    FailoverFits (f.step g selects input).2 := by
  have hat : ∀ {phase : Phase τ}, f.phase = phase → FailoverFits { f with phase } := by
    rintro _ rfl
    exact hfits
  fun_cases step g selects f input
  case case1 | case14 | case18 => exact rfl
  case case2 hphase _ _ _ _ _ => exact ⟨⟨rfl, rfl⟩, (hat hphase).2⟩
  case case3 hphase _ _ | case11 hphase _ => exact (hat hphase :)
  case case4 hphase _ _ => exact next_fits g (hat hphase)
  case case5 hphase _ _ => exact (hat hphase).1.2
  case case6 hphase _ _ _ => exact ⟨rfl, (hat hphase).2⟩
  case case7 hphase _ => exact ⟨(hat hphase).1, rfl⟩
  case case8 hphase hbare =>
    obtain ⟨hr, hasked⟩ := hat hphase
    exact ⟨hr, fun h => absurd (hasked.symm.trans h) (nofun), fun h => absurd (hsink h) hbare⟩
  case case9 hphase =>
    obtain ⟨hr, hasked⟩ := hat hphase
    exact ⟨hr, fun _ => rfl, fun _ => hasked⟩
  case case13 hr | case17 hr => exact hr
  case case15 hphase hoffset _ | case16 hphase hoffset _ =>
    exact ((hat hphase :).ready (not_not.mp hoffset)).2
  all_goals first
    | exact leave_fits f (nofun)
    | exact hfits

theorem best_lt {latencies : List (Option Nat)} {best : Nat × Nat}
    (h : Probe.best latencies count = some best) : best.1 < count := by
  have hfold : ∀ best ∈ Probe.best latencies count, best.1 < count := by
    refine List.foldlRecOn (motive := fun found => ∀ best ∈ found, best.1 < count) (b := none) _
      (Probe.better latencies) (by simp) ?_
    intro current hcurrent index hindex
    rw [Probe.better]
    split
    · exact hcurrent
    · split
      · rintro _ ⟨⟩
        exact List.mem_range.mp hindex
      · exact hcurrent
  exact hfold best h

theorem pickWinner_lt {latencies : List (Option Nat)} {tolerance winner : Nat}
    {activeLatency : Option Nat}
    (h : pickWinner active activeLatency (Probe.best latencies count) tolerance = some winner) :
    winner < count := by
  cases hbest : Probe.best latencies count with
  | none =>
    rw [hbest] at h
    cases h
  | some =>
    have hlt := best_lt hbest
    simp only [pickWinner] at h
    grind

theorem probe_leave_fits (count : Nat) (p : Probe) : ProbeFits count p.leave := by
  by_cases hr : p.turn.reservation.isSome
  · simp only [ProbeFits, Probe.leave, if_pos hr]
  · simpa only [ProbeFits, Probe.leave, if_neg hr, Bool.not_eq_true, Option.isSome_eq_false_iff,
      Option.isNone_iff_eq_none] using hr

theorem probe_moves {p : Probe} (selects : Nat) (input : Input τ)
    (hfits : ProbeFits g.members.length p) :
    Moves g selects p.turn (p.step g selects input).1 (p.step g selects input).2.turn := by
  fun_cases Probe.step g selects p input
  case case1 hphase _ _ hread _ =>
    rw [ProbeFits, hphase] at hfits
    cases hread
    exact .read hfits
  case case4 hreserve => simpa only [eq_of_reserve_none hreserve] using Moves.stay
  case case5 hphase _ _ hreserve =>
    rw [ProbeFits, hphase] at hfits
    exact moves_of_reserve selects hfits.1 hreserve
  case case10 winner hphase r hr =>
    rw [ProbeFits, hphase] at hfits
    exact .finish (some winner) hr (by rintro _ ⟨⟩; exact hfits.2)
  case case12 hr => exact .finish none hr (nofun)
  all_goals exact .stay

theorem probe_fits {p : Probe} (selects : Nat) (input : Input τ)
    (hfits : ProbeFits g.members.length p) :
    ProbeFits g.members.length (p.step g selects input).2 := by
  have hat : ∀ {phase : ProbePhase}, p.phase = phase →
      ProbeFits g.members.length { p with phase } := by
    rintro _ rfl
    exact hfits
  fun_cases Probe.step g selects p input
  case case1 revision _ turn =>
    by_cases hodd : revision % 2 ≠ 0
    · simp only [ProbeFits, if_pos hodd, turn]
    · simp only [ProbeFits, if_neg hodd, Ready, turn, and_self]
  case case2 hphase _ _ _ _ => exact (hat hphase).2
  case case3 hphase _ _ _ _ hwinner => exact ⟨hat hphase, pickWinner_lt hwinner⟩
  case case4 hphase _ _ => exact (hat hphase).1.2
  case case5 hphase _ _ _ => exact ⟨rfl, (hat hphase).2⟩
  case case6 hphase =>
    by_cases hsink : g.interruption = true
    · simpa only [ProbeFits, if_pos hsink] using (hat hphase :)
    · simpa only [ProbeFits, if_neg hsink] using (hat hphase :)
  case case7 hphase => exact (hat hphase :)
  case case9 hr | case11 hr => exact hr
  case case10 | case12 => exact rfl
  all_goals first
    | exact probe_leave_fits g.members.length p
    | exact hfits

theorem round_moves (selects : Nat) (input : Input τ) (hfits : RoundFits g round)
    (hmember : g.active < g.members.length) :
    Moves g selects round.turn (round.step g selects input).1
      (round.step g selects input).2.turn := by
  cases round with
  | failover => exact failover_moves selects input hfits.1 hmember
  | probe => exact probe_moves selects input hfits

theorem round_fits (selects : Nat) (input : Input τ) (hfits : RoundFits g round) :
    RoundFits g (round.step g selects input).2 := by
  cases round with
  | failover =>
    exact ⟨failover_fits selects input hfits.1 hfits.2, failover_sunk selects input hfits.2⟩
  | probe => exact probe_fits selects input hfits

/-! ## What a round knows -/

/-- What a round has read is behind the group or as the group is. What it has
reserved comes right after what it has read. -/
structure TurnFits (g : Group) (selects : Nat) (t : Turn) : Prop where
  member : t.read = true → t.active < g.members.length
  behind : t.read = true → t.revision ≤ g.selectionRevision
  current : t.read = true → t.revision = g.selectionRevision → t.active = g.active
  early : t.read = true → t.readAt ≤ selects
  outdated : t.read = true → t.revision % 2 = 0 → t.readAt < selects →
    t.revision + 2 ≤ g.selectionRevision
  reserved : ∀ r ∈ t.reservation, t.read = true ∧ t.revision % 2 = 0 ∧
    r = ⟨t.active, t.revision + 1⟩ ∧ r.revision ≤ g.selectionRevision ∧
    (r.revision = g.selectionRevision → r.active = g.active)

/-- The group is as it was, or it is a later one. -/
def Later (g g' : Group) : Prop :=
  g'.members = g.members ∧
    ((g'.selectionRevision = g.selectionRevision ∧ g'.active = g.active) ∨
      g.selectionRevision < g'.selectionRevision)

theorem TurnFits.later (h : TurnFits g selects t) (hg : Later g g') : TurnFits g' selects t := by
  obtain ⟨hmembers, hlater⟩ := hg
  obtain ⟨hmember, hbehind, hcurrent, hearly, houtdated, hreserved⟩ := h
  constructor <;> grind

theorem TurnFits.released (h : TurnFits g selects t) :
    TurnFits g selects { t with reservation := none } :=
  ⟨h.member, h.behind, h.current, h.early, h.outdated, nofun⟩

/-- A reservation can be finished exactly while its revision is the group's. -/
theorem finishReservation_eq (h : TurnFits g selects t) (hr : t.reservation = some r)
    (winner : Option Nat) :
    g.finishReservation r.active r.revision winner =
      if r.revision = g.selectionRevision then
        (true, { g with
          active := winner.getD g.active
          selectionRevision := wrappingAdd g.selectionRevision 1 })
      else (false, g) := by
  have hreserved := h.reserved r hr
  grind [Group.finishReservation]

/-! ## Revisions are not used up -/

/-- Every change that was begun takes two. -/
def Counted (g : Group) (changes : Nat) : Prop :=
  g.selectionRevision + g.selectionRevision % 2 ≤ 2 * changes

theorem commit_even {k : Nat} (hcounted : Counted w.group w.changes)
    (heven : w.group.selectionRevision % 2 = 0) (hk : k = 1 ∨ k = 2)
    (hg : g.selectionRevision = wrappingAdd w.group.selectionRevision k)
    (hfew : (w.commit g).changes < 2 ^ 63) :
    g.selectionRevision = w.group.selectionRevision + k ∧ Counted g (w.commit g).changes := by
  simp only [Counted, wrappingAdd, commit] at *
  have hne : g.selectionRevision ≠ w.group.selectionRevision := by omega
  rw [if_pos ⟨heven, hne⟩] at hfew ⊢
  omega

theorem commit_odd (hcounted : Counted w.group w.changes) (hodd : w.group.selectionRevision % 2 = 1)
    (hg : g.selectionRevision = wrappingAdd w.group.selectionRevision 1)
    (hfew : (w.commit g).changes < 2 ^ 63) :
    g.selectionRevision = w.group.selectionRevision + 1 ∧ Counted g (w.commit g).changes := by
  simp only [Counted, wrappingAdd, commit] at *
  omega

theorem commit_same (hcounted : Counted w.group w.changes)
    (hg : g.selectionRevision = w.group.selectionRevision) : Counted g (w.commit g).changes := by
  simp only [Counted, commit] at *
  omega

/-! ## All rounds together -/

structure Orderly (w : World τ) : Prop where
  member : w.group.active < w.group.members.length
  counted : Counted w.group w.changes
  fits : ∀ {i : Nat} {round : Round τ}, w.rounds[i]? = some round → RoundFits w.group round
  turns : ∀ {i : Nat} {round : Round τ}, w.rounds[i]? = some round →
    TurnFits w.group w.selects round.turn
  apart : ∀ {i j : Nat} {a b : Round τ} {r r' : SelectionReservation},
    w.rounds[i]? = some a → w.rounds[j]? = some b → a.turn.reservation = some r →
    b.turn.reservation = some r' → r.revision = r'.revision → i = j
  owned : w.group.selectionRevision % 2 = 1 → ∃ i, Live w i

theorem new_spec {members : List String} {default : Option String} {interruption : Bool}
    (h : Group.new members default interruption = .ok g) :
    g.active < g.members.length ∧ g.selectionRevision = 0 := by
  revert h
  fun_cases Group.new members default interruption
  case case1 | case4 => exact nofun
  case case2 hempty =>
    rintro ⟨⟩
    exact ⟨List.length_pos_iff.mpr (by simpa using hempty), rfl⟩
  case case3 active hfind =>
    rintro ⟨⟩
    exact ⟨(List.findIdx?_eq_some_iff_getElem.mp hfind).1, rfl⟩

theorem orderly_initial (h : w.Initial) : Orderly w := by
  obtain ⟨⟨members, default, interruption, hnew⟩, hrounds, -, -⟩ := h
  obtain ⟨hmember, hrevision⟩ := new_spec hnew
  have hnone : ∀ {i : Nat} {round : Round τ}, w.rounds[i]? ≠ some round := by simp [hrounds]
  refine ⟨hmember, ?_, ?_, ?_, ?_, ?_⟩
  · simp [Counted, hrevision]
  · exact fun h => absurd h hnone
  · exact fun h => absurd h hnone
  · exact fun h => absurd h hnone
  · simp [hrevision]

theorem select_spec (g : Group) (id : String) :
    (g.select id).2 = g ∨ ∃ index, index < g.members.length ∧
      (g.select id).2 = { g with
        active := index
        selectionRevision :=
          wrappingAdd g.selectionRevision (if g.selectionRevision % 2 = 0 then 2 else 1) } := by
  fun_cases Group.select g id
  case case1 | case3 => exact .inl rfl
  case case2 index hfind _ _ =>
    exact .inr ⟨index, (List.findIdx?_eq_some_iff_getElem.mp hfind).1, rfl⟩

/-- A step of one round leaves the others with what they know, and it keeps to its
own reservation. -/
structure Effect (w : World τ) (t : Turn) (g : Group) (t' : Turn) : Prop where
  member : g.active < g.members.length
  counted : Counted g (w.commit g).changes
  interruption : g.interruption = w.group.interruption
  later : Later w.group g
  turn : TurnFits g w.selects t'
  fresh : ∀ r ∈ t'.reservation, r ∈ t.reservation ∨ w.group.selectionRevision < r.revision
  owner : g.selectionRevision % 2 = 1 → (∃ r ∈ t'.reservation, r.revision = g.selectionRevision) ∨
    (g.selectionRevision = w.group.selectionRevision ∧
      ∀ r ∈ t.reservation, r.revision ≠ w.group.selectionRevision)

theorem moves_effect {t' : Turn} (hmember : w.group.active < w.group.members.length)
    (hcounted : Counted w.group w.changes) (ht : TurnFits w.group w.selects t)
    (hmoves : Moves w.group w.selects t g t') (hfew : (w.commit g).changes < 2 ^ 63) :
    Effect w t g t' := by
  cases hmoves with
  | stay =>
    refine ⟨hmember, commit_same hcounted rfl, rfl, ⟨rfl, .inl ⟨rfl, rfl⟩⟩, ht,
      fun r hr => .inl hr, ?_⟩
    grind
  | read hnone =>
    refine ⟨hmember, commit_same hcounted rfl, rfl, ⟨rfl, .inl ⟨rfl, rfl⟩⟩, ?_, nofun, ?_⟩
    · exact ⟨fun _ => hmember, fun _ => le_rfl, fun _ _ => rfl, fun _ => le_rfl,
        fun _ _ h => absurd h (lt_irrefl _), nofun⟩
    · exact fun _ => .inr ⟨rfl, by simp [hnone]⟩
  | reserve hready hactive hrevision heven =>
    have hwrap : wrappingAdd t.revision 1 = wrappingAdd w.group.selectionRevision 1 := by
      rw [hrevision]
    obtain ⟨hnext, hcounted'⟩ := commit_even hcounted (hrevision ▸ heven) (.inl rfl) hwrap hfew
    have hlater : Later w.group
        { w.group with selectionRevision := wrappingAdd t.revision 1 } := ⟨rfl, .inr (by grind)⟩
    have hturn := ht.later hlater
    refine ⟨hmember, hcounted', rfl, hlater, { hturn with reserved := ?_ }, ?_, ?_⟩
    · grind [Ready]
    · grind
    · exact fun _ => .inl ⟨_, rfl, rfl⟩
  | @finish r winner hr hwinner =>
    have hfinish := finishReservation_eq ht hr winner
    by_cases hlive : r.revision = w.group.selectionRevision
    · rw [if_pos hlive] at hfinish
      rw [hfinish] at hfew ⊢
      have hodd : w.group.selectionRevision % 2 = 1 := by
        grind [ht.reserved r hr]
      obtain ⟨hnext, hcounted'⟩ := commit_odd hcounted hodd rfl hfew
      have hlater : Later w.group { w.group with
          active := winner.getD w.group.active
          selectionRevision := wrappingAdd w.group.selectionRevision 1 } :=
        ⟨rfl, .inr (Nat.lt_of_lt_of_eq (Nat.lt_succ_self _) hnext.symm)⟩
      refine ⟨?_, hcounted', rfl, hlater, (ht.later hlater).released, nofun, by grind⟩
      cases winner with
      | none => exact hmember
      | some m => exact hwinner m rfl
    · rw [if_neg hlive] at hfinish
      rw [hfinish]
      refine ⟨hmember, commit_same hcounted rfl, rfl, ⟨rfl, .inl ⟨rfl, rfl⟩⟩, ht.released,
        nofun, ?_⟩
      grind

/-- What the round at a place has after the step of one of them. -/
theorem runRound_getElem? {j : Nat} {other : Round τ} {input : Input τ}
    (hi : w.rounds[i]? = some round) (hj : (w.runRound i input).rounds[j]? = some other) :
    (j = i ∧ other = (round.step w.group w.selects input).2) ∨
      (j ≠ i ∧ w.rounds[j]? = some other) := by
  simp only [runRound, hi] at hj
  exact getElem?_set_some hj

/-- An older reservation is not taken for a new one. -/
theorem Effect.apart {j : Nat} {other : Round τ} {r' : SelectionReservation} (h : Orderly w)
    (heffect : Effect w round.turn g t) (hi : w.rounds[i]? = some round)
    (hj : w.rounds[j]? = some other) (hne : j ≠ i) (hr : t.reservation = some r)
    (hr' : other.turn.reservation = some r') : r.revision ≠ r'.revision := by
  intro heq
  obtain hold | hnew := heffect.fresh r hr
  · exact hne (h.apart hj hi hr' hold heq.symm)
  · have := ((h.turns hj).reserved r' hr').2.2.2.1
    omega

theorem orderly_runRound (h : Orderly w) (i : Nat) (input : Input τ)
    (hfew : (w.runRound i input).changes < 2 ^ 63) : Orderly (w.runRound i input) := by
  cases hi : w.rounds[i]? with
  | none => simpa only [runRound, hi] using h
  | some round =>
    have hmoves := round_moves w.selects input (h.fits hi) h.member
    have hround := round_fits w.selects input (h.fits hi)
    simp only [runRound, hi] at hfew ⊢
    have heffect := moves_effect h.member h.counted (h.turns hi) hmoves hfew
    generalize (round.step w.group w.selects input).1 = g at heffect
    generalize (round.step w.group w.selects input).2 = round' at hround heffect
    have hself : (w.rounds.set i round')[i]? = some round' := getElem?_set_of_some hi
    refine ⟨heffect.member, heffect.counted, ?_, ?_, ?_, ?_⟩
    · intro j other hj
      refine RoundFits.later ?_ heffect.later.1 heffect.interruption.trans
      obtain ⟨rfl, rfl⟩ | ⟨hne, hj⟩ := getElem?_set_some hj
      · exact hround
      · exact h.fits hj
    · intro j other hj
      obtain ⟨rfl, rfl⟩ | ⟨hne, hj⟩ := getElem?_set_some hj
      · exact heffect.turn
      · exact (h.turns hj).later heffect.later
    · intro j k a b r r' hj hk hr hr' hrevision
      obtain ⟨hji, rfl⟩ | ⟨hji, hj'⟩ := getElem?_set_some hj <;>
        obtain ⟨hki, rfl⟩ | ⟨hki, hk'⟩ := getElem?_set_some hk
      · exact hji.trans hki.symm
      · exact absurd hrevision (heffect.apart h hi hk' hki hr hr')
      · exact absurd hrevision.symm (heffect.apart h hi hj' hji hr' hr)
      · exact h.apart hj' hk' hr hr' hrevision
    · intro hodd
      obtain ⟨r, hr, hlive⟩ | ⟨hsame, hnot⟩ := heffect.owner hodd
      · exact ⟨i, _, r, hself, hr, hlive, hodd⟩
      · obtain ⟨j, other, r, hj, hr, hlive, hodd⟩ := h.owned (hsame ▸ hodd)
        have hne : i ≠ j := by
          rintro rfl
          cases hi.symm.trans hj
          exact hnot r hr hlive
        exact ⟨j, other, r, (List.getElem?_set_ne hne).trans hj, hr, hlive.trans hsame.symm,
          (congrArg (· % 2) hsame).trans hodd⟩

theorem orderly_start (h : Orderly w) (hfits : RoundFits w.group round)
    (hturn : round.turn = {}) : Orderly { w with rounds := w.rounds ++ [round] } := by
  have hempty : TurnFits w.group w.selects round.turn := by
    rw [hturn]
    exact ⟨nofun, nofun, nofun, nofun, nofun, nofun⟩
  refine ⟨h.member, h.counted, ?_, ?_, ?_, ?_⟩
  · grind [h.fits]
  · grind [h.turns]
  · grind [h.apart]
  · intro hodd
    obtain ⟨j, other, r, hj, hr⟩ := h.owned hodd
    exact ⟨j, other, r, getElem?_concat_of_some hj, hr⟩

/-- A selection that counts outdates everything that was read before. -/
theorem TurnFits.outdate (h : TurnFits g selects t) (hmembers : g'.members = g.members)
    (hg : g'.selectionRevision =
      g.selectionRevision + if g.selectionRevision % 2 = 0 then 2 else 1) :
    TurnFits g' (selects + 1) t := by
  have hlater : TurnFits g' selects t := h.later ⟨hmembers, .inr (by split at hg <;> omega)⟩
  refine ⟨hlater.member, hlater.behind, hlater.current,
    fun hread => Nat.le_succ_of_le (h.early hread), ?_, hlater.reserved⟩
  intro hread heven _
  have := h.behind hread
  split at hg <;> omega

theorem orderly_select (h : Orderly w) (id : String) (hfew : (w.select id).changes < 2 ^ 63) :
    Orderly (w.select id) := by
  obtain heq | ⟨index, hindex, heq⟩ := select_spec w.group id
  · have hsame : w.select id = w := by
      simp [select, commit, heq]
    rwa [hsame]
  · simp only [select] at hfew ⊢
    generalize (w.group.select id).2 = g at heq hfew ⊢
    have hmembers : g.members = w.group.members := by rw [heq]
    obtain ⟨hnext, hcounted⟩ : g.selectionRevision = w.group.selectionRevision +
        (if w.group.selectionRevision % 2 = 0 then 2 else 1) ∧ Counted g (w.commit g).changes := by
      by_cases heven : w.group.selectionRevision % 2 = 0
      · rw [if_pos heven] at heq ⊢
        exact commit_even h.counted heven (.inr rfl) (by rw [heq]) hfew
      · rw [if_neg heven] at heq ⊢
        exact commit_odd h.counted (by omega) (by rw [heq]) hfew
    rw [if_pos (by rw [hnext]; split <;> omega)]
    refine ⟨?_, hcounted, ?_, ?_, h.apart, ?_⟩
    · rw [heq]
      exact hindex
    · intro j round hj
      refine (h.fits hj).later hmembers ?_
      rw [heq]
      exact fun hsink => hsink
    · exact fun hj => (h.turns hj).outdate hmembers hnext
    · intro hodd
      have hodd : g.selectionRevision % 2 = 1 := hodd
      grind

theorem orderly_apply (h : Orderly w) (action : World.Action τ) (hfew : w.Few action) :
    Orderly (w.apply action) := by
  cases action with
  | select id => exact orderly_select h id hfew
  | setInterruptionSink =>
    exact ⟨h.member, h.counted, fun hi => (h.fits hi).later rfl fun _ => rfl,
      fun hi => (h.turns hi).later ⟨rfl, .inl ⟨rfl, rfl⟩⟩, h.apart, h.owned⟩
  | startFailover => exact orderly_start h ⟨⟨rfl, rfl⟩, nofun⟩ rfl
  | startProbe => exact orderly_start h (show _ = _ from rfl) rfl
  | round i input => exact orderly_runRound h i input hfew

/-! ## What follows -/

/-- What was read before a selection that counted changes nothing. -/
theorem moves_stale {t' : Turn} (ht : TurnFits g selects t) (hmoves : Moves g selects t g' t')
    (hread : t.read = true) (hstale : t.readAt < selects) : g'.active = g.active := by
  cases hmoves with
  | stay | read | reserve => rfl
  | @finish r winner hr =>
    obtain ⟨-, heven, hform, -⟩ := ht.reserved r hr
    have hlive : r.revision ≠ g.selectionRevision := by
      have := ht.outdated hread heven hstale
      rw [hform]
      show t.revision + 1 ≠ g.selectionRevision
      omega
    rw [finishReservation_eq ht hr, if_neg hlive]

theorem active_of_finish {reserved : Nat}
    (h : g.finishReservation active reserved (some m) = (true, g')) : g'.active = m := by
  rw [Group.finishReservation] at h
  split at h <;> cases h
  rfl

theorem leave_ne_ok {outcome : Outcome τ} (h : ∀ value m, outcome ≠ .ok value m) :
    (f.leave outcome).phase ≠ .done (.ok value m) := by
  rw [leave]
  split
  · exact nofun
  · exact fun heq => h value m (Phase.done.inj heq)

theorem next_ne_ok : (next g f offset).phase ≠ .done (.ok value m) := by
  rw [next]
  split
  · split <;> exact nofun
  · exact leave_ne_ok (nofun)

/-- A value is handed over by a round that has it, when its member is active. -/
theorem failover_answers {input : Input τ} (hmember : g.active < g.members.length)
    (hfits : FailoverFits f) (hopen : ∀ outcome, f.phase ≠ .done outcome)
    (hdone : (f.step g selects input).2.phase = .done (.ok value m)) :
    (∃ offset, f.phase = .answered offset value ∧ m = (f.turn.active + offset) % g.members.length) ∧
      (f.step g selects input).1.active = m := by
  revert hdone
  fun_cases step g selects f input
  case case4 => exact fun h => absurd h next_ne_ok
  case case14 index offset _ hphase _ r _ finished g' hfinish =>
    intro h
    cases finished with
    | false => cases h
    | true =>
      cases h
      exact ⟨⟨offset, hphase, rfl⟩, active_of_finish hfinish⟩
  case case15 index offset _ hphase hoffset his =>
    intro h
    cases h
    refine ⟨⟨offset, hphase, rfl⟩, ?_⟩
    have hactive : g.active = f.turn.active := by
      simp only [Group.selectionIs, Bool.and_eq_true, decide_eq_true_eq] at his
      exact his.1
    show g.active = (f.turn.active + offset) % g.members.length
    rw [not_not.mp hoffset, add_zero, ← hactive, Nat.mod_eq_of_lt hmember]
  case case17 hphase _ | case18 hphase _ _ =>
    rw [FailoverFits, hphase] at hfits
    exact fun h => absurd (Phase.done.inj h) (hfits value m)
  all_goals first
    | exact fun h => absurd h (leave_ne_ok nofun)
    | exact fun h => absurd h (hopen _)
    | exact nofun

/-- A round that is dropped gives its reservation up next. -/
theorem round_cancel (hfits : RoundFits g' round) (hr : round.turn.reservation = some r)
    (g : Group) (selects : Nat) :
    ∃ round' : Round τ, round.step g selects .cancel = (g, round') ∧ ∀ g selects,
      (round'.step g selects .run).1 = (g.finishReservation r.active r.revision none).2 := by
  cases round with
  | failover f =>
    have hr : f.turn.reservation = some r := hr
    have hcancel : ∃ outcome,
        f.step g selects .cancel = (g, { f with phase := .releasing outcome }) := by
      obtain ⟨phase, turn, lastError, sunk, asked, granted⟩ := f
      cases phase <;> simp_all [step, leave, RoundFits, FailoverFits]
    obtain ⟨outcome, hcancel⟩ := hcancel
    refine ⟨.failover { f with phase := .releasing outcome }, by rw [Round.step, hcancel], ?_⟩
    simp [Round.step, step, hr]
  | probe p =>
    have hr : p.turn.reservation = some r := hr
    have hcancel : p.step g selects (.cancel : Input τ) = (g, { p with phase := .releasing }) := by
      obtain ⟨phase, turn, tolerance⟩ := p
      cases phase <;> simp_all [Probe.step, Probe.leave, RoundFits, ProbeFits]
    refine ⟨.probe { p with phase := .releasing }, by rw [Round.step, hcancel], ?_⟩
    simp [Round.step, Probe.step, hr]

theorem dropped_even (h : Orderly w) (hlive : Live w i) :
    (dropRound w i).group.selectionRevision % 2 = 0 := by
  obtain ⟨round, r, hi, hr, hrevision, hodd⟩ := hlive
  obtain ⟨round', hcancel, hrun⟩ := round_cancel (h.fits hi) hr w.group w.selects
  have hset : (w.rounds.set i round')[i]? = some round' := getElem?_set_of_some hi
  have hgroup : (dropRound w i).group = (w.group.finishReservation r.active r.revision none).2 := by
    simp only [dropRound, apply, runRound, hi, hcancel, commit, hset, hrun]
  rw [hgroup, finishReservation_eq (h.turns hi) hr, if_pos hrevision]
  show wrappingAdd w.group.selectionRevision 1 % 2 = 0
  rw [wrappingAdd]
  omega

theorem linearizable_of_orderly (h : Orderly w) : Linearizable w where
  member := h.member
  single := by
    rintro i j ⟨a, r, hi, hr, hrevision, -⟩ ⟨b, r', hj, hr', hrevision', -⟩
    exact h.apart hi hj hr hr' (hrevision.trans hrevision'.symm)
  owned := h.owned
  dropped := fun i hlive => dropped_even h hlive
  stale := by
    intro i round input hi hread hstale
    simp only [apply, runRound, hi]
    exact moves_stale (h.turns hi) (round_moves w.selects input (h.fits hi) h.member) hread hstale
  answered := by
    intro i f f' input value m hi hopen hi' hdone
    obtain ⟨-, hf'⟩ | ⟨hne, -⟩ := runRound_getElem? hi hi'
    · cases hf'
      have hanswer := failover_answers h.member (h.fits hi).1 hopen hdone
      refine ⟨hanswer.1, ?_⟩
      simp only [apply, runRound, hi]
      exact hanswer.2
    · exact absurd rfl hne

theorem contacts_of_orderly (h : Orderly w) : Contacts w Cleared := by
  intro i f offset hi hphase hother
  have hfits : FailoverFits f := (h.fits hi).1
  rw [FailoverFits, hphase] at hfits
  have haway : offset ≠ 0 := by
    rintro rfl
    have hlt := (h.turns hi).member (hfits.ready rfl).1
    exact hother (Nat.mod_eq_of_lt hlt)
  dsimp only at hfits
  rwa [Standing, if_neg haway] at hfits

/-- Whatever selections, failovers and probes are made and wherever they are
dropped, the active member is a member, one reservation counts at a time, a
selection beats what was read before it, and a failover answers from the member
that is active. It tries another member than the first only under a reservation
of its own and, where somebody was there to be asked when it had reserved, with a
permit. -/
theorem selector_linearizable (h : Reach World.Initial World.apply World.Few w) :
    Linearizable w ∧ Contacts w fun f =>
      (f.asked = true → f.granted = true) ∧ (f.sunk = true → f.asked = true) := by
  have horderly : Orderly w := h.invariant (fun _ => orderly_initial)
    fun w action hw hfew => orderly_apply hw action hfew
  exact ⟨linearizable_of_orderly horderly, contacts_of_orderly horderly⟩

namespace SelectorExample

/-- Two members, the first one active, and nobody to ask. -/
def start : World Unit where
  group :=
    { members := ["oslo", "riga"], active := 0, selectionRevision := 0, interruption := false }
  rounds := []
  changes := 0
  selects := 0

theorem start_initial : start.Initial := ⟨⟨["oslo", "riga"], none, false, rfl⟩, rfl, rfl, rfl⟩

/-- A failover whose first member does not answer. -/
def reserving : List (World.Action Unit) :=
  [.startFailover, .round 0 .run, .round 0 (.reply .timedOut), .round 0 .run, .round 0 .run]

/-- With someone to ask and a permit it tries the second one. -/
def asking : List (World.Action Unit) :=
  .setInterruptionSink :: reserving ++ [.round 0 (.permit true), .round 0 .run]

/-- Without anyone to ask it goes on. -/
def unasked : List (World.Action Unit) := reserving ++ [.round 0 .run]

end SelectorExample

open SelectorExample in
theorem permitted_failover_linearizable :
    let w := asking.foldl World.apply start
    (∃ f : Failover Unit, w.rounds[0]? = some (Round.failover f) ∧ f.phase = .attempting 1 ∧
      f.sunk = true) ∧
    Linearizable w ∧ Contacts w fun f =>
      (f.asked = true → f.granted = true) ∧ (f.sunk = true → f.asked = true) :=
  ⟨⟨_, rfl, rfl, rfl⟩,
    selector_linearizable (Reach.run (.start start_initial) (by decide +kernel))⟩

open SelectorExample in
/-- A group that nobody can be asked about tries its second member without a
permit. -/
theorem failover_without_permit :
    ∃ w : World Unit, Reach World.Initial World.apply World.Few w ∧
      ¬ Contacts w fun f => f.granted = true := by
  refine ⟨unasked.foldl apply start, ?_, ?_⟩
  · exact Reach.run (.start start_initial) (by decide +kernel)
  · intro h
    have hgranted := (h 0 _ 1 rfl rfl (by decide)).2
    exact absurd hgranted (by decide)

end Foxcore.Proofs.Selector
