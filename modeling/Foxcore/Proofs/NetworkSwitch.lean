import Foxcore.Proofs.Continuity
import Foxcore.Spec.NetworkSwitch

/-!
# The network that was reported last

While no report is on its way the last one is where it has to be: in the cell if
there is something in it, with the dialer otherwise (`Orderly.settled`). A report
that is on its way is the only one and nobody confirms meanwhile. So what a
confirmation takes from the cell is the last report, and what it leaves with the
dialer stays there until it has come back.
-/

namespace Foxcore.Proofs.NetworkSwitch

open Lib Ref.NetworkSwitch Spec.NetworkSwitch List
open Ref.Continuity (ContinuityConfig ContinuityConfirm)

variable {call : Call} {w : World} {i : Nat}

/-- Whether the core follows a change of the network without asking. -/
def follows (w : World) : Bool := w.gate.gate.config.seamlessNetworkSwitch

/-- It is the last report. -/
def Names (reports : List Nat) (report : Report) : Prop :=
  report.number = reports.length ∧ ∀ handle, reports.getLast? = some handle → report.handle = handle

def CallFits (reports : List Nat) (deferred : Option Report) (follows : Bool) : Call → Prop
  | .checking (some report) => Names reports report
  | .deferring (some report) => Names reports report ∧ follows = false
  | .switching (some report) => Names reports report ∧ deferred = none
  | .completing _ => deferred = none
  | .finishing _ => deferred = none
  | _ => True

theorem fits_of_settled {reports : List Nat} {deferred : Option Report} {follows : Bool}
    (hsettled : ¬ unsettled call) (htaken : confirming call → deferred = none) :
    CallFits reports deferred follows call := by
  cases call with
  | checking report | deferring report | switching report =>
    cases report with
    | none => trivial
    | some => exact absurd rfl hsettled
  | completing | finishing => exact htaken rfl
  | _ => trivial

structure Orderly (w : World) : Prop where
  fits : ∀ {i : Nat} {call : Call}, w.calls[i]? = some call →
    CallFits w.reports w.deferredNetwork (follows w) call
  alone : ∀ {i j : Nat} {a b : Call}, w.calls[i]? = some a → w.calls[j]? = some b → unsettled a →
    unsettled b ∨ confirming b → i = j
  settled : (∀ call ∈ w.calls, ¬ unsettled call) →
    Names w.reports (w.deferredNetwork.getD w.networkHandle)
  policy : w.deferredNetwork.isSome → follows w = false
  bound : w.networkHandle.number ≤ w.reports.length

theorem orderly_initial (h : w.Initial) : Orderly w := by
  obtain ⟨-, ⟨handle, hhandle⟩, hdeferred, hcalls, hreports⟩ := h
  refine ⟨?_, ?_, fun _ => ?_, ?_, ?_⟩
  · simp [hcalls]
  · simp [hcalls]
  · simp [Names, hdeferred, hhandle, hreports]
  · simp [hdeferred]
  · simp [hhandle]

/-- What the gate does by itself leaves the policy as it is. -/
theorem claim_config (w : Ref.Continuity.World) (token : Nat) :
    (w.claim token).2.gate.config = w.gate.config := by
  obtain ⟨-, hgate⟩ | ⟨p, -, -, heq⟩ := Continuity.claimConfirmation_spec w.gate token
  · simp only [Ref.Continuity.World.claim, hgate]
  · simp only [Ref.Continuity.World.claim, heq]

theorem complete_config (w : Ref.Continuity.World) (i token : Nat) :
    (w.complete i token).gate.config = w.gate.config := by
  rw [Ref.Continuity.World.complete]
  obtain ⟨answer, heq⟩ | ⟨p, -, -, -, heq⟩ := Continuity.completeConfirmation_spec w.gate token
  · rw [heq]
    rfl
  · rw [heq]
    rfl

theorem stepCall_config (w : Ref.Continuity.World) (i now : Nat) :
    (w.stepCall i now).gate.config = w.gate.config := by
  rw [Ref.Continuity.World.stepCall]
  split
  · split <;> rfl
  · rw [Ref.Continuity.World.enter]
    split <;> rfl
  · split <;> rfl
  · split <;> rfl
  · exact claim_config w _
  · exact complete_config w i _
  all_goals rfl

theorem expire_config (g : Ref.Continuity.ContinuityGate) (now : Nat) :
    (g.expire now).2.config = g.config := by
  fun_cases Ref.Continuity.ContinuityGate.expire g now <;> rfl

/-! ## Steps -/

section

variable (h : Orderly w)

include h

theorem Orderly.gate {gate : Ref.Continuity.World}
    (hconfig : gate.gate.config = w.gate.gate.config) : Orderly { w with gate } := by
  have hfollows : follows { w with gate } = follows w := by
    simp only [follows, hconfig]
  refine ⟨?_, h.alone, h.settled, ?_, h.bound⟩
  · rw [hfollows]
    exact h.fits
  · rw [hfollows]
    exact h.policy

/-- A call that brings no handle begins. -/
theorem Orderly.start (hfits : CallFits w.reports w.deferredNetwork (follows w) call)
    (hsettled : ¬ unsettled call)
    (hconfirming : confirming call → ∀ other ∈ w.calls, ¬ unsettled other) :
    Orderly (w.start call) := by
  refine ⟨?_, ?_, ?_, h.policy, h.bound⟩
  · intro i other hi
    obtain hi | ⟨-, rfl⟩ := getElem?_concat_some hi
    · exact h.fits hi
    · exact hfits
  · intro i j a b hi hj ha hb
    obtain hi' | ⟨-, rfl⟩ := getElem?_concat_some hi
    · obtain hj' | ⟨-, rfl⟩ := getElem?_concat_some hj
      · exact h.alone hi' hj' ha hb
      · obtain hb | hb := hb
        · exact absurd hb hsettled
        · exact absurd ha (hconfirming hb a (mem_of_getElem? hi'))
    · exact absurd ha hsettled
  · exact fun hnone => h.settled fun other hother => hnone other (mem_append_left _ hother)

/-- A report arrives. -/
theorem Orderly.report (handle : Nat)
    (hapart : ∀ call ∈ w.calls, ¬ unsettled call ∧ ¬ confirming call) :
    Orderly (w.apply (.networkChangedWithHandle handle)) := by
  have hnew : Names (w.reports ++ [handle]) ⟨handle, w.reports.length + 1⟩ := by
    refine ⟨by rw [length_append, length_singleton], fun last hlast => ?_⟩
    rw [getLast?_concat] at hlast
    exact Option.some.inj hlast
  refine ⟨?_, ?_, ?_, h.policy, ?_⟩
  · intro i call hi
    obtain hi | ⟨-, rfl⟩ := getElem?_concat_some hi
    · obtain ⟨hsettled, hconfirming⟩ := hapart call (mem_of_getElem? hi)
      exact fits_of_settled hsettled fun hc => absurd hc hconfirming
    · exact hnew
  · intro i j a b hi hj ha hb
    obtain hi' | ⟨rfl, -⟩ := getElem?_concat_some hi
    · exact absurd ha (hapart a (mem_of_getElem? hi')).1
    · obtain hj' | ⟨rfl, -⟩ := getElem?_concat_some hj
      · obtain ⟨hsettled, hconfirming⟩ := hapart b (mem_of_getElem? hj')
        exact (hb.elim hsettled hconfirming).elim
      · rfl
  · exact fun hnone => absurd rfl (hnone _ (mem_append_right _ (mem_singleton.mpr rfl)))
  · show w.networkHandle.number ≤ (w.reports ++ [handle]).length
    rw [length_append]
    exact Nat.le_add_right_of_le h.bound

/-- A policy is applied. -/
theorem Orderly.reload (config : ContinuityConfig) (hapart : config.seamlessNetworkSwitch →
      w.deferredNetwork = none ∧ ∀ call ∈ w.calls, ¬ unsettled call) :
    Orderly (w.apply (.reload config)) := by
  cases hconfig : config.seamlessNetworkSwitch with
  | true =>
    obtain ⟨hdeferred, hsettled⟩ := hapart hconfig
    refine ⟨fun {i call} hi => ?_, h.alone, h.settled, ?_, h.bound⟩
    · exact fits_of_settled (hsettled call (mem_of_getElem? hi)) fun _ => hdeferred
    · show w.deferredNetwork.isSome → _
      rw [hdeferred]
      exact nofun
  | false =>
    refine ⟨fun {i call} hi => ?_, h.alone, h.settled, fun _ => hconfig, h.bound⟩
    have hfits := h.fits hi
    cases call with
    | deferring report =>
      cases report with
      | none => trivial
      | some => exact ⟨hfits.1, hconfig⟩
    | checking report | switching report =>
      cases report with
      | none => trivial
      | some => exact hfits
    | _ => exact hfits

omit h in
/-- A handle gets where it has to be, in the step of the only call that could have
brought one. -/
theorem orderly_move {call' : Call} {handle : Report} {deferred : Option Report}
    (hothers : ∀ j other, j ≠ i → w.calls[j]? = some other →
      ¬ unsettled other ∧ (confirming other → deferred = none)) (hsettled : ¬ unsettled call')
    (htaken : confirming call' → deferred = none) (hnames : Names w.reports (deferred.getD handle))
    (hpolicy : deferred.isSome → follows w = false) (hbound : handle.number ≤ w.reports.length) :
    Orderly ({ w with networkHandle := handle, deferredNetwork := deferred }.goTo i call') := by
  refine ⟨?_, ?_, fun _ => hnames, hpolicy, hbound⟩
  · intro j other hj
    obtain ⟨-, rfl⟩ | ⟨hne, hj⟩ := getElem?_set_some hj
    · exact fits_of_settled hsettled htaken
    · obtain ⟨hsettled, htaken⟩ := hothers j other hne hj
      exact fits_of_settled hsettled htaken
  · intro j k a b hj hk ha _
    obtain ⟨-, rfl⟩ | ⟨hne, hj⟩ := getElem?_set_some hj
    · exact absurd ha hsettled
    · exact absurd ha (hothers j a hne hj).1

/-- A call goes on and neither its report nor any handle is moved. -/
theorem Orderly.goTo {call' : Call} (hi : w.calls[i]? = some call)
    (hfits : CallFits w.reports w.deferredNetwork (follows w) call')
    (hunsettled : unsettled call' = unsettled call)
    (hconfirming : confirming call' → confirming call) : Orderly (w.goTo i call') := by
  refine ⟨?_, ?_, ?_, h.policy, h.bound⟩
  · intro j other hj
    obtain ⟨-, rfl⟩ | ⟨-, hj⟩ := getElem?_set_some hj
    · exact hfits
    · exact h.fits hj
  · -- both calls are as they were, or one of them is this one
    intro j k a b hj hk ha hb
    obtain ⟨hji, rfl⟩ | ⟨-, hj'⟩ := getElem?_set_some hj <;>
      obtain ⟨hki, rfl⟩ | ⟨-, hk'⟩ := getElem?_set_some hk
    · exact hji.trans hki.symm
    · exact hji.trans (h.alone hi hk' (hunsettled ▸ ha) hb)
    · exact (h.alone hj' hi ha (hb.imp (hunsettled ▸ ·) hconfirming)).trans hki.symm
    · exact h.alone hj' hk' ha hb
  · intro hnone
    refine h.settled fun other hother => ?_
    obtain ⟨j, hj⟩ := mem_iff_getElem?.mp hother
    by_cases hji : j = i
    · subst hji
      cases hi.symm.trans hj
      rw [← hunsettled]
      exact hnone call' (mem_of_getElem? (getElem?_set_of_some hi))
    · exact hnone other (mem_of_getElem? ((getElem?_set_ne (Ne.symm hji)).trans hj))

/-- While a report is on its way, all others have arrived and nobody confirms. -/
theorem Orderly.others_of_unsettled (hi : w.calls[i]? = some call) (hunsettled : unsettled call)
    (deferred : Option Report) : ∀ j other, j ≠ i → w.calls[j]? = some other →
      ¬ unsettled other ∧ (confirming other → deferred = none) := by
  intro j other hne hj
  exact ⟨fun ho => hne (h.alone hi hj hunsettled (.inl ho)).symm,
    fun ho => absurd (h.alone hi hj hunsettled (.inr ho)).symm hne⟩

/-- While somebody confirms, every report has arrived. -/
theorem Orderly.settled_of_confirming (hi : w.calls[i]? = some call) (hconfirming : confirming call)
    (hsettled : ¬ unsettled call) : ∀ other ∈ w.calls, ¬ unsettled other := by
  intro other hother ho
  obtain ⟨j, hj⟩ := mem_iff_getElem?.mp hother
  have hji := h.alone hj hi ho (.inr hconfirming)
  subst hji
  cases hi.symm.trans hj
  exact hsettled ho

omit h in
/-- What a claim goes on with brings no handle and has taken none. -/
theorem claimed_fits (answer : ContinuityConfirm) (token : Nat) :
    unsettled (if answer = .confirmed then .taking token else .answered (.ofConfirm answer)) =
        false ∧
      ∀ reports deferred follows, CallFits reports deferred follows
        (if answer = .confirmed then .taking token else .answered (.ofConfirm answer)) := by
  split
  · exact ⟨rfl, fun _ _ _ => trivial⟩
  · exact ⟨rfl, fun _ _ _ => trivial⟩

theorem Orderly.stepCall (i : Nat) : Orderly (w.stepCall i) := by
  rw [World.stepCall]
  split
  · next report hi =>
    split
    · next hfollows =>
      cases report with
      | none => exact h.goTo hi trivial rfl id
      | some =>
        refine h.goTo hi ⟨h.fits hi, ?_⟩ rfl id
        cases hdeferred : w.deferredNetwork with
        | none => rfl
        | some => cases hfollows.symm.trans (h.policy (by rw [hdeferred]; rfl))
    · next hfollows =>
      cases report with
      | none => exact h.goTo hi trivial rfl id
      | some => exact h.goTo hi ⟨h.fits hi, Bool.not_eq_true _ ▸ hfollows⟩ rfl id
  · next report hi =>
    cases report with
    | none => exact h.goTo hi trivial rfl id
    | some =>
      obtain ⟨hnames, hfollows⟩ := h.fits hi
      exact orderly_move (h.others_of_unsettled hi rfl _) (nofun) (nofun) hnames
        (fun _ => hfollows) h.bound
  · next hi =>
    have hgate : Orderly { w with gate := w.gate.start (.interrupting false .networkSwitch) } :=
      h.gate rfl
    exact hgate.goTo hi trivial rfl id
  · next hi =>
    split
    · exact h.goTo hi trivial rfl id
    · exact h
  · next report hi =>
    cases report with
    | none => exact h.goTo hi trivial rfl id
    | some =>
      obtain ⟨hnames, hdeferred⟩ := h.fits hi
      refine orderly_move (h.others_of_unsettled hi rfl _) (nofun) (nofun) ?_ h.policy
        (Nat.le_of_eq hnames.1)
      rw [hdeferred]
      exact hnames
  · next token hi =>
    have hgate : Orderly { w with gate := (w.gate.claim token).2 } :=
      h.gate (claim_config w.gate token)
    obtain ⟨hsettled, hfits⟩ := claimed_fits (w.gate.claim token).1 token
    exact hgate.goTo hi (hfits _ _ _) hsettled fun _ => rfl
  · next token hi =>
    have hsettled := h.settled_of_confirming hi rfl (nofun)
    have hnames := h.settled hsettled
    refine orderly_move ?_ (nofun) (fun _ => rfl) hnames (nofun) (Nat.le_of_eq hnames.1)
    exact fun j other _ hj => ⟨hsettled other (mem_of_getElem? hj), fun _ => rfl⟩
  · next token hi =>
    have hgate : Orderly { w with gate := w.gate.start (.completing token) } := h.gate rfl
    have hdeferred : w.deferredNetwork = none := h.fits hi
    exact hgate.goTo hi hdeferred rfl id
  · next gateCall hi =>
    split
    · exact h.goTo hi trivial rfl (nofun)
    · exact h
  all_goals exact h

theorem orderly_apply (action : World.Action) (hapart : Apart w action) :
    Orderly (w.apply action) := by
  cases action with
  | networkChanged => exact h.start trivial (nofun) (nofun)
  | networkChangedWithHandle handle => exact h.report handle hapart
  | confirmContinuity => exact h.start trivial (nofun) fun _ => hapart
  | reload config => exact h.reload config hapart
  | interrupt interruption | permit interruption => exact h.gate rfl
  | expire now => exact h.gate (expire_config w.gate.gate now)
  | gateStep gateCall now => exact h.gate (stepCall_config w.gate gateCall now)
  | step i => exact h.stepCall i

theorem current_of_orderly : Current w where
  confirmed := by
    rintro i ⟨gateCall, hi, hanswer⟩ handle hlast
    have hnames := h.settled (h.settled_of_confirming hi rfl (nofun))
    rw [h.fits hi] at hnames
    simp only [World.apply, World.stepCall, hi, hanswer]
    exact hnames.2 handle hlast
  newer := by
    intro i token report hi hdeferred
    have hnames := h.settled (h.settled_of_confirming hi rfl (nofun))
    rw [hdeferred] at hnames
    exact Nat.le_trans h.bound (Nat.le_of_eq hnames.1.symm)

end

/-- In every run whose calls keep apart, a confirmed reconnection uses the network
that was reported last, and no older network replaces a newer one. -/
theorem confirmed_network_current (w : World) (h : Reach World.Initial World.apply Apart w) :
    Current w :=
  current_of_orderly (h.invariant (fun _ => orderly_initial) fun _ action hw hapart =>
    orderly_apply hw action hapart)

namespace NetworkSwitchExample

/-- Changes of the network are not followed silently. -/
def asking : ContinuityConfig where
  seamlessNetworkSwitch := false

def start : World := ⟨⟨{ config := asking }, [], [], [], []⟩, ⟨100, 0⟩, none, [], []⟩

theorem start_initial : start.Initial :=
  ⟨⟨⟨asking, rfl⟩, rfl, rfl, rfl, rfl⟩, ⟨100, rfl⟩, rfl, rfl, rfl⟩

/-- The network with the handle 101 is put aside and a question is asked. -/
def held : List World.Action :=
  [.networkChangedWithHandle 101, .step 0, .step 0, .step 0, .gateStep 0 0, .gateStep 0 0,
    .gateStep 0 0, .step 0]

/-- A confirmation up to where it comes back. -/
def confirmation (call gateCall : Nat) : List World.Action :=
  [.confirmContinuity 1, .step call, .step call, .step call, .gateStep gateCall 0,
    .gateStep gateCall 0]

/-- Before that changes of the network are followed again, and there is one. -/
def followed : List World.Action :=
  [.reload {}, .networkChangedWithHandle 102, .step 1, .step 1]

end NetworkSwitchExample

open NetworkSwitchExample in
theorem deferred_network_current :
    Current ((held ++ confirmation 1 1).foldl World.apply start) ∧
      Confirms ((held ++ confirmation 1 1).foldl World.apply start) 1 :=
  ⟨confirmed_network_current _ (Reach.run (.start start_initial) (by decide +kernel)),
    1, by decide +kernel, by decide +kernel⟩

open NetworkSwitchExample in
/-- A network that was put aside replaces the one that was reported and followed
after it. -/
theorem stale_network_confirmed :
    ∃ w, Reach World.Initial World.apply anyAction w ∧ ¬ Current w := by
  refine ⟨(held ++ followed ++ confirmation 2 1).foldl World.apply start,
    Reach.run (.start start_initial) (admissible_any ..), fun h => ?_⟩
  have hhandle := h.confirmed 2 ⟨1, by decide +kernel, by decide +kernel⟩ 102 (by decide +kernel)
  revert hhandle
  decide +kernel

end Foxcore.Proofs.NetworkSwitch
