import Foxcore.Lib.System
import Foxcore.Spec.Splice

/-!
# The prelude is kept while the network is silent

The deadline lives in the read of the application. As long as no other branch
completes, that read is the first there was, and its deadline the one the codec
asked for (`Stage.waiting`); the branch that completes is then its own, and
after it there is no deadline any more (`Stage.past`).
-/

namespace Foxcore.Proofs.Splice

open Lib Lib.Command Ref.Splice Ref.Splice.Pipes List Option
open Spec.Splice

variable {ℓ γ : Type} {w : Relay ℓ γ} {p : Poll} {delay : Option Nat}
variable {uplink : Option Uplink} {pipes : Pipes ℓ γ}

/-! ## What goes up -/

/-- Whatever the first part of a sequence answers. -/
theorem all_then {α β : Type} {m : RelayM ℓ γ α} {f : α → RelayM ℓ γ β} {P : β → Prop}
    (h : ∀ a, (answers _ _).all (f a) P) : (answers _ _).all (m >>= f) P :=
  (answers _ _).bind ((answers _ _).of_forall fun _ => trivial) fun a _ => h a

/-- A branch fails, or it is done and has something to send. -/
theorem finish_cases (w : Relay ℓ γ) (branch : RelayM ℓ γ (Option Uplink × Bool)) :
    ∃ pipes uplink ended, w.finish branch =
        { w with
          pipes, ended, reading := none, uplinks := w.uplinks ++ uplink.toList.map (w.pipes, ·) } ∧
      (uplink = none ∧ ended = true ∨ (branch.exec w.pipes).1 = .ok (uplink, ended)) := by
  rw [Relay.finish]
  rcases branch.exec w.pipes with ⟨_ | ⟨uplink, ended⟩, pipes⟩
  · refine ⟨pipes, none, true, ?_, .inl ⟨rfl, rfl⟩⟩
    simp
  · exact ⟨pipes, uplink, ended, rfl, .inr rfl⟩

theorem finish_silent (w : Relay ℓ γ) {branch : RelayM ℓ γ (Option Uplink × Bool)}
    (hsilent : (answers _ _).all branch (·.1 = none)) :
    ∃ pipes ended, w.finish branch = { w with pipes, ended, reading := none } := by
  obtain ⟨pipes, uplink, ended, heq, hanswer⟩ := finish_cases w branch
  have hnone : uplink = none := hanswer.elim And.left (hsilent _ _)
  rw [hnone, toList_none, map_nil, append_nil] at heq
  exact ⟨pipes, ended, heq⟩

theorem first_of_nil (h : w.uplinks = []) : PreludeFirst w.uplinks := by
  rw [h]
  exact throughout_nil

theorem first_append {uplinks : List (Pipes ℓ γ × Uplink)} (h : PreludeFirst uplinks)
    (hnot : uplinks = [] ∨ ∀ wire, uplink ≠ some (.timeout wire)) :
    PreludeFirst (uplinks ++ uplink.toList.map (pipes, ·)) := by
  cases uplink with
  | none => simpa using h
  | some =>
    refine throughout_concat.mpr ⟨h, fun wire heq => hnot.resolve_right fun hnot => ?_⟩
    exact hnot wire (congrArg some heq)

variable [RecordLayer ℓ] [InnerCodec γ]

/-- What the branch of the application may hand to the network. -/
def Fitting (pipes : Pipes ℓ γ) : AppRead → Option Uplink × Bool → Prop
  | .eof, answer => answer.2 = true ∧ ∀ entry ∈ answer.1, ∃ wire, entry = .close wire
  | .idle, answer => ∃ wire, answer = (some (.timeout wire), false) ∧ Formed pipes (.timeout wire)
  | .data bytes, answer =>
    ∃ wire, answer = (some (.data bytes wire), false) ∧ Formed pipes (.data bytes wire)

omit [InnerCodec γ] in
theorem sealed_wire (pipes : Pipes ℓ γ) (framed : Bytes) :
    Ends (sealed framed) pipes fun r _ =>
      ∀ wire, r = .ok wire → Encrypts pipes.layer framed wire := by
  rw [sealed]
  split
  · next hempty =>
    rintro _ ⟨⟩
    exact (if_pos (isEmpty_iff.mp hempty)).mpr rfl
  · next hsome =>
    rw [ends_get_bind, ends_give_bind]
    refine ⟨nofun, fun layer hplain => ?_⟩
    rw [ends_give_bind]
    refine ⟨nofun, fun (wire, layer') hwire => ?_⟩
    rintro _ ⟨⟩
    exact (if_neg (by simpa using hsome)).mpr ⟨layer, layer', hplain, hwire⟩

theorem onApplication_fitting (p : Poll) (read : AppRead) (pipes : Pipes ℓ γ) :
    Ends (onApplication p read) pipes fun r _ =>
      ∀ answer, r = .ok answer → Fitting pipes read answer := by
  cases read with
  | eof =>
    rw [onApplication, ends_get_bind]
    split
    · rintro _ ⟨⟩
      exact ⟨rfl, nofun⟩
    · rw [ends_give_bind]
      refine ⟨nofun, fun (wire, layer) _ => ?_⟩
      rintro _ ⟨⟩
      exact ⟨rfl, fun entry h => ⟨wire, (some.inj h).symm⟩⟩
  | idle =>
    rw [onApplication, ends_get_bind, ends_give_bind]
    refine ⟨nofun, fun (framed, codec) hcodec => ?_⟩
    refine (sealed_wire _ framed).bind (fun wire _ hwire => all_then (fun _ _ => ?_) _) nofun
    rintro _ ⟨⟩
    exact ⟨wire, rfl, framed, codec, hcodec, hwire wire rfl⟩
  | data bytes =>
    rw [onApplication, ends_get_bind]
    split
    · next hdirect =>
      refine all_then (fun _ _ => ?_) _
      rintro _ ⟨⟩
      exact ⟨bytes, rfl, (if_pos hdirect).mpr rfl⟩
    · next hdirect =>
      rw [ends_give_bind]
      refine ⟨nofun, fun (framed, switch, codec) hcodec => ?_⟩
      refine (sealed_wire _ framed).bind (fun wire _ hwire => all_then (fun _ _ => ?_) _) nofun
      rintro _ ⟨⟩
      exact ⟨wire, rfl, (if_neg hdirect).mpr ⟨framed, switch, codec, hcodec, hwire wire rfl⟩⟩

/-- Nothing goes up for the network. -/
theorem onNetwork_silent (p : Poll) (bytes : Bytes) :
    (answers (Pipes ℓ γ) IoError).all (onNetwork p bytes) (·.1 = none) := by
  have hpure : ∀ {ended}, (answers (Pipes ℓ γ) IoError).all (pure (none, ended))
      fun answer : Option Uplink × Bool => answer.1 = none := (answers _ _).pure rfl
  rw [onNetwork]
  split
  · exact hpure
  · refine all_then fun pipes => ?_
    split
    · exact all_then fun _ => hpure
    · refine all_then fun _ => all_then fun closed => all_then fun pipes => ?_
      split
      · exact all_then fun _ => all_then fun _ => hpure
      · exact hpure

/-! ## The stages of the deadline -/

/-- The application has written, or the codec was told that it has not. -/
def Acted (uplinks : List (Pipes ℓ γ × Uplink)) : Prop :=
  (∃ pipes bytes wire, (pipes, .data bytes wire) ∈ uplinks) ∨
    ∃ pipes wire, (pipes, .timeout wire) ∈ uplinks ∧ Formed pipes (.timeout wire)

/-- Where the deadline is: not asked for yet, set for good, or done with. -/
inductive Stage (delay : Option Nat) (w : Relay ℓ γ) : Prop
  | fresh (hdelay : w.firstWriteDelay = delay) (hreading : w.reading = none)
    (hasked : w.asked = none) (hasleep : w.asleep = none) (hnone : w.uplinks = [])
  | waiting {d since : Nat} (hdelay : delay = some d) (htaken : w.firstWriteDelay = none)
    (hreading : w.reading = some (some (since + d))) (hasked : w.asked = some since)
    (hasleep : ∀ slept, w.asleep = some slept → slept < since + d) (hnone : w.uplinks = [])
  | past (htaken : w.firstWriteDelay = none) (hreading : w.reading.join = none)
    (hkept : PreludeKept delay w) (hdone : w.ended = true ∨ delay = none ∨ Acted w.uplinks)

theorem acted_of_going (hgoing : w.ended = false)
    (h : w.ended = true ∨ delay = none ∨ Acted w.uplinks) : delay = none ∨ Acted w.uplinks :=
  h.resolve_left (by rw [hgoing]; exact Bool.false_ne_true)

theorem kept_of_acted (hfirst : PreludeFirst w.uplinks) (h : delay = none ∨ Acted w.uplinks) :
    PreludeKept delay w := by
  refine ⟨hfirst, fun d since slept hdelay _ _ _ hdata => ?_⟩
  rcases h with hnone | ⟨pipes, bytes, wire, hwire⟩ | htimeout
  · rw [hnone] at hdelay
    cases hdelay
  · exact absurd hwire (hdata pipes bytes wire)
  · exact htimeout

/-- The deadline has not passed when the task last went to sleep. -/
theorem kept_of_early {d since : Nat} (hdelay : delay = some d) (hasked : w.asked = some since)
    (hasleep : ∀ slept, w.asleep = some slept → slept < since + d)
    (hfirst : PreludeFirst w.uplinks) : PreludeKept delay w := by
  refine ⟨hfirst, fun d' since' slept hdelay' hasked' hslept hpast => ?_⟩
  cases hdelay.symm.trans hdelay'
  cases hasked.symm.trans hasked'
  exact absurd hpast (Nat.not_le.mpr (hasleep slept hslept))

theorem Stage.kept (h : Stage delay w) : PreludeKept delay w := by
  cases h with
  | fresh _ _ _ hasleep hnone =>
    refine ⟨first_of_nil hnone, fun _ _ _ _ _ hslept => ?_⟩
    rw [hasleep] at hslept
    cases hslept
  | waiting hdelay _ _ hasked hasleep hnone =>
    exact kept_of_early hdelay hasked hasleep (first_of_nil hnone)
  | past _ _ hkept => exact hkept

theorem stage_ask (h : Stage delay w) (hgoing : w.ended = false) (now : Nat) :
    Stage delay (w.ask now) ∧ (w.ask now).reading ≠ none ∧ (w.ask now).ended = false := by
  rw [Relay.ask]
  split
  · next heq => exact ⟨h, by rw [heq]; exact some_ne_none _, hgoing⟩
  · next hidle =>
    refine ⟨?_, some_ne_none _, hgoing⟩
    cases h with
    | fresh hdelay _ hasked hasleep hnone =>
      cases delay with
      | none =>
        exact .past rfl (by rw [hdelay]; rfl) (kept_of_acted (first_of_nil hnone) (.inl rfl))
          (.inr (.inl rfl))
      | some =>
        refine .waiting rfl rfl (by rw [hdelay]; rfl) (by rw [hasked]; rfl) ?_ hnone
        intro slept hslept
        rw [hasleep] at hslept
        cases hslept
    | waiting _ _ hreading =>
      rw [hidle] at hreading
      cases hreading
    | past htaken _ hkept hdone =>
      have hdone := acted_of_going hgoing hdone
      exact .past rfl (by rw [htaken]; rfl) (kept_of_acted hkept.first hdone) (.inr hdone)

/-- Nothing goes up, and no deadline is dropped. -/
theorem stage_silent (h : Stage delay w) (hquiet : w.reading.join = none) (hgoing : w.ended = false)
    {branch : RelayM ℓ γ (Option Uplink × Bool)} (hsilent : (answers _ _).all branch (·.1 = none)) :
    Stage delay (w.finish branch) := by
  obtain ⟨pipes, ended, heq⟩ := finish_silent w hsilent
  rw [heq]
  cases h with
  | fresh hdelay _ hasked hasleep hnone => exact .fresh hdelay rfl hasked hasleep hnone
  | waiting _ _ hreading =>
    rw [hreading] at hquiet
    cases hquiet
  | past htaken _ hkept hdone =>
    have hdone := acted_of_going hgoing hdone
    exact .past htaken rfl (kept_of_acted hkept.first hdone) (.inr hdone)

theorem acted_append {uplinks : List (Pipes ℓ γ × Uplink)} {ended : Bool} {read : AppRead}
    (h : Fitting pipes read (uplink, ended)) :
    ended = true ∨ Acted (uplinks ++ uplink.toList.map (pipes, ·)) := by
  cases read with
  | eof => exact .inl h.1
  | idle =>
    obtain ⟨wire, heq, hmade⟩ := h
    cases heq
    exact .inr (.inr ⟨pipes, wire, mem_append_right _ mem_cons_self, hmade⟩)
  | data bytes =>
    obtain ⟨wire, heq, -⟩ := h
    cases heq
    exact .inr (.inl ⟨pipes, bytes, wire, mem_append_right _ mem_cons_self⟩)

/-- The codec is told of a deadline only when there is one. -/
theorem not_timeout {read : AppRead} {ended : Bool} (h : Fitting pipes read (uplink, ended))
    (hread : w.readApp p = some (.ok read)) (hnone : w.reading.join = none) (wire : Bytes) :
    uplink ≠ some (.timeout wire) := by
  rintro rfl
  cases read with
  | eof =>
    obtain ⟨-, hclose⟩ := h
    obtain ⟨_, heq⟩ := hclose _ rfl
    cases heq
  | idle =>
    rw [Relay.readApp, hnone] at hread
    split at hread
    · next read' _ =>
      cases read' with
      | error => cases hread
      | ok bytes =>
        have hread : classify bytes = .idle := Except.ok.inj (some.inj hread)
        rw [classify] at hread
        split at hread <;> cases hread
    · cases hread
  | data =>
    obtain ⟨_, heq, -⟩ := h
    cases heq

theorem stage_sleep (h : Stage delay w) (hreading : w.reading ≠ none) (hgoing : w.ended = false)
    (hread : w.readApp p = none) : Stage delay { w with asleep := some p.now } := by
  cases h with
  | fresh _ hidle => exact absurd hidle hreading
  | @waiting d since hdelay htaken hset hasked _ hnone =>
    refine .waiting hdelay htaken hset hasked (fun slept hslept => ?_) hnone
    cases hslept
    rw [Relay.readApp, hset] at hread
    split at hread
    · cases hread
    · simpa using hread
  | past htaken hjoin hkept hdone =>
    have hdone := acted_of_going hgoing hdone
    exact .past htaken hjoin (kept_of_acted hkept.first hdone) (.inr hdone)

/-- What the application has, or the deadline, is dealt with. -/
theorem stage_application (h : Stage delay w) (hreading : w.reading ≠ none)
    (hgoing : w.ended = false) {read : Except IoError AppRead} (hread : w.readApp p = some read) :
    Stage delay (w.finish (give read >>= onApplication p)) := by
  obtain ⟨pipes, uplink, ended, heq, hanswer⟩ := finish_cases w (give read >>= onApplication p)
  have hfits : uplink = none ∧ ended = true ∨
      ∃ read', read = .ok read' ∧ Fitting w.pipes read' (uplink, ended) := by
    refine hanswer.imp_right fun hanswer => ?_
    cases read with
    | error => cases hanswer
    | ok read' => exact ⟨read', rfl, onApplication_fitting p read' _ _ hanswer⟩
  have hacted : ended = true ∨ Acted (w.uplinks ++ uplink.toList.map (w.pipes, ·)) := by
    rcases hfits with ⟨-, hended⟩ | ⟨read', -, hfits⟩
    · exact .inl hended
    · exact acted_append hfits
  rw [heq]
  cases h with
  | fresh _ hidle => exact absurd hidle hreading
  | waiting hdelay htaken _ hasked hasleep hnone =>
    refine .past htaken rfl (kept_of_early hdelay hasked hasleep ?_) (hacted.imp_right .inr)
    exact first_append (first_of_nil hnone) (.inl hnone)
  | past htaken hjoin hkept hdone =>
    have hdone := acted_of_going hgoing hdone
    have hdone : delay = none ∨ Acted (w.uplinks ++ uplink.toList.map (w.pipes, ·)) := by
      refine hdone.imp_right (Or.imp ?_ ?_)
      · exact fun ⟨pipes, bytes, wire, hwire⟩ => ⟨pipes, bytes, wire, mem_append_left _ hwire⟩
      · exact fun ⟨pipes, wire, hwire, hmade⟩ => ⟨pipes, wire, mem_append_left _ hwire, hmade⟩
    refine .past htaken rfl (kept_of_acted (first_append hkept.first ?_) hdone) (.inr hdone)
    rcases hfits with ⟨rfl, -⟩ | ⟨read', rfl, hfits⟩
    · exact .inr nofun
    · exact .inr (not_timeout hfits hread hjoin)

/-! ## Polls -/

theorem stage_poll (h : Stage delay w) (hcalm : Undisturbed w p) : Stage delay (w.poll p) := by
  fun_cases Relay.poll w p with
  | case1 => exact h
  | case2 hgoing _ read hread | case6 hgoing _ _ read hread =>
    obtain ⟨hask, hreading, hended⟩ := stage_ask h (Bool.eq_false_iff.mpr hgoing) p.now
    exact stage_application hask hreading hended hread
  | case3 hgoing hfirst hread =>
    obtain ⟨hask, hreading, hended⟩ := stage_ask h (Bool.eq_false_iff.mpr hgoing) p.now
    refine stage_silent hask ?_ hended (all_then (onNetwork_silent p))
    rw [Undisturbed] at hcalm
    rw [Relay.readApp] at hread
    split at hread
    · cases hread
    · next hnone =>
      simp_all
  | case5 hgoing hfirst read hnetwork =>
    refine stage_silent h ?_ (Bool.eq_false_iff.mpr hgoing) (all_then (onNetwork_silent p))
    rw [Undisturbed, hnetwork, if_neg hfirst] at hcalm
    exact hcalm.resolve_left (some_ne_none _)
  | case4 hgoing _ hread | case7 hgoing _ _ hread =>
    obtain ⟨hask, hreading, hended⟩ := stage_ask h (Bool.eq_false_iff.mpr hgoing) p.now
    exact stage_sleep hask hreading hended hread

theorem stage_started (h : Started delay w) : Stage delay w := by
  obtain ⟨p, layer, codec, rfl, rfl⟩ := h
  refine stage_silent (.fresh ?_ ?_ ?_ ?_ ?_) ?_ ?_ (all_then fun _ => (answers _ _).pure rfl)
  all_goals rfl

/-- In every run in which the network does not complete a poll while a deadline
is set, what the codec has for a silent application goes up first and once, and
no later than the task goes to sleep after the delay. -/
theorem prelude_kept (h : Reach (Started delay) Relay.poll Undisturbed w) :
    PreludeKept delay w :=
  (Reach.invariant (P := Stage delay) (fun _ => stage_started)
    (fun _ _ hstage hcalm => stage_poll hstage hcalm) h).kept

namespace SpliceExample

/-- A record layer that takes the content of records as it is, and sends what it is given. -/
structure Clear where
  received : Bytes := []
  pending : Bytes := []

instance : RecordLayer Clear where
  readTls layer bytes :=
    .ok (bytes.length, { layer with received := layer.received ++ bytes.drop tlsRecordHeaderLen })
  processNewPackets := .ok
  readPlaintext layer := .ok (layer.received, false, { layer with received := [] })
  writePlaintext layer bytes := .ok { layer with pending := layer.pending ++ bytes }
  writeTls layer := .ok (layer.pending, { layer with pending := [] })
  sendCloseNotify := id

/-- A codec with one byte to send. -/
instance : InnerCodec Unit where
  firstWriteDelay _ := some 500
  onFirstWriteTimeout _ := .ok ([1], ())
  uplink _ bytes := .ok (bytes, false, ())
  downlink _ bytes := .ok (bytes, false, ())

def first : Relay Clear Unit := .start ⟨0, true, none, none, true, true⟩ {} ()

theorem first_started : Started (some 500) first := ⟨_, _, _, rfl, rfl⟩

def quiet (now : Nat) : Poll := { now, appFirst := true }

/-- A record comes in. -/
def reply (now : Nat) (record : Bytes) : Poll :=
  { now, appFirst := true, network := some (.ok record) }

/-- A record without content. -/
def ticket : Bytes := [23, 3, 3, 0, 0]

end SpliceExample

open SpliceExample

theorem silent_application_told :
    ([quiet 0, quiet 500].foldl Relay.poll first).uplinks.map (·.2) = [.timeout [1]] ∧
      PreludeKept (some 500) ([quiet 0, quiet 500].foldl Relay.poll first) :=
  ⟨by decide, prelude_kept (Reach.run (.start first_started) (by decide))⟩

/-- A record comes in before the deadline, and the deadline is gone. -/
theorem deadline_dropped :
    Reach (Started (some 500)) Relay.poll anyAction
        ([quiet 0, reply 10 ticket, quiet 1000].foldl Relay.poll first) ∧
      ¬ PreludeKept (some 500)
        ([quiet 0, reply 10 ticket, quiet 1000].foldl Relay.poll first) := by
  refine ⟨Reach.run (.start first_started) (admissible_any _ _ _), fun h => ?_⟩
  have hnone : ([quiet 0, reply 10 ticket, quiet 1000].foldl Relay.poll first).uplinks = [] := rfl
  obtain ⟨_, _, hwire, -⟩ := h.due 500 0 1000 rfl (by decide) (by decide) (by decide)
    (by rw [hnone]; exact fun _ _ _ => not_mem_nil)
  cases hwire

end Foxcore.Proofs.Splice
