import Foxcore.Spec.LanProxy

/-!
# The names of LAN proxies

Whether a stop gives the name back is read from the handle's state. As long as no
network change is told to a handle that was stopped before, that state says whether
it ever was (`Sound.stopped`), and then a name is given back once, by its owner.
-/

namespace Foxcore.Proofs.Lan

open Lib Ref.Lan Spec.Lan List World

variable {κ : Type} {w w' : World κ} {platform : Platform} {plan : InboundPlan κ}
  {binding : NetworkBinding} {authorization : BindingAuthorization} {i j : Nat}
  {h h' : LanProxyHandle κ} {id : κ}

structure Sound (w : World κ) : Prop where
  registered : ∀ id, id ∈ w.lanProxies ↔ ∃ i, Owns w i id
  unique : ∀ i j id, Owns w i id → Owns w j id → i = j
  stopped : ∀ (i : Nat) (h : LanProxyHandle κ), w.handles[i]? = some h →
    (h.state = .stopped ↔ h.everStopped = true)

theorem owns_append (names : Finset κ) (new : LanProxyHandle κ) (hnew : new.everStopped = false) :
    Owns ⟨names, w.handles ++ [new]⟩ i id ↔ Owns w i id ∨ i = w.handles.length ∧ new.id = id := by
  simp only [Owns, getElem?_append, getElem?_singleton]
  split
  · simp [Nat.ne_of_lt ‹_›]
  · next hge =>
    rw [getElem?_eq_none (Nat.not_lt.mp hge)]
    split
    · simp [hnew, show i = w.handles.length by omega]
    · simp [show i ≠ w.handles.length by omega]

theorem owns_set (names : Finset κ) (hi : w.handles[i]? = some h) (hid : h'.id = h.id) :
    Owns ⟨names, w.handles.set i h'⟩ j id ↔
      if j = i then h.id = id ∧ h'.everStopped = false else Owns w j id := by
  have hlt := (List.getElem?_eq_some_iff.mp hi).1
  simp only [Owns]
  by_cases heq : j = i
  · simp [heq, hlt, hid]
  · simp [heq, Ne.symm heq]

theorem sound_networkChanged (hsound : Sound w) (hi : w.handles[i]? = some h)
    (hgoing : h.everStopped = false) : Sound (w.networkChanged i h) := by
  have howns : ∀ j id, Owns (w.networkChanged i h) j id ↔ Owns w j id := by
    intro j id
    rw [networkChanged, owns_set _ hi (by rfl)]
    split
    · next heq => simp [Owns, heq, hi]
    · rfl
  refine ⟨fun id => ?_, fun j k id => ?_, fun j h' hj => ?_⟩
  · simp only [howns]
    exact hsound.registered id
  · rw [howns, howns]
    exact hsound.unique j k id
  · rw [networkChanged, getElem?_set] at hj
    split_ifs at hj
    · cases hj
      simp [hgoing]
    · exact hsound.stopped j h' hj

variable [DecidableEq κ]

theorem startWithBinding_ok
    (hok : w.startWithBinding platform plan binding authorization = .ok w') :
    plan.id ∉ w.lanProxies ∧
      w' = ⟨insert plan.id w.lanProxies, w.handles ++ [{ id := plan.id }]⟩ := by
  unfold startWithBinding at hok
  split_ifs at hok with _ _ _ _ _ hfree
  cases hok
  exact ⟨hfree, rfl⟩

theorem startWithBinding_exists
    (herror : w.startWithBinding platform plan binding authorization = .error .alreadyExists) :
    plan.id ∈ w.lanProxies := by
  unfold startWithBinding at herror
  split_ifs at herror with _ _ _ _ _ htaken <;> first | exact htaken | cases herror

theorem sound_start (hsound : Sound w) (request : World.Request κ) :
    Sound (w.apply (.start platform request)) := by
  have hbound : ∀ {plan : InboundPlan κ} {binding authorization}, Sound
      ((w.startWithBinding platform plan binding authorization).toOption.getD w) := by
    intro plan binding authorization
    cases hrun : w.startWithBinding platform plan binding authorization with
    | error => exact hsound
    | ok =>
      obtain ⟨hfree, rfl⟩ := startWithBinding_ok hrun
      have hnobody : ∀ i, ¬ Owns w i plan.id := fun i howns =>
        hfree ((hsound.registered _).mpr ⟨i, howns⟩)
      show Sound (⟨insert plan.id w.lanProxies, w.handles ++ [{ id := plan.id }]⟩ : World κ)
      refine ⟨fun id => ?_, fun i j id hi hj => ?_, fun i h hi => ?_⟩
      · simp only [Finset.mem_insert, hsound.registered, owns_append _ ⟨plan.id, _, _, _⟩ rfl,
          exists_or, exists_eq_left]
        rw [or_comm, eq_comm]
      · rw [owns_append _ _ rfl] at hi hj
        obtain hi | ⟨rfl, rfl⟩ := hi <;> obtain hj | ⟨rfl, hid⟩ := hj
        · exact hsound.unique i j id hi hj
        · cases hid
          exact absurd hi (hnobody i)
        · exact absurd hj (hnobody j)
        · rfl
      · rw [getElem?_append, getElem?_singleton] at hi
        split_ifs at hi
        · exact hsound.stopped i h hi
        · cases hi
          simp
  cases request with
  | _ => exact hbound

theorem owns_stop (hi : w.handles[i]? = some h) {dropped : Bool} :
    Owns (w.stop i h dropped) j id ↔ j ≠ i ∧ Owns w j id := by
  rw [stop, owns_set _ hi (by rfl)]
  split <;> simp [*]

/-- The name of the handle goes, unless it went before. -/
theorem mem_stop (hsound : Sound w) (hi : w.handles[i]? = some h) {dropped : Bool} :
    id ∈ (w.stop i h dropped).lanProxies ↔ ∃ j, j ≠ i ∧ Owns w j id := by
  have hstopped := hsound.stopped i h hi
  by_cases hever : h.everStopped = true
  · have hnot : ¬ Owns w i id := by simp [Owns, hi, hever]
    simp only [stop, hstopped.mpr hever, ne_eq, not_true, if_false, hsound.registered]
    exact exists_congr fun j => ⟨fun hj => ⟨fun heq => hnot (heq ▸ hj), hj⟩, And.right⟩
  · have howns : Owns w i h.id := ⟨h, hi, rfl, Bool.eq_false_iff.mpr hever⟩
    simp only [stop, ne_eq, mt hstopped.mp hever, not_false_eq_true, if_true,
      Finset.mem_erase, hsound.registered]
    constructor
    · rintro ⟨hne, j, hj⟩
      refine ⟨j, ?_, hj⟩
      rintro rfl
      obtain ⟨_, hi', hid, -⟩ := hj
      cases hi.symm.trans hi'
      exact hne hid.symm
    · rintro ⟨j, hne, hj⟩
      refine ⟨?_, j, hj⟩
      rintro rfl
      exact hne (hsound.unique j i _ hj howns)

theorem sound_stop (hsound : Sound w) (hi : w.handles[i]? = some h) (dropped : Bool) :
    Sound (w.stop i h dropped) := by
  refine ⟨fun id => ?_, fun j k id hj hk => ?_, fun j h' hj => ?_⟩
  · simp only [mem_stop hsound hi, owns_stop hi]
  · exact hsound.unique j k id ((owns_stop hi).mp hj).2 ((owns_stop hi).mp hk).2
  · rw [stop, getElem?_set] at hj
    split_ifs at hj
    · cases hj
      simp
    · exact hsound.stopped j h' hj

theorem sound_apply (hsound : Sound w) {action : World.Action κ} (hok : NotAfterStop w action) :
    Sound (w.apply action) := by
  have hthere : ∀ {i h}, w.handle i = some h → w.handles[i]? = some h := fun hi =>
    (Option.filter_eq_some_iff.mp hi).1
  cases action with
  | start platform request => exact sound_start hsound request
  | networkChanged i =>
    rw [apply]
    cases hi : w.handle i with
    | none => exact hsound
    | some h => exact sound_networkChanged hsound (hthere hi) (hok h hi)
  | stop i | drop i =>
    rw [apply]
    cases hi : w.handle i with
    | none => exact hsound
    | some => exact sound_stop hsound (hthere hi) _

theorem oneOwner_of_sound (hsound : Sound w) : OneOwner w := by
  have hkept : ∀ {i j id} dropped, i ≠ j → Owns w j id →
      id ∈ ((w.handle i).elim w (w.stop i · dropped)).lanProxies := by
    intro i j id dropped hne hj
    cases hi : w.handle i with
    | none => exact (hsound.registered id).mpr ⟨j, hj⟩
    | some => exact (mem_stop hsound (Option.filter_eq_some_iff.mp hi).1).mpr ⟨j, hne.symm, hj⟩
  refine ⟨hsound.registered, hsound.unique, fun platform request herror => ?_,
    fun i j id hne hj => ⟨hkept false hne hj, hkept true hne hj⟩⟩
  rw [← hsound.registered]
  cases request with
  | _ => exact startWithBinding_exists herror

/-- As long as no network change is told to a proxy that was stopped, every name has
one owner. -/
theorem names_have_one_owner {w : World κ}
    (hreach : Reach (fun w : World κ => w = {}) World.apply NotAfterStop w) : OneOwner w := by
  refine oneOwner_of_sound (hreach.invariant ?_ fun _ _ hw hok => sound_apply hw hok)
  rintro _ rfl
  exact ⟨fun id => by simp [Owns], by simp [Owns], by simp⟩

namespace Example

def inbound : World.Action Nat :=
  .start ⟨fun _ => true, fun _ => true, fun _ => true⟩ (.startLoopbackInbound ⟨7, 0, true, .vpn⟩)

end Example

open Example in
/-- A name is started again after a stop, and the first handle is dropped. -/
theorem restarted_name_has_owner :
    OneOwner ([inbound, .networkChanged 0, .stop 0, inbound, .drop 0].foldl World.apply {}) :=
  names_have_one_owner (.run (.start rfl) (by decide +kernel))

open Example in
/-- The first handle is told of a network change after it was stopped. -/
theorem late_change_takes_name :
    ∃ w : World Nat, Reach (fun w : World Nat => w = {}) World.apply anyAction w ∧
      Owns w 1 7 ∧ 7 ∉ w.lanProxies :=
  ⟨[inbound, .stop 0, inbound, .networkChanged 0, .drop 0].foldl apply {},
    .run (.start rfl) (admissible_any _ _ _), ⟨⟨7, .ready, false, false⟩, by decide +kernel⟩,
    by decide +kernel⟩

end Foxcore.Proofs.Lan
