import Mathlib

/-!
# The first element of least key

`scanMin key l` walks a list once and keeps the first element whose key is
least; elements without a key are passed over. It is what "the best candidate,
ties going to the earlier one" means as a program.

An index answers the same question without the walk, by asking the classes of
candidates one after another and stopping at the first that has a member.
`findSome?_find?_eq_scanMin` says the two agree, where the key of an element
is the position of the first class it belongs to. `scanMin_congr` lets that
position be traded for any other key that orders the elements alike.
-/

namespace Foxcore.Lib

open List

variable {α κ κ' : Type}

/-- Keeps the better of the best element so far and the next one: the
newcomer wins only when its key is strictly smaller. -/
def scanStep [LT κ] [DecidableRel (α := κ) (· < ·)] (key : α → Option κ)
    (best : Option α) (x : α) : Option α :=
  match key x, best with
  | none, b => b
  | some _, none => some x
  | some k, some b =>
    match key b with
    | none => some x
    | some kb => if k < kb then some x else some b

/-- The first element of least key, among those that have one. -/
def scanMin [LT κ] [DecidableRel (α := κ) (· < ·)] (key : α → Option κ)
    (l : List α) : Option α :=
  l.foldl (scanStep key) none

/-! ## Reading off the result -/

section LT

variable [LT κ] [DecidableRel (α := κ) (· < ·)] {key : α → Option κ} {l : List α}

theorem scanStep_none {best : Option α} {x : α} (h : key x = none) :
    scanStep key best x = best := by
  unfold scanStep
  simp only [h]

theorem scanStep_first {x : α} {k : κ} (h : key x = some k) : scanStep key none x = some x := by
  unfold scanStep
  simp only [h]

theorem scanStep_some {b x : α} {k kb : κ} (h : key x = some k) (hb : key b = some kb) :
    scanStep key (some b) x = if k < kb then some x else some b := by
  unfold scanStep
  simp only [h, hb]

theorem scanMin_append_singleton (l : List α) (x : α) :
    scanMin key (l ++ [x]) = scanStep key (scanMin key l) x := by
  rw [scanMin, foldl_append]
  rfl

/-- Whatever the scan holds in hand is an element with a key. -/
theorem scanMin_some {x : α} (h : scanMin key l = some x) : x ∈ l ∧ ∃ k, key x = some k := by
  induction l using List.reverseRecOn generalizing x with
  | nil => cases h
  | append_singleton l y ih =>
    rw [scanMin_append_singleton] at h
    cases hk : key y with
    | none =>
      rw [scanStep_none hk] at h
      obtain ⟨hin, hkey⟩ := ih h
      exact ⟨by simp [hin], hkey⟩
    | some k =>
      cases hb : scanMin key l with
      | none =>
        rw [hb, scanStep_first hk] at h
        cases h
        exact ⟨by simp, k, hk⟩
      | some =>
        obtain ⟨hin, kb, hkb⟩ := ih hb
        rw [hb, scanStep_some hk hkb] at h
        split at h
        · cases h
          exact ⟨by simp, k, hk⟩
        · cases h
          exact ⟨by simp [hin], kb, hkb⟩

theorem scanMin_eq_none (h : ∀ y ∈ l, key y = none) : scanMin key l = none := by
  induction l using List.reverseRecOn with
  | nil => rfl
  | append_singleton l y ih =>
    rw [scanMin_append_singleton, scanStep_none (h y (by simp))]
    exact ih fun z hz => h z (by simp [hz])

end LT

section LinearOrder

variable [LinearOrder κ]

/-- An element strictly better than all before it and at least as good as all
behind it is the one the scan returns. -/
theorem scanMin_eq_some (key : α → Option κ) {l₁ l₂ : List α} {x : α} {k : κ} (hk : key x = some k)
    (hbefore : ∀ y ∈ l₁, ∀ ky, key y = some ky → k < ky)
    (hbehind : ∀ y ∈ l₂, ∀ ky, key y = some ky → k ≤ ky) :
    scanMin key (l₁ ++ x :: l₂) = some x := by
  induction l₂ using List.reverseRecOn with
  | nil =>
    rw [scanMin_append_singleton]
    cases hb : scanMin key l₁ with
    | none => rw [scanStep_first hk]
    | some b =>
      obtain ⟨hin, kb, hkb⟩ := scanMin_some hb
      rw [scanStep_some hk hkb, if_pos (hbefore b hin kb hkb)]
  | append_singleton l₂ y ih =>
    have hprev := ih fun z hz => hbehind z (by simp [hz])
    rw [← cons_append, ← append_assoc, scanMin_append_singleton,
      hprev]
    cases hy : key y with
    | none => rw [scanStep_none hy]
    | some ky =>
      rw [scanStep_some hy hk,
        if_neg (not_lt.mpr (hbehind y (by simp) ky hy))]

/-- The scan finds an element at least as good as any there is. -/
theorem scanMin_le {key : α → Option κ} {l : List α} {y : α} {ky : κ} (hmem : y ∈ l)
    (hky : key y = some ky) : ∃ x k, scanMin key l = some x ∧ key x = some k ∧ k ≤ ky := by
  induction l using List.reverseRecOn with
  | nil => exact absurd hmem not_mem_nil
  | append_singleton l z ih =>
    rw [scanMin_append_singleton]
    cases hkz : key z with
    | none =>
      rw [scanStep_none hkz]
      rcases mem_append.mp hmem with hl | hz
      · exact ih hl
      · obtain rfl := mem_singleton.mp hz
        rw [hkz] at hky
        cases hky
    | some kz =>
      cases hb : scanMin key l with
      | none =>
        rw [scanStep_first hkz]
        refine ⟨z, kz, rfl, hkz, ?_⟩
        rcases mem_append.mp hmem with hl | hz
        · obtain ⟨x, k, hx, -⟩ := ih hl
          rw [hb] at hx
          cases hx
        · obtain rfl := mem_singleton.mp hz
          rw [hkz] at hky
          cases hky
          exact le_rfl
      | some b =>
        obtain ⟨-, kb, hkb⟩ := scanMin_some hb
        rw [scanStep_some hkz hkb]
        have hle : min kz kb ≤ ky := by
          rcases mem_append.mp hmem with hl | hz
          · obtain ⟨x, k, hx, hk, hle⟩ := ih hl
            rw [hb] at hx
            cases hx
            rw [hkb] at hk
            cases hk
            exact le_trans (min_le_right _ _) hle
          · obtain rfl := mem_singleton.mp hz
            rw [hkz] at hky
            cases hky
            exact min_le_left _ _
        split
        · next hlt => exact ⟨z, kz, rfl, hkz, by rwa [min_eq_left hlt.le] at hle⟩
        · next hge => exact ⟨b, kb, rfl, hkb, by rwa [min_eq_right (not_lt.mp hge)] at hle⟩

/-- Asking an ordered list of classes for their first member, one class after
another, finds the first element of least class. -/
theorem findSome?_find?_eq_scanMin (classes : List (α → Bool)) (l : List α) :
    classes.findSome? (fun c => l.find? c) =
      scanMin (fun x => classes.findIdx? fun c => c x) l := by
  cases h : classes.findSome? (fun c => l.find? c) with
  | none =>
    have hkeys : ∀ y ∈ l, (classes.findIdx? fun c => c y) = none := by
      intro y hy
      rw [findIdx?_eq_none_iff]
      intro c hc
      have hnone := findSome?_eq_none_iff.mp h c hc
      simpa using find?_eq_none.mp hnone y hy
    exact (scanMin_eq_none hkeys).symm
  | some x =>
    obtain ⟨cs₁, c, cs₂, rfl, hx, hearlier⟩ := findSome?_eq_some_iff.mp h
    obtain ⟨hcx, l₁, l₂, rfl, hl₁⟩ := find?_eq_some_iff_append.mp hx
    -- No earlier class has a member at all, so every key is at least
    -- the position of `c`, and it is that position only inside `c`.
    have hout : ∀ y ∈ l₁ ++ x :: l₂, ∀ d ∈ cs₁, d y = false := by
      intro y hy d hd
      simpa using find?_eq_none.mp (hearlier d hd) y hy
    have hge : ∀ y ∈ l₁ ++ x :: l₂, ∀ k,
        (cs₁ ++ c :: cs₂).findIdx? (fun c => c y) = some k →
        cs₁.length ≤ k ∧ (c y = false → cs₁.length < k) := by
      intro y hy k hk
      obtain ⟨hlt, hck, -⟩ := findIdx?_eq_some_iff_getElem.mp hk
      refine ⟨?_, fun hcy => ?_⟩
      · by_contra hcon
        have hin : k < cs₁.length := by omega
        rw [getElem_append_left hin] at hck
        rw [hout y hy _ (getElem_mem hin)] at hck
        cases hck
      · by_contra hcon
        rcases Nat.lt_or_ge k cs₁.length with hin | hge
        · rw [getElem_append_left hin] at hck
          rw [hout y hy _ (getElem_mem hin)] at hck
          cases hck
        · obtain rfl : k = cs₁.length := by omega
          have hat : (cs₁ ++ c :: cs₂)[cs₁.length] = c := by simp
          rw [hat, hcy] at hck
          cases hck
    have hkx : (cs₁ ++ c :: cs₂).findIdx? (fun c => c x) =
        some cs₁.length := by
      rw [findIdx?_append, findIdx?_eq_none_iff.mpr (by
        intro d hd
        simpa using hout x (by simp) d hd)]
      simp [findIdx?_cons, hcx]
    have hbefore : ∀ y ∈ l₁, ∀ k,
        (cs₁ ++ c :: cs₂).findIdx? (fun c => c y) = some k →
        cs₁.length < k := by
      intro y hy k hk
      exact (hge y (by simp [hy]) k hk).2 (by simpa using hl₁ y hy)
    have hbehind : ∀ y ∈ l₂, ∀ k,
        (cs₁ ++ c :: cs₂).findIdx? (fun c => c y) = some k →
        cs₁.length ≤ k :=
      fun y hy k hk => (hge y (by simp [hy]) k hk).1
    exact (scanMin_eq_some (fun x => (cs₁ ++ c :: cs₂).findIdx? fun c => c x)
      hkx hbefore hbehind).symm

end LinearOrder

/-- Filing an element several times over does not change which one is found
first. -/
theorem find?_flatMap_replicate (n : α → Nat) (p : α → Bool) (l : List α) :
    (l.flatMap fun x => List.replicate (n x) x).find? p =
      l.find? fun x => decide (0 < n x) && p x := by
  induction l with
  | nil => rfl
  | cons x rest ih =>
    rw [flatMap_cons, find?_append, ih, find?_cons]
    cases hn : n x with
    | zero => simp
    | succ =>
      cases hp : p x with
      | false | true => simp [hp]

/-- Two keys that are defined on the same elements and compare them alike
scan alike. -/
theorem scanMin_congr [LT κ] [DecidableRel (α := κ) (· < ·)] [LT κ']
    [DecidableRel (α := κ') (· < ·)] {key : α → Option κ} {key' : α → Option κ'}
    (hnone : ∀ x, key x = none ↔ key' x = none)
    (hlt : ∀ x y kx ky kx' ky', key x = some kx → key y = some ky →
      key' x = some kx' → key' y = some ky' → (kx < ky ↔ kx' < ky')) (l : List α) :
    scanMin key l = scanMin key' l := by
  have hstep : scanStep key = scanStep key' := by
    funext best x
    cases hx : key x with
    | none =>
      have hx' := (hnone x).mp hx
      simp only [scanStep, hx, hx']
    | some kx =>
      obtain ⟨kx', hx'⟩ := Option.ne_none_iff_exists'.mp
        (fun h => by simpa [hx] using (hnone x).mpr h)
      cases best with
      | none => simp only [scanStep, hx, hx']
      | some b =>
        cases hb : key b with
        | none =>
          have hb' := (hnone b).mp hb
          simp only [scanStep, hx, hx', hb, hb']
        | some kb =>
          obtain ⟨kb', hb'⟩ := Option.ne_none_iff_exists'.mp
            (fun h => by simpa [hb] using (hnone b).mpr h)
          simp only [scanStep, hx, hx', hb, hb',
            hlt x b kx kb kx' kb' hx hb hx' hb']
  rw [scanMin, scanMin, hstep]

end Foxcore.Lib
