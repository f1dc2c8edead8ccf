import Foxcore.Lib.Scan

/-!
# Finite maps with the operations of a hash table

A hash table is read here as Mathlib's `AList`: a list of bindings in which
no key occurs twice, the uniqueness carried by the type. Lookup, insertion
and erasure are Mathlib's. What a program does to a table beyond that is
added below — updating a value in place, dropping the bindings a predicate
refuses, collecting a list of pairs — and each of them comes with the one
equation that says what a lookup finds afterwards, so nothing further up
ever opens the list of bindings.

The order of the bindings is whatever the operations leave. A program that
iterates over a hash table is given some order or other, and no lemma here
depends on which.
-/

namespace Foxcore.Lib

open List AList

variable {K V : Type} [DecidableEq K]

/-- A finite map from `K` to `V`, keys pairwise distinct. -/
abbrev HashMap (K V : Type) : Type := AList fun _ : K => V

namespace HashMap

/-- The number of bindings. -/
def len (m : HashMap K V) : Nat := m.keys.length

/-- The values, in the order of the bindings. -/
def values (m : HashMap K V) : List V := m.entries.map Sigma.snd

/-- The sum of a quantity over the values. -/
def total (f : V → Nat) (m : HashMap K V) : Nat := (m.values.map f).sum

/-- Binds `k` to what `f` makes of its present value, if it has one. -/
def upsert (k : K) (f : Option V → V) (m : HashMap K V) : HashMap K V :=
  m.insert k (f (m.lookup k))

/-- Changes the value of a bound key and leaves an unbound one alone. -/
def modify (k : K) (f : V → V) (m : HashMap K V) : HashMap K V :=
  match m.lookup k with
  | some v => m.insert k (f v)
  | none => m

/-- Rewrites every value, dropping the bindings for which `f` answers
nothing. -/
def filterMap (f : K → V → Option V) (m : HashMap K V) : HashMap K V where
  entries := m.entries.filterMap fun s => (f s.1 s.2).map (Sigma.mk s.1)
  nodupKeys := by
    have hnd := m.nodupKeys
    rw [nodupKeys_iff_pairwise] at hnd ⊢
    refine hnd.filterMap _ ?_
    intro s s' hne t ht t' ht'
    obtain ⟨v, -, rfl⟩ := Option.map_eq_some_iff.mp ht
    obtain ⟨v', -, rfl⟩ := Option.map_eq_some_iff.mp ht'
    exact hne

/-- Keeps the bindings `p` accepts. -/
def retain (p : K → V → Bool) (m : HashMap K V) : HashMap K V :=
  m.filterMap fun k v => if p k v then some v else none

/-- The map a list of pairs collects into: a later pair replaces an earlier
one with the same key. -/
def collect (l : List (K × V)) : HashMap K V :=
  l.foldl (fun m kv => m.insert kv.1 kv.2) ∅

/-- Drops the binding of least rank, the first such when several are. -/
def dropLeast (rank : V → Nat) (m : HashMap K V) : HashMap K V :=
  match scanMin (fun s : Sigma fun _ : K => V => some (rank s.2)) m.entries with
  | some s => m.erase s.1
  | none => m

/-- Drops bindings of least rank until no more than `bound` are left. -/
def evict (rank : V → Nat) (bound : Nat) (m : HashMap K V) : HashMap K V :=
  (dropLeast rank)^[m.len - bound] m

/-! ## What a lookup finds afterwards -/

theorem lookup_upsert (k k' : K) (f : Option V → V) (m : HashMap K V) :
    (m.upsert k f).lookup k' =
      if k' = k then some (f (m.lookup k)) else m.lookup k' := by
  unfold upsert
  split
  · next h => rw [h, lookup_insert]
  · next h => rw [lookup_insert_ne h]

theorem lookup_modify (k k' : K) (f : V → V) (m : HashMap K V) :
    (m.modify k f).lookup k' =
      if k' = k then (m.lookup k).map f else m.lookup k' := by
  unfold modify
  cases hk : m.lookup k with
  | none =>
    simp only [Option.map_none]
    split
    · next h => rw [h, hk]
    · rfl
  | some =>
    simp only [Option.map_some]
    split
    · next h => rw [h, lookup_insert]
    · next h => rw [lookup_insert_ne h]

theorem mem_entries {m : HashMap K V} {s : Sigma fun _ : K => V} :
    s ∈ m.entries ↔ m.lookup s.1 = some s.2 :=
  mem_lookup_iff.symm

theorem lookup_filterMap (f : K → V → Option V) (m : HashMap K V) (k : K) :
    (m.filterMap f).lookup k = (m.lookup k).bind (f k) := by
  ext v
  rw [← mem_entries (s := ⟨k, v⟩), filterMap, mem_filterMap, Option.bind_eq_some_iff]
  simp only [mem_entries, Option.map_eq_some_iff, Sigma.exists, Sigma.mk.injEq, heq_eq_eq]
  constructor
  · rintro ⟨_, v', hin, _, hf, rfl, rfl⟩
    exact ⟨v', hin, hf⟩
  · rintro ⟨v', hin, hf⟩
    exact ⟨k, v', hin, v, hf, rfl, rfl⟩

theorem lookup_retain (p : K → V → Bool) (m : HashMap K V) (k : K) :
    (m.retain p).lookup k = (m.lookup k).filter (p k) := by
  unfold retain
  rw [lookup_filterMap]
  cases m.lookup k with
  | none => rfl
  | some => simp [Option.filter]

theorem lookup_erase (k k' : K) (m : HashMap K V) :
    (m.erase k).lookup k' = if k' = k then none else m.lookup k' := by
  split
  · next h => rw [h, AList.lookup_erase]
  · next h => rw [lookup_erase_ne h]

theorem lookup_insert (k k' : K) (v : V) (m : HashMap K V) :
    (m.insert k v).lookup k' = if k' = k then some v else m.lookup k' := by
  split
  · next h => rw [h, AList.lookup_insert]
  · next h => rw [lookup_insert_ne h]

theorem lookup_foldl_insert (l : List (K × V)) (m : HashMap K V) (k : K) :
    (l.foldl (fun m kv => m.insert kv.1 kv.2) m).lookup k =
      ((l.reverse.find? fun kv => kv.1 = k).map Prod.snd).or (m.lookup k) := by
  induction l generalizing m with
  | nil => simp
  | cons kv rest ih =>
    rw [foldl_cons, ih]
    simp only [reverse_cons, find?_append]
    cases rest.reverse.find? fun kv => decide (kv.1 = k) with
    | some => simp
    | none =>
      by_cases h : kv.1 = k
      · simp [h]
      · simp [h, Ne.symm h]

/-- A collected map holds the last pair of each key. -/
theorem lookup_collect (l : List (K × V)) (k : K) :
    (collect l).lookup k =
      (l.reverse.find? fun kv => kv.1 = k).map Prod.snd := by
  unfold collect
  rw [lookup_foldl_insert]
  simp

theorem len_insert_of_none {k : K} {m : HashMap K V} (h : m.lookup k = none) (v : V) :
    (m.insert k v).keys.length = m.len + 1 := by
  have hk : k ∉ m.keys := fun hin => lookup_eq_none.mp h (mem_keys.mpr hin)
  rw [keys_insert, erase_of_not_mem hk]
  rfl

theorem len_insert_of_some {k : K} {m : HashMap K V} {w : V} (h : m.lookup k = some w) (v : V) :
    (m.insert k v).keys.length = m.len := by
  have hk : k ∈ m.keys :=
    mem_keys.mp (lookup_isSome.mp (by rw [h]; rfl))
  have hpos := length_pos_of_mem hk
  rw [keys_insert, length_cons, length_erase_of_mem hk]
  unfold len
  omega

/-- Bindings with new and distinct keys are all there afterwards. -/
theorem foldl_insert_new {l : List (K × V)} (hdistinct : (l.map Prod.fst).Nodup) {m : HashMap K V}
    (hnew : ∀ kv ∈ l, m.lookup kv.1 = none) :
    (∀ k v, (l.foldl (fun m kv => m.insert kv.1 kv.2) m).lookup k = some v ↔
      m.lookup k = some v ∨ (k, v) ∈ l) ∧
      (l.foldl (fun m kv => m.insert kv.1 kv.2) m).keys.length = m.len + l.length := by
  induction l generalizing m with
  | nil => exact ⟨fun k v => by simp, rfl⟩
  | cons kv l ih =>
    obtain ⟨hfirst, hrest⟩ := nodup_cons.mp hdistinct
    obtain ⟨hnone, hnones⟩ := forall_mem_cons.mp hnew
    have hnext : ∀ kv' ∈ l, (m.insert kv.1 kv.2).lookup kv'.1 = none := by
      intro kv' hmem
      have hne : kv'.1 ≠ kv.1 := fun heq => hfirst (heq ▸ mem_map_of_mem hmem)
      rw [lookup_insert, if_neg hne]
      exact hnones kv' hmem
    obtain ⟨hlook, hlen⟩ := ih hrest hnext
    refine ⟨fun k v => ?_, ?_⟩
    · rw [foldl_cons, hlook, lookup_insert, mem_cons, ← or_assoc]
      refine or_congr_left ?_
      split
      · next heq =>
        rw [heq, hnone, Option.some.injEq]
        constructor
        · rintro rfl
          exact .inr rfl
        · rintro (h | h)
          · cases h
          · exact (congrArg Prod.snd h).symm
      · next hne =>
        constructor
        · exact .inl
        · rintro (h | h)
          · exact h
          · exact absurd (congrArg Prod.fst h) hne
    · have hone : len (m.insert kv.1 kv.2) = m.len + 1 := len_insert_of_none hnone kv.2
      rw [foldl_cons, hlen, length_cons]
      omega

theorem len_upsert_le (k : K) (f : Option V → V) (m : HashMap K V) :
    (m.upsert k f).len ≤ m.len + 1 := by
  cases h : m.lookup k with
  | none => exact Nat.le_of_eq (len_insert_of_none h _)
  | some => exact Nat.le_succ_of_le (Nat.le_of_eq (len_insert_of_some h _))

/-- Dropping a binding adds none. -/
theorem lookup_dropLeast {rank : V → Nat} {m : HashMap K V} {k : K} {v : V}
    (h : (m.dropLeast rank).lookup k = some v) : m.lookup k = some v := by
  unfold dropLeast at h
  split at h
  · rw [lookup_erase] at h
    split at h
    · cases h
    · exact h
  · exact h

theorem lookup_evict {rank : V → Nat} {bound : Nat} {m : HashMap K V} {k : K} {v : V}
    (h : (m.evict rank bound).lookup k = some v) : m.lookup k = some v := by
  unfold evict at h
  generalize m.len - bound = n at h
  induction n with
  | zero => exact h
  | succ n ih =>
    rw [Function.iterate_succ_apply'] at h
    exact ih (lookup_dropLeast h)

theorem len_erase_of_some {k : K} {m : HashMap K V} {v : V} (h : m.lookup k = some v) :
    len (m.erase k) + 1 = m.len := by
  have hk : k ∈ m.keys := mem_keys.mp (lookup_isSome.mp (by rw [h]; rfl))
  have hpos := length_pos_of_mem hk
  unfold len
  rw [keys_erase, length_erase_of_mem hk]
  omega

/-- What is dropped is a binding of least rank, when there is one at all. -/
theorem dropLeast_spec (rank : V → Nat) {m : HashMap K V} (h : 0 < m.len) :
    ∃ k v, m.lookup k = some v ∧ m.dropLeast rank = m.erase k ∧
      ∀ k' v', m.lookup k' = some v' → rank v ≤ rank v' := by
  let key : (Sigma fun _ : K => V) → Option Nat := fun s => some (rank s.2)
  have hscan : ∀ k v, m.lookup k = some v →
      ∃ s r, scanMin key m.entries = some s ∧ key s = some r ∧ r ≤ rank v := fun k v hlook =>
    scanMin_le (mem_lookup_iff.mp hlook) rfl
  obtain ⟨k₀, hk₀⟩ := exists_mem_of_length_pos h
  obtain ⟨v₀, hv₀⟩ := Option.isSome_iff_exists.mp (lookup_isSome.mpr (mem_keys.mpr hk₀))
  obtain ⟨s, r, hs, -, -⟩ := hscan k₀ v₀ hv₀
  refine ⟨s.1, s.2, mem_lookup_iff.mpr (scanMin_some hs).1, ?_, fun k' v' hlook => ?_⟩
  · unfold dropLeast
    rw [hs]
  · obtain ⟨s', r', hs', hr', hle⟩ := hscan k' v' hlook
    rw [hs] at hs'
    cases hs'
    cases hr'
    exact hle

/-- Dropping bindings one after the other: each time one goes, and none that stays
has a smaller rank than one that went. -/
theorem iterate_dropLeast (rank : V → Nat) (m : HashMap K V) (n : Nat) (hn : n ≤ m.len) :
    len ((dropLeast rank)^[n] m) = m.len - n ∧
    (∀ k v, ((dropLeast rank)^[n] m).lookup k = some v → m.lookup k = some v) ∧
    ∀ k v k' v', m.lookup k = some v → ((dropLeast rank)^[n] m).lookup k = none →
      ((dropLeast rank)^[n] m).lookup k' = some v' → rank v ≤ rank v' := by
  induction n with
  | zero =>
    refine ⟨rfl, fun _ _ h => h, fun k v k' v' h hnone _ => ?_⟩
    rw [Function.iterate_zero_apply, h] at hnone
    cases hnone
  | succ n ih =>
    obtain ⟨hlen, hsub, hleast⟩ := ih (Nat.le_of_succ_le hn)
    rw [Function.iterate_succ_apply']
    generalize (dropLeast rank)^[n] m = m' at hlen hsub hleast
    obtain ⟨k₀, v₀, hlook, heq, hmin⟩ := dropLeast_spec rank (m := m') (by omega)
    have hshrink := len_erase_of_some hlook
    rw [heq]
    have hback : ∀ k v, (m'.erase k₀).lookup k = some v → m'.lookup k = some v := by
      intro k v h
      rw [lookup_erase] at h
      split at h
      · cases h
      · exact h
    refine ⟨by omega, fun k v h => hsub k v (hback k v h), fun k v k' v' h hnone hstays => ?_⟩
    rw [lookup_erase] at hnone
    split at hnone
    · -- it went just now
      next hk =>
        cases h' : m'.lookup k with
        | none => exact hleast k v k' v' h h' (hback k' v' hstays)
        | some =>
          cases (hk ▸ h).symm.trans (hsub _ _ hlook)
          exact hmin k' v' (hback k' v' hstays)
    · exact hleast k v k' v' h hnone (hback k' v' hstays)

/-- An eviction drops only as many bindings as are too many, and none that stays has
a smaller rank than one that went. -/
theorem evict_spec (rank : V → Nat) (bound : Nat) (m : HashMap K V) :
    (m.evict rank bound).len = min m.len bound ∧
    ∀ k v k' v', m.lookup k = some v → (m.evict rank bound).lookup k = none →
      (m.evict rank bound).lookup k' = some v' → rank v ≤ rank v' := by
  obtain ⟨hlen, -, hleast⟩ := iterate_dropLeast rank m (m.len - bound) (Nat.sub_le _ _)
  refine ⟨?_, hleast⟩
  unfold evict
  omega

theorem mem_values (m : HashMap K V) (v : V) : v ∈ m.values ↔ ∃ k, m.lookup k = some v := by
  simp [values, mem_entries]

/-! ## Totals

Each is an equation between sums, so nothing is subtracted. -/

theorem total_erase {k : K} {m : HashMap K V} {w : V} (h : m.lookup k = some w) (f : V → Nat) :
    total f (m.erase k) + f w = total f m := by
  have hk : k ∈ m.entries.keys := mem_keys.mp (lookup_isSome.mp (by rw [h]; rfl))
  obtain ⟨w', before, after, -, hentries, herased⟩ := exists_of_kerase hk
  have hmem : (⟨k, w'⟩ : Sigma fun _ : K => V) ∈ m.entries := by
    rw [hentries]
    exact mem_append_right _ mem_cons_self
  cases h.symm.trans (mem_lookup_iff.mpr hmem)
  show ((((m.entries.kerase k).map Sigma.snd).map f).sum) + f w =
    ((m.entries.map Sigma.snd).map f).sum
  rw [herased, hentries]
  simp only [map_append, map_cons, sum_append, sum_cons]
  omega

theorem total_insert_of_none {k : K} {m : HashMap K V} (h : m.lookup k = none) (v : V)
    (f : V → Nat) : total f (m.insert k v) = f v + total f m := by
  have hk : k ∉ m.entries.keys := fun hin => lookup_eq_none.mp h (mem_keys.mpr hin)
  show f v + (((m.entries.kerase k).map Sigma.snd).map f).sum = _
  rw [kerase_of_notMem_keys hk]
  rfl

theorem total_insert_of_some {k : K} {m : HashMap K V} {w : V} (h : m.lookup k = some w) (v : V)
    (f : V → Nat) : total f (m.insert k v) + f w = f v + total f m := by
  show f v + total f (m.erase k) + f w = _
  rw [Nat.add_assoc, total_erase h f]

end HashMap

end Foxcore.Lib
