import Mathlib

/-!
# Tries that keep a list of values at every node

A node holds the values filed under exactly the path that leads to it and a
table of children by label. Two operations matter to a program that uses such
a trie as a longest-prefix index: filing a value under a path, and walking a
path while remembering the lists met on the way.

`valuesAt` is the meaning of a trie: the values filed under a path, in the
order they were filed. `valuesAt_insert` says that an insertion changes that
meaning at one path only. `levels_reverse_flatten` says what the walk is good
for: the lists it collects, deepest first, are the meanings of all nonempty
prefixes of the path, longest first. The walk stops at the first missing
child, and nothing is lost there, because a path through a missing child has
nothing filed under it.
-/

namespace Foxcore.Lib

open List

/-- A trie over labels `κ` with values `α`. -/
inductive Trie (κ α : Type) where
  | node (here : List α) (children : List (κ × Trie κ α))

namespace Trie

variable {κ α : Type} [DecidableEq κ]

/-- The trie with nothing filed in it. -/
def empty : Trie κ α := .node [] []

/-- The values filed under the empty path. -/
def here : Trie κ α → List α
  | .node vs _ => vs

/-- The children by label. -/
def children : Trie κ α → List (κ × Trie κ α)
  | .node _ cs => cs

/-- The child behind a label. -/
def child (k : κ) (t : Trie κ α) : Option (Trie κ α) :=
  (t.children.find? fun c => c.1 = k).map Prod.snd

/-- Puts `c` behind the label `k`, replacing what stood there. -/
def setChild (k : κ) (c : Trie κ α) : List (κ × Trie κ α) → List (κ × Trie κ α)
  | [] => [(k, c)]
  | (k', c') :: rest => if k' = k then (k, c) :: rest else (k', c') :: setChild k c rest

/-- Files a value under a path, creating the nodes that are missing. -/
def insert : List κ → α → Trie κ α → Trie κ α
  | [], v, t => .node (t.here ++ [v]) t.children
  | k :: ks, v, t =>
    .node t.here (setChild k (insert ks v ((t.child k).getD empty)) t.children)

/-- The lists of values met on the way down a path, one for each label that
could be followed. -/
def levels : List κ → Trie κ α → List (List α)
  | [], _ => []
  | k :: ks, t =>
    match t.child k with
    | none => []
    | some c => c.here :: levels ks c

/-- The values filed under a path. -/
def valuesAt : List κ → Trie κ α → List α
  | [], t => t.here
  | k :: ks, t =>
    match t.child k with
    | none => []
    | some c => valuesAt ks c

theorem find_setChild (k k' : κ) (c : Trie κ α) (cs : List (κ × Trie κ α)) :
    ((setChild k c cs).find? fun x => x.1 = k').map Prod.snd =
      if k' = k then some c else (cs.find? fun x => x.1 = k').map Prod.snd := by
  induction cs with
  | nil =>
    by_cases h : k' = k
    · simp [setChild, h]
    · simp [setChild, h, Ne.symm h]
  | cons x rest ih =>
    obtain ⟨k₀, c₀⟩ := x
    rw [setChild]
    split
    · next h0 =>
      subst h0
      by_cases h : k' = k₀
      · simp [h]
      · simp [h, Ne.symm h]
    · next h0 =>
      by_cases h : k₀ = k'
      · subst h
        simp [h0]
      · simp only [find?_cons, h]
        exact ih

@[simp]
theorem valuesAt_empty (p : List κ) : valuesAt p (empty : Trie κ α) = [] := by
  cases p <;> rfl

/-- Filing a value under `p` appends it to what is filed under `p` and
changes nothing elsewhere. -/
theorem valuesAt_insert (p q : List κ) (v : α) (t : Trie κ α) :
    valuesAt q (insert p v t) =
      if q = p then valuesAt p t ++ [v] else valuesAt q t := by
  induction p generalizing q t with
  | nil =>
    cases q <;> rfl
  | cons k ks ih =>
    cases q with
    | nil => rfl
    | cons k' =>
      rw [insert, valuesAt, child, children, find_setChild]
      by_cases hk : k' = k
      · subst hk
        simp only [if_pos]
        rw [ih]
        cases hc : t.child k' with
        | none | some c => simp [valuesAt, hc]
      · rw [if_neg hk, if_neg (by simp [hk])]
        rfl

/-- The lists met on the way down, deepest first and concatenated, are the
meanings of the nonempty prefixes of the path, longest first. -/
theorem levels_reverse_flatten (p : List κ) (t : Trie κ α) :
    (levels p t).reverse.flatten =
      (p.inits.tail.reverse.flatMap fun q => valuesAt q t) := by
  induction p generalizing t with
  | nil => simp [levels]
  | cons k ks ih =>
    have hsplit : ∀ f : List κ → List α,
        ks.inits.reverse.flatMap f =
          ks.inits.tail.reverse.flatMap f ++ f [] := by
      cases ks <;> simp
    rw [levels, inits_cons, tail_cons, ← map_reverse,
      flatMap_map, hsplit]
    cases hc : t.child k with
    | none => simp [valuesAt, hc]
    | some c =>
      simp only [reverse_cons, flatten_append, ih c,
        flatten_singleton, valuesAt, hc]

/-! ## The longest of several keys

Walking the prefixes of a path from the longest down and stopping at the first
that is among some keys finds the longest key the path starts with. -/

omit [DecidableEq κ] in
theorem inits_tail_reverse_eq_take (p : List κ) :
    p.inits.tail.reverse = (List.range p.length).map fun j => p.take (p.length - j) := by
  refine ext_getElem (by simp) fun j h₁ h₂ => ?_
  have hlt : j < p.length := by simpa using h₂
  simp only [getElem_reverse, getElem_tail, getElem_inits, getElem_map,
    getElem_range, length_tail, length_inits]
  congr 1
  omega

theorem findIdx?_inits_tail_reverse {keys : List (List κ)} (hne : [] ∉ keys) {among : List κ → Bool}
    (hamong : ∀ q, among q = true ↔ q ∈ keys) (p : List κ) :
    p.inits.tail.reverse.findIdx? among =
      (keys.filterMap fun q => if q <+: p then some q.length else none).max?.map
        fun depth => p.length - depth := by
  cases hmax : (keys.filterMap fun q => if q <+: p then some q.length else none).max? with
  | none =>
    have hnil := max?_eq_none_iff.mp hmax
    rw [Option.map_none, findIdx?_eq_none_iff]
    intro q hq
    rw [Bool.eq_false_iff]
    intro hfound
    have hkey := (hamong q).mp hfound
    have hpre : q <+: p :=
      (mem_inits q p).mp (mem_of_mem_tail (mem_reverse.mp hq))
    have hin := filterMap_eq_nil_iff.mp hnil q hkey
    rw [if_pos hpre] at hin
    cases hin
  | some =>
    obtain ⟨hin, hbound⟩ := max?_eq_some_iff.mp hmax
    obtain ⟨q, hkey, hq⟩ := mem_filterMap.mp hin
    split at hq
    case isFalse => cases hq
    case isTrue hpre =>
    cases hq
    have hpos : 0 < q.length := length_pos_iff.mpr fun h => hne (h ▸ hkey)
    have hle : q.length ≤ p.length := hpre.length_le
    rw [Option.map_some, inits_tail_reverse_eq_take,
      findIdx?_eq_some_iff_getElem]
    refine ⟨by simp; omega, ?_, ?_⟩
    · simp only [getElem_map, getElem_range, hamong]
      rw [show p.length - (p.length - q.length) = q.length by omega,
        ← prefix_iff_eq_take.mp hpre]
      exact hkey
    · intro j hj
      simp only [getElem_map, getElem_range, hamong]
      intro hlonger
      have hlen := hbound _ (mem_filterMap.mpr
        ⟨_, hlonger, if_pos ( take_prefix _ p)⟩)
      rw [length_take] at hlen
      omega

end Trie

end Foxcore.Lib
