import Mathlib

/-!
# Words between separators

A text split at a separator is a list of pieces, and the pieces joined again
are the text. A text that begins like another up to one of its separators is
the same as a list of pieces that begins like another: `splitOn_prefix_iff`.
Separators at either end only add empty pieces, so trimming them does not
change the nonempty ones.
-/

namespace Foxcore.Lib

open List

variable {α : Type} [DecidableEq α] {sep : α}

theorem splitOn_append_sep (u v : List α) :
    (u ++ sep :: v).splitOn sep = u.splitOn sep ++ v.splitOn sep :=
  splitOnP_append_cons u v (beq_self_eq_true sep)

theorem splitOn_cons_sep (v : List α) : (sep :: v).splitOn sep = [] :: v.splitOn sep :=
  splitOn_append_sep [] v

theorem splitOn_injective {u v : List α} (h : u.splitOn sep = v.splitOn sep) : u = v := by
  have hu : [sep].intercalate (u.splitOn sep) = u := intercalate_splitOn sep
  rw [← hu, h, intercalate_splitOn]

omit [DecidableEq α] in
/-- Joined pieces are known by their lengths. -/
theorem intercalate_inj {l l' : List (List α)} (hlen : l.map length = l'.map length)
    (h : [sep].intercalate l = [sep].intercalate l') : l = l' := by
  induction l generalizing l' with
  | nil => exact (map_eq_nil_iff.mp hlen.symm).symm
  | cons a l ih =>
    obtain ⟨b, rest, rfl, hb, hrest⟩ := map_eq_cons_iff.mp hlen.symm
    by_cases hne : l = []
    · subst hne
      obtain rfl := map_eq_nil_iff.mp hrest
      rw [intercalate_singleton, intercalate_singleton] at h
      rw [h]
    · have hne' : rest ≠ [] := by
        rintro rfl
        exact hne (map_eq_nil_iff.mp hrest.symm)
      rw [intercalate_cons_of_ne_nil hne, intercalate_cons_of_ne_nil hne', append_assoc,
        append_assoc] at h
      obtain ⟨rfl, htail⟩ := append_inj h hb.symm
      rw [ih hrest.symm (append_cancel_left htail)]

theorem sep_not_mem_of_mem_splitOn {u w : List α} (h : w ∈ u.splitOn sep) : sep ∉ w := by
  induction u generalizing w with
  | nil =>
    rw [mem_singleton.mp h]
    exact not_mem_nil
  | cons a u ih =>
    rw [List.splitOn, splitOnP_cons_eq_if_modifyHead] at h
    split at h
    · rcases mem_cons.mp h with rfl | hrest
      · exact not_mem_nil
      · exact ih hrest
    · next ha =>
      -- the first piece is longer by a letter that is no separator
      cases hsplit : u.splitOnP (· == sep) with
      | nil => exact absurd hsplit (splitOnP_ne_nil _ _)
      | cons first rest =>
        rw [hsplit] at h
        have hfirst : ∀ w ∈ first :: rest, sep ∉ w := fun w hw =>
          ih (by rw [List.splitOn, hsplit]; exact hw)
        rcases mem_cons.mp h with rfl | hrest
        · intro hin
          rcases mem_cons.mp hin with rfl | hin
          · exact ha (beq_self_eq_true _)
          · exact hfirst first (.head _) hin
        · exact hfirst w (.tail _ hrest)

omit [DecidableEq α] in
theorem intercalate_append {us vs : List (List α)} (hu : us ≠ []) (hv : vs ≠ []) :
    [sep].intercalate (us ++ vs) = [sep].intercalate us ++ sep :: [sep].intercalate vs := by
  induction us with
  | nil => exact absurd rfl hu
  | cons u us ih =>
    cases us with
    | nil =>
      rw [singleton_append, intercalate_cons_of_ne_nil hv]
      simp
    | cons =>
      rw [cons_append, intercalate_cons_of_ne_nil (by simp), ih (cons_ne_nil _ _)]
      simp

omit [DecidableEq α] in
theorem mem_intercalate {us : List (List α)} {a : α} (h : a ∈ [sep].intercalate us) :
    a = sep ∨ ∃ u ∈ us, a ∈ u := by
  induction us with
  | nil => cases h
  | cons u us ih =>
    cases us with
    | nil => exact .inr ⟨u, .head _, by simpa using h⟩
    | cons =>
      rw [intercalate_cons_cons] at h
      rcases mem_append.mp h with hfirst | hrest
      · rcases mem_append.mp hfirst with hu | hsep
        · exact .inr ⟨u, .head _, hu⟩
        · exact .inl (mem_singleton.mp hsep)
      · rcases ih hrest with hsep | ⟨w, hw, ha⟩
        · exact .inl hsep
        · exact .inr ⟨w, .tail _ hw, ha⟩

omit [DecidableEq α] in
theorem mem_intercalate_of_mem {us : List (List α)} {u : List α} {a : α} (hu : u ∈ us)
    (ha : a ∈ u) : a ∈ [sep].intercalate us := by
  induction us with
  | nil => cases hu
  | cons v us ih =>
    cases us with
    | nil =>
      rw [mem_singleton.mp hu] at ha
      simpa using ha
    | cons =>
      rw [intercalate_cons_cons]
      rcases mem_cons.mp hu with rfl | hu
      · exact mem_append_left _ (mem_append_left _ ha)
      · exact mem_append_right _ (ih hu)

omit [DecidableEq α] in
/-- What pieces joined come to does not depend on their order. -/
theorem length_intercalate (us : List (List α)) :
    ([sep].intercalate us).length = (us.map List.length).sum + (us.length - 1) := by
  induction us with
  | nil => rfl
  | cons u us ih =>
    cases us with
    | nil => simp
    | cons =>
      rw [intercalate_cons_cons, length_append, length_append, ih]
      simp only [map_cons, sum_cons, length_cons, length_nil]
      omega

omit [DecidableEq α] in
/-- Where nothing is joined, every piece is empty. -/
theorem intercalate_eq_nil {us : List (List α)} {u : List α} (h : [sep].intercalate us = [])
    (hu : u ∈ us) : u = [] := by
  refine eq_nil_iff_forall_not_mem.mpr fun a ha => ?_
  have hmem : a ∈ [sep].intercalate us := mem_intercalate_of_mem hu ha
  rw [h] at hmem
  cases hmem

theorem mem_of_mem_splitOn {u w : List α} {a : α} (hw : w ∈ u.splitOn sep) (ha : a ∈ w) :
    a ∈ u := by
  have hu : [sep].intercalate (u.splitOn sep) = u := intercalate_splitOn sep
  rw [← hu]
  exact mem_intercalate_of_mem hw ha

/-- A list of pieces begins like another when the texts are equal or the one
goes on with a separator where the other ends. -/
theorem splitOn_prefix_iff {u v : List α} :
    u.splitOn sep <+: v.splitOn sep ↔ u = v ∨ ∃ rest, v = u ++ sep :: rest := by
  constructor
  · rintro ⟨ws, hws⟩
    cases ws with
    | nil =>
      rw [append_nil] at hws
      exact .inl (splitOn_injective hws)
    | cons w ws =>
      have hv : [sep].intercalate (v.splitOn sep) = v := intercalate_splitOn sep
      refine .inr ⟨[sep].intercalate (w :: ws), ?_⟩
      rw [← hv, ← hws, intercalate_append (splitOn_ne_nil _ _) (cons_ne_nil _ _),
        intercalate_splitOn]
  · rintro (rfl | ⟨rest, rfl⟩)
    · exact prefix_rfl
    · exact ⟨rest.splitOn sep, (splitOn_append_sep u rest).symm⟩

/-- The nonempty pieces of a text. -/
def words (sep : α) (u : List α) : List (List α) := (u.splitOn sep).filter fun w => w ≠ []

/-- The words of pieces joined are those of the pieces. -/
theorem words_intercalate (us : List (List α)) :
    words sep ([sep].intercalate us) = us.flatMap (words sep) := by
  induction us with
  | nil => rfl
  | cons u us ih =>
    cases us with
    | nil => simp
    | cons =>
      rw [intercalate_cons_cons, append_assoc, singleton_append,
        flatMap_cons, ← ih, words, splitOn_append_sep, filter_append]
      rfl

theorem words_of_sep_not_mem {u : List α} (hsep : sep ∉ u) (hne : u ≠ []) : words sep u = [u] := by
  rw [words, splitOn_eq_singleton hsep]
  simp [hne]

/-- A letter that is no separator is in some piece. -/
theorem words_ne_nil {u : List α} {a : α} (hmem : a ∈ u) (hne : a ≠ sep) : words sep u ≠ [] := by
  induction u with
  | nil => cases hmem
  | cons b u ih =>
    by_cases hb : b = sep
    · have hin : a ∈ u := by
        rcases mem_cons.mp hmem with rfl | hin
        · exact absurd hb hne
        · exact hin
      rw [hb, words, splitOn_cons_sep]
      exact ih hin
    · rw [words, List.splitOn, splitOnP_cons_eq_if_modifyHead,
        if_neg (by simpa using hb)]
      cases hsplit : u.splitOnP (· == sep) with
      | nil => exact absurd hsplit (splitOnP_ne_nil _ _)
      | cons => simp

theorem words_dropWhile (u : List α) : words sep (u.dropWhile (· == sep)) = words sep u := by
  induction u with
  | nil => rfl
  | cons a u ih =>
    rw [dropWhile_cons]
    split
    · next ha =>
      rw [ih, eq_of_beq ha, words, words, splitOn_cons_sep]
      rfl
    · rfl

theorem words_rdropWhile (u : List α) : words sep (u.rdropWhile (· == sep)) = words sep u := by
  induction u using List.reverseRecOn with
  | nil => rfl
  | append_singleton u a ih =>
    rw [rdropWhile_concat]
    split
    · next ha =>
      rw [ih, eq_of_beq ha, words, words, splitOn_append_sep, filter_append]
      exact (append_nil _).symm
    · rfl

end Foxcore.Lib
