import Foxcore.Proofs.BlocklistRefine
import Foxcore.Proofs.WireName

/-!
# Blocking a name that came off the wire

The resolver decodes a name to text, and the blocklist takes the text apart
again. In between the boundaries of the labels are lost, and the blocklist
looks only at ASCII. A suffix rule survives the first: no label of a rule has a
dot in it, so the last labels of the text are still the last labels of the
name. It does not survive the second.
-/

namespace Foxcore.Proofs

open Lib Ref Spec Ref.Str List

/-! ## From labels to text and back -/

/-- What holds of 256 numbers holds of every byte. -/
theorem forall_byte {P : UInt8 → Prop} (h : ∀ n : Fin 256, P (UInt8.ofNat n.val)) (b : UInt8) :
    P b := by
  have hb := h ⟨b.toNat, b.toNat_lt⟩
  rwa [UInt8.ofNat_toNat] at hb

theorem byteToAsciiLowercase_idem (b : UInt8) :
    byteToAsciiLowercase (byteToAsciiLowercase b) = byteToAsciiLowercase b := by
  revert b
  exact forall_byte (by decide +kernel)

theorem isAscii_toAsciiLowercase (s : Str) : isAscii (toAsciiLowercase s) = isAscii s := by
  have hall : ∀ b, decide (byteToAsciiLowercase b < 0x80) = decide (b < 0x80) :=
    forall_byte (by decide +kernel)
  rw [isAscii, toAsciiLowercase, all_map]
  exact all_congr rfl hall

/-- The labels of the text are the words of the labels. -/
theorem nameLabels_join (labels : List Str) :
    nameLabels (join dot (labels.map toAsciiLowercase)) =
      (labels.map toAsciiLowercase).flatMap (words dot) := by
  rw [nameLabels, join, words_intercalate]
  -- what is lowered already stays as it is
  have hid : ∀ word ∈ (labels.map toAsciiLowercase).flatMap (words dot),
      toAsciiLowercase word = word := by
    intro word hword
    obtain ⟨piece, hpiece, hword⟩ := mem_flatMap.mp hword
    obtain ⟨label, -, rfl⟩ := mem_map.mp hpiece
    refine (map_congr_left fun b hb => ?_).trans (map_id word)
    have hin := mem_of_mem_splitOn (mem_filter.mp hword).1 hb
    obtain ⟨c, -, rfl⟩ := mem_map.mp hin
    exact byteToAsciiLowercase_idem c
  exact (map_congr_left hid).trans (map_id _)

/-- Labels that are words themselves and end a name end its text. -/
theorem suffix_nameLabels {labels last : List Str} (hlast : last <:+ labels.map toAsciiLowercase)
    (hword : ∀ label ∈ last, dot ∉ label ∧ label ≠ []) :
    last <:+ nameLabels (join dot (labels.map toAsciiLowercase)) := by
  obtain ⟨front, hfront⟩ := hlast
  have hself : last.flatMap (words dot) = last := by
    have hsingle : last.flatMap (words dot) = last.flatMap fun label => [label] :=
      flatMap_congr fun label hmem =>
        words_of_sep_not_mem (hword label hmem).1 (hword label hmem).2
    rw [hsingle, flatMap_singleton']
  rw [nameLabels_join, ← hfront, flatMap_append, hself]
  exact suffix_append _ _

theorem length_join_le (labels : List Str) :
    (join dot (labels.map toAsciiLowercase)).length ≤
      (labels.map fun label => label.length + 1).sum := by
  induction labels with
  | nil => exact Nat.le_refl 0
  | cons label labels ih =>
    cases labels with
    | nil => simp [join, toAsciiLowercase]
    | cons =>
      refine Nat.le_trans (Nat.le_of_eq ?_) (Nat.add_le_add_left ih _)
      simp only [join, map_cons, intercalate_cons_cons, length_append,
        length_singleton, toAsciiLowercase, length_map]

theorem isAscii_join (labels : List Str) :
    isAscii (join dot (labels.map toAsciiLowercase)) = true ↔
      ∀ label ∈ labels, isAscii label = true := by
  constructor
  · intro hall label hmem
    rw [← isAscii_toAsciiLowercase]
    refine all_eq_true.mpr fun b hb => all_eq_true.mp hall b ?_
    exact mem_intercalate_of_mem (mem_map_of_mem hmem) hb
  · intro hall
    refine all_eq_true.mpr fun b hb => ?_
    rcases mem_intercalate hb with rfl | ⟨piece, hpiece, hin⟩
    · decide
    · obtain ⟨label, hlabel, rfl⟩ := mem_map.mp hpiece
      have hascii := hall label hlabel
      rw [← isAscii_toAsciiLowercase] at hascii
      exact all_eq_true.mp hascii b hin

theorem isAscii_of_dropWhile {s : Str} (h : isAscii (s.dropWhile (· == dot)) = true) :
    isAscii s = true := by
  rw [← takeWhile_append_dropWhile (p := (· == dot)) (l := s), isAscii,
    all_append, Bool.and_eq_true]
  refine ⟨all_eq_true.mpr fun b hb => ?_, h⟩
  have hdot : (b == dot) = true := mem_takeWhile_imp (p := (· == dot)) hb
  rw [eq_of_beq hdot]
  decide

/-- Trimming dots does not make a text ASCII. -/
theorem isAscii_of_trimMatches {name : Str} (h : isAscii (trimMatches dot name) = true) :
    isAscii name = true := by
  rw [trimMatches, isAscii, all_reverse] at h
  have hfront := isAscii_of_dropWhile h
  rw [isAscii, all_reverse] at hfront
  exact isAscii_of_dropWhile hfront

/-! ## Lookups -/

variable {μ : Type} [Transducer μ UInt8 Flags]

theorem lookup_eq_none_of_not_ascii {list : DomainBlocklist μ} {name : Str}
    (h : ¬ isAscii name = true) : list.lookup name = none := by
  have hkey : reversedKey name = none := by
    rw [reversedKey_eq, if_neg]
    exact fun hlist => h (isAscii_of_trimMatches hlist.2.2)
  rw [DomainBlocklist.lookup, hkey]

/-- A rule of a list is about words. -/
theorem word_of_mem_block {list : DomainBlocklist μ} {r : Rule} (hr : r ∈ (rulesOf list).block) :
    ∀ label ∈ r.labels, dot ∉ label := by
  obtain ⟨map, -, -, key, -, hlabels⟩ := mem_rulesOf_block.mp hr
  intro label hmem
  rw [hlabels, mem_reverse] at hmem
  exact sep_not_mem_of_mem_splitOn hmem

variable [LawfulTransducer μ]

/-- A question whose name ends like a suffix rule is blocked just when its
labels are ASCII and no exception covers its text. -/
theorem lookup_question_isSome_iff (list : DomainBlocklist μ) {packet : Packet}
    {parsed : ParsedQuestion} {w : WireName} {r : Rule}
    (hquestion : parseQuestion packet = some parsed) (hname : NameAt packet dnsHeaderLen w)
    (hr : r ∈ (rulesOf list).block) (hsuffix : r.flags &&& flagSuffix ≠ 0)
    (hcontribution : r.contribution ≠ 0) (hlast : r.labels <:+ w.lowered) :
    (list.lookup parsed.question.domain).isSome = true ↔
      (∀ label ∈ w.labels, Str.isAscii label = true) ∧
        ¬ (rulesOf list).Allows (nameLabels parsed.question.domain) := by
  obtain ⟨-, -, -, w', hname', hlegible, hdomain, -⟩ := parseQuestion_iff.mp hquestion
  obtain rfl := nameAt_unique hname hname'
  rw [hdomain, WireName.text, WireName.lowered, ← isAscii_join]
  have hlen : (Str.join dot (w.labels.map Str.toAsciiLowercase)).length ≤ maxDomainBytes :=
    (length_join_le w.labels).trans hlegible.wireLen
  have hword : ∀ label ∈ r.labels, dot ∉ label ∧ label ≠ [] := by
    intro label hmem
    refine ⟨word_of_mem_block hr label hmem, ?_⟩
    obtain ⟨raw, hraw, rfl⟩ := mem_map.mp (hlast.subset hmem)
    exact fun hnil => nameAt_label_ne_nil hname raw hraw (map_eq_nil_iff.mp hnil)
  have hcovers : r.Covers (nameLabels (Str.join dot (w.labels.map Str.toAsciiLowercase))) :=
    .inr ⟨hsuffix, suffix_nameLabels hlast hword⟩
  obtain ⟨i, hbit⟩ := flags_ne_zero_iff.mp hcontribution
  constructor
  · intro hsome
    obtain ⟨verdict, hverdict⟩ := Option.isSome_iff_exists.mp hsome
    have hascii : Str.isAscii (Str.join dot (w.labels.map Str.toAsciiLowercase)) = true := by
      by_contra hnot
      rw [lookup_eq_none_of_not_ascii hnot] at hverdict
      cases hverdict
    have hspec := lookup_verdict list hascii hlen
    rw [hverdict] at hspec
    exact ⟨hascii, hspec.1⟩
  · rintro ⟨hascii, hnot⟩
    have hspec := lookup_verdict list hascii hlen
    cases hverdict : list.lookup (Str.join dot (w.labels.map Str.toAsciiLowercase)) with
    | some => rfl
    | none =>
      rw [hverdict] at hspec
      rcases hspec with hallowed | hnone
      · exact absurd hallowed hnot
      · exact absurd ⟨r, hr, hcovers, hbit⟩ (hnone i)

/-! ## A name that slips through -/

/-- A query for a label under `a`. -/
def queryUnder (label : Str) : Packet :=
  [0, 1, 1, 0, 0, 1, 0, 0, 0, 0, 0, 0] ++ UInt8.ofNat label.length :: label ++
    [1, 0x61, 0, 0, 1, 0, 1]

/-- A list that blocks `a` and everything below it. -/
def blocksA : DomainBlocklist OrderedList :=
  .compileSources [{ suffixes := [[0x61]] }]

theorem mem_blocksA : ⟨[[0x61]], flagSuffix, none⟩ ∈ (rulesOf blocksA).block := by
  refine mem_rulesOf_block.mpr ⟨_, .head _, rfl, [0x61], ?_, by decide +kernel⟩
  decide +kernel

theorem not_allows_blocksA (name : List Str) : ¬ (rulesOf blocksA).Allows name := by
  rintro ⟨r, hr, -⟩
  obtain ⟨map, hmap, -⟩ := mem_rulesOf_allow.mp hr
  cases hmap

/-- A query for `t.a` is blocked. -/
theorem lookup_plain_label :
    ∃ parsed w, parseQuestion (queryUnder [0x74]) = some parsed ∧
      NameAt (queryUnder [0x74]) dnsHeaderLen w ∧ [[0x61]] <:+ w.lowered ∧
      (blocksA.lookup parsed.question.domain).isSome = true := by
  have hroot : NameAt (queryUnder [0x74]) 16 ⟨[], 0, 17, [16]⟩ := .root rfl
  have hlast : NameAt (queryUnder [0x74]) 14 ⟨[[0x61]], 0, 17, List.range' 14 2 ++ [16]⟩ :=
    .label (show _ = some 1 from rfl) rfl (by decide) rfl hroot
  have hname : NameAt (queryUnder [0x74]) dnsHeaderLen
      ⟨[[0x74], [0x61]], 0, 17, List.range' 12 2 ++ (List.range' 14 2 ++ [16])⟩ :=
    .label (show _ = some 1 from rfl) rfl (by decide) rfl hlast
  have hquestion : parseQuestion (queryUnder [0x74]) =
      some ⟨⟨[0x74, 0x2e, 0x61], 1, 1⟩, 21⟩ := by
    decide +kernel
  have hbelow : [[0x61]] <:+ [[0x74], [(0x61 : UInt8)]] := suffix_cons _ _
  refine ⟨_, _, hquestion, hname, hbelow, ?_⟩
  exact (lookup_question_isSome_iff blocksA hquestion hname mem_blocksA (by decide) (by decide)
    hbelow).mpr ⟨by decide, not_allows_blocksA _⟩

/-- A query for `é.a` is not, although `a` is blocked with everything below it
and nothing is allowed. -/
theorem lookup_accented_label :
    ∃ parsed w, parseQuestion (queryUnder [0xc3, 0xa9]) = some parsed ∧
      NameAt (queryUnder [0xc3, 0xa9]) dnsHeaderLen w ∧
      ⟨[[0x61]], flagSuffix, none⟩ ∈ (rulesOf blocksA).block ∧ [[0x61]] <:+ w.lowered ∧
      ¬ (rulesOf blocksA).Allows w.lowered ∧
      blocksA.lookup parsed.question.domain = none := by
  have hroot : NameAt (queryUnder [0xc3, 0xa9]) 17 ⟨[], 0, 18, [17]⟩ := .root rfl
  have hlast : NameAt (queryUnder [0xc3, 0xa9]) 15 ⟨[[0x61]], 0, 18, List.range' 15 2 ++ [17]⟩ :=
    .label (show _ = some 1 from rfl) rfl (by decide) rfl hroot
  have hname : NameAt (queryUnder [0xc3, 0xa9]) dnsHeaderLen
      ⟨[[0xc3, 0xa9], [0x61]], 0, 18, List.range' 12 3 ++ (List.range' 15 2 ++ [17])⟩ :=
    .label (show _ = some 2 from rfl) rfl (by decide) rfl hlast
  have hquestion : parseQuestion (queryUnder [0xc3, 0xa9]) =
      some ⟨⟨[0xc3, 0xa9, 0x2e, 0x61], 1, 1⟩, 22⟩ := by
    decide +kernel
  exact ⟨_, _, hquestion, hname, mem_blocksA, suffix_cons _ _, not_allows_blocksA _,
    by decide +kernel⟩

end Foxcore.Proofs
