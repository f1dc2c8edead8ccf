import Foxcore.Proofs.RouteDecision

/-!
# Names inferred from DNS only restrict

The loop over the inferred names keeps the strictest action seen so far, a
name that leads to it, and whether two different protected routes have met.
Its invariant is that deciding the flow under the kept name gives the kept
action. From it both the verdict and the decision come out in terms of the
set of actions alone, and with that no order and no repetition of the names
can matter.

The decisions behind the names are whatever the routing engine says; nothing
about it is used here.
-/

namespace Foxcore.Proofs

open Ref Spec List RouteAction

variable {as : List RouteAction} {base r : RouteAction}

/-! ## Combining actions -/

theorem incompatible_congr {bs : List RouteAction} (h : ∀ a, a ≠ .direct → (a ∈ as ↔ a ∈ bs)) :
    Incompatible as ↔ Incompatible bs := by
  have himp : ∀ {xs ys : List RouteAction}, (∀ a, a ≠ .direct → a ∈ xs → a ∈ ys) →
      Incompatible xs → Incompatible ys := by
    rintro xs ys hsub ⟨a, ha, b, hb, had, hbd, hne⟩
    exact ⟨a, hsub a had ha, b, hsub b hbd hb, had, hbd, hne⟩
  exact ⟨himp fun a ha => (h a ha).mp, himp fun a ha => (h a ha).mpr⟩

/-- The strictest action is determined by which actions there are. -/
theorem strictest_unique {bs : List RouteAction} {r' : RouteAction} (h : Strictest base as r)
    (h' : Strictest base bs r') (hmem : ∀ a, a ∈ as ↔ a ∈ bs) : r = r' := by
  have hcons : ∀ a, a ∈ base :: as ↔ a ∈ base :: bs := by
    intro a
    rw [mem_cons, mem_cons, hmem]
  by_cases hblock : block ∈ base :: as
  · rw [h.block hblock, h'.block ((hcons _).mp hblock)]
  · have hblock' := mt (hcons _).mpr hblock
    by_cases hbase : base = .direct
    · by_cases hall : ∀ a ∈ base :: as, a = .direct
      · rw [h.direct hall, h'.direct fun a ha => hall a ((hcons a).mpr ha)]
      · push Not at hall
        obtain ⟨a, ha, hne⟩ := hall
        have hin : a ∈ as :=
          (mem_cons.mp ha).resolve_left fun heq => hne (heq.trans hbase)
        rw [h.ofInferred hblock hbase a hin hne,
          h'.ofInferred hblock' hbase a ((hmem a).mp hin) hne]
    · rw [h.ofBase hblock hbase, h'.ofBase hblock' hbase]

theorem strictest_of_block (h : block ∈ base :: as) : Strictest base as .block := by
  refine ⟨fun _ => rfl, fun hb => absurd h hb, fun hb => absurd h hb, ?_⟩
  intro hall
  exact hall _ h

theorem strictest_nil : Strictest base [] base := by
  refine ⟨?_, fun _ _ => rfl, ?_, ?_⟩
  · intro h
    exact (mem_singleton.mp h).symm
  · intro _ _ a ha
    cases ha
  · intro h
    exact h base (by simp)

/-- An action that is direct, or the base once more, adds nothing. -/
theorem strictest_skip {a : RouteAction} (h : Strictest base as r) (ha : a = .direct ∨ a = base) :
    Strictest base (a :: as) r := by
  have hmem : ∀ x, x ≠ .direct → (x ∈ base :: a :: as ↔ x ∈ base :: as) := by
    intro x hx
    rcases ha with rfl | rfl
    · simp [hx]
    · simp
  have hblock := hmem .block (by simp)
  refine ⟨fun hb => h.block (hblock.mp hb), fun hb => h.ofBase (mt hblock.mpr hb), ?_, ?_⟩
  · intro hb hdirect x hx hne
    have hin := (hmem x hne).mp (mem_cons_of_mem _ hx)
    exact h.ofInferred (mt hblock.mpr hb) hdirect x
      ((mem_cons.mp hin).resolve_left fun heq => hne (heq.trans hdirect)) hne
  · intro hall
    refine h.direct fun x hx => hall x ?_
    rcases mem_cons.mp hx with rfl | hx
    · simp
    · simp [hx]

/-- A first protected action takes the place of an open base. -/
theorem strictest_raise {a : RouteAction} (h : Strictest a as r) (hne : a ≠ .direct)
    (hcompat : ¬ Incompatible (a :: as)) : Strictest .direct (a :: as) r := by
  have hblock : block ∈ direct :: a :: as ↔
      block ∈ a :: as := by simp
  refine ⟨fun hb => h.block (hblock.mp hb), fun _ hd => absurd rfl hd, ?_, ?_⟩
  · intro hb _ x hx hxne
    have hxa : x = a := by
      by_contra hcon
      exact hcompat ⟨x, hx, a, by simp, hxne, hne, hcon⟩
    rw [hxa]
    exact h.ofBase (mt hblock.mpr hb) hne
  · intro hall
    exact absurd (hall a (by simp)) hne

/-! ## The loop -/

section Loop

variable {ν : Type} [IpNet ν] (t : RouteTable ν) (clock : Nat) (flow : FlowContext)

/-- What the policy decides for the flow under a name. -/
def hinted (name : Option Str) : RouteAction :=
  t.decide clock { flow with domainHint := name }

/-- The actions behind a list of inferred names. -/
def inferred (names : List Str) : List RouteAction :=
  names.map fun name => hinted t clock flow (some name)

theorem constrainLoop_block {names : List Str}
    (h : ∃ name ∈ names, hinted t clock flow (some name) = .block) (selected : RouteAction)
    (selectedName : Option Str) (conflict : Bool) :
    (t.constrainLoop clock flow names selected selectedName conflict).1 = true ∧
      t.decide clock
        (t.constrainLoop clock flow names selected selectedName conflict).2 = .block := by
  fun_induction RouteTable.constrainLoop t clock flow names selected selectedName conflict with
  | case1 =>
    obtain ⟨name, hin, -⟩ := h
    cases hin
  | case2 name rest selected selectedName conflict action hblock => exact ⟨rfl, hblock⟩
  | case3 _ _ _ _ _ _ hopen _ ih | case4 _ _ _ _ _ hopen _ ih
  | case5 _ _ _ _ _ _ hopen _ _ ih =>
    obtain ⟨n, hin, hn⟩ := h
    rcases mem_cons.mp hin with rfl | hin
    · exact absurd hn hopen
    · exact ih ⟨n, hin, hn⟩

/-- Without a block the loop succeeds unless protected routes have met, and
then the flow it leaves is decided by the strictest action. -/
theorem constrainLoop_open {names : List Str}
    (hopen : ∀ name ∈ names, hinted t clock flow (some name) ≠ .block) {selected : RouteAction}
    {selectedName : Option Str} (conflict : Bool)
    (hselected : hinted t clock flow selectedName = selected) :
    ((t.constrainLoop clock flow names selected selectedName conflict).1 = true ↔
      conflict = false ∧
        ¬ Incompatible (selected :: inferred t clock flow names)) ∧
    (¬ Incompatible (selected :: inferred t clock flow names) →
      Strictest selected (inferred t clock flow names)
        (t.decide clock
          (t.constrainLoop clock flow names selected selectedName conflict).2)) := by
  have hlater : ∀ {name rest}, (∀ n ∈ name :: rest, hinted t clock flow (some n) ≠ .block) →
      ∀ n ∈ rest, hinted t clock flow (some n) ≠ .block :=
    fun hopen n hn => hopen n (mem_cons_of_mem _ hn)
  fun_induction RouteTable.constrainLoop t clock flow names selected selectedName conflict with
  | case1 selected selectedName =>
    have hcompat : ¬ Incompatible [selected] := by
      rintro ⟨a, ha, b, hb, -, -, hne⟩
      rw [mem_singleton] at ha hb
      exact hne (ha.trans hb.symm)
    refine ⟨by simp [inferred, hcompat], fun _ => ?_⟩
    show Strictest selected [] (hinted t clock flow selectedName)
    rw [hselected]
    exact strictest_nil
  | case2 name rest _ _ _ action hblock => exact absurd hblock (hopen name mem_cons_self)
  | case3 name rest selected _ _ action _ hskip ih =>
    obtain ⟨hok, hdecision⟩ := ih (hlater hopen) hselected
    have hinc : Incompatible (selected :: action :: inferred t clock flow rest) ↔
        Incompatible (selected :: inferred t clock flow rest) := by
      refine incompatible_congr fun a ha => ?_
      rcases hskip with h | h
      · simp [h, ha]
      · simp [h]
    rw [← hinc] at hok hdecision
    exact ⟨hok, fun hcompat => strictest_skip (hdecision hcompat) hskip⟩
  | case4 name rest _ _ action _ hskip ih =>
    rw [not_or] at hskip
    obtain ⟨hok, hdecision⟩ := ih (hlater hopen) rfl
    have hinc : Incompatible (.direct :: action :: inferred t clock flow rest) ↔
        Incompatible (action :: inferred t clock flow rest) :=
      incompatible_congr fun a ha => by simp [ha]
    rw [← hinc] at hok
    refine ⟨hok, fun hcompat => ?_⟩
    have hcompat := mt hinc.mpr hcompat
    exact strictest_raise (hdecision hcompat) hskip.1 hcompat
  | case5 name rest selected _ _ action _ hskip hdirect ih =>
    rw [not_or] at hskip
    have hinc : Incompatible (selected :: inferred t clock flow (name :: rest)) :=
      ⟨action, by simp [inferred, action, hinted], selected, by simp, hskip.1, hdirect, hskip.2⟩
    obtain ⟨hok, -⟩ := ih (hlater hopen) hselected
    rw [hok]
    simp [hinc]

/-! ## The whole call -/

/-- What the call does, in terms of the actions alone. -/
theorem constrainWithDnsHints_spec (names : List Str) :
    ((t.constrainWithDnsHints clock flow names).1 = false ↔
      hinted t clock flow none ≠ .block ∧ .block ∉ inferred t clock flow names ∧
        (names = [] ∨
          Incompatible (hinted t clock flow none :: inferred t clock flow names))) ∧
    ((t.constrainWithDnsHints clock flow names).1 = true →
      Strictest (hinted t clock flow none) (inferred t clock flow names)
        (t.decide clock (t.constrainWithDnsHints clock flow names).2)) := by
  have hbase : t.decide clock { flow with domainHint := none } =
      hinted t clock flow none := rfl
  rw [RouteTable.constrainWithDnsHints]
  simp only [hbase]
  by_cases hblock : hinted t clock flow none = .block
  · rw [if_pos hblock]
    refine ⟨by simp [hblock], fun _ => ?_⟩
    show Strictest _ _ (hinted t clock flow none)
    rw [hblock]
    exact strictest_of_block (by simp)
  · rw [if_neg hblock]
    cases names with
    | nil =>
      exact ⟨by simp [hblock, inferred], fun h => by cases h⟩
    | cons name rest =>
      simp only [isEmpty_cons, Bool.false_eq_true, if_false]
      by_cases hany : ∃ n ∈ name :: rest, hinted t clock flow (some n) = .block
      · have hmem : block ∈ inferred t clock flow (name :: rest) :=
          mem_map.mpr hany
        obtain ⟨hok, hdecision⟩ := constrainLoop_block t clock
          { flow with domainHint := none } hany (hinted t clock flow none) none false
        refine ⟨by simp [hok, hmem], fun _ => ?_⟩
        rw [hdecision]
        exact strictest_of_block (mem_cons_of_mem _ hmem)
      · have hopen : ∀ n ∈ name :: rest, hinted t clock flow (some n) ≠ .block :=
          fun n hn hcon => hany ⟨n, hn, hcon⟩
        have hnone : block ∉ inferred t clock flow (name :: rest) :=
          mt mem_map.mp hany
        obtain ⟨hok, hdecision⟩ := constrainLoop_open t clock
          { flow with domainHint := none } hopen false
          (rfl : _ = hinted t clock flow none)
        refine ⟨?_, fun h => hdecision (hok.mp h).2⟩
        rw [← Bool.not_eq_true, hok]
        simp only [true_and, not_not, hblock, ne_eq, not_false_eq_true, hnone,
          cons_ne_nil, false_or]
        rfl

/-- Inferred names restrict a flow and nothing else. The call fails exactly
when nothing blocks and the names are none or lead to different protected
routes; otherwise the flow it leaves is decided by the strictest action. The
names count only as a set, and a blocked or protected flow never comes out
more permissive. -/
theorem constrainWithDnsHints_restricts (names : List Str) :
    ((t.constrainWithDnsHints clock flow names).1 = false ↔
      hinted t clock flow none ≠ .block ∧ .block ∉ inferred t clock flow names ∧
        (names = [] ∨
          Incompatible (hinted t clock flow none :: inferred t clock flow names))) ∧
    ((t.constrainWithDnsHints clock flow names).1 = true →
      Strictest (hinted t clock flow none) (inferred t clock flow names)
        (t.decide clock (t.constrainWithDnsHints clock flow names).2)) ∧
    (∀ names', (∀ name, name ∈ names' ↔ name ∈ names) →
      (t.constrainWithDnsHints clock flow names').1 =
        (t.constrainWithDnsHints clock flow names).1 ∧
      ((t.constrainWithDnsHints clock flow names).1 = true →
        t.decide clock (t.constrainWithDnsHints clock flow names').2 =
          t.decide clock (t.constrainWithDnsHints clock flow names).2)) ∧
    ((t.constrainWithDnsHints clock flow names).1 = true →
      hinted t clock flow none ≠ .direct →
      t.decide clock (t.constrainWithDnsHints clock flow names).2 = .block ∨
        hinted t clock flow none ≠ .block ∧
          t.decide clock (t.constrainWithDnsHints clock flow names).2 =
            hinted t clock flow none) := by
  obtain ⟨hfails, hdecides⟩ := constrainWithDnsHints_spec t clock flow names
  refine ⟨hfails, hdecides, ?_, ?_⟩
  · intro names' hsame
    obtain ⟨hfails', hdecides'⟩ := constrainWithDnsHints_spec t clock flow names'
    have hmem : ∀ a, a ∈ inferred t clock flow names' ↔ a ∈ inferred t clock flow names := by
      simp [inferred, hsame]
    have hnil : names' = [] ↔ names = [] := by
      simp only [eq_nil_iff_forall_not_mem, hsame]
    have hinc : Incompatible (hinted t clock flow none :: inferred t clock flow names') ↔
        Incompatible (hinted t clock flow none :: inferred t clock flow names) :=
      incompatible_congr fun a _ => by rw [mem_cons, mem_cons, hmem]
    have hresult : (t.constrainWithDnsHints clock flow names').1 =
        (t.constrainWithDnsHints clock flow names).1 := by
      rw [← hnil, ← hmem, ← hinc, ← hfails'] at hfails
      rw [Bool.eq_iff_iff, ← not_iff_not, Bool.not_eq_true, Bool.not_eq_true]
      exact hfails.symm
    exact ⟨hresult, fun hok =>
      strictest_unique (hdecides' (hresult.trans hok)) (hdecides hok) hmem⟩
  · intro hok hne
    by_cases hblock : block ∈
        hinted t clock flow none :: inferred t clock flow names
    · exact .inl ((hdecides hok).block hblock)
    · refine .inr ⟨fun hcon => hblock (by simp [hcon]), ?_⟩
      exact (hdecides hok).ofBase hblock hne

end Loop

/-! ## An address shared by a protected and an open name -/

/-- Everything goes out directly but the name `p`, which goes through Tor. -/
def protectedTable : RouteTable Cidr :=
  RouteTable.compile [{ exactDomains := [Str.ofChars ['p']], action := .tor }] .direct

/-- A flow to the address 9.9.9.9. -/
def sharedFlow : FlowContext where
  transport := .tcp
  destination := ⟨Str.ofChars ['9', '.', '9', '.', '9', '.', '9'], 443⟩

theorem constrainWithDnsHints_protected :
    (protectedTable.constrainWithDnsHints 0 sharedFlow
        [Str.ofChars ['a'], Str.ofChars ['p']]).1 = true ∧
      protectedTable.decide 0 (protectedTable.constrainWithDnsHints 0 sharedFlow
        [Str.ofChars ['p'], Str.ofChars ['a'], Str.ofChars ['p']]).2 = .tor := by
  have hok : (protectedTable.constrainWithDnsHints 0 sharedFlow
      [Str.ofChars ['a'], Str.ofChars ['p']]).1 = true := by decide
  have hsame := ((constrainWithDnsHints_restricts protectedTable 0 sharedFlow
    [Str.ofChars ['a'], Str.ofChars ['p']]).2.2.1
      [Str.ofChars ['p'], Str.ofChars ['a'], Str.ofChars ['p']]
      (by intro name; grind)).2 hok
  exact ⟨hok, hsame.trans (by decide)⟩

end Foxcore.Proofs
