import Foxcore.Proofs.DnsAnswers

/-!
# The table of inferred names

`Represents facts now table` says that the table stands for a set of facts:
what it records is among them, and each one in time is recorded or covered by
the mark that a name is missing. Each operation is shown once to keep the
table standing for what it should. A table that represents the facts answers
`route_hints` with the names in time or with nothing.

Two paths do not keep it: an address met when the table is full is passed
over, and nothing is left to say so, and a lifetime of more than `MAX_TTL` is cut.
`Fits` is the condition under which neither happens.
-/

namespace Foxcore.Proofs

open Lib Ref Spec Ref.DnsCache HashMap HintWorld

variable {identity : DnsIdentity} {answers : List AddressAnswer} {w : HintWorld}

abbrev HintsByKey : Type := HashMap (DnsIdentity × IpAddr) RouteHints

variable {facts : Set HintFact} {now : Nat} {table : HintsByKey} {hints : RouteHints} {name : Str}

/-- A name is recorded at least until a time, or marked as missing until
then. -/
def Covers (hints : RouteHints) (name : Str) (u : Nat) : Prop :=
  (∃ expiry, hints.names.lookup name = some expiry ∧ u ≤ expiry) ∨
    ∃ overflow, hints.overflowUntil = some overflow ∧ u ≤ overflow

structure Represents (facts : Set HintFact) (now : Nat) (table : HintsByKey) : Prop where
  sound : ∀ {identity address hints name expiry},
    table.lookup (identity, address) = some hints → hints.names.lookup name = some expiry →
      ⟨identity, address, name, expiry⟩ ∈ facts
  complete : ∀ f ∈ facts, now < f.until_ →
    ∃ hints, table.lookup (f.identity, f.address) = some hints ∧ Covers hints f.name f.until_

theorem represents_empty (now : Nat) : Represents ∅ now ∅ := by
  exact ⟨nofun, nofun⟩

theorem Represents.later {now' : Nat} (h : Represents facts now table) (hle : now ≤ now') :
    Represents facts now' table :=
  ⟨h.sound, fun f hf hlt => h.complete f hf (lt_of_le_of_lt hle hlt)⟩

/-! ## Forgetting names whose time is over -/

theorem prune_lookup (now : Nat) (hints : RouteHints) (name : Str) (expiry : Nat) :
    (hints.prune now).names.lookup name = some expiry ↔
      hints.names.lookup name = some expiry ∧ now < expiry := by
  rw [RouteHints.prune]
  rw [lookup_retain]
  simp

theorem covers_prune {u : Nat} (h : Covers hints name u) (hlt : now < u) :
    Covers (hints.prune now) name u := by
  rcases h with ⟨expiry, hname, hle⟩ | hmark
  · exact .inl ⟨expiry, (prune_lookup _ _ _ _).mpr ⟨hname, lt_of_lt_of_le hlt hle⟩, hle⟩
  · exact .inr hmark

theorem represents_insert_prune {key : DnsIdentity × IpAddr} (h : Represents facts now table)
    (hkey : table.lookup key = some hints) :
    Represents facts now (table.insert key (hints.prune now)) := by
  constructor
  · intro identity address found name expiry hfound hname
    rw [lookup_insert] at hfound
    split at hfound
    · next heq =>
      cases hfound
      rw [← heq] at hkey
      exact h.sound hkey ((prune_lookup _ _ _ _).mp hname).1
    · exact h.sound hfound hname
  · intro f hf hlt
    obtain ⟨found, hfound, hcovers⟩ := h.complete f hf hlt
    by_cases heq : (f.identity, f.address) = key
    · rw [heq, hkey] at hfound
      cases hfound
      refine ⟨hints.prune now, ?_, covers_prune hcovers hlt⟩
      rw [lookup_insert, if_pos heq]
    · refine ⟨found, ?_, hcovers⟩
      rw [lookup_insert, if_neg heq]
      exact hfound

theorem pruneHints_lookup (now : Nat) (table : HintsByKey) (key : DnsIdentity × IpAddr)
    (found : RouteHints) : (pruneHints now table).lookup key = some found ↔
      ∃ hints, table.lookup key = some hints ∧ found = hints.prune now ∧
        (hints.overflowing now = true ∨ (hints.prune now).names.entries ≠ []) := by
  rw [pruneHints]
  rw [lookup_filterMap, Option.bind_eq_some_iff]
  refine exists_congr fun hints => and_congr_right fun _ => ?_
  rw [Option.ite_none_right_eq_some, Option.some.injEq]
  simp only [Bool.or_eq_true, Bool.not_eq_true', List.isEmpty_eq_false_iff]
  exact ⟨fun h => ⟨h.2.symm, h.1⟩, fun h => ⟨h.2, h.1.symm⟩⟩

theorem represents_pruneHints (h : Represents facts now table) :
    Represents facts now (pruneHints now table) := by
  constructor
  · intro identity address found name expiry hfound hname
    obtain ⟨hints, hlook, rfl, -⟩ := (pruneHints_lookup _ _ _ _).mp hfound
    exact h.sound hlook ((prune_lookup _ _ _ _).mp hname).1
  · intro f hf hlt
    obtain ⟨hints, hlook, hcovers⟩ := h.complete f hf hlt
    have hpruned := covers_prune hcovers hlt
    refine ⟨hints.prune now, (pruneHints_lookup _ _ _ _).mpr ⟨hints, hlook, rfl, ?_⟩, hpruned⟩
    -- what covers a name in time also keeps the entry
    rcases hpruned with ⟨expiry, hname, -⟩ | ⟨overflow, hmark, hle⟩
    · refine .inr fun hnil => ?_
      have hin := AList.mem_lookup_iff.mp hname
      rw [hnil] at hin
      cases hin
    · have hmark' : hints.overflowUntil = some overflow := hmark
      simp only [RouteHints.overflowing, hmark', Option.any_some, decide_eq_true_eq]
      omega

/-! ## Recording a name -/

theorem record_sound {domain : Str} {expires expiry : Nat}
    (h : (hints.record domain expires).names.lookup name = some expiry) :
    hints.names.lookup name = some expiry ∨ name = domain ∧ expiry = expires := by
  revert h
  fun_cases RouteHints.record domain expires hints with
  | case1 =>
    simp only [lookup_upsert]
    cases hprev : hints.names.lookup domain with
    | none => grind
    | some =>
      grind
  | case2 => exact .inl

theorem record_covers {u : Nat} (h : Covers hints name u) (domain : Str) (expires : Nat) :
    Covers (hints.record domain expires) name u := by
  fun_cases RouteHints.record domain expires hints with
  | case1 =>
    rcases h with ⟨expiry, hname, hle⟩ | hmark
    · refine .inl ?_
      simp only [lookup_upsert]
      by_cases heq : name = domain
      · rw [if_pos heq, ← heq, hname]
        exact ⟨_, rfl, le_trans hle (le_max_left _ _)⟩
      · rw [if_neg heq]
        exact ⟨expiry, hname, hle⟩
    · exact .inr hmark
  | case2 =>
    rcases h with hname | ⟨overflow, hmark, hle⟩
    · exact .inl hname
    · refine .inr ⟨_, rfl, ?_⟩
      rw [hmark]
      exact le_trans hle (le_max_left _ _)

theorem record_covers_new (hints : RouteHints) (domain : Str) (expires : Nat) :
    Covers (hints.record domain expires) domain expires := by
  rw [RouteHints.record]
  split
  · refine .inl ?_
    simp only [lookup_upsert]
    refine ⟨_, rfl, ?_⟩
    cases hints.names.lookup domain with
    | none => exact Nat.le_refl _
    | some => exact le_max_right _ _
  · exact .inr ⟨_, rfl, le_max_right _ _⟩

theorem represents_record (h : Represents facts now table) (identity : DnsIdentity)
    (address : IpAddr) (domain : Str) (expires : Nat) :
    Represents (insert ⟨identity, address, domain, expires⟩ facts) now
      (table.upsert (identity, address) fun hints => (hints.getD {}).record domain expires) := by
  constructor
  · intro identity' address' found name expiry hfound hname
    rw [lookup_upsert] at hfound
    split at hfound
    · next heq =>
      cases hfound
      obtain ⟨rfl, rfl⟩ := Prod.mk.inj heq
      rcases record_sound hname with hold | ⟨rfl, rfl⟩
      · cases hlook : table.lookup (identity', address') with
        | none =>
          rw [hlook] at hold
          cases hold
        | some =>
          rw [hlook] at hold
          exact .inr (h.sound hlook hold)
      · exact .inl rfl
    · exact .inr (h.sound hfound hname)
  · intro f hf hlt
    rcases hf with rfl | hold
    · refine ⟨_, ?_, record_covers_new ((table.lookup (identity, address)).getD {}) _ _⟩
      rw [lookup_upsert, if_pos rfl]
    · obtain ⟨hints, hlook, hcovers⟩ := h.complete f hold hlt
      rw [lookup_upsert]
      split
      · next heq =>
        rw [← heq, hlook]
        exact ⟨_, rfl, record_covers hcovers _ _⟩
      · exact ⟨hints, hlook, hcovers⟩

/-! ## Learning an answer -/

/-- The addresses of an answer that are not in the table yet. -/
def newcomers (identity : DnsIdentity) (table : HintsByKey) (answers : List AddressAnswer) :
    Finset IpAddr :=
  ((answers.filter fun a => a.ttl ≠ 0).map AddressAnswer.address).toFinset.filter fun a =>
    table.lookup (identity, a) = none

theorem mem_newcomers {address : IpAddr} :
    address ∈ newcomers identity table answers ↔
      (∃ a ∈ answers, a.ttl ≠ 0 ∧ a.address = address) ∧
        table.lookup (identity, address) = none := by
  simp [newcomers, and_assoc]

/-- There is room for every address of the answer. -/
def Room (capacity : Nat) (identity : DnsIdentity) (table : HintsByKey)
    (answers : List AddressAnswer) : Prop :=
  table.len + (newcomers identity table answers).card ≤ capacity

instance (capacity : Nat) (identity : DnsIdentity) (table : HintsByKey)
    (answers : List AddressAnswer) : Decidable (Room capacity identity table answers) :=
  inferInstanceAs (Decidable (_ ≤ _))

/-- With room for all, the first answer is recorded and there is room for the
rest. -/
theorem learnAnswer_of_room {capacity : Nat} (now : Nat) {a : AddressAnswer}
    {rest : List AddressAnswer} (hpos : a.ttl ≠ 0) (hshort : a.ttl ≤ maxTtl)
    (hroom : Room capacity identity table (a :: rest)) :
    let table' := table.upsert (identity, a.address) fun hints =>
      (hints.getD {}).record a.domain (now + secs a.ttl)
    learnAnswer capacity now identity table a = table' ∧
      Room capacity identity table' rest := by
  intro table'
  rw [Room] at hroom
  -- a newcomer among the rest is one of all, and not this address
  have hsub : newcomers identity table' rest ⊆
      (newcomers identity table (a :: rest)).erase a.address := by
    intro x hx
    obtain ⟨⟨b, hb, hbpos, rfl⟩, hnone⟩ := mem_newcomers.mp hx
    rw [lookup_upsert] at hnone
    split at hnone
    · cases hnone
    · next hne =>
      refine Finset.mem_erase.mpr ⟨fun heq => hne (by rw [heq]), ?_⟩
      exact mem_newcomers.mpr ⟨⟨b, .tail _ hb, hbpos, rfl⟩, hnone⟩
  have hcard := Finset.card_le_card hsub
  rw [learnAnswer, if_neg hpos, min_eq_left hshort]
  cases hlook : table.lookup (identity, a.address) with
  | some =>
    refine ⟨if_neg (by simp), ?_⟩
    have hlen : table'.len = table.len := len_insert_of_some hlook _
    have herase := Finset.card_le_card
      (Finset.erase_subset a.address (newcomers identity table (a :: rest)))
    rw [Room]
    omega
  | none =>
    have hmem : a.address ∈ newcomers identity table (a :: rest) :=
      mem_newcomers.mpr ⟨⟨a, .head _, hpos, rfl⟩, hlook⟩
    have hcount := Finset.card_pos.mpr ⟨_, hmem⟩
    have hlen : table'.len = table.len + 1 := len_insert_of_none hlook _
    rw [Finset.card_erase_of_mem hmem] at hcard
    refine ⟨if_neg fun hfull => by omega, ?_⟩
    rw [Room]
    omega

/-- What an answer says, learned at a time. -/
def answerFacts (identity : DnsIdentity) (now : Nat) (answers : List AddressAnswer) :
    Set HintFact :=
  {f | ∃ a ∈ answers, a.ttl ≠ 0 ∧
    f = ⟨identity, a.address, a.domain, now + secs a.ttl⟩}

theorem represents_learnAnswers {capacity : Nat} (answers : List AddressAnswer)
    (h : Represents facts now table) (hroom : Room capacity identity table answers)
    (hshort : ∀ a ∈ answers, a.ttl ≤ maxTtl) :
    Represents (facts ∪ answerFacts identity now answers) now
      (answers.foldl (learnAnswer capacity now identity) table) := by
  induction answers generalizing facts table with
  | nil =>
    have hnone : facts ∪ answerFacts identity now [] = facts := by
      simp [answerFacts]
    rw [hnone]
    exact h
  | cons a rest ih =>
    rw [List.forall_mem_cons] at hshort
    rw [List.foldl_cons]
    by_cases hzero : a.ttl = 0
    · have hsame : learnAnswer capacity now identity table a = table := by
        rw [learnAnswer, if_pos hzero]
      have hfacts : answerFacts identity now (a :: rest) =
          answerFacts identity now rest := by
        simp [answerFacts, hzero]
      have hrest : newcomers identity table (a :: rest) = newcomers identity table rest := by
        simp [newcomers, hzero]
      rw [Room, hrest] at hroom
      rw [hsame, hfacts]
      exact ih h hroom hshort.2
    · obtain ⟨hstep, hroom'⟩ := learnAnswer_of_room now hzero hshort.1 hroom
      have hfacts : facts ∪ answerFacts identity now (a :: rest) =
          insert ⟨identity, a.address, a.domain, now + secs a.ttl⟩ facts ∪
            answerFacts identity now rest := by
        ext f
        simp [answerFacts, hzero, or_left_comm, or_assoc]
      rw [hstep, hfacts]
      exact ih (represents_record h _ _ _ _) hroom' hshort.2

/-! ## Asking -/

/-- `route_hints` names what is recorded and in time, unless a name is marked
as missing. -/
theorem routeHints_some {cache : DnsCache} {address : IpAddr} {names : List Str}
    (h : (cache.routeHints now identity address).1 = some names) :
    ∃ hints, cache.state.routeHints.lookup (identity, address) = some hints ∧
      hints.overflowing now = false ∧ ∀ d, d ∈ names ↔
        ∃ expiry, hints.names.lookup d = some expiry ∧ now < expiry := by
  revert h
  fun_cases routeHints cache now identity address with
  | case4 hints hlook hover =>
    rintro ⟨⟩
    refine ⟨hints, hlook, Bool.eq_false_iff.mpr hover, fun d => ?_⟩
    rw [List.mem_insertionSort, ← AList.mem_keys, ← AList.lookup_isSome, Option.isSome_iff_exists]
    exact exists_congr fun expiry => prune_lookup _ _ _ _
  | _ => exact nofun

/-! ## Runs -/

/-- A learned answer finds room for all its addresses in what is in time, and has
no lifetime that is cut. -/
def Fits (w : HintWorld) : HintOp → Prop
  | .learnRouteHints query response identity => ∀ answers,
      (responseMetadata query response).isSome → parseAddresses response = some answers →
        Room w.cache.capacity identity
          (DnsCache.pruneHints w.now w.cache.state.routeHints) answers ∧
        ∀ a ∈ answers, a.ttl ≤ maxTtl
  | _ => True

theorem facts_learn (w : HintWorld) (query response : Packet) (identity : DnsIdentity) :
    (w.apply (.learnRouteHints query response identity)).Facts =
      w.Facts ∪ {f | Teaches ⟨identity, query, response, w.now⟩ f} := by
  ext f
  simp only [HintWorld.Facts, apply, List.mem_cons, Set.mem_union, Set.mem_ofPred_eq,
    or_and_right, exists_or, exists_eq_left, or_comm]

theorem represents_learnRouteHints {query response : Packet}
    (h : Represents w.Facts w.now w.cache.state.routeHints)
    (hfits : Fits w (.learnRouteHints query response identity)) :
    let w' := w.apply (.learnRouteHints query response identity)
    Represents w'.Facts w'.now w'.cache.state.routeHints := by
  intro w'
  have hfacts : w'.Facts = _ := facts_learn w query response identity
  rw [hfacts]
  simp only [w', apply]
  fun_cases learnRouteHints w.cache w.now query response identity with
  | case1 metadata answers hanswers hmetadata =>
    have hteach : {f | Teaches ⟨identity, query, response, w.now⟩ f} =
        answerFacts identity w.now answers := by
      ext f
      exact teaches_iff hmetadata hanswers f
    rw [hteach]
    obtain ⟨hroom, hshort⟩ := hfits answers (by rw [hmetadata]; rfl) hanswers
    exact represents_learnAnswers answers (represents_pruneHints h) hroom hshort
  | case2 hneither =>
    have hnone : {f | Teaches ⟨identity, query, response, w.now⟩ f} = ∅ := by
      refine Set.eq_empty_of_forall_notMem fun f hf => ?_
      obtain ⟨-, hmetadata, hanswers, -⟩ := hf
      obtain ⟨metadata, hmetadata⟩ := Option.isSome_iff_exists.mp hmetadata
      obtain ⟨answers, hanswers⟩ := Option.isSome_iff_exists.mp hanswers
      exact hneither metadata answers hmetadata hanswers
    rw [hnone, Set.union_empty]
    exact h

theorem represents_of_reach (h : Reach HintWorld.Initial apply Fits w) :
    Represents w.Facts w.now w.cache.state.routeHints := by
  refine Reach.invariant (P := fun w => Represents w.Facts w.now w.cache.state.routeHints)
    ?_ ?_ h
  · rintro w ⟨⟨capacity, hcache⟩, hlearned⟩
    have hfacts : w.Facts = ∅ := by
      simp [HintWorld.Facts, hlearned]
    rw [hfacts, hcache]
    exact represents_empty w.now
  · intro w op hw hfits
    cases op with
    | learnRouteHints => exact represents_learnRouteHints hw hfits
    | routeHints identity address =>
      show Represents w.Facts w.now (w.cache.routeHints w.now identity address).2.state.routeHints
      fun_cases routeHints w.cache w.now identity address with
      | case1 | case2 => exact hw
      | case3 hints hlook | case4 hints hlook => exact represents_insert_prune hw hlook
    | flushResponses =>
      have hfacts : (w.apply .flushResponses).Facts = ∅ := by
        simp [HintWorld.Facts, apply]
      rw [hfacts]
      exact represents_empty w.now
    | tick => exact hw.later (Nat.le_add_right _ _)

/-- A name is in the table for an application and an address, and in time. -/
def Recorded (w : HintWorld) (identity : DnsIdentity) (address : IpAddr) (name : Str) : Prop :=
  ∃ hints expiry, w.cache.state.routeHints.lookup (identity, address) = some hints ∧
    hints.names.lookup name = some expiry ∧ w.now < expiry

/-- In every run in which each answer finds room for its addresses and none has a
lifetime of more than a day, the names given for an address are exactly those in
time, and while one of them is not recorded none are given. -/
theorem routeHints_exact_unless_full {w : HintWorld}
    (h : Reach HintWorld.Initial HintWorld.apply Fits w) (identity : DnsIdentity)
    (address : IpAddr) :
    (∀ names, (w.cache.routeHints w.now identity address).1 = some names →
      ∀ d, d ∈ names ↔ d ∈ w.Names identity address) ∧
    ∀ d ∈ w.Names identity address, ¬ Recorded w identity address d →
      (w.cache.routeHints w.now identity address).1 = none := by
  have hrep := represents_of_reach h
  have hexact : ∀ names, (w.cache.routeHints w.now identity address).1 = some names →
      ∀ d, (d ∈ names ↔ Recorded w identity address d) ∧
        (d ∈ names ↔ d ∈ w.Names identity address) := by
    intro names hnames d
    obtain ⟨hints, hlook, hover, hmem⟩ := routeHints_some hnames
    rw [hmem]
    refine ⟨by grind [Recorded], ?_⟩
    constructor
    · rintro ⟨expiry, hname, hlt⟩
      exact ⟨expiry, hrep.sound hlook hname, hlt⟩
    · rintro ⟨u, hfact, hlt⟩
      obtain ⟨hints', hlook', hcovers⟩ := hrep.complete _ hfact hlt
      rw [hlook] at hlook'
      cases hlook'
      rcases hcovers with ⟨expiry, hname, hle⟩ | ⟨overflow, hmark, hle⟩
      · exact ⟨expiry, hname, lt_of_lt_of_le hlt hle⟩
      · have hpast : overflow ≤ w.now := by
          simpa [RouteHints.overflowing, hmark] using hover
        exact absurd (lt_of_lt_of_le hlt hle) (by omega)
  refine ⟨fun names hnames d => (hexact names hnames d).2, fun d hd hmissing => ?_⟩
  cases hnames : (w.cache.routeHints w.now identity address).1 with
  | none => rfl
  | some names =>
    obtain ⟨hrecorded, hin⟩ := hexact names hnames d
    exact absurd (hrecorded.mp (hin.mpr hd)) hmissing

/-- A cache just made. -/
def freshHints (capacity : Nat) : HintWorld := ⟨DnsCache.new capacity, 0, []⟩

theorem freshHints_initial (capacity : Nat) : HintWorld.Initial (freshHints capacity) :=
  ⟨⟨capacity, rfl⟩, rfl⟩

/-- An application learns that a name of one letter stands for an address. -/
def learnLetter (letter host ttl : UInt8) : HintOp :=
  .learnRouteHints (letterQuery letter) (letterAnswer letter host ttl) ⟨10001, []⟩

/-- Two names for one address, both in time. -/
theorem routeHints_exact_shared :
    let w := ((freshHints 1).apply (learnLetter 0x61 1 60)).apply (learnLetter 0x62 1 60)
    ∀ d, d ∈ [[0x61], [0x62]] ↔ d ∈ w.Names ⟨10001, []⟩ (.v4 0x0a000001) := by
  have hreach : Reach HintWorld.Initial apply Fits
      (((freshHints 1).apply (learnLetter 0x61 1 60)).apply (learnLetter 0x62 1 60)) := by
    refine .step (.step (.start (freshHints_initial 1)) ?_) ?_
    · intro answers _ hanswers
      rw [show parseAddresses (letterAnswer 0x61 1 60) =
        some [⟨[0x61], .v4 0x0a000001, 60⟩] by decide +kernel] at hanswers
      cases hanswers
      decide +kernel
    · intro answers _ hanswers
      rw [show parseAddresses (letterAnswer 0x62 1 60) =
        some [⟨[0x62], .v4 0x0a000001, 60⟩] by decide +kernel] at hanswers
      cases hanswers
      decide +kernel
  exact (routeHints_exact_unless_full hreach ⟨10001, []⟩ (.v4 0x0a000001)).1 _
    (by decide +kernel)

/-- Room for one address. `a` takes it; `b` is learned for a second address,
which is passed over; once `a` is over, `c` is learned for that address. Then
`c` alone is given for it while `b` is still in time. -/
theorem routeHints_forgets_passed_over :
    ∃ w : HintWorld, Reach HintWorld.Initial HintWorld.apply anyAction w ∧
      (w.cache.routeHints w.now ⟨10001, []⟩ (.v4 0x0a000002)).1 = some [[0x63]] ∧
      [0x62] ∈ w.Names ⟨10001, []⟩ (.v4 0x0a000002) := by
  refine ⟨((((freshHints 1).apply (learnLetter 0x61 1 10)).apply
    (learnLetter 0x62 2 100)).apply (.tick (secs 11))).apply (learnLetter 0x63 2 100),
    .step (.step (.step (.step (.start (freshHints_initial 1)) trivial) trivial) trivial)
      trivial, ?_, ?_⟩
  · decide +kernel
  · have hmetadata : responseMetadata (letterQuery 0x62) (letterAnswer 0x62 2 100) =
        some ⟨100, [(25, 100)], false⟩ := by decide +kernel
    have hanswers : parseAddresses (letterAnswer 0x62 2 100) =
        some [⟨[0x62], .v4 0x0a000002, 100⟩] := by decide +kernel
    let lesson : Lesson := ⟨⟨10001, []⟩, letterQuery 0x62, letterAnswer 0x62 2 100, 0⟩
    have hfact := (teaches_iff (l := lesson) hmetadata hanswers _).mpr
      ⟨_, .head _, by decide, rfl⟩
    refine ⟨_, ⟨lesson, .tail _ (.head _), hfact⟩, ?_⟩
    decide +kernel

end Foxcore.Proofs
