import Foxcore.Spec.Hints

/-!
# What an answer carries

`followAliases` walks with a bound on its rounds and a list of the names it
has been at. Both are there for chains that go round in a circle, and neither
cuts a chain short that ends: `followAliases_iff` says the walk finds the end
of a chain exactly when there is one.

From it and the order of `parse_addresses`, the addresses found in a response
are those it carries, under the name its query asked for.
-/

namespace Foxcore.Proofs

open Lib Ref Spec List Option

variable {owner last : Str} {ttl : Nat}

section Aliases

variable {aliases : HashMap Str (Str × Nat)}

/-- One alias further. -/
def AliasStep (aliases : HashMap Str (Str × Nat)) (owner target : Str) : Prop :=
  ∃ ttl, aliases.lookup owner = some (target, ttl)

theorem AliasStep.unique {target target' : Str} (h : AliasStep aliases owner target)
    (h' : AliasStep aliases owner target') : target = target' := by
  obtain ⟨ttl, ht⟩ := h
  obtain ⟨ttl', ht'⟩ := h'
  rw [ht] at ht'
  exact congrArg Prod.fst (some.inj ht')

/-- A chain that ends never comes back to where it started. -/
theorem aliasChain_acyclic (h : AliasChain aliases owner last ttl) :
    ¬ Relation.TransGen (AliasStep aliases) owner owner := by
  induction h with
  | last hnone =>
    intro hcycle
    obtain ⟨_, ⟨ttl, hstep⟩, -⟩ := Relation.TransGen.head'_iff.mp hcycle
    rw [hnone] at hstep
    cases hstep
  | link hlook _ ih =>
    intro hcycle
    obtain ⟨next, hstep, hback⟩ := Relation.TransGen.head'_iff.mp hcycle
    obtain rfl := hstep.unique ⟨_, hlook⟩
    exact ih (Relation.TransGen.tail' hback hstep)

theorem aliasChain_ttl_le (h : AliasChain aliases owner last ttl) : ttl ≤ 2 ^ 32 - 1 := by
  induction h with
  | last => exact le_rfl
  | link _ _ ih => exact le_trans (min_le_right _ _) ih

theorem followAliases_sound {fuel : Nat} {visited : List Str} {chainTtl : Nat}
    (hle : chainTtl ≤ 2 ^ 32 - 1)
    (h : followAliases aliases fuel owner visited chainTtl = some (last, ttl)) :
    ∃ rest, AliasChain aliases owner last rest ∧ ttl = min chainTtl rest := by
  induction fuel generalizing owner visited chainTtl with
  | zero => cases h
  | succ fuel ih =>
    rw [followAliases] at h
    cases hlook : aliases.lookup owner with
    | none =>
      simp only [hlook] at h
      cases h
      exact ⟨_, .last hlook, (min_eq_left hle).symm⟩
    | some =>
      simp only [hlook] at h
      split at h
      · cases h
      · obtain ⟨rest, hchain, rfl⟩ := ih (le_trans (min_le_left _ _) hle) h
        exact ⟨_, .link hlook hchain, min_assoc _ _ _⟩

theorem followAliases_complete {rest : Nat} (h : AliasChain aliases owner last rest)
    {fuel chainTtl : Nat} {visited : List Str} (hle : chainTtl ≤ 2 ^ 32 - 1)
    (hbefore : ∀ v ∈ visited, Relation.TransGen (AliasStep aliases) v owner)
    (hnodup : visited.Nodup) (hkeys : visited ⊆ aliases.keys)
    (hfuel : aliases.len < fuel + visited.length) :
    followAliases aliases fuel owner visited chainTtl = some (last, min chainTtl rest) := by
  induction h generalizing fuel chainTtl visited with
  | last hnone =>
    have hlen : visited.length ≤ aliases.len := (hnodup.subperm hkeys).length_le
    obtain ⟨fuel, rfl⟩ : ∃ n, fuel = n + 1 := ⟨fuel - 1, by omega⟩
    rw [followAliases]
    simp only [hnone]
    rw [min_eq_left hle]
  | @link owner target last linkTtl rest hlook hchain ih =>
    have hlen : visited.length ≤ aliases.len := (hnodup.subperm hkeys).length_le
    obtain ⟨fuel, rfl⟩ : ∃ n, fuel = n + 1 := ⟨fuel - 1, by omega⟩
    have hstep : AliasStep aliases owner target := ⟨linkTtl, hlook⟩
    -- a name met again would lie on a circle, and this chain ends
    have hnew : owner ∉ visited := fun hin =>
      aliasChain_acyclic (.link hlook hchain) (hbefore owner hin)
    have hkey : owner ∈ aliases.keys :=
      AList.mem_keys.mp (AList.lookup_isSome.mp (by rw [hlook]; rfl))
    rw [followAliases]
    simp only [hlook, if_neg hnew]
    rw [ih (le_trans (min_le_left _ _) hle) ?_ (hnodup.cons hnew)
      (cons_subset.mpr ⟨hkey, hkeys⟩) (by simp only [length_cons]; omega),
      min_assoc]
    intro v hv
    rcases mem_cons.mp hv with rfl | hold
    · exact .single hstep
    · exact (hbefore v hold).tail hstep

/-- The walk finds the end of the chain exactly when the chain ends. -/
theorem followAliases_iff {domain : Str} :
    followAliases aliases (aliases.len + 1) domain [] (2 ^ 32 - 1) = some (owner, ttl) ↔
      AliasChain aliases domain owner ttl := by
  constructor
  · intro h
    obtain ⟨rest, hchain, rfl⟩ := followAliases_sound le_rfl h
    rw [min_eq_right (aliasChain_ttl_le hchain)]
    exact hchain
  · intro h
    rw [followAliases_complete h le_rfl (fun v hv => by cases hv) .nil
      (nil_subset _) (by simp), min_eq_right (aliasChain_ttl_le h)]

end Aliases

/-! ## Responses -/

/-- The name a valid response asks for is the one its query asked for. -/
theorem responseMetadata_question {query response : Packet} {metadata : ResponseMetadata}
    (h : responseMetadata query response = some metadata) :
    ∃ parsed offset, parseQuestion query = some parsed ∧
      readName response dnsHeaderLen = some (parsed.question.domain, offset) := by
  rw [responseMetadata] at h
  simp only [bind_eq_bind, bind_none, bind_eq_some_iff,
    ite_none_left_eq_some, not_or, not_not] at h
  obtain ⟨-, -, -, -, -, parsed, hparsed, -, -, -, -, -, -, -, -, -, -, -, -, -,
    ⟨domain, offset⟩, hname, -, -, -, -, ⟨rfl, -, -⟩, -⟩ := h
  exact ⟨parsed, offset, hparsed, hname⟩

/-- `parse_addresses` finds what the response carries. -/
theorem mem_parseAddresses {response : Packet} {answers : List AddressAnswer}
    (h : parseAddresses response = some answers) (a : AddressAnswer) :
    a ∈ answers ↔ Carries response a.domain a.address a.ttl := by
  rw [parseAddresses] at h
  simp only [bind_eq_bind, bind_none, bind_eq_some_iff,
    ite_none_left_eq_some] at h
  obtain ⟨-, -, -, -, -, -, count, hcount, ⟨domain, offset⟩, hname, queryType, htype, -, -, -,
    records, hrecords, ⟨owner, chainTtl⟩, hchain, hanswers⟩ := h
  cases hanswers
  simp only [List.mem_map, mem_filter, decide_eq_true_eq]
  constructor
  · rintro ⟨⟨owner', address, recordTtl⟩, ⟨hmem, rfl⟩, rfl⟩
    exact ⟨offset, queryType, count, records, _, recordTtl, chainTtl, hname, htype, hcount,
      hrecords, followAliases_iff.mp hchain, hmem, rfl⟩
  · rintro ⟨offset', queryType', count', records', owner', recordTtl, chainTtl', hname',
      htype', hcount', hrecords', hchain', hmem, httl⟩
    obtain ⟨domain', address, ttl⟩ := a
    -- the reading of a packet is a function, and so is the end of its chain
    cases hname.symm.trans hname'
    cases htype.symm.trans htype'
    cases hcount.symm.trans hcount'
    cases hrecords.symm.trans hrecords'
    cases hchain.symm.trans (followAliases_iff.mpr hchain')
    exact ⟨(owner, address, recordTtl), ⟨hmem, rfl⟩,
      congrArg (AddressAnswer.mk _ address) httl.symm⟩

/-- What a lesson teaches is read off the addresses found in its response. -/
theorem teaches_iff {l : Lesson} {metadata : ResponseMetadata} {answers : List AddressAnswer}
    (hmetadata : responseMetadata l.query l.response = some metadata)
    (hanswers : parseAddresses l.response = some answers) (f : HintFact) :
    Teaches l f ↔ ∃ a ∈ answers, a.ttl ≠ 0 ∧
      f = ⟨l.identity, a.address, a.domain, l.learnedAt + secs a.ttl⟩ := by
  constructor
  · rintro ⟨hidentity, -, -, -, ttl, hpos, hcarries, huntil⟩
    obtain ⟨identity, address, name, until_⟩ := f
    obtain rfl := hidentity
    obtain rfl := huntil
    exact ⟨⟨name, address, ttl⟩, (mem_parseAddresses hanswers _).mpr hcarries,
      Nat.ne_of_gt hpos, rfl⟩
  · rintro ⟨a, hmem, hpos, rfl⟩
    have hcarries := (mem_parseAddresses hanswers a).mp hmem
    obtain ⟨parsed, offset, hparsed, hname⟩ := responseMetadata_question hmetadata
    obtain ⟨offset', _, _, _, _, _, _, hname', -⟩ := hcarries
    rw [hname] at hname'
    have hdomain := congrArg Prod.fst (some.inj hname')
    exact ⟨rfl, by rw [hmetadata]; rfl, by rw [hanswers]; rfl, ⟨parsed, hparsed, hdomain⟩,
      a.ttl, Nat.pos_of_ne_zero hpos, (mem_parseAddresses hanswers a).mp hmem, rfl⟩

/-- A query for the address of a name of one letter. -/
def letterQuery (letter : UInt8) : Packet :=
  [0, 1, 1, 0, 0, 1, 0, 0, 0, 0, 0, 0, 1, letter, 0, 0, 1, 0, 1]

/-- Its answer with one address `10.0.0.host`, for at most 255 seconds. -/
def letterAnswer (letter host ttl : UInt8) : Packet :=
  [0, 1, 0x81, 0x80, 0, 1, 0, 1, 0, 0, 0, 0, 1, letter, 0, 0, 1, 0, 1,
    0xc0, 0x0c, 0, 1, 0, 1, 0, 0, 0, ttl, 0, 4, 10, 0, 0, host]

end Foxcore.Proofs
