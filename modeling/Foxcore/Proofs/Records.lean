import Foxcore.Proofs.DnsAnswers
import Foxcore.Proofs.WireName
import Foxcore.Spec.Records

/-!
# The loops over a response's records

Each loop reads a record and goes on behind it, so each is a fold over the
records once these can be read: `chainRecords_succ`, `answerRecords_succ` and
`metadataRecords_succ` are the steps. From the first two, filtering and address
extraction see the same aliases, and the end of the one chain is the end of
the other.
-/

namespace Foxcore.Proofs

open Lib Ref Spec List Option

variable {packet response query : Packet} {offset count : Nat} {owner : Str} {r : Record}
  {chain : List Str}

/-! ## Fields -/

theorem be16_isSome (packet : Packet) (offset : Nat) (h : offset + 2 ≤ packet.length) :
    ∃ value, be16 packet offset = some value := by
  rw [be16, getElem?_eq_getElem (show offset < packet.length by omega),
    getElem?_eq_getElem (show offset + 1 < packet.length by omega)]
  exact ⟨_, rfl⟩

theorem le_of_be16 {value : Nat} (h : be16 packet offset = some value) :
    offset + 2 ≤ packet.length := by
  obtain ⟨hi, -, h⟩ := bind_eq_some_iff.mp h
  obtain ⟨lo, hlo, -⟩ := bind_eq_some_iff.mp h
  have hlt := (List.getElem?_eq_some_iff.mp hlo).1
  omega

theorem be16_eq_none (h : packet.length < offset + 2) : be16 packet offset = none :=
  eq_none_iff_forall_ne_some.mpr fun _ hvalue => not_le.mpr h (le_of_be16 hvalue)

theorem be32_isSome (packet : Packet) (offset : Nat) (h : offset + 4 ≤ packet.length) :
    ∃ value, be32 packet offset = some value := by
  obtain ⟨hi, hhi⟩ := be16_isSome packet offset (by omega)
  obtain ⟨lo, hlo⟩ := be16_isSome packet (offset + 2) (by omega)
  rw [be32, hhi, hlo]
  exact ⟨_, rfl⟩

theorem slice_eq_none_iff {start len : Nat} :
    slice packet start len = none ↔ packet.length < start + len := by
  rw [slice]
  simp

/-- The fixed part of a record, behind its owner: it is there as a whole or the
record cannot be read. -/
theorem recordAt_cases {next : Nat} (hname : readName packet offset = some (owner, next)) :
    (packet.length < next + 10 ∧ recordAt packet offset = none) ∨
      ∃ recordType class_ ttl len, next + 10 ≤ packet.length ∧
        be16 packet next = some recordType ∧ be16 packet (next + 2) = some class_ ∧
        be32 packet (next + 4) = some ttl ∧ be16 packet (next + 8) = some len ∧
        recordAt packet offset =
          if packet.length < next + 10 + len then none
          else some ⟨owner, recordType, class_, ttl, next + 10, len⟩ := by
  by_cases hlen : next + 10 ≤ packet.length
  · obtain ⟨recordType, htype⟩ := be16_isSome packet next (by omega)
    obtain ⟨class_, hclass⟩ := be16_isSome packet (next + 2) (by omega)
    obtain ⟨ttl, httl⟩ := be32_isSome packet (next + 4) (by omega)
    obtain ⟨len, hsize⟩ := be16_isSome packet (next + 8) (by omega)
    refine .inr ⟨recordType, class_, ttl, len, hlen, htype, hclass, httl, hsize, ?_⟩
    simp [recordAt, hname, htype, hclass, httl, hsize]
  · refine .inl ⟨by omega, ?_⟩
    simp [recordAt, hname, be16_eq_none (show packet.length < next + 8 + 2 by omega)]

/-! ## One step of each loop -/

/-- A loop that gives up where a record cannot be read goes on with the record. -/
theorem bind_recordAt {β : Type} {body : Option β} {f : Record → Option β}
    (hname : readName packet offset = none → body = none)
    (hshort : ∀ {owner next}, readName packet offset = some (owner, next) →
      packet.length < next + 10 → body = none) (hread : ∀ {owner next recordType class_ ttl len},
      readName packet offset = some (owner, next) → next + 10 ≤ packet.length →
      be16 packet next = some recordType → be16 packet (next + 2) = some class_ →
      be32 packet (next + 4) = some ttl → be16 packet (next + 8) = some len →
      body = (slice packet (next + 10) len).bind fun _ =>
        f ⟨owner, recordType, class_, ttl, next + 10, len⟩) :
    body = (recordAt packet offset).bind f := by
  cases hfound : readName packet offset with
  | none => simp [recordAt, hfound, hname hfound]
  | some found =>
    rcases recordAt_cases hfound with ⟨hlt, hnone⟩ | ⟨recordType, class_, ttl, len, hlen,
      htype, hclass, httl, hsize, hrecord⟩
    · rw [hnone, hshort hfound hlt]
      rfl
    · rw [hrecord, hread hfound hlen htype hclass httl hsize]
      by_cases hdata : packet.length < found.2 + 10 + len
      · rw [if_pos hdata, slice_eq_none_iff.mpr hdata]
        rfl
      · rw [if_neg hdata, slice, if_pos (by omega)]
        rfl

theorem chainRecords_succ (response : Packet) (count offset : Nat) (aliases : HashMap Str Str) :
    chainRecords response (count + 1) offset aliases =
      (recordAt response offset).bind fun r =>
        if r.class_ = classIn ∧ r.recordType = recordCname then
          (readName response r.start).bind fun found =>
            if found.2 ≠ r.start + r.len ∨ (aliases.lookup r.owner).isSome then none
            else chainRecords response count (r.start + r.len) (aliases.insert r.owner found.1)
        else chainRecords response count (r.start + r.len) aliases := by
  rw [chainRecords]
  refine bind_recordAt (fun hname => ?_) (fun hname hshort => ?_)
    fun hname hlen htype hclass httl hsize => ?_
  · simp [hname]
  · simp [hname, slice_eq_none_iff.mpr hshort]
  · simp [hname, show slice response _ 10 = some _ from if_pos hlen, htype, hclass, hsize]

theorem answerRecords_succ (packet : Packet) (queryType count offset : Nat) (answers : Answers) :
    answerRecords packet queryType (count + 1) offset answers =
      (recordAt packet offset).bind fun r =>
        if r.class_ = classIn ∧ r.recordType = recordCname then
          (readName packet r.start).bind fun found =>
            if found.2 ≠ r.start + r.len ∨ (answers.aliases.lookup r.owner).isSome then none
            else
              answerRecords packet queryType count (r.start + r.len)
                { answers with aliases := answers.aliases.insert r.owner (found.1, r.ttl) }
        else
          answerRecords packet queryType count (r.start + r.len)
            { answers with addresses := answers.addresses ++
                ((r.addressOf packet queryType).map fun address =>
                  (r.owner, address, r.ttl)).toList } := by
  rw [answerRecords]
  refine bind_recordAt (fun hname => ?_) (fun {_ next} hname hshort => ?_)
    fun {owner next recordType class_ ttl len} hname hlen htype hclass httl hsize => ?_
  · simp [hname]
  · simp [hname, be16_eq_none (show packet.length < next + 8 + 2 by omega)]
  · simp only [bind_eq_bind, bind_some, hname, htype, hclass, httl, hsize]
    cases hdata : slice packet (next + 10) len with
    | none => rfl
    | some data =>
      simp only [bind_some]
      by_cases halias : class_ = classIn ∧ recordType = recordCname
      · rw [if_pos halias, if_pos halias]
      · rw [if_neg halias, if_neg halias, Record.addressOf]
        by_cases hasked : class_ = classIn ∧ recordType = queryType
        · have hnot : recordType ≠ recordCname := fun heq => halias ⟨hasked.1, heq⟩
          rw [if_pos hasked, if_pos ⟨hasked.1, hnot, hasked.2⟩, hdata, bind_some]
          cases recordAddress recordType data <;> simp
        · rw [if_neg hasked, if_neg fun h => hasked ⟨h.1, h.2.2⟩]
          simp

theorem metadataRecords_succ (response : Packet) (count offset minTtl : Nat)
    (fields : List (Nat × Nat)) :
    metadataRecords response (count + 1) offset minTtl fields =
      (recordAt response offset).bind fun r =>
        if r.recordType ≠ recordOpt then
          metadataRecords response count (r.start + r.len) (min minTtl r.ttl)
            (fields ++ [(r.start - 6, r.ttl)])
        else metadataRecords response count (r.start + r.len) minTtl fields := by
  rw [metadataRecords]
  refine bind_recordAt (fun hname => ?_) (fun hname hshort => ?_)
    fun {_ next _ _ _ len} hname hlen htype hclass httl hsize => ?_
  · simp [hname]
  · simp [hname, hshort]
  · simp only [bind_eq_bind, bind_some, hname, htype, httl, hsize,
      if_neg (not_lt.mpr hlen), slice]
    by_cases hdata : response.length < next + 10 + len
    · rw [if_pos hdata, if_neg (not_le.mpr hdata)]
      rfl
    · rw [if_neg hdata, if_pos (not_lt.mp hdata)]
      rfl

theorem readRecords_cons {records : List Record} (hr : recordAt packet offset = some r)
    (hrecords : readRecords packet count (r.start + r.len) = some records) :
    readRecords packet (count + 1) offset = some (r :: records) := by
  rw [readRecords, hr, bind_eq_bind, bind_some, hrecords]
  rfl

/-! ## Aliases -/

theorem lookup_insert_new {β : Type} {aliases : HashMap Str β} (hnew : aliases.lookup owner = none)
    (value : β) (owner' : Str) (value' : β) :
    (aliases.insert owner value).lookup owner' = some value' ↔
      aliases.lookup owner' = some value' ∨ (owner = owner' ∧ value = value') := by
  by_cases hsame : owner' = owner
  · subst hsame
    rw [hnew]
    simp
  · rw [AList.lookup_insert_ne hsame]
    simp [Ne.symm hsame]

theorem aliasTarget_of_filled {found : Str × Nat}
    (halias : r.class_ = classIn ∧ r.recordType = recordCname)
    (hname : readName packet r.start = some found) (hfills : found.2 = r.start + r.len) :
    r.aliasTarget packet = some found.1 := by
  rw [Record.aliasTarget, if_pos halias, hname, bind_some, if_pos hfills]

theorem aliasTarget_of_other (hother : ¬ (r.class_ = classIn ∧ r.recordType = recordCname)) :
    r.aliasTarget packet = none := if_neg hother

/-- What a loop gathers that meets records in order: those it began with, and
one for each alias. -/
theorem gathered_cons {records : List Record} {began : Prop} {target : Str} :
    (began ∨ ∃ r' ∈ r :: records, r'.owner = owner ∧ r'.aliasTarget packet = some target) ↔
      (began ∨ (r.owner = owner ∧ r.aliasTarget packet = some target)) ∨
        ∃ r' ∈ records, r'.owner = owner ∧ r'.aliasTarget packet = some target := by
  rw [exists_mem_cons_iff]
  exact or_assoc.symm

theorem chainRecords_spec {aliases aliases' : HashMap Str Str}
    (h : chainRecords response count offset aliases = some aliases') :
    ∃ records, readRecords response count offset = some records ∧
      ∀ owner target, aliases'.lookup owner = some target ↔
        aliases.lookup owner = some target ∨
          ∃ r ∈ records, r.owner = owner ∧ r.aliasTarget response = some target := by
  induction count generalizing offset aliases with
  | zero =>
    cases h
    refine ⟨[], rfl, fun owner target => ?_⟩
    simp
  | succ count ih =>
    rw [chainRecords_succ] at h
    obtain ⟨r, hr, h⟩ := bind_eq_some_iff.mp h
    split at h
    · next halias =>
      obtain ⟨found, hname, h⟩ := bind_eq_some_iff.mp h
      rw [ite_none_left_eq_some] at h
      obtain ⟨hgood, h⟩ := h
      obtain ⟨hfills, hnew⟩ := not_or.mp hgood
      have htarget := aliasTarget_of_filled halias hname (not_not.mp hfills)
      obtain ⟨records, hrecords, hall⟩ := ih h
      refine ⟨r :: records, readRecords_cons hr hrecords, fun owner target => ?_⟩
      rw [hall, gathered_cons, lookup_insert_new (not_isSome_iff_eq_none.mp hnew),
        htarget, some.injEq]
    · next hother =>
      obtain ⟨records, hrecords, hall⟩ := ih h
      refine ⟨r :: records, readRecords_cons hr hrecords, fun owner target => ?_⟩
      rw [hall, gathered_cons, aliasTarget_of_other hother]
      simp

/-- Address extraction gathers the same aliases, with their lifetimes, and the
addresses of the type asked for. -/
theorem answerRecords_spec {queryType : Nat} {answers answers' : Answers}
    (h : answerRecords packet queryType count offset answers = some answers') :
    ∃ records, readRecords packet count offset = some records ∧
      (∀ owner target, (∃ ttl, answers'.aliases.lookup owner = some (target, ttl)) ↔
        (∃ ttl, answers.aliases.lookup owner = some (target, ttl)) ∨
          ∃ r ∈ records, r.owner = owner ∧ r.aliasTarget packet = some target) ∧
      answers'.addresses = answers.addresses ++ records.filterMap fun r =>
        (r.addressOf packet queryType).map fun address => (r.owner, address, r.ttl) := by
  induction count generalizing offset answers with
  | zero =>
    cases h
    refine ⟨[], rfl, fun owner target => ?_, ?_⟩
    · simp
    · simp
  | succ count ih =>
    rw [answerRecords_succ] at h
    obtain ⟨r, hr, h⟩ := bind_eq_some_iff.mp h
    split at h
    · next halias =>
      obtain ⟨found, hname, h⟩ := bind_eq_some_iff.mp h
      rw [ite_none_left_eq_some] at h
      obtain ⟨hgood, h⟩ := h
      obtain ⟨hfills, hnew⟩ := not_or.mp hgood
      have htarget := aliasTarget_of_filled halias hname (not_not.mp hfills)
      obtain ⟨records, hrecords, hall, haddresses⟩ := ih h
      refine ⟨r :: records, readRecords_cons hr hrecords, fun owner target => ?_, ?_⟩
      · rw [hall, gathered_cons, htarget, some.injEq]
        simp [lookup_insert_new (not_isSome_iff_eq_none.mp hnew), exists_or]
      · -- an alias holds no address
        rw [haddresses, filterMap_cons, Record.addressOf,
          if_neg fun hcase => hcase.2.1 halias.2]
        rfl
    · next hother =>
      obtain ⟨records, hrecords, hall, haddresses⟩ := ih h
      refine ⟨r :: records, readRecords_cons hr hrecords, fun owner target => ?_, ?_⟩
      · rw [hall, gathered_cons, aliasTarget_of_other hother]
        simp
      · rw [haddresses, filterMap_cons, append_assoc]
        cases r.addressOf packet queryType <;> rfl

/-! ## Responses that answer a query -/

theorem metadataRecords_eq (response : Packet) (count offset minTtl : Nat)
    (fields : List (Nat × Nat)) :
    metadataRecords response count offset minTtl fields =
      (readRecords response count offset).map fun records =>
        ((lasting records).foldl (fun least r => min least r.ttl) minTtl,
          fields ++ (lasting records).map Record.ttlField) := by
  induction count generalizing offset minTtl fields with
  | zero => simp [metadataRecords, readRecords, lasting]
  | succ count ih =>
    rw [metadataRecords_succ, readRecords]
    cases recordAt response offset with
    | none => rfl
    | some r =>
      simp only [bind_eq_bind, bind_some, ih]
      cases readRecords response count (r.start + r.len) with
      | none => simp
      | some =>
        by_cases hopt : r.recordType ≠ recordOpt
        · simp [lasting, hopt, Record.ttlField]
        · simp [lasting, hopt]

theorem slice_zero_two (h : dnsHeaderLen ≤ packet.length) :
    slice packet 0 2 = some (packet.take 2) := by
  rw [slice, if_pos (show 0 + 2 ≤ packet.length by rw [dnsHeaderLen] at h; omega),
    drop_zero]

/-- `response_metadata` accepts the responses that answer the query. -/
theorem responseMetadata_iff {metadata : ResponseMetadata} :
    responseMetadata query response = some metadata ↔
      ∃ v, AnswersQuery query response v ∧ metadata = v.metadata := by
  constructor
  · intro h
    rw [responseMetadata] at h
    simp only [bind_eq_bind, bind_none, bind_eq_some_iff,
      ite_none_left_eq_some, not_or, not_not, metadataRecords_eq,
      map_eq_some_iff] at h
    obtain ⟨queryId, hqueryId, responseId, hresponseId, hid, parsed, hparsed, hlen, flags,
      hflags, ⟨hresponse, hopcode⟩, questions, hquestions, answers, hanswers, authority,
      hauthority, additional, hadditional, hone, ⟨domain, next⟩, hname, recordType, htype,
      class_, hclass, ⟨rfl, rfl, rfl⟩, _, ⟨records, hrecords, rfl⟩, hmetadata⟩ := h
    have hquery := (parseQuestion_iff.mp hparsed).1
    have hheader := le_of_not_gt hlen
    rw [slice_zero_two hquery, some.injEq] at hqueryId
    rw [slice_zero_two hheader, some.injEq] at hresponseId
    subst hone hqueryId hresponseId
    refine ⟨⟨parsed, flags, answers, authority, additional, next, records⟩,
      ⟨hparsed, hheader, hid.symm, hflags, hresponse, hopcode, hquestions, hanswers,
        hauthority, hadditional, hname, htype, hclass, hrecords⟩, ?_⟩
    rw [← some.inj hmetadata]
    simp [Reading.metadata]
  · rintro ⟨v, hv, rfl⟩
    have hquery := (parseQuestion_iff.mp hv.question).1
    rw [responseMetadata, slice_zero_two hquery, slice_zero_two hv.header]
    simp [hv.id, hv.question, not_lt.mpr hv.header, hv.flags, hv.isResponse, hv.opcode,
      hv.oneQuestion, hv.answers, hv.authority, hv.additional, hv.name, hv.recordType,
      hv.class_, metadataRecords_eq, hv.records, Reading.metadata]

/-! ## The chain and its end -/

/-- The chain found lists every name that can be reached, and no alias leads on
from its end. -/
theorem followChain_spec {aliases : HashMap Str Str} {fuel : Nat} {visited chain' : List Str}
    (h : followChain aliases fuel owner visited chain = some chain') :
    ∃ rest, chain' = chain ++ rest ∧
      (∀ name, Relation.ReflTransGen (fun a b => aliases.lookup a = some b) owner name →
        name ∈ owner :: rest) ∧
      Relation.ReflTransGen (fun a b => aliases.lookup a = some b) owner (rest.getLastD owner) ∧
      aliases.lookup (rest.getLastD owner) = none := by
  induction fuel generalizing owner visited chain with
  | zero => cases h
  | succ fuel ih =>
    rw [followChain] at h
    cases hlook : aliases.lookup owner with
    | none =>
      simp only [hlook] at h
      cases h
      refine ⟨[], (append_nil _).symm, fun name hname => ?_, .refl, hlook⟩
      rcases hname.cases_head with rfl | ⟨next, hstep, -⟩
      · exact mem_singleton_self _
      · rw [hlook] at hstep
        cases hstep
    | some target =>
      simp only [hlook, ite_none_left_eq_some] at h
      obtain ⟨rest, hrest, hnames, hend, hlast⟩ := ih h.2
      have hgetLast : (target :: rest).getLastD owner = rest.getLastD target :=
        getLastD_cons
      refine ⟨target :: rest, by rw [hrest, append_assoc]; rfl, fun name hname => ?_,
        .head hlook ?_, ?_⟩
      · rcases hname.cases_head with rfl | ⟨next, hstep, hname⟩
        · exact mem_cons_self
        · have hnext : target = next := some.inj (hlook.symm.trans hstep)
          rw [← hnext] at hname
          exact mem_cons_of_mem _ (hnames name hname)
      · rw [hgetLast]
        exact hend
      · rw [hgetLast]
        exact hlast

/-- What the chain of an answer without an error says of a question of class
IN. -/
structure ChainOf (response : Packet) (domain : Str) (chain : List Str)
    (records : List Record) : Prop where
  section_ : answerSection response = some records
  names : ∀ name, LeadsTo response domain name → name ∈ domain :: chain
  leads : LeadsTo response domain (chain.getLastD domain)
  last : ∀ target, ¬ AliasIn response (chain.getLastD domain) target

theorem responseDomainChain_spec {parsed : ParsedQuestion} {flags : Nat}
    (h : responseDomainChain query response = some chain)
    (hparsed : parseQuestion query = some parsed) (hclass : parsed.question.class_ = classIn)
    (hflags : be16 response 2 = some flags) (hrcode : flags &&& 0x000f = 0) :
    ∃ records, ChainOf response parsed.question.domain chain records := by
  obtain ⟨-, -, h⟩ := bind_eq_some_iff.mp h
  simp only [bind_eq_bind, hflags, bind_some, hrcode, hparsed, hclass] at h
  obtain ⟨⟨domain, next⟩, hname, h⟩ := bind_eq_some_iff.mp h
  obtain ⟨count, hcount, h⟩ := bind_eq_some_iff.mp h
  obtain ⟨aliases, haliases, h⟩ := bind_eq_some_iff.mp h
  obtain ⟨records, hrecords, hall⟩ := chainRecords_spec haliases
  have hsection : answerSection response = some records := by
    rw [answerSection, hname, hcount]
    exact hrecords
  have hstep : AliasIn response = fun a b => aliases.lookup a = some b := by
    funext owner target
    rw [hall, AliasIn, hsection]
    simp
  obtain ⟨rest, hrest, hnames, hend, hlast⟩ := followChain_spec h
  obtain rfl : chain = rest := hrest
  refine ⟨records, hsection, ?_, ?_, ?_⟩
  · rw [LeadsTo, hstep]
    exact hnames
  · rw [LeadsTo, hstep]
    exact hend
  · intro target halias
    rw [hstep] at halias
    rw [hlast] at halias
    cases halias

theorem and_000f_of_and_7a0f {flags : Nat} (h : flags &&& 0x7a0f = 0) : flags &&& 0x000f = 0 := by
  have hmask : 0x7a0f &&& 0x000f = 0x000f := by decide
  rw [← hmask, ← Nat.and_assoc, h, Nat.zero_and]

/-- Where an alias chain ends for address extraction it ends for filtering. -/
theorem aliasChain_leads {aliases : HashMap Str (Str × Nat)} {step : Str → Str → Prop}
    (hstep : ∀ owner target, (∃ ttl, aliases.lookup owner = some (target, ttl)) ↔ step owner target)
    {last : Str} {ttl : Nat} (h : AliasChain aliases owner last ttl) :
    Relation.ReflTransGen step owner last ∧ ∀ target, ¬ step last target := by
  induction h with
  | last hnone =>
    refine ⟨.refl, fun target halias => ?_⟩
    obtain ⟨ttl, hlook⟩ := (hstep _ _).mpr halias
    rw [hnone] at hlook
    cases hlook
  | link hlook _ ih => exact ⟨.head ((hstep _ _).mp ⟨_, hlook⟩) ih.1, ih.2⟩

/-- A walk along a function ends in one place. -/
theorem end_unique {step : Str → Str → Prop} (hfunction : ∀ a b c, step a b → step a c → b = c)
    {start x y : Str} (hx : Relation.ReflTransGen step start x) (hendx : ∀ z, ¬ step x z)
    (hy : Relation.ReflTransGen step start y) (hendy : ∀ z, ¬ step y z) : x = y := by
  induction hx using Relation.ReflTransGen.head_induction_on with
  | refl =>
    rcases hy.cases_head with rfl | ⟨z, hz, -⟩
    · rfl
    · exact absurd hz (hendx z)
  | head hab _ ih =>
    rcases hy.cases_head with rfl | ⟨z, hz, hzy⟩
    · exact absurd hab (hendy _)
    · rw [← hfunction _ _ _ hab hz] at hzy
      exact ih hzy

theorem filterMap_under (records : List Record) (owner : Str) (f : Record → Option IpAddr) :
    ((records.filterMap fun r => (f r).map fun address => (r.owner, address, r.ttl)).filter
        fun a => a.1 = owner).map (fun a => a.2.1) =
      records.filterMap fun r => if r.owner = owner then f r else none := by
  induction records with
  | nil => rfl
  | cons r records ih =>
    rw [filterMap_cons, filterMap_cons, ← ih]
    cases f r with
    | none => simp
    | some =>
      by_cases howner : r.owner = owner
      · rw [if_pos howner, map_some, filter_cons_of_pos (by simpa using howner)]
        rfl
      · rw [if_neg howner, map_some, filter_cons_of_neg (by simpa using howner)]

/-- Both walks over one response: the addresses found are those under the end
of the chain that filtering has looked at. -/
theorem parseAddresses_of_chain {answers : List AddressAnswer}
    (hchain : responseDomainChain query response = some chain)
    (hanswers : parseAddresses response = some answers) :
    ∃ parsed records, parseQuestion query = some parsed ∧
      answerSection response = some records ∧
      answers.map AddressAnswer.address = records.filterMap fun r =>
        if r.owner = chain.getLastD parsed.question.domain then
          r.addressOf response parsed.question.recordType else none := by
  obtain ⟨metadata, hmetadata, -⟩ := bind_eq_some_iff.mp hchain
  obtain ⟨v, hv, -⟩ := responseMetadata_iff.mp hmetadata
  rw [parseAddresses] at hanswers
  simp only [bind_eq_bind, bind_none, bind_eq_some_iff,
    ite_none_left_eq_some, not_or, not_not] at hanswers
  obtain ⟨-, flags, hflags, -, -, ⟨-, hzero, -⟩, count, hcount, ⟨domain, next⟩, hname, queryType,
    htype, class_, hclass, hin, found, hfound, ⟨owner, chainTtl⟩, hfollow, heq⟩ := hanswers
  -- the response's question is the query's
  rw [hv.name, some.injEq] at hname
  obtain ⟨rfl, rfl⟩ := hname
  rw [hv.recordType, some.injEq] at htype
  rw [hv.class_, some.injEq] at hclass
  obtain ⟨records, hof⟩ := responseDomainChain_spec hchain hv.question (hclass.trans hin) hflags
    (and_000f_of_and_7a0f hzero)
  obtain ⟨records', hrecords', hall, haddresses⟩ := answerRecords_spec hfound
  have hsection : answerSection response = some records' := by
    rw [answerSection, hv.name, hcount]
    exact hrecords'
  cases hof.section_.symm.trans hsection
  refine ⟨v.parsed, records, hv.question, hsection, ?_⟩
  have hstep : ∀ a b, (∃ ttl, found.aliases.lookup a = some (b, ttl)) ↔ AliasIn response a b := by
    intro a b
    rw [hall, AliasIn, hsection]
    simp
  have hfunction : ∀ a b c, AliasIn response a b → AliasIn response a c → b = c := by
    intro a b c hab hac
    exact AliasStep.unique ((hstep a b).mpr hab) ((hstep a c).mpr hac)
  obtain ⟨hleads, hend⟩ := aliasChain_leads hstep (followAliases_iff.mp hfollow)
  obtain rfl := end_unique hfunction hleads hend hof.leads hof.last
  cases heq
  rw [haddresses, htype]
  rw [List.map_map]
  exact filterMap_under _ _ _

end Foxcore.Proofs
