import Foxcore.Proofs.CacheTrail
import Foxcore.Proofs.Replies
import Foxcore.Spec.CacheAging

/-!
# What the cache hands out

The lifetimes of a response stand apart from each other and from everything
else that has a fixed place, so writing one leaves the rest as it is
(`aged_render`). What is handed out stems from the response that was last kept
under the key (`dated_of_reach`). It is accepted again unless a name has
changed with what it is read from (`accepted_iff_rereads`).
-/

namespace Foxcore.Proofs

open Lib Ref Spec Ref.DnsCache List Option

variable {field : Nat × Nat} {i offset count now : Nat} {r : Record} {records : List Record}
  {parsed : ParsedQuestion} {s : CacheRun} {cache : DnsCache} {k : Spec.Kept}
variable {packet query : Packet} {v : Reading}

/-! ## Lifetimes written -/

section

variable (h : field.1 + 4 ≤ packet.length)

include h

theorem length_writeTtl : (writeTtl packet field).length = packet.length := by
  have hfour : (toBe32 field.2).length = 4 := rfl
  grind [writeTtl]

theorem writeTtl_getElem? (hi : ¬ (field.1 ≤ i ∧ i < field.1 + 4)) :
    (writeTtl packet field)[i]? = packet[i]? := by
  have hfour : (toBe32 field.2).length = 4 := rfl
  rw [writeTtl]
  by_cases hlt : i < field.1
  · grind
  · rw [getElem?_append_right (by grind), getElem?_drop]
    congr 1
    grind

theorem be32_writeTtl (hvalue : field.2 < 2 ^ 32) :
    be32 (writeTtl packet field) field.1 = some field.2 := by
  have hfront : (packet.take field.1).length = field.1 := by
    rw [length_take]
    omega
  have hread := @be32_append (packet.take field.1) (toBe32 field.2 ++ packet.drop (field.1 + 4)) 0
  rw [hfront, be32_toBe32 hvalue, ← append_assoc] at hread
  exact hread

end

/-- Fields of a packet that do not overlap, in order, with values that fit. -/
structure Apart (fields : List (Nat × Nat)) (length : Nat) : Prop where
  inside : ∀ field ∈ fields, field.1 + 4 ≤ length
  values : ∀ field ∈ fields, field.2 < 2 ^ 32
  ordered : fields.Pairwise fun field field' => field.1 + 4 ≤ field'.1

theorem writeTtls_spec {fields : List (Nat × Nat)} (h : Apart fields packet.length) :
    (fields.foldl writeTtl packet).length = packet.length ∧
      (∀ field ∈ fields,
        be32 (fields.foldl writeTtl packet) field.1 = some field.2) ∧
      ∀ i, (∀ field ∈ fields, ¬ (field.1 ≤ i ∧ i < field.1 + 4)) →
        (fields.foldl writeTtl packet)[i]? = packet[i]? := by
  induction fields generalizing packet with
  | nil => exact ⟨rfl, nofun, fun i _ => rfl⟩
  | cons field fields ih =>
    obtain ⟨hinside, hins⟩ := forall_mem_cons.mp h.inside
    obtain ⟨hvalue, hvals⟩ := forall_mem_cons.mp h.values
    obtain ⟨hahead, hord⟩ := pairwise_cons.mp h.ordered
    have hlen := length_writeTtl hinside
    obtain ⟨hlen', hread, hrest⟩ :=
      @ih (writeTtl packet field) ⟨by rw [hlen]; exact hins, hvals, hord⟩
    refine ⟨hlen'.trans hlen, forall_mem_cons.mpr ⟨?_, hread⟩, ?_⟩
    · rw [← be32_writeTtl hinside hvalue]
      refine be32_congr fun i hlo hhi => hrest i fun field' hfield' hin => ?_
      have hafter := hahead field' hfield'
      omega
    · intro i hi
      obtain ⟨hout, houts⟩ := forall_mem_cons.mp hi
      exact (hrest i houts).trans (writeTtl_getElem? hinside hout)

/-! ## Where the records stand -/

theorem be32_lt {value : Nat} (h : be32 packet offset = some value) : value < 2 ^ 32 := by
  obtain ⟨hi, hhi, h⟩ := bind_eq_some_iff.mp h
  obtain ⟨lo, hlo, h⟩ := bind_eq_some_iff.mp h
  have hhi := be16_lt hhi
  have hlo := be16_lt hlo
  have heq : hi * 65536 + lo = value := some.inj h
  omega

theorem recordAt_spec (h : recordAt packet offset = some r) :
    ∃ w, NameAt packet offset w ∧ w.Legible ∧ r.start = w.next + 10 ∧ offset < w.next ∧
      be16 packet (w.next + 8) = some r.len ∧ r.ttl < 2 ^ 32 ∧
      r.start + r.len ≤ packet.length := by
  obtain ⟨⟨owner, next⟩, hname, h⟩ := bind_eq_some_iff.mp h
  obtain ⟨recordType, -, h⟩ := bind_eq_some_iff.mp h
  obtain ⟨class_, -, h⟩ := bind_eq_some_iff.mp h
  obtain ⟨ttl, httl, h⟩ := bind_eq_some_iff.mp h
  obtain ⟨len, hlen, h⟩ := bind_eq_some_iff.mp h
  rw [ite_none_left_eq_some] at h
  obtain ⟨hle, h⟩ := h
  obtain ⟨w, hat, hlegible, -, rfl⟩ := readName_iff.mp hname
  cases h
  exact ⟨w, hat, hlegible, rfl, nameAt_lt_next hat, hlen, be32_lt httl, by
    show w.next + 10 + len ≤ packet.length
    omega⟩

theorem readRecords_succ (h : readRecords packet (count + 1) offset = some records) :
    ∃ r rest, recordAt packet offset = some r ∧
      readRecords packet count (r.start + r.len) = some rest ∧ records = r :: rest := by
  obtain ⟨r, hr, h⟩ := bind_eq_some_iff.mp h
  obtain ⟨rest, hrest, h⟩ := bind_eq_some_iff.mp h
  exact ⟨r, rest, hr, hrest, (some.inj h).symm⟩

/-- Records stand one behind the other. -/
theorem readRecords_layout (h : readRecords packet count offset = some records) :
    (∀ r ∈ records, offset + 11 ≤ r.start ∧ r.start ≤ packet.length ∧ r.ttl < 2 ^ 32) ∧
      records.Pairwise fun r r' => r.start + 11 ≤ r'.start := by
  induction count generalizing offset records with
  | zero =>
    cases h
    exact ⟨nofun, .nil⟩
  | succ count ih =>
    obtain ⟨r, rest, hr, hrest, rfl⟩ := readRecords_succ h
    obtain ⟨w, -, -, hstart, hlt, -, httl, hle⟩ := recordAt_spec hr
    obtain ⟨-, hordered⟩ := ih hrest
    exact ⟨by grind, pairwise_cons.mpr ⟨by grind, hordered⟩⟩

/-- The lifetimes of records, with values no larger, do not overlap. -/
theorem apart_of_records (h : readRecords packet count offset = some records)
    {remaining : Nat → Nat} (hle : ∀ ttl, remaining ttl ≤ ttl) :
    Apart (((lasting records).map Record.ttlField).map fun field =>
      (field.1, remaining field.2)) packet.length := by
  obtain ⟨hbounds, hordered⟩ := readRecords_layout h
  have hmem : ∀ r ∈ lasting records, r ∈ records := fun r hr => (mem_filter.mp hr).1
  rw [List.map_map]
  refine ⟨?_, ?_, pairwise_map.mpr ?_⟩
  · grind [Record.ttlField]
  · grind [Record.ttlField]
  · refine (hordered.sublist filter_sublist).imp_of_mem fun {r r'} hr hr' hafter => ?_
    show r.start - 6 + 4 ≤ r'.start - 6
    omega

/-! ## Reading an aged packet -/

section

variable {response : Packet}

/-- A record stands where it stood unless its owner can no longer be read. -/
theorem recordAt_aged (h : recordAt response offset = some r)
    (hlen : packet.length = response.length)
    (hsame : ∀ i, offset ≤ i → i < r.start → ¬ (r.start - 6 ≤ i ∧ i < r.start - 2) →
      packet[i]? = response[i]?) :
    (readName packet offset = none ∧ recordAt packet offset = none) ∨
      ((readName packet offset).isSome = true ∧
        ∃ r', recordAt packet offset = some r' ∧ r'.start = r.start ∧ r'.len = r.len) := by
  obtain ⟨w, hat, -, hstart, hlt, hsize, -, hle⟩ := recordAt_spec h
  cases hname : readName packet offset with
  | none =>
    refine .inl ⟨rfl, ?_⟩
    rw [recordAt, hname]
    rfl
  | some found =>
    obtain ⟨owner, next⟩ := found
    obtain ⟨w', hat', -, -, hnext⟩ := readName_iff.mp hname
    have hsame' : w'.next = w.next :=
      nameAt_next_eq hat hat' fun i hlo hhi => hsame i hlo (by omega) (by omega)
    have hnext : next = w.next := hnext.trans hsame'
    subst hnext
    have hsize' : be16 packet (w.next + 8) = some r.len := by
      rw [← hsize]
      exact be16_congr fun i hlo hhi => hsame i (by omega) (by omega) (by omega)
    rcases recordAt_cases hname with ⟨hshort, -⟩ |
      ⟨recordType, class_, ttl, len, -, -, -, -, hlen', heq⟩
    · omega
    · cases hlen'.symm.trans hsize'
      rw [if_neg (by omega)] at heq
      exact .inr ⟨rfl, _, heq, hstart.symm, rfl⟩

/-- The records of an aged packet can be read if their owners can. -/
theorem readRecords_aged (h : readRecords response count offset = some records)
    (hlen : packet.length = response.length)
    (hsame : ∀ i, offset ≤ i → (∀ r ∈ records, ¬ (r.start - 6 ≤ i ∧ i < r.start - 2)) →
      packet[i]? = response[i]?) :
    (readRecords packet count offset).isSome = true ↔
      ∀ p ∈ recordOffsets offset records, (readName packet p).isSome = true := by
  induction count generalizing offset records with
  | zero =>
    cases h
    exact ⟨nofun, fun _ => rfl⟩
  | succ count ih =>
    obtain ⟨r, rest, hr, hrest, rfl⟩ := readRecords_succ h
    obtain ⟨w, -, -, hstart, hlt, -, -, -⟩ := recordAt_spec hr
    have hbounds := (readRecords_layout hrest).1
    -- what lies before the data of the first record is in no other's lifetime
    have hfirst : ∀ i, offset ≤ i → i < r.start → ¬ (r.start - 6 ≤ i ∧ i < r.start - 2) →
        packet[i]? = response[i]? := by
      intro i hlo hhi hout
      refine hsame i hlo (forall_mem_cons.mpr ⟨hout, fun r' hr' hin => ?_⟩)
      have hafter := (hbounds r' hr').1
      omega
    have hothers : ∀ i, r.start + r.len ≤ i →
        (∀ r' ∈ rest, ¬ (r'.start - 6 ≤ i ∧ i < r'.start - 2)) →
        packet[i]? = response[i]? := fun i hlo hout =>
      hsame i (by omega) (forall_mem_cons.mpr ⟨by omega, hout⟩)
    have hih := ih hrest hothers
    rw [recordOffsets, forall_mem_cons, readRecords]
    rcases recordAt_aged hr hlen hfirst with ⟨hnone, hrecord⟩ |
      ⟨hsome, r', hrecord, hstart', hlen'⟩
    · rw [hrecord, hnone]
      refine ⟨fun hcase => ?_, fun hcase => ?_⟩
      · cases hcase
      · cases hcase.1
    · rw [hrecord, bind_eq_bind, bind_some, hstart', hlen']
      refine ⟨fun hcase => ⟨hsome, hih.mp ?_⟩, fun hcase => ?_⟩
      · cases hread : readRecords packet count (r.start + r.len) with
        | none =>
          rw [hread] at hcase
          cases hcase
        | some => rfl
      · obtain ⟨records', hread⟩ := isSome_iff_exists.mp (hih.mpr hcase.2)
        rw [hread]
        rfl

variable {query' : Packet} {remaining : Nat → Nat}

/-- Lifetimes stand behind the question. -/
theorem unaged_of_le (h : AnswersQuery query response v) (hlo : 2 ≤ i) (hhi : i < v.next + 9) :
    Unaged v.records i := by
  refine ⟨hlo, fun r hr hin => ?_⟩
  have hbound := (readRecords_layout h.records).1 r (mem_filter.mp hr).1
  have hin : r.start - 6 ≤ i ∧ i < r.start - 6 + 4 := hin
  omega

theorem next_gt (h : AnswersQuery query response v) : dnsHeaderLen < v.next := by
  obtain ⟨w, hname, -, -, hnext⟩ := readName_iff.mp h.name
  have hlt := nameAt_lt_next hname
  show 12 < v.next
  rw [dnsHeaderLen] at hlt
  omega

theorem getElem?_of_drop_two (h : query'.drop 2 = query.drop 2) (hi : 2 ≤ i) :
    query'[i]? = query[i]? := by
  have hget := congrArg (fun l : Packet => l[i - 2]?) h
  simp only [getElem?_drop] at hget
  rwa [show 2 + (i - 2) = i by omega] at hget

/-- Queries with the same key ask for the same type and class. -/
theorem question_of_drop_two {parsed' : ParsedQuestion} (h : parseQuestion query = some parsed)
    (h' : parseQuestion query' = some parsed') (hdrop : query'.drop 2 = query.drop 2) :
    parsed'.question.recordType = parsed.question.recordType ∧
      parsed'.question.class_ = parsed.question.class_ := by
  obtain ⟨w, hq⟩ := questionAt_of_parse h
  obtain ⟨w', hq'⟩ := questionAt_of_parse h'
  have hstart := hq.starts
  rw [dnsHeaderLen] at hstart
  have hsame : ∀ i, dnsHeaderLen ≤ i → query'[i]? = query[i]? := fun i hlo =>
    getElem?_of_drop_two hdrop (by rw [dnsHeaderLen] at hlo; omega)
  have hnext : w'.next = w.next :=
    nameAt_next_eq hq.name hq'.name fun i hlo _ => hsame i hlo
  have htype := hq'.recordType
  have hclass := hq'.class_
  rw [hnext, be16_congr fun i hlo hhi => hsame i (by rw [dnsHeaderLen]; omega),
    hq.recordType] at htype
  rw [hnext, be16_congr fun i hlo hhi => hsame i (by rw [dnsHeaderLen]; omega),
    hq.class_] at hclass
  exact ⟨(some.inj htype).symm, (some.inj hclass).symm⟩

section

variable (hv : AnswersQuery query response v)
  (haged : Aged query' response v.records remaining packet)
include hv haged

theorem aged_be16 (hlo : 2 ≤ offset) (hhi : offset + 2 ≤ v.next + 9) :
    be16 packet offset = be16 response offset :=
  be16_congr fun i hi hi' => haged.rest i (unaged_of_le hv (by omega) (by omega))

/-- Wherever the question's name leads now, it ends where it did. -/
theorem aged_next {domain : Str} {next : Nat}
    (hname : readName packet dnsHeaderLen = some (domain, next)) : next = v.next := by
  obtain ⟨w, hat, -, -, hnext⟩ := readName_iff.mp hv.name
  obtain ⟨w', hat', -, -, rfl⟩ := readName_iff.mp hname
  rw [hnext]
  refine nameAt_next_eq hat hat' fun i hlo hhi => haged.rest i (unaged_of_le hv ?_ (by omega))
  rw [dnsHeaderLen] at hlo
  omega

theorem aged_records :
    (readRecords packet (v.answers + v.authority + v.additional) (v.next + 4)).isSome = true ↔
      ∀ p ∈ recordOffsets (v.next + 4) v.records, (readName packet p).isSome = true := by
  refine readRecords_aged hv.records haged.length fun i hlo hout => ?_
  refine haged.rest i ⟨by omega, fun r hr hin => hout r (mem_filter.mp hr).1 ?_⟩
  have hin : r.start - 6 ≤ i ∧ i < r.start - 6 + 4 := hin
  omega

/-- An aged packet is accepted for a query with the key of the one it was kept
for just when its names read as they must. -/
theorem accepted_iff_rereads (hdrop : query'.drop 2 = query.drop 2)
    (hparsed : parseQuestion query' = some parsed) :
    (responseMetadata query' packet).isSome = true ↔ Rereads query' packet v := by
  have hlt := next_gt hv
  rw [dnsHeaderLen] at hlt
  have hrecords := aged_records hv haged
  have hanswers := (aged_be16 hv haged (by omega) (by omega)).trans hv.answers
  have hauthority := (aged_be16 hv haged (by omega) (by omega)).trans hv.authority
  have hadditional := (aged_be16 hv haged (by omega) (by omega)).trans hv.additional
  refine ⟨fun hsome => ?_, fun hcase => ?_⟩
  · obtain ⟨metadata, hmetadata⟩ := isSome_iff_exists.mp hsome
    obtain ⟨v', hv', -⟩ := responseMetadata_iff.mp hmetadata
    have hnext := aged_next hv haged hv'.name
    have hcounts : v'.answers + v'.authority + v'.additional =
        v.answers + v.authority + v.additional := by
      have h₁ := some.inj (hv'.answers.symm.trans hanswers)
      have h₂ := some.inj (hv'.authority.symm.trans hauthority)
      have h₃ := some.inj (hv'.additional.symm.trans hadditional)
      omega
    refine ⟨⟨v'.parsed, hv'.question, ?_⟩, hrecords.mp ?_⟩
    · rw [hv'.name]
      rfl
    · have hread := hv'.records
      rw [hcounts, hnext] at hread
      rw [hread]
      rfl
  · obtain ⟨parsed', hparsed', hdomain⟩ := hcase.question
    cases hparsed.symm.trans hparsed'
    obtain ⟨⟨domain, next⟩, hname, hdomain⟩ := map_eq_some_iff.mp hdomain
    have hnext := aged_next hv haged hname
    subst hdomain hnext
    obtain ⟨records, hread⟩ := isSome_iff_exists.mp (hrecords.mpr hcase.owners)
    obtain ⟨htype, hclass⟩ := question_of_drop_two hv.question hparsed hdrop
    have hkind : be16 packet v.next = some parsed.question.recordType := by
      rw [htype]
      exact (aged_be16 hv haged (by omega) (by omega)).trans hv.recordType
    have hclass' : be16 packet (v.next + 2) = some parsed.question.class_ := by
      rw [hclass]
      exact (aged_be16 hv haged (by omega) (by omega)).trans hv.class_
    have hall : AnswersQuery query' packet
        ⟨parsed, v.flags, v.answers, v.authority, v.additional, v.next, records⟩ :=
      { question := hparsed
        header := by rw [haged.length]; exact hv.header
        id := haged.id
        flags := (aged_be16 hv haged (by omega) (by omega)).trans hv.flags
        isResponse := hv.isResponse
        opcode := hv.opcode
        oneQuestion := (aged_be16 hv haged (by omega) (by omega)).trans hv.oneQuestion
        answers := hanswers
        authority := hauthority
        additional := hadditional
        name := hname
        recordType := hkind
        class_ := hclass'
        records := hread }
    rw [responseMetadata_iff.mpr ⟨_, hall, rfl⟩]
    rfl

/-- Names that are read from nothing that ages read as they did. -/
theorem rereads_of_steady (hsteady : Steady query response v) (hdrop : query'.drop 2 = query.drop 2)
    (hparsed : parseQuestion query' = some parsed) : Rereads query' packet v := by
  refine ⟨⟨parsed, hparsed, ?_⟩, fun p hp => ?_⟩
  · obtain ⟨w, hat, hlegible, hdomain, -⟩ := readName_iff.mp hv.name
    have hat' : NameAt packet dnsHeaderLen w :=
      nameAt_frame hat fun i hi => haged.rest i (hsteady.question w hat i hi)
    obtain ⟨wq, hq⟩ := questionAt_of_parse hv.question
    obtain ⟨wq', hq'⟩ := questionAt_of_parse hparsed
    have hframe : NameAt query' dnsHeaderLen wq :=
      nameAt_frame hq.name fun i hi => getElem?_of_drop_two hdrop (hsteady.query wq hq.name i hi)
    obtain rfl := nameAt_unique hframe hq'.name
    rw [readName_iff.mpr ⟨w, hat', hlegible, rfl, rfl⟩, hq'.domain, ← hq.domain, hdomain]
    rfl
  · have hread : (readRecords response (v.answers + v.authority + v.additional)
        (v.next + 4)).isSome = true := by
      rw [hv.records]
      rfl
    have hread := (readRecords_aged hv.records rfl fun _ _ _ => rfl).mp hread p hp
    obtain ⟨⟨owner, next⟩, hname⟩ := isSome_iff_exists.mp hread
    obtain ⟨w, hat, hlegible, -, -⟩ := readName_iff.mp hname
    have hat' : NameAt packet p w :=
      nameAt_frame hat fun i hi => haged.rest i (hsteady.owners p hp w hat i hi)
    rw [readName_iff.mpr ⟨w, hat', hlegible, rfl, rfl⟩]
    rfl

end

end

/-! ## What a cache holds -/

/-- An entry is a response as it was kept. -/
structure EntryOf (k : Spec.Kept) (entry : ResponseEntry) (v : Reading) : Prop where
  key : queryKey k.query = some k.key.question
  answers : AnswersQuery k.query k.response v
  packet : entry.packet = zeroId k.response
  inserted : entry.inserted = k.keptAt
  expires : entry.expires = k.expires v
  staleUntil : entry.staleUntil = k.expires v + staleTtl
  ttlFields : entry.ttlFields = (lasting v.records).map Record.ttlField

/-- Everything a cache holds is what was last kept under its key. -/
def Dated (s : CacheRun) : Prop :=
  ∀ key entry, s.cache.state.responses.lookup key = some entry →
    ∃ k v, s.latest key = some k ∧ EntryOf k entry v

/-- A cache that holds no more than another. -/
theorem Dated.of_sub (h : Dated s)
    (hsub : ∀ {key entry}, cache.state.responses.lookup key = some entry →
      ∃ old, s.cache.state.responses.lookup key = some old ∧
        entry = { old with lastUsed := entry.lastUsed }) : Dated { s with cache := cache } := by
  intro key entry hentry
  obtain ⟨old, hold, heq⟩ := hsub hentry
  obtain ⟨k, v, hlatest, hof⟩ := h key old hold
  rw [heq]
  exact ⟨k, v, hlatest, ⟨hof.key, hof.answers, hof.packet, hof.inserted, hof.expires,
    hof.staleUntil, hof.ttlFields⟩⟩

theorem Dated.of_same (h : Dated s) (hsame : cache.state.responses = s.cache.state.responses) :
    Dated { s with cache := cache } := by
  refine h.of_sub fun {key entry} hentry => ?_
  rw [hsame] at hentry
  exact ⟨entry, hentry, rfl⟩

theorem observeResponse_responses (cache : DnsCache) (now : Nat) (packet : Packet) :
    (cache.observeResponse now packet).state.responses = cache.state.responses := by
  fun_cases observeResponse cache now packet with
  | case1 => rfl
  | case2 => exact (observeAnswers_frame _ _ _ _).1

theorem dated_lookup (h : Dated s) (now : Nat) (query : Packet) (allowStale : Bool)
    (scope : Option DnsResponseScope) : Dated (s.apply (.lookup now query allowStale scope)) := by
  refine h.of_sub fun {key entry} hentry => ?_
  revert hentry
  fun_cases cachedResponse s.cache now query allowStale scope with
  | case3 => grind [HashMap.lookup_erase]
  | case5 => grind [HashMap.lookup_insert]
  | _ => exact fun hentry => ⟨entry, hentry, rfl⟩

theorem dated_keep (h : Dated s) (observedAt now : Nat) (query response : Packet)
    (negativeCache : Bool) (scope : Option DnsResponseScope) :
    Dated (s.apply (.keep observedAt now query response negativeCache scope)) := by
  have hobserved : Dated { s with cache := s.cache.observeResponse observedAt response } :=
    h.of_same (observeResponse_responses _ _ _)
  rw [CacheRun.apply]
  fun_cases cacheResponse s.cache observedAt now query response negativeCache scope with
  | case1 question metadata hmeta hkey =>
    have hkept : Spec.Kept.of now query response negativeCache scope =
        some ⟨⟨question, scope⟩, query, response, now⟩ := by
      grind [Spec.Kept.of]
    rw [hkept]
    obtain ⟨v, hv, rfl⟩ := responseMetadata_iff.mp hmeta
    intro key entry hentry
    have hentry := HashMap.lookup_evict hentry
    rw [HashMap.lookup_insert] at hentry
    rw [CacheRun.latest, toList_some, singleton_append, find?_cons]
    split at hentry
    · next heq =>
      rw [heq, decide_eq_true rfl]
      refine ⟨_, v, rfl, ?_⟩
      rw [← some.inj hentry]
      exact ⟨hkey, hv, rfl, rfl, rfl, rfl, rfl⟩
    · next hne =>
      rw [decide_eq_false (Ne.symm hne)]
      exact hobserved key entry hentry
  | case2 =>
    have hkept : Spec.Kept.of now query response negativeCache scope = none := by
      grind [Spec.Kept.of]
    rw [hkept]
    exact hobserved
  | case3 =>
    have hkept : Spec.Kept.of now query response negativeCache scope = none := by
      cases hkey : queryKey query <;> cases hmeta : responseMetadata query response <;>
        grind [Spec.Kept.of]
    rw [hkept]
    exact h

theorem dated_of_reach (h : Reach CacheRun.Initial CacheRun.apply anyAction s) : Dated s := by
  refine h.invariant ?_ ?_
  · intro s hinit key entry hentry
    rw [hinit.1] at hentry
    cases hentry
  · intro s action hs _
    cases action with
    | observe => exact hs.of_same (observeResponse_responses _ _ _)
    | reverse now address =>
      refine hs.of_same ?_
      fun_cases reverseDomain s.cache now address <;> rfl
    | learn now query response identity =>
      refine hs.of_same ?_
      fun_cases learnRouteHints s.cache now query response identity <;> rfl
    | hints now identity address =>
      refine hs.of_same ?_
      fun_cases routeHints s.cache now identity address <;> rfl
    | lookup now query allowStale scope => exact dated_lookup hs now query allowStale scope
    | keep observedAt now query response negativeCache scope =>
      exact dated_keep hs observedAt now query response negativeCache scope
    | fork => exact hs.of_same rfl
    | flush =>
      intro key entry hentry
      cases hentry

/-! ## What it hands out -/

theorem minTtl_le (hr : r ∈ lasting v.records) : v.metadata.minTtl ≤ r.ttl := by
  have hleast : ∀ (records : List Record) (start : Nat),
      records.foldl (fun least r => min least r.ttl) start ≤ start ∧
        ∀ r ∈ records, records.foldl (fun least r => min least r.ttl) start ≤ r.ttl := by
    intro records
    induction records with
    | nil => exact fun start => ⟨le_rfl, nofun⟩
    | cons r records ih =>
      intro start
      obtain ⟨hstart, hrest⟩ := ih (min start r.ttl)
      rw [foldl_cons]
      exact ⟨by omega, forall_mem_cons.mpr ⟨by omega, hrest⟩⟩
  have hne : lasting v.records ≠ [] := ne_nil_of_mem hr
  show (if lasting v.records = [] then 0 else _) ≤ r.ttl
  rw [if_neg hne]
  exact (hleast _ _).2 r hr

/-- Until a response expires, no more has passed than any of its lifetimes. -/
theorem elapsed_le (h : now < k.expires v) (hr : r ∈ lasting v.records) :
    (now - k.keptAt) / secs 1 ≤ r.ttl := by
  have hle := minTtl_le hr
  have hexpires : k.expires v = k.keptAt + min v.metadata.minTtl maxTtl * 1000000000 := rfl
  show (now - k.keptAt) / 1000000000 ≤ r.ttl
  omega

/-- The counting of the code, which also stops at the largest lifetime there is,
comes to the same. -/
theorem remainingTtl_eq {entry : ResponseEntry} (h : EntryOf k entry v)
    (hr : r ∈ lasting v.records) : remainingTtl entry now r.ttl = k.remaining v now r.ttl := by
  rw [remainingTtl, Spec.Kept.remaining, h.expires, h.inserted]
  split
  · rfl
  · next hfresh =>
    have hle := elapsed_le (lt_of_not_ge hfresh) hr
    have hsmall := ((readRecords_layout h.answers.records).1 r (mem_filter.mp hr).1).2.2
    rw [Nat.min_eq_left (by omega)]

theorem remaining_le (k : Spec.Kept) (v : Reading) (now ttl : Nat) :
    k.remaining v now ttl ≤ ttl := by
  rw [Spec.Kept.remaining]
  split
  · exact Nat.zero_le _
  · exact Nat.sub_le _ _

/-- What is rendered of an entry is the response kept, aged. -/
theorem aged_render {entry : ResponseEntry} (h : EntryOf k entry v) (now : Nat)
    (hquery : 2 ≤ query.length) :
    Aged query k.response v.records (k.remaining v now)
      (renderResponse entry now query) := by
  have hheader := h.answers.header
  rw [dnsHeaderLen] at hheader
  have hfields : (entry.ttlFields.map fun field =>
      (field.1, remainingTtl entry now field.2)) =
      ((lasting v.records).map Record.ttlField).map fun field =>
        (field.1, k.remaining v now field.2) := by
    rw [h.ttlFields, List.map_map, List.map_map]
    refine map_congr_left fun r hr => ?_
    show (r.ttlField.1, remainingTtl entry now r.ttl) = _
    rw [remainingTtl_eq h hr]
    rfl
  obtain ⟨base, hbase⟩ : ∃ base, base = query.take 2 ++ entry.packet.drop 2 := ⟨_, rfl⟩
  have hfront : (query.take 2).length = 2 := by
    rw [length_take]
    omega
  have hdrop : entry.packet.drop 2 = k.response.drop 2 := by
    rw [h.packet]
    rfl
  have hlen : base.length = k.response.length := by
    rw [hbase, length_append, hdrop, length_drop]
    omega
  have hapart := apart_of_records h.answers.records (remaining_le k v now)
  rw [← hlen] at hapart
  obtain ⟨hlen', hread, hrest⟩ := writeTtls_spec hapart
  rw [renderResponse, hfields, ← hbase]
  have hfield : ∀ r ∈ lasting v.records, (r.ttlField.1, k.remaining v now r.ttl) ∈
      ((lasting v.records).map Record.ttlField).map fun field =>
        (field.1, k.remaining v now field.2) := fun r hr =>
    mem_map.mpr ⟨_, mem_map.mpr ⟨r, hr, rfl⟩, rfl⟩
  refine ⟨hlen'.trans hlen, ?_, fun r hr => ?_, fun r hr => hread _ (hfield r hr), ?_⟩
  · refine ext_getElem? fun i => ?_
    rw [getElem?_take, getElem?_take]
    split
    · next hi =>
      rw [hrest i, hbase, getElem?_append_left (by omega), getElem?_take, if_pos hi]
      intro field hmem hin
      rw [List.map_map] at hmem
      obtain ⟨r, hr, rfl⟩ := mem_map.mp hmem
      have hbound := (readRecords_layout h.answers.records).1 r (mem_filter.mp hr).1
      have hin : r.start - 6 ≤ i ∧ i < r.start - 6 + 4 := hin
      omega
    · rfl
  · rw [← hlen]
    exact hapart.inside (r.ttlField.1, k.remaining v now r.ttl) (hfield r hr)
  · intro i hi
    rw [hrest i, hbase, getElem?_append_right (by have := hi.1; omega), hdrop, getElem?_drop]
    · have hlo := hi.1
      congr 1
      omega
    · intro field hmem hin
      rw [List.map_map] at hmem
      obtain ⟨r, hr, rfl⟩ := mem_map.mp hmem
      exact hi.2 r hr hin

theorem cachedResponse_some {allowStale : Bool} {scope : Option DnsResponseScope}
    (h : (cache.cachedResponse now query allowStale scope).1 = some packet) :
    ∃ question entry, queryKey query = some question ∧
      cache.state.responses.lookup ⟨question, scope⟩ = some entry ∧
      now < entry.staleUntil ∧ (allowStale = false → now < entry.expires) ∧
      packet = renderResponse entry now query := by
  revert h
  fun_cases cachedResponse cache now query allowStale scope with
  | case5 question hkey _ _ _ entry hlook hstale hfresh =>
    intro h
    refine ⟨question, entry, hkey, hlook, lt_of_not_ge hstale, fun hstrict => ?_,
      (some.inj h).symm⟩
    exact lt_of_not_ge fun hle => hfresh ⟨hle, hstrict⟩
  | _ =>
    intro h
    cases h

theorem queryKey_spec {question : Packet} (h : queryKey query = some question) :
    ∃ parsed, parseQuestion query = some parsed ∧ question = zeroId query := by
  obtain ⟨parsed, hparsed, h⟩ := bind_eq_some_iff.mp h
  exact ⟨parsed, hparsed, (some.inj h).symm⟩

/-- A response handed out is the one last kept under its key, in time and aged.
It is accepted again just when its names still read as they must, and they do
if they are read from nothing that ages. -/
theorem cached_response_ages {s : CacheRun} (h : Reach CacheRun.Initial CacheRun.apply anyAction s)
    {now : Nat} {query packet : Packet} {allowStale : Bool} {scope : Option DnsResponseScope}
    (hfound : (s.cache.cachedResponse now query allowStale scope).1 = some packet) :
    ∃ k v, s.latest ⟨zeroId query, scope⟩ = some k ∧ query.drop 2 = k.query.drop 2 ∧
      AnswersQuery k.query k.response v ∧
      now < k.expires v + (if allowStale then staleTtl else 0) ∧
      (now < k.expires v → ∀ r ∈ lasting v.records, (now - k.keptAt) / secs 1 ≤ r.ttl) ∧
      Aged query k.response v.records (k.remaining v now) packet ∧
      ((responseMetadata query packet).isSome = true ↔ Rereads query packet v) ∧
      (Steady k.query k.response v → Rereads query packet v) := by
  obtain ⟨question, entry, hkey, hlook, hstale, hfresh, rfl⟩ := cachedResponse_some hfound
  obtain ⟨k, v, hlatest, hof⟩ := dated_of_reach h _ _ hlook
  obtain ⟨parsed, hparsed, rfl⟩ := queryKey_spec hkey
  have hsame : k.key = ⟨zeroId query, scope⟩ := by
    have hmatch := find?_some hlatest
    exact of_decide_eq_true hmatch
  have hdrop : query.drop 2 = k.query.drop 2 := by
    obtain ⟨-, -, hquestion⟩ := queryKey_spec hof.key
    rw [hsame] at hquestion
    have hzeroed : (zeroId query).drop 2 = (zeroId k.query).drop 2 :=
      congrArg (List.drop 2) hquestion
    exact hzeroed
  have hlen := (parseQuestion_iff.mp hparsed).1
  rw [dnsHeaderLen] at hlen
  have haged := aged_render hof now (show 2 ≤ query.length by omega)
  refine ⟨k, v, hlatest, hdrop, hof.answers, ?_, fun htime r hr => elapsed_le htime hr, haged,
    accepted_iff_rereads hof.answers haged hdrop hparsed,
    fun hsteady => rereads_of_steady hof.answers haged hsteady hdrop hparsed⟩
  rw [hof.staleUntil] at hstale
  rw [hof.expires] at hfresh
  split
  · exact hstale
  · next hstrict =>
    rw [add_zero]
    exact hfresh (Bool.eq_false_iff.mpr hstrict)

/-! ## A name in plain view, and one in a lifetime -/

def emptyRun : CacheRun := { cache := DnsCache.new 4 }

/-- A query for `a` under another identifier. -/
def letterQueryAgain : Packet := [7, 9] ++ (letterQuery 97).drop 2

/-- An answer kept for a minute is handed out after five seconds. -/
theorem letter_answer_ages :
    let s := emptyRun.apply (.keep 0 0 (letterQuery 97) (letterAnswer 97 1 60) false none)
    let packet := [7, 9] ++ (letterAnswer 97 1 55).drop 2
    (s.cache.cachedResponse (secs 5) letterQueryAgain false none).1 = some packet ∧
      (responseMetadata letterQueryAgain packet).isSome = true := by
  intro s packet
  have hreach : Reach CacheRun.Initial CacheRun.apply anyAction s :=
    .step (.start ⟨rfl, rfl⟩) trivial
  have hfound : (s.cache.cachedResponse (secs 5) letterQueryAgain false none).1 = some packet := by
    decide +kernel
  obtain ⟨k, v, hlatest, -, hv, -, -, -, haccepted, -⟩ := cached_response_ages hreach hfound
  have hkept : s.latest ⟨zeroId letterQueryAgain, none⟩ =
      some ⟨⟨zeroId (letterQuery 97), none⟩, letterQuery 97, letterAnswer 97 1 60, 0⟩ := by
    decide +kernel
  cases hkept.symm.trans hlatest
  have hnext : v.next = 15 := by
    have hread : readName (letterAnswer 97 1 60) dnsHeaderLen = some ([97], 15) := by
      decide +kernel
    exact congrArg Prod.snd (some.inj (hv.name.symm.trans hread))
  have hcount : v.answers + v.authority + v.additional = 1 := by
    have h₁ : v.answers = 1 := some.inj (hv.answers.symm.trans rfl)
    have h₂ : v.authority = 0 := some.inj (hv.authority.symm.trans rfl)
    have h₃ : v.additional = 0 := some.inj (hv.additional.symm.trans rfl)
    omega
  have hrecords : v.records = [⟨[97], recordA, classIn, 60, 31, 4⟩] := by
    have hread : readRecords (letterAnswer 97 1 60) 1 19 =
        some [⟨[97], recordA, classIn, 60, 31, 4⟩] := by
      decide +kernel
    have hown := hv.records
    rw [hcount, hnext] at hown
    exact some.inj (hown.symm.trans hread)
  have hquestion : parseQuestion letterQueryAgain = some ⟨⟨[97], recordA, classIn⟩, 19⟩ := by
    decide +kernel
  refine ⟨hfound, haccepted.mpr ⟨⟨_, hquestion, by decide +kernel⟩, fun p hp => ?_⟩⟩
  rw [hnext, hrecords] at hp
  obtain rfl := mem_singleton.mp hp
  decide +kernel

/-- An answer to a query for `a` whose question is a pointer to the lifetime of
its record, which begins as the name `a` does. -/
def lifetimeNamed : Packet :=
  [0, 1, 0x81, 0x80, 0, 1, 0, 1, 0, 0, 0, 0, 0xc0, 0x17, 0, 1, 0, 1,
    0, 0, 1, 0, 1, 1, 97, 0, 0, 0, 4, 10, 0, 0, 1]

/-- It is accepted and kept; a second later the name has changed with the
lifetime. -/
theorem lifetime_name_changes :
    let kept := emptyRun.cache.cacheResponse 0 0 (letterQuery 97) lifetimeNamed false none
    kept.1 = true ∧
      ∃ packet, (kept.2.cachedResponse (secs 1) (letterQuery 97) false none).1 = some packet ∧
        responseMetadata (letterQuery 97) packet = none := by
  intro kept
  have hfound : (kept.2.cachedResponse (secs 1) (letterQuery 97) false none).1 =
      some [0, 1, 0x81, 0x80, 0, 1, 0, 1, 0, 0, 0, 0, 0xc0, 0x17, 0, 1, 0, 1,
        0, 0, 1, 0, 1, 1, 96, 0xff, 0xff, 0, 4, 10, 0, 0, 1] := by
    decide +kernel
  exact ⟨by decide +kernel, _, hfound, by decide +kernel⟩

end Foxcore.Proofs
