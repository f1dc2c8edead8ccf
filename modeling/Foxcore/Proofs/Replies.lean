import Foxcore.Proofs.FakeRun
import Foxcore.Proofs.Records

/-!
# Replies the resolver makes itself

A reply repeats the query's identifier and the bytes of its question, under a
header of its own and with at most one record behind. Whether that is the same
question depends on what the question's name is read from. The bytes of the
question are there; those of the header are others, and those behind the
question are gone.

So a reply is accepted exactly when its name still reads as the query's
(`accepted_iff`), and that is so whenever the name keeps to its question.
-/

namespace Foxcore.Proofs

open Lib Ref Spec List Option

variable {packet r query : Packet} {offset : Nat} {parsed : ParsedQuestion} {w : WireName}
  {expected : Option AddressAnswer}

/-! ## Fields written and read -/

theorem be16_of_getElem? {hi lo : UInt8} (hhi : packet[offset]? = some hi)
    (hlo : packet[offset + 1]? = some lo) :
    be16 packet offset = some (hi.toNat * 256 + lo.toNat) := by
  rw [be16, hhi, hlo]
  rfl

theorem toBe16_toNat {n : Nat} (h : n < 65536) :
    (UInt8.ofNat (n / 256)).toNat * 256 + (UInt8.ofNat (n % 256)).toNat = n := by
  rw [UInt8.toNat_ofNat', UInt8.toNat_ofNat']
  omega

theorem be16_congr {packet' : Packet}
    (h : ∀ i, offset ≤ i → i < offset + 2 → packet'[i]? = packet[i]?) :
    be16 packet' offset = be16 packet offset := by
  rw [be16, be16, h offset (by omega) (by omega), h (offset + 1) (by omega) (by omega)]

theorem be32_congr {packet' : Packet}
    (h : ∀ i, offset ≤ i → i < offset + 4 → packet'[i]? = packet[i]?) :
    be32 packet' offset = be32 packet offset := by
  rw [be32, be32, be16_congr fun i hlo hhi => h i (by omega) (by omega),
    be16_congr fun i hlo hhi => h i (by omega) (by omega)]

/-- What is appended to a packet is read at its old end. -/
theorem be16_append {front back : Packet} {offset : Nat} :
    be16 (front ++ back) (front.length + offset) = be16 back offset := by
  rw [be16, be16, getElem?_append_right (by omega), getElem?_append_right (by omega),
    Nat.add_sub_cancel_left, add_assoc, Nat.add_sub_cancel_left]

theorem be32_append {front back : Packet} {offset : Nat} :
    be32 (front ++ back) (front.length + offset) = be32 back offset := by
  rw [be32, be32, be16_append, add_assoc, be16_append]

theorem be16_toBe16 {n : Nat} (h : n < 65536) (rest : Packet) :
    be16 (toBe16 n ++ rest) 0 = some n := by
  rw [be16_of_getElem? rfl rfl, toBe16_toNat h]

theorem be32_toBe32 {n : Nat} (h : n < 2 ^ 32) (rest : Packet) :
    be32 (toBe32 n ++ rest) 0 = some n := by
  have hhi : be16 (toBe32 n ++ rest) 0 = some (n / 65536) := by
    rw [toBe32, append_assoc, be16_toBe16 (by omega)]
  have hlo : be16 (toBe32 n ++ rest) (0 + 2) = some (n % 65536) := by
    have hfront : (toBe16 (n / 65536)).length = 2 := rfl
    rw [toBe32, append_assoc, zero_add, ← hfront, ← add_zero (toBe16 _).length,
      be16_append, be16_toBe16 (by omega)]
  rw [be32, hhi, hlo]
  show some (n / 65536 * 65536 + n % 65536) = some n
  congr 1
  omega

/-! ## The shape of a reply -/

/-- A reply to a query: its identifier and question under a header, and what
follows. -/
def replyTo (query : Packet) (questionEnd flags count : Nat) (tail : List UInt8) : Packet :=
  query.take 2 ++ toBe16 flags ++ toBe16 1 ++ toBe16 count ++ toBe16 0 ++ toBe16 0 ++
    (query.take questionEnd).drop dnsHeaderLen ++ tail

section

/-- The question of a query, as far as replies depend on it. -/
structure QuestionAt (query : Packet) (parsed : ParsedQuestion) (w : WireName) : Prop where
  parses : parseQuestion query = some parsed
  name : NameAt query dnsHeaderLen w
  legible : w.Legible
  domain : parsed.question.domain = w.text
  recordType : be16 query w.next = some parsed.question.recordType
  class_ : be16 query (w.next + 2) = some parsed.question.class_
  ends : parsed.questionEnd = w.next + 4
  starts : dnsHeaderLen < w.next
  le : parsed.questionEnd ≤ query.length

theorem questionAt_of_parse (h : parseQuestion query = some parsed) :
    ∃ w, QuestionAt query parsed w := by
  obtain ⟨-, -, -, w, hname, hlegible, hdomain, htype, hclass, hend⟩ := parseQuestion_iff.mp h
  have hle := le_of_be16 hclass
  exact ⟨w, h, hname, hlegible, hdomain, htype, hclass, hend, nameAt_lt_next hname, by omega⟩

structure ReplyOf (query : Packet) (parsed : ParsedQuestion) (w : WireName) (flags count : Nat)
    (tail : List UInt8) (r : Packet) : Prop extends QuestionAt query parsed w where
  eq : r = replyTo query parsed.questionEnd flags count tail

namespace ReplyOf

variable {flags count : Nat} {tail : List UInt8}
  (hr : ReplyOf query parsed w flags count tail r)
include hr

/-- The header of a reply written out. -/
theorem bytes :
    ∃ a b, query.take 2 = [a, b] ∧
      r = [a, b, UInt8.ofNat (flags / 256), UInt8.ofNat (flags % 256), 0, 1,
          UInt8.ofNat (count / 256), UInt8.ofNat (count % 256), 0, 0, 0, 0] ++
        ((query.take parsed.questionEnd).drop dnsHeaderLen ++ tail) := by
  have hlen := (parseQuestion_iff.mp hr.parses).1
  match query, hlen, hr.eq with
  | a :: b :: rest, _, heq => exact ⟨a, b, rfl, by simp [heq, replyTo, toBe16]⟩

theorem length_question :
    ((query.take parsed.questionEnd).drop dnsHeaderLen).length =
      parsed.questionEnd - dnsHeaderLen := by
  have hle := hr.le
  rw [length_drop, length_take, Nat.min_eq_left hle]

theorem question {i : Nat} (hlo : dnsHeaderLen ≤ i) (hhi : i < parsed.questionEnd) :
    r[i]? = query[i]? := by
  obtain ⟨a, b, -, heq⟩ := hr.bytes
  have hsize := hr.length_question
  rw [dnsHeaderLen] at hlo hsize
  rw [heq, getElem?_append_right (by exact hlo), getElem?_append_left
    (by rw [dnsHeaderLen]; show i - 12 < _; omega), getElem?_drop,
    getElem?_take, if_pos]
  · congr 1
    show 12 + (i - 12) = i
    omega
  · show 12 + (i - 12) < _
    omega

/-- A reply up to where its records would begin. -/
theorem front : ∃ front, front.length = parsed.questionEnd ∧ r = front ++ tail := by
  obtain ⟨a, b, -, heq⟩ := hr.bytes
  rw [← append_assoc] at heq
  refine ⟨_, ?_, heq⟩
  have hsize := hr.length_question
  have hstart := hr.starts
  have hend := hr.ends
  rw [dnsHeaderLen] at hsize hstart
  rw [length_append, dnsHeaderLen, hsize]
  show 12 + (parsed.questionEnd - 12) = parsed.questionEnd
  omega

theorem header (hflags : flags < 65536) (hcount : count < 65536) :
    dnsHeaderLen ≤ r.length ∧ r.take 2 = query.take 2 ∧ be16 r 2 = some flags ∧
      be16 r 4 = some 1 ∧ be16 r 6 = some count ∧ be16 r 8 = some 0 ∧ be16 r 10 = some 0 := by
  obtain ⟨a, b, htake, rfl⟩ := hr.bytes
  refine ⟨by simp [dnsHeaderLen], htake.symm, ?_, rfl, ?_, rfl, rfl⟩
  · rw [be16_of_getElem? rfl rfl, toBe16_toNat hflags]
  · rw [be16_of_getElem? rfl rfl, toBe16_toNat hcount]

/-- Wherever the name of a reply leads, it ends where the query's does. -/
theorem next {domain : Str} {next : Nat} (hname : readName r dnsHeaderLen = some (domain, next)) :
    next = w.next := by
  obtain ⟨w', hname', -, -, rfl⟩ := readName_iff.mp hname
  have hend := hr.ends
  exact nameAt_next_eq hr.name hname' fun i hlo hhi => hr.question hlo (by omega)

theorem fields :
    be16 r w.next = some parsed.question.recordType ∧
      be16 r (w.next + 2) = some parsed.question.class_ := by
  have hend := hr.ends
  have hstart := hr.starts
  rw [← hr.recordType, ← hr.class_]
  exact ⟨be16_congr fun i hlo hhi => hr.question (by omega) (by omega),
    be16_congr fun i hlo hhi => hr.question (by omega) (by omega)⟩

/-- A reply is accepted when its name reads as the query's and its records can
be read, and not otherwise. -/
theorem accepted_iff (hflags : flags < 65536) (hcount : count < 65536)
    (hresponse : flags &&& 0x8000 ≠ 0) (hopcode : flags &&& 0x7800 = 0) :
    (responseMetadata query r).isSome = true ↔
      (readName r dnsHeaderLen).map Prod.fst = some parsed.question.domain ∧
        (readRecords r count parsed.questionEnd).isSome = true := by
  obtain ⟨hlen, hid, hflags', hone, hanswers, hauthority, hadditional⟩ := hr.header hflags hcount
  obtain ⟨htype, hclass⟩ := hr.fields
  have hend := hr.ends
  constructor
  · intro hsome
    obtain ⟨metadata, hmetadata⟩ := isSome_iff_exists.mp hsome
    obtain ⟨v, hv, -⟩ := responseMetadata_iff.mp hmetadata
    have hparsed : v.parsed = parsed := some.inj (hv.question.symm.trans hr.parses)
    have hnext := hr.next hv.name
    have hcounts : v.answers + v.authority + v.additional = count := by
      have h₁ := some.inj (hv.answers.symm.trans hanswers)
      have h₂ := some.inj (hv.authority.symm.trans hauthority)
      have h₃ := some.inj (hv.additional.symm.trans hadditional)
      omega
    refine ⟨by rw [hv.name, hparsed]; rfl, ?_⟩
    have hrecords := hv.records
    rw [hcounts, hnext, ← hend] at hrecords
    rw [hrecords]
    rfl
  · rintro ⟨hname, hrecords⟩
    obtain ⟨⟨domain, next⟩, hname, rfl⟩ := map_eq_some_iff.mp hname
    obtain ⟨records, hrecords⟩ := isSome_iff_exists.mp hrecords
    obtain rfl := hr.next hname
    refine isSome_iff_exists.mpr ⟨_, responseMetadata_iff.mpr
      ⟨⟨parsed, flags, count, 0, 0, w.next, records⟩, ?_, rfl⟩⟩
    refine ⟨hr.parses, hlen, hid, hflags', hresponse, hopcode, hone, hanswers, hauthority,
      hadditional, hname, htype, hclass, ?_⟩
    rw [← hend]
    exact hrecords

/-- The records of a reply, if they can be read at all. -/
theorem answerSection_eq (hflags : flags < 65536) (hcount : count < 65536) {records : List Record}
    (h : answerSection r = some records) :
    readRecords r count parsed.questionEnd = some records := by
  obtain ⟨⟨domain, next⟩, hname, h⟩ := bind_eq_some_iff.mp h
  obtain ⟨count', hcount', h⟩ := bind_eq_some_iff.mp h
  obtain rfl := hr.next hname
  have hanswers := (hr.header hflags hcount).2.2.2.2.1
  cases hcount'.symm.trans hanswers
  rw [hr.ends]
  exact h

end ReplyOf

/-- The name of a query keeps to its question. -/
def SelfContained (parsed : ParsedQuestion) (w : WireName) : Prop :=
  ∀ i ∈ w.bytes, dnsHeaderLen ≤ i ∧ i < parsed.questionEnd

end

/-! ## The replies there are -/

/-- The flags of a reply: a response with recursion available, two bits of the
request's, and a code or the truncation bit. -/
def replyFlags (requestFlags extra : Nat) : Nat :=
  0x8000 ||| 0x0080 ||| (requestFlags &&& 0x0110) ||| extra

/-- The codes in use, and the truncation bit. -/
def replyExtras : List Nat := [0, 2, 3, 0x0200]

theorem replyFlags_and (requestFlags extra mask : Nat) :
    replyFlags requestFlags extra &&& mask =
      (0x8080 &&& mask) ||| (requestFlags &&& (0x0110 &&& mask)) ||| (extra &&& mask) := by
  rw [replyFlags, Nat.and_or_distrib_right, Nat.and_or_distrib_right, Nat.and_assoc]
  rfl

theorem replyFlags_lt (requestFlags : Nat) {extra : Nat} (h : extra ∈ replyExtras) :
    replyFlags requestFlags extra < 65536 := by
  have hextra : extra < 2 ^ 16 := by
    revert extra
    decide
  refine Nat.or_lt_two_pow (n := 16) (Nat.or_lt_two_pow (by decide) ?_) hextra
  exact lt_of_le_of_lt Nat.and_le_right (by decide)

theorem replyFlags_opcode (requestFlags : Nat) {extra : Nat} (h : extra ∈ replyExtras) :
    replyFlags requestFlags extra &&& 0x7800 = 0 := by
  have hextra : extra &&& 0x7800 = 0 := by
    revert extra
    decide
  rw [replyFlags_and, hextra]
  simp

theorem replyFlags_response (requestFlags extra : Nat) :
    replyFlags requestFlags extra &&& 0x8000 ≠ 0 := by
  rw [replyFlags_and]
  intro hzero
  have hbit := congrArg (Nat.testBit · 15) hzero
  simp only [Nat.testBit_or, Nat.zero_testBit, Bool.or_eq_false_iff] at hbit
  exact absurd hbit.1.1 (by decide)

theorem emptyResponse_eq {rcode : Nat} (h : emptyResponse query rcode = some r) :
    ∃ parsed requestFlags, parseQuestion query = some parsed ∧
      be16 query 2 = some requestFlags ∧
      r = replyTo query parsed.questionEnd (replyFlags requestFlags rcode) 0 [] := by
  obtain ⟨parsed, hparsed, h⟩ := bind_eq_some_iff.mp h
  obtain ⟨requestFlags, hflags, h⟩ := bind_eq_some_iff.mp h
  refine ⟨parsed, requestFlags, hparsed, hflags, ?_⟩
  rw [← some.inj h, replyTo, append_nil]
  rfl

/-- Setting the truncation bit in the header. -/
theorem modify_replyTo (hq : QuestionAt query parsed w) (requestFlags count : Nat)
    (tail : List UInt8) :
    (replyTo query parsed.questionEnd (replyFlags requestFlags 0) count tail).modify 2
        (· ||| 0x02) =
      replyTo query parsed.questionEnd (replyFlags requestFlags 0x0200) count tail := by
  obtain ⟨a, b, htake, heq⟩ := ReplyOf.bytes ⟨hq, (rfl : _ = replyTo query parsed.questionEnd
    (replyFlags requestFlags 0) count tail)⟩
  obtain ⟨a', b', htake', heq'⟩ := ReplyOf.bytes ⟨hq, (rfl : _ = replyTo query parsed.questionEnd
    (replyFlags requestFlags 0x0200) count tail)⟩
  cases htake.symm.trans htake'
  have hor : replyFlags requestFlags 0x0200 = replyFlags requestFlags 0 ||| 0x0200 := by
    rw [replyFlags, replyFlags, Nat.or_zero]
  have hhi : UInt8.ofNat (replyFlags requestFlags 0x0200 / 256) =
      UInt8.ofNat (replyFlags requestFlags 0 / 256) ||| 0x02 := by
    have hshift : ∀ n, n / 256 = n >>> 8 := fun n => (Nat.shiftRight_eq_div_pow n 8).symm
    rw [hor, hshift, hshift, Nat.shiftRight_or_distrib, UInt8.ofNat_or]
    rfl
  have hlo : replyFlags requestFlags 0x0200 % 256 = replyFlags requestFlags 0 % 256 := by
    rw [hor, Nat.or_mod_two_pow (n := 8)]
    simp
  rw [heq, heq', hhi, hlo]
  rfl

/-- The record behind the question of an answer with an address. -/
def addressRecord (recordType ttl : Nat) (address : IpAddr) : List UInt8 :=
  [0xc0, 0x0c] ++ (toBe16 recordType ++ (toBe16 classIn ++ (toBe32 (min ttl maxTtl) ++
    addressData address)))

theorem fakeAnswer_eq {requestFlags : Nat} (hflags : be16 query 2 = some requestFlags) (ttl : Nat)
    (address : IpAddr) :
    fakeAnswer query parsed ttl address =
      replyTo query parsed.questionEnd (replyFlags requestFlags 0) 1
        (addressRecord parsed.question.recordType ttl address) := by
  rw [fakeAnswer, hflags, replyTo, replyFlags, addressRecord, Nat.or_zero]
  simp

/-- What `fake_response` answers: nothing to a query for a service binding, and
an address to one for an address. -/
theorem fakeResponse_cases {π₄ π₆ : Type} [Ipv4Net π₄] [Ipv6Net π₆] {capacity now : Nat}
    {pool4 : π₄} {pool6 : π₆} {ttl : Nat} {state : FakeState}
    (h : (fakeResponse capacity now query pool4 pool6 ttl state).1 = .ok (some r)) :
    (addressQuestion query = none ∧ emptyResponse query 0 = some r) ∨
      ∃ parsed address, addressQuestion query = some parsed ∧
        (state.fakeAddress capacity now parsed.question.domain parsed.question.recordType pool4
          pool6 (min ttl maxTtl)).1 = .ok (some address) ∧
        r = fakeAnswer query parsed ttl address := by
  revert h
  fun_cases fakeResponse capacity now query pool4 pool6 ttl state with
  | case1 parsed hasked found =>
    intro h
    cases hfound : found.1 with
    | error =>
      rw [hfound] at h
      cases h
    | ok =>
      rw [hfound] at h
      obtain ⟨address, rfl, hr⟩ := map_eq_some_iff.mp (Except.ok.inj h)
      exact .inr ⟨parsed, address, hasked, hfound, hr.symm⟩
  | case2 hasked => exact fun h => .inl ⟨hasked, Except.ok.inj h⟩
  | _ => exact nofun

/-! ## The record of an answer -/

/-- The bytes of an address. -/
def octets : IpAddr → List UInt8
  | .v4 a => toBe32 a.toNat
  | .v6 a =>
    toBe32 (a.toNat / 2 ^ 96) ++ toBe32 (a.toNat / 2 ^ 64 % 2 ^ 32) ++
      toBe32 (a.toNat / 2 ^ 32 % 2 ^ 32) ++ toBe32 (a.toNat % 2 ^ 32)

theorem addressData_eq (address : IpAddr) :
    addressData address = toBe16 (octets address).length ++ octets address := by
  cases address with
  | v4 => rfl
  | v6 => simp [addressData, octets, toBe32, toBe16]

theorem beNat_append (xs ys : List UInt8) :
    beNat (xs ++ ys) = beNat xs * 256 ^ ys.length + beNat ys := by
  have hfold : ∀ start, ys.foldl (fun n b => n * 256 + b.toNat) start =
      start * 256 ^ ys.length + ys.foldl (fun n b => n * 256 + b.toNat) 0 := by
    induction ys with
    | nil => simp
    | cons b ys ih =>
      intro start
      rw [foldl_cons, foldl_cons, ih, ih (0 * 256 + b.toNat), length_cons]
      ring
  rw [beNat, beNat, beNat, foldl_append, hfold]

theorem beNat_toBe32 {n : Nat} (h : n < 2 ^ 32) : beNat (toBe32 n) = n := by
  simp only [toBe32, toBe16, beNat, cons_append, nil_append, foldl_cons,
    foldl_nil, UInt8.toNat_ofNat']
  omega

/-- The bytes of an address under its own type are that address. -/
theorem recordAddress_octets (address : IpAddr) :
    recordAddress address.recordType (octets address) = some address := by
  cases address with
  | v4 a =>
    have ha := a.isLt
    rw [recordAddress, if_pos ⟨rfl, rfl⟩, octets, beNat_toBe32 ha]
    simp
  | v6 a =>
    have hvalue : beNat (octets (.v6 a)) = a.toNat := by
      rw [octets, beNat_append, beNat_append, beNat_append, beNat_toBe32 (by omega),
        beNat_toBe32 (by omega), beNat_toBe32 (by omega), beNat_toBe32 (by omega)]
      show ((a.toNat / 2 ^ 96 * 256 ^ 4 + a.toNat / 2 ^ 64 % 2 ^ 32) * 256 ^ 4 +
        a.toNat / 2 ^ 32 % 2 ^ 32) * 256 ^ 4 + a.toNat % 2 ^ 32 = a.toNat
      omega
    have hsize : (octets (.v6 a)).length = 16 := rfl
    have hother : recordAaaa ≠ recordA := by decide
    rw [recordAddress, if_neg (fun h => hother h.1), if_pos ⟨rfl, hsize⟩, hvalue]
    simp

theorem be16_lt {value : Nat} (h : be16 packet offset = some value) : value < 65536 := by
  obtain ⟨hi, -, h⟩ := bind_eq_some_iff.mp h
  obtain ⟨lo, -, h⟩ := bind_eq_some_iff.mp h
  have hhi := hi.toNat_lt
  have hlo := lo.toNat_lt
  have heq : hi.toNat * 256 + lo.toNat = value := some.inj h
  omega

namespace ReplyOf

variable {flags ttl : Nat}
  {address : IpAddr} (hr : ReplyOf query parsed w flags 1
    (addressRecord parsed.question.recordType ttl address) r)
include hr

/-- The two bytes of an answer's owner. -/
theorem owner_bytes :
    r[parsed.questionEnd]? = some 0xc0 ∧ r[parsed.questionEnd + 1]? = some 0x0c := by
  obtain ⟨front, hfront, rfl⟩ := hr.front
  rw [← hfront, getElem?_append_right le_rfl,
    getElem?_append_right (by omega), Nat.sub_self, Nat.add_sub_cancel_left]
  exact ⟨rfl, rfl⟩

/-- Behind its owner, the record of an answer reads as it was written. -/
theorem recordAt_answer :
    recordAt r parsed.questionEnd = (readName r parsed.questionEnd).map
      fun found => ⟨found.1, parsed.question.recordType, classIn, min ttl maxTtl,
        parsed.questionEnd + 12, (octets address).length⟩ := by
  obtain ⟨hhi, hlo⟩ := hr.owner_bytes
  obtain ⟨front, hfront, heq⟩ := hr.front
  have htype₀ := be16_lt hr.recordType
  have hlen₀ : (octets address).length < 65536 := by
    cases address with
    | v4 =>
      show 4 < 65536
      omega
    | v6 =>
      show 16 < 65536
      omega
  have httl₀ : min ttl maxTtl < 2 ^ 32 := by
    have hmax : maxTtl = 86400 := rfl
    omega
  -- each field stands behind the ones before it
  have htype : be16 r (parsed.questionEnd + 2) = some parsed.question.recordType := by
    rw [heq, ← hfront, be16_append]
    exact (@be16_append [0xc0, 0x0c] _ 0).trans (be16_toBe16 htype₀ _)
  have hclass : be16 r (parsed.questionEnd + 2 + 2) = some classIn := by
    rw [heq, ← hfront, add_assoc, be16_append]
    exact (@be16_append ([0xc0, 0x0c] ++ toBe16 _) _ 0).trans
      (be16_toBe16 (by show 1 < 65536; omega) _)
  have httl : be32 r (parsed.questionEnd + 2 + 4) = some (min ttl maxTtl) := by
    rw [heq, ← hfront, add_assoc, be32_append]
    exact (@be32_append ([0xc0, 0x0c] ++ toBe16 _ ++ toBe16 classIn) _ 0).trans
      (be32_toBe32 httl₀ _)
  have hlen : be16 r (parsed.questionEnd + 2 + 8) = some (octets address).length := by
    rw [heq, ← hfront, add_assoc, be16_append, addressRecord, addressData_eq]
    exact (@be16_append ([0xc0, 0x0c] ++ toBe16 _ ++ toBe16 classIn ++ toBe32 _) _ 0).trans
      (be16_toBe16 hlen₀ _)
  have hwhole : r.length = parsed.questionEnd + 12 + (octets address).length := by
    rw [heq, addressRecord, addressData_eq]
    simp [toBe32, toBe16]
    omega
  cases hname : readName r parsed.questionEnd with
  | none => simp [recordAt, hname]
  | some found =>
    obtain ⟨owner, next⟩ := found
    obtain ⟨w', hat, -, -, hnext⟩ := readName_iff.mp hname
    obtain ⟨rest, -, rfl⟩ := nameAt_of_pointer hat hhi (by decide) hlo
    obtain rfl : next = parsed.questionEnd + 2 := hnext
    simp only [recordAt, hname, htype, hclass, httl, hlen, bind_eq_bind, bind_some,
      map_some]
    rw [if_neg (by omega)]

theorem slice_answer :
    slice r (parsed.questionEnd + 12) (octets address).length = some (octets address) := by
  obtain ⟨front, hfront, heq⟩ := hr.front
  obtain ⟨before, hsize, heq⟩ : ∃ before, before.length = parsed.questionEnd + 12 ∧
      r = before ++ octets address := by
    refine ⟨front ++ ([0xc0, 0x0c] ++ (toBe16 parsed.question.recordType ++ (toBe16 classIn ++
      (toBe32 (min ttl maxTtl) ++ toBe16 (octets address).length)))), ?_, ?_⟩
    · rw [length_append, hfront]
      rfl
    · rw [heq, addressRecord, addressData_eq]
      simp
  rw [heq, slice, ← hsize, if_pos (le_of_eq length_append.symm), drop_left,
    take_length]

/-- The addresses in an answer whose question and owner both read as the name
asked for. -/
theorem parseAddresses_answer (hin : parsed.question.class_ = classIn)
    (hkind : parsed.question.recordType = address.recordType) (hflags : flags < 65536)
    (hresponse : flags &&& 0x8000 ≠ 0) (hplain : flags &&& 0x7a0f = 0)
    (hname : (readName r dnsHeaderLen).map Prod.fst = some parsed.question.domain)
    (howner : (readName r parsed.questionEnd).map Prod.fst = some parsed.question.domain) :
    parseAddresses r = some [⟨parsed.question.domain, address, min ttl maxTtl⟩] := by
  have hrecord := hr.recordAt_answer
  have hdata := hr.slice_answer
  obtain ⟨hlen, -, hflags', hone, hanswers, -, -⟩ := hr.header hflags (by decide)
  obtain ⟨htype, hclass⟩ := hr.fields
  obtain ⟨⟨domain, next⟩, hname, rfl⟩ := map_eq_some_iff.mp hname
  obtain ⟨⟨owner, behind⟩, hownerName, rfl⟩ := map_eq_some_iff.mp howner
  obtain rfl := hr.next hname
  rw [hownerName, map_some] at hrecord
  have hcname : address.recordType ≠ recordCname := by
    cases address with
    | v4 =>
      show recordA ≠ recordCname
      decide
    | v6 =>
      show recordAaaa ≠ recordCname
      decide
  have hend : w.next + 4 = parsed.questionEnd := hr.ends.symm
  have haddress : ∀ owner' ttl', Record.addressOf r parsed.question.recordType
      ⟨owner', parsed.question.recordType, classIn, ttl', parsed.questionEnd + 12,
        (octets address).length⟩ = some address := by
    intro owner' ttl'
    rw [Record.addressOf, if_pos ⟨rfl, by rw [hkind]; exact hcname, rfl⟩, hdata,
      bind_some, hkind, recordAddress_octets]
  have hanswerRecords : answerRecords r parsed.question.recordType 1 (w.next + 4) {} =
      some { addresses := [(parsed.question.domain, address, min ttl maxTtl)] } := by
    rw [answerRecords_succ, hend, hrecord, bind_some,
      if_neg (fun h => hcname (hkind.symm.trans h.2)), haddress]
    rfl
  have hmin : min maxTtl 4294967295 = maxTtl := by decide
  simp only [parseAddresses, not_lt.mpr hlen, hflags', hone, hanswers, hname, htype, hclass,
    hin, hresponse, hplain, hanswerRecords, bind_eq_bind, bind_some, followAliases]
  simp [hmin]

end ReplyOf

/-! ## Replies lead nowhere -/

theorem leadsTo_of_no_alias (h : ∀ owner target, ¬ AliasIn packet owner target) {domain name : Str}
    (hleads : LeadsTo packet domain name) : name = domain := by
  rcases hleads.cases_head with rfl | ⟨next, hstep, -⟩
  · rfl
  · exact absurd hstep (h _ _)

theorem no_alias_empty {rcode : Nat} (hrcode : rcode ∈ replyExtras)
    (h : emptyResponse query rcode = some r) : ∀ owner target, ¬ AliasIn r owner target := by
  obtain ⟨parsed, requestFlags, hparsed, -, rfl⟩ := emptyResponse_eq h
  obtain ⟨w, hq⟩ := questionAt_of_parse hparsed
  rintro owner target ⟨records, hsection, r, hr, -⟩
  have hrecords := ReplyOf.answerSection_eq ⟨hq, rfl⟩ (replyFlags_lt requestFlags hrcode)
    (by decide) hsection
  cases hrecords
  cases hr

theorem no_alias_answer (h : addressQuestion query = some parsed) (ttl : Nat) (address : IpAddr) :
    ∀ owner target, ¬ AliasIn (fakeAnswer query parsed ttl address) owner target := by
  obtain ⟨hparsed, hkind⟩ := filter_eq_some_iff.mp h
  obtain ⟨-, hkind⟩ := of_decide_eq_true hkind
  obtain ⟨-, ⟨requestFlags, hflags, -⟩, -⟩ := parseQuestion_iff.mp hparsed
  obtain ⟨w, hq⟩ := questionAt_of_parse hparsed
  have hextra : 0 ∈ replyExtras := by decide
  have hreply : ReplyOf _ _ _ _ _ _ _ := ⟨hq, fakeAnswer_eq hflags ttl address⟩
  rintro owner target ⟨records, hsection, r, hr, -, halias⟩
  have hrecords := hreply.answerSection_eq (replyFlags_lt requestFlags hextra) (by decide) hsection
  rw [readRecords, hreply.recordAt_answer] at hrecords
  obtain ⟨first, hfirst, hrecords⟩ := bind_eq_some_iff.mp hrecords
  obtain ⟨found, -, rfl⟩ := map_eq_some_iff.mp hfirst
  cases hrecords
  -- its only record is an address
  rw [mem_singleton.mp hr, aliasTarget_of_other] at halias
  · cases halias
  · intro hcname
    rcases hkind with hA | hAaaa
    · exact absurd (hA.symm.trans hcname.2) (by decide)
    · exact absurd (hAaaa.symm.trans hcname.2) (by decide)

/-! ## Every reply -/

/-- The name of a reply's question, and of the owner of its record if it has
one, read as the name the query asks for. -/
def Repeats (query r : Packet) : Prop :=
  ∃ parsed, parseQuestion query = some parsed ∧
    (readName r dnsHeaderLen).map Prod.fst = some parsed.question.domain ∧
    (r.length = parsed.questionEnd ∨ (readName r parsed.questionEnd).isSome = true)

variable {π₄ π₆ : Type} [Ipv4Net π₄] [Ipv6Net π₆]

/-- The replies the resolver makes to a query, each with the address it is to
carry. -/
inductive Made (π₄ π₆ : Type) [Ipv4Net π₄] [Ipv6Net π₆] (query : Packet) :
    Packet → Option AddressAnswer → Prop
  | servfail {r : Packet} : servfailResponse query = some r → Made π₄ π₆ query r none
  | nxdomain {r : Packet} : nxdomainResponse query = some r → Made π₄ π₆ query r none
  | truncated {r : Packet} : truncatedResponse query = some r → Made π₄ π₆ query r none
  | fake {fw : FakeWorld π₄ π₆} {cache : DnsCache} {pool4 : π₄} {pool6 : π₆} {ttl : Nat}
      {r : Packet} :
      Reach FakeWorld.Initial FakeWorld.apply anyAction fw → cache ∈ fw.caches →
      (fakeResponse cache.capacity fw.now query pool4 pool6 ttl fw.fake).1 = .ok (some r) →
      Made π₄ π₆ query r ((fw.handedOut cache.capacity query pool4 pool6 ttl).map fun i =>
        ⟨i.domain, i.address, min ttl maxTtl⟩)

/-- What a reply made to a query is: the question with nothing behind it, or
with one address of the kind asked for. -/
inductive Shape (query r : Packet) (parsed : ParsedQuestion) : Option AddressAnswer → Prop
  | empty {requestFlags extra : Nat} : extra ∈ replyExtras →
      r = replyTo query parsed.questionEnd (replyFlags requestFlags extra) 0 [] →
      Shape query r parsed none
  | answer {requestFlags ttl : Nat} {address : IpAddr} :
      parsed.question.class_ = classIn →
      parsed.question.recordType = address.recordType →
      r = replyTo query parsed.questionEnd (replyFlags requestFlags 0) 1
        (addressRecord parsed.question.recordType ttl address) →
      Shape query r parsed (some ⟨parsed.question.domain, address, min ttl maxTtl⟩)

theorem shape_of_empty {rcode : Nat} (hrcode : rcode ∈ replyExtras)
    (h : emptyResponse query rcode = some r) :
    ∃ parsed, parseQuestion query = some parsed ∧ Shape query r parsed none := by
  obtain ⟨parsed, requestFlags, hparsed, -, heq⟩ := emptyResponse_eq h
  exact ⟨parsed, hparsed, .empty hrcode heq⟩

theorem shape_of_made (h : Made π₄ π₆ query r expected) :
    ∃ parsed, parseQuestion query = some parsed ∧ Shape query r parsed expected := by
  cases h with
  | servfail h | nxdomain h => exact shape_of_empty (by decide) h
  | truncated h =>
    obtain ⟨empty, hempty, rfl⟩ := map_eq_some_iff.mp h
    obtain ⟨parsed, requestFlags, hparsed, -, rfl⟩ := emptyResponse_eq hempty
    obtain ⟨w, hq⟩ := questionAt_of_parse hparsed
    have htruncated : 0x0200 ∈ replyExtras := by decide
    exact ⟨parsed, hparsed, .empty htruncated (modify_replyTo hq requestFlags 0 [])⟩
  | @fake fw cache pool4 pool6 ttl _ hreach _ h =>
    rcases fakeResponse_cases h with ⟨hasked, hempty⟩ | ⟨parsed, address, hasked, hfound, hr⟩
    · rw [FakeWorld.handedOut, hasked]
      exact shape_of_empty (by decide) hempty
    · obtain ⟨hparsed, hkind⟩ := filter_eq_some_iff.mp hasked
      obtain ⟨hin, -⟩ := of_decide_eq_true hkind
      obtain ⟨-, ⟨requestFlags, hflags, -⟩, -⟩ := parseQuestion_iff.mp hparsed
      obtain ⟨-, hspec, -⟩ := fakeAddress_spec (remembered_of_reach hreach).linked
        cache.capacity fw.now parsed.question.domain parsed.question.recordType pool4 pool6
        (min ttl maxTtl) rfl
      obtain ⟨-, htype, -⟩ := hspec address hfound
      refine ⟨parsed, hparsed, ?_⟩
      rw [FakeWorld.handedOut, hasked]
      simp only [hfound]
      exact .answer hin htype.symm (hr.trans (fakeAnswer_eq hflags ttl address))

/-- A name and a pointer to it read the same, as long as there is a jump
left. -/
theorem readName_pointer {p target : Nat} {hi lo : UInt8} {domain owner : Str} {next behind : Nat}
    (hbyte : packet[p]? = some hi) (hhigh : hi &&& 0xc0 = 0xc0) (hlo : packet[p + 1]? = some lo)
    (htarget : pointerTarget hi lo = target) (hname : readName packet target = some (domain, next))
    (howner : readName packet p = some (owner, behind)) : owner = domain := by
  obtain ⟨w, hat, -, rfl, -⟩ := readName_iff.mp hname
  obtain ⟨w', hat', -, rfl, -⟩ := readName_iff.mp howner
  obtain ⟨rest, hrest, rfl⟩ := nameAt_of_pointer hat' hbyte hhigh hlo
  rw [htarget] at hrest
  rw [nameAt_unique hat hrest]
  rfl

/-- An empty reply is as long as its question. -/
theorem ReplyOf.length_empty {flags : Nat} (hr : ReplyOf query parsed w flags 0 [] r) :
    r.length = parsed.questionEnd := by
  obtain ⟨front, hfront, rfl⟩ := hr.front
  rw [append_nil, hfront]

theorem answers_iff_repeats (hq : QuestionAt query parsed w)
    (hshape : Shape query r parsed expected) :
    ((responseMetadata query r).isSome = true ∧
      ∀ a, expected = some a → parseAddresses r = some [a]) ↔ Repeats query r := by
  cases hshape with
  | @empty requestFlags extra hextra heq =>
    have hr : ReplyOf _ _ _ _ _ _ _ := ⟨hq, heq⟩
    rw [hr.accepted_iff (replyFlags_lt requestFlags hextra) (by decide)
      (replyFlags_response requestFlags extra) (replyFlags_opcode requestFlags hextra)]
    constructor
    · intro hcase
      exact ⟨parsed, hq.parses, hcase.1.1, .inl hr.length_empty⟩
    · rintro ⟨parsed', hparsed', hname, -⟩
      cases hq.parses.symm.trans hparsed'
      exact ⟨⟨hname, rfl⟩, fun a ha => by cases ha⟩
  | @answer requestFlags ttl address hin hkind heq =>
    have hr : ReplyOf _ _ _ _ _ _ _ := ⟨hq, heq⟩
    have hextra : 0 ∈ replyExtras := by decide
    have hrecord := hr.recordAt_answer
    rw [hr.accepted_iff (replyFlags_lt requestFlags hextra) (by decide)
      (replyFlags_response requestFlags 0) (replyFlags_opcode requestFlags hextra)]
    constructor
    · rintro ⟨⟨hname, hrecords⟩, -⟩
      refine ⟨parsed, hq.parses, hname, .inr ?_⟩
      obtain ⟨records, hrecords⟩ := isSome_iff_exists.mp hrecords
      obtain ⟨first, hfirst, -⟩ := bind_eq_some_iff.mp hrecords
      rw [hrecord] at hfirst
      obtain ⟨found, hfound, -⟩ := map_eq_some_iff.mp hfirst
      rw [hfound]
      rfl
    · rintro ⟨parsed', hparsed', hname, hbehind⟩
      cases hq.parses.symm.trans hparsed'
      obtain ⟨hhi, hlo⟩ := hr.owner_bytes
      -- there is something behind the question, so its owner is read
      rcases hbehind with hshort | hsome
      · have hlast := (List.getElem?_eq_some_iff.mp hhi).1
        omega
      obtain ⟨⟨owner, behind⟩, howner⟩ := isSome_iff_exists.mp hsome
      obtain ⟨⟨domain, next⟩, hdomain, heq⟩ := map_eq_some_iff.mp hname
      have hsame := readName_pointer hhi (by decide) hlo rfl hdomain howner
      have hownerName : (readName r parsed.questionEnd).map Prod.fst =
          some parsed.question.domain := by
        rw [howner, ← heq]
        exact congrArg some hsame
      refine ⟨⟨hname, ?_⟩, fun a ha => ?_⟩
      · rw [readRecords, hrecord, howner]
        rfl
      · rw [← some.inj ha]
        exact hr.parseAddresses_answer hin hkind (replyFlags_lt requestFlags hextra)
          (replyFlags_response requestFlags 0) (by simp [replyFlags_and]) hname hownerName

theorem Shape.replyOf (hq : QuestionAt query parsed w) (h : Shape query r parsed expected) :
    ∃ flags count tail, ReplyOf query parsed w flags count tail r := by
  cases h with
  | empty _ heq | answer _ _ heq => exact ⟨_, _, _, hq, heq⟩

theorem repeats_of_selfContained (hq : QuestionAt query parsed w)
    (hshape : Shape query r parsed expected) (hself : SelfContained parsed w) :
    Repeats query r := by
  have hinside : w.jumps ≤ 6 := by
    have hnext := nameAt_next_le hq.name
    have hlen := hq.legible.wireLen
    have hend := hq.ends
    rw [dnsHeaderLen] at hnext
    refine jumps_le_of_inside hq.name hq.legible.utf8 (fun i hi => ?_) (by omega)
    rw [← hend]
    exact hself i hi
  obtain ⟨flags, count, tail, hr⟩ := hshape.replyOf hq
  have hname : NameAt _ dnsHeaderLen w :=
    nameAt_frame hr.name fun i hi => hr.question (hself i hi).1 (hself i hi).2
  refine ⟨parsed, hq.parses, ?_, ?_⟩
  · rw [readName_iff.mpr ⟨w, hname, hq.legible, hq.domain, rfl⟩]
    rfl
  cases hshape with
  | empty _ heq => exact .inl (ReplyOf.length_empty ⟨hq, heq⟩)
  | answer _ _ heq =>
    obtain ⟨hhi, hlo⟩ := ReplyOf.owner_bytes ⟨hq, heq⟩
    have howner := NameAt.pointer hhi (by decide) hlo hname
    have hlegible : WireName.Legible ⟨w.labels, w.jumps + 1, parsed.questionEnd + 2,
        parsed.questionEnd :: (parsed.questionEnd + 1) :: w.bytes⟩ :=
      ⟨by show w.jumps + 1 ≤ 32; omega, hq.legible.wireLen, hq.legible.utf8⟩
    rw [readName_iff.mpr ⟨_, howner, hlegible, rfl, rfl⟩]
    exact .inr rfl

/-- A reply answers its query, with the address it is to carry, just when the
query's name reads the same in it. It does whenever the name keeps to its
question. -/
theorem made_reply_answers_iff {query r : Packet} {expected : Option AddressAnswer}
    (h : Made π₄ π₆ query r expected) :
    (((responseMetadata query r).isSome = true ∧
        ∀ a, expected = some a → parseAddresses r = some [a]) ↔ Repeats query r) ∧
      ∀ parsed w, parseQuestion query = some parsed → NameAt query dnsHeaderLen w →
        SelfContained parsed w → Repeats query r := by
  obtain ⟨parsed, hparsed, hshape⟩ := shape_of_made h
  obtain ⟨w, hq⟩ := questionAt_of_parse hparsed
  refine ⟨answers_iff_repeats hq hshape, fun parsed' w' hparsed' hname hself => ?_⟩
  cases hparsed.symm.trans hparsed'
  obtain rfl := nameAt_unique hq.name hname
  exact repeats_of_selfContained hq hshape hself

/-! ## A name that keeps to its question, and one that does not -/

/-- A query for `a` answered with the first address of a pool. -/
theorem made_reply_for_letter :
    ∃ r, Made (Subnet 32) (Subnet 128) (letterQuery 0x61) r
        (some ⟨[0x61], .v4 0xc6120002, 60⟩) ∧
      (responseMetadata (letterQuery 0x61) r).isSome = true ∧
      parseAddresses r = some [⟨[0x61], .v4 0xc6120002, 60⟩] := by
  obtain ⟨r, hmade⟩ : ∃ r, Made (Subnet 32) (Subnet 128) (letterQuery 0x61) r
      (some ⟨[0x61], .v4 0xc6120002, 60⟩) := by
    have hfound := @Made.fake (Subnet 32) (Subnet 128) _ _ (letterQuery 0x61) (freshWorld 4)
      (DnsCache.new 4) ⟨0xc6120000, 15⟩ ⟨0xfd000000000000000000000000000000, 64⟩ 60
      (fakeAnswer (letterQuery 0x61) ⟨⟨[0x61], 1, 1⟩, 19⟩ 60 (.v4 0xc6120002))
      (.start (freshWorld_initial 4)) (.head _) (by decide +kernel)
    have hout : ((freshWorld 4).handedOut (DnsCache.new 4).capacity (letterQuery 0x61)
        ⟨0xc6120000, 15⟩ ⟨0xfd000000000000000000000000000000, 64⟩ 60).map (fun i =>
          (⟨i.domain, i.address, min 60 maxTtl⟩ : AddressAnswer)) =
        some ⟨[0x61], .v4 0xc6120002, 60⟩ := by
      decide +kernel
    rw [hout] at hfound
    exact ⟨_, hfound⟩
  have hroot : NameAt (letterQuery 0x61) 14 ⟨[], 0, 15, [14]⟩ := .root rfl
  have hname : NameAt (letterQuery 0x61) dnsHeaderLen
      ⟨[[0x61]], 0, 15, List.range' 12 2 ++ [14]⟩ :=
    .label (show _ = some 1 from rfl) rfl (by decide) rfl hroot
  have hparsed : parseQuestion (letterQuery 0x61) = some ⟨⟨[0x61], 1, 1⟩, 19⟩ := by
    decide +kernel
  obtain ⟨hiff, hself⟩ := made_reply_answers_iff hmade
  have hrepeats := hself _ _ hparsed hname (by
    rw [SelfContained]
    decide)
  obtain ⟨haccepted, hanswers⟩ := hiff.mpr hrepeats
  exact ⟨r, hmade, haccepted, hanswers _ rfl⟩

/-- A query whose name is read from the count of its answers: `a`, by a pointer
into the header. -/
def headerQuery : Packet :=
  [0, 1, 1, 0, 0, 1, 1, 0x61, 0, 0, 0, 0, 0xc0, 6, 0, 1, 0, 1]

/-- The reply to it asks for the root instead. -/
theorem header_name_not_repeated :
    (∃ parsed, parseQuestion headerQuery = some parsed ∧ parsed.question.domain = [0x61]) ∧
      ∃ r, Made (Subnet 32) (Subnet 128) headerQuery r none ∧
        (readName r dnsHeaderLen).map Prod.fst = some [] ∧
        responseMetadata headerQuery r = none := by
  refine ⟨⟨⟨⟨[0x61], 1, 1⟩, 18⟩, by decide +kernel, rfl⟩,
    [0, 1, 0x81, 0x83, 0, 1, 0, 0, 0, 0, 0, 0, 0xc0, 6, 0, 1, 0, 1], .nxdomain ?_, ?_, ?_⟩
  · decide +kernel
  · decide +kernel
  · decide +kernel

end Foxcore.Proofs
