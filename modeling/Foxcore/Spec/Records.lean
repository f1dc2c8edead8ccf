import Foxcore.Ref.Wire

/-!
# The records of a response

Three loops of the resolver go over the records of a response, each for its
own purpose. Here the records are a list, read once, and what the loops look
for is said of the list: which names are aliases of which, which addresses
stand under a name, where the lifetimes are.
-/

namespace Foxcore.Spec

open Ref

/-- A record: whose it is, what it is, and where its data stands. -/
structure Record where
  owner : Str
  recordType : Nat
  class_ : Nat
  ttl : Nat
  start : Nat
  len : Nat
  deriving DecidableEq

def recordAt (packet : Packet) (offset : Nat) : Option Record := do
  let (owner, offset) ← readName packet offset
  let recordType ← be16 packet offset
  let class_ ← be16 packet (offset + 2)
  let ttl ← be32 packet (offset + 4)
  let len ← be16 packet (offset + 8)
  if packet.length < offset + 10 + len then none
  else some ⟨owner, recordType, class_, ttl, offset + 10, len⟩

def readRecords (packet : Packet) : (count offset : Nat) → Option (List Record)
  | 0, _ => some []
  | count + 1, offset => do
      let r ← recordAt packet offset
      let rest ← readRecords packet count (r.start + r.len)
      return r :: rest

/-- The answers of a response. -/
def answerSection (packet : Packet) : Option (List Record) := do
  let (_, offset) ← readName packet dnsHeaderLen
  let count ← be16 packet 6
  readRecords packet count (offset + 4)

namespace Record

/-- The name a record makes its owner an alias of: that in its data, which the
data is nothing but. -/
def aliasTarget (packet : Packet) (r : Record) : Option Str :=
  if r.class_ = classIn ∧ r.recordType = recordCname then
    (readName packet r.start).bind fun found =>
      if found.2 = r.start + r.len then some found.1 else none
  else none

/-- The address a record of the given type holds. -/
def addressOf (packet : Packet) (queryType : Nat) (r : Record) : Option IpAddr :=
  if r.class_ = classIn ∧ r.recordType ≠ recordCname ∧ r.recordType = queryType then
    (slice packet r.start r.len).bind (recordAddress r.recordType)
  else none

end Record

/-- A response has a record that makes a name an alias of another. -/
def AliasIn (packet : Packet) (owner target : Str) : Prop :=
  ∃ records, answerSection packet = some records ∧
    ∃ r ∈ records, r.owner = owner ∧ r.aliasTarget packet = some target

/-- The names a response leads to from a name. -/
def LeadsTo (packet : Packet) : Str → Str → Prop := Relation.ReflTransGen (AliasIn packet)

/-- What is read in a response to a query. -/
structure Reading where
  parsed : ParsedQuestion
  flags : Nat
  answers : Nat
  authority : Nat
  additional : Nat
  next : Nat
  records : List Record

/-- A response answers a query: it repeats its identifier and its question, and
all its records can be read. -/
structure AnswersQuery (query response : Packet) (v : Reading) : Prop where
  question : parseQuestion query = some v.parsed
  header : dnsHeaderLen ≤ response.length
  id : response.take 2 = query.take 2
  flags : be16 response 2 = some v.flags
  isResponse : v.flags &&& 0x8000 ≠ 0
  opcode : v.flags &&& 0x7800 = 0
  oneQuestion : be16 response 4 = some 1
  answers : be16 response 6 = some v.answers
  authority : be16 response 8 = some v.authority
  additional : be16 response 10 = some v.additional
  name : readName response dnsHeaderLen = some (v.parsed.question.domain, v.next)
  recordType : be16 response v.next = some v.parsed.question.recordType
  class_ : be16 response (v.next + 2) = some v.parsed.question.class_
  records : readRecords response (v.answers + v.authority + v.additional) (v.next + 4) =
    some v.records

/-- The records that have a lifetime: all but those of the extension type. -/
def lasting (records : List Record) : List Record :=
  records.filter fun r => r.recordType ≠ recordOpt

/-- Where the lifetime of a record stands, and what it is. -/
def Record.ttlField (r : Record) : Nat × Nat := (r.start - 6, r.ttl)

/-- What is kept of a response for its time in the cache. -/
def Reading.metadata (v : Reading) : ResponseMetadata where
  minTtl :=
    if lasting v.records = [] then 0
    else (lasting v.records).foldl (fun least r => min least r.ttl) (2 ^ 32 - 1)
  ttlFields := (lasting v.records).map Record.ttlField
  negative := v.flags &&& 0x000f = 3 ∨ v.answers = 0

end Foxcore.Spec
