import Foxcore.Lib.HashMap
import Foxcore.Ref.Net

/-!
# DNS messages on the wire

The readers of the resolver's wire module. A packet is its bytes; an offset is
a position in them; a reader that meets anything it does not like answers
nothing. Field values are natural numbers, sixteen and thirty-two bits wide by
construction.

A name may jump backwards and forwards through compression pointers. The
source's loop has no bound of its own; what bounds it are the count of jumps
and the length of the name, and the fuel of `readNameGo` is their sum.
`readNameGo_fuel` says that with that much fuel the loop never runs out.
-/

namespace Foxcore.Ref

open Lib

abbrev Packet : Type := List UInt8

def dnsHeaderLen : Nat := 12
def maxPointerJumps : Nat := 32
def maxTtl : Nat := 24 * 60 * 60
def recordA : Nat := 1
def recordCname : Nat := 5
def recordAaaa : Nat := 28
def recordOpt : Nat := 41
def recordSvcb : Nat := 64
def recordHttps : Nat := 65
def classIn : Nat := 1

/-- `u16::from_be_bytes` of the two bytes at an offset. -/
def be16 (packet : Packet) (offset : Nat) : Option Nat := do
  let hi ← packet[offset]?
  let lo ← packet[offset + 1]?
  return hi.toNat * 256 + lo.toNat

/-- `u32::from_be_bytes` of the four bytes at an offset. -/
def be32 (packet : Packet) (offset : Nat) : Option Nat := do
  let hi ← be16 packet offset
  let lo ← be16 packet (offset + 2)
  return hi * 65536 + lo

/-- `packet.get(start..start + len)`. -/
def slice (packet : Packet) (start len : Nat) : Option (List UInt8) :=
  if start + len ≤ packet.length then some ((packet.drop start).take len) else none

/-- The bytes of a sixteen bit field, high byte first. -/
def toBe16 (n : Nat) : List UInt8 := [UInt8.ofNat (n / 256), UInt8.ofNat (n % 256)]

/-- The bytes of a thirty-two bit field, high byte first. -/
def toBe32 (n : Nat) : List UInt8 := toBe16 (n / 65536) ++ toBe16 (n % 65536)

/-! ## Names -/

/-- The loop of `read_name`. `rest` is where reading goes on behind the name
once a pointer has been followed. -/
def readNameGo (packet : Packet) :
    (fuel position jumps wireLen : Nat) → (rest : Option Nat) → (labels : List Str) →
    Option (Str × Nat)
  | 0, _, _, _, _, _ => none
  | fuel + 1, position, jumps, wireLen, rest, labels => do
      let length ← packet[position]?
      if length &&& 0xc0 = 0xc0 then
        let second ← packet[position + 1]?
        let pointer := (length &&& 0x3f).toNat * 256 + second.toNat
        if packet.length ≤ pointer ∨ maxPointerJumps ≤ jumps then none
        else
          readNameGo packet fuel pointer (jumps + 1) wireLen
            (some (rest.getD (position + 2))) labels
      else if length &&& 0xc0 ≠ 0 then none
      else if length = 0 then some (Str.join dot labels, rest.getD (position + 1))
      else if 63 < length.toNat ∨ 255 < wireLen + (length.toNat + 1) then none
      else
        let bytes ← slice packet (position + 1) length.toNat
        let label ← Str.fromUtf8 bytes
        readNameGo packet fuel (position + 1 + length.toNat) jumps
          (wireLen + (length.toNat + 1)) rest (labels ++ [Str.toAsciiLowercase label])

def readNameFuel : Nat := maxPointerJumps + 255 + 1

/-- `read_name`: the name at an offset and the offset behind it. -/
def readName (packet : Packet) (offset : Nat) : Option (Str × Nat) :=
  readNameGo packet readNameFuel offset 0 0 none []

/-- Every round spends a jump or part of the name's length, so fuel beyond
what is left of both makes no difference. -/
theorem readNameGo_fuel (packet : Packet) {fuel : Nat} (extra : Nat)
    {position jumps wireLen : Nat} {rest : Option Nat} {labels : List Str}
    (h : (maxPointerJumps - jumps) + (255 - wireLen) < fuel) :
    readNameGo packet (fuel + extra) position jumps wireLen rest labels =
      readNameGo packet fuel position jumps wireLen rest labels := by
  induction fuel generalizing position jumps wireLen rest labels with
  | zero => omega
  | succ fuel ih =>
    rw [Nat.add_right_comm, readNameGo, readNameGo]
    cases packet[position]? with
    | none => rfl
    | some length =>
      simp only [Option.bind_eq_bind, Option.bind_some]
      split
      · cases packet[position + 1]? with
        | none => rfl
        | some second =>
          simp only [Option.bind_some]
          split
          · rfl
          · next hjump => exact ih (by omega)
      · split
        · rfl
        · split
          · rfl
          · split
            · rfl
            · next hlen =>
              have hnext : ∀ label, readNameGo packet (fuel + extra)
                  (position + 1 + length.toNat) jumps
                  (wireLen + (length.toNat + 1)) rest label =
                readNameGo packet fuel (position + 1 + length.toNat) jumps
                  (wireLen + (length.toNat + 1)) rest label :=
                fun label => ih (by omega)
              simp only [hnext]

/-! ## Questions -/

structure DnsQuestion where
  domain : Str
  recordType : Nat
  class_ : Nat
  deriving DecidableEq

structure ParsedQuestion where
  question : DnsQuestion
  questionEnd : Nat
  deriving DecidableEq

def parseQuestion (packet : Packet) : Option ParsedQuestion := do
  if packet.length < dnsHeaderLen then none
  let flags ← be16 packet 2
  let questionCount ← be16 packet 4
  if flags &&& 0x8000 ≠ 0 ∨ flags &&& 0x7800 ≠ 0 ∨ questionCount ≠ 1 then none
  let (domain, offset) ← readName packet dnsHeaderLen
  let recordType ← be16 packet offset
  let class_ ← be16 packet (offset + 2)
  return ⟨⟨domain, recordType, class_⟩, offset + 4⟩

/-- The packet with its first two bytes zeroed. -/
def zeroId (packet : Packet) : Packet := [0, 0] ++ packet.drop 2

/-- `query_key`: the query without its transaction identifier. -/
def queryKey (packet : Packet) : Option Packet := do
  let _ ← parseQuestion packet
  return zeroId packet

/-! ## Responses -/

structure ResponseMetadata where
  minTtl : Nat
  ttlFields : List (Nat × Nat)
  negative : Bool
  deriving DecidableEq

/-- The loop over a response's records, gathering where their lifetimes stand
and the least of them. -/
def metadataRecords (response : Packet) :
    (count offset minTtl : Nat) → (fields : List (Nat × Nat)) →
    Option (Nat × List (Nat × Nat))
  | 0, _, minTtl, fields => some (minTtl, fields)
  | count + 1, offset, minTtl, fields => do
      let (_, offset) ← readName response offset
      if response.length < offset + 10 then none
      let recordType ← be16 response offset
      let ttl ← be32 response (offset + 4)
      let dataLen ← be16 response (offset + 8)
      let next := offset + 10 + dataLen
      if response.length < next then none
      if recordType ≠ recordOpt then
        metadataRecords response count next (min minTtl ttl) (fields ++ [(offset + 4, ttl)])
      else metadataRecords response count next minTtl fields

/-- `response_metadata`: that a response answers a query, and for how long. -/
def responseMetadata (query response : Packet) : Option ResponseMetadata := do
  let queryId ← slice query 0 2
  let responseId ← slice response 0 2
  if queryId ≠ responseId then none
  let parsed ← parseQuestion query
  if response.length < dnsHeaderLen then none
  let flags ← be16 response 2
  if flags &&& 0x8000 = 0 ∨ flags &&& 0x7800 ≠ 0 then none
  let questionCount ← be16 response 4
  let answerCount ← be16 response 6
  let authorityCount ← be16 response 8
  let additionalCount ← be16 response 10
  if questionCount ≠ 1 then none
  let (domain, offset) ← readName response dnsHeaderLen
  let recordType ← be16 response offset
  let class_ ← be16 response (offset + 2)
  if domain ≠ parsed.question.domain ∨ recordType ≠ parsed.question.recordType ∨
      class_ ≠ parsed.question.class_ then none
  let (minTtl, ttlFields) ← metadataRecords response
    (answerCount + authorityCount + additionalCount) (offset + 4) (2 ^ 32 - 1) []
  return {
    minTtl := if ttlFields.isEmpty then 0 else minTtl
    ttlFields := ttlFields
    negative := flags &&& 0x000f = 3 ∨ answerCount = 0 }

/-! ## Addresses in a response -/

structure AddressAnswer where
  domain : Str
  address : IpAddr
  ttl : Nat
  deriving DecidableEq

/-- The number a run of bytes spells, high byte first. -/
def beNat (bytes : List UInt8) : Nat := bytes.foldl (fun n b => n * 256 + b.toNat) 0

/-- The address in a record of the given type. -/
def recordAddress (recordType : Nat) (data : List UInt8) : Option IpAddr :=
  if recordType = recordA ∧ data.length = 4 then some (.v4 (BitVec.ofNat 32 (beNat data)))
  else if recordType = recordAaaa ∧ data.length = 16 then
    some (.v6 (BitVec.ofNat 128 (beNat data)))
  else none

/-- What the answer section says, so far. -/
structure Answers where
  aliases : HashMap Str (Str × Nat) := ∅
  addresses : List (Str × IpAddr × Nat) := []

/-- The loop over the answer records. A second alias of one owner, or an alias
that does not fill its record, spoils the whole packet. -/
def answerRecords (packet : Packet) (queryType : Nat) :
    (count offset : Nat) → Answers → Option Answers
  | 0, _, answers => some answers
  | count + 1, offset, answers => do
      let (owner, offset) ← readName packet offset
      let recordType ← be16 packet offset
      let class_ ← be16 packet (offset + 2)
      let ttl ← be32 packet (offset + 4)
      let dataLen ← be16 packet (offset + 8)
      let start := offset + 10
      let data ← slice packet start dataLen
      if class_ = classIn ∧ recordType = recordCname then
        let (target, behind) ← readName packet start
        if behind ≠ start + dataLen ∨ (answers.aliases.lookup owner).isSome then none
        else
          answerRecords packet queryType count (start + dataLen)
            { answers with aliases := answers.aliases.insert owner (target, ttl) }
      else if class_ = classIn ∧ recordType = queryType then
        match recordAddress recordType data with
        | some address =>
          answerRecords packet queryType count (start + dataLen)
            { answers with addresses := answers.addresses ++ [(owner, address, ttl)] }
        | none => answerRecords packet queryType count (start + dataLen) answers
      else answerRecords packet queryType count (start + dataLen) answers

/-- Follows aliases from a name to the end of the chain, with the least
lifetime on the way. Going round in a circle is refused; each round visits
another alias, so one more round than there are aliases is enough. -/
def followAliases (aliases : HashMap Str (Str × Nat)) :
    (fuel : Nat) → (owner : Str) → (visited : List Str) → (chainTtl : Nat) →
    Option (Str × Nat)
  | 0, _, _, _ => none
  | fuel + 1, owner, visited, chainTtl =>
    match aliases.lookup owner with
    | none => some (owner, chainTtl)
    | some (target, ttl) =>
      if owner ∈ visited then none
      else followAliases aliases fuel target (owner :: visited) (min chainTtl ttl)

/-- `parse_addresses`: the addresses at the end of the alias chain that starts
at the question, each under the question's name. -/
def parseAddresses (packet : Packet) : Option (List AddressAnswer) := do
  if packet.length < dnsHeaderLen then none
  let flags ← be16 packet 2
  let questionCount ← be16 packet 4
  if flags &&& 0x8000 = 0 ∨ flags &&& 0x7a0f ≠ 0 ∨ questionCount ≠ 1 then none
  let answerCount ← be16 packet 6
  let (domain, offset) ← readName packet dnsHeaderLen
  let queryType ← be16 packet offset
  let class_ ← be16 packet (offset + 2)
  if class_ ≠ classIn then none
  let answers ← answerRecords packet queryType answerCount (offset + 4) {}
  let (owner, chainTtl) ← followAliases answers.aliases (answers.aliases.len + 1) domain []
    (2 ^ 32 - 1)
  return (answers.addresses.filter fun a => a.1 = owner).map fun a =>
    ⟨domain, a.2.1, min a.2.2 chainTtl⟩

/-! ## The alias chain of a response -/

def maxChainNames : Nat := 32

/-- The loop over the answer records that gathers the aliases, for filtering. -/
def chainRecords (response : Packet) :
    (count offset : Nat) → HashMap Str Str → Option (HashMap Str Str)
  | 0, _, aliases => some aliases
  | count + 1, offset, aliases => do
      let (owner, offset) ← readName response offset
      let _ ← slice response offset 10
      let kind ← be16 response offset
      let class_ ← be16 response (offset + 2)
      let length ← be16 response (offset + 8)
      let start := offset + 10
      let _ ← slice response start length
      if class_ = classIn ∧ kind = recordCname then
        let (target, cursor) ← readName response start
        if cursor ≠ start + length ∨ (aliases.lookup owner).isSome then none
        else chainRecords response count (start + length) (aliases.insert owner target)
      else chainRecords response count (start + length) aliases

/-- The names an alias chain leads to, in order. A chain that goes round in a
circle, or is longer than the limit, is refused, so that one more round than
the limit is enough. -/
def followChain (aliases : HashMap Str Str) :
    (fuel : Nat) → (owner : Str) → (visited chain : List Str) → Option (List Str)
  | 0, _, _, _ => none
  | fuel + 1, owner, visited, chain =>
    match aliases.lookup owner with
    | none => some chain
    | some target =>
      if maxChainNames ≤ chain.length ∨ owner ∈ visited then none
      else followChain aliases fuel target (owner :: visited) (chain ++ [target])

/-- `response_domain_chain`: the names a response to a query leads to. One with
an error in it leads nowhere. -/
def responseDomainChain (query response : Packet) : Option (List Str) := do
  let _ ← responseMetadata query response
  let flags ← be16 response 2
  if flags &&& 0x000f ≠ 0 then some []
  else
    let parsed ← parseQuestion query
    if parsed.question.class_ ≠ classIn then some []
    else
      let (_, offset) ← readName response dnsHeaderLen
      let count ← be16 response 6
      let aliases ← chainRecords response count (offset + 4) ∅
      followChain aliases (maxChainNames + 1) parsed.question.domain [] []

end Foxcore.Ref
