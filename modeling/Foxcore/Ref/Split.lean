import Foxcore.Ref.Flow
import Foxcore.Ref.TrafficMap
import Foxcore.Ref.Wire

/-!
# The split between the tunnel and the stack

A packet read off the tun goes to the packet tunnel, to the userspace stack or
nowhere. The verdict is reached once for each flow and kept in a table of bounded
size; a verdict for the tunnel holds the flow's row in the traffic map, and the
packets are counted through a second table, from the five-tuple to the row.

Tokens and rows are named by numbers: a row by its place in the list of rows, and
`cancelled` and `revoked` are the tokens of policies and the rows whose own token
has been cancelled. Dropping a handle releases its five-tuple. `World` is the
classifier's loop with policies cancelled and flows revoked at any point; reaching
a verdict waits for the platform, so an iteration that misses is two actions.

Beside what the program keeps, the world keeps when each flow was last seen and
what was handed over.
-/

namespace Foxcore.Ref.Split

open Lib Ref.Traffic

inductive PacketRoute where
  | tunnel
  | stack
  | block
  deriving DecidableEq

/-! ## The five-tuple -/

structure FlowKey where
  source : IpAddr
  destination : IpAddr
  sourcePort : Nat
  destinationPort : Nat
  protocol : Nat
  deriving DecidableEq

def protocolTcp : Nat := 6
def protocolUdp : Nat := 17
def ipv6Header : Nat := 40

def ports (packet : Packet) (headerLen protocol : Nat) : Nat × Nat :=
  if ¬(protocol = protocolTcp ∨ protocol = protocolUdp) ∨ packet.length < headerLen + 4 then
    (0, 0)
  else ((be16 packet headerLen).getD 0, (be16 packet (headerLen + 2)).getD 0)

namespace FlowKey

def fromIpv4 (packet : Packet) : Option FlowKey := do
  let first ← packet.head?
  let headerLen := (first &&& 0x0f).toNat * 4
  if headerLen < 20 ∨ packet.length < headerLen then none
  else
    let protocol ← packet[9]?
    let source ← be32 packet 12
    let destination ← be32 packet 16
    let fragment ← be16 packet 6
    -- only the first fragment has ports
    let (sourcePort, destinationPort) :=
      if fragment &&& 0x1fff ≠ 0 then (0, 0) else ports packet headerLen protocol.toNat
    return { source := .v4 (BitVec.ofNat 32 source),
             destination := .v4 (BitVec.ofNat 32 destination), sourcePort, destinationPort,
             protocol := protocol.toNat }

/-- The sixteen bytes of an IPv6 address. -/
def ipv6At (packet : Packet) (offset : Nat) : Option IpAddr := do
  let a ← be32 packet offset
  let b ← be32 packet (offset + 4)
  let c ← be32 packet (offset + 8)
  let d ← be32 packet (offset + 12)
  return .v6 (BitVec.ofNat 128 (((a * 2 ^ 32 + b) * 2 ^ 32 + c) * 2 ^ 32 + d))

def fromIpv6 (packet : Packet) : Option FlowKey := do
  if packet.length < ipv6Header then none
  else
    let protocol ← packet[6]?
    let source ← ipv6At packet 8
    let destination ← ipv6At packet 24
    let (sourcePort, destinationPort) := ports packet ipv6Header protocol.toNat
    return { source, destination, sourcePort, destinationPort, protocol := protocol.toNat }

def fromPacket (packet : Packet) : Option FlowKey := do
  let first ← packet.head?
  if first >>> 4 = 4 then fromIpv4 packet
  else if first >>> 4 = 6 then fromIpv6 packet
  else none

end FlowKey

/-! ## Rows and handles -/

/-- What a row is opened with. -/
structure FlowLabel where
  transport : IpTransport
  destination : Destination
  outboundId : Str
  packages : List Str
  uid : Option Nat
  deriving DecidableEq

structure LiveFlow where
  label : FlowLabel
  bytesUp : Nat := 0
  deriving DecidableEq

def LiveFlow.addUp (flow : LiveFlow) (bytes : Nat) : LiveFlow :=
  { flow with bytesUp := wrappingAdd flow.bytesUp bytes }

structure FlowHandle where
  flow : Nat
  packetKey : Option FlowKey := none
  deriving DecidableEq

/-- `PacketAccounting`: from the five-tuple to the row. -/
abbrev PacketAccounting : Type := HashMap FlowKey Nat

/-- What dropping a handle does to the table. -/
def PacketAccounting.release (table : PacketAccounting) (handle : FlowHandle) : PacketAccounting :=
  match handle.packetKey with
  | some key => table.erase key
  | none => table

/-! ## Verdicts and their table -/

/-- A verdict, and what the row of its flow is opened with. What goes to the
tunnel has a row. -/
structure PacketDecision where
  route : PacketRoute
  flow : Option FlowLabel := none
  voidedBy : Option Nat := none
  tunnels : route = .tunnel → flow.isSome
  deriving DecidableEq

/-- An entry of the table. -/
structure Decision where
  route : PacketRoute
  lastSeenMs : Nat
  flow : Option FlowHandle
  voidedBy : Option Nat
  deriving DecidableEq

def Decision.isVoid (cancelled revoked : List Nat) (decision : Decision) : Bool :=
  (decision.voidedBy.any fun token => cancelled.contains token) ||
    decision.flow.any fun handle => revoked.contains handle.flow

structure PacketSplitter where
  decisions : HashMap FlowKey Decision := ∅
  capacity : Nat
  idleTimeoutMs : Nat
  capacity_pos : 0 < capacity

theorem max_one_pos (n : Nat) : 0 < max n 1 :=
  Nat.lt_of_lt_of_le Nat.zero_lt_one (Nat.le_max_right n 1)

namespace PacketSplitter

def new (capacity idleTimeoutMs : Nat) : PacketSplitter where
  capacity := max capacity 1
  idleTimeoutMs := idleTimeoutMs
  capacity_pos := max_one_pos capacity

def isIdle (s : PacketSplitter) (nowMs : Nat) (decision : Decision) : Bool :=
  s.idleTimeoutMs < nowMs - decision.lastSeenMs

/-- Idle entries first, then the least recently seen ones, one at a time. -/
def evict (s : PacketSplitter) (nowMs : Nat) : PacketSplitter :=
  let live := s.decisions.retain fun _ decision => !s.isIdle nowMs decision
  { s with decisions := live.evict Decision.lastSeenMs (s.capacity - 1) }

/-- The table an insertion puts the new entry in. -/
def makeRoom (s : PacketSplitter) (nowMs : Nat) : PacketSplitter :=
  if s.capacity ≤ s.decisions.len then s.evict nowMs else s

def lookup (s : PacketSplitter) (cancelled revoked : List Nat) (key : FlowKey) (nowMs : Nat) :
    Option PacketRoute × PacketSplitter :=
  match s.decisions.lookup key with
  | none => (none, s)
  | some existing =>
    if s.isIdle nowMs existing || existing.isVoid cancelled revoked then
      (none, { s with decisions := s.decisions.erase key })
    else
      (some existing.route,
        { s with decisions := s.decisions.insert key { existing with lastSeenMs := nowMs } })

def insert (s : PacketSplitter) (key : FlowKey) (decision : Decision) (nowMs : Nat) :
    PacketSplitter :=
  let s := s.makeRoom nowMs
  { s with decisions := s.decisions.insert key decision }

end PacketSplitter

/-- The handles of entries of one table that another does not have: those an
operation drops. -/
def dropped (before after : HashMap FlowKey Decision) : List FlowHandle :=
  (before.entries.filter fun e => (after.lookup e.1).isNone).filterMap fun e => e.2.flow

/-! ## Ingress -/

structure Ingress where
  splitter : PacketSplitter
  table : PacketAccounting := ∅
  flows : List LiveFlow := []
  revoked : List Nat := []

namespace Ingress

/-- The splitter changes, and the handles that are no longer held are dropped. -/
def replace (i : Ingress) (splitter : PacketSplitter) : Ingress :=
  { i with
    splitter := splitter
    table := (dropped i.splitter.decisions splitter.decisions).foldl
      PacketAccounting.release i.table }

def lookup (i : Ingress) (cancelled : List Nat) (key : FlowKey) (nowMs : Nat) :
    Option PacketRoute × Ingress :=
  let found := i.splitter.lookup cancelled i.revoked key nowMs
  (found.1, i.replace found.2)

/-- The row of a verdict that has one is opened and bound to the packet's
five-tuple. -/
def openFlow (i : Ingress) (key : FlowKey) : Option FlowLabel → Option FlowHandle × Ingress
  | some label =>
    (some { flow := i.flows.length, packetKey := some key },
      { i with
        flows := i.flows ++ [{ label }]
        table := i.table.insert key i.flows.length })
  | none => (none, i)

/-- The verdict enters the splitter. An entry it replaces goes after it, and takes
the binding of the five-tuple with it. -/
def insert (i : Ingress) (key : FlowKey) (decision : PacketDecision) (nowMs : Nat) : Ingress :=
  let opened := i.openFlow key decision.flow
  let room := opened.2.replace (opened.2.splitter.makeRoom nowMs)
  let replaced := (room.splitter.decisions.lookup key).bind Decision.flow
  let entry : Decision :=
    { route := decision.route, lastSeenMs := nowMs, flow := opened.1
      voidedBy := decision.voidedBy }
  { room with
    splitter := opened.2.splitter.insert key entry nowMs
    table := replaced.elim room.table room.table.release }

/-- `count_up`. -/
def countUp (i : Ingress) (key : FlowKey) (bytes : Nat) : Ingress :=
  match i.table.lookup key with
  | some flow => { i with flows := i.flows.modify flow fun f => f.addUp bytes }
  | none => i

end Ingress

/-! ## The loop -/

/-- A packet handed to one of the two channels or dropped, and the row its entry
in the splitter holds. -/
structure Handed where
  key : FlowKey
  route : PacketRoute
  length : Nat
  owner : Option Nat
  deriving DecidableEq

inductive Phase where
  | waiting
  | deciding (key : FlowKey) (length nowMs : Nat)
  deriving DecidableEq

structure World where
  ingress : Ingress
  cancelled : List Nat := []
  phase : Phase := .waiting
  seen : FlowKey → Option Nat := fun _ => none
  handed : List Handed := []

inductive Action where
  | packet (bytes : Packet) (nowMs : Nat)
  | decided (decision : PacketDecision)
  | cancelPolicy (token : Nat)
  | revokeFlow (flow : Nat)

namespace World

/-- The row the entry of a five-tuple holds. -/
def owner (w : World) (key : FlowKey) : Option Nat :=
  ((w.ingress.splitter.decisions.lookup key).bind Decision.flow).map FlowHandle.flow

/-- A route is settled and the packet goes its way. -/
def handOver (w : World) (key : FlowKey) (length : Nat) (route : PacketRoute) : World :=
  { w with
    ingress := if route = .tunnel then w.ingress.countUp key length else w.ingress
    phase := .waiting
    handed := ⟨key, route, length, w.owner key⟩ :: w.handed }

def apply (w : World) : Action → World
  | .packet bytes nowMs =>
    match w.phase, FlowKey.fromPacket bytes with
    | .waiting, some key =>
      let found := w.ingress.lookup w.cancelled key nowMs
      let w := { w with
        ingress := found.2
        seen := Function.update w.seen key (some nowMs) }
      match found.1 with
      | some route => w.handOver key bytes.length route
      | none => { w with phase := .deciding key bytes.length nowMs }
    | _, _ => w
  | .decided decision =>
    match w.phase with
    | .deciding key length nowMs =>
      { w with ingress := w.ingress.insert key decision nowMs }.handOver key length
        decision.route
    | .waiting => w
  | .cancelPolicy token => { w with cancelled := token :: w.cancelled }
  | .revokeFlow flow =>
    { w with ingress := { w.ingress with revoked := flow :: w.ingress.revoked } }

def Initial (w : World) : Prop :=
  ∃ capacity idleTimeoutMs cancelled, w =
    { ingress := { splitter := PacketSplitter.new capacity idleTimeoutMs }, cancelled := cancelled }

end World

end Foxcore.Ref.Split
