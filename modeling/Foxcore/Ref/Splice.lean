import Foxcore.Lib.Command

/-!
# The relay that can leave the record layer

`relay` of `splice.rs`, between an application and a network. One `poll` is one
wakeup of its task: `select!` polls the two reads in either order and takes the
first that is ready, and what the other has under way is dropped. What the reads
give and whether writes go through is up to the surroundings. The record layer
and the codec inside it are parameters, as they are there.

`uplinks`, `delivered`, `asked` and `asleep` keep book: what was handed to the
network, by which call of the codec and in which state, what the application got,
when it was first asked for something, and when the task last went to sleep.
-/

namespace Foxcore.Ref.Splice

open Lib Lib.Command

abbrev Bytes := List UInt8

inductive IoError where
  | invalidData (message : String)
  | other
  deriving DecidableEq

class RecordLayer (ℓ : Type) where
  /-- Takes as many of the bytes as it answers. -/
  readTls : ℓ → Bytes → Except IoError (Nat × ℓ)
  processNewPackets : ℓ → Except IoError ℓ
  readPlaintext : ℓ → Except IoError (Bytes × Bool × ℓ)
  writePlaintext : ℓ → Bytes → Except IoError ℓ
  writeTls : ℓ → Except IoError (Bytes × ℓ)
  sendCloseNotify : ℓ → ℓ

class InnerCodec (γ : Type) where
  firstWriteDelay : γ → Option Nat
  onFirstWriteTimeout : γ → Except IoError (Bytes × γ)
  uplink : γ → Bytes → Except IoError (Bytes × Bool × γ)
  downlink : γ → Bytes → Except IoError (Bytes × Bool × γ)

def maxRecordLen : Nat := 5 + 2 ^ 14 + 256

def tlsRecordHeaderLen : Nat := 5

/-- What goes to the network for one call of the codec, or for the end. -/
inductive Uplink where
  | timeout (wire : Bytes)
  | data (bytes wire : Bytes)
  | close (wire : Bytes)
  deriving DecidableEq

/-- What the branches of the loop work on. -/
structure Pipes (ℓ γ : Type) where
  layer : ℓ
  codec : γ
  inbound : Bytes := []
  uplinkDirect : Bool := false
  downlinkDirect : Bool := false
  delivered : Bytes := []

structure Relay (ℓ γ : Type) where
  pipes : Pipes ℓ γ
  firstWriteDelay : Option Nat
  /-- The read of the application under way, and its deadline if it has one. -/
  reading : Option (Option Nat) := none
  ended : Bool := false
  uplinks : List (Pipes ℓ γ × Uplink) := []
  asked : Option Nat := none
  asleep : Option Nat := none

/-- What one wakeup finds. A read that is not ready is `none`; one of no bytes is
the end of the stream. -/
structure Poll where
  now : Nat
  appFirst : Bool
  application : Option (Except IoError Bytes) := none
  network : Option (Except IoError Bytes) := none
  applicationWrites : Bool := true
  networkWrites : Bool := true

abbrev RelayM (ℓ γ α : Type) : Type := Command (Pipes ℓ γ) IoError α

/-- `record_length`. -/
def recordLength (buffer : Bytes) : Except IoError (Option Nat) :=
  match buffer with
  | _ :: _ :: _ :: hi :: lo :: _ =>
    let length := tlsRecordHeaderLen + (hi.toNat * 256 + lo.toNat)
    if length > maxRecordLen then
      .error (.invalidData "TLS record longer than the protocol allows")
    else if buffer.length < length then .ok none
    else .ok (some length)
  | _ => .ok none

namespace Pipes

variable {ℓ γ : Type}

/-- `write_all` to the application. -/
def deliver (p : Poll) (bytes : Bytes) : RelayM ℓ γ Unit :=
  if p.applicationWrites then modify fun w => { w with delivered := w.delivered ++ bytes }
  else throw .other

/-- `write_all` to the network. A write that fails is not booked. -/
def send (p : Poll) (wire : Bytes) : RelayM ℓ γ Unit :=
  if wire.isEmpty || p.networkWrites then pure () else throw .other

section Layer

variable [RecordLayer ℓ]

/-- What the record layer makes of the bytes of the codec. -/
def sealed (framed : Bytes) : RelayM ℓ γ Bytes := do
  if framed.isEmpty then return []
  let w ← get
  let layer ← give (RecordLayer.writePlaintext w.layer framed)
  let (wire, layer) ← give (RecordLayer.writeTls layer)
  modify fun w => { w with layer }
  return wire

/-- A whole record, given to the record layer. -/
def feedRecord : Nat → Bytes → RelayM ℓ γ Unit
  | 0, _ => pure ()
  | fuel + 1, record => do
    if record.isEmpty then return
    let w ← get
    let (taken, layer) ← give (RecordLayer.readTls w.layer record)
    modify fun w => { w with layer }
    if taken = 0 then
      throw (.invalidData "record layer stopped consuming a complete record")
    feedRecord fuel (record.drop taken)

variable [InnerCodec γ]

/-- `drain_downlink`. -/
def drainDownlink (p : Poll) : RelayM ℓ γ Bool := do
  let w ← get
  let (scratch, closed, layer) ← give (RecordLayer.readPlaintext w.layer)
  modify fun w => { w with layer }
  if scratch.isEmpty then return closed
  let (framed, switch, codec) ← give (InnerCodec.downlink w.codec scratch)
  modify fun w => { w with codec }
  if !framed.isEmpty then deliver p framed
  modify fun w => { w with downlinkDirect := w.downlinkDirect || switch }
  return closed

/-- `feed_records`, with a record taken out of the buffer when it has been fed. -/
def feedRecords (p : Poll) : Nat → RelayM ℓ γ Bool
  | 0 => return false
  | fuel + 1 => do
    let w ← get
    match ← give (recordLength w.inbound) with
    | none => return false
    | some length =>
      feedRecord length (w.inbound.take length)
      modify fun w => { w with inbound := w.inbound.drop length }
      let w ← get
      let layer ← give (RecordLayer.processNewPackets w.layer)
      modify fun w => { w with layer }
      let closed ← drainDownlink p
      let w ← get
      if w.downlinkDirect || closed then return closed
      feedRecords p fuel

/-- What `read_app` comes to. -/
inductive AppRead where
  | data (bytes : Bytes)
  | idle
  | eof

def classify (bytes : Bytes) : AppRead := if bytes.isEmpty then .eof else .data bytes

/-- The first branch of the loop: what it hands to the network, and whether the
relay is over. -/
def onApplication (p : Poll) : AppRead → RelayM ℓ γ (Option Uplink × Bool)
  | .eof => do
    let w ← get
    if w.uplinkDirect then return (none, true)
    let (wire, layer) ← give (RecordLayer.writeTls (RecordLayer.sendCloseNotify w.layer))
    modify fun w => { w with layer }
    -- whether this last write goes through makes no difference
    return (some (.close wire), true)
  | .idle => do
    let w ← get
    let (framed, codec) ← give (InnerCodec.onFirstWriteTimeout w.codec)
    modify fun w => { w with codec }
    let wire ← sealed framed
    send p wire
    return (some (.timeout wire), false)
  | .data bytes => do
    let w ← get
    if w.uplinkDirect then
      send p bytes
      return (some (.data bytes bytes), false)
    let (framed, switch, codec) ← give (InnerCodec.uplink w.codec bytes)
    modify fun w => { w with codec }
    let wire ← sealed framed
    send p wire
    modify fun w => { w with uplinkDirect := w.uplinkDirect || switch }
    return (some (.data bytes wire), false)

/-- The second branch. -/
def onNetwork (p : Poll) (bytes : Bytes) : RelayM ℓ γ (Option Uplink × Bool) := do
  if bytes.isEmpty then return (none, true)
  let w ← get
  if w.downlinkDirect then
    deliver p bytes
    return (none, false)
  modify fun w => { w with inbound := w.inbound ++ bytes }
  let closed ← feedRecords p (w.inbound.length + bytes.length)
  let w ← get
  if w.downlinkDirect && !w.inbound.isEmpty then
    deliver p w.inbound
    modify fun w => { w with inbound := [] }
  return (none, closed)

end Layer

end Pipes

namespace Relay

open Pipes

variable {ℓ γ : Type}

/-- `read_app` begins: it takes the delay, if that is still there. -/
def ask (w : Relay ℓ γ) (now : Nat) : Relay ℓ γ :=
  match w.reading with
  | some _ => w
  | none =>
    { w with
      reading := some (w.firstWriteDelay.map (now + ·))
      firstWriteDelay := none
      asked := w.asked <|> some now }

/-- `read_app` is polled. The application comes before the deadline. -/
def readApp (w : Relay ℓ γ) (p : Poll) : Option (Except IoError AppRead) :=
  match p.application with
  | some read => some (read.map classify)
  | none => if w.reading.join.any (· ≤ p.now) then some (.ok .idle) else none

/-- One branch is done, and the read of the application is dropped. -/
def finish (w : Relay ℓ γ) (branch : RelayM ℓ γ (Option Uplink × Bool)) : Relay ℓ γ :=
  let (answer, pipes) := branch.exec w.pipes
  match answer with
  | .ok (uplink, ended) =>
    { w with
      pipes, ended, reading := none, uplinks := w.uplinks ++ uplink.toList.map (w.pipes, ·) }
  | .error _ => { w with pipes, ended := true, reading := none }

variable [RecordLayer ℓ] [InnerCodec γ]

def poll (w : Relay ℓ γ) (p : Poll) : Relay ℓ γ :=
  if w.ended then w
  else if p.appFirst then
    match (w.ask p.now).readApp p with
    | some read => (w.ask p.now).finish (give read >>= onApplication p)
    | none =>
      match p.network with
      | some read => (w.ask p.now).finish (give read >>= onNetwork p)
      | none => { w.ask p.now with asleep := some p.now }
  else
    match p.network with
    | some read => w.finish (give read >>= onNetwork p)
    | none =>
      match (w.ask p.now).readApp p with
      | some read => (w.ask p.now).finish (give read >>= onApplication p)
      | none => { w.ask p.now with asleep := some p.now }

/-- The relay up to its loop. -/
def start (p : Poll) (layer : ℓ) (codec : γ) : Relay ℓ γ :=
  finish { pipes := { layer, codec }, firstWriteDelay := InnerCodec.firstWriteDelay codec } do
    let closed ← drainDownlink p
    return (none, closed)

end Relay

end Foxcore.Ref.Splice
