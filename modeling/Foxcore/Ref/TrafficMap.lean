import Foxcore.Lib.System
import Foxcore.Lib.HashMap

/-!
# The traffic map

Which app moves how many bytes by which way. A flow has a row while it is open;
when it ends, its bytes go to the totals of its packages. A snapshot adds up the
totals of the closed flows and the rows.

An action of the world is what a thread does from one lock to the next: a
snapshot takes the lock of the rows, copies the settled totals, and looks at one
row after the other with the first lock held all the while; a flow that is
dropped loses its row under one lock and is settled under another. An action that
has to wait for a lock leaves the world as it is. Addresses and ages of flows and
the queue of events are left out.

Beside what the program keeps, the world keeps how many bytes each flow has
carried, and for every snapshot what each flow had carried when the snapshot came
to it.
-/

namespace Foxcore.Ref.Traffic

open Lib

inductive FlowLane where
  | vpn
  | tor
  | i2p
  | direct
  deriving DecidableEq

/-- `LANES`. -/
def allLanes : List FlowLane := [.vpn, .tor, .i2p, .direct]

/-- `u64::saturating_add`. -/
def saturatingAdd (a b : Nat) : Nat := min (a + b) (2 ^ 64 - 1)

/-- `AtomicU64::fetch_add`. -/
def wrappingAdd (a b : Nat) : Nat := (a + b) % 2 ^ 64

/-! ## Totals -/

structure Bytes where
  up : Nat := 0
  down : Nat := 0
  deriving DecidableEq

def Bytes.add (bytes : Bytes) (up down : Nat) : Bytes :=
  ⟨saturatingAdd bytes.up up, saturatingAdd bytes.down down⟩

structure PackageTotals where
  total : Bytes := {}
  lanes : FlowLane → Bytes := fun _ => {}

def PackageTotals.add (totals : PackageTotals) (lane : FlowLane) (up down : Nat) :
    PackageTotals where
  total := totals.total.add up down
  lanes other := if other = lane then (totals.lanes lane).add up down else totals.lanes other

abbrev Totals : Type := HashMap String PackageTotals

/-- The bytes of a flow in the totals of each of its packages. -/
def Totals.credit (totals : Totals) (packages : List String) (lane : FlowLane) (up down : Nat) :
    Totals :=
  packages.foldl (fun totals package =>
    totals.upsert package fun entry => (entry.getD {}).add lane up down) totals

structure LaneCounters where
  up : Nat := 0
  down : Nat := 0
  opened : Nat := 0
  closed : Nat := 0
  deriving DecidableEq

/-! ## Flows -/

structure LiveFlow where
  lane : FlowLane
  packages : List String
  uid : Option Nat
  up : Nat := 0
  down : Nat := 0
  deriving DecidableEq

namespace LiveFlow

def addUp (flow : LiveFlow) (bytes : Nat) : LiveFlow :=
  { flow with up := wrappingAdd flow.up bytes }

def addDown (flow : LiveFlow) (bytes : Nat) : LiveFlow :=
  { flow with down := wrappingAdd flow.down bytes }

/-- An owner that is known stays. -/
def setIdentity (flow : LiveFlow) (uid : Option Nat) (packages : List String) : LiveFlow :=
  if flow.packages.isEmpty && flow.uid.isNone then { flow with packages, uid } else flow

end LiveFlow

/-! ## Snapshots -/

structure ConnectionRow where
  id : Nat
  lane : FlowLane
  packages : List String
  uid : Option Nat
  bytesUp : Nat
  bytesDown : Nat
  deriving DecidableEq

def LiveFlow.snapshot (flow : LiveFlow) (id : Nat) : ConnectionRow :=
  { id, lane := flow.lane, packages := flow.packages, uid := flow.uid, bytesUp := flow.up,
    bytesDown := flow.down }

structure PackageLaneTraffic where
  lane : FlowLane
  bytesUp : Nat
  bytesDown : Nat
  deriving DecidableEq

structure PackageTraffic where
  package : String
  bytesUp : Nat
  bytesDown : Nat
  lanes : List PackageLaneTraffic
  deriving DecidableEq

structure LaneTraffic where
  lane : FlowLane
  bytesUp : Nat
  bytesDown : Nat
  flowsOpened : Nat
  flowsLive : Nat
  deriving DecidableEq

structure TrafficSnapshot where
  connections : List ConnectionRow
  packages : List PackageTraffic
  lanes : List LaneTraffic
  omittedRows : Nat
  deriving DecidableEq

/-- Lanes without bytes are left out. -/
def packageTraffic (package : String) (totals : PackageTotals) : PackageTraffic where
  package
  bytesUp := totals.total.up
  bytesDown := totals.total.down
  lanes := allLanes.filterMap fun lane =>
    let bytes := totals.lanes lane
    if bytes.up ≠ 0 ∨ bytes.down ≠ 0 then some ⟨lane, bytes.up, bytes.down⟩ else none

def laneTraffic (counters : FlowLane → LaneCounters) : List LaneTraffic :=
  allLanes.map fun lane =>
    let c := counters lane
    ⟨lane, c.up, c.down, c.opened, c.opened - c.closed⟩

/-- Busiest first, and then by number. -/
def rowBefore (left right : ConnectionRow) : Prop :=
  let leftTotal := saturatingAdd left.bytesUp left.bytesDown
  let rightTotal := saturatingAdd right.bytesUp right.bytesDown
  rightTotal < leftTotal ∨ rightTotal = leftTotal ∧ left.id ≤ right.id

instance : DecidableRel rowBefore := fun left right =>
  inferInstanceAs (Decidable (_ ∨ _ ∧ left.id ≤ right.id))

/-- Busiest first, and then by name. -/
def packageBefore (left right : PackageTraffic) : Prop :=
  let leftTotal := saturatingAdd left.bytesUp left.bytesDown
  let rightTotal := saturatingAdd right.bytesUp right.bytesDown
  rightTotal < leftTotal ∨ rightTotal = leftTotal ∧ left.package ≤ right.package

instance : DecidableRel packageBefore := fun left right =>
  inferInstanceAs (Decidable (_ ∨ _ ∧ left.package ≤ right.package))

/-- What a snapshot answers when it has been over all rows. -/
def render (rows : Nat) (totals : Totals) (connections : List ConnectionRow)
    (counters : FlowLane → LaneCounters) : TrafficSnapshot where
  connections := (connections.insertionSort rowBefore).take rows
  packages := (totals.entries.map fun entry => packageTraffic entry.1 entry.2).insertionSort
    packageBefore
  lanes := laneTraffic counters
  omittedRows := connections.length - rows

/-! ## The world -/

/-- How far a flow has come. -/
inductive Stage where
  /-- There is no such flow. -/
  | unborn
  /-- It has a number and no row. -/
  | opening
  | live
  /-- Its drop has begun. -/
  | dropping
  /-- Its row is gone, and these bytes have to be settled. -/
  | removed (up down : Nat)
  | settled
  deriving DecidableEq

/-- A flow as someone looks at it, and how many bytes it has carried. -/
structure Sight where
  flow : LiveFlow
  carried : Bytes

/-- A snapshot that holds the lock of the rows. -/
structure Progress where
  totals : Totals
  connections : List ConnectionRow
  remaining : List Nat
  /-- The flows that are numbered below this are looked at. -/
  opened : Nat
  looked : Nat → Sight
  /-- The flows that had lost their row and were not settled when the totals were
  copied. -/
  between : Nat → Bool

inductive Reader where
  | none
  /-- The lock of the rows is taken and the totals are not copied yet. -/
  | locked
  | reading (progress : Progress)

/-- A snapshot that was answered, and what it looked at. -/
structure Report where
  snapshot : TrafficSnapshot
  opened : Nat
  looked : Nat → Sight
  between : Nat → Bool

structure World where
  rows : Nat
  /-- A `u64`, taken not to wrap. -/
  nextId : Nat
  live : List Nat
  closed : Totals
  counters : FlowLane → LaneCounters
  flows : Nat → LiveFlow
  stage : Nat → Stage
  reader : Reader
  carried : Nat → Bytes
  reports : List Report

namespace World

def lookAt (w : World) (id : Nat) : Sight := ⟨w.flows id, w.carried id⟩

def count (w : World) (lane : FlowLane) (f : LaneCounters → LaneCounters) : World :=
  { w with counters := fun other => if other = lane then f (w.counters lane) else w.counters other }

def setStage (w : World) (id : Nat) (stage : Stage) : World :=
  { w with stage := Function.update w.stage id stage }

def setFlow (w : World) (id : Nat) (flow : LiveFlow) : World :=
  { w with flows := Function.update w.flows id flow }

def carry (w : World) (id up down : Nat) : World :=
  { w with
    carried := Function.update w.carried id ⟨(w.carried id).up + up, (w.carried id).down + down⟩ }

/-- The beginning of `open`: everything but the row. -/
def openFlow (w : World) (lane : FlowLane) (packages : List String) (uid : Option Nat) : World :=
  let id := w.nextId
  let w := { w with nextId := id + 1 }
  ((w.setFlow id { lane, packages, uid }).setStage id .opening).count lane fun c =>
    { c with opened := wrappingAdd c.opened 1 }

/-- Whether nobody holds the lock of the rows. -/
def liveFree (w : World) : Bool := w.reader matches .none

/-- The end of `open`. Rows are ordered by number. -/
def insertRow (w : World) (id : Nat) : World :=
  if w.liveFree && w.stage id = .opening then
    { w with live := w.live.orderedInsert (· ≤ ·) id }.setStage id .live
  else w

def addUp (w : World) (id bytes : Nat) : World :=
  ((w.setFlow id ((w.flows id).addUp bytes)).count (w.flows id).lane fun c =>
    { c with up := wrappingAdd c.up bytes }).carry id bytes 0

def addDown (w : World) (id bytes : Nat) : World :=
  ((w.setFlow id ((w.flows id).addDown bytes)).count (w.flows id).lane fun c =>
    { c with down := wrappingAdd c.down bytes }).carry id 0 bytes

def setIdentity (w : World) (id : Nat) (uid : Option Nat) (packages : List String) : World :=
  w.setFlow id ((w.flows id).setIdentity uid packages)

/-- A handle is dropped. -/
def drop (w : World) (id : Nat) : World :=
  if w.stage id = .live then w.setStage id .dropping else w

/-- The first part of `close`, up to where the bytes are settled. A flow without
bytes has nothing to settle. -/
def removeRow (w : World) (id : Nat) : World :=
  if w.liveFree && w.stage id = .dropping then
    let flow := w.flows id
    ({ w with live := w.live.erase id }.count flow.lane fun c =>
      { c with closed := wrappingAdd c.closed 1 }).setStage id
      (if flow.up = 0 ∧ flow.down = 0 then .settled else .removed flow.up flow.down)
  else w

/-- The end of `close`. -/
def settle (w : World) (id : Nat) : World :=
  match w.stage id with
  | .removed up down =>
    let flow := w.flows id
    { w with closed := w.closed.credit flow.packages flow.lane up down }.setStage id .settled
  | _ => w

/-- The beginning of `snapshot`. -/
def lockLive (w : World) : World :=
  if w.liveFree then { w with reader := .locked } else w

def cloneClosed (w : World) : World :=
  match w.reader with
  | .locked =>
    { w with
      reader := .reading
        { totals := w.closed, connections := [], remaining := w.live, opened := w.nextId,
          looked := w.lookAt, between := fun id => w.stage id matches .removed _ _ } }
  | _ => w

/-- The loop of `snapshot` comes to a row. -/
def visit (w : World) : World :=
  match w.reader with
  | .reading progress =>
    match progress.remaining with
    | [] => w
    | id :: rest =>
      let row := (w.flows id).snapshot id
      { w with
        reader := .reading
          { progress with
            totals := progress.totals.credit row.packages row.lane row.bytesUp row.bytesDown
            connections := progress.connections ++ [row], remaining := rest
            looked := Function.update progress.looked id (w.lookAt id) } }
  | _ => w

/-- The end of `snapshot`. -/
def finish (w : World) : World :=
  match w.reader with
  | .reading progress =>
    match progress.remaining with
    | [] =>
      { w with
        reader := .none
        reports := w.reports ++
          [{ snapshot := render w.rows progress.totals progress.connections w.counters
             opened := progress.opened, looked := progress.looked
             between := progress.between }] }
    | _ :: _ => w
  | _ => w

inductive Action where
  | openFlow (lane : FlowLane) (packages : List String) (uid : Option Nat)
  | insertRow (id : Nat)
  | addUp (id bytes : Nat)
  | addDown (id bytes : Nat)
  | setIdentity (id : Nat) (uid : Option Nat) (packages : List String)
  | drop (id : Nat)
  | removeRow (id : Nat)
  | settle (id : Nat)
  | lockLive
  | cloneClosed
  | visit
  | finish
  deriving DecidableEq

def apply (w : World) : Action → World
  | .openFlow lane packages uid => w.openFlow lane packages uid
  | .insertRow id => w.insertRow id
  | .addUp id bytes => w.addUp id bytes
  | .addDown id bytes => w.addDown id bytes
  | .setIdentity id uid packages => w.setIdentity id uid packages
  | .drop id => w.drop id
  | .removeRow id => w.removeRow id
  | .settle id => w.settle id
  | .lockLive => w.lockLive
  | .cloneClosed => w.cloneClosed
  | .visit => w.visit
  | .finish => w.finish

/-- `TrafficMap::new`. -/
def new (rows : Nat) : World where
  rows := max rows 1
  nextId := 1
  live := []
  closed := ∅
  counters _ := {}
  flows _ := ⟨.vpn, [], none, 0, 0⟩
  stage _ := .unborn
  reader := .none
  carried _ := {}
  reports := []

/-- Packages are not repeated, and what is done to a flow is done while its
handle is held: its owner is not set and no bytes are added once its drop has
begun. -/
def Proper (w : World) : Action → Prop
  | .openFlow _ packages _ => packages.Nodup
  | .addUp id _ => w.stage id = .live
  | .addDown id _ => w.stage id = .live
  | .setIdentity id _ packages => w.stage id = .live ∧ packages.Nodup
  | _ => True

instance (w : World) : (action : Action) → Decidable (w.Proper action)
  | .openFlow _ packages _ => inferInstanceAs (Decidable packages.Nodup)
  | .addUp id _ => inferInstanceAs (Decidable (w.stage id = .live))
  | .addDown id _ => inferInstanceAs (Decidable (w.stage id = .live))
  | .setIdentity id _ packages =>
    inferInstanceAs (Decidable (w.stage id = .live ∧ packages.Nodup))
  | .insertRow _ | .drop _ | .removeRow _ | .settle _ | .lockLive | .cloneClosed | .visit
  | .finish =>
    .isTrue trivial

end World

end Foxcore.Ref.Traffic
