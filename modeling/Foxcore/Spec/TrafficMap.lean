import Foxcore.Ref.TrafficMap

/-!
# What a snapshot should say

A package is owed the bytes of every flow it owns, in all and for each lane, in
either direction. `Column` is one of these numbers. `Report.due` adds up, for
one package, what every flow had carried when the snapshot came to it; nothing in
it is rounded or left out.
-/

namespace Foxcore.Spec.Traffic

open Ref.Traffic

inductive Direction where
  | up
  | down
  deriving DecidableEq

/-- The bytes in one direction, by one lane or by any. -/
structure Column where
  lane : Option FlowLane
  direction : Direction
  deriving DecidableEq

def pick (bytes : Bytes) : Direction → Nat
  | .up => bytes.up
  | .down => bytes.down

/-- Whether bytes by a lane count in a column. -/
def Column.covers (column : Column) (lane : FlowLane) : Bool := column.lane.all (· = lane)

/-- What of a flow's bytes belongs to a package. -/
def share (flow : LiveFlow) (bytes : Bytes) (package : String) (column : Column) : Nat :=
  if package ∈ flow.packages ∧ column.covers flow.lane then pick bytes column.direction else 0

def Sight.share (sight : Sight) (package : String) (column : Column) : Nat :=
  Traffic.share sight.flow sight.carried package column

/-- A package that is not in the snapshot, and a lane that is not in its split,
have no bytes. -/
def reported (snapshot : TrafficSnapshot) (package : String) (column : Column) : Nat :=
  match snapshot.packages.find? (·.package = package) with
  | none => 0
  | some traffic =>
    match column.lane with
    | none => pick ⟨traffic.bytesUp, traffic.bytesDown⟩ column.direction
    | some lane =>
      match traffic.lanes.find? (·.lane = lane) with
      | none => 0
      | some split => pick ⟨split.bytesUp, split.bytesDown⟩ column.direction

/-- The bytes of all flows of a package, each as the snapshot found it. -/
def Report.due (report : Report) (package : String) (column : Column) : Nat :=
  ∑ id ∈ Finset.range report.opened, Sight.share (report.looked id) package column

/-- No flow with bytes of the package was between losing its row and being
settled, and the bytes fit into the counter. -/
def Report.Complete (report : Report) (package : String) (column : Column) : Prop :=
  (∀ id < report.opened, report.between id = true →
    Sight.share (report.looked id) package column = 0) ∧
  Report.due report package column < 2 ^ 64

end Foxcore.Spec.Traffic
