import Foxcore.Lib.System
import Mathlib

/-!
# A group of proxy nodes with one active member

Which member is active is written down with a revision. An odd revision is a
reservation: somebody is about to replace the active member and asks whether it
may. Selecting a member, reserving and giving a reservation up are sections under
one lock; everything else happens between them.

A failover walks over the members from the active one. A probe measures all of
them and promotes the fastest. Both are rounds here that go on one section or one
answer from outside at a time, and that may be dropped wherever they are: what a
member answers, whether the interruption is permitted and how long a member takes
are inputs. A round keeps when it read the selection, counted in selections made
since, whether there was someone to ask when it reserved, and whether it asked for
a permit and was granted one.
-/

namespace Foxcore.Ref.Selector

/-- `u64::wrapping_add`. -/
def wrappingAdd (a b : Nat) : Nat := (a + b) % 2 ^ 64

inductive ErrorKind where
  | invalidInput
  | interrupted
  | permissionDenied
  | timedOut
  | notConnected
  | other (code : Nat)
  deriving DecidableEq

structure IoError where
  kind : ErrorKind
  message : String
  deriving DecidableEq

/-! ## The selection -/

structure Group where
  members : List String
  active : Nat
  selectionRevision : Nat
  /-- Whether there is someone to ask before a member is replaced. -/
  interruption : Bool
  deriving DecidableEq

/-- A reservation that has not been finished. -/
structure SelectionReservation where
  active : Nat
  revision : Nat
  deriving DecidableEq

namespace Group

def new (members : List String) (default : Option String) (interruption : Bool) :
    Except IoError Group :=
  if members.isEmpty then .error ⟨.invalidInput, "selector must contain at least one member"⟩
  else
    match default with
    | none => .ok { members, active := 0, selectionRevision := 0, interruption }
    | some id =>
      match members.findIdx? (· = id) with
      | some active => .ok { members, active, selectionRevision := 0, interruption }
      | none => .error ⟨.invalidInput, "selector default is not one of its members"⟩

/-- Pin a member. A member that is active already is not selected again, but a
reservation is cancelled in any case. -/
def select (g : Group) (id : String) : Bool × Group :=
  match g.members.findIdx? (· = id) with
  | none => (false, g)
  | some index =>
    let revision := g.selectionRevision
    if g.active ≠ index ∨ revision % 2 ≠ 0 then
      (true, { g with
        active := index
        selectionRevision := wrappingAdd revision (if revision % 2 = 0 then 2 else 1) })
    else (true, g)

def selection (g : Group) : Nat × Nat := (g.active, g.selectionRevision)

def selectionIs (g : Group) (active revision : Nat) : Bool :=
  g.active = active && g.selectionRevision = revision

def reserve (g : Group) (active revision : Nat) : Option SelectionReservation × Group :=
  if g.active ≠ active ∨ g.selectionRevision ≠ revision ∨ revision % 2 ≠ 0 then (none, g)
  else
    let reserved := wrappingAdd revision 1
    (some { active, revision := reserved }, { g with selectionRevision := reserved })

def finishReservation (g : Group) (active reserved : Nat) (winner : Option Nat) : Bool × Group :=
  if g.active ≠ active ∨ g.selectionRevision ≠ reserved ∨ reserved % 2 = 0 then (false, g)
  else
    (true, { g with
      active := winner.getD g.active, selectionRevision := wrappingAdd reserved 1 })

end Group

/-! ## Rounds -/

/-- What a round knows of the selection. -/
structure Turn where
  active : Nat := 0
  revision : Nat := 0
  reservation : Option SelectionReservation := none
  read : Bool := false
  /-- How many selections there had been when it was read. -/
  readAt : Nat := 0
  deriving DecidableEq

/-- What comes of building a member and trying it. -/
inductive Reply (τ : Type) where
  | unbuilt (error : IoError)
  | timedOut
  | tried (result : Except IoError τ)

def Reply.result {τ : Type} : Reply τ → Except IoError τ
  | .unbuilt error => .error error
  | .timedOut => .error ⟨.timedOut, "selector member connect timed out"⟩
  | .tried result => result

inductive Input (τ : Type) where
  /-- Go on to the end of the next section. -/
  | run
  | reply (reply : Reply τ)
  | permit (granted : Bool)
  | measured (latencies : List (Option Nat))
  /-- The round is dropped. -/
  | cancel

/-- How a failover ends. A value comes with the member it was obtained from. -/
inductive Outcome (τ : Type) where
  | ok (value : τ) (member : Nat)
  | failed (error : IoError)
  | cancelled
  | panicked

/-- Where a failover is. -/
inductive Phase (τ : Type) where
  | begun
  | attempting (offset : Nat)
  | reserving
  | reserved
  | asking
  | confirming
  | answered (offset : Nat) (value : τ)
  /-- It is over but for its reservation. -/
  | releasing (outcome : Outcome τ)
  | done (outcome : Outcome τ)

structure Failover (τ : Type) where
  phase : Phase τ := .begun
  turn : Turn := {}
  lastError : Option IoError := none
  /-- Whether there was someone to ask when it reserved. -/
  sunk : Bool := false
  asked : Bool := false
  granted : Bool := false

namespace Failover

variable {τ : Type}

/-- The end of the function, where a reservation is dropped. -/
def leave (f : Failover τ) (outcome : Outcome τ) : Failover τ :=
  { f with phase := if f.turn.reservation.isSome then .releasing outcome else .done outcome }

/-- A member's error, with its name. -/
def memberFailed (g : Group) (index : Nat) (error : IoError) : IoError :=
  ⟨error.kind,
    "selector member '" ++ (g.members[index]?).getD "" ++ "' failed: " ++ error.message⟩

/-- The rest of the loop when the member at an offset has failed. -/
def next (g : Group) (f : Failover τ) (offset : Nat) : Failover τ :=
  if offset + 1 < g.members.length then
    { f with phase := if offset = 0 then .reserving else .attempting (offset + 1) }
  else f.leave (.failed (f.lastError.getD ⟨.notConnected, "selector has no reachable member"⟩))

def step (g : Group) (selects : Nat) (f : Failover τ) (input : Input τ) : Group × Failover τ :=
  let index := fun offset => (f.turn.active + offset) % g.members.length
  match f.phase, input with
  | .begun, .run =>
    let (start, revision) := g.selection
    let turn := { active := start % g.members.length, revision, read := true, readAt := selects }
    if revision % 2 ≠ 0 then
      (g, { f with
        turn
        phase := .done (.failed ⟨.interrupted, "selector transition is already pending"⟩) })
    else (g, { f with turn, phase := .attempting 0 })
  | .attempting offset, .reply reply =>
    match reply.result with
    | .ok value => (g, { f with phase := .answered offset value })
    | .error error =>
      (g, next g { f with lastError := some (memberFailed g (index offset) error) } offset)
  | .reserving, .run =>
    match g.reserve f.turn.active f.turn.revision with
    | (none, g) =>
      (g, { f with phase := .done (.failed ⟨.interrupted, "selector changed before failover"⟩) })
    | (some reservation, g') =>
      (g', { f with
        turn := { f.turn with reservation := some reservation }
        sunk := g.interruption, phase := .reserved })
  | .reserved, .run =>
    if g.interruption then (g, { f with asked := true, phase := .asking })
    else (g, { f with phase := .confirming })
  | .asking, .permit granted =>
    if granted then (g, { f with granted := true, phase := .confirming })
    else
      (g, f.leave (.failed
        ⟨.permissionDenied, "selector failover confirmation became stale"⟩))
  | .confirming, .run =>
    if f.turn.reservation.any fun r => g.selectionIs f.turn.active r.revision then
      (g, { f with phase := .attempting 1 })
    else
      (g, f.leave (.failed ⟨.interrupted, "selector changed while failover was pending"⟩))
  | .answered offset value, .run =>
    if offset ≠ 0 then
      match f.turn.reservation with
      | none => (g, { f with phase := .done .panicked })
      | some r =>
        let (finished, g) := g.finishReservation r.active r.revision (some (index offset))
        (g, { f with
          turn := { f.turn with reservation := none }
          phase := .done (if finished then .ok value (index offset)
            else .failed ⟨.interrupted, "selector changed during failover"⟩) })
    else if g.selectionIs f.turn.active f.turn.revision then
      (g, { f with phase := .done (.ok value (index offset)) })
    else
      (g, { f with phase := .done (.failed ⟨.interrupted, "selector changed during connect"⟩) })
  | .releasing outcome, .run =>
    match f.turn.reservation with
    | none => (g, { f with phase := .done outcome })
    | some r =>
      ((g.finishReservation r.active r.revision none).2,
        { f with turn := { f.turn with reservation := none }, phase := .done outcome })
  | .releasing _, _ => (g, f)
  | .done _, _ => (g, f)
  | _, .cancel => (g, f.leave .cancelled)
  | _, _ => (g, f)

end Failover

/-- Where a probe is. -/
inductive ProbePhase where
  | begun
  | measuring
  | reserving (winner : Nat)
  | reserved (winner : Nat)
  | asking (winner : Nat)
  | finishing (winner : Nat)
  | releasing
  | done
  deriving DecidableEq

structure Probe where
  phase : ProbePhase := .begun
  turn : Turn := {}
  tolerance : Nat
  deriving DecidableEq

/-- A working member is unseated only by a margin. -/
def pickWinner (active : Nat) (activeLatency : Option Nat) (best : Option (Nat × Nat))
    (tolerance : Nat) : Option Nat :=
  match best with
  | none => none
  | some (winner, latency) =>
    if winner = active then none
    else
      match activeLatency with
      | some current => if latency + tolerance < current then some winner else none
      | none => some winner

namespace Probe

/-- The loop over the members, for the fastest one. -/
def better (latencies : List (Option Nat)) (best : Option (Nat × Nat)) (index : Nat) :
    Option (Nat × Nat) :=
  match latencies[index]?.join with
  | none => best
  | some latency =>
    if best.all fun current => latency < current.2 then some (index, latency) else best

/-- The fastest of the members that have answered. -/
def best (latencies : List (Option Nat)) (count : Nat) : Option (Nat × Nat) :=
  (List.range count).foldl (better latencies) none

/-- The end of the function, where a reservation is dropped. -/
def leave (p : Probe) : Probe :=
  { p with phase := if p.turn.reservation.isSome then .releasing else .done }

def step {τ : Type} (g : Group) (selects : Nat) (p : Probe) (input : Input τ) : Group × Probe :=
  match p.phase, input with
  | .begun, .run =>
    let (active, revision) := g.selection
    let turn := { active, revision, read := true, readAt := selects }
    (g, { p with turn, phase := if revision % 2 ≠ 0 then .done else .measuring })
  | .measuring, .measured latencies =>
    let count := g.members.length
    let active := p.turn.active
    let activeLatency := if active < count then latencies[active]?.join else none
    match pickWinner active activeLatency (best latencies count) p.tolerance with
    | none => (g, { p with phase := .done })
    | some winner => (g, { p with phase := .reserving winner })
  | .reserving winner, .run =>
    match g.reserve p.turn.active p.turn.revision with
    | (none, g) => (g, { p with phase := .done })
    | (some reservation, g) =>
      (g, { p with
        turn := { p.turn with reservation := some reservation }, phase := .reserved winner })
  | .reserved winner, .run =>
    (g, { p with phase := if g.interruption then .asking winner else .finishing winner })
  | .asking winner, .permit granted =>
    if granted then (g, { p with phase := .finishing winner }) else (g, p.leave)
  | .finishing winner, .run =>
    match p.turn.reservation with
    | none => (g, { p with phase := .done })
    | some r =>
      ((g.finishReservation r.active r.revision (some winner)).2,
        { p with turn := { p.turn with reservation := none }, phase := .done })
  | .releasing, .run =>
    match p.turn.reservation with
    | none => (g, { p with phase := .done })
    | some r =>
      ((g.finishReservation r.active r.revision none).2,
        { p with turn := { p.turn with reservation := none }, phase := .done })
  | .releasing, _ => (g, p)
  | .done, _ => (g, p)
  | _, .cancel => (g, p.leave)
  | _, _ => (g, p)

end Probe

inductive Round (τ : Type) where
  | failover (f : Failover τ)
  | probe (p : Probe)

def Round.turn {τ : Type} : Round τ → Turn
  | .failover f => f.turn
  | .probe p => p.turn

def Round.step {τ : Type} (g : Group) (selects : Nat) (round : Round τ) (input : Input τ) :
    Group × Round τ :=
  match round with
  | .failover f => ((f.step g selects input).1, .failover (f.step g selects input).2)
  | .probe p => ((p.step g selects input).1, .probe (p.step g selects input).2)

/-! ## Runs -/

structure World (τ : Type) where
  group : Group
  rounds : List (Round τ)
  /-- How often a selection or a reservation was made. -/
  changes : Nat
  /-- How often a selection was made that counted. -/
  selects : Nat

namespace World

variable {τ : Type}

inductive Action (τ : Type) where
  | select (id : String)
  | setInterruptionSink
  | startFailover
  | startProbe (tolerance : Nat)
  | round (index : Nat) (input : Input τ)

/-- A section has left the group like this. A change from an odd revision ends what
an earlier change has begun. -/
def commit (w : World τ) (g : Group) : World τ :=
  { w with
    group := g
    changes := w.changes +
      if w.group.selectionRevision % 2 = 0 ∧ g.selectionRevision ≠ w.group.selectionRevision then 1
      else 0 }

def select (w : World τ) (id : String) : World τ :=
  let g := (w.group.select id).2
  { w.commit g with
    selects := w.selects + if g.selectionRevision ≠ w.group.selectionRevision then 1 else 0 }

def runRound (w : World τ) (index : Nat) (input : Input τ) : World τ :=
  match w.rounds[index]? with
  | none => w
  | some round =>
    let (g, round) := round.step w.group w.selects input
    { w.commit g with rounds := w.rounds.set index round }

def apply (w : World τ) : Action τ → World τ
  | .select id => w.select id
  | .setInterruptionSink => { w with group := { w.group with interruption := true } }
  | .startFailover => { w with rounds := w.rounds ++ [.failover {}] }
  | .startProbe tolerance => { w with rounds := w.rounds ++ [.probe { tolerance }] }
  | .round index input => w.runRound index input

/-- A group that has just been built. -/
def Initial (w : World τ) : Prop :=
  (∃ members default interruption, Group.new members default interruption = .ok w.group) ∧
    w.rounds = [] ∧ w.changes = 0 ∧ w.selects = 0

/-- Revisions are not used up. -/
def Few (w : World τ) (action : Action τ) : Prop := (w.apply action).changes < 2 ^ 63

instance (w : World τ) (action : Action τ) : Decidable (w.Few action) :=
  inferInstanceAs (Decidable (_ < _))

end World

end Foxcore.Ref.Selector
