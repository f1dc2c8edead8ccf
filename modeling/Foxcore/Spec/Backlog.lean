import Foxcore.Lib.System
import Foxcore.Ref.Backlog

/-!
# A bounded queue before a slow writer

What a guard does is told by what its writer sees. The writer is wrapped in one that
behaves alike and notes what it is asked for (`Writer.noting`), and a run keeps an event
for each call: when it was made, what the writer accepted in it and whether a flush or a
shutdown got through, what was acknowledged, how much was held afterwards, and whether the
call failed for a stall.
-/

namespace Foxcore.Spec.Backlog

open Ref.Backlog

inductive Touch where
  | accepted (bytes : List UInt8)
  | flushed
  | shutDown
  deriving DecidableEq

namespace Touch

def bytes : Touch → List UInt8
  | .accepted bytes => bytes
  | _ => []

/-- A flush or a shutdown. -/
def passes : Touch → Bool
  | .accepted _ => false
  | _ => true

end Touch

/-- The writer as it is, with notes of what happens to it. -/
def noting {σ : Type} (writer : Writer σ) : Writer (σ × List Touch) where
  pollWrite s buf :=
    match writer.pollWrite s.1 buf with
    | (.ok written, inner) => (.ok written, inner, s.2 ++ [.accepted (buf.take written)])
    | (result, inner) => (result, inner, s.2)
  pollFlush s :=
    let (result, inner) := writer.pollFlush s.1
    (result, inner, s.2 ++ [.flushed])
  pollShutdown s :=
    let (result, inner) := writer.pollShutdown s.1
    (result, inner, s.2 ++ [.shutDown])
  count_le := by
    intro s s' buf written h
    split at h
    · next written' inner heq =>
      cases h
      exact writer.count_le heq
    · next result inner hne heq =>
      cases h
      exact absurd rfl (hne written)

structure Event where
  time : Nat
  offered : Nat := 0
  touches : List Touch
  acknowledged : List UInt8 := []
  held : Nat
  stalled : Bool
  deriving DecidableEq

namespace Event

/-- What the writer accepted in the call. -/
def accepted (e : Event) : List UInt8 := e.touches.flatMap Touch.bytes

/-- The call got a flush or a shutdown through. -/
def passed (e : Event) : Bool := e.touches.any Touch.passes

end Event

structure World (σ : Type) where
  guard : BacklogGuard (σ × List Touch)
  now : Nat
  /-- The latest call first. -/
  events : List Event

inductive Action where
  | write (elapsed : Nat) (timerReady : Bool) (buf : List UInt8)
  | flush (elapsed : Nat) (timerReady : Bool)
  | shutdown (elapsed : Nat) (timerReady : Bool)
  deriving DecidableEq

/-- What a write answers for. -/
def acknowledges (result : Poll IoError Nat) (buf : List UInt8) : List UInt8 :=
  match result with
  | .ok _ => buf
  | _ => []

def stalled {α : Type} : Poll IoError α → Bool
  | .error (.outboundStalled _ _) => true
  | _ => false

namespace World

variable {σ : Type}

/-- The guard with no notes yet. -/
def fresh (w : World σ) : BacklogGuard (σ × List Touch) :=
  { w.guard with inner := (w.guard.inner.1, []) }

def step (writer : Writer σ) (w : World σ) : Action → World σ
  | .write elapsed timerReady buf =>
    let now := w.now + elapsed
    let (result, guard) := w.fresh.pollWrite (noting writer) now timerReady buf
    { guard
      now
      events :=
        { time := now
          offered := buf.length
          touches := guard.inner.2
          acknowledged := acknowledges result buf
          held := guard.backlog
          stalled := stalled result } :: w.events }
  | .flush elapsed timerReady =>
    let now := w.now + elapsed
    let (result, guard) := w.fresh.pollFlush (noting writer) now timerReady
    { guard
      now
      events :=
        { time := now
          touches := guard.inner.2
          held := guard.backlog
          stalled := stalled result } :: w.events }
  | .shutdown elapsed timerReady =>
    let now := w.now + elapsed
    let (result, guard) := w.fresh.pollShutdown (noting writer) now timerReady
    { guard
      now
      events :=
        { time := now
          touches := guard.inner.2
          held := guard.backlog
          stalled := stalled result } :: w.events }

/-- A guard as the relay makes it. -/
def Initial (w : World σ) : Prop :=
  ∃ inner relayBufferBytes, acceptsRelayBuffer relayBufferBytes = true ∧
    w =
      { guard := .new (inner, []) (ceilingFor relayBufferBytes) w.now
        now := w.now
        events := [] }

def accepted (w : World σ) : List UInt8 := w.events.reverse.flatMap Event.accepted

def acknowledged (w : World σ) : List UInt8 := w.events.reverse.flatMap Event.acknowledged

def largestWrite (w : World σ) : Nat := (w.events.map Event.offered).foldr max 0

end World

/-- From some call on, as long ago as the timeout, something has been held and the writer
has accepted nothing. -/
def Silent (e : Event) (earlier : List Event) : Prop :=
  ∃ between start before, earlier = between ++ start :: before ∧
    start.time + stallTimeout ≤ e.time ∧ start.held ≠ 0 ∧
    ∀ x ∈ e :: between, x.accepted = [] ∧ x.held ≠ 0

structure Faithful {σ : Type} (w : World σ) : Prop where
  queue : w.accepted ++ w.guard.pending.drop w.guard.sent = w.acknowledged
  passes : ∀ e ∈ w.events, e.passed = true → e.held = 0
  bounded : w.guard.backlog < w.guard.ceiling + w.largestWrite
  stalls : ∀ later e earlier, w.events = later ++ e :: earlier → e.stalled = true →
    Silent e earlier

end Foxcore.Spec.Backlog
