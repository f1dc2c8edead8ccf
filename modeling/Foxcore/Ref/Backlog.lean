import Mathlib

/-!
# The backlog guard

Between the relay and an outbound stands a guard that holds what the outbound does not
take. Below its ceiling it acknowledges a write at once; at the ceiling it makes the writer
wait. A backlog that has not moved for the stall timeout fails the flow.

The outbound is any writer whose count does not exceed what it was offered (`Writer`). A
call is a poll, which does not block, so it reads the clock once; whether the timer that
`poll_stall` polls has fired is given with the call. Times are nanoseconds.
-/

namespace Foxcore.Ref.Backlog

def stallTimeout : Nat := 30 * 1000000000

def usizeMax : Nat := 2 ^ 64 - 1

/-- `saturating_mul(4)`. -/
def ceilingFor (relayBufferBytes : Nat) : Nat := min (relayBufferBytes * 4) usizeMax

/-- The sizes of a relay buffer that `RuntimeConfig::validate` accepts. -/
def acceptsRelayBuffer (relayBufferBytes : Nat) : Bool :=
  decide (4 * 1024 ≤ relayBufferBytes) && decide (relayBufferBytes ≤ 256 * 1024)

/-- `Poll<Result<α, ε>>`. -/
inductive Poll (ε α : Type) where
  | ok (value : α)
  | error (error : ε)
  | pending
  deriving DecidableEq

inductive IoError where
  | writeZero
  | outboundStalled (held after : Nat)
  | inner (code : Nat)
  deriving DecidableEq

def Poll.mapError {ε ε' α : Type} (f : ε → ε') : Poll ε α → Poll ε' α
  | .ok value => .ok value
  | .error cause => .error (f cause)
  | .pending => .pending

/-- An `AsyncWrite`, with all it remembers in its state. -/
structure Writer (σ : Type) where
  pollWrite : σ → List UInt8 → Poll Nat Nat × σ
  pollFlush : σ → Poll Nat Unit × σ
  pollShutdown : σ → Poll Nat Unit × σ
  count_le : ∀ {s s' buf written}, pollWrite s buf = (.ok written, s') → written ≤ buf.length

structure BacklogGuard (σ : Type) where
  inner : σ
  /-- Staged bytes; `sent` indexes the drained prefix. -/
  pending : List UInt8
  sent : Nat
  ceiling : Nat
  stallAfter : Nat
  /-- Last outbound progress or empty-backlog time. -/
  progress : Nat
  deadline : Option Nat

namespace BacklogGuard

variable {σ : Type}

def withStallTimeout (inner : σ) (ceiling stallAfter now : Nat) : BacklogGuard σ :=
  { inner, pending := [], sent := 0, ceiling, stallAfter, progress := now, deadline := none }

def new (inner : σ) (ceiling now : Nat) : BacklogGuard σ :=
  withStallTimeout inner ceiling stallTimeout now

def backlog (g : BacklogGuard σ) : Nat := g.pending.length - g.sent

def noteProgress (g : BacklogGuard σ) (now : Nat) : BacklogGuard σ := { g with progress := now }

/-- Reclaims the drained prefix. -/
def reclaim (g : BacklogGuard σ) : BacklogGuard σ :=
  if 0 < g.sent then { g with pending := g.pending.drop g.sent, sent := 0 } else g

def hold (g : BacklogGuard σ) (now : Nat) (bytes : List UInt8) : BacklogGuard σ :=
  if bytes = [] then g
  else
    let g := if g.backlog = 0 then g.noteProgress now else g
    let g := g.reclaim
    { g with pending := g.pending ++ bytes }

/-- The loop of `drain`. Every round sends a byte at least, so it is over after as many
rounds as the backlog has bytes. -/
def drainLoop (writer : Writer σ) (now : Nat) :
    (fuel : Nat) → BacklogGuard σ → Poll IoError Unit × BacklogGuard σ
  | 0, g => (.ok (), g)
  | fuel + 1, g =>
    if g.sent < g.pending.length then
      match writer.pollWrite g.inner (g.pending.drop g.sent) with
      | (.ok 0, inner) => (.error .writeZero, { g with inner })
      | (.ok written, inner) =>
        drainLoop writer now fuel { g with inner, sent := g.sent + written, progress := now }
      | (.error code, inner) => (.error (.inner code), { g with inner })
      | (.pending, inner) => (.pending, { g with inner })
    else (.ok (), g)

def drain (writer : Writer σ) (now : Nat) (g : BacklogGuard σ) :
    Poll IoError Unit × BacklogGuard σ :=
  match drainLoop writer now g.backlog g with
  | (.ok (), g) => (.ok (), { g with pending := [], sent := 0, progress := now, deadline := none })
  | (.error error, g) => (.error error, g)
  | (.pending, g) => (.pending, g)

def pollStall (g : BacklogGuard σ) (now : Nat) (timerReady : Bool) :
    Option IoError × BacklogGuard σ :=
  if g.backlog = 0 then (none, { g with deadline := none })
  else
    let g := { g with deadline := some (g.deadline.getD (g.progress + g.stallAfter)) }
    if timerReady = false then (none, g)
    else if g.stallAfter ≤ now - g.progress then
      (some (.outboundStalled g.backlog g.stallAfter), g)
    else (none, { g with deadline := some (g.progress + g.stallAfter) })

/-- The end of a write that found nothing held. -/
def endWrite (g : BacklogGuard σ) (now : Nat) (timerReady : Bool) (buf : List UInt8) :
    Poll IoError Nat × BacklogGuard σ :=
  match g.pollStall now timerReady with
  | (some error, g) => (.error error, g)
  | (none, g) => (.ok buf.length, g)

/-- The end of a write that found a backlog. -/
def endWriteBehind (g : BacklogGuard σ) (now : Nat) (timerReady : Bool) (buf : List UInt8) :
    Poll IoError Nat × BacklogGuard σ :=
  match g.pollStall now timerReady with
  | (some error, g) => (.error error, g)
  | (none, g) =>
    if g.ceiling ≤ g.backlog then (.pending, g) else (.ok buf.length, g.hold now buf)

def pollWrite (writer : Writer σ) (g : BacklogGuard σ) (now : Nat) (timerReady : Bool)
    (buf : List UInt8) : Poll IoError Nat × BacklogGuard σ :=
  if g.backlog = 0 then
    match writer.pollWrite g.inner buf with
    | (.ok written, inner) =>
      let g := { g with inner }
      if written = 0 ∧ buf ≠ [] then (.error .writeZero, g)
      else if written = buf.length then (.ok written, g.noteProgress now)
      else ((g.noteProgress now).hold now (buf.drop written)).endWrite now timerReady buf
    | (.error code, inner) => (.error (.inner code), { g with inner })
    | (.pending, inner) => ({ g with inner }.hold now buf).endWrite now timerReady buf
  else
    match g.drain writer now with
    | (.error error, g) => (.error error, g)
    | (.ok (), g) => g.endWriteBehind now timerReady buf
    | (.pending, g) => g.endWriteBehind now timerReady buf

/-- Drains, then hands on. -/
def pollThrough (writer : Writer σ) (handOn : σ → Poll Nat Unit × σ) (g : BacklogGuard σ)
    (now : Nat) (timerReady : Bool) : Poll IoError Unit × BacklogGuard σ :=
  match g.drain writer now with
  | (.ok (), g) =>
    let (result, inner) := handOn g.inner
    (result.mapError .inner, { g with inner })
  | (.error error, g) => (.error error, g)
  | (.pending, g) =>
    match g.pollStall now timerReady with
    | (some error, g) => (.error error, g)
    | (none, g) => (.pending, g)

def pollFlush (writer : Writer σ) (g : BacklogGuard σ) (now : Nat) (timerReady : Bool) :
    Poll IoError Unit × BacklogGuard σ :=
  g.pollThrough writer writer.pollFlush now timerReady

def pollShutdown (writer : Writer σ) (g : BacklogGuard σ) (now : Nat) (timerReady : Bool) :
    Poll IoError Unit × BacklogGuard σ :=
  g.pollThrough writer writer.pollShutdown now timerReady

end BacklogGuard

end Foxcore.Ref.Backlog
