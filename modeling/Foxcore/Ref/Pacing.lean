import Foxcore.Lib.System

/-!
# Sending at a rate

`PacedSocket` lets one datagram through at a time: after each it waits for as
long as the datagram takes at the rate. Time is a number of nanoseconds without
an end, so `checked_add` never fails; the platform's clock ends after 2^63
seconds. What the inner socket answers is an input. What it has accepted is
kept, newest first, beside the budget.
-/

namespace Foxcore.Ref.Pacing

def nanosPerSecond : Nat := 1000000000

/-- The time of the next datagram, if one has been sent. -/
structure Budget where
  next : Option Nat := none
  deriving DecidableEq

namespace Budget

/-- `deadline`, with the budget it leaves. -/
def deadline (b : Budget) (now rate : Nat) : Option Nat × Budget :=
  if rate = 0 then (none, {}) else (b.next.filter fun due => now < due, b)

/-- What the bytes take at the rate, rounded up. -/
def interval (bytes rate : Nat) : Nat := (bytes * nanosPerSecond + (rate - 1)) / rate

def sent (now bytes rate : Nat) : Budget :=
  if rate = 0 then {} else { next := some (now + interval bytes rate) }

end Budget

inductive SendError (ε : Type) where
  | invalidInput
  | wouldBlock
  | inner (error : ε)
  deriving DecidableEq

structure Transmit (ε : Type) where
  now : Nat
  bytes : Nat
  segmentSize : Option Nat := none
  inner : Except ε Unit := .ok ()

def trySend {ε : Type} (rate : Nat) (b : Budget) (t : Transmit ε) :
    Except (SendError ε) Unit × Budget :=
  if t.segmentSize.any fun segment => segment < t.bytes then (.error .invalidInput, b)
  else
    let (due, b) := b.deadline t.now rate
    if due.isSome then (.error .wouldBlock, b)
    else
      match t.inner with
      | .error error => (.error (.inner error), b)
      | .ok () => (.ok (), .sent t.now t.bytes rate)

/-- A datagram the inner socket accepted. -/
structure Sent where
  time : Nat
  bytes : Nat
  deriving DecidableEq

structure World where
  budget : Budget := {}
  sent : List Sent := []
  deriving DecidableEq

def World.apply {ε : Type} (rate : Nat) (w : World) (t : Transmit ε) : World :=
  let result := trySend rate w.budget t
  { budget := result.2
    sent := if result.1.isOk then ⟨t.now, t.bytes⟩ :: w.sent else w.sent }

end Foxcore.Ref.Pacing
