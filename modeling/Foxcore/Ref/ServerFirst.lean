import Foxcore.Lib.System

/-!
# Streams whose header goes with the first write

A stream of this kind puts its request header in front of the first write it
completes. `ServerFirstStream` writes nothing to it when the application reads before
it writes, so that the header leaves. A write that is not complete may have been taken
into the stream's own buffer (`held`), which is then what goes out, whatever buffer
the poll that completes it brings. How each poll of the inner stream ends is an input.
The two halves are polled under one lock, one poll after the other.
-/

namespace Foxcore.Ref.ServerFirst

abbrev Bytes := List UInt8

inductive Polled (α : Type) where
  | pending
  | failed
  | ready (value : α)
  deriving DecidableEq

def Polled.isReady {α : Type} : Polled α → Bool
  | .ready _ => true
  | _ => false

inductive Phase where
  | idle
  | priming
  | written
  deriving DecidableEq

/-- What the inner stream has seen. -/
structure Inner where
  /-- The bytes behind the header, once a write is complete. -/
  wire : Option Bytes := none
  held : Option Bytes := none
  /-- A write has been begun. -/
  begun : Bool := false
  /-- The application's write has been begun. -/
  written : Bool := false
  /-- The header was flushed. -/
  flushed : Bool := false
  /-- The wrapper's own writes of nothing that are complete, not those of the application. -/
  primes : Nat := 0
  /-- A read came before the header had left. -/
  early : Bool := false
  deriving DecidableEq

namespace Inner

def pollWrite (i : Inner) (buffer : Bytes) : Polled Nat → Inner
  | .ready n =>
    { i with
      begun := true
      held := none
      wire := some (i.wire.getD [] ++ (i.held.getD buffer).take n) }
  | _ => { i with begun := true, held := some (i.held.getD buffer) }

/-- The write of nothing. -/
def prime (i : Inner) (answer : Polled Nat) : Inner :=
  let i := i.pollWrite [] answer
  match answer with
  | .ready _ => { i with primes := i.primes + 1 }
  | _ => i

def pollFlush (i : Inner) : Polled Unit → Inner
  | .ready () => { i with flushed := i.flushed || i.wire.isSome }
  | _ => i

def pollRead (i : Inner) : Inner :=
  { i with early := i.early || !(i.begun && (i.written || i.flushed)) }

end Inner

structure ServerFirstStream where
  inner : Inner := {}
  phase : Phase := .idle
  deriving DecidableEq

namespace ServerFirstStream

/-- `zero` is the inner stream's answer to the write of nothing. -/
def pollPrime (s : ServerFirstStream) (zero : Polled Nat) (flush : Polled Unit) :
    Polled Unit × ServerFirstStream :=
  let inner := s.inner.prime zero
  match zero with
  | .pending => (.pending, ⟨inner, .priming⟩)
  | .failed => (.failed, ⟨inner, .priming⟩)
  | .ready _ =>
    (flush, ⟨inner.pollFlush flush, if flush = .ready () then .written else .priming⟩)

def pollFinishPriming (s : ServerFirstStream) (zero : Polled Nat) :
    Polled Unit × ServerFirstStream :=
  if s.phase = .priming then
    let inner := s.inner.prime zero
    match zero with
    | .pending => (.pending, { s with inner })
    | .failed => (.failed, { s with inner })
    | .ready _ => (.ready (), ⟨inner, .written⟩)
  else (.ready (), { s with phase := .written })

def pollRead (s : ServerFirstStream) (zero : Polled Nat) (flush : Polled Unit) :
    ServerFirstStream :=
  if s.phase = .written then { s with inner := s.inner.pollRead }
  else
    match s.pollPrime zero flush with
    | (.ready (), s) => { s with inner := s.inner.pollRead }
    | (_, s) => s

def pollWrite (s : ServerFirstStream) (zero : Polled Nat) (buffer : Bytes) (answer : Polled Nat) :
    Polled Nat × ServerFirstStream :=
  match s.pollFinishPriming zero with
  | (.ready (), s) =>
    (answer, { s with inner := { s.inner.pollWrite buffer answer with written := true } })
  | (.pending, s) => (.pending, s)
  | (.failed, s) => (.failed, s)

def pollFlush (s : ServerFirstStream) (zero : Polled Nat) (flush : Polled Unit) :
    ServerFirstStream :=
  match s.pollFinishPriming zero with
  | (.ready (), s) => { s with inner := s.inner.pollFlush flush }
  | (_, s) => s

/-- What the inner stream answers to its own shutdown, and does, is not looked at. -/
def pollShutdown (s : ServerFirstStream) (zero : Polled Nat) : ServerFirstStream :=
  (s.pollFinishPriming zero).2

end ServerFirstStream

/-- The stream and the bytes its application was told are written. -/
structure World where
  stream : ServerFirstStream := {}
  reported : Bytes := []
  deriving DecidableEq

inductive Call where
  | pollRead (zero : Polled Nat) (flush : Polled Unit)
  | pollWrite (zero : Polled Nat) (buffer : Bytes) (answer : Polled Nat)
  | pollFlush (zero : Polled Nat) (flush : Polled Unit)
  | pollShutdown (zero : Polled Nat)

def World.step (w : World) : Call → World
  | .pollRead zero flush => { w with stream := w.stream.pollRead zero flush }
  | .pollWrite zero buffer answer =>
    match w.stream.pollWrite zero buffer answer with
    | (.ready n, stream) => ⟨stream, w.reported ++ buffer.take n⟩
    | (_, stream) => { w with stream }
  | .pollFlush zero flush => { w with stream := w.stream.pollFlush zero flush }
  | .pollShutdown zero => { w with stream := w.stream.pollShutdown zero }

end Foxcore.Ref.ServerFirst
