import Foxcore.Ref.ServerFirst

/-!
# What a server-first stream promises
-/

namespace Foxcore.Spec.ServerFirst

open Ref.ServerFirst

/-- No read came before the header had left, nothing was written at most once, and what
the application was told is what is behind the header. -/
structure HeaderKept (w : World) : Prop where
  header : w.stream.inner.early = false
  once : w.stream.inner.primes ≤ 1
  exact : w.reported = w.stream.inner.wire.getD []

/-- Nothing is flushed or shut down before anything was written, the header is flushed at
once when its write completes, and a write is repeated until it completes. -/
def Orderly (w : World) : Call → Prop
  | .pollRead zero flush => w.stream.phase ≠ .written → zero.isReady → flush = .ready ()
  | .pollWrite _ buffer _ => w.stream.phase = .written → ∀ held ∈ w.stream.inner.held, held = buffer
  | .pollFlush zero flush =>
    w.stream.phase ≠ .idle ∧ (w.stream.phase = .priming → zero.isReady → flush = .ready ())
  | .pollShutdown _ => w.stream.phase = .written

end Foxcore.Spec.ServerFirst
