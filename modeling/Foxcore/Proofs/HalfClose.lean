import Foxcore.Proofs.Splice

/-!
# The relay ends with the application's stream

What the application writes goes up piece by piece, so that all of it has gone
up when the end of its stream is read. But `relay` returns there, and what the
peer still has to say is delivered only if it is nothing.
-/

namespace Foxcore.Proofs.Splice

open Lib Lib.Command Ref.Splice Ref.Splice.Pipes List
open Spec.Splice

variable {ℓ γ : Type} {w : Relay ℓ γ} {p : Poll}

variable [RecordLayer ℓ] [InnerCodec γ]

namespace SpliceExample

/-- The application sends a request. -/
def ask : Poll := { now := 0, appFirst := true, application := some (.ok [7]) }

/-- It has no more to say. -/
def done : Poll := { now := 1, appFirst := true, application := some (.ok []) }

def asked : Relay Clear Unit := [ask].foldl Relay.poll first

end SpliceExample

open SpliceExample

end Foxcore.Proofs.Splice
