import Foxcore.Ref.Split

/-!
# A table of verdicts and a table of rows that agree

What a table of bounded size owes those who look things up in it, and what the
count of a flow's bytes is to be.
-/

namespace Foxcore.Spec.Split

open Lib Ref.Split

/-- A verdict may be used again: the flow's previous packet, seen at `previous`, is
not too old, and neither of the verdict's tokens is cancelled. -/
structure Usable (s : PacketSplitter) (cancelled revoked : List Nat) (previous nowMs : Nat)
    (decision : Decision) : Prop where
  recent : nowMs ≤ previous + s.idleTimeoutMs
  policy : ∀ token, decision.voidedBy = some token → token ∉ cancelled
  flow : ∀ handle, decision.flow = some handle → handle.flow ∉ revoked

/-- What an insertion does to the other entries. Idle ones apart it drops none
unless the table is full, then only as many as make the table just full, and
always those seen least recently. -/
structure Spares (before : PacketSplitter) (key : FlowKey) (nowMs : Nat)
    (after : PacketSplitter) : Prop where
  kept : ∀ k decision, k ≠ key → after.decisions.lookup k = some decision →
    before.decisions.lookup k = some decision
  room : before.decisions.len < before.capacity →
    ∀ k, k ≠ key → after.decisions.lookup k = before.decisions.lookup k
  needed : ∀ k decision, k ≠ key → before.decisions.lookup k = some decision →
    after.decisions.lookup k = none → nowMs ≤ decision.lastSeenMs + before.idleTimeoutMs →
    after.decisions.len = before.capacity
  least : ∀ k decision, k ≠ key → before.decisions.lookup k = some decision →
    after.decisions.lookup k = none → nowMs ≤ decision.lastSeenMs + before.idleTimeoutMs →
    ∀ k' decision', k' ≠ key → after.decisions.lookup k' = some decision' →
      decision.lastSeenMs ≤ decision'.lastSeenMs

/-- The bytes of the packets that went to the tunnel on the strength of the verdict a
row was opened for. -/
def carried (handed : List Handed) (flow : Nat) : Nat :=
  ((handed.filter fun h => h.route = .tunnel ∧ h.owner = some flow).map Handed.length).sum

/-- The two tables are in step, and nothing is counted elsewhere. -/
structure InStep (w : World) : Prop where
  bounded : w.ingress.splitter.decisions.len ≤ w.ingress.splitter.capacity
  bound : ∀ key, w.ingress.table.lookup key = w.owner key
  used : w.phase = .waiting → ∀ key nowMs route,
    (w.ingress.lookup w.cancelled key nowMs).1 = some route ↔
      ∃ decision previous, w.ingress.splitter.decisions.lookup key = some decision ∧
        decision.route = route ∧ w.seen key = some previous ∧
        Usable w.ingress.splitter w.cancelled w.ingress.revoked previous nowMs decision
  spares : ∀ key length nowMs decision, w.phase = .deciding key length nowMs →
    Spares w.ingress.splitter key nowMs (w.ingress.insert key decision nowMs).splitter
  owned : ∀ h ∈ w.handed, h.route = .tunnel →
    ∃ flow, h.owner = some flow ∧ flow < w.ingress.flows.length
  counted : ∀ flow row, w.ingress.flows[flow]? = some row →
    row.bytesUp = carried w.handed flow % 2 ^ 64

end Foxcore.Spec.Split
