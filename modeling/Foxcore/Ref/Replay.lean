import Foxcore.Lib.BitRing

/-!
# The replay window

A session keeps which counters it has accepted in a ring of 128 blocks of 64
bits. Counters are 64 bits wide. Where the source computes with them and the
result does not fit, where it shifts by the width of a word or more and where an
index is outside the ring it would panic; such a step is `none` here.
-/

namespace Foxcore.Ref

open Lib

/-- `u64::MAX - (1 << 13) - 1`. -/
def rejectAfterMessages : Nat := 2 ^ 64 - 1 - 2 ^ 13 - 1

def blockBits : Nat := 64
def ringBlocks : Nat := 128
def ringMask : Nat := ringBlocks - 1
def blockMask : Nat := blockBits - 1

/-- Counters this far behind the newest one are refused. -/
def replayWindow : Nat := (ringBlocks - 1) * blockBits

structure ReplayWindow where
  last : Nat := 0
  ring : BitRing ringBlocks blockBits := Vector.replicate ringBlocks 0
  deriving DecidableEq

/-- A difference of 64-bit numbers. -/
def sub64 (a b : Nat) : Option Nat := if b ≤ a then some (a - b) else none

/-- A sum of 64-bit numbers. -/
def add64 (a b : Nat) : Option Nat := if a + b < 2 ^ 64 then some (a + b) else none

/-- `1_u64 << shift`. -/
def bit64 (shift : Nat) : Option (BitVec blockBits) :=
  if shift < blockBits then some (BitVec.ofNat blockBits 1 <<< shift) else none

namespace ReplayWindow

/-- The loop over the blocks the window moves over. -/
def clearBlocks (ring : BitRing ringBlocks blockBits) (current advanced : Nat) :
    Option (BitRing ringBlocks blockBits) :=
  (List.range advanced).foldlM (fun ring i => do
    let block ← add64 current (i + 1)
    let index := block &&& ringMask
    if h : index < ringBlocks then return ring.set index 0 h else none) ring

/-- The end of `accept`: whether a counter's bit is off, and the bit set. -/
def record (w : ReplayWindow) (counter : Nat) : Option (Bool × ReplayWindow) := do
  let index := (counter >>> 6) &&& ringMask
  let bit ← bit64 (counter &&& blockMask)
  if h : index < ringBlocks then
    let block := w.ring[index]
    return (decide (block &&& bit = 0), { w with ring := w.ring.set index (block ||| bit) h })
  else none

/-- Accept a counter once. -/
def accept (w : ReplayWindow) (counter : Nat) : Option (Bool × ReplayWindow) :=
  if rejectAfterMessages ≤ counter then some (false, w)
  else if w.last < counter then do
    let current := w.last >>> 6
    let moved ← sub64 (counter >>> 6) current
    let ring ← clearBlocks w.ring current (min moved ringBlocks)
    record { last := counter, ring := ring } counter
  else do
    let behind ← sub64 w.last counter
    if replayWindow < behind then return (false, w)
    record w counter

/-- What the window answers to counters offered one after the other. -/
def run : ReplayWindow → List Nat → Option (List Bool × ReplayWindow)
  | w, [] => some ([], w)
  | w, counter :: counters => do
      let (answer, w) ← w.accept counter
      let (answers, w) ← run w counters
      return (answer :: answers, w)

end ReplayWindow

end Foxcore.Ref
