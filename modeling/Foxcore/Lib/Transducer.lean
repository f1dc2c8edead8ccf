import Mathlib

/-!
# Finite maps stored as automata

An ordered map from words to values can be stored as an automaton whose edges
carry outputs: the value of a word is the sum of the outputs along its path and
of the output of the node it ends in, which has to be final. A program that
holds such a map can follow it letter by letter and stop at any node.

`Transducer` is what such a program uses of the map, and `LawfulTransducer`
ties it to the entries: a word can be walked to a final node exactly when it is
a key, and then the outputs add up to its value. So `get`, which walks, is the
lookup in the entries, and where an edge is missing no key goes on.
-/

namespace Foxcore.Lib

class Transducer (μ : Type) (κ V : outParam Type) where
  Node : Type
  root : μ → Node
  edge : μ → Node → κ → Option (V × Node)
  isFinal : μ → Node → Bool
  finalOutput : μ → Node → V
  entries : μ → List (List κ × V)
  len : μ → Nat
  build : List (List κ × V) → Option μ

namespace Transducer

variable {μ κ V : Type} [Transducer μ κ V] [AddMonoid V]

/-- Follows a word from a node, adding up the outputs. -/
def walk (m : μ) : Node μ → V → List κ → Option (Node μ × V)
  | node, output, [] => some (node, output)
  | node, output, k :: word =>
    match edge m node k with
    | some (out, next) => walk m next (output + out) word
    | none => none

/-- What a word that has been followed to a node is worth. -/
def valueAt (m : μ) (node : Node μ) (output : V) : Option V :=
  if isFinal m node then some (output + finalOutput m node) else none

/-- The value of a word. -/
def get (m : μ) (word : List κ) : Option V :=
  (walk m (root m) 0 word).bind fun s => valueAt m s.1 s.2

theorem walk_append (m : μ) (node : Node μ) (output : V) (u v : List κ) :
    walk m node output (u ++ v) =
      (walk m node output u).bind fun s => walk m s.1 s.2 v := by
  induction u generalizing node output with
  | nil => rfl
  | cons k u ih =>
    simp only [List.cons_append, walk]
    cases edge m node k with
    | none => rfl
    | some s => exact ih s.2 (output + s.1)

/-- A word followed to a node has the value of that node. -/
theorem get_of_walk {m : μ} {word : List κ} {node : Node μ} {output : V}
    (h : walk m (root m) 0 word = some (node, output)) : get m word = valueAt m node output := by
  rw [get, h, Option.bind_some]

/-- No key goes on where an edge is missing. -/
theorem get_of_stuck {m : μ} {word : List κ} {node : Node μ} {output : V} {k : κ}
    (h : walk m (root m) 0 word = some (node, output)) (hstuck : edge m node k = none)
    (rest : List κ) : get m (word ++ k :: rest) = none := by
  rw [get, walk_append, h, Option.bind_some]
  simp [walk, hstuck]

end Transducer

open Transducer in
/-- The map is what its entries say, and a list in order can be stored. -/
class LawfulTransducer (μ : Type) {κ V : Type} [Transducer μ κ V] [AddMonoid V]
    [LT (List κ)] : Prop where
  get_iff : ∀ (m : μ) (word : List κ) (v : V), get m word = some v ↔ (word, v) ∈ entries m
  len_eq : ∀ m : μ, len m = (entries m).length
  build_ordered : ∀ l : List (List κ × V), l.Pairwise (fun a b => a.1 < b.1) →
    ∃ m : μ, build l = some m ∧ entries m = l

/-- Maps that are kept as bytes. -/
class StoredTransducer (μ : Type) where
  bytes : μ → List UInt8
  load : List UInt8 → Option μ

/-- The bytes of a map load as one with the same entries. -/
class LawfulStored (μ : Type) {κ V : Type} [Transducer μ κ V] [StoredTransducer μ] : Prop where
  load_bytes : ∀ m : μ, ∃ m' : μ, StoredTransducer.load (StoredTransducer.bytes m) = some m' ∧
    Transducer.entries m' = Transducer.entries m

namespace LawfulTransducer

variable {μ κ V : Type} [Transducer μ κ V] [AddMonoid V] [LT (List κ)] [LawfulTransducer μ]

open Transducer

theorem get_of_len_zero {m : μ} (h : len m = 0) (word : List κ) : get m word = none := by
  rw [len_eq, List.length_eq_zero_iff] at h
  refine Option.eq_none_iff_forall_ne_some.mpr fun v hv => ?_
  have hmem := (get_iff m word v).mp hv
  rw [h] at hmem
  cases hmem

end LawfulTransducer

end Foxcore.Lib
