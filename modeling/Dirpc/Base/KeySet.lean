import Mathlib.Data.List.Sort

namespace Base

/-- An ordered set of byte strings, as a finite-state transducer stores it. -/
structure KeySet where
  keys : List (List UInt8)
  ordered : keys.Pairwise (· < ·)

namespace KeySet

def empty : KeySet := ⟨[], List.Pairwise.nil⟩

def build (keys : List (List UInt8)) : Option KeySet :=
  if ordered : keys.Pairwise (· < ·) then some ⟨keys, ordered⟩ else none

def contains (set : KeySet) (key : List UInt8) : Bool := decide (key ∈ set.keys)

def len (set : KeySet) : Nat := set.keys.length

end KeySet

def sortKeys (keys : List (List UInt8)) : List (List UInt8) := keys.insertionSort (· ≤ ·)

theorem lt_of_le_of_ne {a b : List UInt8} (below : a ≤ b) (other : a ≠ b) : a < b := by
  apply List.not_le.mp
  intro above
  exact other (List.le_antisymm below above)

instance totalBytes : Std.Total (fun a b : List UInt8 => a ≤ b) := ⟨fun a b => List.le_total a b⟩

instance transBytes : IsTrans (List UInt8) (fun a b => a ≤ b) := ⟨fun _ _ _ => List.le_trans⟩

theorem mem_sortKeys {keys : List (List UInt8)} {key : List UInt8} :
    key ∈ sortKeys keys ↔ key ∈ keys := (List.perm_insertionSort _ keys).mem_iff

theorem sortKeys_ordered {keys : List (List UInt8)} (distinct : keys.Nodup) :
    (sortKeys keys).Pairwise (· < ·) := by
  have sorted : (sortKeys keys).Pairwise (· ≤ ·) := List.pairwise_insertionSort _ keys
  have distinct' : (sortKeys keys).Nodup := (List.perm_insertionSort _ keys).nodup_iff.mpr distinct
  exact (sorted.and distinct').imp fun pair => lt_of_le_of_ne pair.1 pair.2

theorem build_sortKeys {keys : List (List UInt8)} (distinct : keys.Nodup) :
    KeySet.build (sortKeys keys) = some ⟨sortKeys keys, sortKeys_ordered distinct⟩ := by
  rw [KeySet.build, dif_pos (sortKeys_ordered distinct)]

end Base
