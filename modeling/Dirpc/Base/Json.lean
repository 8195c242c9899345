import Mathlib.Algebra.Group.Int.Defs
import Mathlib.Algebra.Group.Nat.Defs
import Mathlib.Data.List.Basic

namespace Base

/-- JSON values. Where an object lists a key twice the later entry counts, as a parser reads it. -/
inductive Json where
  | null
  | bool (b : Bool)
  | int (n : Int)
  | float (bits : BitVec 64)
  | str (s : String)
  | arr (items : List Json)
  | obj (fields : List (String × Json))

namespace Json

def getField (k : String) : List (String × Json) → Option Json
  | [] => none
  | field :: rest => (getField k rest).or (if field.1 = k then some field.2 else none)

def insertField (fields : List (String × Json)) (k : String) (v : Json) : List (String × Json) :=
  fields.filter (·.1 ≠ k) ++ [(k, v)]

def mergeFields (fields extra : List (String × Json)) : List (String × Json) :=
  extra.foldl (fun merged field => insertField merged field.1 field.2) fields

def get (k : String) : Json → Option Json
  | obj fields => getField k fields
  | _ => none

def AgreeOff (keys : List String) (xs ys : List (String × Json)) : Prop :=
  ∀ k ∉ keys, getField k xs = getField k ys

def asU64 : Json → Option Nat
  | int n => if 0 ≤ n ∧ n < 2 ^ 64 then some n.toNat else none
  | _ => none

def asI64 : Json → Option Int
  | int n => if -2 ^ 63 ≤ n ∧ n < 2 ^ 63 then some n else none
  | _ => none

def asBool : Json → Option Bool
  | bool b => some b
  | _ => none

def asStr : Json → Option String
  | str s => some s
  | _ => none

def asArray : Json → Option (List Json)
  | arr items => some items
  | _ => none

def asObject : Json → Option (List (String × Json))
  | obj fields => some fields
  | _ => none

def ofOptStr : Option String → Json
  | none => null
  | some s => str s

@[simp] theorem get_obj (k : String) (fields : List (String × Json)) :
    (obj fields).get k = getField k fields := rfl

theorem asU64_natCast {n : Nat} (bound : n < 2 ^ 64) : (Json.int n).asU64 = some n := by
  have inside : (0 : Int) ≤ n ∧ (n : Int) < 2 ^ 64 := by omega
  simp only [asU64, inside, and_self, if_true, Int.toNat_natCast]

theorem getField_append (k : String) (xs ys : List (String × Json)) :
    getField k (xs ++ ys) = (getField k ys).or (getField k xs) := by
  induction xs with
  | nil => simp [getField]
  | cons x xs ih => simp [getField, ih, Option.or_assoc]

theorem getField_filter_ne {k other : String} (different : other ≠ k)
    (fields : List (String × Json)) :
    getField other (fields.filter (·.1 ≠ k)) = getField other fields := by
  induction fields with
  | nil => rfl
  | cons field rest ih =>
    by_cases same : field.1 = k
    · have skipped : field.1 ≠ other := fun h => different (h.symm.trans same)
      simp only [ne_eq, decide_not] at ih
      simp [same, ih, getField, same ▸ skipped]
    · simp only [ne_eq, decide_not] at ih
      simp [same, ih, getField]

@[simp] theorem getField_insertField_self (fields : List (String × Json)) (k : String) (v : Json) :
    getField k (insertField fields k v) = some v := by
  simp [insertField, getField_append, getField]

theorem getField_insertField_of_ne {k other : String} (different : other ≠ k)
    (fields : List (String × Json)) (v : Json) :
    getField other (insertField fields k v) = getField other fields := by
  rw [insertField, getField_append, getField_filter_ne different]
  simp [getField, Ne.symm different]

theorem getField_insertField_isSome (k other : String) (fields : List (String × Json)) (v : Json) :
    (getField other (insertField fields k v)).isSome ↔
      other = k ∨ (getField other fields).isSome := by
  by_cases same : other = k
  · subst same
    simp
  · rw [getField_insertField_of_ne same, or_iff_right same]

theorem get_eq_getField (k : String) (v : Json) : v.get k = getField k (v.asObject.getD []) := by
  cases v <;> rfl

theorem AgreeOff.trans {keys more : List String} {xs ys zs : List (String × Json)}
    (first : AgreeOff keys xs ys) (second : AgreeOff more ys zs) :
    AgreeOff (keys ++ more) xs zs := by
  intro k outside
  obtain ⟨left, right⟩ := not_or.mp (mt List.mem_append.mpr outside)
  exact (first k left).trans (second k right)

theorem AgreeOff.mono {keys more : List String} {xs ys : List (String × Json)}
    (agree : AgreeOff keys xs ys) (wider : keys ⊆ more) : AgreeOff more xs ys :=
  fun k outside => agree k (mt (@wider k) outside)

theorem agreeOff_insertField (fields : List (String × Json)) (k : String) (v : Json) :
    AgreeOff [k] (insertField fields k v) fields := by
  intro other outside
  exact getField_insertField_of_ne (mt List.mem_singleton.mpr outside) fields v

theorem getField_mergeFields (k : String) (fields extra : List (String × Json)) :
    getField k (mergeFields fields extra) = (getField k extra).or (getField k fields) := by
  induction extra generalizing fields with
  | nil => rfl
  | cons field rest ih =>
    change getField k (mergeFields (insertField fields field.1 field.2) rest) = _
    rw [ih, getField, Option.or_assoc]
    by_cases same : field.1 = k
    · subst same
      simp
    · simp [same, getField_insertField_of_ne (Ne.symm same)]

end Json

end Base
