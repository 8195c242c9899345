import Dirpc.Base.Json
import Mathlib.Data.List.Dedup

namespace Base

namespace Json

def keys (fields : List (String × Json)) : List String := (fields.map Prod.fst).dedup

inductive Reaches : Json → Json → Prop
  | here (v : Json) : Reaches v v
  | field {fields : List (String × Json)} {key : String} {child v : Json}
      (listed : getField key fields = some child) (deeper : Reaches child v) :
      Reaches (obj fields) v

section

variable (visit : List String → List String)

mutual

/-- The arrays of a value in the order of a search that visits the fields of each object in this
    order. -/
def arraysIn : Json → List (List Json)
  | arr items => [items]
  | obj fields => (visit (keys fields)).flatMap (arraysUnder fields)
  | _ => []

def arraysUnder : List (String × Json) → String → List (List Json)
  | [], _ => []
  | (own, v) :: rest, key =>
    if (getField key rest).isSome then arraysUnder rest key
    else if own = key then arraysIn v else []

end

end

theorem mem_keys {fields : List (String × Json)} {key : String} :
    key ∈ keys fields ↔ (getField key fields).isSome := by
  rw [keys, List.mem_dedup]
  induction fields with
  | nil => simp [getField]
  | cons field rest ih =>
    rw [List.map_cons, List.mem_cons, ih, getField, Option.isSome_or, Bool.or_eq_true, or_comm,
      eq_comm (b := field.1)]
    by_cases same : field.1 = key <;> simp [same]

theorem sizeOf_getField {fields : List (String × Json)} {key : String} {child : Json}
    (listed : getField key fields = some child) : sizeOf child < sizeOf fields := by
  induction fields with
  | nil => cases listed
  | cons field rest ih =>
    obtain ⟨own, v⟩ := field
    rw [getField] at listed
    rcases Option.or_eq_some_iff.mp listed with later | ⟨-, first⟩
    · have smaller := ih later
      simp only [List.cons.sizeOf_spec]
      omega
    · split at first
      · cases first
        simp only [List.cons.sizeOf_spec, Prod.mk.sizeOf_spec]
        omega
      · cases first

theorem fields_induction {motive : Json → Prop} (leaf : ∀ v, v.asObject = none → motive v)
    (object : ∀ fields, (∀ key child, getField key fields = some child → motive child) →
      motive (obj fields)) (v : Json) : motive v := by
  induction size : sizeOf v using Nat.strongRecOn generalizing v with
  | _ n ih =>
    cases v with
    | obj fields =>
      apply object
      intro key child listed
      have smaller := sizeOf_getField listed
      rw [obj.sizeOf_spec] at size
      exact ih (sizeOf child) (by omega) child rfl
    | _ => exact leaf _ rfl

theorem eq_of_lastField {β : Type*} {f : Json → β} {d : β} {g : List (String × Json) → String → β}
    (nil : ∀ key, g [] key = d)
    (cons : ∀ own v rest key, g ((own, v) :: rest) key =
      if (getField key rest).isSome then g rest key else if own = key then f v else d)
    (fields : List (String × Json)) (key : String) :
    g fields key = ((getField key fields).map f).getD d := by
  induction fields with
  | nil => exact nil key
  | cons field rest ih =>
    obtain ⟨own, v⟩ := field
    rw [cons, getField]
    cases later : getField key rest with
    | some child => simpa [later] using ih
    | none => by_cases same : own = key <;> simp [same]

variable {visit : List String → List String}

theorem arraysUnder_eq (fields : List (String × Json)) (key : String) :
    arraysUnder visit fields key = ((getField key fields).map (arraysIn visit)).getD [] := by
  apply eq_of_lastField
  · intro key
    rfl
  · intro own v rest key
    rw [arraysUnder]

theorem Reaches.of_mem {v : Json} {items : List Json} (met : items ∈ arraysIn visit v) :
    Reaches v (arr items) := by
  induction v using fields_induction with
  | leaf v none =>
    cases v with
    | arr own =>
      rw [arraysIn, List.mem_singleton] at met
      exact met ▸ .here _
    | obj fields => cases none
    | _ => cases met
  | object fields ih =>
    rw [arraysIn, List.mem_flatMap] at met
    obtain ⟨key, _, under⟩ := met
    rw [arraysUnder_eq] at under
    cases listed : getField key fields with
    | none => simp [listed] at under
    | some child => exact .field listed (ih key child listed (by simpa [listed] using under))

theorem Reaches.mem {v : Json} {items : List Json} (reached : Reaches v (arr items))
    (complete : ∀ known, known ⊆ visit known) : items ∈ arraysIn visit v := by
  generalize target : arr items = w at reached
  induction reached with
  | here v =>
    subst target
    exact List.mem_singleton.mpr rfl
  | @field fields key child _ listed _ ih =>
    rw [arraysIn, List.mem_flatMap]
    refine ⟨key, complete _ (mem_keys.mpr (by rw [listed]; rfl)), ?_⟩
    rw [arraysUnder_eq, listed]
    exact ih target

end Json

theorem findSome?_flatMap {α β γ : Type*} (p : β → Option γ) (f : α → List β) (xs : List α) :
    (xs.flatMap f).findSome? p = xs.findSome? fun x => (f x).findSome? p := by
  induction xs with
  | nil => rfl
  | cons x xs ih =>
    rw [List.flatMap_cons, List.findSome?_append, ih, List.findSome?_cons]
    cases (f x).findSome? p <;> rfl

theorem map_of_mapM {α β : Type*} {f : α → Option β} {xs : List α} {ys : List β}
    (all : xs.mapM f = some ys) : xs.map f = ys.map some := by
  induction xs generalizing ys with
  | nil =>
    cases all
    rfl
  | cons x xs ih =>
    rw [List.mapM_cons] at all
    obtain ⟨y, first, all⟩ := Option.bind_eq_some_iff.mp all
    obtain ⟨rest, later, all⟩ := Option.bind_eq_some_iff.mp all
    cases all
    rw [List.map_cons, List.map_cons, first, ih later]

theorem filterMap_of_mapM {α β : Type*} {f : α → Option β} {xs : List α} {ys : List β}
    (all : xs.mapM f = some ys) : xs.filterMap f = ys := by
  calc xs.filterMap f = (xs.map f).filterMap id := by rw [List.filterMap_map, Function.id_comp]
    _ = (ys.map some).filterMap id := by rw [map_of_mapM all]
    _ = ys := by rw [List.filterMap_map, Function.id_comp, List.filterMap_some]

end Base
