import Mathlib.Logic.Function.Basic
import Mathlib.Data.List.Induction

namespace Base

variable {κ ν : Type*} [DecidableEq κ]

/-- One update of a keyed store: `(k, some v)` writes the key, `(k, none)` clears it. -/
abbrev Update (κ ν : Type*) := κ × Option ν

def applyUpdate (m : κ → Option ν) (u : Update κ ν) : κ → Option ν := Function.update m u.1 u.2

def replay (m : κ → Option ν) (us : List (Update κ ν)) : κ → Option ν := us.foldl applyUpdate m

def lastFor (k : κ) : List (Update κ ν) → Option (Option ν)
  | [] => none
  | u :: us => (lastFor k us).or (if u.1 = k then some u.2 else none)

@[simp] theorem replay_nil (m : κ → Option ν) : replay m [] = m := rfl

@[simp] theorem replay_cons (m : κ → Option ν) (u : Update κ ν) (us : List (Update κ ν)) :
    replay m (u :: us) = replay (applyUpdate m u) us := rfl

theorem replay_append (m : κ → Option ν) (us vs : List (Update κ ν)) :
    replay m (us ++ vs) = replay (replay m us) vs := List.foldl_append

theorem applyUpdate_self (m : κ → Option ν) (u : Update κ ν) : applyUpdate m u u.1 = u.2 :=
  Function.update_self ..

theorem replay_singleton (m : κ → Option ν) (u : Update κ ν) : replay m [u] u.1 = u.2 :=
  applyUpdate_self m u

theorem applyUpdate_of_ne (m : κ → Option ν) {u : Update κ ν} {k : κ} (other : k ≠ u.1) :
    applyUpdate m u k = m k := Function.update_of_ne other ..

theorem applyUpdate_idle (m : κ → Option ν) {u : Update κ ν} (idle : m u.1 = u.2) :
    applyUpdate m u = m := by
  rw [applyUpdate, ← idle]
  exact Function.update_eq_self u.1 m

theorem replay_eq_lastFor (m : κ → Option ν) (us : List (Update κ ν)) (k : κ) :
    replay m us k = (lastFor k us).getD (m k) := by
  induction us generalizing m with
  | nil => rfl
  | cons u us ih =>
    rw [replay_cons, ih, lastFor]
    cases lastFor k us with
    | some v => rfl
    | none =>
      by_cases same : u.1 = k
      · subst same
        simp [applyUpdate_self]
      · simp [same, applyUpdate_of_ne m (Ne.symm same)]

theorem lastFor_eq_none {k : κ} {us : List (Update κ ν)} :
    lastFor k us = none ↔ ∀ u ∈ us, u.1 ≠ k := by
  induction us with
  | nil => simp [lastFor]
  | cons u us ih =>
    simp only [lastFor, Option.or_eq_none_iff, ih, List.mem_cons, forall_eq_or_imp,
      ite_eq_right_iff, reduceCtorEq, imp_false]
    exact And.comm

theorem mem_of_lastFor {k : κ} {us : List (Update κ ν)} {v : Option ν}
    (last : lastFor k us = some v) : (k, v) ∈ us := by
  induction us with
  | nil => cases last
  | cons u us ih =>
    rw [lastFor] at last
    cases later : lastFor k us with
    | some w =>
      rw [later] at last
      cases last
      exact List.mem_cons_of_mem _ (ih later)
    | none =>
      rw [later, Option.none_or] at last
      split at last
      · rename_i key
        cases last
        exact key ▸ List.mem_cons_self
      · cases last

theorem mem_of_replay {k : κ} {us : List (Update κ ν)} {v : ν}
    (stored : replay (fun _ => none) us k = some v) : (k, some v) ∈ us := by
  rw [replay_eq_lastFor] at stored
  cases last : lastFor k us with
  | none => simp [last] at stored
  | some w =>
    rw [last, Option.getD_some] at stored
    exact mem_of_lastFor (stored ▸ last)

theorem replay_of_untouched (m : κ → Option ν) {us : List (Update κ ν)} {k : κ}
    (untouched : ∀ u ∈ us, u.1 ≠ k) : replay m us k = m k := by
  rw [replay_eq_lastFor, lastFor_eq_none.mpr untouched, Option.getD_none]

theorem replay_filter (m : κ → Option ν) (us : List (Update κ ν)) (k : κ) :
    replay m us k = replay m (us.filter fun u => u.1 = k) k := by
  induction us using List.reverseRecOn with
  | nil => rfl
  | append_singleton us u ih =>
    rw [replay_append, List.filter_append]
    by_cases same : u.1 = k
    · subst same
      rw [List.filter_cons_of_pos (by simp), replay_append]
      exact (applyUpdate_self _ u).trans (applyUpdate_self _ u).symm
    · rw [List.filter_cons_of_neg (by simpa using same), List.filter_nil, List.append_nil, ← ih]
      exact applyUpdate_of_ne _ (Ne.symm same)

theorem replay_difference {m : κ → Option ν} {us : List (Update κ ν)} {k : κ} {v : Option ν}
    (own : (m k = v ∧ us.filter (fun u => u.1 = k) = []) ∨
      us.filter (fun u => u.1 = k) = [(k, v)]) : replay m us k = v := by
  rw [replay_filter]
  rcases own with ⟨same, quiet⟩ | told
  · rw [quiet]
    exact same
  · rw [told]
    exact applyUpdate_self m (k, v)

theorem replay_congr {m m' : κ → Option ν} {k : κ} (same : m k = m' k)
    (us : List (Update κ ν)) : replay m us k = replay m' us k := by
  rw [replay_eq_lastFor, replay_eq_lastFor, same]

theorem replay_suffix {m : κ → Option ν} {us vs : List (Update κ ν)} {k : κ}
    (current : m k = replay (fun _ => none) (us ++ vs) k) :
    replay m vs k = replay (fun _ => none) (us ++ vs) k := by
  rw [replay_append, replay_eq_lastFor] at current ⊢
  rw [replay_eq_lastFor]
  cases last : lastFor k vs with
  | some v => rfl
  | none =>
    rw [last] at current
    exact current

theorem replay_superseded (m : κ → Option ν) (us vs : List (Update κ ν)) (u : Update κ ν)
    (later : ∃ v ∈ vs, v.1 = u.1) : replay m (us ++ u :: vs) = replay m (us ++ vs) := by
  funext k
  simp only [replay_append, replay_cons]
  rw [replay_eq_lastFor, replay_eq_lastFor (replay m us) vs]
  by_cases same : k = u.1
  · obtain ⟨v, member, key⟩ := later
    cases last : lastFor k vs with
    | none => exact absurd (key.trans same.symm) (lastFor_eq_none.mp last v member)
    | some w => rfl
  · rw [applyUpdate_of_ne _ same]

theorem replay_redundant (m : κ → Option ν) (us vs : List (Update κ ν)) (u : Update κ ν)
    (idle : replay m us u.1 = u.2) : replay m (us ++ u :: vs) = replay m (us ++ vs) := by
  simp only [replay_append, replay_cons, applyUpdate_idle _ idle]

theorem replay_rename {ι : Type*} [DecidableEq ι] (f : κ → ι) (injective : Function.Injective f)
    (us : List (Update κ ν)) (k : κ) :
    replay (fun _ => none) (us.map fun u => (f u.1, u.2)) (f k) =
      replay (fun _ => none) us k := by
  have last : lastFor (f k) (us.map fun u => (f u.1, u.2)) = lastFor k us := by
    induction us with
    | nil => rfl
    | cons u us ih => simp only [List.map_cons, lastFor, ih, injective.eq_iff]
  rw [replay_eq_lastFor, replay_eq_lastFor, last]

/-- A reader that joins after `start` updates: it sees each key either as some later prefix of
    the updates leaves it, or not at all when no update has touched it yet, and then every
    update from `start` on. It ends with the store of all updates. -/
theorem replay_catch_up (us : List (Update κ ν)) (start : Nat) (seen : κ → Option ν)
    (snapshot : ∀ k, (∃ n, start ≤ n ∧ seen k = replay (fun _ => none) (us.take n) k) ∨
      (seen k = none ∧ ∀ u ∈ us.take start, u.1 ≠ k)) :
    replay seen (us.drop start) = replay (fun _ => none) us := by
  funext k
  have whole : replay (fun _ => none) us k =
      (lastFor k (us.drop start)).getD (replay (fun _ => none) (us.take start) k) := by
    conv_lhs => rw [← List.take_append_drop start us, replay_append]
    exact replay_eq_lastFor ..
  rw [whole, replay_eq_lastFor]
  cases last : lastFor k (us.drop start) with
  | some v => rfl
  | none =>
    have quiet := lastFor_eq_none.mp last
    rw [Option.getD_none, Option.getD_none]
    rcases snapshot k with ⟨n, bound, value⟩ | ⟨absent, untouched⟩
    · have split : us.take n = us.take start ++ (us.drop start).take (n - start) := by
        rw [← List.take_add, Nat.add_sub_cancel' bound]
      rw [value, split, replay_append]
      exact replay_of_untouched _ fun u member => quiet u (List.mem_of_mem_take member)
    · rw [absent, replay_of_untouched _ untouched]

end Base
