import Mathlib.Data.List.Basic

namespace Base

variable {α β : Type*}

/-- Position `p` of the list holds the element number `i` of those that pass the test. -/
def NthOf (test : α → Bool) (xs : List α) (i p : Nat) : Prop :=
  (∃ x, xs[p]? = some x ∧ test x = true) ∧ (xs.take p).countP test = i

variable {test other : α → Bool} {xs : List α} {i p q : Nat}

theorem countP_take_succ (test : α → Bool) {x : α} (at_p : xs[p]? = some x) :
    (xs.take (p + 1)).countP test = (xs.take p).countP test + if test x then 1 else 0 := by
  rw [List.take_add_one, at_p, List.countP_append, Option.toList_some, List.countP_singleton]

theorem countP_take_mono (test : α → Bool) (xs : List α) (le : p ≤ q) :
    (xs.take p).countP test ≤ (xs.take q).countP test :=
  (List.take_sublist_take_left le).countP_le

theorem NthOf.lt {q : Nat} (nth : NthOf test xs i p) (after : p < q) :
    i < (xs.take q).countP test := by
  obtain ⟨⟨x, at_p, passes⟩, before⟩ := nth
  have next := countP_take_succ test at_p
  have later := countP_take_mono test xs (show p + 1 ≤ q from after)
  rw [passes, if_pos rfl, before] at next
  omega

theorem NthOf.unique (first : NthOf test xs i p) (second : NthOf test xs i q) : p = q := by
  rcases Nat.lt_trichotomy p q with less | same | more
  · have := first.lt less
    rw [second.2] at this
    omega
  · exact same
  · have := second.lt more
    rw [first.2] at this
    omega

theorem NthOf.lt_countP (nth : NthOf test xs i p) : i < xs.countP test :=
  Nat.lt_of_lt_of_le (nth.lt (Nat.lt_add_one p)) (List.take_sublist (p + 1) xs).countP_le

theorem exists_nthOf (enough : i < xs.countP test) : ∃ p, NthOf test xs i p := by
  induction xs generalizing i with
  | nil => cases enough
  | cons x xs ih =>
    rw [List.countP_cons] at enough
    by_cases passes : test x = true
    · cases i with
      | zero => exact ⟨0, ⟨x, rfl, passes⟩, rfl⟩
      | succ i =>
        rw [if_pos passes] at enough
        obtain ⟨p, found, before⟩ := ih (i := i) (by omega)
        refine ⟨p + 1, found, ?_⟩
        rw [List.take_succ_cons, List.countP_cons, before, if_pos passes]
    · rw [if_neg passes] at enough
      obtain ⟨p, found, before⟩ := ih (i := i) enough
      refine ⟨p + 1, found, ?_⟩
      rw [List.take_succ_cons, List.countP_cons, before, if_neg passes, Nat.add_zero]

theorem NthOf.filterMap {f : α → Option β} (nth : NthOf (fun x => (f x).isSome) xs i p) :
    (xs.filterMap f)[i]? = (xs[p]?).bind f := by
  obtain ⟨⟨x, at_p, passes⟩, before⟩ := nth
  obtain ⟨y, mapped⟩ := Option.isSome_iff_exists.mp passes
  have split : xs = xs.take p ++ x :: xs.drop (p + 1) := by
    obtain ⟨inside, rfl⟩ := List.getElem?_eq_some_iff.mp at_p
    rw [← List.drop_eq_getElem_cons inside, List.take_append_drop]
  have length : ((xs.take p).filterMap f).length = i := by
    rw [List.length_filterMap_eq_countP, before]
  rw [at_p, Option.bind_some]
  conv_lhs => rw [split, List.filterMap_append, List.filterMap_cons_some mapped]
  rw [List.getElem?_append_right (by omega), length, Nat.sub_self, mapped]
  rfl

/-- An element that passes one test only is not followed by one that passes the other. -/
def Orderly (test other : α → Bool) (xs : List α) : Prop :=
  xs.Pairwise fun x y =>
    (test x = true → other x = false → other y = false) ∧
      (other x = true → test x = false → test y = false)

theorem orderly_iff : Orderly test other xs ↔
    ∀ {p q : Nat} {x y : α}, xs[p]? = some x → xs[q]? = some y → p < q →
      (test x = true → other x = false → other y = false) ∧
        (other x = true → test x = false → test y = false) := by
  rw [Orderly, List.pairwise_iff_getElem]
  constructor
  · intro pairwise p q x y at_p at_q less
    obtain ⟨inside, rfl⟩ := List.getElem?_eq_some_iff.mp at_p
    obtain ⟨inside', rfl⟩ := List.getElem?_eq_some_iff.mp at_q
    exact pairwise p q inside inside' less
  · intro related p q inside inside' less
    exact related (List.getElem?_eq_getElem inside) (List.getElem?_eq_getElem inside') less

theorem Orderly.symm (orderly : Orderly test other xs) : Orderly other test xs :=
  orderly.imp fun related => ⟨related.2, related.1⟩

theorem countP_take_eq (same : ∀ r x, r < p → xs[r]? = some x → test x = other x) :
    (xs.take p).countP test = (xs.take p).countP other := by
  apply List.countP_congr
  intro x member
  obtain ⟨r, inside, rfl⟩ := List.mem_take_iff_getElem.mp member
  rw [same r _ (by omega) (List.getElem?_eq_getElem (by omega))]

theorem Orderly.both {x : α} (orderly : Orderly test other xs) (at_p : xs[p]? = some x)
    (passes : test x = true) (passes' : other x = true) :
    NthOf test xs ((xs.take p).countP test) p ∧ NthOf other xs ((xs.take p).countP test) p := by
  have same : (xs.take p).countP test = (xs.take p).countP other := by
    apply countP_take_eq
    intro r y less at_r
    have related := orderly_iff.mp orderly at_r at_p less
    cases left : test y <;> cases right : other y
    · rfl
    · exact absurd passes (by simp [related.2 right left])
    · exact absurd passes' (by simp [related.1 left right])
    · rfl
  exact ⟨⟨⟨x, at_p, passes⟩, rfl⟩, ⟨x, at_p, passes'⟩, same.symm⟩

theorem Orderly.not_lt (orderly : Orderly test other xs) (first : NthOf test xs i p)
    (second : NthOf other xs i q) : ¬p < q := by
  intro less
  obtain ⟨x, at_p, passes⟩ := first.1
  obtain ⟨y, at_q, passes'⟩ := second.1
  have both : other x = true := by
    cases right : other x
    · have none := (orderly_iff.mp orderly at_p at_q less).1 passes right
      rw [passes'] at none
      cases none
    · rfl
  obtain ⟨_, there⟩ := orderly.both at_p passes both
  rw [first.2] at there
  exact absurd (there.unique second) (Nat.ne_of_lt less)

theorem Orderly.aligned (orderly : Orderly test other xs) (first : NthOf test xs i p)
    (second : NthOf other xs i q) : p = q :=
  Nat.le_antisymm (Nat.le_of_not_lt (orderly.symm.not_lt second first))
    (Nat.le_of_not_lt (orderly.not_lt first second))

theorem only_of_aligned (aligned : ∀ {i p q}, NthOf test xs i p → NthOf other xs i q → p = q)
    {x y : α} (at_p : xs[p]? = some x) (at_q : xs[q]? = some y) (less : p < q)
    (passes : test x = true) (fails : other x = false) : other y = false := by
  cases passes' : other y
  · rfl
  have first : NthOf test xs ((xs.take p).countP test) p := ⟨⟨x, at_p, passes⟩, rfl⟩
  have second : NthOf other xs ((xs.take q).countP other) q := ⟨⟨y, at_q, passes'⟩, rfl⟩
  by_cases enough : (xs.take p).countP test < xs.countP other
  · obtain ⟨r, found⟩ := exists_nthOf enough
    obtain rfl := aligned first found
    obtain ⟨z, at_r, positive⟩ := found.1
    rw [at_p] at at_r
    cases at_r
    rw [fails] at positive
    cases positive
  · have total := second.lt_countP
    have bound := (List.take_sublist p xs).countP_le (p := test)
    have enough' : (xs.take q).countP other < xs.countP test := by omega
    obtain ⟨r, found⟩ := exists_nthOf enough'
    obtain rfl := aligned found second
    have before := first.lt less
    rw [found.2] at before
    omega

theorem orderly_iff_aligned :
    Orderly test other xs ↔ ∀ {i p q}, NthOf test xs i p → NthOf other xs i q → p = q := by
  constructor
  · intro orderly i p q first second
    exact orderly.aligned first second
  · intro aligned
    refine orderly_iff.mpr fun at_p at_q less => ⟨only_of_aligned aligned at_p at_q less, ?_⟩
    exact only_of_aligned (fun first second => (aligned second first).symm) at_p at_q less

end Base
