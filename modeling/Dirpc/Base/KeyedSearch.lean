import Mathlib.Data.List.Basic

namespace Base

variable {κ α : Type*}

/-- The first element in list order that passes the test, among those under the first key that
    leads to one. -/
def keyedFind (under : κ → α → Bool) (test : α → Bool) (keys : List κ) (xs : List α) : Option α :=
  keys.findSome? fun key => xs.find? fun x => under key x && test x

def reachedAt (under : κ → α → Bool) (keys : List κ) (x : α) : Nat :=
  keys.findIdx fun key => under key x

/-- An element that passes the test after others is not reached before all of them. -/
def Unovertaken (under : κ → α → Bool) (test : α → Bool) (keys : List κ) (xs : List α) : Prop :=
  ∀ before x after, xs = before ++ x :: after → test x = true → (∃ y ∈ before, test y = true) →
    ∃ y ∈ before, test y = true ∧ reachedAt under keys y ≤ reachedAt under keys x

variable {under : κ → α → Bool} {test : α → Bool} {keys : List κ} {xs : List α}

theorem reachedAt_lt {front back : List κ} {x : α} :
    reachedAt under (front ++ back) x < front.length ↔ ∃ key ∈ front, under key x = true := by
  rw [reachedAt, List.findIdx_append, ← List.findIdx_lt_length]
  split
  · rename_i found
    exact iff_of_true found found
  · rename_i missed
    exact iff_of_false (by omega) missed

theorem keyedFind_eq_some {x : α} (found : keyedFind under test keys xs = some x) :
    ∃ front key back, keys = front ++ key :: back ∧
      (xs.find? fun y => under key y && test y) = some x ∧
      ∀ earlier ∈ front, ∀ y ∈ xs, test y = true → under earlier y = false := by
  obtain ⟨front, key, back, split, hit, missed⟩ := List.findSome?_eq_some_iff.mp found
  refine ⟨front, key, back, split, hit, ?_⟩
  intro earlier member y inside positive
  have none := List.find?_eq_none.mp (missed earlier member) y inside
  simpa [positive] using none

theorem Unovertaken.first_le (unovertaken : Unovertaken under test keys xs) {y : α}
    (first : xs.find? test = some y) {before after : List α} {x : α}
    (split : xs = before ++ x :: after) (passes : test x = true) :
    reachedAt under keys y ≤ reachedAt under keys x := by
  induction length : before.length using Nat.strongRecOn generalizing before x after with
  | _ n ih =>
    by_cases others : ∃ z ∈ before, test z = true
    · obtain ⟨z, member, positive, le⟩ := unovertaken before x after split passes others
      obtain ⟨init, tail, rfl⟩ := List.append_of_mem member
      have shorter : init.length < n := by
        rw [← length, List.length_append, List.length_cons]
        omega
      have shape : xs = init ++ z :: (tail ++ x :: after) := by
        rw [split, List.append_assoc, List.cons_append]
      exact Nat.le_trans (ih _ shorter shape positive rfl) le
    · have own : xs.find? test = some x := by
        refine List.find?_eq_some_iff_append.mpr ⟨passes, before, after, split, ?_⟩
        intro z member
        simpa using fun positive => others ⟨z, member, positive⟩
      cases first.symm.trans own
      exact Nat.le_refl _

theorem Unovertaken.find_eq (unovertaken : Unovertaken under test keys xs) {x y : α}
    (keyed : keyedFind under test keys xs = some x) (first : xs.find? test = some y) : x = y := by
  obtain ⟨front, key, back, split, hit, missed⟩ := keyedFind_eq_some keyed
  obtain ⟨both, before, after, place, _⟩ := List.find?_eq_some_iff_append.mp hit
  obtain ⟨positive, init, tail, place', none⟩ := List.find?_eq_some_iff_append.mp first
  obtain ⟨listed, passes⟩ := Bool.and_eq_true_iff.mp both
  have le := unovertaken.first_le first place passes
  have shape : keys = (front ++ [key]) ++ back := by
    rw [split, List.append_assoc, List.singleton_append]
  rw [shape] at le
  have reached : reachedAt under ((front ++ [key]) ++ back) x < (front ++ [key]).length :=
    reachedAt_lt.mpr ⟨key, List.mem_append_right front List.mem_cons_self, listed⟩
  obtain ⟨other, member, under_other⟩ := reachedAt_lt.mp (Nat.lt_of_le_of_lt le reached)
  have own : under key y = true := by
    rcases List.mem_append.mp member with earlier | last
    · have absent := missed other earlier y (List.mem_of_find?_eq_some first) positive
      rw [under_other] at absent
      cases absent
    · rwa [List.mem_singleton.mp last] at under_other
  have again : (xs.find? fun z => under key z && test z) = some y := by
    refine List.find?_eq_some_iff_append.mpr ⟨by rw [own, positive]; rfl, init, tail, place', ?_⟩
    intro z member
    have fails : test z = false := by simpa using none z member
    rw [fails, Bool.and_false]
    rfl
  exact Option.some.inj (hit.symm.trans again)

theorem keyedFind_isSome {x : α} (member : x ∈ xs) (passes : test x = true) {key : κ}
    (known : key ∈ keys) (listed : under key x = true) :
    ∃ y, keyedFind under test keys xs = some y := by
  apply Option.isSome_iff_exists.mp
  rw [keyedFind, List.findSome?_isSome_iff]
  refine ⟨key, known, ?_⟩
  rw [List.find?_isSome]
  exact ⟨x, member, by rw [listed, passes]; rfl⟩

theorem find_eq_iff_unovertaken :
    (∀ x y, keyedFind under test keys xs = some x → xs.find? test = some y → x = y) ↔
      Unovertaken under test keys xs := by
  constructor
  · intro agree before x after split passes others
    obtain ⟨y, first⟩ : ∃ y, before.find? test = some y := by
      apply Option.isSome_iff_exists.mp
      rw [List.find?_isSome]
      exact others
    have plain : xs.find? test = some y := by rw [split, List.find?_append, first]; rfl
    have positive := List.find?_some first
    refine ⟨y, List.mem_of_find?_eq_some first, positive, ?_⟩
    have member : x ∈ xs := by
      rw [split]
      exact List.mem_append_right before List.mem_cons_self
    by_cases reached : reachedAt under keys x < keys.length
    · obtain ⟨key, known, listed⟩ := List.findIdx_lt_length.mp reached
      obtain ⟨z, keyed⟩ := keyedFind_isSome member passes known listed
      obtain rfl := agree z y keyed plain
      obtain ⟨front, found, back, shape, hit, missed⟩ := keyedFind_eq_some keyed
      obtain ⟨both, _⟩ := List.find?_eq_some_iff_append.mp hit
      obtain ⟨listed', _⟩ := Bool.and_eq_true_iff.mp both
      have soon : reachedAt under ((front ++ [found]) ++ back) z < (front ++ [found]).length :=
        reachedAt_lt.mpr ⟨found, List.mem_append_right front List.mem_cons_self, listed'⟩
      have late : ¬reachedAt under (front ++ found :: back) x < front.length := by
        intro early
        obtain ⟨earlier, before_found, under_earlier⟩ := reachedAt_lt.mp early
        rw [missed earlier before_found x member passes] at under_earlier
        cases under_earlier
      rw [List.append_assoc, List.singleton_append, ← shape, List.length_append,
        List.length_singleton] at soon
      rw [← shape] at late
      omega
    · have bound : reachedAt under keys y ≤ keys.length := List.findIdx_le_length
      omega
  · intro unovertaken x y keyed first
    exact unovertaken.find_eq keyed first

section Rows

variable {β : Type*} {f g : κ → Option α} {shown : α → β}

theorem findSome?_congr {ks : List κ} (same : ∀ k ∈ ks, f k = g k) :
    ks.findSome? f = ks.findSome? g := by
  induction ks with
  | nil => rfl
  | cons k ks ih =>
    rw [List.findSome?_cons, List.findSome?_cons, same k List.mem_cons_self,
      ih fun other later => same other (List.mem_cons_of_mem _ later)]

/-- Where a key that leads nowhere under `f` leads somewhere under `g` before all others do, the first
    key behind it that leads somewhere under `f` leads to what is shown as the same. -/
def Undisturbed (f g : κ → Option α) (shown : α → β) (keys : List κ) : Prop :=
  ∀ before key after x, keys = before ++ key :: after →
    (∀ earlier ∈ before, f earlier = none ∧ g earlier = none) → f key = none → g key = some x →
      ∃ middle next rest y, after = middle ++ next :: rest ∧
        (∀ other ∈ middle, f other = none) ∧ f next = some y ∧ shown y = shown x

theorem undisturbed_of_none (nothing : ∀ key, g key = none) : Undisturbed f g shown keys := by
  intro before key after x _ _ _ found
  rw [nothing key] at found
  cases found

theorem undisturbed_cons_skip {key : κ} (missed : f key = none) (nothing : g key = none) :
    Undisturbed f g shown (key :: keys) ↔ Undisturbed f g shown keys := by
  constructor
  · intro undisturbed before next after x split earlier
    apply undisturbed (key :: before) next after x (by rw [split, List.cons_append])
    intro other member
    rcases List.mem_cons.mp member with rfl | later
    · exact ⟨missed, nothing⟩
    · exact earlier other later
  · intro undisturbed before next after x split earlier skipped found
    cases before with
    | nil =>
      obtain ⟨rfl, rfl⟩ := List.cons.inj split
      rw [nothing] at found
      cases found
    | cons head before =>
      obtain ⟨rfl, rest⟩ := List.cons.inj split
      exact undisturbed before next after x rest
        (fun other member => earlier other (List.mem_cons_of_mem _ member)) skipped found

theorem undisturbed_cons_found {key : κ} {x : α} (missed : f key = none) (found : g key = some x) :
    Undisturbed f g shown (key :: keys) ↔ (keys.findSome? f).map shown = some (shown x) := by
  constructor
  · intro undisturbed
    obtain ⟨middle, next, rest, y, rfl, skipped, hit, same⟩ :=
      undisturbed [] key keys x rfl nofun missed found
    have first : (middle ++ next :: rest).findSome? f = some y :=
      List.findSome?_eq_some_iff.mpr ⟨middle, next, rest, rfl, hit, skipped⟩
    rw [first, Option.map_some, same]
  · intro first before next after x' split earlier _ found'
    cases before with
    | cons head before =>
      obtain ⟨rfl, _⟩ := List.cons.inj split
      rw [(earlier _ List.mem_cons_self).2] at found
      cases found
    | nil =>
      obtain ⟨rfl, rfl⟩ := List.cons.inj split
      cases found.symm.trans found'
      obtain ⟨y, hit, same⟩ := Option.map_eq_some_iff.mp first
      obtain ⟨middle, next, rest, rfl, leads, skipped⟩ := List.findSome?_eq_some_iff.mp hit
      exact ⟨middle, next, rest, y, rfl, skipped, leads, same⟩

theorem findSome_or_iff_undisturbed :
    (keys.findSome? fun key => (f key).or (g key)).map shown = (keys.findSome? f).map shown ↔
      Undisturbed f g shown keys := by
  induction keys with
  | nil => exact iff_of_true rfl fun before key after x split => by simp at split
  | cons key keys ih =>
    rw [List.findSome?_cons, List.findSome?_cons]
    cases listed : f key with
    | some y =>
      refine iff_of_true rfl ?_
      intro before next after x split earlier missed
      cases before with
      | nil =>
        obtain ⟨rfl, _⟩ := List.cons.inj split
        rw [listed] at missed
        cases missed
      | cons head before =>
        obtain ⟨rfl, _⟩ := List.cons.inj split
        rw [(earlier _ List.mem_cons_self).1] at listed
        cases listed
    | none =>
      cases found : g key with
      | none => exact ih.trans (undisturbed_cons_skip listed found).symm
      | some x => exact eq_comm.trans (undisturbed_cons_found listed found).symm

end Rows

end Base
