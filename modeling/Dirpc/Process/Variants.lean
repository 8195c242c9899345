import Dirpc.Process.Matching

namespace Dirpc

open Base

def markers : List (List Char) :=
  [['.', 'x', '6', '4'], ['x', '6', '4'], ['_', '6', '4'], ['6', '4']]

structure LongestMarker (name marker : List Char) : Prop where
  listed : marker ∈ markers
  suffix : marker <:+ name
  longest : ∀ other ∈ markers, other <:+ name → other.length ≤ marker.length

theorem take_append_suffix {name marker : List Char} (suffix : marker <:+ name) :
    name = name.take (name.length - marker.length) ++ marker := by
  obtain ⟨front, rfl⟩ := suffix
  rw [List.length_append, Nat.add_sub_cancel, List.take_left]

theorem unmarked_cases (name : List Char) :
    (∃ marker, LongestMarker name marker ∧ name = unmarked name ++ marker) ∨
      ((∀ marker ∈ markers, ¬marker <:+ name) ∧ unmarked name = name) := by
  unfold unmarked
  by_cases dotted : ['.', 'x', '6', '4'] <:+ name
  · rw [if_pos dotted]
    exact .inl ⟨_, ⟨by simp [markers], dotted, by simp [markers]⟩, take_append_suffix dotted⟩
  rw [if_neg dotted]
  by_cases three : ['x', '6', '4'] <:+ name ∨ ['_', '6', '4'] <:+ name
  · rw [if_pos three]
    rcases three with crossed | lined
    · exact .inl ⟨_, ⟨by simp [markers], crossed, by simp [markers, dotted]⟩,
        take_append_suffix crossed⟩
    · exact .inl ⟨_, ⟨by simp [markers], lined, by simp [markers, dotted]⟩,
        take_append_suffix lined⟩
  rw [if_neg three]
  obtain ⟨crossed, lined⟩ := not_or.mp three
  by_cases bare : ['6', '4'] <:+ name
  · rw [if_pos bare]
    exact .inl ⟨_, ⟨by simp [markers], bare, by simp [markers, dotted, crossed, lined]⟩,
      take_append_suffix bare⟩
  · rw [if_neg bare]
    exact .inr ⟨by simp [markers, dotted, crossed, lined, bare], rfl⟩

theorem strip_longest_marker (name : List Char) :
    ∃ rest, strip64Suffix name = some rest ∧
      ((∃ marker, LongestMarker name marker ∧ name = rest ++ marker) ∨
        ((∀ marker ∈ markers, ¬marker <:+ name) ∧ rest = name)) ∧
      (byteLen rest < byteLen name ↔ ['6', '4'] <:+ name) := by
  refine ⟨unmarked name, strip64Suffix_eq name, unmarked_cases name, ?_⟩
  constructor
  · intro shorter
    by_contra bare
    rcases unmarked_cases name with ⟨marker, longest, split⟩ | ⟨_, same⟩
    · have ends : ['6', '4'] <:+ marker := by
        have all : ∀ marker ∈ markers, ['6', '4'] <:+ marker := by decide
        exact all marker longest.listed
      exact bare (ends.trans longest.suffix)
    · rw [same] at shorter
      exact Nat.lt_irrefl _ shorter
  · exact unmarked_shorter

def suffixes (parts : List (List Char)) : Nat → List (List Char)
  | 0 => []
  | k + 1 => joinSlash (parts.rtake (k + 1)) :: suffixes parts k

/-- The candidates for the components of a path: each suffix of at most four of them, the longest
    first, and after it what is left of it without its 64-bit marker. -/
def plainVariants (parts : List (List Char)) : List (List Char) :=
  (suffixes parts (min parts.length 4)).flatMap variantPair

theorem rtake_succ {parts : List (List Char)} {k : Nat} (enough : k < parts.length) :
    ∃ part, parts.rtake (k + 1) = part :: parts.rtake k := by
  have position : parts.length - (k + 1) < parts.length := by omega
  have next : parts.length - (k + 1) + 1 = parts.length - k := by omega
  refine ⟨parts[parts.length - (k + 1)], ?_⟩
  rw [List.rtake, List.rtake, List.drop_eq_getElem_cons position, next]

theorem variantsOf_rtake {parts : List (List Char)} {k : Nat} (enough : k ≤ parts.length) :
    variantsOf (parts.rtake k) = (suffixes parts k).flatMap variantPair := by
  induction k with
  | zero => rw [List.rtake_zero]; rfl
  | succ k ih =>
    obtain ⟨part, split⟩ := rtake_succ enough
    rw [suffixes, List.flatMap_cons, split, variantsOf, ih (Nat.le_of_succ_le enough)]

theorem variantPair_length (suffix : List Char) : (variantPair suffix).length ≤ 2 := by
  unfold variantPair
  split
  · exact Nat.le_refl 2
  · exact Nat.le_succ 1

theorem plainVariants_length (parts : List (List Char)) : (plainVariants parts).length ≤ 8 := by
  have pairs (k : Nat) : ((suffixes parts k).flatMap variantPair).length ≤ 2 * k := by
    induction k with
    | zero => exact Nat.le_refl 0
    | succ k ih =>
      have first := variantPair_length (joinSlash (parts.rtake (k + 1)))
      rw [suffixes, List.flatMap_cons, List.length_append]
      omega
  have few := pairs (min parts.length 4)
  rw [plainVariants]
  omega

theorem pathVariants_plain (path : String) : pathVariants path =
    some ((plainVariants (components path.toList)).map String.ofList) := by
  have few : min (components path.toList).length 4 ≤ (components path.toList).length :=
    Nat.min_le_left ..
  have start : (components path.toList).length - 4 = (components path.toList).length -
      min (components path.toList).length 4 := by omega
  rw [pathVariants_eq, plainVariants, ← variantsOf_rtake few, List.rtake, start]

theorem path_variants_listed (path : String) :
    ∃ variants, pathVariants path = some variants ∧
      variants = (plainVariants (components path.toList)).map String.ofList ∧
      (components path.toList = [] → variants = []) ∧ variants.length ≤ 8 := by
  refine ⟨_, pathVariants_plain path, rfl, ?_, ?_⟩
  · intro none
    rw [none]
    rfl
  · rw [List.length_map]
    exact plainVariants_length _

theorem pathFilename_blank {path : String} :
    pathFilename path = some "" ↔ components path.toList = [] := by
  rw [pathFilename_eq]
  constructor
  · intro blank
    have empty : (components path.toList).getLast?.getD [] = [] := by
      simpa using congrArg String.toList (Option.some.inj blank)
    rcases List.eq_nil_or_concat (components path.toList) with none | ⟨front, last, split⟩
    · exact none
    · rw [split, List.concat_eq_append, List.getLast?_concat, Option.getD_some] at empty
      have member : last ∈ components path.toList := by simp [split]
      exact absurd empty (mem_components member).1
  · intro none
    rw [none]
    rfl

theorem joinSlash_cons {part : List Char} {rest : List (List Char)} (more : rest ≠ []) :
    byteLen (joinSlash (part :: rest)) = byteLen part + 1 + byteLen (joinSlash rest) := by
  obtain ⟨next, others, rfl⟩ := List.exists_cons_of_ne_nil more
  have joined : joinSlash (part :: next :: others) = part ++ '/' :: joinSlash (next :: others) := by
    simp [joinSlash, List.intercalate_cons_cons]
  have slash : Char.utf8Size '/' = 1 := rfl
  rw [joined, byteLen_append, byteLen_cons, slash, Nat.add_assoc]

theorem suffixes_shortest {parts : List (List Char)} {k : Nat} (enough : k < parts.length) :
    parts.getLast?.getD [] ∈ suffixes parts (k + 1) ∧
      ∀ other ∈ suffixes parts (k + 1), other = parts.getLast?.getD [] ∨
        byteLen (parts.getLast?.getD []) < byteLen other := by
  induction k with
  | zero =>
    obtain ⟨front, last, split⟩ := (List.eq_nil_or_concat parts).resolve_left (by
      rintro rfl
      exact Nat.lt_irrefl 0 enough)
    rw [List.concat_eq_append] at split
    have only : suffixes parts 1 = [last] := by
      rw [suffixes, suffixes, split, List.rtake_concat_succ, List.rtake_zero]
      simp [joinSlash]
    rw [only, split, List.getLast?_concat]
    simp
  | succ k ih =>
    have fewer : k < parts.length := Nat.lt_of_succ_lt enough
    obtain ⟨listed, shortest⟩ := ih fewer
    refine ⟨List.mem_cons_of_mem _ listed, ?_⟩
    intro other member
    rcases List.mem_cons.mp member with rfl | later
    · obtain ⟨part, split⟩ := rtake_succ enough
      obtain ⟨next, others⟩ := rtake_succ fewer
      have more : parts.rtake (k + 1) ≠ [] := by simp [others]
      have longer : byteLen (joinSlash (part :: parts.rtake (k + 1))) =
          byteLen part + 1 + byteLen (joinSlash (parts.rtake (k + 1))) := joinSlash_cons more
      have before : byteLen (parts.getLast?.getD []) ≤ byteLen (joinSlash (parts.rtake (k + 1))) := by
        rcases shortest _ List.mem_cons_self with same | less
        · rw [same]
        · exact Nat.le_of_lt less
      right
      rw [split, longer]
      omega
    · exact shortest other later

/-- Paths with the same components are the same to both matchers. The file name is the last
    component, which is the shortest of the suffixes that the variants are made from. -/
theorem components_decide {p q : String} (same : components p.toList = components q.toList) :
    pathVariants p = pathVariants q ∧ pathFilename p = pathFilename q ∧
      (∀ args entries, matchProcess p args entries = matchProcess q args entries) ∧
      (∀ (db : DetectableDb) args, db.matchProcess p args = db.matchProcess q args) ∧
      (pathFilename p = some "" ↔ components p.toList = []) ∧
      ∀ last, (components p.toList).getLast? = some last →
        pathFilename p = some (String.ofList last) ∧
        pathVariants p = some (((suffixes (components p.toList)
          (min (components p.toList).length 4)).flatMap variantPair).map String.ofList) ∧
        last ∈ suffixes (components p.toList) (min (components p.toList).length 4) ∧
        ∀ other ∈ suffixes (components p.toList) (min (components p.toList).length 4),
          other = last ∨ byteLen last < byteLen other := by
  have variants : pathVariants p = pathVariants q := by rw [pathVariants_eq, pathVariants_eq, same]
  have filename : pathFilename p = pathFilename q := by rw [pathFilename_eq, pathFilename_eq, same]
  refine ⟨variants, filename, ?_, ?_, pathFilename_blank, ?_⟩
  · intro args entries
    rw [matchProcess, matchProcess, variants, filename]
  · intro db args
    rw [DetectableDb.matchProcess, DetectableDb.matchProcess, variants, filename]
  · intro last found
    have filled : 0 < (components p.toList).length := by
      apply List.length_pos_iff.mpr
      intro none
      rw [none] at found
      cases found
    obtain ⟨k, count⟩ : ∃ k, min (components p.toList).length 4 = k + 1 :=
      ⟨min (components p.toList).length 4 - 1, by omega⟩
    have enough : k < (components p.toList).length := by omega
    have shortest := suffixes_shortest enough
    rw [found, Option.getD_some] at shortest
    refine ⟨?_, pathVariants_plain p, ?_⟩
    · rw [pathFilename_eq, found, Option.getD_some]
    · rw [count]
      exact shortest

theorem components_decide_mixed :
    pathVariants "/games//b.exe" = pathVariants "games\\b.exe/" ∧
      pathFilename "/games//b.exe" = pathFilename "games\\b.exe/" := by
  have same : components "/games//b.exe".toList = components "games\\b.exe/".toList := by decide
  obtain ⟨variants, filename, _⟩ := components_decide same
  exact ⟨variants, filename⟩

end Dirpc
