import Dirpc.Base.KeyedSearch
import Dirpc.Process.Matching

namespace Dirpc

open Base

def declaring (exeName : String) (entry : DetectableEntry) : Bool :=
  entry.executables.any (·.name = exeName)

theorem declaring_iff {exeName : String} {entry : DetectableEntry} :
    declaring exeName entry = true ↔ entry.declares exeName := by
  simp [declaring, DetectableEntry.declares]

theorem findSome_declaredIds {α : Type} (f : String → Option α) (exeName : String)
    (entry : DetectableEntry) : (declaredIds exeName entry).findSome? f =
      if declaring exeName entry then f entry.id else none := by
  unfold declaredIds declaring
  induction entry.executables with
  | nil => rfl
  | cons exe rest ih =>
    by_cases same : exe.name = exeName
    · rw [List.filter_cons_of_pos (by simpa using same), List.map_cons, List.findSome?_cons,
        List.any_cons, decide_eq_true same, Bool.true_or, if_pos rfl, ih]
      cases f entry.id with
      | none => exact ite_self none
      | some found => rfl
    · rw [List.filter_cons_of_neg (by simpa using same), ih, List.any_cons, decide_eq_false same,
        Bool.false_or]

theorem lastWins_distinct {entries : List DetectableEntry}
    (distinct : (entries.map DetectableEntry.id).Nodup) : lastWins entries = entries := by
  induction entries with
  | nil => rfl
  | cons entry rest ih =>
    rw [List.map_cons, List.nodup_cons] at distinct
    have fresh : ¬rest.any (·.id == entry.id) = true := by
      intro again
      obtain ⟨other, member, same⟩ := List.any_eq_true.mp again
      exact distinct.1 (List.mem_map.mpr ⟨other, member, eq_of_beq same⟩)
    rw [lastWins, if_neg fresh, ih distinct.2]

section Rebuilt

variable {entries : List DetectableEntry} {variants : List String} {filename : String}
variable {args : List String}

theorem storedMatch_distinct (distinct : (entries.map DetectableEntry.id).Nodup)
    {entry : DetectableEntry} (member : entry ∈ entries) :
    storedMatch (appsTable entries) variants filename args entry.id =
      if entry.matchesProcess variants filename args then some entry else none := by
  have stored : (appsTable entries).lookup entry.id = some entry :=
    lookup_appsTable.mpr ⟨(lastWins_distinct distinct).symm ▸ member, rfl⟩
  rw [storedMatch, stored]
  rfl

theorem findSome_flatMap (distinct : (entries.map DetectableEntry.id).Nodup) (exeName : String)
    {part : List DetectableEntry} (inside : ∀ entry ∈ part, entry ∈ entries) :
    (part.flatMap (declaredIds exeName)).findSome?
        (storedMatch (appsTable entries) variants filename args) =
      part.find? fun entry =>
        declaring exeName entry && entry.matchesProcess variants filename args := by
  induction part with
  | nil => rfl
  | cons entry rest ih =>
    rw [List.flatMap_cons, List.findSome?_append, findSome_declaredIds,
      storedMatch_distinct distinct (inside entry List.mem_cons_self),
      ih fun other later => inside other (List.mem_cons_of_mem _ later), List.find?_cons]
    cases declaring exeName entry <;>
      cases entry.matchesProcess variants filename args <;> rfl

theorem indexedMatch_rebuilt (distinct : (entries.map DetectableEntry.id).Nodup)
    (exeName : String) :
    indexedMatch (appsTable entries) variants filename args
        ⟨some (tablesOf entries), fstOf entries, exeToIds entries⟩ exeName =
      entries.find? fun entry =>
        declaring exeName entry && entry.matchesProcess variants filename args := by
  rw [indexedMatch]
  split
  · rw [lookup_exeToIds, findSome_flatMap distinct exeName fun _ member => member]
  · rename_i unknown
    symm
    apply List.find?_eq_none.mpr
    intro entry member both
    obtain ⟨declared, _⟩ := Bool.and_eq_true_iff.mp both
    exact unknown (rebuilt_knows member (declaring_iff.mp declared)).1

theorem matchProcess_keyed (distinct : (entries.map DetectableEntry.id).Nodup) {path : String}
    (generated : pathVariants path = some variants) (named : pathFilename path = some filename)
    (args : List String) :
    (⟨some (tablesOf entries), fstOf entries, exeToIds entries⟩ : DetectableDb).matchProcess
        path args =
      some ((keyedFind declaring (·.matchesProcess variants filename args)
        (DetectableDb.lookupNames variants filename) entries).map
          fun entry => (entry.id, entry.name)) := by
  have under : indexedMatch (appsTable entries) variants filename args
      ⟨some (tablesOf entries), fstOf entries, exeToIds entries⟩ =
        fun exeName => entries.find? fun entry =>
          declaring exeName entry && entry.matchesProcess variants filename args :=
    funext (indexedMatch_rebuilt distinct)
  have held : (⟨some (tablesOf entries), fstOf entries, exeToIds entries⟩ : DetectableDb).tables =
      some (tablesOf entries) := rfl
  rw [keyedFind, ← under]
  exact matchProcess_eq held generated named args

end Rebuilt

/-- The indexed matcher returns the first entry that matches if and only if no entry that matches
    after others is listed under an earlier looked-up name than all of them. -/
theorem indexed_first_iff {removes : Bool} {files : Files} {entries : List DetectableEntry}
    {progress : Progress} {db : DetectableDb}
    (rebuilt : (files.rebuildWithFst removes entries progress).2 = some db)
    (distinct : (entries.map DetectableEntry.id).Nodup) (path : String) (args : List String) :
    ∃ variants filename indexed plain,
      pathVariants path = some variants ∧ pathFilename path = some filename ∧
      db.matchProcess path args = some indexed ∧ matchProcess path args entries = some plain ∧
      plain = entries.find? (·.matchesProcess variants filename args) ∧
      ((∀ id name entry, indexed = some (id, name) → plain = some entry →
          entry.id = id ∧ entry.name = name) ↔
        Unovertaken declaring (·.matchesProcess variants filename args)
          (DetectableDb.lookupNames variants filename) entries) := by
  obtain ⟨_, rfl⟩ := Files.rebuildWithFst_handle rebuilt
  have named := pathFilename_eq path
  obtain ⟨variants, generated, plain⟩ := matchProcess_entries named args
  refine ⟨variants, _, _, _, generated, named,
    (ingested_matches _ _ path args).trans (matchProcess_keyed distinct generated named args),
    plain entries, rfl, ?_⟩
  rw [← find_eq_iff_unovertaken]
  constructor
  · intro agree x y keyed first
    obtain ⟨id_eq, _⟩ := agree x.id x.name y (by rw [keyed]; rfl) first
    obtain ⟨_, key, _, _, hit, _⟩ := keyedFind_eq_some keyed
    exact List.inj_on_of_nodup_map distinct (List.mem_of_find?_eq_some hit)
      (List.mem_of_find?_eq_some first) id_eq.symm
  · intro same id name y found first
    obtain ⟨x, keyed, pair⟩ := Option.map_eq_some_iff.mp found
    obtain rfl := same x y keyed first
    exact ⟨congrArg Prod.fst pair, congrArg Prod.snd pair⟩

def overlapping : List DetectableEntry :=
  [⟨"1", "Any", [⟨"b.exe", none⟩]⟩, ⟨"2", "Nested", [⟨"a/b.exe", none⟩]⟩]

def overlappingDb : DetectableDb :=
  ⟨some (tablesOf overlapping), fstOf overlapping, exeToIds overlapping⟩

theorem indexed_first_iff_overlapping :
    ∃ variants filename indexed plain,
      pathVariants "/a/b.exe" = some variants ∧ pathFilename "/a/b.exe" = some filename ∧
      overlappingDb.matchProcess "/a/b.exe" [] = some indexed ∧
      matchProcess "/a/b.exe" [] overlapping = some plain ∧
      plain = overlapping.find? (·.matchesProcess variants filename []) ∧
      ((∀ id name entry, indexed = some (id, name) → plain = some entry →
          entry.id = id ∧ entry.name = name) ↔
        Unovertaken declaring (·.matchesProcess variants filename [])
          (DetectableDb.lookupNames variants filename) overlapping) := by
  have rebuilt : (noFiles.rebuildWithFst true overlapping .finished).2 = some overlappingDb := rfl
  have distinct : (overlapping.map DetectableEntry.id).Nodup := by decide
  exact indexed_first_iff rebuilt distinct "/a/b.exe" []

theorem nested_overtakes :
    ¬∀ (files : Files) (entries : List DetectableEntry) (progress : Progress) (db : DetectableDb),
      (files.rebuildWithFst true entries progress).2 = some db →
      (entries.map DetectableEntry.id).Nodup → ∀ (path : String) (args : List String),
      ∀ id name entry, db.matchProcess path args = some (some (id, name)) →
        matchProcess path args entries = some (some entry) → entry.id = id ∧ entry.name = name := by
  intro agree
  have rebuilt : (noFiles.rebuildWithFst true overlapping .finished).2 = some overlappingDb := rfl
  have distinct : (overlapping.map DetectableEntry.id).Nodup := by decide
  have indexed : overlappingDb.matchProcess "/a/b.exe" [] = some (some ("2", "Nested")) := by
    decide
  have plain : matchProcess "/a/b.exe" [] overlapping =
      some (some ⟨"1", "Any", [⟨"b.exe", none⟩]⟩) := by decide
  obtain ⟨same, _⟩ := agree noFiles overlapping .finished overlappingDb rebuilt distinct "/a/b.exe"
    [] "2" "Nested" _ indexed plain
  exact absurd same (by decide)

end Dirpc
