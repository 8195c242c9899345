import Dirpc.Base.KeyedSearch
import Dirpc.Process.Files

namespace Dirpc

open Base

section Search

variable (apps : AppsTable) (variants : List String) (filename : String) (args : List String)

def Unmatched (id : String) : Prop :=
  ∀ entry, apps.lookup id = some entry → entry.matchesProcess variants filename args = false

def Hit (found : String × String) : Prop :=
  ∃ id entry, apps.lookup id = some entry ∧
    entry.matchesProcess variants filename args = true ∧ found = (entry.id, entry.name)

def IdsSpec (ids seen : List String) : Search → Prop
  | .inl after => (∀ id ∈ after, Unmatched apps variants filename args id) ∧
      ∀ id, id ∈ ids ∨ id ∈ seen → id ∈ after
  | .inr found => Hit apps variants filename args found

def NamesSpec (db : DetectableDb) (names : List String) : Option (String × String) → Prop
  | none => ∀ exeName ∈ names, db.fst.contains (utf8 exeName) = true →
      ∀ id ∈ (db.exeIndex.lookup exeName).getD [], Unmatched apps variants filename args id
  | some found => Hit apps variants filename args found

def storedMatch (id : String) : Option DetectableEntry :=
  (apps.lookup id).filter (·.matchesProcess variants filename args)

/-- The first match among the ids listed under the name. -/
def indexedMatch (db : DetectableDb) (exeName : String) : Option DetectableEntry :=
  if db.fst.contains (utf8 exeName) then
    ((db.exeIndex.lookup exeName).getD []).findSome? (storedMatch apps variants filename args)
  else none

def listedMatch (entries : List DetectableEntry) (exeName : String) : Option DetectableEntry :=
  (((exeToIds entries).lookup exeName).getD []).findSome? (storedMatch apps variants filename args)

variable {apps variants filename args}

theorem unmatched_iff {id : String} :
    Unmatched apps variants filename args id ↔ storedMatch apps variants filename args id = none := by
  simp only [Unmatched, storedMatch, Option.filter_eq_none_iff, Bool.not_eq_true]

theorem storedMatch_hit {id : String} {entry : DetectableEntry}
    (matched : storedMatch apps variants filename args id = some entry) :
    Hit apps variants filename args (entry.id, entry.name) := by
  obtain ⟨stored, positive⟩ := Option.filter_eq_some_iff.mp matched
  exact ⟨id, entry, stored, positive, rfl⟩

theorem IdsSpec.mono {ids ids' seen seen' : List String} {result : Search}
    (spec : IdsSpec apps variants filename args ids seen result)
    (covers : ∀ id, id ∈ ids' ∨ id ∈ seen' → id ∈ ids ∨ id ∈ seen) :
    IdsSpec apps variants filename args ids' seen' result := by
  cases result with
  | inl after => exact ⟨spec.1, fun id member => spec.2 id (covers id member)⟩
  | inr found => exact spec

theorem searchIds_spec (ids : List String) {seen : List String}
    (clear : ∀ id ∈ seen, Unmatched apps variants filename args id) :
    ∃ result, DetectableDb.searchIds apps variants filename args ids seen = some result ∧
      IdsSpec apps variants filename args ids seen result ∧
      result.getRight? = (ids.findSome? (storedMatch apps variants filename args)).map
        fun entry => (entry.id, entry.name) := by
  induction ids generalizing seen with
  | nil => exact ⟨.inl seen, rfl, ⟨clear, by simp⟩, rfl⟩
  | cons id ids ih =>
    rw [DetectableDb.searchIds, List.findSome?_cons]
    by_cases known : seen.contains id = true
    · obtain ⟨result, searched, spec, first⟩ := ih clear
      have member : id ∈ seen := by simpa using known
      rw [if_pos known, unmatched_iff.mp (clear id member)]
      refine ⟨result, searched, spec.mono ?_, first⟩
      rintro other (listed | later)
      · rcases List.mem_cons.mp listed with rfl | rest
        · exact .inr member
        · exact .inl rest
      · exact .inr later
    · rw [if_neg known]
      have passed (unmatched : Unmatched apps variants filename args id) :
          ∃ result, DetectableDb.searchIds apps variants filename args ids (seen ++ [id]) =
              some result ∧ IdsSpec apps variants filename args (id :: ids) seen result ∧
            result.getRight? = (ids.findSome? (storedMatch apps variants filename args)).map
              fun entry => (entry.id, entry.name) := by
        have clear' : ∀ other ∈ seen ++ [id], Unmatched apps variants filename args other := by
          intro other member
          rcases List.mem_append.mp member with before | last
          · exact clear other before
          · exact List.mem_singleton.mp last ▸ unmatched
        obtain ⟨result, searched, spec, first⟩ := ih clear'
        refine ⟨result, searched, spec.mono ?_, first⟩
        intro other member
        simp only [List.mem_cons, List.mem_append, List.not_mem_nil, or_false] at member ⊢
        tauto
      cases matched : storedMatch apps variants filename args id with
      | none =>
        have unmatched := unmatched_iff.mpr matched
        cases stored : apps.lookup id with
        | none => exact passed unmatched
        | some entry =>
          simp only [archivedMatch_entry, Option.bind_eq_bind, Option.bind_some,
            unmatched entry stored]
          exact passed unmatched
      | some entry =>
        obtain ⟨stored, positive⟩ := Option.filter_eq_some_iff.mp matched
        simp only [stored, archivedMatch_entry, Option.bind_eq_bind, Option.bind_some, positive]
        exact ⟨.inr (entry.id, entry.name), rfl, storedMatch_hit matched, rfl⟩

theorem searchNames_eq (db : DetectableDb) (names : List String) {seen : List String}
    (clear : ∀ id ∈ seen, Unmatched apps variants filename args id) :
    db.searchNames apps variants filename args names seen =
      some ((names.findSome? (indexedMatch apps variants filename args db)).map
        fun entry => (entry.id, entry.name)) := by
  induction names generalizing seen with
  | nil => rfl
  | cons exeName names ih =>
    rw [DetectableDb.searchNames, List.findSome?_cons, indexedMatch]
    by_cases known : db.fst.contains (utf8 exeName) = true
    · rw [if_pos known, if_pos known]
      cases indexed : db.exeIndex.lookup exeName with
      | none => exact ih clear
      | some ids =>
        obtain ⟨result, searched, spec, first⟩ := searchIds_spec ids clear
        simp only [searched, Option.bind_eq_bind, Option.bind_some, Option.getD_some]
        cases result with
        | inr found =>
          obtain ⟨entry, matched, rfl⟩ := Option.map_eq_some_iff.mp first.symm
          rw [matched]
          rfl
        | inl after =>
          rw [Option.map_eq_none_iff.mp first.symm]
          exact ih spec.1
    · rw [if_neg known, if_neg known]
      exact ih clear

theorem namesSpec_findSome (db : DetectableDb) (names : List String) :
    NamesSpec apps variants filename args db names
      ((names.findSome? (indexedMatch apps variants filename args db)).map
        fun entry => (entry.id, entry.name)) := by
  cases searched : names.findSome? (indexedMatch apps variants filename args db) with
  | none =>
    intro exeName member known id listed
    have missed := List.findSome?_eq_none_iff.mp searched exeName member
    rw [indexedMatch, if_pos known] at missed
    exact unmatched_iff.mpr (List.findSome?_eq_none_iff.mp missed id listed)
  | some entry =>
    obtain ⟨exeName, _, found⟩ := List.exists_of_findSome?_eq_some searched
    obtain ⟨_, reached⟩ := Option.ite_none_right_eq_some.mp found
    obtain ⟨id, _, matched⟩ := List.exists_of_findSome?_eq_some reached
    exact storedMatch_hit matched

end Search

theorem filename_filled {path : String} (filled : ∃ c ∈ path.toList, isSeparator c = false) :
    ∃ filename, pathFilename path = some filename ∧ filename ≠ "" := by
  obtain ⟨c, member, plain⟩ := filled
  obtain ⟨front, file, seps, split, separators, clean, stop, last⟩ := file_split path.toList
  have found : (components path.toList).getLast?.getD [] = file := by
    rw [split, components_append_separators _ separators]
    exact components_file clean stop last
  refine ⟨_, pathFilename_eq path, ?_⟩
  rw [found]
  intro blank
  have empty : file = [] := by simpa using congrArg String.toList blank
  subst empty
  rw [List.append_nil] at split last
  rcases last with rfl | ⟨init, d, rfl, other⟩
  · rw [split, List.nil_append] at member
    exact absurd (separators c member) (by simp [plain])
  · rcases stop with none | ⟨init', e, same, separator⟩
    · simp at none
    · have equal := List.singleton_inj.mp (List.append_inj' same rfl).2
      rw [← equal, other] at separator
      cases separator

theorem nameMatches_lookup {variants : List String} {filename : String} {exe : Executable}
    (filled : filename ≠ "") (matched : nameMatches variants filename exe = true) :
    exe.name ∈ DetectableDb.lookupNames variants filename := by
  unfold DetectableDb.lookupNames
  rw [if_neg filled, List.mem_append, List.mem_singleton]
  unfold nameMatches at matched
  split at matched
  · rename_i rest shape
    right
    apply String.toList_inj.mp
    rw [shape, String.toList_ofList, eq_of_beq matched]
  · left
    simpa using matched

theorem matchesProcess_declares {variants : List String} {filename : String} {args : List String}
    {entry : DetectableEntry} (filled : filename ≠ "")
    (matched : entry.matchesProcess variants filename args = true) :
    ∃ exeName ∈ DetectableDb.lookupNames variants filename, entry.declares exeName := by
  obtain ⟨exe, member, both⟩ := List.any_eq_true.mp matched
  have named : nameMatches variants filename exe = true := (Bool.and_eq_true_iff.mp both).1
  exact ⟨exe.name, nameMatches_lookup filled named, exe, member, rfl⟩

theorem matchProcess_entries {path filename : String} (found : pathFilename path = some filename)
    (args : List String) : ∃ variants, pathVariants path = some variants ∧
      ∀ entries, matchProcess path args entries =
        some (entries.find? (·.matchesProcess variants filename args)) := by
  refine ⟨_, pathVariants_eq path, ?_⟩
  intro entries
  rw [matchProcess, pathVariants_eq, found]
  rfl

theorem rebuilt_knows {entries : List DetectableEntry} {entry : DetectableEntry}
    {exeName : String} (member : entry ∈ entries) (declared : entry.declares exeName) :
    (fstOf entries).contains (utf8 exeName) = true ∧
      entry.id ∈ ((exeToIds entries).lookup exeName).getD [] := by
  have key : exeName ∈ exeNames entries :=
    AList.mem_keys.mp (mem_exeToIds.mpr ⟨entry, member, declared⟩)
  exact ⟨(nameSet_contains_utf8 _ exeName).mpr key,
    mem_lookup_exeToIds.mpr ⟨entry, member, declared, rfl⟩⟩

/-- The indexed matcher goes by the looked-up names first and by the ids under a name second. -/
theorem matchProcess_eq {db : DetectableDb} {tables : Tables} (stored : db.tables = some tables)
    {path filename : String} {variants : List String}
    (generated : pathVariants path = some variants) (named : pathFilename path = some filename)
    (args : List String) :
    db.matchProcess path args = some (((DetectableDb.lookupNames variants filename).findSome?
      (indexedMatch tables.apps variants filename args db)).map
        fun entry => (entry.id, entry.name)) := by
  unfold DetectableDb.matchProcess
  simp only [generated, named, Option.bind_eq_bind, Option.bind_some, stored]
  split
  · exact searchNames_eq db _ (by simp)
  · rename_i unknown
    have missed : (DetectableDb.lookupNames variants filename).findSome?
        (indexedMatch tables.apps variants filename args db) = none := by
      apply List.findSome?_eq_none_iff.mpr
      intro exeName member
      exact if_neg fun known => unknown (List.any_eq_true.mpr ⟨exeName, member, known⟩)
    rw [missed]
    rfl

theorem matchProcess_spec {db : DetectableDb} {tables : Tables} (stored : db.tables = some tables)
    {path filename : String} {variants : List String}
    (generated : pathVariants path = some variants) (named : pathFilename path = some filename)
    (args : List String) :
    ∃ indexed, db.matchProcess path args = some indexed ∧
      NamesSpec tables.apps variants filename args db
        (DetectableDb.lookupNames variants filename) indexed :=
  ⟨_, matchProcess_eq stored generated named args, namesSpec_findSome db _⟩

theorem matchProcess_total (db : DetectableDb) (path : String) (args : List String) :
    ∃ found, db.matchProcess path args = some found := by
  cases stored : db.tables with
  | some tables =>
    obtain ⟨found, matched, _⟩ :=
      matchProcess_spec stored (pathVariants_eq path) (pathFilename_eq path) args
    exact ⟨found, matched⟩
  | none =>
    apply Exists.intro none
    simp [DetectableDb.matchProcess, pathVariants_eq, pathFilename_eq, stored]

theorem listedMatch_ingest (tables : Tables) (entries : List DetectableEntry)
    (variants : List String) (filename : String) (args : List String) (exeName : String) :
    listedMatch (tables.ingest entries).apps variants filename args entries exeName =
      listedMatch (appsTable entries) variants filename args entries exeName := by
  apply findSome?_congr
  intro id listed
  obtain ⟨entry, member, _, rfl⟩ := mem_lookup_exeToIds.mp listed
  rw [storedMatch, tables.ingest_apps ⟨entry, member, rfl⟩]
  rfl

theorem indexedMatch_listed (apps : AppsTable) (variants : List String) (filename : String)
    (args : List String) (tables : Option Tables) (entries : List DetectableEntry)
    (exeName : String) :
    indexedMatch apps variants filename args ⟨tables, fstOf entries, exeToIds entries⟩ exeName =
      listedMatch apps variants filename args entries exeName := by
  unfold indexedMatch
  split
  · rfl
  · rename_i unknown
    have absent : (exeToIds entries).lookup exeName = none := by
      apply AList.lookup_eq_none.mpr
      intro member
      exact unknown ((nameSet_contains_utf8 (exeNames_nodup entries) exeName).mpr
        (AList.mem_keys.mp member))
    rw [listedMatch, absent]
    rfl

theorem matchProcess_separators (db : DetectableDb) {path : String}
    (separators : ∀ c ∈ path.toList, isSeparator c = true) (args : List String) :
    db.matchProcess path args = some none := by
  have none := components_separators separators
  simp [DetectableDb.matchProcess, pathVariants_eq, pathFilename_eq, none, variantsOf,
    DetectableDb.lookupNames]

/-- The rows of an old redb that a rebuild could not remove are out of reach for its handle. -/
theorem ingested_matches (tables : Tables) (entries : List DetectableEntry) (path : String)
    (args : List String) :
    (⟨some (tables.ingest entries), fstOf entries, exeToIds entries⟩ : DetectableDb).matchProcess
        path args =
      (⟨some (tablesOf entries), fstOf entries, exeToIds entries⟩ : DetectableDb).matchProcess
        path args := by
  have generated := pathVariants_eq path
  have named := pathFilename_eq path
  rw [matchProcess_eq rfl generated named, matchProcess_eq rfl generated named]
  congr 2
  apply findSome?_congr
  intro exeName _
  rw [indexedMatch_listed, indexedMatch_listed]
  exact listedMatch_ingest ..

theorem rebuilt_matches_plain {removes : Bool} {files : Files} {entries : List DetectableEntry}
    {progress : Progress} {db : DetectableDb}
    (rebuilt : (files.rebuildWithFst removes entries progress).2 = some db) {path : String}
    (filled : ∃ c ∈ path.toList, isSeparator c = false) (args : List String) :
    ∃ indexed plain, db.matchProcess path args = some indexed ∧
      matchProcess path args (lastWins entries) = some plain ∧
      (indexed.isSome ↔ plain.isSome) ∧
      ∀ id name, indexed = some (id, name) → ∃ entry ∈ lastWins entries,
        entry.id = id ∧ entry.name = name ∧
          ∃ alone, matchProcess path args [entry] = some alone ∧ alone.isSome := by
  obtain ⟨_, rfl⟩ := Files.rebuildWithFst_handle rebuilt
  obtain ⟨filename, named, nonempty⟩ := filename_filled filled
  obtain ⟨variants, generated, plain⟩ := matchProcess_entries named args
  have held : (⟨some (tablesOf entries), fstOf entries, exeToIds entries⟩ : DetectableDb).tables =
      some (tablesOf entries) := rfl
  obtain ⟨indexed, searched, spec⟩ := matchProcess_spec held generated named args
  refine ⟨indexed, _, (ingested_matches _ _ path args).trans searched, plain _, ?_⟩
  cases indexed with
  | none =>
    have missed : (lastWins entries).find? (·.matchesProcess variants filename args) = none := by
      apply List.find?_eq_none.mpr
      intro entry kept matched
      obtain ⟨exeName, looked, declared⟩ := matchesProcess_declares nonempty matched
      obtain ⟨known, listed⟩ := rebuilt_knows (mem_of_lastWins kept) declared
      have stored := lookup_appsTable.mpr ⟨kept, rfl⟩
      rw [spec exeName looked known entry.id listed entry stored] at matched
      cases matched
    rw [missed]
    exact ⟨Iff.rfl, fun id name found => nomatch found⟩
  | some found =>
    obtain ⟨key, entry, stored, matched, rfl⟩ := spec
    have kept := (lookup_appsTable.mp stored).1
    refine ⟨iff_of_true rfl (List.find?_isSome.mpr ⟨entry, kept, matched⟩), ?_⟩
    intro id name same
    cases same
    refine ⟨entry, kept, rfl, rfl, _, plain [entry], ?_⟩
    exact List.find?_isSome.mpr ⟨entry, List.mem_singleton_self entry, matched⟩

def renumbered : List DetectableEntry :=
  [⟨"1", "Old", [⟨"old.exe", none⟩, ⟨"shared.exe", none⟩]⟩,
    ⟨"1", "New", [⟨"shared.exe", some ["-game"]⟩, ⟨">new.exe", none⟩]⟩]

def renumberedDb : DetectableDb :=
  ⟨some (tablesOf renumbered), fstOf renumbered, exeToIds renumbered⟩

theorem rebuilt_matches_plain_renumbered :
    ∃ indexed plain, renumberedDb.matchProcess "/games/new.exe" [] = some indexed ∧
      matchProcess "/games/new.exe" [] (lastWins renumbered) = some plain ∧
      (indexed.isSome ↔ plain.isSome) ∧
      ∀ id name, indexed = some (id, name) → ∃ entry ∈ lastWins renumbered,
        entry.id = id ∧ entry.name = name ∧
          ∃ alone, matchProcess "/games/new.exe" [] [entry] = some alone ∧ alone.isSome := by
  have rebuilt : (noFiles.rebuildWithFst true renumbered .finished).2 = some renumberedDb := rfl
  exact rebuilt_matches_plain rebuilt ⟨'g', by decide, rfl⟩ []

example : renumberedDb.matchProcess "/games/new.exe" [] = some (some ("1", "New")) := by decide

end Dirpc
