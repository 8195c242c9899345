import Dirpc.Process.Recovery

namespace Dirpc

open Base

theorem splitLines_joinIds {ids : List String} (filled : ids ≠ [])
    (plain : ∀ id ∈ ids, '\n' ∉ id.toList) : splitLines (joinIds ids) = ids := by
  have clean : ∀ line ∈ ids.map String.toList, '\n' ∉ line := by
    intro line member
    obtain ⟨id, listed, rfl⟩ := List.mem_map.mp member
    exact plain id listed
  have some_lines : ids.map String.toList ≠ [] := by simpa using filled
  have joined : (joinIds ids).toList = ['\n'].intercalate (ids.map String.toList) :=
    String.toList_intercalate
  rw [splitLines, joined, List.splitOn_intercalate '\n' clean some_lines, List.map_map]
  have same : String.ofList ∘ String.toList = id := by
    funext s
    exact String.ofList_toList
  rw [same, List.map_id]

theorem splitLines_exeToIds {entries : List DetectableEntry}
    (plain : ∀ entry ∈ entries, '\n' ∉ entry.id.toList) {exeName : String} {ids : List String}
    (found : (exeToIds entries).lookup exeName = some ids) : splitLines (joinIds ids) = ids := by
  have listed : ∀ id, id ∈ ids ↔ ∃ entry ∈ entries, entry.declares exeName ∧ id = entry.id := by
    intro id
    rw [← mem_lookup_exeToIds, found, Option.getD_some]
  have declared : ∃ entry ∈ entries, entry.declares exeName :=
    mem_exeToIds.mp (AList.lookup_isSome.mp (by rw [found]; rfl))
  have filled : ids ≠ [] := by
    obtain ⟨entry, member, named⟩ := declared
    exact List.ne_nil_of_mem ((listed entry.id).mpr ⟨entry, member, named, rfl⟩)
  apply splitLines_joinIds filled
  intro id member
  obtain ⟨entry, known, _, rfl⟩ := (listed id).mp member
  exact plain entry known

theorem lookup_exeIndexOf {entries : List DetectableEntry}
    (plain : ∀ entry ∈ entries, '\n' ∉ entry.id.toList) (exeName : String) :
    (exeIndexOf (tablesOf entries).exes).lookup exeName = (exeToIds entries).lookup exeName := by
  have row : (tablesOf entries).exes.lookup exeName = ((exeToIds entries).lookup exeName).map joinIds :=
    lookup_mapTable ..
  rw [exeIndexOf, lookup_mapTable, row]
  cases found : (exeToIds entries).lookup exeName with
  | none => rfl
  | some ids => rw [Option.map_some, Option.map_some, splitLines_exeToIds plain found]

theorem nameSet_knows {names rows : List String} (distinct : names.Nodup) (known : names ⊆ rows)
    (count : (nameSet names distinct).len = rows.length) (exeName : String) :
    (nameSet names distinct).contains (utf8 exeName) = true ↔ exeName ∈ rows := by
  have perm : names.Perm rows := by
    apply (List.subperm_of_subset distinct known).perm_of_length_le
    rw [← count, nameSet_len]
  rw [nameSet_contains_utf8]
  exact perm.mem_iff

theorem opened_knows {files after : Files} {tables : Tables} {writes : Bool} {db : DetectableDb}
    (redb : files.redb = some (some tables))
    (left : ∀ set, files.fst = .valid set →
      ∃ names distinct, set = nameSet names distinct ∧ names ⊆ tables.exes.keys)
    (opened : files.openWithFst writes = (after, some db)) (exeName : String) :
    db.fst.contains (utf8 exeName) = true ↔ exeName ∈ tables.exes := by
  rw [AList.mem_keys]
  by_cases adopted : ∃ set, files.fst = .valid set ∧ set.len = tables.exes.keys.length
  · obtain ⟨set, valid, count⟩ := adopted
    rw [Files.openWithFst_adopts writes redb valid count] at opened
    cases opened
    obtain ⟨names, distinct, rfl, known⟩ := left set valid
    exact nameSet_knows distinct known count exeName
  · have other : ∀ set, files.fst = .valid set → set.len ≠ tables.exes.keys.length :=
      fun set valid count => adopted ⟨set, valid, count⟩
    by_cases rows : tables.exes.keys = []
    · have unreadable : loadMmapFst files.fst = none := by
        rcases files.fst.valid_or_unreadable with ⟨set, valid⟩ | unreadable
        · obtain ⟨names, distinct, rfl, known⟩ := left set valid
          rw [rows] at known
          have none : names = [] := List.subset_nil.mp known
          exact absurd (by rw [nameSet_len, none, rows]) (other _ valid)
        · exact unreadable
      rw [Files.openWithFst_unreadable writes redb rows unreadable] at opened
      cases opened
    · rw [Files.openWithFst_heals writes redb rows other] at opened
      split at opened
      · cases opened
        exact nameSet_contains_utf8 tables.exes.keys_nodup exeName
      · cases opened

section Rows

variable (tables : Tables) (entries : List DetectableEntry) (variants : List String)
  (filename : String) (args : List String)

/-- The first match among the ids of an old row whose name the list does not declare. -/
def staleMatch (exeName : String) : Option DetectableEntry :=
  if exeName ∈ exeToIds entries then none
  else (((tables.exes.lookup exeName).map splitLines).getD []).findSome?
    (storedMatch (tables.ingest entries).apps variants filename args)

theorem staleMatch_empty (exeName : String) :
    staleMatch .empty entries variants filename args exeName = none := by
  unfold staleMatch
  split
  · rfl
  · rfl

variable {tables entries variants filename args}

theorem indexedMatch_reopened {db : DetectableDb}
    (plain : ∀ entry ∈ entries, '\n' ∉ entry.id.toList)
    (knows : ∀ exeName,
      db.fst.contains (utf8 exeName) = true ↔ exeName ∈ (tables.ingest entries).exes)
    (index : db.exeIndex = exeIndexOf (tables.ingest entries).exes) (exeName : String) :
    indexedMatch (tables.ingest entries).apps variants filename args db exeName =
      (listedMatch (appsTable entries) variants filename args entries exeName).or
        (staleMatch tables entries variants filename args exeName) := by
  have row : db.exeIndex.lookup exeName = ((exeToIds entries).lookup exeName).or
      ((tables.exes.lookup exeName).map splitLines) := by
    rw [index, exeIndexOf, lookup_mapTable, tables.ingest_exes, Option.map_or,
      ← lookup_exeIndexOf plain, exeIndexOf, lookup_mapTable]
  have searched : indexedMatch (tables.ingest entries).apps variants filename args db exeName =
      ((db.exeIndex.lookup exeName).getD []).findSome?
        (storedMatch (tables.ingest entries).apps variants filename args) := by
    unfold indexedMatch
    split
    · rfl
    · rename_i unknown
      have absent : db.exeIndex.lookup exeName = none := by
        rw [index]
        apply AList.lookup_eq_none.mpr
        intro member
        exact unknown ((knows exeName).mpr (mem_mapTable.mp member))
      rw [absent]
      rfl
  rw [searched, row, ← listedMatch_ingest tables]
  unfold listedMatch staleMatch
  by_cases declared : exeName ∈ exeToIds entries
  · obtain ⟨ids, found⟩ := Option.isSome_iff_exists.mp (AList.lookup_isSome.mpr declared)
    rw [if_pos declared, found, Option.or_none]
    rfl
  · rw [if_neg declared, AList.lookup_eq_none.mpr declared]
    rfl

end Rows

def shown (entry : DetectableEntry) : String × String := (entry.id, entry.name)

/-- The rows of an old redb that could not be removed never show another game. -/
def Files.Harmless (files : Files) (entries : List DetectableEntry) (variants : List String)
    (filename : String) (args : List String) : Prop :=
  Undisturbed (listedMatch (appsTable entries) variants filename args entries)
    (staleMatch files.tables entries variants filename args) shown
    (DetectableDb.lookupNames variants filename)

/-- The reopened handle answers as the one that the rebuild returned if and only if the old redb was
    removed or its rows do no harm. -/
theorem reopened_matches_iff {removes : Bool} {files after final : Files}
    {entries : List DetectableEntry} {progress : Progress} {writes : Bool} {file : FstFile}
    {db reopened : DetectableDb} (plain : ∀ entry ∈ entries, '\n' ∉ entry.id.toList)
    (rebuilt : files.rebuildWithFst removes entries progress = (after, some db))
    (left : file = after.fst ∨ file = .missing ∨ file = .empty ∨ file = .garbage)
    (opened : ({ after with fst := file } : Files).openWithFst writes = (final, some reopened))
    (path : String) (args : List String) :
    ∃ variants filename found again,
      pathVariants path = some variants ∧ pathFilename path = some filename ∧
      db.matchProcess path args = some found ∧ reopened.matchProcess path args = some again ∧
      (again = found ↔ removes = true ∨ files.Harmless entries variants filename args) := by
  obtain ⟨rfl, rfl⟩ := Files.rebuildWithFst_handle (congrArg Prod.snd rebuilt)
  have written := files.rebuildWithFst_steps removes entries .finished
  rw [rebuilt] at written
  dsimp only at written
  subst written
  have names : exeNames entries ⊆ ((files.kept removes).ingest entries).exes.keys := by
    intro exeName listed
    have declared : ((tablesOf entries).exes.lookup exeName).isSome :=
      AList.lookup_isSome.mpr (mem_exesTable.mpr listed)
    rw [← AList.mem_keys, ← AList.lookup_isSome, Tables.ingest_exes, Option.isSome_or, declared]
    rfl
  have readable : ∀ set, file = .valid set → ∃ names distinct,
      set = nameSet names distinct ∧ names ⊆ ((files.kept removes).ingest entries).exes.keys := by
    intro set valid
    subst valid
    rcases left with same | none | none | none
    · cases same
      exact ⟨exeNames entries, exeNames_nodup entries, rfl, names⟩
    · cases none
    · cases none
    · cases none
  have stored : reopened.tables = some ((files.kept removes).ingest entries) :=
    (Option.some.inj (Files.openWithFst_redb opened)).symm
  have index : reopened.exeIndex = exeIndexOf ((files.kept removes).ingest entries).exes := by
    rw [Files.openWithFst_exeIndex opened, stored]
    rfl
  have generated := pathVariants_eq path
  have named := pathFilename_eq path
  refine ⟨_, _, _, _, generated, named,
    (ingested_matches _ _ path args).trans (matchProcess_eq rfl generated named args),
    matchProcess_eq stored generated named args, ?_⟩
  rw [funext (indexedMatch_listed _ _ _ args _ entries),
    funext (indexedMatch_reopened plain (opened_knows rfl readable opened) index)]
  apply findSome_or_iff_undisturbed.trans
  cases removes with
  | true => exact iff_of_true (undisturbed_of_none (staleMatch_empty entries _ _ args)) (.inl rfl)
  | false => exact (or_iff_right Bool.false_ne_true).symm

def outdated : Files := (noFiles.rebuildWithFst true [shooter] .finished).1

theorem reopened_matches_iff_garbled :
    ∃ after final db reopened,
      outdated.rebuildWithFst false [racer] .finished = (after, some db) ∧
      ({ after with fst := .garbage } : Files).openWithFst true = (final, some reopened) ∧
      ∃ variants filename found again,
        pathVariants "/games/racer.exe" = some variants ∧
        pathFilename "/games/racer.exe" = some filename ∧
        db.matchProcess "/games/racer.exe" [] = some found ∧
        reopened.matchProcess "/games/racer.exe" [] = some again ∧
        (again = found ↔ false = true ∨ outdated.Harmless [racer] variants filename []) := by
  have rebuilt : outdated.rebuildWithFst false [racer] .finished = (_, some _) := rfl
  have opened : ({ (outdated.rebuildWithFst false [racer] .finished).1 with
      fst := .garbage } : Files).openWithFst true = (_, some _) := rfl
  exact ⟨_, _, _, _, rebuilt, opened,
    reopened_matches_iff (by decide) rebuilt (.inr (.inr (.inr rfl))) opened "/games/racer.exe" []⟩

theorem unremoved_rows_answer :
    ∃ after final db reopened,
      outdated.rebuildWithFst false [racer] .finished = (after, some db) ∧
      after.openWithFst true = (final, some reopened) ∧
      db.matchProcess "/games/shooter.exe" [] = some none ∧
      reopened.matchProcess "/games/shooter.exe" [] = some (some ("1", "Shooter")) :=
  ⟨_, _, _, _, rfl, rfl, by decide, by decide⟩

end Dirpc
