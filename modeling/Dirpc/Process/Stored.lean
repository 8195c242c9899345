import Dirpc.Process.Files

namespace Dirpc

open Base

def DetectableDb.isEmpty (db : DetectableDb) : Bool := db.fst.len = 0

def Progress.commits (progress : Progress) : Bool := 3 ≤ progress.steps

/-- The handle is a database of exactly this list. -/
structure DetectableDb.Holds (db : DetectableDb) (entries : List DetectableEntry) : Prop where
  tables : db.tables = some (tablesOf entries)
  fst : db.fst = fstOf entries
  exeIndex : ∀ exeName,
    (db.exeIndex.lookup exeName).map joinIds = (tablesOf entries).exes.lookup exeName

theorem joinIds_splitLines (row : String) : joinIds (splitLines row) = row := by
  apply String.toList_inj.mp
  unfold joinIds splitLines
  rw [String.toList_intercalate, List.map_map]
  have plain : String.toList ∘ String.ofList = id := by
    funext s
    exact String.toList_ofList
  rw [plain, List.map_id]
  exact List.intercalate_splitOn '\n'

theorem nameSet_perm {names others : List String} (distinct : names.Nodup) (distinct' : others.Nodup)
    (perm : names.Perm others) : nameSet names distinct = nameSet others distinct' := by
  have sorted : (sortedNames names).Perm (sortedNames others) :=
    (List.perm_insertionSort _ _).trans
      ((perm.map utf8).trans (List.perm_insertionSort _ _).symm)
  have same : sortedNames names = sortedNames others :=
    sorted.eq_of_pairwise (fun _ _ _ _ below above => absurd above (List.lt_asymm below))
      (sortedNames_ordered distinct) (sortedNames_ordered distinct')
  simp only [nameSet, same]

theorem nameSet_exes (entries : List DetectableEntry) :
    nameSet (tablesOf entries).exes.keys (AList.keys_nodup _) = fstOf entries :=
  nameSet_perm _ _ (exesTable_keys_perm entries)

theorem fstOf_len (entries : List DetectableEntry) :
    (fstOf entries).len = (tablesOf entries).exes.keys.length :=
  (nameSet_len _).trans (exesTable_keys_perm entries).length_eq.symm

theorem holds_rebuilt (entries : List DetectableEntry) :
    (⟨some (tablesOf entries), fstOf entries, exeToIds entries⟩ : DetectableDb).Holds entries :=
  ⟨rfl, rfl, fun _ => (lookup_mapTable _ _ _).symm⟩

theorem holds_opened (entries : List DetectableEntry) :
    (⟨some (tablesOf entries), fstOf entries, exeIndexOf (tablesOf entries).exes⟩ :
      DetectableDb).Holds entries := by
  refine ⟨rfl, rfl, ?_⟩
  intro exeName
  change ((exeIndexOf _).lookup exeName).map joinIds = _
  rw [exeIndexOf, lookup_mapTable, Option.map_map]
  have back : joinIds ∘ splitLines = id := funext joinIds_splitLines
  rw [back, Option.map_id, id]

namespace Files

/-- The files a rebuild of `entries` may leave, from its commit on, over files without names. -/
structure Store (files : Files) (entries : List DetectableEntry) : Prop where
  redb : files.redb = some (some (tablesOf entries))
  fst : files.fst = .missing ∨ files.fst = .valid (fstOf []) ∨ files.fst = .valid (fstOf entries)

/-- Files that declare no executable. -/
structure Blank (files : Files) : Prop where
  redb : ∀ tables, files.redb = some (some tables) → tables = tablesOf []
  fst : files.fst = .missing ∨ files.fst = .valid (fstOf [])

theorem exes_keys_ne_nil {entries : List DetectableEntry} (named : exeNames entries ≠ []) :
    (tablesOf entries).exes.keys ≠ [] := by
  intro none
  have perm := exesTable_keys_perm entries
  rw [none] at perm
  exact named perm.symm.eq_nil

theorem fstOf_nil_len : (fstOf []).len = 0 := rfl

theorem Store.open {files : Files} {entries : List DetectableEntry} (store : files.Store entries)
    (named : exeNames entries ≠ []) (writes : Bool) :
    (files.openWithFst writes).1.Store entries ∧
      (∀ db, (files.openWithFst writes).2 = some db → db.Holds entries) ∧
      (writes = true → (files.openWithFst writes).2.isSome) := by
  have rows := exes_keys_ne_nil named
  by_cases adopted : files.fst = .valid (fstOf entries)
  · rw [openWithFst_adopts writes store.redb adopted (fstOf_len entries)]
    refine ⟨store, ?_, fun _ => rfl⟩
    intro db opened
    cases opened
    exact holds_opened entries
  · have other : ∀ set, files.fst = .valid set →
        set.len ≠ (tablesOf entries).exes.keys.length := by
      intro set valid len
      have nonempty : 0 < (tablesOf entries).exes.keys.length := List.length_pos_iff.mpr rows
      rcases store.fst with missing | empty | full
      · rw [missing] at valid
        cases valid
      · rw [empty] at valid
        cases valid
        rw [fstOf_nil_len] at len
        omega
      · exact adopted full
    rw [openWithFst_heals writes store.redb rows other]
    cases writes with
    | true =>
      dsimp only
      rw [if_pos rfl, nameSet_exes]
      refine ⟨⟨store.redb, .inr (.inr rfl)⟩, ?_, fun _ => rfl⟩
      intro db opened
      cases opened
      exact holds_opened entries
    | false =>
      rw [if_neg Bool.false_ne_true]
      exact ⟨store, nofun, nofun⟩

theorem ensureFstFile_blank {file : FstFile} (blank : file = .missing ∨ file = .valid (fstOf []))
    (writes : Bool) :
    ((ensureFstFile writes file).1 = .missing ∨ (ensureFstFile writes file).1 = .valid (fstOf [])) ∧
      ∀ set, (ensureFstFile writes file).2 = some set → set = fstOf [] := by
  have built : KeySet.build [] = some (fstOf []) := rfl
  rcases blank with rfl | rfl
  · cases writes <;> simp [ensureFstFile, writeFstFile, built, eq_comm]
  · simp [ensureFstFile, eq_comm]

theorem Blank.open {files : Files} (blank : files.Blank) (writes : Bool) :
    (files.openWithFst writes).1.Blank ∧
      ∀ db, (files.openWithFst writes).2 = some db → db.fst = fstOf [] := by
  cases redb : files.redb with
  | none =>
    unfold openWithFst
    rw [redb]
    exact ⟨blank, by simp⟩
  | some created =>
    cases created with
    | none =>
      obtain ⟨file, loaded⟩ := ensureFstFile_blank blank.fst writes
      unfold openWithFst
      rw [redb]
      refine ⟨⟨by simp, file⟩, ?_⟩
      intro db opened
      obtain ⟨set, found, rfl⟩ := Option.map_eq_some_iff.mp opened
      exact loaded set found
    | some tables =>
      obtain rfl := blank.redb tables redb
      rcases blank.fst with missing | empty
      · have rows : (tablesOf []).exes.keys = [] := rfl
        simp only [openWithFst, redb, missing, rows]
        refine ⟨⟨?_, .inl rfl⟩, by simp [loadMmapFst]⟩
        intro tables same
        cases same
        rfl
      · rw [openWithFst_adopts writes redb empty rfl]
        refine ⟨blank, ?_⟩
        intro db opened
        cases opened
        rfl

theorem Blank.kept {files : Files} (blank : files.Blank) (removes : Bool) :
    files.kept removes = .empty := by
  have tables : files.tables = .empty := by
    unfold Files.tables
    cases redb : files.redb with
    | none => rfl
    | some created =>
      cases created with
      | none => rfl
      | some tables => exact blank.redb tables redb
  cases removes with
  | true => rfl
  | false => exact tables

theorem Blank.rebuild {files : Files} (blank : files.Blank) (removes : Bool) (progress : Progress) :
    (files.rebuildWithFst removes [] progress).1.Blank := by
  rw [rebuildWithFst_steps, blank.kept removes, Tables.ingest_empty]
  cases progress with
  | removed =>
    cases removes with
    | true => exact ⟨nofun, blank.fst⟩
    | false => exact blank
  | created =>
    cases removes with
    | true => exact ⟨by simp, blank.fst⟩
    | false =>
      refine ⟨?_, blank.fst⟩
      intro tables stored
      apply blank.redb tables
      cases redb : files.redb with
      | none => simp [redb] at stored
      | some created => simpa [redb] using stored
  | committed | tempWritten => exact ⟨by simp [eq_comm], blank.fst⟩
  | renamed | finished => exact ⟨by simp [eq_comm], .inr rfl⟩

theorem Blank.store {files : Files} (blank : files.Blank) (removes : Bool)
    (entries : List DetectableEntry) {progress : Progress} (committed : progress.commits = true) :
    (files.rebuildWithFst removes entries progress).1.Store entries := by
  rw [rebuildWithFst_steps, blank.kept removes, Tables.ingest_empty]
  have kept : files.fst = .missing ∨ files.fst = .valid (fstOf []) ∨
      files.fst = .valid (fstOf entries) := blank.fst.imp_right .inl
  cases progress with
  | removed | created => cases committed
  | committed | tempWritten => exact ⟨rfl, kept⟩
  | renamed | finished => exact ⟨rfl, .inr (.inr rfl)⟩

theorem store_finished (files : Files) (entries : List DetectableEntry) :
    (files.rebuildWithFst true entries .finished).1.Store entries := by
  rw [rebuildWithFst_files]
  exact ⟨rfl, .inr (.inr rfl)⟩

theorem rebuildWithFst_holds {removes : Bool} {files : Files} {entries : List DetectableEntry}
    {progress : Progress} {db : DetectableDb} (clean : files.kept removes = .empty)
    (rebuilt : (files.rebuildWithFst removes entries progress).2 = some db) : db.Holds entries := by
  obtain ⟨_, rfl⟩ := rebuildWithFst_handle rebuilt
  rw [clean]
  exact holds_rebuilt entries

end Files

theorem DetectableDb.Holds.not_isEmpty {db : DetectableDb} {entries : List DetectableEntry}
    (holds : db.Holds entries) (named : exeNames entries ≠ []) : db.isEmpty = false := by
  have rows := Files.exes_keys_ne_nil named
  rw [DetectableDb.isEmpty, holds.fst, fstOf_len]
  simpa using rows

end Dirpc
