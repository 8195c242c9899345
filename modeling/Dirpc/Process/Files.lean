import Dirpc.Process.Detectable

namespace Dirpc

open Base

inductive FstFile where
  | missing
  | empty
  | garbage
  | valid (set : KeySet)

/-- The cached database: the redb file (none, created without tables, or with them), the temporary
    sibling of the FST file and the FST file itself. -/
structure Files where
  redb : Option (Option Tables)
  temp : Option KeySet
  fst : FstFile

def noFiles : Files := ⟨none, none, .missing⟩

inductive DiskStep where
  | removeRedb
  | createRedb
  | commit (entries : List DetectableEntry)
  | writeTemp (keys : List (List UInt8))
  | rename

/-- How far a rebuild gets before it stops with an error or a crash. -/
inductive Progress where
  | removed
  | created
  | committed
  | tempWritten
  | renamed
  | finished
  deriving DecidableEq

def Progress.steps : Progress → Nat
  | removed => 1
  | created => 2
  | committed => 3
  | tempWritten => 4
  | renamed | finished => 5

def loadMmapFst : FstFile → Option KeySet
  | .valid set => some set
  | .missing | .empty | .garbage => none

@[simp] theorem loadMmapFst_valid (set : KeySet) : loadMmapFst (.valid set) = some set := rfl

def writeFstFile (writes : Bool) (keys : List (List UInt8)) (file : FstFile) : FstFile × Bool :=
  match KeySet.build keys with
  | some set => if writes then (.valid set, true) else (file, false)
  | none => (file, false)

def ensureFstFile (writes : Bool) (file : FstFile) : FstFile × Option KeySet :=
  match file with
  | .valid set => (file, some set)
  | .garbage => (file, none)
  | .missing | .empty =>
    let (file, written) := writeFstFile writes [] file
    (file, if written then loadMmapFst file else none)

def splitLines (row : String) : List String := (row.toList.splitOn '\n').map String.ofList

def exeIndexOf (exes : ExesTable) : ExeIndex := mapTable splitLines exes

def exeNames (entries : List DetectableEntry) : List String := (exeToIds entries).keys

def rebuildSteps (entries : List DetectableEntry) : List DiskStep :=
  [.removeRedb, .createRedb, .commit entries,
    .writeTemp (sortedNames (exeNames entries)), .rename]

namespace Files

def tables (files : Files) : Tables := (files.redb.getD none).getD .empty

/-- One persistent step; `none` when it reports an error and changes nothing. `removes` says whether
    the old redb file can be removed: if not, it stays, which is not reported, and is opened again. -/
def apply (removes : Bool) (files : Files) : DiskStep → Option Files
  | .removeRedb => some (if removes then { files with redb := none } else files)
  | .createRedb => some { files with redb := some (files.redb.getD none) }
  | .commit entries => some { files with redb := some (some (files.tables.ingest entries)) }
  | .writeTemp keys => (KeySet.build keys).map fun set => { files with temp := some set }
  | .rename => files.temp.map fun set => { files with temp := none, fst := .valid set }

def applyAll (removes : Bool) (files : Files) : List DiskStep → Files × Bool
  | [] => (files, true)
  | s :: rest => match files.apply removes s with
    | some next => next.applyAll removes rest
    | none => (files, false)

def rebuildWithFst (removes : Bool) (files : Files) (entries : List DetectableEntry)
    (progress : Progress) : Files × Option DetectableDb :=
  let (files, taken) := files.applyAll removes ((rebuildSteps entries).take progress.steps)
  (files, if taken ∧ progress = .finished then
    (loadMmapFst files.fst).map fun set => ⟨files.redb.getD none, set, exeToIds entries⟩
  else none)

def openWithFst (writes : Bool) (files : Files) : Files × Option DetectableDb :=
  match files.redb with
  | none => (files, none)
  | some none =>
    let (fst, loaded) := ensureFstFile writes files.fst
    ({ files with fst }, loaded.map fun set => ⟨none, set, ∅⟩)
  | some (some tables) =>
    let names := tables.exes.keys
    let exeIndex := exeIndexOf tables.exes
    match (loadMmapFst files.fst).filter (·.len = names.length) with
    | some set => (files, some ⟨some tables, set, exeIndex⟩)
    | none =>
      let (fst, written) :=
        if names.isEmpty then (files.fst, true)
        else writeFstFile writes (sortedNames names) files.fst
      ({ files with fst }, if written then
        (loadMmapFst fst).map fun set => ⟨some tables, set, exeIndex⟩
      else none)

end Files

theorem sortedNames_ordered {names : List String} (distinct : names.Nodup) :
    (sortedNames names).Pairwise (· < ·) :=
  sortKeys_ordered ((List.nodup_map_iff utf8_injective).mpr distinct)

def nameSet (names : List String) (distinct : names.Nodup) : KeySet :=
  ⟨sortedNames names, sortedNames_ordered distinct⟩

theorem build_sortedNames {names : List String} (distinct : names.Nodup) :
    KeySet.build (sortedNames names) = some (nameSet names distinct) := by
  exact build_sortKeys ((List.nodup_map_iff utf8_injective).mpr distinct)

theorem nameSet_contains {names : List String} (distinct : names.Nodup) (key : List UInt8) :
    (nameSet names distinct).contains key = true ↔ ∃ name ∈ names, utf8 name = key := by
  rw [KeySet.contains, decide_eq_true_iff]
  exact mem_sortKeys.trans List.mem_map

theorem nameSet_contains_utf8 {names : List String} (distinct : names.Nodup) (name : String) :
    (nameSet names distinct).contains (utf8 name) = true ↔ name ∈ names := by
  rw [nameSet_contains]
  constructor
  · intro assumed
    rcases assumed with ⟨other, member, same⟩
    exact utf8_injective same ▸ member
  · intro member
    exact ⟨name, member, rfl⟩

theorem nameSet_len {names : List String} (distinct : names.Nodup) :
    (nameSet names distinct).len = names.length := by
  have sorted : (sortedNames names).length = (names.map utf8).length :=
    (List.perm_insertionSort _ _).length_eq
  exact sorted.trans (List.length_map _)

theorem exeNames_nodup (entries : List DetectableEntry) : (exeNames entries).Nodup :=
  AList.keys_nodup _

def fstOf (entries : List DetectableEntry) : KeySet :=
  nameSet (exeNames entries) (exeNames_nodup entries)

theorem mem_exesTable {entries : List DetectableEntry} {exeName : String} :
    exeName ∈ (tablesOf entries).exes ↔ exeName ∈ exeNames entries :=
  mem_mapTable

theorem exesTable_keys_perm (entries : List DetectableEntry) :
    (tablesOf entries).exes.keys.Perm (exeNames entries) := mapTable_keys_perm _ _

namespace Files

/-- The tables that a rebuild commits into. -/
def kept (removes : Bool) (files : Files) : Tables := if removes then .empty else files.tables

theorem rebuildWithFst_steps (removes : Bool) (files : Files) (entries : List DetectableEntry)
    (progress : Progress) :
    (files.rebuildWithFst removes entries progress).1 =
      let redb := some (some ((files.kept removes).ingest entries))
      match progress with
      | .removed => if removes then { files with redb := none } else files
      | .created => { files with redb := some (if removes then none else files.redb.getD none) }
      | .committed => { files with redb }
      | .tempWritten => { files with redb, temp := some (fstOf entries) }
      | .renamed | .finished => ⟨redb, none, .valid (fstOf entries)⟩ := by
  have built := build_sortedNames (exeNames_nodup entries)
  cases removes <;> cases progress <;>
    simp [rebuildWithFst, rebuildSteps, Progress.steps, applyAll, apply, built, fstOf, kept, tables]

theorem rebuildWithFst_files (files : Files) (entries : List DetectableEntry)
    (progress : Progress) :
    (files.rebuildWithFst true entries progress).1 =
      match progress with
      | .removed => { files with redb := none }
      | .created => { files with redb := some none }
      | .committed => { files with redb := some (some (tablesOf entries)) }
      | .tempWritten =>
        { files with redb := some (some (tablesOf entries)), temp := some (fstOf entries) }
      | .renamed | .finished => ⟨some (some (tablesOf entries)), none, .valid (fstOf entries)⟩ := by
  rw [rebuildWithFst_steps]
  cases progress <;> rfl

theorem rebuildWithFst_finished (removes : Bool) (files : Files) (entries : List DetectableEntry) :
    (files.rebuildWithFst removes entries .finished).2 =
      some ⟨some ((files.kept removes).ingest entries), fstOf entries, exeToIds entries⟩ := by
  have built := build_sortedNames (exeNames_nodup entries)
  cases removes <;>
    simp [rebuildWithFst, rebuildSteps, Progress.steps, applyAll, apply, built, fstOf, kept, tables]

theorem rebuildWithFst_handle {removes : Bool} {files : Files} {entries : List DetectableEntry}
    {progress : Progress} {db : DetectableDb}
    (rebuilt : (files.rebuildWithFst removes entries progress).2 = some db) :
    progress = .finished ∧
      db = ⟨some ((files.kept removes).ingest entries), fstOf entries, exeToIds entries⟩ := by
  have finished : progress = .finished := by
    by_contra stopped
    simp [rebuildWithFst, stopped] at rebuilt
  subst finished
  rw [rebuildWithFst_finished] at rebuilt
  exact ⟨rfl, (Option.some.inj rebuilt).symm⟩

theorem openWithFst_redb {files after : Files} {writes : Bool} {db : DetectableDb}
    (opened : files.openWithFst writes = (after, some db)) : files.redb = some db.tables := by
  unfold openWithFst at opened
  split at opened
  · cases opened
  · rename_i redb
    obtain ⟨set, _, rfl⟩ := Option.map_eq_some_iff.mp (congrArg Prod.snd opened)
    exact redb
  · rename_i tables redb
    dsimp only at opened
    split at opened
    · cases opened
      exact redb
    · obtain ⟨_, handle⟩ := Option.ite_none_right_eq_some.mp (congrArg Prod.snd opened)
      obtain ⟨set, _, rfl⟩ := Option.map_eq_some_iff.mp handle
      exact redb

theorem openWithFst_keeps_redb (files : Files) (writes : Bool) :
    (files.openWithFst writes).1.redb = files.redb := by
  unfold openWithFst
  split
  · rfl
  · rfl
  · dsimp only
    split <;> rfl

theorem openWithFst_adopts {files : Files} {tables : Tables} {set : KeySet} (writes : Bool)
    (redb : files.redb = some (some tables)) (valid : files.fst = .valid set)
    (count : set.len = tables.exes.keys.length) :
    files.openWithFst writes = (files, some ⟨some tables, set, exeIndexOf tables.exes⟩) := by
  simp [openWithFst, redb, valid, Option.filter, count]

theorem openWithFst_heals {files : Files} {tables : Tables} (writes : Bool)
    (redb : files.redb = some (some tables)) (rows : tables.exes.keys ≠ [])
    (other : ∀ set, files.fst = .valid set → set.len ≠ tables.exes.keys.length) :
    files.openWithFst writes =
      if writes then
        let set := nameSet tables.exes.keys tables.exes.keys_nodup
        ({ files with fst := .valid set }, some ⟨some tables, set, exeIndexOf tables.exes⟩)
      else (files, none) := by
  have refused : (loadMmapFst files.fst).filter (·.len = tables.exes.keys.length) = none := by
    cases file : files.fst with
    | valid set => simpa [loadMmapFst] using other set file
    | missing | empty | garbage => rfl
  have some_rows : tables.exes.keys.isEmpty = false := by simpa using rows
  have same : (⟨some (some tables), files.temp, files.fst⟩ : Files) = files := by rw [← redb]
  have built := build_sortedNames tables.exes.keys_nodup
  cases writes <;>
    simp [openWithFst, redb, refused, some_rows, writeFstFile, built, same]

end Files

end Dirpc
