import Dirpc.Process.Files
import Mathlib.Data.Finset.Card

namespace Dirpc

open Base

structure Rebuild where
  entries : List DetectableEntry
  progress : Progress

/-- The files after a sequence of rebuilds that starts with nothing on the disk; each removes the redb
    of the one before it. -/
def afterRebuilds (rebuilds : List Rebuild) : Files :=
  rebuilds.foldl (fun files r => (files.rebuildWithFst true r.entries r.progress).1) noFiles

def Rebuild.renames (r : Rebuild) : Bool := r.progress = .renamed ∨ r.progress = .finished

def lastRename (rebuilds : List Rebuild) : Option Rebuild :=
  (rebuilds.filter Rebuild.renames).getLast?

theorem afterRebuilds_snoc (rebuilds : List Rebuild) (r : Rebuild) :
    afterRebuilds (rebuilds ++ [r]) =
      ((afterRebuilds rebuilds).rebuildWithFst true r.entries r.progress).1 := by
  rw [afterRebuilds, List.foldl_append]
  rfl

theorem lastRename_snoc (rebuilds : List Rebuild) (r : Rebuild) :
    lastRename (rebuilds ++ [r]) = if r.renames then some r else lastRename rebuilds := by
  cases renames : r.renames <;> simp [lastRename, List.filter_append, renames]

theorem afterRebuilds_fst (rebuilds : List Rebuild) :
    (afterRebuilds rebuilds).fst =
      (lastRename rebuilds).elim .missing fun r => .valid (fstOf r.entries) := by
  induction rebuilds using List.reverseRecOn with
  | nil => rfl
  | append_singleton rebuilds r ih =>
    rw [afterRebuilds_snoc, lastRename_snoc, Files.rebuildWithFst_files]
    unfold Rebuild.renames
    cases r.progress <;> simp [ih]

theorem afterRebuilds_redb {rebuilds : List Rebuild} {tables : Tables}
    (stored : (afterRebuilds rebuilds).redb = some (some tables)) :
    ∃ last, rebuilds.getLast? = some last ∧ tables = tablesOf last.entries := by
  induction rebuilds using List.reverseRecOn with
  | nil => cases stored
  | append_singleton rebuilds r _ =>
    rw [afterRebuilds_snoc, Files.rebuildWithFst_files] at stored
    refine ⟨r, List.getLast?_concat, ?_⟩
    cases progress : r.progress <;> simp [progress] at stored <;> exact stored.symm

def declaredNames (entries : List DetectableEntry) : Finset String :=
  (entries.flatMap fun entry => entry.executables.map (·.name)).toFinset

theorem mem_declaredNames {entries : List DetectableEntry} {exeName : String} :
    exeName ∈ declaredNames entries ↔ exeName ∈ exeNames entries := by
  have declared : exeName ∈ exeNames entries ↔ ∃ entry ∈ entries, entry.declares exeName :=
    AList.mem_keys.symm.trans mem_exeToIds
  rw [declared]
  simp [declaredNames, DetectableEntry.declares]

theorem card_declaredNames (entries : List DetectableEntry) :
    (declaredNames entries).card = (exeNames entries).length := by
  have same : declaredNames entries = (exeNames entries).toFinset := by
    ext exeName
    rw [mem_declaredNames, List.mem_toFinset]
  rw [same, List.toFinset_card_of_nodup (exeNames_nodup entries)]

/-- The FST and the memory of a handle know exactly the names that its redb declares. -/
structure DetectableDb.Indexed (db : DetectableDb) (tables : Tables) : Prop where
  fst : ∀ key, db.fst.contains key = true ↔ ∃ exeName ∈ tables.exes, utf8 exeName = key
  exeIndex : ∀ exeName, exeName ∈ db.exeIndex ↔ exeName ∈ tables.exes

theorem indexed_iff {tables : Tables} {names : List String} (distinct : names.Nodup) :
    (⟨some tables, nameSet names distinct, exeIndexOf tables.exes⟩ : DetectableDb).Indexed tables ↔
      ∀ exeName, exeName ∈ names ↔ exeName ∈ tables.exes := by
  constructor
  · intro indexed exeName
    rw [← nameSet_contains_utf8 distinct, indexed.fst (utf8 exeName)]
    constructor
    · intro assumed
      rcases assumed with ⟨other, member, same⟩
      exact utf8_injective same ▸ member
    · intro member
      exact ⟨exeName, member, rfl⟩
  · intro same
    refine ⟨?_, fun exeName => mem_mapTable⟩
    intro key
    rw [nameSet_contains]
    simp only [same]

/-- The last rebuild and the last one that replaced the FST do not declare equally many, yet
    different, names. -/
def Unmixed (rebuilds : List Rebuild) : Prop :=
  ∀ last renamed, rebuilds.getLast? = some last → lastRename rebuilds = some renamed →
    (declaredNames renamed.entries).card = (declaredNames last.entries).card →
    declaredNames renamed.entries = declaredNames last.entries

theorem exes_length (entries : List DetectableEntry) :
    (tablesOf entries).exes.keys.length = (declaredNames entries).card :=
  (exesTable_keys_perm entries).length_eq.trans (card_declaredNames entries).symm

theorem fstOf_len_eq {entries renamed : List DetectableEntry}
    (count : (declaredNames renamed).card = (declaredNames entries).card) :
    (fstOf renamed).len = (tablesOf entries).exes.keys.length := by
  rw [fstOf, nameSet_len, exes_length, ← count, card_declaredNames]

theorem adopted_indexed_iff {files after : Files} {writes : Bool} {db : DetectableDb}
    {entries renamed : List DetectableEntry}
    (redb : files.redb = some (some (tablesOf entries)))
    (file : files.fst = .valid (fstOf renamed))
    (count : (declaredNames renamed).card = (declaredNames entries).card)
    (opened : files.openWithFst writes = (after, some db)) :
    db.Indexed (tablesOf entries) ↔ declaredNames renamed = declaredNames entries := by
  rw [Files.openWithFst_adopts writes redb file (fstOf_len_eq count)] at opened
  cases opened
  rw [fstOf, indexed_iff]
  constructor
  · intro same
    ext exeName
    rw [mem_declaredNames, mem_declaredNames, same, mem_exesTable]
  · intro same exeName
    rw [mem_exesTable, ← mem_declaredNames, ← mem_declaredNames, same]

theorem healed_indexed {files after : Files} {writes : Bool} {db : DetectableDb} {tables : Tables}
    (redb : files.redb = some (some tables)) (rows : tables.exes.keys ≠ [])
    (other : ∀ set, files.fst = .valid set → set.len ≠ tables.exes.keys.length)
    (opened : files.openWithFst writes = (after, some db)) : db.Indexed tables := by
  rw [Files.openWithFst_heals writes redb rows other] at opened
  split at opened
  · cases opened
    exact (indexed_iff _).mpr fun exeName => AList.mem_keys.symm
  · cases opened

def afterOpens (opens : List Bool) (files : Files) : Files :=
  opens.foldl (fun files writes => (files.openWithFst writes).1) files

theorem afterOpens_redb (opens : List Bool) (files : Files) :
    (afterOpens opens files).redb = files.redb := by
  induction opens generalizing files with
  | nil => rfl
  | cons writes opens ih => exact (ih _).trans (files.openWithFst_keeps_redb writes)

theorem afterOpens_fst {files : Files} {tables : Tables} (opens : List Bool)
    (redb : files.redb = some (some tables)) (rows : tables.exes.keys ≠ []) :
    (afterOpens opens files).fst = files.fst ∨
      ((∀ set, files.fst = .valid set → set.len ≠ tables.exes.keys.length) ∧
        (afterOpens opens files).fst = .valid (nameSet tables.exes.keys tables.exes.keys_nodup)) := by
  induction opens generalizing files with
  | nil => exact .inl rfl
  | cons writes opens ih =>
    have redb' : (files.openWithFst writes).1.redb = some (some tables) :=
      (files.openWithFst_keeps_redb writes).trans redb
    have later := ih redb'
    by_cases adopted : ∃ set, files.fst = .valid set ∧ set.len = tables.exes.keys.length
    · obtain ⟨set, valid, count⟩ := adopted
      have kept := Files.openWithFst_adopts writes redb valid count
      have again : afterOpens (writes :: opens) files = afterOpens opens files := by
        rw [afterOpens, List.foldl_cons, kept]
        rfl
      rw [kept] at later
      rw [again]
      exact later
    · have other : ∀ set, files.fst = .valid set → set.len ≠ tables.exes.keys.length :=
        fun set valid count => adopted ⟨set, valid, count⟩
      have first : (files.openWithFst writes).1.fst = files.fst ∨ (files.openWithFst writes).1.fst =
          .valid (nameSet tables.exes.keys tables.exes.keys_nodup) := by
        rw [Files.openWithFst_heals writes redb rows other]
        cases writes with
        | true => exact .inr rfl
        | false => exact .inl rfl
      rcases later with same | ⟨_, healed⟩
      · rcases first with untouched | healed
        · exact .inl (same.trans untouched)
        · exact .inr ⟨other, same.trans healed⟩
      · exact .inr ⟨other, healed⟩

theorem opened_indexed_iff {rebuilds : List Rebuild} {opens : List Bool} {writes : Bool}
    {files : Files} {db : DetectableDb} {tables : Tables}
    (opened : (afterOpens opens (afterRebuilds rebuilds)).openWithFst writes = (files, some db))
    (stored : db.tables = some tables) (rows : tables.exes.keys ≠ []) :
    db.Indexed tables ↔ Unmixed rebuilds := by
  have redb := Files.openWithFst_redb opened
  rw [stored] at redb
  have redb' := (afterOpens_redb opens (afterRebuilds rebuilds)).symm.trans redb
  obtain ⟨last, final, rfl⟩ := afterRebuilds_redb redb'
  have file := afterRebuilds_fst rebuilds
  have now := afterOpens_fst opens redb' rows
  by_cases adopted : ∃ renamed, lastRename rebuilds = some renamed ∧
      (declaredNames renamed.entries).card = (declaredNames last.entries).card
  · obtain ⟨renamed, found, count⟩ := adopted
    rw [found] at file
    have kept : (afterOpens opens (afterRebuilds rebuilds)).fst = .valid (fstOf renamed.entries) := by
      rcases now with same | ⟨other, _⟩
      · exact same.trans file
      · exact absurd (fstOf_len_eq count) (other _ file)
    rw [adopted_indexed_iff redb kept count opened]
    constructor
    · intro same other renamed' final' found' _
      cases final.symm.trans final'
      cases found.symm.trans found'
      exact same
    · intro unmixed
      exact unmixed last renamed final found count
  · have unmixed : Unmixed rebuilds := by
      intro last' renamed final' found count
      cases final.symm.trans final'
      exact absurd ⟨renamed, found, count⟩ adopted
    apply iff_of_true _ unmixed
    rcases now with same | ⟨_, healed⟩
    · apply healed_indexed redb rows _ opened
      intro set valid len
      rw [same.symm.trans valid] at file
      cases found : lastRename rebuilds with
      | none =>
        rw [found] at file
        cases file
      | some renamed =>
        rw [found] at file
        cases file
        apply adopted
        refine ⟨renamed, found, ?_⟩
        rw [card_declaredNames, ← exes_length, ← len, fstOf, nameSet_len]
    · rw [Files.openWithFst_adopts writes redb healed (nameSet_len _)] at opened
      cases opened
      exact (indexed_iff _).mpr fun exeName => AList.mem_keys.symm

def shooter : DetectableEntry := ⟨"1", "Shooter", [⟨"shooter.exe", none⟩]⟩

def racer : DetectableEntry := ⟨"2", "Racer", [⟨"racer.exe", none⟩]⟩

def cutAfterCommit (entries : List DetectableEntry) : List Rebuild :=
  [⟨[shooter], .finished⟩, ⟨entries, .committed⟩]

def healed : DetectableDb :=
  ⟨some (tablesOf [shooter, racer]), fstOf [shooter, racer],
    exeIndexOf (tablesOf [shooter, racer]).exes⟩

def stale : DetectableDb :=
  ⟨some (tablesOf [racer]), fstOf [shooter], exeIndexOf (tablesOf [racer]).exes⟩

theorem opened_indexed_iff_healed :
    healed.Indexed (tablesOf [shooter, racer]) ↔ Unmixed (cutAfterCommit [shooter, racer]) := by
  have opened : (afterOpens [] (afterRebuilds (cutAfterCommit [shooter, racer]))).openWithFst true =
      (_, some healed) := rfl
  exact opened_indexed_iff opened rfl (by decide)

theorem stale_fst_adopted :
    ∃ files, (afterRebuilds (cutAfterCommit [racer])).openWithFst true = (files, some stale) ∧
      (tablesOf [racer]).exes.keys ≠ [] ∧ stale.tables = some (tablesOf [racer]) ∧
      ¬stale.Indexed (tablesOf [racer]) ∧ stale.matchProcess "/games/racer.exe" [] = some none ∧
      matchProcess "/games/racer.exe" [] [racer] = some (some racer) := by
  refine ⟨_, rfl, by decide, rfl, ?_, by decide, by decide⟩
  intro indexed
  have known := (indexed.fst (utf8 "racer.exe")).mpr ⟨"racer.exe", by decide, rfl⟩
  exact absurd known (by decide)

end Dirpc
