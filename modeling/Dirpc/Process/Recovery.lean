import Dirpc.Process.Cache
import Dirpc.Process.Matching
import Dirpc.Process.StaleFst

namespace Dirpc

open Base

def exesRows : Option Tables → List String
  | none => []
  | some tables => tables.exes.keys

def FstFile.isVacant : FstFile → Bool
  | .missing | .empty => true
  | .garbage | .valid _ => false

theorem FstFile.valid_or_unreadable (file : FstFile) :
    (∃ set, file = .valid set) ∨ loadMmapFst file = none := by
  cases file with
  | valid set => exact .inl ⟨set, rfl⟩
  | missing | empty | garbage => exact .inr rfl

namespace Files

theorem openWithFst_rowless {files : Files} {created : Option Tables} {set : KeySet} (writes : Bool)
    (redb : files.redb = some created) (rows : exesRows created = [])
    (valid : files.fst = .valid set) :
    ∃ index, files.openWithFst writes = (files, some ⟨created, set, index⟩) := by
  cases created with
  | none =>
    apply Exists.intro ∅
    simp only [openWithFst, redb, valid, ensureFstFile, Option.map_some]
    rw [← valid, ← redb]
  | some tables =>
    apply Exists.intro (exeIndexOf tables.exes)
    by_cases count : set.len = tables.exes.keys.length
    · exact openWithFst_adopts writes redb valid count
    · have none : tables.exes.keys.isEmpty = true := by
        change tables.exes.keys = [] at rows
        rw [rows]
        rfl
      simp only [openWithFst, redb, valid, loadMmapFst_valid, Option.filter, count, decide_false,
        none, if_true, Option.map_some, Bool.false_eq_true, if_false]
      rw [← valid, ← redb]

theorem openWithFst_unreadable {files : Files} {created : Option Tables} (writes : Bool)
    (redb : files.redb = some created) (rows : exesRows created = [])
    (unreadable : loadMmapFst files.fst = none) :
    files.openWithFst writes =
      if created.isNone && files.fst.isVacant && writes then
        ({ files with fst := .valid .empty }, some ⟨none, .empty, ∅⟩)
      else (files, none) := by
  have built : KeySet.build [] = some .empty := rfl
  cases created with
  | none =>
    have same : (⟨some none, files.temp, files.fst⟩ : Files) = files := by rw [← redb]
    cases file : files.fst with
    | valid set =>
      rw [file] at unreadable
      cases unreadable
    | garbage =>
      rw [file] at same
      simp [openWithFst, redb, file, ensureFstFile, FstFile.isVacant, same]
    | missing | empty =>
      rw [file] at same
      cases writes <;>
        simp [openWithFst, redb, file, ensureFstFile, writeFstFile, built, FstFile.isVacant, same]
  | some tables =>
    have same : (⟨some (some tables), files.temp, files.fst⟩ : Files) = files := by rw [← redb]
    have none : tables.exes.keys.isEmpty = true := List.isEmpty_iff.mpr rows
    simp [openWithFst, redb, unreadable, none, same]

theorem openWithFst_exeIndex {files after : Files} {writes : Bool} {db : DetectableDb}
    (opened : files.openWithFst writes = (after, some db)) :
    db.exeIndex = db.tables.elim ∅ fun tables => exeIndexOf tables.exes := by
  unfold openWithFst at opened
  split at opened
  · cases opened
  · obtain ⟨set, _, rfl⟩ := Option.map_eq_some_iff.mp (congrArg Prod.snd opened)
    rfl
  · dsimp only at opened
    split at opened
    · cases opened
      rfl
    · obtain ⟨_, handle⟩ := Option.ite_none_right_eq_some.mp (congrArg Prod.snd opened)
      obtain ⟨set, _, rfl⟩ := Option.map_eq_some_iff.mp handle
      rfl

theorem openOrFail_eq_some {files : Files} {disk : Disk} {db : DetectableDb} :
    (files.openOrFail disk).2 = some db ↔
      disk.opens = true ∧ (files.openWithFst disk.writes).2 = some db := by
  unfold openOrFail
  split
  · simp [*]
  · simp [*]

/-- Opening these files succeeds and leaves a parseable FST, the one of the declared names where no
    parseable one was found. -/
def Recovers (files : Files) : Prop :=
  ∃ after db set, files.openWithFst true = (after, some db) ∧ after.fst = .valid set ∧
    (loadMmapFst files.fst = none → ∀ key, set.contains key = true ↔
      ∃ exeName ∈ exesRows (files.redb.getD none), utf8 exeName = key)

theorem recovers_rows (tables : Tables) (temp : Option KeySet) (file : FstFile)
    (rows : tables.exes.keys ≠ []) : Recovers ⟨some (some tables), temp, file⟩ := by
  by_cases adopted : ∃ set, file = .valid set ∧ set.len = tables.exes.keys.length
  · obtain ⟨set, rfl, count⟩ := adopted
    exact ⟨_, _, set, openWithFst_adopts true rfl rfl count, rfl, nofun⟩
  · have redb : (Files.mk (some (some tables)) temp file).redb = some (some tables) := rfl
    have healed := openWithFst_heals true redb rows fun set valid count => adopted ⟨set, valid, count⟩
    exact ⟨_, _, _, healed, rfl, fun _ => nameSet_contains _⟩

/-- A redb without rows leaves an unparseable FST, and also a vacant one if its tables exist, as
    it is: then opening fails. -/
theorem opening_recovers_iff (created : Option Tables) (temp : Option KeySet) (file : FstFile) :
    Recovers ⟨some created, temp, file⟩ ↔
      exesRows created ≠ [] ∨ (∃ set, file = .valid set) ∨
        (created.isNone = true ∧ file.isVacant = true) := by
  have redb : (Files.mk (some created) temp file).redb = some created := rfl
  by_cases rows : exesRows created = []
  · rcases file.valid_or_unreadable with ⟨set, rfl⟩ | unreadable
    · obtain ⟨index, opened⟩ := openWithFst_rowless true redb rows rfl
      exact iff_of_true ⟨_, _, set, opened, rfl, nofun⟩ (.inr (.inl ⟨set, rfl⟩))
    · have opened := openWithFst_unreadable true redb rows unreadable
      have invalid : ¬∃ set, file = .valid set := by
        intro assumed
        rcases assumed with ⟨set, rfl⟩
        cases unreadable
      simp only [rows, invalid, ne_eq, not_true_eq_false, false_or]
      constructor
      · intro assumed
        rcases assumed with ⟨after, db, set, found, _⟩
        rw [opened] at found
        split at found
        · rename_i replaced
          simpa using replaced
        · cases found
      · intro replaced
        rw [if_pos (by simpa using replaced)] at opened
        refine ⟨_, _, .empty, opened, rfl, ?_⟩
        intro _ key
        simp [Option.getD_some, rows, KeySet.contains, KeySet.empty]
  · cases created with
    | none => exact absurd rfl rows
    | some tables => exact iff_of_true (recovers_rows tables temp file rows) (.inl rows)

theorem rowless_missing_unrecovered :
    (noFiles.rebuildWithFst true [] .finished).1 =
        ⟨some (some (tablesOf [])), none, .valid (fstOf [])⟩ ∧
      ¬Recovers ⟨some (some (tablesOf [])), none, .missing⟩ := by
  refine ⟨rfl, ?_⟩
  intro assumed
  rcases assumed with ⟨after, db, set, opened, _⟩
  cases opened

end Files

end Dirpc
