import Dirpc.Base.KeySet
import Dirpc.Base.Table
import Dirpc.Process.Paths
import Dirpc.Types

namespace Dirpc

open Base

structure Executable where
  name : String
  arguments : Option (List String) := none
  deriving DecidableEq

structure DetectableEntry where
  id : String
  name : String
  executables : List Executable
  deriving DecidableEq

def argsOk (args : List String) (exe : Executable) : Bool :=
  exe.arguments.all fun required => required.all fun arg => args.contains arg

def nameMatches (variants : List String) (filename : String) (exe : Executable) : Bool :=
  match exe.name.toList with
  | '>' :: exact => exact == filename.toList
  | _ => variants.contains exe.name

def DetectableEntry.matchesProcess (variants : List String) (filename : String)
    (args : List String) (entry : DetectableEntry) : Bool :=
  entry.executables.any fun exe => nameMatches variants filename exe && argsOk args exe

def matchProcess (path : String) (args : List String) (entries : List DetectableEntry) :
    MayPanic (Option DetectableEntry) := do
  let variants ← pathVariants path
  let filename ← pathFilename path
  pure (entries.find? (·.matchesProcess variants filename args))

def archivedNameMatches (variants : List String) (filename : String) (exe : Executable) :
    MayPanic Bool :=
  if exe.name.toList.head? = some '>' then
    (dropBytes 1 exe.name.toList).map (· == filename.toList)
  else some (variants.contains exe.name)

def archivedMatch (variants : List String) (filename : String) (args : List String) :
    List Executable → MayPanic Bool
  | [] => some false
  | exe :: rest => do
    let matched ← archivedNameMatches variants filename exe
    if matched && argsOk args exe then pure true else archivedMatch variants filename args rest

abbrev AppsTable := AList fun _ : String => DetectableEntry

abbrev ExesTable := AList fun _ : String => String

abbrev ExeIndex := AList fun _ : String => List String

/-- What one write transaction puts into the database: `apps` maps an id to its entry, `exes` an
    executable's name to its ids, one a line. -/
structure Tables where
  apps : AppsTable
  exes : ExesTable

def pushId (index : ExeIndex) (exeName id : String) : ExeIndex :=
  index.insert exeName ((index.lookup exeName).getD [] ++ [id])

def exeToIds (entries : List DetectableEntry) : ExeIndex :=
  entries.foldl (fun index entry =>
    entry.executables.foldl (fun index exe => pushId index exe.name entry.id) index) ∅

def appsTable (entries : List DetectableEntry) : AppsTable :=
  entries.foldl (fun apps entry => apps.insert entry.id entry) ∅

def joinIds (ids : List String) : String := "\n".intercalate ids

def exesTable (index : ExeIndex) : ExesTable := mapTable joinIds index

def tablesOf (entries : List DetectableEntry) : Tables :=
  ⟨appsTable entries, exesTable (exeToIds entries)⟩

namespace Tables

def empty : Tables := ⟨∅, ∅⟩

/-- The transaction over tables that are there already: rows of other keys stay. -/
def ingest (tables : Tables) (entries : List DetectableEntry) : Tables :=
  ⟨entries.foldl (fun apps entry => apps.insert entry.id entry) tables.apps,
    (exeToIds entries).entries.foldl (fun exes row => exes.insert row.1 (joinIds row.2)) tables.exes⟩

@[simp] theorem ingest_empty (entries : List DetectableEntry) :
    empty.ingest entries = tablesOf entries := rfl

theorem ingest_exes (tables : Tables) (entries : List DetectableEntry) (exeName : String) :
    (tables.ingest entries).exes.lookup exeName =
      ((tablesOf entries).exes.lookup exeName).or (tables.exes.lookup exeName) := by
  have row : (tablesOf entries).exes.lookup exeName = ((exeToIds entries).lookup exeName).map joinIds :=
    lookup_mapTable ..
  rw [row]
  exact lookup_foldRows joinIds (exeToIds entries).nodupKeys tables.exes exeName

end Tables

def sortedNames (names : List String) : List (List UInt8) := sortKeys (names.map utf8)

/-- A handle: what its redb file holds (no tables in one that was only created), the FST it has
    mapped, and the index in memory. -/
structure DetectableDb where
  tables : Option Tables
  fst : KeySet
  exeIndex : ExeIndex

abbrev Search := List String ⊕ (String × String)

namespace DetectableDb

def searchIds (apps : AppsTable) (variants : List String) (filename : String)
    (args : List String) : List String → List String → MayPanic Search
  | [], seen => some (.inl seen)
  | id :: ids, seen =>
    if seen.contains id then searchIds apps variants filename args ids seen
    else match apps.lookup id with
      | none => searchIds apps variants filename args ids (seen ++ [id])
      | some entry => do
        let hit ← archivedMatch variants filename args entry.executables
        if hit then pure (.inr (entry.id, entry.name))
        else searchIds apps variants filename args ids (seen ++ [id])

def searchNames (db : DetectableDb) (apps : AppsTable) (variants : List String)
    (filename : String) (args : List String) :
    List String → List String → MayPanic (Option (String × String))
  | [], _ => some none
  | exeName :: names, seen =>
    if db.fst.contains (utf8 exeName) then
      match db.exeIndex.lookup exeName with
      | none => searchNames db apps variants filename args names seen
      | some ids => do
        match ← searchIds apps variants filename args ids seen with
        | .inl seen => searchNames db apps variants filename args names seen
        | .inr hit => pure (some hit)
    else searchNames db apps variants filename args names seen

def lookupNames (variants : List String) (filename : String) : List String :=
  variants ++ if filename = "" then [] else [String.ofList ('>' :: filename.toList)]

def matchProcess (db : DetectableDb) (path : String) (args : List String) :
    MayPanic (Option (String × String)) := do
  let variants ← pathVariants path
  let filename ← pathFilename path
  let names := lookupNames variants filename
  if names.any fun exeName => db.fst.contains (utf8 exeName) then
    match db.tables with
    | none => pure none
    | some tables => db.searchNames tables.apps variants filename args names []
  else pure none

end DetectableDb

theorem archivedNameMatches_eq (variants : List String) (filename : String) (exe : Executable) :
    archivedNameMatches variants filename exe = some (nameMatches variants filename exe) := by
  unfold archivedNameMatches nameMatches
  cases shape : exe.name.toList with
  | nil => rfl
  | cons c rest =>
    by_cases exact : c = '>'
    · subst exact
      have cut : dropBytes 1 ('>' :: rest) = some rest := dropBytes_append ['>'] rest
      rw [List.head?_cons, if_pos rfl, cut]
      rfl
    · simp [exact]

theorem archivedMatch_eq (variants : List String) (filename : String) (args : List String)
    (executables : List Executable) :
    archivedMatch variants filename args executables =
      some (executables.any fun exe => nameMatches variants filename exe && argsOk args exe) := by
  induction executables with
  | nil => rfl
  | cons exe rest ih =>
    rw [archivedMatch, archivedNameMatches_eq, List.any_cons, Option.bind_eq_bind,
      Option.bind_some]
    cases nameMatches variants filename exe && argsOk args exe with
    | true => rfl
    | false => exact ih

theorem archivedMatch_entry (variants : List String) (filename : String) (args : List String)
    (entry : DetectableEntry) :
    archivedMatch variants filename args entry.executables =
      some (entry.matchesProcess variants filename args) := archivedMatch_eq ..

theorem lookup_pushId (index : ExeIndex) (exeName id other : String) :
    ((pushId index exeName id).lookup other).getD [] =
      (index.lookup other).getD [] ++ if other = exeName then [id] else [] := by
  by_cases same : other = exeName
  · subst same
    rw [pushId, AList.lookup_insert, if_pos rfl]
    rfl
  · rw [pushId, AList.lookup_insert_ne same, if_neg same, List.append_nil]

theorem mem_pushId {index : ExeIndex} {exeName id other : String} :
    other ∈ pushId index exeName id ↔ other = exeName ∨ other ∈ index := AList.mem_insert _

def DetectableEntry.declares (entry : DetectableEntry) (exeName : String) : Prop :=
  ∃ exe ∈ entry.executables, exe.name = exeName

theorem mem_pushEntry {index : ExeIndex} {entry : DetectableEntry} {exeName : String} :
    exeName ∈ entry.executables.foldl (fun index exe => pushId index exe.name entry.id) index ↔
      entry.declares exeName ∨ exeName ∈ index := by
  unfold DetectableEntry.declares
  generalize entry.executables = executables
  induction executables generalizing index with
  | nil => simp
  | cons exe rest ih =>
    rw [List.foldl_cons, ih, mem_pushId]
    simp only [List.mem_cons, exists_eq_or_imp, eq_comm (a := exe.name), or_assoc]
    exact or_left_comm

def declaredIds (exeName : String) (entry : DetectableEntry) : List String :=
  (entry.executables.filter (·.name = exeName)).map fun _ => entry.id

theorem mem_declaredIds {exeName id : String} {entry : DetectableEntry} :
    id ∈ declaredIds exeName entry ↔ entry.declares exeName ∧ id = entry.id := by
  simp only [declaredIds, DetectableEntry.declares, List.mem_map, List.mem_filter, decide_eq_true_eq]
  constructor
  · intro assumed
    rcases assumed with ⟨exe, declared, rfl⟩
    exact ⟨⟨exe, declared⟩, rfl⟩
  · intro assumed
    rcases assumed with ⟨⟨exe, declared⟩, rfl⟩
    exact ⟨exe, declared, rfl⟩

theorem lookup_pushEntry (index : ExeIndex) (entry : DetectableEntry) (exeName : String) :
    ((entry.executables.foldl (fun index exe => pushId index exe.name entry.id) index).lookup
        exeName).getD [] =
      (index.lookup exeName).getD [] ++ declaredIds exeName entry := by
  unfold declaredIds
  generalize entry.executables = executables
  induction executables generalizing index with
  | nil => simp
  | cons exe rest ih =>
    rw [List.foldl_cons, ih, lookup_pushId]
    by_cases same : exeName = exe.name
    · simp [same]
    · simp [same, Ne.symm same]

theorem mem_foldEntries {entries : List DetectableEntry} {index : ExeIndex} {exeName : String} :
    exeName ∈ entries.foldl (fun index entry =>
        entry.executables.foldl (fun index exe => pushId index exe.name entry.id) index) index ↔
      (∃ entry ∈ entries, entry.declares exeName) ∨ exeName ∈ index := by
  induction entries generalizing index with
  | nil => simp
  | cons entry rest ih =>
    rw [List.foldl_cons, ih, mem_pushEntry]
    simp only [List.mem_cons, exists_eq_or_imp]
    exact or_left_comm.trans or_assoc.symm

theorem lookup_foldEntries (entries : List DetectableEntry) (index : ExeIndex) (exeName : String) :
    ((entries.foldl (fun index entry =>
        entry.executables.foldl (fun index exe => pushId index exe.name entry.id) index)
        index).lookup exeName).getD [] =
      (index.lookup exeName).getD [] ++ entries.flatMap (declaredIds exeName) := by
  induction entries generalizing index with
  | nil => simp
  | cons entry rest ih =>
    rw [List.foldl_cons, ih, lookup_pushEntry, List.flatMap_cons, List.append_assoc]

theorem mem_exeToIds {entries : List DetectableEntry} {exeName : String} :
    exeName ∈ exeToIds entries ↔ ∃ entry ∈ entries, entry.declares exeName := by
  rw [exeToIds, mem_foldEntries]
  simp

theorem lookup_exeToIds (entries : List DetectableEntry) (exeName : String) :
    ((exeToIds entries).lookup exeName).getD [] = entries.flatMap (declaredIds exeName) := by
  rw [exeToIds, lookup_foldEntries]
  rfl

theorem mem_lookup_exeToIds {entries : List DetectableEntry} {exeName id : String} :
    id ∈ ((exeToIds entries).lookup exeName).getD [] ↔
      ∃ entry ∈ entries, entry.declares exeName ∧ id = entry.id := by
  simp only [lookup_exeToIds, List.mem_flatMap, mem_declaredIds]

/-- For each id the last entry with it: what the `apps` table keeps. -/
def lastWins : List DetectableEntry → List DetectableEntry
  | [] => []
  | entry :: rest =>
    if rest.any (·.id == entry.id) then lastWins rest else entry :: lastWins rest

theorem mem_of_lastWins {entries : List DetectableEntry} {entry : DetectableEntry}
    (kept : entry ∈ lastWins entries) : entry ∈ entries := by
  induction entries with
  | nil => cases kept
  | cons head rest ih =>
    rw [lastWins] at kept
    split at kept
    · exact List.mem_cons_of_mem _ (ih kept)
    · rcases List.mem_cons.mp kept with rfl | later
      · exact List.mem_cons_self
      · exact List.mem_cons_of_mem _ (ih later)

theorem lookup_foldApps {entries : List DetectableEntry} {apps : AppsTable} {id : String}
    {entry : DetectableEntry} :
    (entries.foldl (fun apps entry => apps.insert entry.id entry) apps).lookup id = some entry ↔
      (entry ∈ lastWins entries ∧ entry.id = id) ∨
        ((∀ other ∈ entries, other.id ≠ id) ∧ apps.lookup id = some entry) := by
  induction entries generalizing apps with
  | nil => simp [lastWins]
  | cons head rest ih =>
    rw [List.foldl_cons, ih, lastWins]
    by_cases same : id = head.id
    · subst same
      rw [AList.lookup_insert]
      by_cases later : ∃ other ∈ rest, other.id = head.id
      · have overwritten : rest.any (·.id == head.id) = true := by simpa using later
        have none : ¬∀ other ∈ rest, other.id ≠ head.id := by simpa using later
        simp [overwritten, none]
      · have last : rest.any (·.id == head.id) = false := by simpa using later
        have all : ∀ other ∈ rest, other.id ≠ head.id := by simpa using later
        simp only [last, Bool.false_eq_true, if_false, List.mem_cons, forall_eq_or_imp, ne_eq,
          not_true_eq_false, false_and, or_false, Option.some.injEq]
        constructor
        · intro assumed
          rcases assumed with ⟨kept, key⟩ | ⟨_, rfl⟩
          · exact ⟨.inr kept, key⟩
          · exact ⟨.inl rfl, rfl⟩
        · intro assumed
          rcases assumed with ⟨rfl | kept, key⟩
          · exact .inr ⟨all, rfl⟩
          · exact .inl ⟨kept, key⟩
    · rw [AList.lookup_insert_ne same]
      have kept : (entry ∈ (if rest.any (·.id == head.id) then lastWins rest
          else head :: lastWins rest) ∧ entry.id = id) ↔ entry ∈ lastWins rest ∧ entry.id = id := by
        split
        · rfl
        · constructor
          · intro assumed
            rcases assumed with ⟨member, rfl⟩
            rcases List.mem_cons.mp member with rfl | later
            · exact absurd rfl same
            · exact ⟨later, rfl⟩
          · intro assumed
            rcases assumed with ⟨member, key⟩
            exact ⟨List.mem_cons_of_mem _ member, key⟩
      rw [kept]
      simp [Ne.symm same]

theorem Tables.ingest_apps (tables : Tables) {entries : List DetectableEntry} {id : String}
    (own : ∃ entry ∈ entries, entry.id = id) :
    (tables.ingest entries).apps.lookup id = (tablesOf entries).apps.lookup id := by
  apply Option.ext
  intro entry
  have others : ¬∀ other ∈ entries, other.id ≠ id := by
    obtain ⟨known, member, key⟩ := own
    exact fun none => none known member key
  have own_rows {apps : AppsTable} :
      (entries.foldl (fun apps entry => apps.insert entry.id entry) apps).lookup id = some entry ↔
        entry ∈ lastWins entries ∧ entry.id = id := by
    rw [lookup_foldApps]
    simp [others]
  exact own_rows.trans own_rows.symm

theorem lookup_appsTable {entries : List DetectableEntry} {id : String}
    {entry : DetectableEntry} :
    (appsTable entries).lookup id = some entry ↔ entry ∈ lastWins entries ∧ entry.id = id := by
  rw [appsTable, lookup_foldApps]
  simp

end Dirpc
