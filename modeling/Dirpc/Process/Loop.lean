import Dirpc.Process.Cache
import Dirpc.Process.Difference
import Dirpc.Process.Recognition
import Dirpc.Process.Reopen

namespace Dirpc

open Base

structure SysProcess where
  exe : Option String
  cmd : List String

abbrev ProcessTable := AList fun _ : UInt32 => SysProcess

def processInfo (row : Sigma fun _ : UInt32 => SysProcess) : Option ProcessInfo :=
  row.2.exe.bind fun path =>
    if path = "" then none else some ⟨row.1, path, row.2.cmd.drop 1⟩

def getProcessList (order : IterOrder (Sigma fun _ : UInt32 => SysProcess))
    (table : Option ProcessTable) : List ProcessInfo :=
  (order.arrange (table.getD ∅).entries).filterMap processInfo

def weekSecs : Nat := 7 * 24 * 3600

/-- One turn of the loop: the time since the last refresh, how a refresh would go, the table of
    processes and the orders and clocks of the scan. -/
structure Tick where
  elapsed : Nat
  current : String
  reachable : Bool
  disk : Disk
  table : Option ProcessTable
  tableOrder : IterOrder (Sigma fun _ : UInt32 => SysProcess)
  order : IterOrder (Sigma fun _ : UInt32 => String)
  clock : UInt32 → Nat → Int

def Tick.processes (tick : Tick) : List ProcessInfo := getProcessList tick.tableOrder tick.table

def Tick.refresh (tick : Tick) : CacheEvent :=
  .refresh tick.current tick.reachable tick.disk

def Tick.scan (tick : Tick) (db : DetectableDb) : Scan :=
  ⟨db, tick.processes, tick.order, tick.clock⟩

structure ScanTask where
  cache : Cache
  scanner : Scanner

/-- A start of the program, a turn of the loop, and what other tasks broadcast in between. -/
inductive LoopEvent where
  | start (current : String) (reachable : Bool) (disk : Disk)
  | tick (tick : Tick)
  | others (event : ActivityEvent)

namespace ScanTask

def initial : ScanTask := ⟨.initial, ⟨.new, ∅⟩⟩

def refreshed (server : ListServer) (l : ScanTask) (tick : Tick) : Option Cache :=
  if weekSecs < tick.elapsed then l.cache.step server tick.refresh else some l.cache

/-- `start_process_scanner`: after a failed start there is no database and no turn is taken. -/
def step (server : ListServer) (l : ScanTask) : LoopEvent → Option ScanTask
  | .start current reachable disk =>
    (l.cache.step server (.start current reachable disk)).map fun cache => ⟨cache, ⟨.new, ∅⟩⟩
  | .tick tick =>
    if l.cache.running.isSome then do
      let cache ← l.refreshed server tick
      let db ← cache.running
      let scanner ← scanOnce (tick.scan db) l.scanner
      pure ⟨cache, scanner⟩
    else none
  | .others event =>
    if event.socketId = 0 then none
    else some { l with scanner := { l.scanner with server := l.scanner.server.sendActivity event } }

end ScanTask

/-- The list that the running database was made from: one of the server's, or the empty list. -/
structure Cache.InUse (server : ListServer) (c : Cache) (entries : List DetectableEntry) : Prop where
  given : entries = [] ∨ ∃ tag, entries = server.lists tag
  held : ∃ db, c.running = some db ∧ db.Holds entries

/-- What the scanner has broadcast itself. -/
def scannerEvents (log : List ActivityEvent) : List ActivityEvent :=
  log.filter fun event => event.socketId = 0

def ListServer.Plain (server : ListServer) : Prop :=
  ∀ tag, ∀ entry ∈ server.lists tag, '\n' ∉ entry.id.toList

def ScanTask.Sound (server : ListServer) (l : ScanTask) : LoopEvent → Prop
  | .start current reachable disk => l.cache.Sound server (.start current reachable disk)
  | .tick tick => weekSecs < tick.elapsed → l.cache.Sound server tick.refresh
  | .others _ => True

/-- The table tracks exactly the listed processes that an entry recognises, each under the id of such an
    entry, and none whose path has no component. -/
structure Tracks (active : Active) (processes : List ProcessInfo)
    (entries : List DetectableEntry) : Prop where
  absent : ∀ pid, (∀ proc ∈ processes, proc.pid ≠ pid) → active.lookup pid = none
  blank : ∀ proc ∈ processes, (∀ c ∈ proc.path.toList, isSeparator c = true) →
    active.lookup proc.pid = none
  present : ∀ proc ∈ processes, (∃ c ∈ proc.path.toList, isSeparator c = false) →
    ((active.lookup proc.pid).isSome ↔ ∃ entry ∈ entries, Recognised proc.path proc.args entry)
  listed : ∀ proc ∈ processes, ∀ id, active.lookup proc.pid = some id →
    ∃ entry ∈ entries, entry.id = id ∧ Recognised proc.path proc.args entry

theorem processInfo_pid {row : Sigma fun _ : UInt32 => SysProcess} {proc : ProcessInfo}
    (listed : processInfo row = some proc) : proc.pid = row.1 := by
  obtain ⟨path, _, kept⟩ := Option.bind_eq_some_iff.mp listed
  obtain ⟨_, same⟩ := Option.ite_none_left_eq_some.mp kept
  cases same
  rfl

theorem getProcessList_pids (order : IterOrder (Sigma fun _ : UInt32 => SysProcess))
    (table : Option ProcessTable) : ((getProcessList order table).map (·.pid)).Nodup := by
  have keys : ((order.arrange (table.getD ∅).entries).map Sigma.fst).Nodup :=
    ((order.perm _).map Sigma.fst).nodup_iff.mpr (table.getD ∅).keys_nodup
  exact keys.sublist (filterMap_keys_sublist (fun _ _ => processInfo_pid) _)

structure DetectableDb.Agrees (db other : DetectableDb) : Prop where
  tables : db.tables = other.tables
  fst : db.fst = other.fst
  exeIndex : ∀ exeName, db.exeIndex.lookup exeName = other.exeIndex.lookup exeName

theorem DetectableDb.Agrees.searchNames {db other : DetectableDb} (agrees : db.Agrees other)
    (apps : AppsTable) (variants : List String) (filename : String) (args names seen : List String) :
    db.searchNames apps variants filename args names seen =
      other.searchNames apps variants filename args names seen := by
  induction names generalizing seen with
  | nil => rfl
  | cons exeName names ih =>
    rw [DetectableDb.searchNames, DetectableDb.searchNames, agrees.fst, agrees.exeIndex, ih]
    simp only [ih]

theorem DetectableDb.Agrees.matchProcess {db other : DetectableDb} (agrees : db.Agrees other)
    (path : String) (args : List String) :
    db.matchProcess path args = other.matchProcess path args := by
  unfold DetectableDb.matchProcess
  simp only [agrees.fst, agrees.tables, agrees.searchNames]

theorem DetectableDb.Agrees.answers {db : DetectableDb} {entries : List DetectableEntry}
    (agrees : db.Agrees (Cache.dbOf entries)) {path : String}
    (filled : ∃ c ∈ path.toList, isSeparator c = false) (args : List String) :
    ∃ found, Answers db entries path args found := by
  obtain ⟨found, answers⟩ := fresh_answers entries filled args
  have same := agrees.matchProcess path args
  exact ⟨found, same.trans answers.answered, answers.exact, answers.listed⟩

def DetectableDb.Splits (db : DetectableDb) : Prop :=
  ∀ exeName ids, db.exeIndex.lookup exeName = some ids → splitLines (joinIds ids) = ids

theorem DetectableDb.Splits.agrees {db : DetectableDb} {entries : List DetectableEntry}
    (splits : db.Splits) (holds : db.Holds entries)
    (plain : ∀ entry ∈ entries, '\n' ∉ entry.id.toList) : db.Agrees (Cache.dbOf entries) := by
  refine ⟨holds.tables, holds.fst, ?_⟩
  intro exeName
  have read : db.exeIndex.lookup exeName =
      ((db.exeIndex.lookup exeName).map joinIds).map splitLines := by
    cases found : db.exeIndex.lookup exeName with
    | none => rfl
    | some ids => rw [Option.map_some, Option.map_some, splits exeName ids found]
  rw [read, holds.exeIndex, ← lookup_mapTable]
  exact lookup_exeIndexOf plain exeName

theorem splits_rebuilt {files : Files} {entries : List DetectableEntry} {disk : Disk}
    {db : DetectableDb} (plain : ∀ entry ∈ entries, '\n' ∉ entry.id.toList)
    (rebuilt : (files.rebuildOrStop entries disk).2 = some db) : db.Splits := by
  unfold Files.rebuildOrStop at rebuilt
  split at rebuilt
  · cases rebuilt
  · obtain ⟨_, rfl⟩ := Files.rebuildWithFst_handle rebuilt
    intro exeName ids found
    exact splitLines_exeToIds plain found

theorem splits_opened {files after : Files} {writes : Bool} {db : DetectableDb}
    (opened : files.openWithFst writes = (after, some db)) : db.Splits := by
  intro exeName ids found
  rw [Files.openWithFst_exeIndex opened] at found
  cases stored : db.tables with
  | none =>
    rw [stored] at found
    cases found
  | some tables =>
    rw [stored] at found
    have row : (tables.exes.lookup exeName).map splitLines = some ids :=
      (lookup_mapTable splitLines tables.exes exeName).symm.trans found
    obtain ⟨line, _, rfl⟩ := Option.map_eq_some_iff.mp row
    rw [joinIds_splitLines]

namespace Cache

variable {server : ListServer} {c after : Cache}

def Serves (c : Cache) (entries : List DetectableEntry) : Prop :=
  ∀ db, c.running = some db → db.Agrees (dbOf entries)

def Indexed (c : Cache) : Prop := ∀ db, c.running = some db → db.Splits

theorem fetched_plain (plain : server.Plain) (current : String) (reachable : Bool) (disk : Disk) :
    ∀ entry ∈ (loadDetectableEntries disk c.etag (c.fetch server current reachable disk)).1,
      '\n' ∉ entry.id.toList := by
  intro entry member
  rcases c.fetch_cases server current reachable disk with failed | ⟨_, same⟩ | ⟨_, given⟩
  · rw [failed] at member
    cases member
  · rw [same] at member
    cases member
  · rw [given] at member
    exact plain current entry member

theorem indexed_start (plain : server.Plain) (current : String) (reachable : Bool) (disk : Disk) :
    (c.start (c.fetch server current reachable disk) disk).1.Indexed := by
  intro db running
  cases usable : c.usable disk with
  | some handle =>
    rw [start_usable usable] at running
    cases running
    obtain ⟨found, _⟩ := Option.filter_eq_some_iff.mp usable
    exact splits_opened (Prod.ext rfl (Files.openOrFail_eq_some.mp found).2)
  | none =>
    rw [start_fetches usable] at running
    exact splits_rebuilt (fetched_plain plain current reachable disk) running

theorem Indexed.refresh {db : DetectableDb} (indexed : c.Indexed) (running : c.running = some db)
    (plain : server.Plain) (current : String) (reachable : Bool) (disk : Disk) :
    (c.refresh db (c.fetch server current reachable disk) disk).1.Indexed := by
  intro next used
  have listed := fetched_plain (c := c) plain current reachable disk
  unfold Cache.refresh at used
  generalize c.fetch server current reachable disk = answer at used listed
  dsimp only at used
  split at used
  · exact indexed next used
  · cases rebuilt : (c.files.rebuildOrStop (loadDetectableEntries disk c.etag answer).1 disk).2 with
    | none =>
      rw [rebuilt, Option.getD_none] at used
      exact indexed next (running.trans used)
    | some fresh =>
      rw [rebuilt, Option.getD_some] at used
      cases used
      exact splits_rebuilt listed rebuilt

theorem Indexed.step {e : CacheEvent} (indexed : c.Indexed) (plain : server.Plain)
    (taken : c.step server e = some after) : after.Indexed := by
  obtain ⟨⟨state, report⟩, performed, rfl⟩ := Option.map_eq_some_iff.mp taken
  cases e with
  | start current reachable disk =>
    have started : c.start (c.fetch server current reachable disk) disk = (state, report) :=
      Option.some.inj performed
    have kept := indexed_start (c := c) plain current reachable disk
    rw [started] at kept
    exact kept
  | refresh current reachable disk =>
    obtain ⟨db, running, refreshed⟩ := Option.map_eq_some_iff.mp performed
    have kept := indexed.refresh running plain current reachable disk
    rw [refreshed] at kept
    exact kept

theorem refresh_running {db : DetectableDb} (running : c.running = some db) (fetched : Fetched)
    (disk : Disk) : ∃ next, (c.refresh db fetched disk).1.running = some next := by
  unfold Cache.refresh
  dsimp only
  split
  · exact ⟨db, running⟩
  · exact ⟨_, rfl⟩

theorem Inv.inUse {db : DetectableDb} (inv : c.Inv server) (running : c.running = some db) :
    ∃ entries, c.InUse server entries := by
  cases inv with
  | blank _ _ holds => exact ⟨[], .inl rfl, db, running, holds db running⟩
  | stored version _ _ _ holds =>
    exact ⟨server.lists version, .inr ⟨version, rfl⟩, db, running, holds db running⟩

theorem InUse.serves {entries : List DetectableEntry} (inUse : c.InUse server entries)
    (indexed : c.Indexed) (plain : server.Plain) : c.Serves entries := by
  intro db running
  obtain ⟨own, same, holds⟩ := inUse.held
  cases running.symm.trans same
  apply (indexed db running).agrees holds
  rcases inUse.given with rfl | ⟨tag, rfl⟩
  · exact nofun
  · exact plain tag

end Cache

namespace ScanTask

/-- What holds between the turns: the cache is in order, and the scanner's own broadcasts rebuild its
    table, whatever was broadcast between them. -/
structure Inv (server : ListServer) (l : ScanTask) : Prop where
  cache : l.cache.Inv server
  indexed : l.cache.Indexed
  reported : ∀ pid : UInt32, replay (fun _ => none)
    ((scannerEvents l.scanner.server.activityTx.log).map pidUpdate) (some pid.toNat) =
      l.scanner.active.lookup pid

variable {server : ListServer} {l after : ScanTask}

theorem inv_initial (server : ListServer) : initial.Inv server := by
  refine ⟨Cache.inv_initial server, ?_, fun _ => rfl⟩
  intro db running
  cases running

theorem tick_cases {tick : Tick} (taken : l.step server (.tick tick) = some after) :
    ∃ cache db scanner, l.refreshed server tick = some cache ∧ cache.running = some db ∧
      scanOnce (tick.scan db) l.scanner = some scanner ∧ after = ⟨cache, scanner⟩ := by
  simp only [step] at taken
  split at taken
  · obtain ⟨cache, refreshed, rest⟩ := Option.bind_eq_some_iff.mp taken
    obtain ⟨db, running, rest⟩ := Option.bind_eq_some_iff.mp rest
    obtain ⟨scanner, scanned, same⟩ := Option.bind_eq_some_iff.mp rest
    exact ⟨cache, db, scanner, refreshed, running, scanned, (Option.some.inj same).symm⟩
  · cases taken

theorem others_cases {event : ActivityEvent} (taken : l.step server (.others event) = some after) :
    event.socketId ≠ 0 ∧ after =
      { l with scanner := { l.scanner with server := l.scanner.server.sendActivity event } } := by
  obtain ⟨other, same⟩ := Option.ite_none_left_eq_some.mp taken
  exact ⟨other, (Option.some.inj same).symm⟩

theorem start_cases {current : String} {reachable : Bool} {disk : Disk}
    (taken : l.step server (.start current reachable disk) = some after) :
    ∃ cache, l.cache.step server (.start current reachable disk) = some cache ∧
      after = ⟨cache, ⟨.new, ∅⟩⟩ := by
  simp only [step, Option.map_eq_some_iff] at taken
  obtain ⟨cache, started, rfl⟩ := taken
  exact ⟨cache, started, rfl⟩

theorem refreshed_running (server : ListServer) (tick : Tick) (running : l.cache.running.isSome) :
    ∃ cache db, l.refreshed server tick = some cache ∧ cache.running = some db := by
  obtain ⟨db, used⟩ := Option.isSome_iff_exists.mp running
  unfold refreshed
  split
  · let answer := l.cache.fetch server tick.current tick.reachable tick.disk
    obtain ⟨next, kept⟩ := Cache.refresh_running used answer tick.disk
    refine ⟨(l.cache.refresh db answer tick.disk).1, next, ?_, kept⟩
    rw [Cache.step, Tick.refresh, Cache.perform, used]
    rfl
  · exact ⟨l.cache, db, rfl, used⟩

theorem tick_taken (server : ListServer) (tick : Tick) (running : l.cache.running.isSome) :
    ∃ after, l.step server (.tick tick) = some after := by
  obtain ⟨cache, db, refreshed, used⟩ := refreshed_running server tick running
  have scanned := scanOnce_eq (tick.scan db) l.scanner
  apply Exists.intro ⟨cache, _⟩
  rw [step, if_pos running, refreshed, Option.bind_eq_bind, Option.bind_some, used]
  change (scanOnce (tick.scan db) l.scanner).bind _ = _
  rw [scanned]
  rfl

theorem refreshed_keeps {tick : Tick} {cache : Cache} (inv : l.cache.Inv server)
    (indexed : l.cache.Indexed) (plain : server.Plain) (sound : l.Sound server (.tick tick))
    (taken : l.refreshed server tick = some cache) : cache.Inv server ∧ cache.Indexed := by
  unfold ScanTask.refreshed at taken
  split at taken
  · rename_i due
    exact ⟨inv.step (sound due) taken, indexed.step plain taken⟩
  · cases taken
    exact ⟨inv, indexed⟩

theorem scannerEvents_scan {scan : Scan} {s : Scanner} (log : List ActivityEvent) :
    scannerEvents (log ++ scan.events s) = scannerEvents log ++ scan.events s := by
  unfold scannerEvents
  rw [List.filter_append]
  congr 1
  apply List.filter_eq_self.mpr
  intro event sent
  simp [(scan_events_pids sent).1]

theorem Inv.step {e : LoopEvent} (inv : l.Inv server) (plain : server.Plain)
    (sound : l.Sound server e) (taken : l.step server e = some after) : after.Inv server := by
  cases e with
  | start current reachable disk =>
    obtain ⟨cache, started, rfl⟩ := start_cases taken
    have owed : l.cache.Sound server (.start current reachable disk) := sound
    exact ⟨inv.cache.step owed started, inv.indexed.step plain started, fun _ => rfl⟩
  | tick tick =>
    obtain ⟨cache, db, scanner, refreshed, _, scanned, rfl⟩ := tick_cases taken
    obtain ⟨kept, indexed⟩ := refreshed_keeps inv.cache inv.indexed plain sound refreshed
    have distinct := getProcessList_pids tick.tableOrder tick.table
    refine ⟨kept, indexed, ?_⟩
    intro pid
    change replay _ ((scannerEvents scanner.server.activityTx.log).map pidUpdate) _ = _
    rw [scanOnce_log distinct scanned, scannerEvents_scan, List.map_append, replay_append]
    exact replay_announced (scan_announces distinct scanned pid) (inv.reported pid)
  | others event =>
    obtain ⟨other, rfl⟩ := others_cases taken
    refine ⟨inv.cache, inv.indexed, ?_⟩
    intro pid
    have quiet : scannerEvents (l.scanner.server.activityTx.log ++ [event]) =
        scannerEvents l.scanner.server.activityTx.log := by
      simp [scannerEvents, other]
    change replay _ ((scannerEvents (l.scanner.server.activityTx.log ++ [event])).map pidUpdate) _ = _
    rw [quiet]
    exact inv.reported pid

theorem inv_of_run {es : List LoopEvent} (plain : server.Plain)
    (sound : Meets (step server) (Sound server) initial es)
    (reached : run (step server) initial es = some l) : l.Inv server :=
  run_invariant_of_meets (fun _ _ _ inv sound taken => inv.step plain sound taken) sound
    (inv_initial server) reached

theorem tracks_of_serves {tick : Tick} {cache : Cache} {db : DetectableDb} {s scanner : Scanner}
    {entries : List DetectableEntry} (serves : cache.Serves entries) (running : cache.running = some db)
    (scanned : scanOnce (tick.scan db) s = some scanner) :
    Tracks scanner.active tick.processes (lastWins entries) := by
  have distinct := getProcessList_pids tick.tableOrder tick.table
  have active := scanOnce_active_iff distinct scanned
  -- pids are distinct, so what is tracked under a pid is its process
  have own : ∀ {proc}, proc ∈ tick.processes → ∀ id, scanner.active.lookup proc.pid = some id ↔
      ∃ name, db.matchProcess proc.path proc.args = some (some (id, name)) := by
    intro proc listed id
    rw [active]
    constructor
    · intro assumed
      obtain ⟨other, member, same, name, hit⟩ := assumed
      obtain rfl := List.inj_on_of_nodup_map distinct member listed same
      exact ⟨name, hit⟩
    · intro assumed
      obtain ⟨name, hit⟩ := assumed
      exact ⟨proc, listed, rfl, name, hit⟩
  have separators : ∀ {proc}, proc ∈ tick.processes →
      (∀ c ∈ proc.path.toList, isSeparator c = true) → scanner.active.lookup proc.pid = none := by
    intro proc listed only
    apply Option.eq_none_iff_forall_not_mem.mpr
    intro id tracked
    obtain ⟨name, hit⟩ := (own listed id).mp tracked
    rw [matchProcess_separators db only] at hit
    cases hit
  refine ⟨?_, fun proc => separators, ?_, ?_⟩
  · intro pid absent
    apply Option.eq_none_iff_forall_not_mem.mpr
    intro id tracked
    obtain ⟨proc, listed, same, _⟩ := (active pid id).mp tracked
    exact absent proc listed same
  · intro proc listed filled
    obtain ⟨found, answers⟩ := (serves db running).answers filled proc.args
    rw [← answers.exact, Option.isSome_iff_exists, Option.isSome_iff_exists]
    constructor
    · intro tracked
      obtain ⟨id, tracked⟩ := tracked
      obtain ⟨name, hit⟩ := (own listed id).mp tracked
      exact ⟨(id, name), Option.some.inj (answers.answered.symm.trans hit)⟩
    · intro hit
      obtain ⟨⟨id, name⟩, rfl⟩ := hit
      exact ⟨id, (own listed id).mpr ⟨name, answers.answered⟩⟩
  · intro proc listed id tracked
    have filled : ∃ c ∈ proc.path.toList, isSeparator c = false := by
      by_contra none
      push Not at none
      rw [separators listed fun c member => by simpa using none c member] at tracked
      cases tracked
    obtain ⟨found, answers⟩ := (serves db running).answers filled proc.args
    obtain ⟨name, hit⟩ := (own listed id).mp tracked
    obtain ⟨entry, kept, same, _, recognised⟩ :=
      answers.listed id name (Option.some.inj (answers.answered.symm.trans hit))
    exact ⟨entry, kept, same, recognised⟩

/-- Every turn of the loop ends, its table then tracks exactly the processes that the list in use
    recognises, and the scanner's broadcasts rebuild the table. -/
theorem ticks_track_list {es : List LoopEvent} {tick : Tick} (plain : server.Plain)
    (sound : Meets (step server) (Sound server) initial (es ++ [.tick tick]))
    (reached : run (step server) initial es = some l) (running : l.cache.running.isSome) :
    ∃ after, l.step server (.tick tick) = some after ∧
      (∃ entries, after.cache.InUse server entries ∧
        Tracks after.scanner.active tick.processes (lastWins entries)) ∧
      ∀ pid : UInt32, replay (fun _ => none)
        ((scannerEvents after.scanner.server.activityTx.log).map pidUpdate) (some pid.toNat) =
          after.scanner.active.lookup pid := by
  obtain ⟨before, last⟩ := meets_append.mp sound
  obtain ⟨after, taken⟩ := tick_taken server tick running
  have inv := inv_of_run plain before reached
  have kept := inv.step plain (last l reached).1 taken
  refine ⟨after, taken, ?_, kept.reported⟩
  obtain ⟨cache, db, scanner, _, used, scanned, rfl⟩ := tick_cases taken
  obtain ⟨entries, inUse⟩ := kept.cache.inUse used
  exact ⟨entries, inUse, tracks_of_serves (inUse.serves kept.indexed plain) used scanned⟩

def tableOrder : IterOrder (Sigma fun _ : UInt32 => SysProcess) := ⟨id, List.Perm.refl⟩

def activeOrder : IterOrder (Sigma fun _ : UInt32 => String) := ⟨id, List.Perm.refl⟩

def turn (elapsed : Nat) (table : ProcessTable) : Tick :=
  ⟨elapsed, "v2", true, .good, some table, tableOrder, activeOrder, fun _ _ => 0⟩

def racing : ProcessTable :=
  (AList.singleton 7 ⟨some "/games/racer.exe", ["racer.exe", "-full"]⟩).insert 8 ⟨none, []⟩

def restarted : List LoopEvent :=
  [.start "v1" true .good, .tick (turn 5 racing), .others ⟨none, none, 3⟩]

theorem growing_plain : Cache.growing.Plain := by
  intro tag entry member
  unfold Cache.growing at member
  dsimp only at member
  split at member
  · simp only [List.mem_cons, List.not_mem_nil, or_false] at member
    rcases member with rfl | rfl
    · decide
    · decide
  · rw [List.mem_singleton.mp member]
    decide

theorem ticks_track_list_refreshed : ∃ l after,
    run (step Cache.growing) initial restarted = some l ∧
      l.step Cache.growing (.tick (turn (weekSecs + 1) racing)) = some after ∧
      ∃ entries, after.cache.InUse Cache.growing entries ∧
        Tracks after.scanner.active (turn (weekSecs + 1) racing).processes (lastWins entries) := by
  have reached : run (step Cache.growing) initial restarted = some _ := rfl
  have sound : Meets (step Cache.growing) (Sound Cache.growing) initial
      (restarted ++ [.tick (turn (weekSecs + 1) racing)]) := by
    refine ⟨Cache.sound_first true (by decide), ?_⟩
    intro _ _
    refine ⟨fun due => absurd due (by decide), ?_⟩
    intro _ _
    refine ⟨trivial, ?_⟩
    intro _ _
    refine ⟨?_, fun _ _ => trivial⟩
    intro _ _
    exact ⟨Cache.good_tags Cache.growing _ "v2", .inr ⟨by decide, rfl, rfl⟩⟩
  obtain ⟨after, taken, tracks, _⟩ := ticks_track_list growing_plain sound reached rfl
  exact ⟨_, after, reached, taken, tracks⟩

end ScanTask

end Dirpc
