import Dirpc.Base.Runs
import Dirpc.Process.Stored

namespace Dirpc

open Base

inductive Fetched where
  | notModified
  | fresh (entries : List DetectableEntry) (etag : Option String)
  | failed

/-- What a write of the tag file leaves there: the tag, what was there before, or the beginning of the
    tag. -/
inductive TagWrite where
  | written
  | refused
  | cut (length : Nat)

/-- How the disk serves a start or a refresh: whether the tag file can be read, a redb file opened, the
    FST written that opening it may ask for; what saving a tag does, whether the old redb can be
    removed, and how far the rebuild gets, where `none` is not even to its first step. -/
structure Disk where
  reads : Bool
  opens : Bool
  writes : Bool
  saves : TagWrite
  removes : Bool
  progress : Option Progress

namespace Disk

def good : Disk := ⟨true, true, true, .written, true, some .finished⟩

def readEtag (disk : Disk) (etag : Option String) : Option String :=
  if disk.reads then etag else none

def saveEtag (disk : Disk) (etag : Option String) (tag : String) : Option String :=
  match disk.saves with
  | .written => some tag
  | .refused => etag
  | .cut length => some (String.ofList (tag.toList.take length))

end Disk

def loadDetectableEntries (disk : Disk) (etag : Option String) :
    Fetched → List DetectableEntry × Option String
  | .notModified => ([], etag)
  | .fresh entries newEtag => (entries, newEtag.elim etag (disk.saveEtag etag))
  | .failed => ([], etag)

namespace Files

def openOrFail (files : Files) (disk : Disk) : Files × Option DetectableDb :=
  if disk.opens then files.openWithFst disk.writes else (files, none)

def rebuildOrStop (files : Files) (entries : List DetectableEntry) (disk : Disk) :
    Files × Option DetectableDb :=
  match disk.progress with
  | none => (files, none)
  | some progress => files.rebuildWithFst disk.removes entries progress

end Files

structure Cache where
  etag : Option String
  files : Files
  running : Option DetectableDb

/-- What a start or a refresh has logged: the answer to its fetch and whether its rebuild
    succeeded, where it made one. -/
structure Report where
  fetched : Option Fetched
  rebuilt : Option Bool

def Report.Settled (report : Report) : Prop :=
  (∃ answer, report.fetched = some answer ∧ answer ≠ .failed) ∧ report.rebuilt ≠ some false

namespace Cache

def initial : Cache := ⟨none, noFiles, none⟩

def usable (c : Cache) (disk : Disk) : Option DetectableDb :=
  (c.files.openOrFail disk).2.filter fun db => !db.isEmpty

def start (c : Cache) (fetched : Fetched) (disk : Disk) : Cache × Report :=
  let opened := (c.files.openOrFail disk).1
  match c.usable disk with
  | some db => ({ c with files := opened, running := some db }, ⟨none, none⟩)
  | none =>
    let (entries, etag) := loadDetectableEntries disk c.etag fetched
    let (files, rebuilt) := opened.rebuildOrStop entries disk
    (⟨etag, files, rebuilt⟩, ⟨some fetched, some rebuilt.isSome⟩)

def refresh (c : Cache) (db : DetectableDb) (fetched : Fetched) (disk : Disk) : Cache × Report :=
  let (entries, etag) := loadDetectableEntries disk c.etag fetched
  if entries.isEmpty then ({ c with etag }, ⟨some fetched, none⟩)
  else
    let (files, rebuilt) := c.files.rebuildOrStop entries disk
    (⟨etag, files, some (rebuilt.getD db)⟩, ⟨some fetched, some rebuilt.isSome⟩)

end Cache

structure ListServer where
  lists : String → List DetectableEntry

def ListServer.answer (server : ListServer) (current : String) (reachable : Bool)
    (sent : Option String) : Fetched :=
  if reachable then
    if sent = some current then .notModified else .fresh (server.lists current) (some current)
  else .failed

inductive CacheEvent where
  | start (current : String) (reachable : Bool) (disk : Disk)
  | refresh (current : String) (reachable : Bool) (disk : Disk)

def CacheEvent.current : CacheEvent → String
  | .start current .. | .refresh current .. => current

namespace Cache

def fetch (server : ListServer) (c : Cache) (current : String) (reachable : Bool) (disk : Disk) :
    Fetched := server.answer current reachable (disk.readEtag c.etag)

def perform (server : ListServer) (c : Cache) : CacheEvent → Option (Cache × Report)
  | .start current reachable disk => some (c.start (c.fetch server current reachable disk) disk)
  | .refresh current reachable disk =>
    c.running.map fun db => c.refresh db (c.fetch server current reachable disk) disk

def step (server : ListServer) (c : Cache) (e : CacheEvent) : Option Cache :=
  (c.perform server e).map Prod.fst

def Fresh (c : Cache) (current : String) (reachable : Bool) (disk : Disk) : Prop :=
  reachable = true ∧ disk.readEtag c.etag ≠ some current

def Filled (c : Cache) : Prop := ∃ disk, c.usable disk ≠ none

end Cache

/-- Nothing of the old database is left, and the new one is complete. -/
structure Disk.Replaces (disk : Disk) : Prop where
  removes : disk.removes = true
  finishes : disk.progress = some .finished

/-- After the tag has been saved, well or badly, no tag of another list is on the disk. -/
def Disk.Tags (server : ListServer) (disk : Disk) (etag : Option String) (current : String) : Prop :=
  ∀ tag, disk.saveEtag etag current = some tag → server.lists tag = server.lists current

/-- The steps after which tag and database still agree: a database on the disk is opened or replaced,
    and a new list declares an executable and its rebuild gets far enough, or it is empty and so is
    what it replaces. -/
def Cache.Sound (server : ListServer) (c : Cache) : CacheEvent → Prop
  | .start current reachable disk => c.usable disk = none →
    (c.Filled → c.Fresh current reachable disk ∧ exeNames (server.lists current) ≠ [] ∧
      disk.Replaces) ∧
    (c.Fresh current reachable disk → disk.Tags server c.etag current ∧
      (server.lists current = [] ∨ exeNames (server.lists current) ≠ [] ∧
        ∃ p, disk.progress = some p ∧ p.commits = true))
  | .refresh current reachable disk => c.Fresh current reachable disk →
    disk.Tags server c.etag current ∧
      (server.lists current = [] ∧ (∀ db, c.running = some db → db.Holds []) ∨
        exeNames (server.lists current) ≠ [] ∧ disk.Replaces)

theorem ListServer.answer_cases (server : ListServer) (current : String) (reachable : Bool)
    (sent : Option String) :
    server.answer current reachable sent = .failed ∨
      (sent = some current ∧ server.answer current reachable sent = .notModified) ∨
      (reachable = true ∧ sent ≠ some current ∧
        server.answer current reachable sent = .fresh (server.lists current) (some current)) := by
  cases reachable with
  | false => exact .inl rfl
  | true =>
    by_cases known : sent = some current
    · exact .inr (.inl ⟨known, by simp [answer, known]⟩)
    · exact .inr (.inr ⟨rfl, known, by simp [answer, known]⟩)

theorem Files.Blank.openOrFail {files : Files} (blank : files.Blank) (disk : Disk) :
    (files.openOrFail disk).1.Blank ∧
      ∀ db, (files.openOrFail disk).2 = some db → db.fst = fstOf [] := by
  unfold Files.openOrFail
  split
  · exact blank.open disk.writes
  · exact ⟨blank, nofun⟩

theorem Files.Store.openOrFail {files : Files} {entries : List DetectableEntry}
    (store : files.Store entries) (named : exeNames entries ≠ []) (disk : Disk) :
    (files.openOrFail disk).1.Store entries ∧
      ∀ db, (files.openOrFail disk).2 = some db → db.Holds entries := by
  unfold Files.openOrFail
  split
  · obtain ⟨opened, holds, _⟩ := store.open named disk.writes
    exact ⟨opened, holds⟩
  · exact ⟨store, nofun⟩

theorem Files.Blank.rebuildOrStop {files : Files} (blank : files.Blank) (disk : Disk) :
    (files.rebuildOrStop [] disk).1.Blank := by
  unfold Files.rebuildOrStop
  split
  · exact blank
  · exact blank.rebuild disk.removes _

theorem Files.Blank.rebuildOrStop_holds {files : Files} (blank : files.Blank)
    {entries : List DetectableEntry} {disk : Disk} {db : DetectableDb}
    (rebuilt : (files.rebuildOrStop entries disk).2 = some db) : db.Holds entries := by
  unfold Files.rebuildOrStop at rebuilt
  split at rebuilt
  · cases rebuilt
  · exact rebuildWithFst_holds (blank.kept disk.removes) rebuilt

theorem Files.rebuildOrStop_replaces (files : Files) (entries : List DetectableEntry) {disk : Disk}
    (replaces : disk.Replaces) :
    files.rebuildOrStop entries disk = files.rebuildWithFst true entries .finished := by
  rw [Files.rebuildOrStop, replaces.finishes, replaces.removes]

theorem Report.Settled.rebuilt {answer : Fetched} {handle : Option DetectableDb}
    (settled : (⟨some answer, some handle.isSome⟩ : Report).Settled) : ∃ db, handle = some db := by
  cases handle with
  | none => exact absurd rfl settled.2
  | some db => exact ⟨db, rfl⟩

namespace Cache

/-- Tag and database agree: without a list that declares a name the disk is blank, else it stores a list
    of the server. A tag on the disk stands for the list, and a running scanner uses it. -/
inductive Inv (server : ListServer) (c : Cache) : Prop where
  | blank (files : c.files.Blank) (etag : ∀ tag, c.etag = some tag → server.lists tag = [])
      (running : ∀ db, c.running = some db → db.Holds [])
  | stored (version : String) (named : exeNames (server.lists version) ≠ [])
      (files : c.files.Store (server.lists version))
      (etag : ∀ tag, c.etag = some tag → server.lists tag = server.lists version)
      (running : ∀ db, c.running = some db → db.Holds (server.lists version))

def Current (server : ListServer) (c : Cache) (tag : String) : Prop :=
  ∃ db, c.running = some db ∧ db.Holds (server.lists tag)

theorem inv_initial (server : ListServer) : initial.Inv server :=
  .blank ⟨nofun, .inl rfl⟩ nofun nofun

theorem usable_blank {c : Cache} (blank : c.files.Blank) (disk : Disk) : c.usable disk = none := by
  apply Option.filter_eq_none_iff.mpr
  intro db opened
  have empty := (blank.openOrFail disk).2 db opened
  rw [DetectableDb.isEmpty, empty]
  decide

theorem not_filled_of_blank {c : Cache} (blank : c.files.Blank) : ¬c.Filled := by
  intro filled
  obtain ⟨disk, usable⟩ := filled
  exact usable (usable_blank blank disk)

theorem filled_of_store {c : Cache} {entries : List DetectableEntry}
    (store : c.files.Store entries) (named : exeNames entries ≠ []) : c.Filled := by
  obtain ⟨_, holds, opened⟩ := store.open named true
  obtain ⟨db, found⟩ := Option.isSome_iff_exists.mp (opened rfl)
  have usable : c.usable Disk.good = some db := by
    refine Option.filter_eq_some_iff.mpr ⟨found, ?_⟩
    rw [(holds db found).not_isEmpty named]
    rfl
  exact ⟨Disk.good, by rw [usable]; exact Option.some_ne_none db⟩

theorem start_usable {c : Cache} {disk : Disk} {db : DetectableDb}
    (usable : c.usable disk = some db) (fetched : Fetched) :
    c.start fetched disk = (⟨c.etag, (c.files.openOrFail disk).1, some db⟩, ⟨none, none⟩) := by
  rw [start, usable]

theorem start_fetches {c : Cache} {disk : Disk} (usable : c.usable disk = none)
    (fetched : Fetched) :
    c.start fetched disk =
      let (entries, etag) := loadDetectableEntries disk c.etag fetched
      let (files, rebuilt) := (c.files.openOrFail disk).1.rebuildOrStop entries disk
      (⟨etag, files, rebuilt⟩, ⟨some fetched, some rebuilt.isSome⟩) := by
  rw [start, usable]

theorem not_settled_failed {rebuilt : Option Bool} : ¬(⟨some .failed, rebuilt⟩ : Report).Settled := by
  intro assumed
  rcases assumed with ⟨⟨answer, fetched, ok⟩, _⟩
  cases fetched
  exact absurd rfl ok

theorem fetch_cases (server : ListServer) (c : Cache) (current : String) (reachable : Bool)
    (disk : Disk) :
    c.fetch server current reachable disk = .failed ∨
      (c.etag = some current ∧ c.fetch server current reachable disk = .notModified) ∨
      (c.Fresh current reachable disk ∧
        c.fetch server current reachable disk = .fresh (server.lists current) (some current)) := by
  rcases server.answer_cases current reachable (disk.readEtag c.etag) with
    failed | ⟨known, same⟩ | ⟨up, new, given⟩
  · exact .inl failed
  · obtain ⟨_, tag⟩ := Option.ite_none_right_eq_some.mp known
    exact .inr (.inl ⟨tag, same⟩)
  · exact .inr (.inr ⟨⟨up, new⟩, given⟩)

theorem start_blank {server : ListServer} {c : Cache} {current : String} {reachable : Bool}
    {disk : Disk} (files : c.files.Blank) (etag : ∀ tag, c.etag = some tag → server.lists tag = [])
    (fresh : c.Fresh current reachable disk → disk.Tags server c.etag current ∧
      (server.lists current = [] ∨ exeNames (server.lists current) ≠ [] ∧
        ∃ p, disk.progress = some p ∧ p.commits = true)) :
    let after := c.start (c.fetch server current reachable disk) disk
    after.1.Inv server ∧ (after.2.Settled → after.1.Current server current) := by
  have opened := (files.openOrFail disk).1
  rw [start_fetches (usable_blank files disk)]
  have unlisted : (⟨c.etag, ((c.files.openOrFail disk).1.rebuildOrStop [] disk).1,
      ((c.files.openOrFail disk).1.rebuildOrStop [] disk).2⟩ : Cache).Inv server :=
    .blank (opened.rebuildOrStop disk) etag fun _ => opened.rebuildOrStop_holds
  rcases c.fetch_cases server current reachable disk with failed | ⟨known, same⟩ | ⟨new, given⟩
  · rw [failed]
    exact ⟨unlisted, fun settled => absurd settled not_settled_failed⟩
  · rw [same]
    constructor
    · exact unlisted
    · intro settled
      obtain ⟨db, rebuilt⟩ := settled.rebuilt
      refine ⟨db, rebuilt, ?_⟩
      rw [etag current known]
      exact opened.rebuildOrStop_holds rebuilt
  · rw [given]
    obtain ⟨tags, list⟩ := fresh new
    constructor
    · rcases list with empty | ⟨named, p, progress, committed⟩
      · refine .blank ?_ ?_ ?_
        · change (((c.files.openOrFail disk).1.rebuildOrStop (server.lists current) disk).1).Blank
          rw [empty]
          exact opened.rebuildOrStop disk
        · intro tag same
          exact (tags tag same).trans empty
        · intro db rebuilt
          exact empty ▸ opened.rebuildOrStop_holds rebuilt
      · refine .stored current named ?_ tags fun db => opened.rebuildOrStop_holds
        change (((c.files.openOrFail disk).1.rebuildOrStop (server.lists current) disk).1).Store _
        rw [Files.rebuildOrStop, progress]
        exact opened.store disk.removes _ committed
    · intro settled
      obtain ⟨db, rebuilt⟩ := settled.rebuilt
      exact ⟨db, rebuilt, opened.rebuildOrStop_holds rebuilt⟩

theorem start_replaced {server : ListServer} {c : Cache} {current : String} {disk : Disk}
    (unusable : c.usable disk = none) (named : exeNames (server.lists current) ≠ [])
    (replaces : disk.Replaces) (tags : disk.Tags server c.etag current) :
    let after := c.start (.fresh (server.lists current) (some current)) disk
    after.1.Inv server ∧ after.1.Current server current := by
  rw [start_fetches unusable]
  dsimp only [loadDetectableEntries]
  rw [Files.rebuildOrStop_replaces _ _ replaces, Files.rebuildWithFst_finished]
  have holds := holds_rebuilt (server.lists current)
  constructor
  · refine .stored current named (Files.store_finished _ _) tags ?_
    intro db same
    cases same
    exact holds
  · exact ⟨_, rfl, holds⟩

theorem Inv.start {server : ListServer} {c : Cache} {current : String} {reachable : Bool}
    {disk : Disk} (inv : c.Inv server) (sound : c.Sound server (.start current reachable disk)) :
    let after := c.start (c.fetch server current reachable disk) disk
    after.1.Inv server ∧ (after.2.Settled → after.1.Current server current) := by
  cases inv with
  | blank files etag _ => exact start_blank files etag (sound (usable_blank files disk)).2
  | stored version named files etag running =>
    cases usable : c.usable disk with
    | none =>
      obtain ⟨filled, fresh⟩ := sound usable
      obtain ⟨new, declared, replaces⟩ := filled (filled_of_store files named)
      have given : c.fetch server current reachable disk =
          .fresh (server.lists current) (some current) := by
        obtain ⟨up, different⟩ := new
        rw [fetch, ListServer.answer, if_pos up, if_neg different]
      rw [given]
      obtain ⟨kept, held⟩ := start_replaced usable declared replaces (fresh new).1
      exact ⟨kept, fun _ => held⟩
    | some db =>
      obtain ⟨opened, holds⟩ := files.openOrFail named disk
      rw [start_usable usable]
      constructor
      · refine .stored version named opened etag ?_
        intro db' same
        cases same
        exact holds db (Option.filter_eq_some_iff.mp usable).1
      · intro assumed
        rcases assumed with ⟨⟨answer, fetched, _⟩, _⟩
        cases fetched

theorem refresh_idle {c : Cache} {fetched : Fetched} {disk : Disk} {etag : Option String}
    (loaded : loadDetectableEntries disk c.etag fetched = ([], etag)) (db : DetectableDb) :
    c.refresh db fetched disk = ({ c with etag }, ⟨some fetched, none⟩) := by
  rw [refresh, loaded]
  rfl

theorem refresh_filled {c : Cache} {db : DetectableDb} {entries : List DetectableEntry}
    {tag : String} {disk : Disk} (named : exeNames entries ≠ []) (replaces : disk.Replaces) :
    c.refresh db (.fresh entries (some tag)) disk =
      (⟨disk.saveEtag c.etag tag, (c.files.rebuildWithFst true entries .finished).1,
        some ⟨some (tablesOf entries), fstOf entries, exeToIds entries⟩⟩,
        ⟨some (.fresh entries (some tag)), some true⟩) := by
  have filled : entries.isEmpty = false := by
    cases entries with
    | nil => exact absurd rfl named
    | cons => rfl
  simp [Cache.refresh, loadDetectableEntries, filled, Files.rebuildOrStop_replaces _ _ replaces,
    Files.rebuildWithFst_finished, Files.kept]

theorem Inv.refresh {server : ListServer} {c : Cache} {db : DetectableDb} {current : String}
    {reachable : Bool} {disk : Disk} (inv : c.Inv server)
    (sound : c.Sound server (.refresh current reachable disk)) (running : c.running = some db) :
    let after := c.refresh db (c.fetch server current reachable disk) disk
    after.1.Inv server ∧ (after.2.Settled → after.1.Current server current) := by
  rcases c.fetch_cases server current reachable disk with failed | ⟨known, same⟩ | ⟨new, given⟩
  · have loaded : loadDetectableEntries disk c.etag .failed = ([], c.etag) := rfl
    rw [failed, refresh_idle loaded]
    exact ⟨inv, fun settled => absurd settled not_settled_failed⟩
  · have loaded : loadDetectableEntries disk c.etag .notModified = ([], c.etag) := rfl
    rw [same, refresh_idle loaded]
    refine ⟨inv, ?_⟩
    intro _
    apply Exists.intro db
    cases inv with
    | blank files etag holds =>
      rw [etag current known]
      exact ⟨running, holds db running⟩
    | stored version named files etag holds =>
      rw [etag current known]
      exact ⟨running, holds db running⟩
  · rw [given]
    obtain ⟨tags, ⟨empty, unlisted⟩ | ⟨named, replaces⟩⟩ := sound new
    · have loaded : loadDetectableEntries disk c.etag (.fresh (server.lists current) (some current)) =
          ([], disk.saveEtag c.etag current) := by rw [empty]; rfl
      have blank : c.files.Blank := by
        cases inv with
        | blank files => exact files
        | stored version named files etag holds =>
          have listed := (holds db running).not_isEmpty named
          rw [DetectableDb.isEmpty, (unlisted db running).fst] at listed
          cases listed
      rw [refresh_idle loaded]
      constructor
      · refine .blank blank ?_ unlisted
        intro tag same
        exact (tags tag same).trans empty
      · intro _
        apply Exists.intro db
        rw [empty]
        exact ⟨running, unlisted db running⟩
    · rw [refresh_filled named replaces]
      have holds := holds_rebuilt (server.lists current)
      constructor
      · refine .stored current named (Files.store_finished _ _) tags ?_
        intro db' same
        cases same
        exact holds
      · intro _
        exact ⟨_, rfl, holds⟩

theorem Inv.perform {server : ListServer} {c after : Cache} {e : CacheEvent} {report : Report}
    (inv : c.Inv server) (sound : c.Sound server e)
    (taken : c.perform server e = some (after, report)) :
    after.Inv server ∧ (report.Settled → after.Current server e.current) := by
  cases e with
  | start current reachable disk =>
    have kept := inv.start sound
    rw [Option.some.inj taken] at kept
    exact kept
  | refresh current reachable disk =>
    obtain ⟨db, running, refreshed⟩ := Option.map_eq_some_iff.mp taken
    have kept := inv.refresh sound running
    rw [refreshed] at kept
    exact kept

theorem Inv.step {server : ListServer} {c after : Cache} {e : CacheEvent} (inv : c.Inv server)
    (sound : c.Sound server e) (taken : c.step server e = some after) : after.Inv server := by
  obtain ⟨⟨state, report⟩, performed, rfl⟩ := Option.map_eq_some_iff.mp taken
  exact (inv.perform sound performed).1

theorem inv_of_run {server : ListServer} {events : List CacheEvent} {c : Cache}
    (meets : Meets (step server) (Sound server) initial events)
    (reached : run (step server) initial events = some c) : c.Inv server :=
  run_invariant_of_meets (fun _ _ _ inv sound taken => inv.step sound taken) meets
    (inv_initial server) reached

end Cache

namespace Cache

def growing : ListServer where
  lists tag :=
    if tag = "v2" then
      [⟨"1", "Shooter", [⟨"shooter.exe", none⟩]⟩, ⟨"2", "Racer", [⟨"racer.exe", none⟩]⟩]
    else [⟨"1", "Shooter", [⟨"shooter.exe", none⟩]⟩]

def dbOf (entries : List DetectableEntry) : DetectableDb :=
  ⟨some (tablesOf entries), fstOf entries, exeToIds entries⟩

def cached (tag : String) : Cache :=
  ⟨some tag, ⟨some (some (tablesOf (growing.lists tag))), none, .valid (fstOf (growing.lists tag))⟩,
    some (dbOf (growing.lists tag))⟩

theorem good_tags (server : ListServer) (etag : Option String) (current : String) :
    Disk.good.Tags server etag current := by
  intro tag saved
  cases saved
  rfl

theorem sound_first {server : ListServer} {current : String} (reachable : Bool)
    (named : exeNames (server.lists current) ≠ []) :
    initial.Sound server (.start current reachable .good) := by
  intro _
  have blank : initial.files.Blank := ⟨nofun, .inl rfl⟩
  exact ⟨fun filled => absurd filled (not_filled_of_blank blank),
    fun _ => ⟨good_tags server none current, .inr ⟨named, .finished, rfl, rfl⟩⟩⟩

end Cache

end Dirpc
