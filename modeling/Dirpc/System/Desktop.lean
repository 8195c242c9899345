import Dirpc.Process.Loop
import Dirpc.System.Leaks
import Dirpc.System.Pipeline

namespace Dirpc

open Base Base.Json Bridge

structure ScannerCall where
  clientId : String
  now : Nat → Int
  msg : RpcMessage

def ScannerCall.event (call : ScannerCall) : WorldEvent := .scan call.clientId call.now call.msg

def ScannerCall.sent (call : ScannerCall) : ActivityEvent :=
  (setActivity call.now 0 call.clientId call.msg).1

def ScannerCall.handle (server : ServerState) (call : ScannerCall) : ServerState :=
  (server.handleMessage call.now 0 call.clientId call.msg).1

def Scan.detectedCall (scan : Scan) (d : Detection) : ScannerCall :=
  ⟨d.id, fun i => scan.clock d.pid (i + 1), detectedMsg d.pid d.id d.name (scan.clock d.pid 0)⟩

def Scan.lostCall (scan : Scan) (row : Sigma fun _ : UInt32 => String) : ScannerCall :=
  ⟨row.2, scan.clock row.1, lostMsg row.1⟩

def Scan.calls (scan : Scan) (s : Scanner) : List ScannerCall :=
  (scan.detected.filter fun d => s.active.lookup d.pid ≠ some d.id).map scan.detectedCall ++
    (scan.lost s).map scan.lostCall

/-- The program: `pending` holds the messages of the scanner's turn that are still to be handled, and
    `loaded` tells that its database has been opened or built. -/
structure Desktop where
  pipeline : Pipeline
  cache : Cache
  active : Active
  pending : List ScannerCall
  loaded : Bool

/-- The program is started again, the scanner loads its database, takes a turn or has a message
    handled, or another task takes a step. -/
inductive DesktopEvent where
  | boot
  | load (current : String) (reachable : Bool) (disk : Disk)
  | tick (tick : Tick)
  | handle
  | other (e : PipelineEvent)

def DesktopEvent.between : DesktopEvent → Bool
  | .handle | .other _ => true
  | _ => false

namespace Desktop

def new : Desktop := ⟨.new, .initial, ∅, [], false⟩

def task (d : Desktop) : ScanTask := ⟨d.cache, ⟨d.pipeline.world.server, d.active⟩⟩

def step (target : Target) (serde : Serde) (server : ListServer) (d : Desktop) :
    DesktopEvent → Option Desktop
  | .boot => some { d with pipeline := .new, active := ∅, pending := [], loaded := false }
  | .load current reachable disk =>
    if d.loaded then none
    else (d.cache.step server (.start current reachable disk)).map fun cache =>
      { d with cache, loaded := true }
  | .tick tick =>
    -- The scanner sleeps until its last turn is over; other tasks run between its messages.
    if d.loaded && d.pending.isEmpty then do
      let cache ← d.task.refreshed server tick
      let db ← cache.running
      let scanner ← scanOnce (tick.scan db) d.task.scanner
      pure { d with
        cache, active := scanner.active, pending := (tick.scan db).calls d.task.scanner }
    else none
  | .handle => match d.pending with
    | [] => none
    | call :: rest => (d.pipeline.step target serde (.world call.event)).map fun pipeline =>
      { d with pipeline, pending := rest }
  | .other e => match e with
    | .world (.scan _ _ _) => none
    | e => (d.pipeline.step target serde e).map fun pipeline => { d with pipeline }

def told (d : Desktop) : List ActivityEvent :=
  scannerEvents d.pipeline.log ++ d.pending.map ScannerCall.sent

/-- What the step broadcasts costs neither the feed nor client `c` anything. -/
def NoLoss (c : Nat) (d : Desktop) : DesktopEvent → Prop
  | .handle => ∀ call ∈ d.pending.head?, d.pipeline.NoLoss c (.world call.event)
  | .other e => d.pipeline.NoLoss c e
  | _ => True

def Sound (server : ListServer) (d : Desktop) : DesktopEvent → Prop
  | .load current reachable disk => d.cache.Sound server (.start current reachable disk)
  | .tick tick => weekSecs < tick.elapsed → d.cache.Sound server tick.refresh
  | _ => True

end Desktop

theorem lostCall_sent (scan : Scan) (row : Sigma fun _ : UInt32 => String) :
    (scan.lostCall row).sent = lostEvent row := lostEvent_eq ..

theorem calls_sent (scan : Scan) (s : Scanner) :
    (scan.calls s).map ScannerCall.sent = scan.events s := by
  have lost : (scan.lost s).map (ScannerCall.sent ∘ scan.lostCall) = (scan.lost s).map lostEvent :=
    List.map_congr_left fun row _ => lostCall_sent scan row
  rw [Scan.calls, List.map_append, List.map_map, List.map_map, lost]
  rfl

theorem calls_cmd {scan : Scan} {s : Scanner} {call : ScannerCall} (member : call ∈ scan.calls s) :
    call.msg.cmd = "SET_ACTIVITY" := by
  rcases List.mem_append.mp member with detected | lost
  · obtain ⟨d, _, rfl⟩ := List.mem_map.mp detected
    rfl
  · obtain ⟨row, _, rfl⟩ := List.mem_map.mp lost
    rfl

theorem scan_events_shows {scan : Scan} {s : Scanner} {event : ActivityEvent}
    (sent : event ∈ scan.events s) : ∃ (pid : UInt32) (id : Option String),
      event.pid = some pid.toNat ∧ event.Shows id := by
  rcases List.mem_append.mp sent with detected | lost
  · obtain ⟨d, _, rfl⟩ := List.mem_map.mp detected
    obtain ⟨pid, _, shown⟩ := detectedEvent_spec scan.clock d
    exact ⟨d.pid, some d.id, pid, shown⟩
  · obtain ⟨row, _, rfl⟩ := List.mem_map.mp lost
    exact ⟨row.1, none, rfl, rfl⟩

theorem detectAll_server {scan : Scan} {s : Scanner} {ds : List Detection}
    (distinct : (ds.map (·.pid)).Nodup) : (s.detectAll scan.clock ds).server =
      ((ds.filter fun d => s.active.lookup d.pid ≠ some d.id).map scan.detectedCall).foldl
        ScannerCall.handle s.server := by
  induction ds generalizing s with
  | nil => rfl
  | cons d ds ih =>
    obtain ⟨fresh, later⟩ := List.nodup_cons.mp distinct
    have untouched : (ds.filter fun e => (s.detect (scan.clock d.pid) d.pid d.id d.name).active.lookup
        e.pid ≠ some e.id) = ds.filter fun e => s.active.lookup e.pid ≠ some e.id := by
      apply List.filter_congr
      intro e member
      have different : e.pid ≠ d.pid := by
        intro same
        exact fresh (List.mem_map.mpr ⟨e, member, same⟩)
      have kept : (s.detect (scan.clock d.pid) d.pid d.id d.name).active.lookup e.pid =
          s.active.lookup e.pid := AList.lookup_insert_ne different
      rw [kept]
    have tail := ih (s := s.detect (scan.clock d.pid) d.pid d.id d.name) later
    rw [untouched] at tail
    apply tail.trans
    by_cases tracked : s.active.lookup d.pid = some d.id
    · simp [tracked, Scanner.detect]
    · simp [tracked, Scanner.detect, ScannerCall.handle, Scan.detectedCall]

theorem scanOnce_server {scan : Scan} (distinct : (scan.processes.map (·.pid)).Nodup)
    {s after : Scanner} (scanned : scanOnce scan s = some after) :
    after.server = (scan.calls s).foldl ScannerCall.handle s.server := by
  rw [scanOnce_eq] at scanned
  cases scanned
  unfold Scan.calls
  rw [List.foldl_append, ← detectAll_server (present_nodup distinct), List.foldl_map]
  rfl

namespace World

variable {target : Target} {serde : Serde} {w : World}

theorem emitted_conn {c : Nat} {act : Act} {event : ActivityEvent}
    (sent : w.emitted (.conn c act) = some event) :
    ∃ k, w.conns c = some k ∧ k.socketId = some event.socketId := by
  cases act with
  | handleMessage now =>
    obtain ⟨k, found, rest⟩ := Option.bind_eq_some_iff.mp sent
    split at rest
    · rename_i msg id _ allocated
      have own := messageEffect_socketId rest
      exact ⟨k, found, own ▸ allocated⟩
    · cases rest
  | unregisterSocket =>
    obtain ⟨k, found, rest⟩ := Option.bind_eq_some_iff.mp sent
    obtain ⟨id, allocated, rfl⟩ := Option.map_eq_some_iff.mp rest
    exact ⟨k, found, allocated⟩
  | _ => cases sent

theorem Identities.named (ids : Identities target w) {e : WorldEvent} {event : ActivityEvent}
    (sent : w.emitted e = some event) (other : ∀ clientId now msg, e ≠ .scan clientId now msg) :
    event.socketId ≠ 0 := by
  cases e with
  | scan clientId now msg => exact absurd rfl (other clientId now msg)
  | conn c act =>
    obtain ⟨k, found, allocated⟩ := emitted_conn sent
    have range := ids.range c k event.socketId found allocated
    omega
  | _ => cases sent

end World

namespace Desktop

variable {target : Target} {serde : Serde} {server : ListServer} {d t : Desktop}

theorem load_cases {current : String} {reachable : Bool} {disk : Disk}
    (taken : d.step target serde server (.load current reachable disk) = some t) :
    ∃ cache, d.cache.step server (.start current reachable disk) = some cache ∧
      t = { d with cache, loaded := true } := by
  obtain ⟨_, rest⟩ := Option.ite_none_left_eq_some.mp taken
  obtain ⟨cache, started, rfl⟩ := Option.map_eq_some_iff.mp rest
  exact ⟨cache, started, rfl⟩

theorem tick_cases {tick : Tick} (taken : d.step target serde server (.tick tick) = some t) :
    ∃ cache db scanner, d.pending = [] ∧ d.task.refreshed server tick = some cache ∧
      cache.running = some db ∧ scanOnce (tick.scan db) d.task.scanner = some scanner ∧
      t = { d with
        cache, active := scanner.active, pending := (tick.scan db).calls d.task.scanner } := by
  obtain ⟨ready, rest⟩ := Option.ite_none_right_eq_some.mp taken
  obtain ⟨cache, refreshed, rest⟩ := Option.bind_eq_some_iff.mp rest
  obtain ⟨db, running, rest⟩ := Option.bind_eq_some_iff.mp rest
  obtain ⟨scanner, scanned, same⟩ := Option.bind_eq_some_iff.mp rest
  have idle : d.pending = [] := by simpa using (Bool.and_eq_true_iff.mp ready).2
  exact ⟨cache, db, scanner, idle, refreshed, running, scanned, (Option.some.inj same).symm⟩

theorem handle_cases (taken : d.step target serde server .handle = some t) :
    ∃ call rest pipeline, d.pending = call :: rest ∧
      d.pipeline.step target serde (.world call.event) = some pipeline ∧
      t = { d with pipeline, pending := rest } := by
  simp only [step] at taken
  split at taken
  · cases taken
  · rename_i call rest queued
    obtain ⟨pipeline, stepped, rfl⟩ := Option.map_eq_some_iff.mp taken
    exact ⟨call, rest, pipeline, queued, stepped, rfl⟩

theorem other_cases {e : PipelineEvent} (taken : d.step target serde server (.other e) = some t) :
    (∀ clientId now msg, e ≠ .world (.scan clientId now msg)) ∧
      ∃ pipeline, d.pipeline.step target serde e = some pipeline ∧ t = { d with pipeline } := by
  simp only [step] at taken
  split at taken
  · cases taken
  · rename_i different
    obtain ⟨pipeline, stepped, rfl⟩ := Option.map_eq_some_iff.mp taken
    exact ⟨different, pipeline, stepped, rfl⟩

def Lives (target : Target) (serde : Serde) (c : Nat) (d : Desktop) : Prop :=
  ∃ es, run (Pipeline.step target serde) .new es = some d.pipeline ∧
    Meets (Pipeline.step target serde) (Pipeline.NoLoss c) .new es

theorem Lives.extend {c : Nat} {e : PipelineEvent} {p : Pipeline} (lives : Lives target serde c d)
    (noLoss : d.pipeline.NoLoss c e) (taken : d.pipeline.step target serde e = some p) :
    ∃ es, run (Pipeline.step target serde) .new es = some p ∧
      Meets (Pipeline.step target serde) (Pipeline.NoLoss c) .new es := by
  obtain ⟨es, reached, meets⟩ := lives
  refine ⟨es ++ [e], ?_, ?_⟩
  · exact run_append_eq_some.mpr ⟨d.pipeline, reached, run_cons_eq_some.mpr ⟨p, taken, rfl⟩⟩
  · refine meets_append.mpr ⟨meets, ?_⟩
    intro q reached'
    rw [reached] at reached'
    cases reached'
    exact ⟨noLoss, fun _ _ => trivial⟩

theorem Lives.step {c : Nat} {e : DesktopEvent} (lives : Lives target serde c d)
    (noLoss : d.NoLoss c e) (taken : d.step target serde server e = some t) :
    Lives target serde c t := by
  cases e with
  | boot =>
    cases taken
    exact ⟨[], rfl, trivial⟩
  | load =>
    obtain ⟨_, _, rfl⟩ := load_cases taken
    exact lives
  | tick =>
    obtain ⟨_, _, _, _, _, _, _, rfl⟩ := tick_cases taken
    exact lives
  | handle =>
    obtain ⟨call, rest, p, queued, stepped, rfl⟩ := handle_cases taken
    exact lives.extend (noLoss call (by rw [queued]; rfl)) stepped
  | other e =>
    obtain ⟨_, p, stepped, rfl⟩ := other_cases taken
    exact lives.extend noLoss stepped

/-- What the scanner tells rebuilds its table, and every message of it names a process. -/
structure Inv (d : Desktop) : Prop where
  pending : ∀ call ∈ d.pending, call.msg.cmd = "SET_ACTIVITY"
  named : ∀ event ∈ d.told, ∃ (pid : UInt32) (id : Option String),
    event.pid = some pid.toNat ∧ event.Shows id
  rebuilds : ∀ pid : UInt32,
    replay (fun _ => none) (d.told.map pidUpdate) (some pid.toNat) = d.active.lookup pid

theorem inv_new : new.Inv := ⟨nofun, nofun, fun _ => rfl⟩

theorem Inv.tick {tick : Tick} (inv : d.Inv)
    (taken : d.step target serde server (.tick tick) = some t) : t.Inv := by
  obtain ⟨cache, db, scanner, idle, _, _, scanned, rfl⟩ := tick_cases taken
  have distinct := getProcessList_pids tick.tableOrder tick.table
  have before : d.told = scannerEvents d.pipeline.log := by
    rw [told, idle]
    exact List.append_nil _
  have after : scannerEvents d.pipeline.log ++
      ((tick.scan db).calls d.task.scanner).map ScannerCall.sent =
        d.told ++ (tick.scan db).events d.task.scanner := by
    rw [before, calls_sent]
  refine ⟨fun call member => calls_cmd member, ?_, ?_⟩
  · intro event member
    change event ∈ scannerEvents _ ++ _ at member
    rw [after] at member
    rcases List.mem_append.mp member with old | sent
    · exact inv.named event old
    · exact scan_events_shows sent
  · intro pid
    change replay _ ((scannerEvents d.pipeline.log ++ _).map pidUpdate) _ = _
    rw [after, List.map_append, replay_append]
    exact replay_announced (scan_announces distinct scanned pid) (inv.rebuilds pid)

theorem Inv.handle (inv : d.Inv) (taken : d.step target serde server .handle = some t) : t.Inv := by
  obtain ⟨call, rest, p, queued, stepped, rfl⟩ := handle_cases taken
  obtain ⟨w, moved, rfl⟩ := Pipeline.world_cases stepped
  have command := inv.pending call (by simp [queued])
  have sent : d.pipeline.world.emitted call.event = some call.sent := by
    change (messageEffect call.now 0 call.clientId call.msg).1 = _
    rw [messageEffect, if_pos command]
    rfl
  have log : scannerEvents w.server.activityTx.log =
      scannerEvents d.pipeline.log ++ [call.sent] := by
    have zero : call.sent.socketId = 0 := setActivity_socketId ..
    rw [World.step_log moved, sent]
    simp [scannerEvents, Pipeline.log, zero]
  have same : ({ d with pipeline := { d.pipeline with world := w }, pending := rest } :
      Desktop).told = d.told := by
    change scannerEvents w.server.activityTx.log ++ rest.map ScannerCall.sent = _
    rw [log, told, queued, List.append_assoc]
    rfl
  refine ⟨?_, same ▸ inv.named, same ▸ inv.rebuilds⟩
  intro other member
  exact inv.pending other (by simp [queued, show other ∈ rest from member])

theorem Inv.other {e : PipelineEvent} (inv : d.Inv)
    (ids : d.pipeline.world.Identities target)
    (taken : d.step target serde server (.other e) = some t) : t.Inv := by
  obtain ⟨foreign, p, stepped, rfl⟩ := other_cases taken
  have log : scannerEvents p.log = scannerEvents d.pipeline.log := by
    cases e with
    | world e =>
      obtain ⟨w, moved, rfl⟩ := Pipeline.world_cases stepped
      have appended : w.server.activityTx.log =
          d.pipeline.log ++ (d.pipeline.world.emitted e).toList := World.step_log moved
      change scannerEvents w.server.activityTx.log = _
      rw [appended]
      cases sent : d.pipeline.world.emitted e with
      | none => simp
      | some event =>
        have named := ids.named sent fun clientId now msg same =>
          foreign clientId now msg (congrArg PipelineEvent.world same)
        simp [scannerEvents, named]
    | connect c =>
      obtain ⟨_, rfl⟩ := Pipeline.connect_cases stepped
      rfl
    | client c act =>
      obtain ⟨_, _, _, _, rfl⟩ := Pipeline.client_cases stepped
      rfl
  have same : ({ d with pipeline := p } : Desktop).told = d.told := by
    change scannerEvents p.log ++ _ = _
    rw [log]
    rfl
  exact ⟨inv.pending, same ▸ inv.named, same ▸ inv.rebuilds⟩

theorem allocated_mono {e : PipelineEvent} {p q : Pipeline}
    (taken : p.step target serde e = some q) : p.world.allocated ≤ q.world.allocated := by
  cases e with
  | world e =>
    obtain ⟨w, moved, rfl⟩ := Pipeline.world_cases taken
    exact World.allocated_mono moved
  | connect c =>
    obtain ⟨_, rfl⟩ := Pipeline.connect_cases taken
    exact Nat.le_refl _
  | client c act =>
    obtain ⟨_, _, _, _, rfl⟩ := Pipeline.client_cases taken
    exact Nat.le_refl _

/-- What holds in a life of the program in which client `c` loses nothing, as long as there are
    socket ids. -/
structure Kept (target : Target) (serde : Serde) (c : Nat) (d : Desktop) : Prop where
  lives : Lives target serde c d
  inv : d.pipeline.world.allocated < target.idRange → d.Inv

theorem Kept.step {c : Nat} {e : DesktopEvent} (kept : Kept target serde c d)
    (noLoss : d.NoLoss c e) (taken : d.step target serde server e = some t) :
    Kept target serde c t := by
  refine ⟨kept.lives.step noLoss taken, ?_⟩
  intro bound
  cases e with
  | boot =>
    cases taken
    exact ⟨nofun, nofun, fun _ => rfl⟩
  | load =>
    obtain ⟨_, _, rfl⟩ := load_cases taken
    obtain ⟨pending, named, rebuilds⟩ := kept.inv bound
    exact ⟨pending, named, rebuilds⟩
  | tick =>
    obtain ⟨_, _, _, _, _, _, _, rfl⟩ := tick_cases taken
    exact (kept.inv bound).tick taken
  | handle =>
    obtain ⟨_, _, p, _, stepped, rfl⟩ := handle_cases taken
    have before := allocated_mono stepped
    exact (kept.inv (Nat.lt_of_le_of_lt before bound)).handle taken
  | other e =>
    obtain ⟨_, p, stepped, rfl⟩ := other_cases taken
    have before := Nat.lt_of_le_of_lt (allocated_mono stepped) bound
    obtain ⟨es, reached, _⟩ := kept.lives
    obtain ⟨fs, ran⟩ := Pipeline.world_run reached
    exact (kept.inv before).other (World.identities_of_run ran before) taken

theorem kept_of_run {c : Nat} {es : List DesktopEvent}
    (reached : run (step target serde server) new es = some d)
    (noLoss : Meets (step target serde server) (NoLoss c) new es) : Kept target serde c d := by
  have start : Kept target serde c new := ⟨⟨[], rfl, trivial⟩, fun _ => inv_new⟩
  exact run_invariant_of_meets (fun _ _ _ kept noLoss taken => kept.step noLoss taken) noLoss start
    reached

theorem cached_of_run {es : List DesktopEvent} (plain : server.Plain)
    (sound : Meets (step target serde server) (Sound server) new es)
    (reached : run (step target serde server) new es = some d) :
    d.cache.Inv server ∧ d.cache.Indexed := by
  have keeps : ∀ (d : Desktop) e t, d.cache.Inv server ∧ d.cache.Indexed → d.Sound server e →
      d.step target serde server e = some t → t.cache.Inv server ∧ t.cache.Indexed := by
    intro d e t both sound taken
    obtain ⟨inv, indexed⟩ := both
    cases e with
    | boot =>
      cases taken
      exact ⟨inv, indexed⟩
    | load current reachable disk =>
      obtain ⟨cache, started, rfl⟩ := load_cases taken
      have owed : d.cache.Sound server (.start current reachable disk) := sound
      exact ⟨inv.step owed started, indexed.step plain started⟩
    | tick tick =>
      obtain ⟨_, _, _, _, refreshed, _, _, rfl⟩ := tick_cases taken
      have owed : d.task.Sound server (.tick tick) := sound
      exact ScanTask.refreshed_keeps inv indexed plain owed refreshed
    | handle =>
      obtain ⟨_, _, _, _, _, rfl⟩ := handle_cases taken
      exact ⟨inv, indexed⟩
    | other e =>
      obtain ⟨_, _, _, rfl⟩ := other_cases taken
      exact ⟨inv, indexed⟩
  have indexed : Cache.initial.Indexed := by
    intro db running
    cases running
  exact run_invariant_of_meets keeps sound ⟨Cache.inv_initial server, indexed⟩ reached

theorem run_between {es : List DesktopEvent} (between : ∀ e ∈ es, e.between = true)
    (reached : run (step target serde server) d es = some t) :
    t.active = d.active ∧ t.cache = d.cache := by
  have keeps : ∀ u e v, u.active = d.active ∧ u.cache = d.cache → e.between = true →
      step target serde server u e = some v → v.active = d.active ∧ v.cache = d.cache := by
    intro u e v same turn taken
    cases e with
    | handle =>
      obtain ⟨_, _, _, _, _, rfl⟩ := handle_cases taken
      exact same
    | other e =>
      obtain ⟨_, _, _, rfl⟩ := other_cases taken
      exact same
    | _ => cases turn
  exact run_invariant_of_meets keeps (meets_of_forall fun _ => between) ⟨rfl, rfl⟩ reached

theorem Inv.last (inv : d.Inv) {event : ActivityEvent} (last : d.told.getLast? = some event) :
    ∃ pid : UInt32, event.pid = some pid.toNat ∧ event.Shows (d.active.lookup pid) := by
  obtain ⟨front, split⟩ := List.getLast?_eq_some_iff.mp last
  obtain ⟨pid, id, key, shows⟩ := inv.named event (by rw [split]; simp)
  have rebuilt := inv.rebuilds pid
  have own : pidUpdate event = (some pid.toNat, id) := by
    rw [← key, ← shows.update]
    rfl
  rw [split, List.map_append, replay_append, List.map_singleton, own] at rebuilt
  have told : id = d.active.lookup pid := (replay_singleton _ _).symm.trans rebuilt
  exact ⟨pid, key, told ▸ shows⟩

structure Plays (d : Desktop) (entries : List DetectableEntry) (proc : ProcessInfo) (id : String) :
    Prop where
  tracked : d.active.lookup proc.pid = some id
  listed : ∃ entry ∈ entries, entry.id = id ∧ Recognised proc.path proc.args entry

theorem told_last (announced : d.pending = []) :
    d.told.getLast? = lastEvent 0 d.pipeline.log := by
  rw [told, announced]
  exact congrArg List.getLast? (List.append_nil _)

/-- Once a turn is over, the last event of socket 0 shows a game that is tracked, or is the end of one
    that is not. -/
theorem Inv.lastEvent_cases (inv : d.Inv) (announced : d.pending = []) {event : ActivityEvent}
    (last : lastEvent 0 d.pipeline.log = some event) : ∃ pid : UInt32,
      (∃ id fields, d.active.lookup pid = some id ∧
        getField "application_id" fields = some (.str id) ∧
        event = ⟨some (.obj fields), some pid.toNat, 0⟩) ∨
      (d.active.lookup pid = none ∧ event = ⟨none, some pid.toNat, 0⟩) := by
  obtain ⟨pid, key, shows⟩ := inv.last ((told_last announced).trans last)
  have zero : event.socketId = 0 := by
    have member := List.mem_of_getLast? last
    simpa using (List.mem_filter.mp member).2
  obtain ⟨activity, eventPid, socketId⟩ := event
  dsimp only at key zero
  subst key zero
  refine ⟨pid, ?_⟩
  cases tracked : d.active.lookup pid with
  | none =>
    rw [tracked] at shows
    have cleared : activity = none := shows
    exact .inr ⟨rfl, by rw [cleared]⟩
  | some id =>
    rw [tracked] at shows
    obtain ⟨fields, shown, named⟩ := shows
    exact .inl ⟨id, fields, rfl, named, by rw [← shown]⟩

theorem Inv.silent (inv : d.Inv) (announced : d.pending = [])
    (last : lastEvent 0 d.pipeline.log = none) (pid : UInt32) : d.active.lookup pid = none := by
  have nothing : d.told = [] := List.getLast?_eq_none_iff.mp ((told_last announced).trans last)
  rw [← inv.rebuilds pid, nothing]
  rfl

theorem tracks_of_turn {before after : List DesktopEvent} {tick : Tick} (plain : server.Plain)
    (reached : run (step target serde server) new (before ++ .tick tick :: after) = some d)
    (sound : Meets (step target serde server) (Sound server) new (before ++ .tick tick :: after))
    (between : ∀ e ∈ after, e.between = true) :
    ∃ entries, d.cache.InUse server entries ∧ Tracks d.active tick.processes (lastWins entries) := by
  obtain ⟨start, arrived, rest⟩ := run_append_eq_some.mp reached
  obtain ⟨turned, taken, later⟩ := run_cons_eq_some.mp rest
  obtain ⟨soundBefore, soundAfter⟩ := meets_append.mp sound
  obtain ⟨inv, indexed⟩ := cached_of_run plain soundBefore arrived
  have owed : start.task.Sound server (.tick tick) := (soundAfter start arrived).1
  obtain ⟨active, cached⟩ := run_between between later
  obtain ⟨cache, db, scanner, _, refreshed, running, scanned, rfl⟩ := tick_cases taken
  obtain ⟨held, listed⟩ := ScanTask.refreshed_keeps inv indexed plain owed refreshed
  obtain ⟨entries, inUse⟩ := held.inUse running
  rw [active, cached]
  exact ⟨entries, inUse, ScanTask.tracks_of_serves (inUse.serves listed plain) running scanned⟩

theorem plays_of_tracks {processes : List ProcessInfo} {entries : List DetectableEntry}
    {pid : UInt32} {id : String} (tracks : Tracks d.active processes entries)
    (tracked : d.active.lookup pid = some id) :
    ∃ proc ∈ processes, proc.pid = pid ∧ d.Plays entries proc id := by
  obtain ⟨proc, listed, rfl⟩ : ∃ proc ∈ processes, proc.pid = pid := by
    by_contra absent
    push Not at absent
    rw [tracks.absent pid absent] at tracked
    cases tracked
  exact ⟨proc, listed, rfl, tracked, tracks.listed proc listed id tracked⟩

/-- After the scanner's turn, once its messages have been handled and feed and client have read
    everything: what a client that nothing was lost for shows under socket 0 is the game of one of the
    listed processes; it shows none while one is tracked only if the last thing that the scanner told
    is the end of another one. -/
theorem clients_show_listed_game {c : Nat} {before after : List DesktopEvent} {tick : Tick}
    {k : ClientTask} (plain : server.Plain)
    (reached : run (step target serde server) new (before ++ .tick tick :: after) = some d)
    (sound : Meets (step target serde server) (Sound server) new (before ++ .tick tick :: after))
    (noLoss : Meets (step target serde server) (NoLoss c) new (before ++ .tick tick :: after))
    (between : ∀ e ∈ after, e.between = true)
    (bound : d.pipeline.world.allocated < target.idRange) (announced : d.pending = [])
    (processed : d.pipeline.world.bridge.feedNext = d.pipeline.log.length ∧
      d.pipeline.world.bridge.outgoing = none)
    (client : d.pipeline.clients c = some k)
    (drained : k.pc = .serving [] ∧ k.rx = d.pipeline.world.bridge.tx.log.length) :
    (∃ entries, d.cache.InUse server entries ∧
      ∀ msg, view k.delivered (toString 0) = some msg → ∃ proc ∈ tick.processes, ∃ id fields,
        d.Plays (lastWins entries) proc id ∧ getField "application_id" fields = some (.str id) ∧
        msg = bridgeMsg ⟨some (.obj fields), some proc.pid.toNat, 0⟩) ∧
      (view k.delivered (toString 0) = none → ∀ pid id, d.active.lookup pid = some id →
        ∃ other : UInt32, d.active.lookup other = none ∧
          lastEvent 0 d.pipeline.log = some ⟨none, some other.toNat, 0⟩) := by
  have kept := kept_of_run reached noLoss
  have inv := kept.inv bound
  obtain ⟨es, ran, quiet⟩ := kept.lives
  have shows := ((Pipeline.kept_of_run ran quiet).shows (Pipeline.sound_of_run ran) processed client
    drained).1 0
  obtain ⟨entries, inUse, tracks⟩ := tracks_of_turn plain reached sound between
  refine ⟨⟨entries, inUse, ?_⟩, ?_⟩
  · intro msg shown
    rw [shows] at shown
    obtain ⟨event, last, shown⟩ := Option.bind_eq_some_iff.mp shown
    obtain ⟨pid, ⟨id, fields, tracked, named, rfl⟩ | ⟨_, rfl⟩⟩ := inv.lastEvent_cases announced last
    · obtain ⟨proc, listed, rfl, plays⟩ := plays_of_tracks tracks tracked
      exact ⟨proc, listed, id, fields, plays, named, (Option.some.inj shown).symm⟩
    · cases shown
  · intro hidden pid id tracked
    rw [shows] at hidden
    cases last : lastEvent 0 d.pipeline.log with
    | none =>
      rw [inv.silent announced last pid] at tracked
      cases tracked
    | some event =>
      obtain ⟨other, ⟨_, _, _, _, rfl⟩ | ⟨untracked, rfl⟩⟩ := inv.lastEvent_cases announced last
      · rw [last] at hidden
        cases hidden
      · exact ⟨other, untracked, rfl⟩

def Room (p : Pipeline) (n : Nat) : Prop :=
  p.log.length + n ≤ p.world.server.activityTx.capacity ∧
    p.world.bridge.tx.log.length + n ≤ p.world.bridge.tx.capacity

theorem Room.step {n : Nat} {p q : Pipeline} {e : PipelineEvent} (room : Room p (n + 1))
    (taken : p.step target serde e = some q) : Room q n := by
  obtain ⟨⟨capacity, length⟩, capacity', length'⟩ := Pipeline.step_lengths taken
  obtain ⟨activity, tx⟩ := room
  exact ⟨by omega, by omega⟩

theorem Room.less {n : Nat} {p : Pipeline} (room : Room p (n + 1)) : Room p n :=
  ⟨Nat.le_of_succ_le room.1, Nat.le_of_succ_le room.2⟩

theorem meets_noLoss_of_short {c : Nat} {es : List DesktopEvent} (fresh : Room .new es.length)
    (room : Room d.pipeline es.length) : Meets (step target serde server) (NoLoss c) d es := by
  induction es generalizing d with
  | nil => trivial
  | cons e es ih =>
    rw [List.length_cons] at fresh room
    have spared : ∀ e, d.pipeline.NoLoss c e := by
      intro e
      have short : Meets (Pipeline.step target serde) (Pipeline.NoLoss c) d.pipeline [e] :=
        Pipeline.meets_noLoss_of_short (by have := room.1; simp; omega)
          (by have := room.2; simp; omega)
      exact short.1
    refine ⟨?_, ?_⟩
    · cases e with
      | handle => exact fun call _ => spared _
      | other e => exact spared e
      | _ => trivial
    · intro t taken
      apply ih fresh.less
      cases e with
      | boot =>
        cases taken
        exact fresh.less
      | load =>
        obtain ⟨_, _, rfl⟩ := load_cases taken
        exact room.less
      | tick =>
        obtain ⟨_, _, _, _, _, _, _, rfl⟩ := tick_cases taken
        exact room.less
      | handle =>
        obtain ⟨_, _, _, _, stepped, rfl⟩ := handle_cases taken
        exact room.step stepped
      | other e =>
        obtain ⟨_, _, stepped, rfl⟩ := other_cases taken
        exact room.step stepped

def watched : List DesktopEvent :=
  [.load "v2" true .good, .other (.connect 5), .other (.client 5 (.handshake true)),
    .other (.client 5 .subscribe), .other (.client 5 .collect)]

def passOn : List DesktopEvent :=
  [.handle, .other (.world .feedRecv), .other (.world .feedSend), .other (.client 5 (.recv true))]

def played : Desktop :=
  (run (step .ptr64 activitySerde Cache.growing) new
    (watched ++ .tick (ScanTask.turn 5 ScanTask.racing) :: passOn)).getD new

def watcher : ClientTask := (played.pipeline.clients 5).getD .new

theorem clients_show_listed_game_played : ∃ msg entries,
    view watcher.delivered (toString 0) = some msg ∧ played.cache.InUse Cache.growing entries ∧
    ∃ proc ∈ (ScanTask.turn 5 ScanTask.racing).processes, ∃ id fields,
      played.Plays (lastWins entries) proc id ∧ getField "application_id" fields = some (.str id) ∧
      msg = bridgeMsg ⟨some (.obj fields), some proc.pid.toNat, 0⟩ := by
  have reached : run (step .ptr64 activitySerde Cache.growing) new
      (watched ++ .tick (ScanTask.turn 5 ScanTask.racing) :: passOn) = some played := rfl
  have sound : Meets (step .ptr64 activitySerde Cache.growing) (Sound Cache.growing) new
      (watched ++ .tick (ScanTask.turn 5 ScanTask.racing) :: passOn) := by
    refine ⟨Cache.sound_first true (by decide), ?_⟩
    intro _ _
    refine ⟨trivial, fun _ _ => ⟨trivial, fun _ _ => ⟨trivial, fun _ _ => ⟨trivial, ?_⟩⟩⟩⟩
    intro _ _
    refine ⟨fun due => absurd due (by decide), ?_⟩
    intro _ _
    exact meets_of_forall (by simp [passOn, Sound])
  have noLoss : Meets (step .ptr64 activitySerde Cache.growing) (NoLoss 5) new
      (watched ++ .tick (ScanTask.turn 5 ScanTask.racing) :: passOn) :=
    meets_noLoss_of_short ⟨by decide, by decide⟩ ⟨by decide, by decide⟩
  obtain ⟨⟨entries, inUse, shown⟩, _⟩ := clients_show_listed_game ScanTask.growing_plain reached sound noLoss
    (by decide) (by decide) rfl ⟨rfl, rfl⟩ (show played.pipeline.clients 5 = some watcher from rfl)
    ⟨rfl, rfl⟩
  have some_msg : ∃ msg, view watcher.delivered (toString 0) = some msg := ⟨_, rfl⟩
  obtain ⟨msg, found⟩ := some_msg
  exact ⟨msg, entries, found, inUse, shown msg found⟩

def moved : ProcessTable := AList.singleton 9 ⟨some "/games/racer.exe", ["racer.exe"]⟩

/-- Between two scans the racer is started anew: its start is told before its end, which hides it. -/
example : ∃ d k, run (step .ptr64 activitySerde Cache.growing) new
    (watched ++ .tick (ScanTask.turn 5 ScanTask.racing) :: passOn ++
      .tick (ScanTask.turn 5 moved) :: passOn ++ passOn) = some d ∧
    d.pipeline.clients 5 = some k ∧ d.active.lookup 9 = some "2" ∧
    view k.delivered (toString 0) = none := ⟨_, _, rfl, rfl, rfl, rfl⟩

end Desktop

end Dirpc
