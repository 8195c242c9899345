import Dirpc.Process.Matching
import Dirpc.Server.Message

namespace Dirpc

open Base Base.Json

structure ProcessInfo where
  pid : UInt32
  path : String
  args : List String

abbrev Active := AList fun _ : UInt32 => String

/-- What one scan works with: the database in use, the process list, the order in which the table
    of active games is iterated, and for each process what the clock reads at each look at it. -/
structure Scan where
  db : DetectableDb
  processes : List ProcessInfo
  order : IterOrder (Sigma fun _ : UInt32 => String)
  clock : UInt32 → Nat → Int

structure Scanner where
  server : ServerState
  active : Active

def detectedMsg (pid : UInt32) (id name : String) (nowMs : Int) : RpcMessage where
  cmd := "SET_ACTIVITY"
  args := some (.obj [("pid", .int pid.toNat), ("activity", .obj [("application_id", .str id),
    ("name", .str name), ("timestamps", .obj [("start", .int nowMs)])])])

def lostMsg (pid : UInt32) : RpcMessage where
  cmd := "SET_ACTIVITY"
  args := some (.obj [("pid", .int pid.toNat), ("activity", .null)])

namespace Scanner

/-- A process of the list that matches: announced unless it is tracked with the same id. -/
def detect (s : Scanner) (clock : Nat → Int) (pid : UInt32) (id name : String) : Scanner where
  server :=
    if s.active.lookup pid = some id then s.server
    else (s.server.handleMessage (fun i => clock (i + 1)) 0 id
      (detectedMsg pid id name (clock 0))).1
  active := s.active.insert pid id

def lose (clock : UInt32 → Nat → Int) (server : ServerState)
    (row : Sigma fun _ : UInt32 => String) : ServerState :=
  (server.handleMessage (clock row.1) 0 row.2 (lostMsg row.1)).1

end Scanner

def scanProcesses (scan : Scan) :
    List ProcessInfo → Scanner → List UInt32 → MayPanic (Scanner × List UInt32)
  | [], s, present => some (s, present)
  | proc :: rest, s, present => do
    match ← scan.db.matchProcess proc.path proc.args with
    | none => scanProcesses scan rest s present
    | some (id, name) =>
      scanProcesses scan rest (s.detect (scan.clock proc.pid) proc.pid id name)
        (present ++ [proc.pid])

def scanOnce (scan : Scan) (s : Scanner) : MayPanic Scanner := do
  let (s, present) ← scanProcesses scan scan.processes s []
  let lost := scan.order.arrange (s.active.entries.filter fun row => !present.contains row.1)
  pure ⟨lost.foldl (Scanner.lose scan.clock) s.server, retain present.contains s.active⟩

def scanAll : List Scan → Scanner → MayPanic Scanner
  | [], s => some s
  | scan :: rest, s => do scanAll rest (← scanOnce scan s)

structure Detection where
  pid : UInt32
  id : String
  name : String

def Scan.detections (scan : Scan) (processes : List ProcessInfo) : List Detection :=
  processes.filterMap fun proc =>
    ((scan.db.matchProcess proc.path proc.args).getD none).map fun found =>
      ⟨proc.pid, found.1, found.2⟩

def Scan.detected (scan : Scan) : List Detection := scan.detections scan.processes

def detectedEvent (clock : UInt32 → Nat → Int) (d : Detection) : ActivityEvent :=
  (setActivity (fun i => clock d.pid (i + 1)) 0 d.id
    (detectedMsg d.pid d.id d.name (clock d.pid 0))).1

def lostEvent (row : Sigma fun _ : UInt32 => String) : ActivityEvent := ⟨none, some row.1.toNat, 0⟩

def Scanner.detectAll (clock : UInt32 → Nat → Int) (s : Scanner) (ds : List Detection) : Scanner :=
  ds.foldl (fun s d => s.detect (clock d.pid) d.pid d.id d.name) s

def Scan.present (scan : Scan) : List UInt32 := scan.detected.map (·.pid)

theorem scanProcesses_eq (scan : Scan) (processes : List ProcessInfo) (s : Scanner)
    (present : List UInt32) :
    scanProcesses scan processes s present =
      some (s.detectAll scan.clock (scan.detections processes),
        present ++ (scan.detections processes).map (·.pid)) := by
  induction processes generalizing s present with
  | nil => simp [scanProcesses, Scan.detections, Scanner.detectAll]
  | cons proc rest ih =>
    obtain ⟨found, matched⟩ := matchProcess_total scan.db proc.path proc.args
    rw [scanProcesses, matched]
    cases found with
    | none =>
      have skipped : scan.detections (proc :: rest) = scan.detections rest := by
        simp [Scan.detections, matched]
      rw [skipped]
      exact ih s present
    | some hit =>
      obtain ⟨id, name⟩ := hit
      have first : scan.detections (proc :: rest) =
          ⟨proc.pid, id, name⟩ :: scan.detections rest := by
        simp [Scan.detections, matched]
      rw [first]
      exact (ih _ _).trans (by simp [Scanner.detectAll])

def Scan.lost (scan : Scan) (s : Scanner) : List (Sigma fun _ : UInt32 => String) :=
  scan.order.arrange ((s.detectAll scan.clock scan.detected).active.entries.filter
    fun row => !scan.present.contains row.1)

theorem scanOnce_eq (scan : Scan) (s : Scanner) :
    scanOnce scan s = some ⟨(scan.lost s).foldl (Scanner.lose scan.clock)
        (s.detectAll scan.clock scan.detected).server,
      retain scan.present.contains (s.detectAll scan.clock scan.detected).active⟩ := by
  rw [scanOnce, scanProcesses_eq]
  rfl

theorem handleMessage_activity {msg : RpcMessage} (command : msg.cmd = "SET_ACTIVITY")
    (now : Nat → Int) (st : ServerState) (socketId : Nat) (clientId : String) :
    (st.handleMessage now socketId clientId msg).1.activityTx.log =
      st.activityTx.log ++ [(setActivity now socketId clientId msg).1] := by
  rw [ServerState.handleMessage_activityTx, messageEffect, if_pos command]
  rfl

theorem sentPid (pid : UInt32) :
    (Json.int pid.toNat).asU64.map (· % 2 ^ 32) = some pid.toNat := by
  have bound : pid.toNat < 2 ^ 32 := pid.toNat_lt
  have read : (Json.int pid.toNat).asU64 = some pid.toNat := asU64_natCast (by omega)
  rw [read, Option.map_some, Nat.mod_eq_of_lt bound]

theorem setActivity_sentPid {pid : UInt32} {msg : RpcMessage}
    (given : (msg.args.getD .null).get "pid" = some (.int pid.toNat)) (now : Nat → Int)
    (socketId : Nat) (clientId : String) :
    (setActivity now socketId clientId msg).1.pid = some pid.toNat := by
  rw [setActivity_pid, given, Option.bind_some, sentPid]

theorem lostEvent_eq (now : Nat → Int) (row : Sigma fun _ : UInt32 => String) :
    (setActivity now 0 row.2 (lostMsg row.1)).1 = lostEvent row := by
  have cleared : ((lostMsg row.1).args.getD .null).get "activity" = some .null := rfl
  have given : ((lostMsg row.1).args.getD .null).get "pid" = some (.int row.1.toNat) := rfl
  have activity := setActivity_cleared cleared now 0 row.2
  have pid := setActivity_sentPid given now 0 row.2
  have socketId := setActivity_socketId now 0 row.2 (lostMsg row.1)
  generalize (setActivity now 0 row.2 (lostMsg row.1)).1 = event at *
  cases event
  cases activity
  cases pid
  cases socketId
  rfl

theorem detectedEvent_spec (clock : UInt32 → Nat → Int) (d : Detection) :
    (detectedEvent clock d).pid = some d.pid.toNat ∧ (detectedEvent clock d).socketId = 0 ∧
      ∃ fields, (detectedEvent clock d).activity = some (.obj fields) ∧
        getField "application_id" fields = some (.str d.id) := by
  constructor
  · exact setActivity_sentPid rfl ..
  · constructor
    · exact setActivity_socketId ..
    · exact setActivity_shown rfl rfl ..

theorem lose_log (clock : UInt32 → Nat → Int) (server : ServerState)
    (rows : List (Sigma fun _ : UInt32 => String)) :
    (rows.foldl (Scanner.lose clock) server).activityTx.log =
      server.activityTx.log ++ rows.map lostEvent := by
  induction rows generalizing server with
  | nil => simp
  | cons row rows ih =>
    rw [List.foldl_cons, ih, Scanner.lose, handleMessage_activity rfl, lostEvent_eq]
    simp

theorem detect_log (clock : UInt32 → Nat → Int) (s : Scanner) (d : Detection) :
    (s.detect (clock d.pid) d.pid d.id d.name).server.activityTx.log =
      s.server.activityTx.log ++
        if s.active.lookup d.pid = some d.id then [] else [detectedEvent clock d] := by
  unfold Scanner.detect
  dsimp only
  split
  · rw [List.append_nil]
  · exact handleMessage_activity rfl ..

namespace Scanner

variable {clock : UInt32 → Nat → Int} {s : Scanner} {ds : List Detection}

theorem detectAll_other {pid : UInt32} (other : ∀ d ∈ ds, d.pid ≠ pid) :
    (s.detectAll clock ds).active.lookup pid = s.active.lookup pid := by
  induction ds generalizing s with
  | nil => rfl
  | cons d ds ih =>
    have first : pid ≠ d.pid := Ne.symm (other d List.mem_cons_self)
    have rest : ∀ e ∈ ds, e.pid ≠ pid := fun e member => other e (List.mem_cons_of_mem _ member)
    exact (ih rest).trans (AList.lookup_insert_ne first)

theorem detectAll_mem {d : Detection} (distinct : (ds.map (·.pid)).Nodup) (member : d ∈ ds) :
    (s.detectAll clock ds).active.lookup d.pid = some d.id := by
  induction ds generalizing s with
  | nil => cases member
  | cons e ds ih =>
    obtain ⟨fresh, later⟩ := List.nodup_cons.mp distinct
    rcases List.mem_cons.mp member with rfl | rest
    · have other : ∀ e ∈ ds, e.pid ≠ d.pid := by
        intro e found same
        exact fresh (List.mem_map.mpr ⟨e, found, same⟩)
      exact (detectAll_other other).trans (AList.lookup_insert _)
    · exact ih later rest

theorem detectAll_log (distinct : (ds.map (·.pid)).Nodup) :
    (s.detectAll clock ds).server.activityTx.log = s.server.activityTx.log ++
      (ds.filter fun d => s.active.lookup d.pid ≠ some d.id).map (detectedEvent clock) := by
  induction ds generalizing s with
  | nil => simp [detectAll]
  | cons d ds ih =>
    obtain ⟨fresh, later⟩ := List.nodup_cons.mp distinct
    have untouched : (ds.filter fun e => (s.detect (clock d.pid) d.pid d.id d.name).active.lookup
        e.pid ≠ some e.id) = ds.filter fun e => s.active.lookup e.pid ≠ some e.id := by
      apply List.filter_congr
      intro e member
      have different : e.pid ≠ d.pid := by
        intro same
        exact fresh (List.mem_map.mpr ⟨e, member, same⟩)
      have kept : (s.detect (clock d.pid) d.pid d.id d.name).active.lookup e.pid =
          s.active.lookup e.pid := AList.lookup_insert_ne different
      rw [kept]
    have tail := ih (s := s.detect (clock d.pid) d.pid d.id d.name) later
    rw [untouched, detect_log, List.append_assoc] at tail
    apply tail.trans
    congr 1
    by_cases tracked : s.active.lookup d.pid = some d.id <;> simp [tracked]

end Scanner

/-- What a scan sends: the games that are new or have changed, then the lost ones. -/
def Scan.events (scan : Scan) (s : Scanner) : List ActivityEvent :=
  (scan.detected.filter fun d => s.active.lookup d.pid ≠ some d.id).map
    (detectedEvent scan.clock) ++ (scan.lost s).map lostEvent

theorem detections_pids (scan : Scan) (processes : List ProcessInfo) :
    ((scan.detections processes).map (·.pid)).Sublist (processes.map (·.pid)) := by
  induction processes with
  | nil => exact List.Sublist.refl _
  | cons proc rest ih =>
    unfold Scan.detections at ih ⊢
    rw [List.filterMap_cons]
    cases (scan.db.matchProcess proc.path proc.args).getD none with
    | none => exact ih.cons _
    | some found => exact ih.cons_cons _

theorem present_nodup {scan : Scan} (distinct : (scan.processes.map (·.pid)).Nodup) :
    (scan.detected.map (·.pid)).Nodup := distinct.sublist (detections_pids scan scan.processes)

theorem scanOnce_log {scan : Scan} (distinct : (scan.processes.map (·.pid)).Nodup) {s after : Scanner}
    (scanned : scanOnce scan s = some after) :
    after.server.activityTx.log = s.server.activityTx.log ++ scan.events s := by
  rw [scanOnce_eq] at scanned
  cases scanned
  rw [lose_log, Scanner.detectAll_log (present_nodup distinct), List.append_assoc]
  rfl

theorem scanOnce_active {scan : Scan} {s after : Scanner} (scanned : scanOnce scan s = some after)
    (pid : UInt32) : after.active.lookup pid =
      if scan.present.contains pid then
        (s.detectAll scan.clock scan.detected).active.lookup pid
      else none := by
  rw [scanOnce_eq] at scanned
  cases scanned
  exact lookup_retain ..

theorem scanOnce_present {scan : Scan} (distinct : (scan.processes.map (·.pid)).Nodup)
    {s after : Scanner} (scanned : scanOnce scan s = some after) {d : Detection}
    (member : d ∈ scan.detected) : after.active.lookup d.pid = some d.id := by
  have present : scan.present.contains d.pid = true :=
    List.contains_iff_mem.mpr (List.mem_map_of_mem member)
  rw [scanOnce_active scanned, if_pos present]
  exact Scanner.detectAll_mem (present_nodup distinct) member

theorem scanOnce_absent {scan : Scan} {s after : Scanner} (scanned : scanOnce scan s = some after)
    {pid : UInt32} (absent : ∀ d ∈ scan.detected, d.pid ≠ pid) :
    after.active.lookup pid = none := by
  have missing : ¬scan.present.contains pid = true := by
    intro present
    obtain ⟨d, member, same⟩ := List.mem_map.mp (List.contains_iff_mem.mp present)
    exact absent d member same
  rw [scanOnce_active scanned, if_neg missing]

theorem mem_detected {scan : Scan} {pid : UInt32} {id : String} :
    (∃ d ∈ scan.detected, d.pid = pid ∧ d.id = id) ↔
      ∃ proc ∈ scan.processes, proc.pid = pid ∧
        ∃ name, scan.db.matchProcess proc.path proc.args = some (some (id, name)) := by
  unfold Scan.detected Scan.detections
  constructor
  · intro assumed
    rcases assumed with ⟨d, member, rfl, rfl⟩
    obtain ⟨proc, listed, found⟩ := List.mem_filterMap.mp member
    obtain ⟨⟨id, name⟩, matched, rfl⟩ := Option.map_eq_some_iff.mp found
    obtain ⟨hit, total⟩ := matchProcess_total scan.db proc.path proc.args
    rw [total, Option.getD_some] at matched
    subst matched
    exact ⟨proc, listed, rfl, name, total⟩
  · intro assumed
    rcases assumed with ⟨proc, listed, rfl, name, matched⟩
    refine ⟨⟨proc.pid, id, name⟩, List.mem_filterMap.mpr ⟨proc, listed, ?_⟩, rfl, rfl⟩
    rw [matched]
    rfl

theorem scanOnce_active_iff {scan : Scan} (distinct : (scan.processes.map (·.pid)).Nodup)
    {s after : Scanner} (scanned : scanOnce scan s = some after) (pid : UInt32) (id : String) :
    after.active.lookup pid = some id ↔ ∃ proc ∈ scan.processes, proc.pid = pid ∧
      ∃ name, scan.db.matchProcess proc.path proc.args = some (some (id, name)) := by
  rw [← mem_detected]
  constructor
  · intro tracked
    by_cases absent : ∀ d ∈ scan.detected, d.pid ≠ pid
    · rw [scanOnce_absent scanned absent] at tracked
      cases tracked
    · push Not at absent
      obtain ⟨d, member, rfl⟩ := absent
      rw [scanOnce_present distinct scanned member] at tracked
      exact ⟨d, member, rfl, Option.some.inj tracked⟩
  · intro assumed
    rcases assumed with ⟨d, member, rfl, rfl⟩
    exact scanOnce_present distinct scanned member

end Dirpc
