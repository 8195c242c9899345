import Dirpc.Base.Replay
import Dirpc.Process.Scan

namespace Dirpc

open Base Base.Json

def ActivityEvent.Shows (event : ActivityEvent) : Option String → Prop
  | none => event.activity = none
  | some id => ∃ fields, event.activity = some (.obj fields) ∧
      getField "application_id" fields = some (.str id)

/-- One event for an entry that appeared, changed or disappeared, and none for one that did not. -/
def Announced (before after : Option String) (events : List ActivityEvent) : Prop :=
  if before = after then events = [] else ∃ event, events = [event] ∧ event.Shows after

def eventsOf (pid : UInt32) (events : List ActivityEvent) : List ActivityEvent :=
  events.filter fun event => event.pid = some pid.toNat

theorem eventsOf_append (pid : UInt32) (front back : List ActivityEvent) :
    eventsOf pid (front ++ back) = eventsOf pid front ++ eventsOf pid back := List.filter_append ..

theorem eventsOf_detected (clock : UInt32 → Nat → Int) (pid : UInt32) (ds : List Detection) :
    eventsOf pid (ds.map (detectedEvent clock)) =
      (ds.filter fun d => d.pid = pid).map (detectedEvent clock) := by
  apply filter_map_of
  intro d
  rw [(detectedEvent_spec clock d).1]
  simp [UInt32.toNat_inj]

theorem eventsOf_lost (pid : UInt32) (rows : List (Sigma fun _ : UInt32 => String)) :
    eventsOf pid (rows.map lostEvent) = (rows.filter fun row => row.1 = pid).map lostEvent := by
  apply filter_map_of
  intro row
  simp [lostEvent, UInt32.toNat_inj]

theorem lost_filter {scan : Scan} {s : Scanner} (pid : UInt32) :
    (scan.lost s).filter (fun row => row.1 = pid) =
      if scan.present.contains pid then []
      else ((s.active.lookup pid).map fun id => ⟨pid, id⟩).toList := by
  have perm := (scan.order.perm ((s.detectAll scan.clock scan.detected).active.entries.filter
    fun row => !scan.present.contains row.1)).filter fun row => row.1 = pid
  rw [List.filter_filter] at perm
  by_cases present : scan.present.contains pid = true
  · rw [if_pos present]
    have nothing : (s.detectAll scan.clock scan.detected).active.entries.filter (fun row =>
        row.1 = pid && !scan.present.contains row.1) = [] := by
      apply List.filter_eq_nil_iff.mpr
      rintro row _ kept
      obtain ⟨same, missing⟩ := Bool.and_eq_true_iff.mp kept
      rw [of_decide_eq_true same, present] at missing
      cases missing
    rw [nothing] at perm
    exact perm.eq_nil
  · rw [if_neg present]
    have other : ∀ d ∈ scan.detected, d.pid ≠ pid := by
      rintro d member rfl
      exact present (List.contains_iff_mem.mpr (List.mem_map_of_mem member))
    have rows : (s.detectAll scan.clock scan.detected).active.entries.filter (fun row =>
        row.1 = pid && !scan.present.contains row.1) =
        ((s.active.lookup pid).map fun id => ⟨pid, id⟩).toList := by
      have old : (s.detectAll scan.clock scan.detected).active.lookup pid =
          s.active.lookup pid := Scanner.detectAll_other other
      rw [← old]
      apply Eq.trans _ (filter_rows (AList.nodupKeys _) pid)
      apply List.filter_congr
      intro row _
      have missing : pid ∉ scan.present := by simpa using present
      by_cases same : row.1 = pid
      · simp [same, missing]
      · simp [same]
    rw [rows] at perm
    exact eq_of_perm_toList perm

theorem scan_announces {scan : Scan} (distinct : (scan.processes.map (·.pid)).Nodup)
    {s after : Scanner} (scanned : scanOnce scan s = some after) (pid : UInt32) :
    Announced (s.active.lookup pid) (after.active.lookup pid) (eventsOf pid (scan.events s)) := by
  unfold Scan.events
  rw [eventsOf_append, eventsOf_detected, eventsOf_lost, lost_filter]
  by_cases absent : ∀ d ∈ scan.detected, d.pid ≠ pid
  · have missing : ¬scan.present.contains pid = true := by
      intro present
      obtain ⟨d, member, same⟩ := List.mem_map.mp (List.contains_iff_mem.mp present)
      exact absent d member same
    have none_new : (scan.detected.filter fun d => s.active.lookup d.pid ≠ some d.id).filter
        (fun d => d.pid = pid) = [] := by
      apply List.filter_eq_nil_iff.mpr
      intro d member
      simpa using absent d (List.mem_of_mem_filter member)
    rw [none_new, if_neg missing, scanOnce_absent scanned absent]
    cases tracked : s.active.lookup pid with
    | none => rfl
    | some id => exact ⟨_, rfl, rfl⟩
  · push Not at absent
    obtain ⟨d, member, rfl⟩ := absent
    have present : scan.present.contains d.pid = true :=
      List.contains_iff_mem.mpr (List.mem_map_of_mem member)
    have alone := filter_key (present_nodup distinct) member
    rw [if_pos present, scanOnce_present distinct scanned member, List.filter_comm, alone]
    by_cases tracked : s.active.lookup d.pid = some d.id
    · simp [Announced, tracked]
    · have told : (detectedEvent scan.clock d).Shows (some d.id) :=
        (detectedEvent_spec scan.clock d).2.2
      simpa [Announced, tracked] using told

theorem scan_events_pids {scan : Scan} {s : Scanner} {event : ActivityEvent}
    (sent : event ∈ scan.events s) :
    event.socketId = 0 ∧ ∃ pid : UInt32, event.pid = some pid.toNat := by
  rcases List.mem_append.mp sent with detected | lost
  · obtain ⟨d, _, rfl⟩ := List.mem_map.mp detected
    obtain ⟨pid, socketId, _⟩ := detectedEvent_spec scan.clock d
    exact ⟨socketId, d.pid, pid⟩
  · obtain ⟨row, _, rfl⟩ := List.mem_map.mp lost
    exact ⟨rfl, row.1, rfl⟩

def pidUpdate (event : ActivityEvent) : Update (Option Nat) String :=
  (event.pid, event.activity.bind fun activity => (activity.get "application_id").bind asStr)

theorem ActivityEvent.Shows.update {event : ActivityEvent} {id : Option String}
    (shows : event.Shows id) : (pidUpdate event).2 = id := by
  cases id with
  | none => simp [pidUpdate, (show event.activity = none from shows)]
  | some id =>
    obtain ⟨fields, activity, named⟩ := shows
    simp [pidUpdate, activity, named, asStr]

theorem replay_announced {m : Option Nat → Option String} {before after : Option String}
    {pid : UInt32} {events : List ActivityEvent}
    (announced : Announced before after (eventsOf pid events)) (old : m (some pid.toNat) = before) :
    replay m (events.map pidUpdate) (some pid.toNat) = after := by
  have own : (events.map pidUpdate).filter (fun u => u.1 = some pid.toNat) =
      (eventsOf pid events).map pidUpdate := filter_map_of (fun _ => rfl) events
  apply replay_difference
  rw [own, old]
  by_cases same : before = after
  · rw [Announced, if_pos same] at announced
    rw [announced]
    exact .inl ⟨same, rfl⟩
  · rw [Announced, if_neg same] at announced
    obtain ⟨event, alone, shows⟩ := announced
    have member : event ∈ eventsOf pid events := by
      rw [alone]
      exact List.mem_singleton_self event
    have key : event.pid = some pid.toNat := by simpa using List.of_mem_filter member
    have update : pidUpdate event = (some pid.toNat, after) := by
      rw [← key, ← shows.update]
      rfl
    rw [alone, List.map_singleton, update]
    exact .inr rfl

/-- The scanner has sent `events` since the server was in state `st`, and they rebuild its table. -/
def Reported (st : ServerState) (s : Scanner) (events : List ActivityEvent) : Prop :=
  s.server.activityTx.log = st.activityTx.log ++ events ∧
    ∀ pid, replay (fun _ => none) (events.map pidUpdate) (some pid.toNat) = s.active.lookup pid

theorem Reported.scanOnce {st : ServerState} {s after : Scanner} {events : List ActivityEvent}
    {scan : Scan} (reported : Reported st s events)
    (distinct : (scan.processes.map (·.pid)).Nodup) (scanned : scanOnce scan s = some after) :
    Reported st after (events ++ scan.events s) := by
  constructor
  · rw [scanOnce_log distinct scanned, reported.1, List.append_assoc]
  · intro pid
    rw [List.map_append, replay_append]
    exact replay_announced (scan_announces distinct scanned pid) (reported.2 pid)

theorem Reported.scanAll {st : ServerState} {s : Scanner} {events : List ActivityEvent}
    {scans : List Scan} (reported : Reported st s events)
    (distinct : ∀ scan ∈ scans, (scan.processes.map (·.pid)).Nodup) :
    ∃ after later, scanAll scans s = some after ∧ Reported st after (events ++ later) := by
  induction scans generalizing s events with
  | nil => exact ⟨s, [], rfl, by rwa [List.append_nil]⟩
  | cons scan rest ih =>
    have scanned := scanOnce_eq scan s
    have next := reported.scanOnce (distinct scan List.mem_cons_self) scanned
    obtain ⟨after, later, finished, whole⟩ :=
      ih next fun other member => distinct other (List.mem_cons_of_mem _ member)
    refine ⟨after, scan.events s ++ later, ?_, ?_⟩
    · rw [Dirpc.scanAll, scanned]
      exact finished
    · rwa [List.append_assoc] at whole

theorem scans_report_difference {scans : List Scan} {scan : Scan}
    (distinct : ∀ other ∈ scans ++ [scan], (other.processes.map (·.pid)).Nodup)
    (st : ServerState) :
    ∃ before after earlier new,
      scanAll scans ⟨st, ∅⟩ = some before ∧ scanOnce scan before = some after ∧
      before.server.activityTx.log = st.activityTx.log ++ earlier ∧
      after.server.activityTx.log = before.server.activityTx.log ++ new ∧
      (∀ pid id, after.active.lookup pid = some id ↔ ∃ proc ∈ scan.processes, proc.pid = pid ∧
        ∃ name, scan.db.matchProcess proc.path proc.args = some (some (id, name))) ∧
      (∀ event ∈ new, ∃ pid : UInt32, event.pid = some pid.toNat) ∧
      (∀ pid, Announced (before.active.lookup pid) (after.active.lookup pid) (eventsOf pid new)) ∧
      ∀ pid, replay (fun _ => none) ((earlier ++ new).map pidUpdate) (some pid.toNat) =
        after.active.lookup pid := by
  have start : Reported st ⟨st, ∅⟩ [] := ⟨(List.append_nil _).symm, fun _ => rfl⟩
  obtain ⟨before, earlier, reached, reported⟩ :=
    start.scanAll fun other member => distinct other (List.mem_append_left _ member)
  rw [List.nil_append] at reported
  have own : (scan.processes.map (·.pid)).Nodup := distinct scan (by simp)
  have scanned := scanOnce_eq scan before
  refine ⟨before, _, earlier, scan.events before, reached, scanned, reported.1,
    scanOnce_log own scanned, scanOnce_active_iff own scanned, ?_,
    scan_announces own scanned, (reported.scanOnce own scanned).2⟩
  intro event sent
  exact (scan_events_pids sent).2

def scanOf (db : DetectableDb) (processes : List ProcessInfo) : Scan :=
  ⟨db, processes, ⟨id, fun _ => List.Perm.refl _⟩, fun _ _ => 0⟩

def twoGames : List DetectableEntry :=
  [⟨"1", "Shooter", [⟨"shooter.exe", none⟩]⟩, ⟨"2", "Racer", [⟨"racer.exe", none⟩]⟩]

def twoGamesDb : DetectableDb := ⟨some (tablesOf twoGames), fstOf twoGames, exeToIds twoGames⟩

def shooterRuns : Scan := scanOf twoGamesDb [⟨7, "/games/shooter.exe", []⟩, ⟨8, "/bin/sh", []⟩]

def racerReuses : Scan := scanOf twoGamesDb [⟨7, "/games/racer.exe", []⟩]

theorem scans_report_difference_reused :
    ∃ before after earlier new,
      scanAll [shooterRuns] ⟨ServerState.new, ∅⟩ = some before ∧
      scanOnce racerReuses before = some after ∧
      before.server.activityTx.log = ServerState.new.activityTx.log ++ earlier ∧
      after.server.activityTx.log = before.server.activityTx.log ++ new ∧
      (∀ pid id, after.active.lookup pid = some id ↔ ∃ proc ∈ racerReuses.processes,
        proc.pid = pid ∧ ∃ name, racerReuses.db.matchProcess proc.path proc.args =
          some (some (id, name))) ∧
      (∀ event ∈ new, ∃ pid : UInt32, event.pid = some pid.toNat) ∧
      (∀ pid, Announced (before.active.lookup pid) (after.active.lookup pid) (eventsOf pid new)) ∧
      ∀ pid, replay (fun _ => none) ((earlier ++ new).map pidUpdate) (some pid.toNat) =
        after.active.lookup pid := by
  have distinct : ∀ other ∈ [shooterRuns] ++ [racerReuses],
      (other.processes.map (·.pid)).Nodup := by
    intro other member
    rcases List.mem_cons.mp member with rfl | last
    · decide
    · rcases List.mem_singleton.mp last with rfl
      decide
  exact scans_report_difference distinct ServerState.new

end Dirpc
