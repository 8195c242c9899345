import Dirpc.Bridge.Feed
import Dirpc.Process.Difference

namespace Dirpc

open Base Base.Json

def BridgeState.consume (b : BridgeState) (event : ActivityEvent) : BridgeState :=
  let recorded := ({ b with feedNext := b.feedNext + 1 } : BridgeState).record event
  recorded.feedSend.getD recorded

theorem BridgeState.feed_consumes {activity : Broadcast ActivityEvent} {b : BridgeState}
    {event : ActivityEvent} (idle : b.outgoing = none) (fresh : activity.oldest ≤ b.feedNext)
    (found : activity.log[b.feedNext]? = some event) :
    (b.feedRecv activity).bind feedSend = some (b.consume event) := by
  rw [feedRecv_next idle fresh found]
  rfl

theorem BridgeState.feed_drains {activity : Broadcast ActivityEvent} {seen events : List ActivityEvent}
    {b : BridgeState} (log : activity.log = seen ++ events) (idle : b.outgoing = none)
    (next : b.feedNext = seen.length) (fresh : activity.oldest ≤ b.feedNext) :
    events.foldlM (fun b _ => (b.feedRecv activity).bind feedSend) b =
      some (events.foldl consume b) := by
  induction events generalizing seen b with
  | nil => rfl
  | cons event events ih =>
    have found : activity.log[b.feedNext]? = some event := by simp [log, next]
    have log' : activity.log = (seen ++ [event]) ++ events := by simp [log]
    have next' : (b.consume event).feedNext = b.feedNext + 1 := rfl
    have fresh' : activity.oldest ≤ (b.consume event).feedNext := by omega
    rw [List.foldlM_cons, feed_consumes idle fresh found]
    exact ih log' rfl (by simp [next', next]) fresh'

theorem BridgeState.consume_lastMsgs (b : BridgeState) (events : List ActivityEvent) :
    (events.foldl consume b).lastMsgs = replay b.lastMsgs (events.map eventUpdate) := by
  induction events generalizing b with
  | nil => rfl
  | cons event events ih =>
    have head : (b.consume event).lastMsgs = applyUpdate b.lastMsgs (eventUpdate event) :=
      record_lastMsgs { b with feedNext := b.feedNext + 1 } event
    rw [List.foldl_cons, ih, head]
    rfl

structure Monitor where
  scanner : Scanner
  bridge : BridgeState

namespace Monitor

def new : Monitor := ⟨⟨ServerState.new, ∅⟩, BridgeState.new⟩

def scan (m : Monitor) (scan : Scan) : MayPanic Monitor := do
  let scanner ← scanOnce scan m.scanner
  let sent := scanner.server.activityTx.log.drop m.scanner.server.activityTx.log.length
  pure ⟨scanner, sent.foldl BridgeState.consume m.bridge⟩

def scanAll : List Scan → Monitor → MayPanic Monitor
  | [], m => some m
  | scan :: rest, m => do scanAll rest (← m.scan scan)

end Monitor

def Carries (msg : Json) (pid : UInt32) (id : String) : Prop :=
  msg.get "pid" = some (.int pid.toNat) ∧
    (msg.get "activity").bind (·.get "application_id") = some (.str id)

/-- What the bridge keeps for the scanner shows exactly the active games. -/
structure Mirrors (shown : Option Json) (active : Active) : Prop where
  tracked : ∀ pid id, active.lookup pid = some id → ∃ msg, shown = some msg ∧ Carries msg pid id
  known : ∀ msg, shown = some msg →
    ∃ pid id, active.lookup pid = some id ∧ msg.get "pid" = some (.int pid.toNat)

def Monitor.Mirrors (m : Monitor) : Prop := Dirpc.Mirrors (m.bridge.lastMsgs 0) m.scanner.active

/-- A process that matches is the only one now and was the only one before. -/
def Scan.Alone (before : List UInt32) (scan : Scan) : Prop :=
  ∀ pid ∈ scan.present, ∀ other, other ∈ scan.present ∨ other ∈ before → other = pid

def OneGame : List UInt32 → List Scan → Prop
  | _, [] => True
  | before, scan :: rest => scan.Alone before ∧ OneGame scan.present rest

theorem carries_detected (clock : UInt32 → Nat → Int) (d : Detection) :
    ∃ msg, (eventUpdate (detectedEvent clock d)).2 = some msg ∧ Carries msg d.pid d.id := by
  obtain ⟨pid, _, fields, activity, named⟩ := detectedEvent_spec clock d
  refine ⟨bridgeMsg (detectedEvent clock d), ?_, ?_, ?_⟩
  · simp [eventUpdate, activity]
  · simp [bridgeMsg, getField, pid]
  · simp [bridgeMsg, getField, activity, named]

theorem Carries.pid_inj {msg : Json} {pid other : UInt32} {id id' : String}
    (first : Carries msg pid id) (second : Carries msg other id') : other = pid := by
  have same := Option.some.inj (second.1.symm.trans first.1)
  injection same with equal
  exact UInt32.toNat_inj.mp (Int.ofNat.inj equal)

theorem mem_lost {scan : Scan} {s : Scanner} {row : Sigma fun _ : UInt32 => String} :
    row ∈ scan.lost s ↔ row.1 ∉ scan.present ∧ s.active.lookup row.1 = some row.2 := by
  have own : row ∈ scan.lost s ↔ row ∈ (scan.lost s).filter fun other => other.1 = row.1 := by
    simp
  rw [own, lost_filter]
  by_cases present : row.1 ∈ scan.present
  · simp [present]
  · obtain ⟨pid, id⟩ := row
    simp [present, eq_comm]

theorem mem_present {scan : Scan} {pid : UInt32} :
    pid ∈ scan.present ↔ ∃ d ∈ scan.detected, d.pid = pid := List.mem_map

theorem present_iff {scan : Scan} (distinct : (scan.processes.map (·.pid)).Nodup)
    {s after : Scanner} (scanned : scanOnce scan s = some after) {pid : UInt32} :
    pid ∈ scan.present ↔ ∃ id, after.active.lookup pid = some id := by
  rw [mem_present]
  constructor
  · intro assumed
    rcases assumed with ⟨d, member, rfl⟩
    exact ⟨d.id, scanOnce_present distinct scanned member⟩
  · intro assumed
    rcases assumed with ⟨id, tracked⟩
    by_contra absent
    push Not at absent
    rw [scanOnce_absent scanned absent] at tracked
    cases tracked

theorem Monitor.scan_eq {scan : Scan} (distinct : (scan.processes.map (·.pid)).Nodup)
    (m : Monitor) : ∃ scanner, scanOnce scan m.scanner = some scanner ∧
      m.scan scan = some ⟨scanner, (scan.events m.scanner).foldl BridgeState.consume m.bridge⟩ := by
  have scanned := scanOnce_eq scan m.scanner
  refine ⟨_, scanned, ?_⟩
  have sent := scanOnce_log distinct scanned
  rw [Monitor.scan, scanned, Option.bind_eq_bind, Option.bind_some, sent, List.drop_left]
  rfl

def Scan.shown (scan : Scan) (m : Monitor) : Option Json :=
  replay m.bridge.lastMsgs ((scan.events m.scanner).map eventUpdate) 0

theorem shown_lost {scan : Scan} {m : Monitor} (lost : scan.lost m.scanner ≠ []) :
    scan.shown m = none := by
  obtain ⟨init, row, split⟩ := (List.eq_nil_or_concat (scan.lost m.scanner)).resolve_left lost
  unfold Scan.shown Scan.events
  rw [split, List.concat_eq_append, List.map_append (f := lostEvent), ← List.append_assoc,
    List.map_append, replay_append]
  exact replay_singleton _ (eventUpdate (lostEvent row))

theorem shown_quiet {scan : Scan} {m : Monitor} (quiet : scan.events m.scanner = []) :
    scan.shown m = m.bridge.lastMsgs 0 := by
  rw [Scan.shown, quiet]
  rfl

theorem shown_detected {scan : Scan} {m : Monitor} {d : Detection}
    (only : scan.events m.scanner = [detectedEvent scan.clock d]) :
    ∃ msg, scan.shown m = some msg ∧ Carries msg d.pid d.id := by
  obtain ⟨msg, update, carries⟩ := carries_detected scan.clock d
  refine ⟨msg, ?_, carries⟩
  have socketId : (detectedEvent scan.clock d).socketId = 0 :=
    (detectedEvent_spec scan.clock d).2.1
  rw [Scan.shown, only, ← update, ← socketId]
  exact replay_singleton _ (eventUpdate (detectedEvent scan.clock d))

def Pids (before : List UInt32) (active : Active) : Prop :=
  ∀ pid, pid ∈ before ↔ ∃ id, active.lookup pid = some id

section Step

variable {scan : Scan} {m : Monitor} {after : Scanner} {before : List UInt32}

theorem alone_of_mirrors (distinct : (scan.processes.map (·.pid)).Nodup)
    (scanned : scanOnce scan m.scanner = some after) (pids : Pids before m.scanner.active)
    (mirrored : Mirrors (scan.shown m) after.active) : scan.Alone before := by
  intro pid present other both
  obtain ⟨id, current⟩ := (present_iff distinct scanned).mp present
  obtain ⟨msg, shown, carries⟩ := mirrored.tracked pid id current
  have among : other ∈ scan.present → other = pid := by
    intro again
    obtain ⟨id', current'⟩ := (present_iff distinct scanned).mp again
    obtain ⟨msg', shown', carries'⟩ := mirrored.tracked other id' current'
    cases shown.symm.trans shown'
    exact carries.pid_inj carries'
  rcases both with again | earlier
  · exact among again
  · by_contra different
    obtain ⟨id', old⟩ := (pids other).mp earlier
    have gone : (⟨other, id'⟩ : Sigma fun _ : UInt32 => String) ∈ scan.lost m.scanner :=
      mem_lost.mpr ⟨fun again => different (among again), old⟩
    rw [shown_lost (List.ne_nil_of_mem gone)] at shown
    cases shown

theorem shown_idle (idle : scan.detected = []) (mirrors : m.Mirrors) : scan.shown m = none := by
  by_cases lost : scan.lost m.scanner = []
  · have quiet : scan.events m.scanner = [] := by
      rw [Scan.events, idle, lost]
      rfl
    rw [shown_quiet quiet]
    apply Option.eq_none_iff_forall_not_mem.mpr
    intro msg kept
    obtain ⟨pid, id, old, _⟩ := mirrors.known msg kept
    have gone : (⟨pid, id⟩ : Sigma fun _ : UInt32 => String) ∈ scan.lost m.scanner :=
      mem_lost.mpr ⟨by simp [Scan.present, idle], old⟩
    rw [lost] at gone
    cases gone
  · exact shown_lost lost

theorem events_alone (distinct : (scan.processes.map (·.pid)).Nodup)
    (pids : Pids before m.scanner.active) (alone : scan.Alone before) {d : Detection}
    (member : d ∈ scan.detected) : scan.events m.scanner =
      if m.scanner.active.lookup d.pid = some d.id then [] else [detectedEvent scan.clock d] := by
  have present : d.pid ∈ scan.present := mem_present.mpr ⟨d, member, rfl⟩
  have single : scan.detected = [d] := by
    rw [← filter_key (present_nodup distinct) member]
    apply (List.filter_eq_self.mpr _).symm
    intro other listed
    have again : other.pid ∈ scan.present := mem_present.mpr ⟨other, listed, rfl⟩
    exact decide_eq_true (alone d.pid present other.pid (.inl again))
  have kept : scan.lost m.scanner = [] := by
    apply List.eq_nil_iff_forall_not_mem.mpr
    intro row gone
    obtain ⟨missing, old⟩ := mem_lost.mp gone
    have same := alone d.pid present row.1 (.inr ((pids row.1).mpr ⟨row.2, old⟩))
    exact missing (same ▸ present)
  by_cases steady : m.scanner.active.lookup d.pid = some d.id <;>
    simp [Scan.events, single, kept, steady]

theorem mirrors_detected (distinct : (scan.processes.map (·.pid)).Nodup)
    (scanned : scanOnce scan m.scanner = some after) (pids : Pids before m.scanner.active)
    (mirrors : m.Mirrors) (alone : scan.Alone before) {d : Detection}
    (member : d ∈ scan.detected) : Mirrors (scan.shown m) after.active := by
  have present : d.pid ∈ scan.present := mem_present.mpr ⟨d, member, rfl⟩
  have current := scanOnce_present distinct scanned member
  have own {pid : UInt32} {id : String} (active : after.active.lookup pid = some id) :
      pid = d.pid ∧ id = d.id := by
    have again := (present_iff distinct scanned).mpr ⟨id, active⟩
    have same := alone d.pid present pid (.inl again)
    rw [same, current] at active
    exact ⟨same, (Option.some.inj active).symm⟩
  have events := events_alone distinct pids alone member
  by_cases steady : m.scanner.active.lookup d.pid = some d.id
  · rw [if_pos steady] at events
    rw [shown_quiet events]
    constructor
    · intro pid id active
      obtain ⟨rfl, rfl⟩ := own active
      exact mirrors.tracked d.pid d.id steady
    · intro msg shown
      obtain ⟨pid, id, old, named⟩ := mirrors.known msg shown
      have same := alone d.pid present pid (.inr ((pids pid).mpr ⟨id, old⟩))
      subst same
      exact ⟨d.pid, d.id, current, named⟩
  · rw [if_neg steady] at events
    obtain ⟨msg, shown, carries⟩ := shown_detected events
    constructor
    · intro pid id active
      obtain ⟨rfl, rfl⟩ := own active
      exact ⟨msg, shown, carries⟩
    · intro other shown'
      cases shown.symm.trans shown'
      exact ⟨d.pid, d.id, current, carries.1⟩

theorem mirrors_step (distinct : (scan.processes.map (·.pid)).Nodup)
    (scanned : scanOnce scan m.scanner = some after) (pids : Pids before m.scanner.active)
    (mirrors : m.Mirrors) : Mirrors (scan.shown m) after.active ↔ scan.Alone before := by
  constructor
  · exact alone_of_mirrors distinct scanned pids
  · intro alone
    by_cases idle : scan.detected = []
    · have nobody (pid : UInt32) : after.active.lookup pid = none :=
        scanOnce_absent scanned (by simp [idle])
      rw [shown_idle idle mirrors]
      constructor
      · intro pid id current
        rw [nobody pid] at current
        cases current
      · intro msg shown
        cases shown
    · obtain ⟨d, member⟩ := List.exists_mem_of_ne_nil _ idle
      exact mirrors_detected distinct scanned pids mirrors alone member

end Step

theorem mirrors_run {scans : List Scan}
    (distinct : ∀ scan ∈ scans, (scan.processes.map (·.pid)).Nodup) {m : Monitor}
    {before : List UInt32} (pids : Pids before m.scanner.active) (mirrors : m.Mirrors) :
    (∀ n after, Monitor.scanAll (scans.take n) m = some after → after.Mirrors) ↔
      OneGame before scans := by
  induction scans generalizing m before with
  | nil =>
    constructor
    · intro _
      trivial
    · intro _ n after reached
      rw [List.take_nil] at reached
      cases reached
      exact mirrors
  | cons scan rest ih =>
    have own := distinct scan List.mem_cons_self
    have later : ∀ scan ∈ rest, (scan.processes.map (·.pid)).Nodup :=
      fun other member => distinct other (List.mem_cons_of_mem _ member)
    obtain ⟨scanner, scanned, taken⟩ := m.scan_eq own
    have step := mirrors_step own scanned pids mirrors
    have same : (⟨scanner, (scan.events m.scanner).foldl BridgeState.consume m.bridge⟩ :
        Monitor).Mirrors ↔ Mirrors (scan.shown m) scanner.active := by
      rw [Monitor.Mirrors, BridgeState.consume_lastMsgs, Scan.shown]
    have pids' : Pids scan.present scanner.active := fun _ => present_iff own scanned
    have next (n : Nat) : Monitor.scanAll ((scan :: rest).take (n + 1)) m =
        Monitor.scanAll (rest.take n)
          ⟨scanner, (scan.events m.scanner).foldl BridgeState.consume m.bridge⟩ := by
      rw [List.take_succ_cons, Monitor.scanAll, taken]
      rfl
    constructor
    · intro always
      have mirrored := always 1 _ ((next 0).trans rfl)
      constructor
      · exact step.mp (same.mp mirrored)
      · apply (ih later pids' mirrored).mp
        intro n after reached
        exact always (n + 1) after ((next n).trans reached)
    · rintro ⟨alone, others⟩ n after reached
      have mirrored := same.mpr (step.mpr alone)
      cases n with
      | zero =>
        cases reached
        exact mirrors
      | succ n =>
        rw [next] at reached
        exact (ih later pids' mirrored).mpr others n after reached

/-- The snapshot shows every active game, after every scan, exactly when the games run one at a
    time. -/
theorem snapshot_mirrors_iff {scans : List Scan}
    (distinct : ∀ scan ∈ scans, (scan.processes.map (·.pid)).Nodup) :
    (∀ n m, Monitor.scanAll (scans.take n) Monitor.new = some m → m.Mirrors) ↔
      OneGame [] scans := by
  apply mirrors_run distinct
  · intro pid
    constructor
    · intro member
      cases member
    · intro assumed
      rcases assumed with ⟨id, tracked⟩
      cases tracked
  · constructor
    · intro pid id tracked
      cases tracked
    · intro msg shown
      cases shown

theorem snapshot_mirrors_iff_reused :
    (∀ n m, Monitor.scanAll ([shooterRuns, racerReuses].take n) Monitor.new = some m → m.Mirrors) ↔
      OneGame [] [shooterRuns, racerReuses] := by
  have distinct : ∀ scan ∈ [shooterRuns, racerReuses], (scan.processes.map (·.pid)).Nodup := by
    intro scan member
    rcases List.mem_cons.mp member with rfl | last
    · decide
    · rcases List.mem_singleton.mp last with rfl
      decide
  exact snapshot_mirrors_iff distinct

example : shooterRuns.present = [7] := by decide

def bothRun : Scan :=
  scanOf twoGamesDb [⟨7, "/games/shooter.exe", []⟩, ⟨8, "/games/racer.exe", []⟩]

theorem second_game_hides_first :
    (bothRun.processes.map (·.pid)).Nodup ∧ ∃ m, Monitor.scanAll [bothRun] Monitor.new = some m ∧
      m.scanner.active.lookup 7 = some "1" ∧ m.scanner.active.lookup 8 = some "2" ∧ ¬m.Mirrors := by
  have distinct : (bothRun.processes.map (·.pid)).Nodup := by decide
  refine ⟨distinct, ?_⟩
  obtain ⟨scanner, scanned, taken⟩ := Monitor.new.scan_eq distinct
  have first : scanner.active.lookup 7 = some "1" :=
    (scanOnce_active_iff distinct scanned 7 "1").mpr
      ⟨⟨7, "/games/shooter.exe", []⟩, List.mem_cons_self, rfl, "Shooter", by decide⟩
  have second : scanner.active.lookup 8 = some "2" :=
    (scanOnce_active_iff distinct scanned 8 "2").mpr
      ⟨⟨8, "/games/racer.exe", []⟩, List.mem_cons_of_mem _ List.mem_cons_self, rfl, "Racer",
        by decide⟩
  refine ⟨_, by rw [Monitor.scanAll, taken]; rfl, first, second, ?_⟩
  intro mirrors
  obtain ⟨msg, shown, carries⟩ := mirrors.tracked 7 "1" first
  obtain ⟨msg', shown', carries'⟩ := mirrors.tracked 8 "2" second
  cases shown.symm.trans shown'
  exact absurd (carries.pid_inj carries') (by decide)

end Dirpc
