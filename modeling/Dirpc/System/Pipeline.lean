import Dirpc.Bridge.Following
import Dirpc.System.Ghosts

namespace Dirpc

open Base Bridge

structure Pipeline where
  world : World
  clients : Nat → Option ClientTask

inductive PipelineEvent where
  | world (e : WorldEvent)
  | connect (c : Nat)
  | client (c : Nat) (act : ClientAct)

namespace World

variable {target : Target} {serde : Serde} {w t : World}

theorem emitted_serverSent {e : WorldEvent} {event : ActivityEvent}
    (sent : w.emitted e = some event) : event.ServerSent := by
  cases e with
  | scan clientId now msg => exact messageEffect_serverSent sent
  | conn c act =>
    cases act with
    | handleMessage now =>
      obtain ⟨k, _, rest⟩ := Option.bind_eq_some_iff.mp sent
      split at rest
      · exact messageEffect_serverSent rest
      · cases rest
    | unregisterSocket =>
      obtain ⟨k, _, rest⟩ := Option.bind_eq_some_iff.mp sent
      obtain ⟨id, _, rfl⟩ := Option.map_eq_some_iff.mp rest
      exact .inl rfl
    | _ => cases sent
  | _ => cases sent

theorem step_bridge {e : WorldEvent} (taken : w.step target serde e = some t) :
    (t.bridge = w.bridge ∧ e ≠ .feedSend) ∨
      (∃ b, w.bridge.feedRecv w.server.activityTx = some b ∧ e = .feedRecv ∧
        t = { w with bridge := b }) ∨
      ∃ b, w.bridge.feedSend = some b ∧ e = .feedSend ∧ t = { w with bridge := b } := by
  cases e with
  | accept =>
    obtain ⟨_, rfl⟩ := accept_cases taken
    exact .inl ⟨rfl, nofun⟩
  | scan =>
    cases taken
    exact .inl ⟨rfl, nofun⟩
  | conn =>
    obtain ⟨_, _, _, _, _, _, rfl⟩ := conn_cases taken
    exact .inl ⟨rfl, nofun⟩
  | feedRecv =>
    obtain ⟨b, received, rfl⟩ := Option.map_eq_some_iff.mp taken
    exact .inr (.inl ⟨b, received, rfl, rfl⟩)
  | feedSend =>
    obtain ⟨b, waiting, rfl⟩ := Option.map_eq_some_iff.mp taken
    exact .inr (.inr ⟨b, waiting, rfl, rfl⟩)

theorem step_lengths {e : WorldEvent} (taken : w.step target serde e = some t) :
    (t.server.activityTx.capacity = w.server.activityTx.capacity ∧
      t.server.activityTx.log.length ≤ w.server.activityTx.log.length + 1) ∧
    t.bridge.tx.capacity = w.bridge.tx.capacity ∧
      t.bridge.tx.log.length ≤ w.bridge.tx.log.length + 1 := by
  refine ⟨⟨?_, ?_⟩, ?_⟩
  · rw [step_activityTx taken]
    cases w.emitted e <;> rfl
  · rw [step_log taken, List.length_append, Option.length_toList]
    split <;> omega
  · rcases step_bridge taken with ⟨same, _⟩ | ⟨b, received, _, rfl⟩ | ⟨b, sent, _, rfl⟩
    · rw [same]
      exact ⟨rfl, Nat.le_succ _⟩
    · obtain ⟨_, ⟨_, _, _, rfl⟩ | ⟨_, _, _, rfl⟩⟩ := BridgeState.feedRecv_cases received
      · exact ⟨rfl, Nat.le_succ _⟩
      · exact ⟨rfl, Nat.le_succ _⟩
    · obtain ⟨json, _, rfl⟩ := Option.map_eq_some_iff.mp sent
      exact ⟨rfl, by simp⟩

end World

namespace Pipeline

def new : Pipeline := ⟨.new, fun _ => none⟩

def log (p : Pipeline) : List ActivityEvent := p.world.server.activityTx.log

def setClient (p : Pipeline) (c : Nat) (k : ClientTask) : Pipeline :=
  { p with clients := Function.update p.clients c (some k) }

def step (target : Target) (serde : Serde) (p : Pipeline) : PipelineEvent → Option Pipeline
  | .world e => (p.world.step target serde e).map fun w => { p with world := w }
  | .connect c => match p.clients c with
    | none => some (p.setClient c .new)
    | some _ => none
  | .client c act => (p.clients c).bind fun k =>
    (k.step p.log p.world.bridge act).map (p.setClient c)

variable {target : Target} {serde : Serde} {p q : Pipeline}

theorem world_cases {e : WorldEvent} (taken : p.step target serde (.world e) = some q) :
    ∃ w, p.world.step target serde e = some w ∧ q = { p with world := w } := by
  obtain ⟨w, stepped, rfl⟩ := Option.map_eq_some_iff.mp taken
  exact ⟨w, stepped, rfl⟩

theorem connect_cases {c : Nat} (taken : p.step target serde (.connect c) = some q) :
    p.clients c = none ∧ q = p.setClient c .new := by
  simp only [step] at taken
  split at taken
  · rename_i vacant
    cases taken
    exact ⟨vacant, rfl⟩
  · cases taken

theorem client_cases {c : Nat} {act : ClientAct}
    (taken : p.step target serde (.client c act) = some q) :
    ∃ k k', p.clients c = some k ∧ k.step p.log p.world.bridge act = some k' ∧
      q = p.setClient c k' := by
  obtain ⟨k, found, rest⟩ := Option.bind_eq_some_iff.mp taken
  obtain ⟨k', stepped, rfl⟩ := Option.map_eq_some_iff.mp rest
  exact ⟨k, k', found, stepped, rfl⟩

theorem setClient_eq_some {c d : Nat} {k l : ClientTask}
    (found : (p.setClient c k).clients d = some l) :
    (d = c ∧ l = k) ∨ (d ≠ c ∧ p.clients d = some l) := by
  by_cases same : d = c
  · subst same
    simp only [setClient, Function.update_self] at found
    exact .inl ⟨rfl, (Option.some.inj found).symm⟩
  · simp only [setClient, Function.update_of_ne same] at found
    exact .inr ⟨same, found⟩

theorem world_run {es : List PipelineEvent} (reached : run (step target serde) new es = some p) :
    ∃ fs, run (World.step target serde) .new fs = some p.world := by
  have matched : ∀ p e q (w : World), p.world = w → step target serde p e = some q →
      ∃ fs w', run (World.step target serde) w fs = some w' ∧ q.world = w' := by
    rintro p e q w rfl taken
    cases e with
    | world e =>
      obtain ⟨w, stepped, rfl⟩ := world_cases taken
      exact ⟨[e], w, run_cons_eq_some.mpr ⟨w, stepped, rfl⟩, rfl⟩
    | connect c =>
      obtain ⟨_, rfl⟩ := connect_cases taken
      exact ⟨[], p.world, rfl, rfl⟩
    | client c act =>
      obtain ⟨_, _, _, _, rfl⟩ := client_cases taken
      exact ⟨[], p.world, rfl, rfl⟩
  obtain ⟨fs, w, ran, rfl⟩ := run_simulated matched rfl reached
  exact ⟨fs, ran⟩

/-- What holds in every run: the feed keeps a record of the log, and each client was written some of
    what that stored and then some of what it broadcast. -/
structure Sound (p : Pipeline) : Prop where
  sent : ∀ event ∈ p.log, event.ServerSent
  recorded : p.world.bridge.Recorded p.log
  written : ∀ c k, p.clients c = some k → k.Written p.world.bridge
  stored : ∀ c k, p.clients c = some k → ∀ msg ∈ k.snapshot,
    ∃ event ∈ p.log, event.activity.isSome ∧ msg = bridgeMsg event
  shown : ∀ c k, p.clients c = some k → ∀ msg ∈ k.snapshot, k.Shown p.world.bridge msg

theorem sound_new : new.Sound :=
  ⟨nofun, BridgeState.recorded_new _, nofun, nofun, nofun⟩

theorem Sound.world {e : WorldEvent} {w : World} (sound : p.Sound)
    (taken : p.world.step target serde e = some w) : ({ p with world := w } : Pipeline).Sound := by
  obtain ⟨sent, recorded, written, stored, shown⟩ := sound
  have log : w.server.activityTx.log = p.log ++ (p.world.emitted e).toList :=
    World.step_log taken
  have bridge : w.bridge.Recorded w.server.activityTx.log ∧
      (∃ more, w.bridge.tx.log = p.world.bridge.tx.log ++ more) ∧
        ∃ more, w.bridge.broadcasts = p.world.bridge.broadcasts ++ more := by
    rcases World.step_bridge taken with ⟨same, _⟩ | ⟨b, received, _, rfl⟩ | ⟨b, waiting, _, rfl⟩
    · rw [log, same]
      exact ⟨recorded.grow _, ⟨[], (List.append_nil _).symm⟩, [], (List.append_nil _).symm⟩
    · have notNull : ∀ event ∈ p.log, event.NotNull := fun event member => (sent event member).notNull
      refine ⟨recorded.feedRecv notNull received, ⟨[], ?_⟩,
        BridgeState.feedRecv_broadcasts received⟩
      obtain ⟨_, ⟨_, _, _, rfl⟩ | ⟨_, _, _, rfl⟩⟩ := BridgeState.feedRecv_cases received
      · exact (List.append_nil _).symm
      · exact (List.append_nil _).symm
    · have same := BridgeState.feedSend_broadcasts waiting
      refine ⟨recorded.feedSend waiting, ?_, [], same.trans (List.append_nil _).symm⟩
      obtain ⟨json, _, rfl⟩ := Option.map_eq_some_iff.mp waiting
      exact ⟨[json], rfl⟩
  obtain ⟨recorded', ⟨more, broadcast⟩, later, grown⟩ := bridge
  refine ⟨?_, recorded', ?_, ?_, ?_⟩
  · intro event member
    change event ∈ w.server.activityTx.log at member
    rw [log, List.mem_append, Option.mem_toList] at member
    rcases member with before | last
    · exact sent event before
    · exact World.emitted_serverSent last
  · intro c k found
    exact (written c k found).grow broadcast
  · intro c k found msg member
    obtain ⟨event, inside, shown⟩ := stored c k found msg member
    refine ⟨event, ?_, shown⟩
    change event ∈ w.server.activityTx.log
    rw [log]
    exact List.mem_append_left _ inside
  · intro c k found msg member
    exact (shown c k found msg member).grow grown

theorem Sound.client {c : Nat} {act : ClientAct} {k k' : ClientTask} (sound : p.Sound)
    (found : p.clients c = some k) (taken : k.step p.log p.world.bridge act = some k') :
    (p.setClient c k').Sound := by
  refine ⟨sound.sent, sound.recorded, ?_, ?_, ?_⟩
  · intro d l present
    rcases setClient_eq_some present with ⟨rfl, rfl⟩ | ⟨_, before⟩
    · exact (sound.written d k found).step taken
    · exact sound.written d l before
  · intro d l present msg member
    rcases setClient_eq_some present with ⟨rfl, rfl⟩ | ⟨_, before⟩
    · rcases ClientTask.step_snapshot taken with same | ⟨id, more⟩
      · exact sound.stored d k found msg (same ▸ member)
      · rw [more, List.mem_append, Option.mem_toList] at member
        rcases member with before | kept
        · exact sound.stored d k found msg before
        · obtain ⟨_, event, inside, _, shown⟩ := sound.recorded.stored kept
          exact ⟨event, inside, shown⟩
    · exact sound.stored d l before msg member
  · intro d l present msg member
    rcases setClient_eq_some present with ⟨rfl, rfl⟩ | ⟨_, before⟩
    · exact ClientTask.Shown.step (sound.written d k found) sound.recorded (sound.shown d k found)
        taken member
    · exact sound.shown d l before msg member

theorem Sound.step {e : PipelineEvent} (sound : p.Sound)
    (taken : p.step target serde e = some q) : q.Sound := by
  cases e with
  | world e =>
    obtain ⟨w, stepped, rfl⟩ := world_cases taken
    exact sound.world stepped
  | connect c =>
    obtain ⟨_, rfl⟩ := connect_cases taken
    refine ⟨sound.sent, sound.recorded, ?_, ?_, ?_⟩
    · intro d l present
      rcases setClient_eq_some present with ⟨_, rfl⟩ | ⟨_, before⟩
      · exact ClientTask.written_new _
      · exact sound.written d l before
    · intro d l present msg member
      rcases setClient_eq_some present with ⟨_, rfl⟩ | ⟨_, before⟩
      · cases member
      · exact sound.stored d l before msg member
    · intro d l present msg member
      rcases setClient_eq_some present with ⟨_, rfl⟩ | ⟨_, before⟩
      · cases member
      · exact sound.shown d l before msg member
  | client c act =>
    obtain ⟨k, k', found, stepped, rfl⟩ := client_cases taken
    exact sound.client found stepped

theorem sound_of_run {es : List PipelineEvent} (reached : run (step target serde) new es = some p) :
    p.Sound := run_invariant (fun _ _ _ sound taken => sound.step taken) sound_new reached

/-- What the step broadcasts costs neither the feed nor client `c` anything. -/
def NoLoss (c : Nat) (p : Pipeline) : PipelineEvent → Prop
  | .world e => p.world.NoLoss e ∧
      (e = .feedSend → ∀ k, p.clients c = some k → k.Spared p.world.bridge)
  | _ => True

structure Kept (c : Nat) (p : Pipeline) : Prop where
  feed : p.world.bridge.Follows p.world.server.activityTx
  client : ∀ k, p.clients c = some k → k.Follows p.world.bridge

theorem kept_new (c : Nat) : new.Kept c := ⟨BridgeState.follows_new rfl, nofun⟩

theorem Kept.step {c : Nat} {e : PipelineEvent} (kept : p.Kept c) (sound : p.Sound)
    (noLoss : p.NoLoss c e) (taken : p.step target serde e = some q) : q.Kept c := by
  cases e with
  | world e =>
    obtain ⟨w, stepped, rfl⟩ := world_cases taken
    obtain ⟨feed, spared⟩ := noLoss
    refine ⟨World.follows_step kept.feed feed stepped, ?_⟩
    intro k found
    rcases World.step_bridge stepped with ⟨same, _⟩ | ⟨b, received, _, rfl⟩ | ⟨b, waiting, rfl, rfl⟩
    · simp only [same]
      exact kept.client k found
    · exact (kept.client k found).feedRecv received
    · exact (kept.client k found).feedSend (spared rfl k found) waiting
  | connect d =>
    obtain ⟨_, rfl⟩ := connect_cases taken
    refine ⟨kept.feed, ?_⟩
    intro k present
    rcases setClient_eq_some present with ⟨_, rfl⟩ | ⟨_, before⟩
    · exact ClientTask.follows_new _
    · exact kept.client k before
  | client d act =>
    obtain ⟨l, l', found, stepped, rfl⟩ := client_cases taken
    refine ⟨kept.feed, ?_⟩
    intro k present
    rcases setClient_eq_some present with ⟨rfl, rfl⟩ | ⟨_, before⟩
    · exact (kept.client l found).step sound.recorded stepped
    · exact kept.client k before

theorem kept_of_run {c : Nat} {es : List PipelineEvent}
    (reached : run (step target serde) new es = some p)
    (noLoss : Meets (step target serde) (NoLoss c) new es) : p.Kept c := by
  have keeps : ∀ (p : Pipeline) e q, p.Sound ∧ p.Kept c → p.NoLoss c e →
      p.step target serde e = some q →
      q.Sound ∧ q.Kept c := by
    intro p e q both noLoss taken
    exact ⟨both.1.step taken, both.2.step both.1 noLoss taken⟩
  exact (run_invariant_of_meets keeps noLoss ⟨sound_new, kept_new c⟩ reached).2

theorem step_lengths {e : PipelineEvent} (taken : p.step target serde e = some q) :
    (q.world.server.activityTx.capacity = p.world.server.activityTx.capacity ∧
      q.log.length ≤ p.log.length + 1) ∧
    q.world.bridge.tx.capacity = p.world.bridge.tx.capacity ∧
      q.world.bridge.tx.log.length ≤ p.world.bridge.tx.log.length + 1 := by
  cases e with
  | world e =>
    obtain ⟨w, stepped, rfl⟩ := world_cases taken
    exact World.step_lengths stepped
  | connect c =>
    obtain ⟨_, rfl⟩ := connect_cases taken
    exact ⟨⟨rfl, Nat.le_succ _⟩, rfl, Nat.le_succ _⟩
  | client c act =>
    obtain ⟨_, _, _, _, rfl⟩ := client_cases taken
    exact ⟨⟨rfl, Nat.le_succ _⟩, rfl, Nat.le_succ _⟩

theorem meets_noLoss_of_short {c : Nat} {es : List PipelineEvent}
    (activity : p.log.length + es.length ≤ p.world.server.activityTx.capacity)
    (tx : p.world.bridge.tx.log.length + es.length ≤ p.world.bridge.tx.capacity) :
    Meets (step target serde) (NoLoss c) p es := by
  induction es generalizing p with
  | nil => trivial
  | cons e es ih =>
    rw [List.length_cons] at activity tx
    refine ⟨?_, ?_⟩
    · cases e with
      | world e =>
        refine ⟨?_, ?_⟩
        · intro event _ lost full
          change p.world.server.activityTx.capacity ≤ p.log.length at full
          omega
        · intro _ k _ json _ key _
          exact SparesKey.of_room (by omega)
      | _ => trivial
    · intro q taken
      obtain ⟨⟨capacity, length⟩, capacity', length'⟩ := step_lengths taken
      exact ih (by omega) (by omega)

/-- What a client has to show of each socket: the message of its last event, when that carries an
    activity. -/
def Shows (k : ClientTask) (log : List ActivityEvent) : Prop :=
  (∀ id : Nat, view k.delivered (toString id) =
      (lastEvent id log).bind fun event => event.activity.map fun _ => bridgeMsg event) ∧
    ∀ name msg, view k.delivered name = some msg → ∃ id : Nat, name = toString id

theorem Kept.shows {c : Nat} {k : ClientTask} (kept : p.Kept c) (sound : p.Sound)
    (processed : p.world.bridge.feedNext = p.log.length ∧ p.world.bridge.outgoing = none)
    (client : p.clients c = some k)
    (drained : k.pc = .serving [] ∧ k.rx = p.world.bridge.tx.log.length) : Shows k p.log := by
  obtain ⟨stored, named⟩ :=
    (kept.client k client).drained sound.recorded processed.2 drained.1 drained.2
  refine ⟨?_, named⟩
  intro id
  rw [stored, kept.feed.drained processed.1, replay_eventUpdate]
  rfl

/-- A client that nothing was lost for shows the last activity of every socket, and nothing of a
    closed connection, once feed and client have read everything. -/
theorem clients_show_last_activities {c : Nat} {es : List PipelineEvent} {k : ClientTask}
    (reached : run (step target serde) new es = some p)
    (noLoss : Meets (step target serde) (NoLoss c) new es)
    (processed : p.world.bridge.feedNext = p.log.length ∧ p.world.bridge.outgoing = none)
    (client : p.clients c = some k)
    (drained : k.pc = .serving [] ∧ k.rx = p.world.bridge.tx.log.length) :
    Shows k p.log ∧ (p.world.allocated < target.idRange → ∀ d conn id,
      p.world.conns d = some conn → conn.socketId = some id → conn.pc = .closed →
        view k.delivered (toString id) = none) := by
  have shown := (kept_of_run reached noLoss).shows (sound_of_run reached) processed client drained
  refine ⟨shown, ?_⟩
  intro bound d conn id found allocated closed
  obtain ⟨fs, ran⟩ := world_run reached
  rw [shown.1, ← replay_eventUpdate]
  exact (World.traces_of_run ran bound).cleared d conn id found allocated closed

def visit : List PipelineEvent :=
  [.connect 5, .client 5 (.handshake true)] ++ World.shownThenClosed.map .world ++
    [.client 5 .subscribe, .client 5 (.readKey 1), .client 5 .collect, .client 5 (.sendItem true)]

def catchUp : List PipelineEvent :=
  [.world .feedRecv, .world .feedSend, .client 5 (.recv true)]

def visited : Pipeline := (run (step .ptr64 activitySerde) new (visit ++ catchUp)).getD new

def visitor : ClientTask := (visited.clients 5).getD .new

theorem clients_show_last_activities_visit :
    run (step .ptr64 activitySerde) new (visit ++ catchUp) = some visited ∧
      visited.clients 5 = some visitor ∧ visitor.delivered.length = 2 ∧
      Shows visitor visited.log ∧ view visitor.delivered (toString 1) = none := by
  have reached : run (step .ptr64 activitySerde) new (visit ++ catchUp) = some visited := rfl
  have noLoss : Meets (step .ptr64 activitySerde) (NoLoss 5) new (visit ++ catchUp) :=
    meets_noLoss_of_short (by decide) (by decide)
  have client : visited.clients 5 = some visitor := rfl
  obtain ⟨shown, closed⟩ :=
    clients_show_last_activities reached noLoss ⟨rfl, rfl⟩ client ⟨rfl, rfl⟩
  exact ⟨reached, client, rfl, shown, closed (by decide) 0 _ 1 rfl rfl rfl⟩

end Pipeline

end Dirpc
