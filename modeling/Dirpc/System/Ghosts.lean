import Dirpc.System.Replies

namespace Dirpc

open Base

namespace World

variable {target : Target} {serde : Serde} {w t : World}

/-- What the events sent so far say about the connections: nothing before a connection is
    registered, and nothing shown for it once it is closed. -/
structure Traces (w : World) : Prop where
  bounded : ∀ event ∈ w.server.activityTx.log, event.socketId ≤ w.allocated
  silent : ∀ c k id, w.conns c = some k → k.socketId = some id → k.pc.isOpening →
    ∀ event ∈ w.server.activityTx.log, event.socketId ≠ id
  cleared : ∀ c k id, w.conns c = some k → k.socketId = some id → k.pc = .closed →
    replay (fun _ => none) (w.server.activityTx.log.map eventUpdate) id = none

theorem traces_new : Traces new := by
  refine ⟨?_, ?_, ?_⟩
  · intro event member
    cases member
  · intro c k id found
    cases found
  · intro c k id found
    cases found

theorem replay_foreign {log : List ActivityEvent} {sent : Option ActivityEvent} {id : Nat}
    (foreign : ∀ event, sent = some event → event.socketId ≠ id) :
    replay (fun _ => none) ((log ++ sent.toList).map eventUpdate) id =
      replay (fun _ => none) (log.map eventUpdate) id := by
  cases sent with
  | none => rw [Option.toList_none, List.append_nil]
  | some event =>
    rw [List.map_append, replay_append]
    exact applyUpdate_of_ne (u := eventUpdate event) _ (Ne.symm (foreign event rfl))

theorem Identities.foreign (ids : Identities target w) {e : WorldEvent} {d id : Nat} {l : Conn}
    (present : w.conns d = some l) (allocated : l.socketId = some id)
    (other : ∀ act, e ≠ .conn d act) (event : ActivityEvent) (sent : w.emitted e = some event) :
    event.socketId ≠ id := by
  rintro rfl
  have range := ids.range d l event.socketId present allocated
  rcases emitted_cases sent with scanner | ⟨c, act, k, rfl, found, own⟩
  · omega
  · have same := ids.distinct c d k l event.socketId found present own allocated
    exact other act (same ▸ rfl)

theorem Traces.own_silent (traces : Traces w) {c id : Nat} {k k' : Conn} {act : Act}
    {server : ServerState} {queues : Nat → Mpsc Json} (found : w.conns c = some k)
    (counter : act = .nextId → w.server.nextSocketId = w.allocated + 1)
    (stepped : k.step target serde w.server w.queues c act = some (server, queues, k'))
    (allocated : k'.socketId = some id) (opening : k'.pc.isOpening) :
    w.emitted (.conn c act) = none ∧ ∀ event ∈ w.server.activityTx.log, event.socketId ≠ id := by
  cases act with
  | nextId =>
    obtain ⟨_, _, _, rfl⟩ := Conn.nextId_cases stepped
    refine ⟨rfl, ?_⟩
    intro event member
    have := traces.bounded event member
    have := counter rfl
    have : w.server.nextSocketId = id := Option.some.inj allocated
    omega
  | sendReady ok =>
    obtain ⟨phase, _, _, rfl⟩ := Conn.sendReady_cases stepped
    cases ok with
    | true => exact ⟨rfl, traces.silent c k id found allocated (by rw [phase]; rfl)⟩
    | false => cases opening
  | registerSocket =>
    obtain ⟨_, _, _, _, _, rfl⟩ := Conn.registerSocket_cases stepped
    cases opening
  | receive item pongOk =>
    obtain ⟨outcome, phase, _, _, _, rfl⟩ := Conn.receive_cases stepped
    cases outcome <;> simp [Conn.receive, phase, Pc.isOpening] at opening
  | handleMessage now =>
    obtain ⟨msg, id', _, _, _, _, rfl⟩ := Conn.handleMessage_cases stepped
    cases effect : (messageEffect now id' k.clientId msg).2 <;>
      simp [effect, Pc.isOpening] at opening
  | sendToSocket =>
    obtain ⟨_, _, _, _, _, _, rfl⟩ := Conn.sendToSocket_cases stepped
    cases opening
  | flush ok =>
    obtain ⟨_, phase, _, _, ⟨_, _, _, _, rfl⟩ | ⟨_, _, _, rfl⟩⟩ := Conn.flush_cases stepped
    · cases ok <;> simp [Conn.write, phase, Pc.isOpening] at opening
    · cases opening
  | unregisterSocket =>
    obtain ⟨_, _, _, _, _, rfl⟩ := Conn.unregisterSocket_cases stepped
    cases opening

theorem Traces.own_cleared (traces : Traces w) {c id : Nat} {k k' : Conn} {act : Act}
    {server : ServerState} {queues : Nat → Mpsc Json} (found : w.conns c = some k)
    (stepped : k.step target serde w.server w.queues c act = some (server, queues, k'))
    (allocated : k'.socketId = some id) (closed : k'.pc = .closed) :
    replay (fun _ => none)
      ((w.server.activityTx.log ++ (w.emitted (.conn c act)).toList).map eventUpdate) id = none := by
  cases act with
  | nextId =>
    obtain ⟨_, _, _, rfl⟩ := Conn.nextId_cases stepped
    cases closed
  | sendReady ok =>
    obtain ⟨phase, _, _, rfl⟩ := Conn.sendReady_cases stepped
    cases ok with
    | true => cases closed
    | false =>
      have silent := traces.silent c k id found allocated (by rw [phase]; rfl)
      have quiet : w.emitted (.conn c (.sendReady false)) = none := rfl
      rw [quiet, Option.toList_none, List.append_nil]
      apply replay_of_untouched
      intro update member
      obtain ⟨event, sent, rfl⟩ := List.mem_map.mp member
      exact silent event sent
  | registerSocket =>
    obtain ⟨_, _, _, _, _, rfl⟩ := Conn.registerSocket_cases stepped
    cases closed
  | receive item pongOk =>
    obtain ⟨outcome, phase, _, _, _, rfl⟩ := Conn.receive_cases stepped
    cases outcome <;> simp [Conn.receive, phase] at closed
  | handleMessage now =>
    obtain ⟨msg, id', _, _, _, _, rfl⟩ := Conn.handleMessage_cases stepped
    cases effect : (messageEffect now id' k.clientId msg).2 <;> simp [effect] at closed
  | sendToSocket =>
    obtain ⟨_, _, _, _, _, _, rfl⟩ := Conn.sendToSocket_cases stepped
    cases closed
  | flush ok =>
    obtain ⟨_, phase, _, _, ⟨_, _, _, _, rfl⟩ | ⟨_, _, _, rfl⟩⟩ := Conn.flush_cases stepped
    · cases ok <;> simp [Conn.write, phase] at closed
    · cases closed
  | unregisterSocket =>
    obtain ⟨_, _, _, _, _, rfl⟩ := Conn.unregisterSocket_cases stepped
    have sent : w.emitted (.conn c .unregisterSocket) = some ⟨none, none, id⟩ := by
      change k.socketId = some id at allocated
      simp [emitted, found, allocated]
    rw [sent, Option.toList_some, List.map_append, replay_append]
    exact applyUpdate_self _ (eventUpdate ⟨none, none, id⟩)

theorem Traces.step {e : WorldEvent} (traces : Traces w) (ids : Identities target w)
    (bound : t.allocated < target.idRange) (taken : w.step target serde e = some t) :
    Traces t := by
  have log := step_log taken
  have counter : ∀ c, e = .conn c .nextId → w.server.nextSocketId = w.allocated + 1 := by
    rintro c rfl
    obtain ⟨_, _, _, _, _, _, rfl⟩ := conn_cases taken
    exact ids.counter.trans (Nat.mod_eq_of_lt bound)
  refine ⟨?_, ?_, ?_⟩
  · intro event member
    have mono := allocated_mono taken
    rw [log, List.mem_append, Option.mem_toList] at member
    rcases member with before | sent
    · exact (traces.bounded event before).trans mono
    · rcases emitted_cases sent with scanner | ⟨c, _, k, _, found, own⟩
      · omega
      · have := ids.range c k event.socketId found own
        omega
  · intro d l id present allocated opening event member
    rw [log, List.mem_append, Option.mem_toList] at member
    rcases conns_cases taken present with fresh | ⟨act, k, server, queues, rfl, found, stepped⟩ |
        ⟨before, other⟩
    · rw [fresh] at allocated
      cases allocated
    · obtain ⟨quiet, silent⟩ := traces.own_silent found (fun same => counter d (same ▸ rfl))
        stepped allocated opening
      rcases member with member | sent
      · exact silent event member
      · rw [quiet] at sent
        cases sent
    · rcases member with member | sent
      · exact traces.silent d l id before allocated opening event member
      · exact ids.foreign before allocated other event sent
  · intro d l id present allocated closed
    rw [log]
    rcases conns_cases taken present with fresh | ⟨act, k, server, queues, rfl, found, stepped⟩ |
        ⟨before, other⟩
    · rw [fresh] at allocated
      cases allocated
    · exact traces.own_cleared found stepped allocated closed
    · rw [replay_foreign (ids.foreign before allocated other)]
      exact traces.cleared d l id before allocated closed

theorem traces_of_run {es : List WorldEvent} (reached : run (step target serde) new es = some w)
    (bound : w.allocated < target.idRange) : Traces w := by
  have keeps : ∀ u e v,
      (u.allocated < target.idRange → Identities target u ∧ Traces u) →
      step target serde u e = some v → v.allocated < target.idRange →
      Identities target v ∧ Traces v := by
    intro u e v kept taken later
    have := allocated_mono taken
    obtain ⟨ids, traces⟩ := kept (by omega)
    exact ⟨ids.step later taken, traces.step ids later taken⟩
  exact (run_invariant keeps (fun _ => ⟨identities_new target, traces_new⟩) reached bound).2

/-- What the step broadcasts pushes nothing out of the channel that the feed still needs. -/
def NoLoss (w : World) (e : WorldEvent) : Prop :=
  ∀ event, w.emitted e = some event →
    Spares eventUpdate w.server.activityTx w.bridge.feedNext w.bridge.lastMsgs event

theorem follows_broadcast {e : WorldEvent} (follows : w.bridge.Follows w.server.activityTx)
    (noLoss : NoLoss w e) (taken : w.step target serde e = some t) (same : t.bridge = w.bridge) :
    t.bridge.Follows t.server.activityTx := by
  rw [same, step_activityTx taken]
  cases sent : w.emitted e with
  | none => exact follows
  | some event => exact follows.send (noLoss event sent)

theorem follows_step {e : WorldEvent} (follows : w.bridge.Follows w.server.activityTx)
    (noLoss : NoLoss w e) (taken : w.step target serde e = some t) :
    t.bridge.Follows t.server.activityTx := by
  cases e with
  | feedRecv =>
    obtain ⟨b, received, rfl⟩ := Option.map_eq_some_iff.mp taken
    exact follows.feedRecv received
  | feedSend =>
    obtain ⟨b, waiting, rfl⟩ := Option.map_eq_some_iff.mp taken
    exact follows.feedSend waiting
  | accept =>
    obtain ⟨_, rfl⟩ := accept_cases taken
    exact follows
  | scan =>
    exact follows_broadcast follows noLoss taken (by cases taken; rfl)
  | conn =>
    obtain ⟨_, _, _, _, _, _, same⟩ := conn_cases taken
    exact follows_broadcast follows noLoss taken (by rw [same]; rfl)

theorem no_ghost_without_loss {es : List WorldEvent}
    (reached : run (step target serde) new es = some w)
    (noLoss : Meets (step target serde) NoLoss new es)
    (drained : w.bridge.feedNext = w.server.activityTx.log.length) :
    (∀ id, w.bridge.lastMsgs id = (lastEvent id w.server.activityTx.log).bind fun event =>
      event.activity.map fun _ => bridgeMsg event) ∧
      (w.allocated < target.idRange → ∀ c k id, w.conns c = some k → k.socketId = some id →
        k.pc = .closed → w.bridge.lastMsgs id = none) := by
  have follows : w.bridge.Follows w.server.activityTx :=
    run_invariant_of_meets (fun _ _ _ => follows_step) noLoss (BridgeState.follows_new rfl) reached
  have recorded := follows.drained drained
  refine ⟨?_, ?_⟩
  · intro id
    rw [recorded, replay_eventUpdate]
  · intro bound c k id found allocated closed
    rw [recorded]
    exact (traces_of_run reached bound).cleared c k id found allocated closed

theorem meets_noLoss_of_short {es : List WorldEvent}
    (short : w.server.activityTx.log.length + es.length ≤ w.server.activityTx.capacity) :
    Meets (step target serde) NoLoss w es := by
  induction es generalizing w with
  | nil => trivial
  | cons e es ih =>
    rw [List.length_cons] at short
    refine ⟨?_, ?_⟩
    · intro event _ lost full
      omega
    · intro t taken
      have length := congrArg List.length (step_log taken)
      rw [List.length_append, Option.length_toList] at length
      have capacity : t.server.activityTx.capacity = w.server.activityTx.capacity := by
        rw [step_activityTx taken]
        cases w.emitted e <;> rfl
      apply ih
      rw [capacity]
      split at length <;> omega

def drain : Nat → List WorldEvent
  | 0 => []
  | n + 1 => .feedRecv :: .feedSend :: drain n

theorem drain_run (target : Target) (serde : Serde) {n : Nat} (idle : w.bridge.outgoing = none)
    (fresh : w.server.activityTx.oldest ≤ w.bridge.feedNext)
    (remaining : w.bridge.feedNext + n = w.server.activityTx.log.length) :
    ∃ t, run (step target serde) w (drain n) = some t ∧ t.server = w.server ∧ t.conns = w.conns ∧
      t.bridge.feedNext = w.server.activityTx.log.length ∧
      t.bridge.lastMsgs = replay w.bridge.lastMsgs
        ((w.server.activityTx.log.drop w.bridge.feedNext).map eventUpdate) := by
  induction n generalizing w with
  | zero =>
    refine ⟨w, rfl, rfl, rfl, remaining, ?_⟩
    rw [List.drop_eq_nil_of_le (by omega)]
    rfl
  | succ n ih =>
    have inside : w.bridge.feedNext < w.server.activityTx.log.length := by omega
    have found := List.getElem?_eq_getElem inside
    let event := w.server.activityTx.log[w.bridge.feedNext]
    let recorded := { w.bridge with feedNext := w.bridge.feedNext + 1 }.record event
    have first : w.step target serde .feedRecv = some { w with bridge := recorded } := by
      rw [step, BridgeState.feedRecv_next idle fresh found]
      rfl
    have after : w.bridge.feedNext + 1 + n = w.server.activityTx.log.length := by omega
    obtain ⟨t, rest, server, conns, next, store⟩ := ih
      (w := { w with bridge := { recorded with
        tx := w.bridge.tx.send (bridgeMsg event), outgoing := none } }) rfl
      (Nat.le_succ_of_le fresh) after
    refine ⟨t, ?_, server, conns, next, ?_⟩
    · rw [drain, run_cons_eq_some]
      exact ⟨_, first, run_cons_eq_some.mpr ⟨_, rfl, rest⟩⟩
    · rw [store, drop_eq_cons found, List.map_cons, replay_cons]
      change replay recorded.lastMsgs _ = _
      rw [BridgeState.record_lastMsgs]
      rfl

theorem Serving.burst (target : Target) (now : Nat → Int) {serde : Serde} {item : Inbound}
    {msg : RpcMessage} {event : ActivityEvent} {resp : Json} {n c id : Nat} {k : Conn}
    (serving : Serving w c k id) (decoded : item.outcome serde k.transport = some (.message msg))
    (effect : messageEffect now id k.clientId msg = (some event, some resp)) :
    ∃ t, run (step target serde) w (World.answers c item now n) = some t ∧
      t.server.activityTx.log = w.server.activityTx.log ++ List.replicate n event ∧
      t.server.activityTx.capacity = w.server.activityTx.capacity ∧ t.bridge = w.bridge ∧
      ∀ d, d ≠ c → t.conns d = w.conns d := by
  induction n generalizing w k with
  | zero => exact ⟨w, rfl, by simp, rfl, rfl, fun _ _ => rfl⟩
  | succ n ih =>
    obtain ⟨t, k₁, taken, serving₁, transport, clientId, _, _, _, server, bridge, others⟩ :=
      serving.answer target now decoded effect
    obtain ⟨u, rest, log, capacity, bridge', others'⟩ :=
      ih serving₁ (transport ▸ decoded) (clientId ▸ effect)
    refine ⟨u, run_append_eq_some.mpr ⟨t, taken, rest⟩, ?_, ?_, bridge'.trans bridge, ?_⟩
    · rw [log, server, List.replicate_succ]
      exact List.append_assoc ..
    · rw [capacity, server]
      rfl
    · intro d other
      rw [others' d other, others d other]

end World

def activityText : List UInt8 :=
  utf8 "\x7b\"cmd\":\"SET_ACTIVITY\",\"args\":\x7b\"activity\":\x7b\x7d\x7d\x7d"

def activityMessage : RpcMessage :=
  { cmd := "SET_ACTIVITY", args := some (.obj [("activity", .obj [])]) }

def activitySerde : Serde := .table [] [(activityText, activityMessage)]

namespace World

def shownThenClosed : List WorldEvent :=
  opening 0 .webSocket ++ opening 1 .webSocket ++
    answer 0 (.webSocket (.text activityText)) (fun _ => 0) ++ drain 1 ++
    [.conn 0 (.receive (.webSocket .close) true), .conn 0 .unregisterSocket]

theorem no_ghost_without_loss_closed : ∃ w,
    run (step .ptr64 activitySerde) new (shownThenClosed ++ drain 1) = some w ∧
      Meets (step .ptr64 activitySerde) NoLoss new (shownThenClosed ++ drain 1) ∧
      w.bridge.feedNext = w.server.activityTx.log.length ∧ w.bridge.lastMsgs 1 = none := by
  have reached : run (step .ptr64 activitySerde) new (shownThenClosed ++ drain 1) = some _ := rfl
  have noLoss : Meets (step .ptr64 activitySerde) NoLoss new (shownThenClosed ++ drain 1) :=
    meets_noLoss_of_short (by decide)
  exact ⟨_, reached, noLoss, rfl, (no_ghost_without_loss reached noLoss rfl).1 1⟩

theorem shownThenClosed_run : ∃ w k l,
    run (step .ptr64 activitySerde) new shownThenClosed = some w ∧
      w.conns 0 = some k ∧ k.pc = .closed ∧ k.socketId = some 1 ∧
      Serving w 1 l 2 ∧ l.transport = .webSocket ∧ w.bridge.outgoing = none ∧
      w.bridge.feedNext = 1 ∧ w.server.activityTx.log.length = 2 ∧
      w.server.activityTx.capacity = 64 ∧ (w.bridge.lastMsgs 1).isSome ∧
      lastEvent 1 w.server.activityTx.log = some ⟨none, none, 1⟩ := by
  have reached : run (step .ptr64 activitySerde) new shownThenClosed = some _ := rfl
  exact ⟨_, _, _, reached, rfl, rfl, rfl, ⟨rfl, rfl, rfl, rfl, rfl, rfl⟩, rfl, rfl, rfl, rfl, rfl,
    rfl, rfl⟩

/-- The clear of the closed connection is overwritten by 64 activities of the other one before the
    feed reads it. -/
theorem overwritten_clear_leaves_ghost : ∃ es w k,
    run (step .ptr64 activitySerde) new es = some w ∧
      w.bridge.feedNext = w.server.activityTx.log.length ∧ w.conns 0 = some k ∧ k.pc = .closed ∧
      k.socketId = some 1 ∧ lastEvent 1 w.server.activityTx.log = some ⟨none, none, 1⟩ ∧
      w.bridge.lastMsgs 1 ≠ none := by
  obtain ⟨w, k, l, shown, found, closed, allocated, serving, transport, idle, next, length,
    capacity, stored, last⟩ := shownThenClosed_run
  have decoded : Inbound.outcome activitySerde .webSocket (.webSocket (.text activityText)) =
      some (.message activityMessage) := rfl
  let now : Nat → Int := fun _ => 0
  let event := (setActivity now 2 l.clientId activityMessage).1
  have effect : messageEffect now 2 l.clientId activityMessage =
      (some event, some (setActivity now 2 l.clientId activityMessage).2) := rfl
  obtain ⟨w₁, filled, log₁, capacity₁, bridge₁, others₁⟩ :=
    serving.burst .ptr64 now (n := 64) (transport ▸ decoded) effect
  have length₁ : w₁.server.activityTx.log.length = 66 := by
    rw [log₁, List.length_append, length, List.length_replicate]
  have oldest₁ : w₁.server.activityTx.oldest = 2 := by
    rw [Broadcast.oldest, length₁, capacity₁, capacity]
  -- the feed lags: it skips to the oldest retained event, the first of the burst
  have lagged : w₁.step .ptr64 activitySerde .feedRecv =
      some { w₁ with bridge := { w₁.bridge with feedNext := 2 } } := by
    rw [step, BridgeState.feedRecv_behind (by rw [bridge₁, idle])
      (by rw [bridge₁, next, oldest₁]; decide), oldest₁]
    rfl
  obtain ⟨w₂, drained, server₂, conns₂, next₂, store₂⟩ :=
    drain_run .ptr64 activitySerde (n := 64) (w := { w₁ with bridge := { w₁.bridge with
      feedNext := 2 } }) (bridge₁ ▸ idle) (Nat.le_of_eq oldest₁) length₁.symm
  have foreign : ∀ update ∈ (List.replicate 64 event).map eventUpdate, update.1 ≠ 1 := by
    intro update member
    rw [List.map_replicate] at member
    rw [List.eq_of_mem_replicate member]
    exact Nat.succ_ne_self 1
  have retained : w₁.server.activityTx.log.drop 2 = List.replicate 64 event := by
    rw [log₁, ← length, List.drop_left]
  have kept : w₂.bridge.lastMsgs 1 = w.bridge.lastMsgs 1 := by
    rw [store₂]
    change replay w₁.bridge.lastMsgs ((w₁.server.activityTx.log.drop 2).map eventUpdate) 1 = _
    rw [retained, replay_of_untouched _ foreign, bridge₁]
  refine ⟨_, w₂, k, run_append_eq_some.mpr ⟨w, shown, run_append_eq_some.mpr ⟨w₁, filled,
    run_cons_eq_some.mpr ⟨_, lagged, drained⟩⟩⟩, ?_, ?_, closed, allocated, ?_, ?_⟩
  · rw [next₂, server₂]
  · rw [conns₂]
    exact (others₁ 0 (by decide)).trans found
  · rw [server₂]
    change lastEvent 1 w₁.server.activityTx.log = _
    rw [log₁, lastEvent, List.filter_append]
    have none : (List.replicate 64 event).filter (fun event => event.socketId = 1) = [] := by
      rw [List.filter_replicate]
      rfl
    rw [none, List.append_nil]
    exact last
  · rw [kept]
    exact Option.isSome_iff_ne_none.mp stored

end World

end Dirpc
