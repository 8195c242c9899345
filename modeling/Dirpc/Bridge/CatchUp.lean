import Dirpc.Bridge.Client

namespace Dirpc.Bridge

open Base

/-- What holds of the snapshot: a key that was read is as some moment since the subscription left
    it, and nothing is known of the others. -/
def Snapshot (log : List ActivityEvent) (feedNext : Nat) (c : Client) : Prop :=
  ∀ key, (∃ k ∈ c.read, key = toString k ∧ ∃ n, c.start ≤ n ∧ n ≤ feedNext ∧
      view c.snapshot key = replay (fun _ => none) ((log.take n).map viewUpdate) key) ∨
    ((∀ k ∈ c.read, key ≠ toString k) ∧ view c.snapshot key = none)

def Client.Consistent (log : List ActivityEvent) (feedNext : Nat) (sent : List Json) (c : Client) :
    Prop :=
  match c.phase with
  | .connecting => c.read = [] ∧ c.snapshot = []
  | .iterating => c.rx = c.start ∧ c.start ≤ sent.length ∧ Snapshot log feedNext c
  | .streaming => c.start ≤ c.rx ∧ c.rx ≤ sent.length ∧ Snapshot log feedNext c ∧
      (∀ event ∈ log.take c.start, event.socketId ∈ c.read) ∧
      c.delivered = c.snapshot ++ (sent.drop c.start).take (c.rx - c.start)

structure Inv (s : System) : Prop where
  sent : ∀ event ∈ s.activity.log, event.NotNull
  bound : s.bridge.feedNext ≤ s.activity.log.length
  recorded : s.bridge.lastMsgs =
    replay (fun _ => none) ((s.activity.log.take s.bridge.feedNext).map eventUpdate)
  broadcast : s.bridge.tx.log ++ s.bridge.outgoing.toList =
    (s.activity.log.take s.bridge.feedNext).map bridgeMsg
  client : s.client.Consistent s.activity.log s.bridge.feedNext s.bridge.tx.log

theorem inv_new : Inv .new :=
  ⟨by simp [System.new], Nat.zero_le _, rfl, rfl, rfl, rfl⟩

theorem Inv.broadcast_length {s : System} (inv : Inv s) :
    s.bridge.tx.log.length ≤ s.bridge.feedNext := by
  have lengths := congrArg List.length inv.broadcast
  have bound := inv.bound
  simp only [List.length_append, List.length_map, List.length_take] at lengths
  omega

theorem Snapshot.grow {log : List ActivityEvent} {feedNext later : Nat} {c : Client}
    (snapshot : Snapshot log feedNext c) (bound : feedNext ≤ log.length) (ahead : feedNext ≤ later)
    (new : List ActivityEvent) : Snapshot (log ++ new) later c := by
  intro key
  rcases snapshot key with ⟨k, read, same, n, low, high, value⟩ | unread
  · refine .inl ⟨k, read, same, n, low, Nat.le_trans high ahead, ?_⟩
    rw [value, List.take_append_of_le_length (Nat.le_trans high bound)]
  · exact .inr unread

theorem Client.Consistent.grow {log : List ActivityEvent} {feedNext later : Nat} {sent : List Json}
    {c : Client} (consistent : c.Consistent log feedNext sent) (bound : feedNext ≤ log.length)
    (within : sent.length ≤ feedNext) (ahead : feedNext ≤ later) (new : List ActivityEvent)
    (more : List Json) : c.Consistent (log ++ new) later (sent ++ more) := by
  unfold Client.Consistent at consistent ⊢
  split at consistent
  · exact consistent
  · obtain ⟨rx, start, snapshot⟩ := consistent
    refine ⟨rx, ?_, snapshot.grow bound ahead new⟩
    rw [List.length_append]
    omega
  · obtain ⟨low, high, snapshot, covered, delivered⟩ := consistent
    refine ⟨low, ?_, snapshot.grow bound ahead new, ?_, ?_⟩
    · rw [List.length_append]
      omega
    · rw [List.take_append_of_le_length (by omega)]
      exact covered
    · rw [List.drop_append_of_le_length (by omega),
        List.take_append_of_le_length (by rw [List.length_drop]; omega)]
      exact delivered

theorem Inv.emit {s : System} (inv : Inv s) {event : ActivityEvent} (sent : event.NotNull) :
    Inv { s with activity := s.activity.send event } := by
  have prefixed : (s.activity.log ++ [event]).take s.bridge.feedNext =
      s.activity.log.take s.bridge.feedNext := List.take_append_of_le_length inv.bound
  refine ⟨?_, ?_, ?_, ?_, ?_⟩
  · intro other member
    simp only [Broadcast.send_log, List.mem_append, List.mem_singleton] at member
    rcases member with member | rfl
    · exact inv.sent other member
    · exact sent
  · have := inv.bound
    simp only [Broadcast.send_log, List.length_append, List.length_singleton]
    omega
  · rw [Broadcast.send_log, prefixed]
    exact inv.recorded
  · rw [Broadcast.send_log, prefixed]
    exact inv.broadcast
  · have grown := inv.client.grow inv.bound inv.broadcast_length (Nat.le_refl _) [event] []
    rwa [List.append_nil] at grown

theorem Inv.feedRecv {s : System} (inv : Inv s) (noLag : NoLag s .feedRecv) {b : BridgeState}
    (taken : s.bridge.feedRecv s.activity = some b) : Inv { s with bridge := b } := by
  obtain ⟨idle, ⟨event, next, received, rfl⟩ | ⟨missed, next, received, rfl⟩⟩ :=
    BridgeState.feedRecv_cases taken
  · obtain ⟨_, found, rfl⟩ := Broadcast.recv_ok received
    have inside := (List.getElem?_eq_some_iff.mp found).1
    have extended : s.activity.log.take (s.bridge.feedNext + 1) =
        s.activity.log.take s.bridge.feedNext ++ [event] := by
      rw [List.take_add_one, found, Option.toList_some]
    refine ⟨inv.sent, inside, ?_, ?_, ?_⟩
    · rw [BridgeState.record_lastMsgs]
      change applyUpdate s.bridge.lastMsgs (eventUpdate event) =
        replay _ ((s.activity.log.take (s.bridge.feedNext + 1)).map eventUpdate)
      rw [extended, List.map_append, replay_append, ← inv.recorded]
      rfl
    · change s.bridge.tx.log ++ [bridgeMsg event] =
        (s.activity.log.take (s.bridge.feedNext + 1)).map bridgeMsg
      have before := inv.broadcast
      rw [idle, Option.toList_none, List.append_nil] at before
      rw [extended, List.map_append, ← before]
      rfl
    · have grown := inv.client.grow inv.bound inv.broadcast_length (Nat.le_succ _) [] []
      rwa [List.append_nil, List.append_nil] at grown
  · have behind := (Broadcast.recv_lagged received).1
    have : s.activity.oldest ≤ s.bridge.feedNext := noLag
    omega

theorem Inv.feedSend {s : System} (inv : Inv s) {b : BridgeState}
    (taken : s.bridge.feedSend = some b) : Inv { s with bridge := b } := by
  obtain ⟨json, waiting, rfl⟩ := Option.map_eq_some_iff.mp taken
  refine ⟨inv.sent, inv.bound, inv.recorded, ?_, ?_⟩
  · have before := inv.broadcast
    rw [waiting] at before
    rw [← before]
    simp
  · have grown := inv.client.grow inv.bound inv.broadcast_length (Nat.le_refl _) [] [json]
    rwa [List.append_nil] at grown

theorem Inv.stored {s : System} (inv : Inv s) {key : Nat} {msg : Json}
    (stored : s.bridge.lastMsgs key = some msg) : msgUpdate msg = some (toString key, some msg) := by
  rw [inv.recorded] at stored
  obtain ⟨event, member, update⟩ := List.mem_map.mp (mem_of_replay stored)
  have server := inv.sent event (List.mem_of_mem_take member)
  rw [eventUpdate, Prod.mk.injEq, Option.map_eq_some_iff] at update
  obtain ⟨rfl, activity, present, rfl⟩ := update
  rw [msgUpdate_bridgeMsg server, viewUpdate, present]
  rfl

theorem Inv.subscribe {s : System} (inv : Inv s) (connecting : s.client.phase = .connecting) :
    Inv { s with client := { s.client with
      phase := .iterating, start := s.bridge.tx.log.length, rx := s.bridge.tx.log.length } } := by
  have client := inv.client
  rw [Client.Consistent, connecting] at client
  refine ⟨inv.sent, inv.bound, inv.recorded, inv.broadcast, rfl, Nat.le_refl _, ?_⟩
  intro key
  refine .inr ⟨?_, ?_⟩
  · simp [client.1]
  · simp [client.2, view]

theorem Inv.readKey {s : System} (inv : Inv s) {k : Nat} (iterating : s.client.phase = .iterating)
    (unread : k ∉ s.client.read) :
    Inv { s with client := { s.client with
      read := k :: s.client.read
      snapshot := s.client.snapshot ++ (s.bridge.lastMsgs k).toList } } := by
  have client := inv.client
  rw [Client.Consistent, iterating] at client
  obtain ⟨rx, start, snapshot⟩ := client
  have within := inv.broadcast_length
  -- the message read, seen as the client will apply it
  have added : view (s.client.snapshot ++ (s.bridge.lastMsgs k).toList) =
      applyUpdate (view s.client.snapshot) (toString k, s.bridge.lastMsgs k) := by
    have absent : view s.client.snapshot (toString k) = none := by
      rcases snapshot (toString k) with ⟨j, read, same, _⟩ | ⟨_, absent⟩
      · exact absurd (toString_injective same ▸ read) unread
      · exact absent
    rw [view_append]
    cases stored : s.bridge.lastMsgs k with
    | none =>
      rw [applyUpdate_idle _ absent]
      rfl
    | some msg => simp [inv.stored stored]
  refine ⟨inv.sent, inv.bound, inv.recorded, inv.broadcast, ?_⟩
  rw [Client.Consistent]
  simp only [iterating]
  refine ⟨rx, start, ?_⟩
  intro key
  by_cases same : key = toString k
  · refine .inl ⟨k, by simp, same, s.bridge.feedNext, by simp only; omega, Nat.le_refl _, ?_⟩
    simp only [added, same]
    rw [replay_viewUpdate, ← inv.recorded]
    exact applyUpdate_self (view s.client.snapshot) (toString k, s.bridge.lastMsgs k)
  · have kept : applyUpdate (view s.client.snapshot) (toString k, s.bridge.lastMsgs k) key =
        view s.client.snapshot key := applyUpdate_of_ne (u := (toString k, _)) _ same
    simp only [added, kept, List.mem_cons]
    rcases snapshot key with ⟨j, read, rest⟩ | ⟨others, absent⟩
    · exact .inl ⟨j, .inr read, rest⟩
    · refine .inr ⟨?_, absent⟩
      rintro j (rfl | member)
      · exact same
      · exact others j member

theorem Inv.sendSnapshot {s : System} (inv : Inv s) (iterating : s.client.phase = .iterating)
    (all : ∀ event ∈ s.activity.log, event.socketId ∈ s.client.read) :
    Inv { s with client := { s.client with
      phase := .streaming, delivered := s.client.snapshot } } := by
  have client := inv.client
  rw [Client.Consistent, iterating] at client
  obtain ⟨rx, start, snapshot⟩ := client
  refine ⟨inv.sent, inv.bound, inv.recorded, inv.broadcast, ?_⟩
  refine ⟨Nat.le_of_eq rx.symm, rx ▸ start, snapshot, ?_, ?_⟩
  · exact fun event member => all event (List.mem_of_mem_take member)
  · simp [rx]

theorem Inv.forward {s : System} (inv : Inv s) (streaming : s.client.phase = .streaming)
    {payload : Json} {next : Nat}
    (received : s.bridge.tx.recv s.client.rx = (.ok payload, next)) :
    Inv { s with client := { s.client with
      rx := next, delivered := s.client.delivered ++ [payload] } } := by
  have client := inv.client
  rw [Client.Consistent, streaming] at client
  obtain ⟨low, high, snapshot, covered, delivered⟩ := client
  obtain ⟨_, found, rfl⟩ := Broadcast.recv_ok received
  have inside := (List.getElem?_eq_some_iff.mp found).1
  refine ⟨inv.sent, inv.bound, inv.recorded, inv.broadcast, ?_⟩
  rw [Client.Consistent]
  simp only [streaming]
  refine ⟨by omega, inside, snapshot, covered, ?_⟩
  have next : s.client.rx + 1 - s.client.start = s.client.rx - s.client.start + 1 := by omega
  have position : s.client.start + (s.client.rx - s.client.start) = s.client.rx := by omega
  rw [delivered, next, List.take_add_one, List.getElem?_drop, position, found,
    Option.toList_some, List.append_assoc]

theorem Inv.step {s t : System} {e : Event} (inv : Inv s)
    (proper : NoLag s e ∧ ∀ event, e = .emit event → event.NotNull)
    (taken : s.step e = some t) : Inv t := by
  obtain ⟨noLag, sent⟩ := proper
  cases e with
  | emit event =>
    cases taken
    exact inv.emit (sent event rfl)
  | feedRecv =>
    obtain ⟨b, received, rfl⟩ := Option.map_eq_some_iff.mp taken
    exact inv.feedRecv noLag received
  | feedSend =>
    obtain ⟨b, waiting, rfl⟩ := Option.map_eq_some_iff.mp taken
    exact inv.feedSend waiting
  | subscribe =>
    simp only [System.step, Client.step, Option.map_eq_some_iff,
      Option.ite_none_right_eq_some, Option.some.injEq] at taken
    obtain ⟨c, ⟨phase, rfl⟩, rfl⟩ := taken
    exact inv.subscribe phase
  | readKey k =>
    simp only [System.step, Client.step, Option.map_eq_some_iff,
      Option.ite_none_right_eq_some, Option.some.injEq] at taken
    obtain ⟨c, ⟨⟨phase, unread⟩, rfl⟩, rfl⟩ := taken
    exact inv.readKey phase unread
  | sendSnapshot =>
    simp only [System.step, Client.step, Option.map_eq_some_iff,
      Option.ite_none_right_eq_some, Option.some.injEq] at taken
    obtain ⟨c, ⟨⟨phase, all⟩, rfl⟩, rfl⟩ := taken
    exact inv.sendSnapshot phase all
  | forward =>
    simp only [System.step, Client.step, Option.map_eq_some_iff,
      Option.ite_none_right_eq_some] at taken
    obtain ⟨c, ⟨phase, received⟩, rfl⟩ := taken
    split at received
    · rename_i payload next received'
      cases received
      exact inv.forward phase received'
    · rename_i missed next received'
      have behind := (Broadcast.recv_lagged received').1
      have : s.bridge.tx.oldest ≤ s.client.rx := noLag
      omega
    · cases received

theorem Inv.view_delivered {s : System} (inv : Inv s)
    (processed : s.bridge.feedNext = s.activity.log.length ∧ s.bridge.outgoing = none)
    (drained : s.client.phase = .streaming ∧ s.client.rx = s.bridge.tx.log.length) :
    view s.client.delivered = replay (fun _ => none) (s.activity.log.map viewUpdate) := by
  have client := inv.client
  rw [Client.Consistent, drained.1] at client
  obtain ⟨low, high, snapshot, covered, delivered⟩ := client
  have broadcast : s.bridge.tx.log = s.activity.log.map bridgeMsg := by
    have := inv.broadcast
    rwa [processed.2, Option.toList_none, List.append_nil, processed.1, List.take_length] at this
  have streamed : (s.bridge.tx.log.drop s.client.start).take (s.client.rx - s.client.start) =
      (s.activity.log.drop s.client.start).map bridgeMsg := by
    rw [List.take_of_length_le (by rw [List.length_drop, drained.2]), broadcast, List.map_drop]
  rw [delivered, streamed, view_append,
    filterMap_bridgeMsg fun event member => inv.sent event (List.mem_of_mem_drop member),
    List.map_drop]
  apply replay_catch_up
  intro key
  rcases snapshot key with ⟨_, _, _, n, bound, _, value⟩ | ⟨unread, absent⟩
  · exact .inl ⟨n, bound, by rw [value, List.map_take]⟩
  · refine .inr ⟨absent, ?_⟩
    intro update member same
    rw [← List.map_take] at member
    obtain ⟨event, early, rfl⟩ := List.mem_map.mp member
    exact unread event.socketId (covered event early) same.symm

theorem late_client_converges {es : List Event} {s : System}
    (reached : run System.step .new es = some s) (noLag : Meets System.step NoLag .new es)
    (sent : ∀ event, .emit event ∈ es → event.NotNull)
    (processed : s.bridge.feedNext = s.activity.log.length ∧ s.bridge.outgoing = none)
    (drained : s.client.phase = .streaming ∧ s.client.rx = s.bridge.tx.log.length) :
    (∀ key, view s.client.delivered (toString key) = s.bridge.lastMsgs key) ∧
      (∀ name msg, view s.client.delivered name = some msg → ∃ key : Nat, name = toString key) ∧
      s.bridge.lastMsgs = replay (fun _ => none) (s.activity.log.map eventUpdate) := by
  have notNull : Meets System.step (fun _ e => ∀ event, e = .emit event → event.NotNull) .new es :=
    meets_of_forall fun _ e member event same => sent event (same ▸ member)
  have proper := noLag.and notNull
  have inv := run_invariant_of_meets (fun _ _ _ kept => kept.step) proper inv_new reached
  have viewed := inv.view_delivered processed drained
  have recorded := inv.recorded
  rw [processed.1, List.take_length] at recorded
  refine ⟨?_, ?_, recorded⟩
  · intro key
    rw [viewed, replay_viewUpdate, recorded]
  · intro name msg shown
    rw [viewed] at shown
    obtain ⟨event, _, update⟩ := List.mem_map.mp (mem_of_replay shown)
    exact ⟨event.socketId, (congrArg Prod.fst update).symm⟩

theorem System.step_lengths {s t : System} {e : Event} (taken : s.step e = some t) :
    (t.activity.capacity = s.activity.capacity ∧
      t.activity.log.length ≤ s.activity.log.length + 1) ∧
    t.bridge.tx.capacity = s.bridge.tx.capacity ∧
      t.bridge.tx.log.length ≤ s.bridge.tx.log.length + 1 := by
  cases e with
  | emit event =>
    cases taken
    exact ⟨⟨rfl, by simp⟩, rfl, Nat.le_succ _⟩
  | feedRecv =>
    obtain ⟨b, received, rfl⟩ := Option.map_eq_some_iff.mp taken
    obtain ⟨_, ⟨_, _, _, rfl⟩ | ⟨_, _, _, rfl⟩⟩ := BridgeState.feedRecv_cases received
    · exact ⟨⟨rfl, Nat.le_succ _⟩, rfl, Nat.le_succ _⟩
    · exact ⟨⟨rfl, Nat.le_succ _⟩, rfl, Nat.le_succ _⟩
  | feedSend =>
    obtain ⟨b, waiting, rfl⟩ := Option.map_eq_some_iff.mp taken
    obtain ⟨json, _, rfl⟩ := Option.map_eq_some_iff.mp waiting
    exact ⟨⟨rfl, Nat.le_succ _⟩, rfl, by simp⟩
  | _ =>
    obtain ⟨c, _, rfl⟩ := Option.map_eq_some_iff.mp taken
    exact ⟨⟨rfl, Nat.le_succ _⟩, rfl, Nat.le_succ _⟩

theorem meets_noLag_of_short {s : System} {es : List Event}
    (activity : s.activity.log.length + es.length ≤ s.activity.capacity)
    (tx : s.bridge.tx.log.length + es.length ≤ s.bridge.tx.capacity) :
    Meets System.step NoLag s es := by
  induction es generalizing s with
  | nil => trivial
  | cons e es ih =>
    rw [List.length_cons] at activity tx
    refine ⟨?_, ?_⟩
    · unfold NoLag Broadcast.oldest
      split
      · omega
      · omega
      · trivial
    · intro t taken
      obtain ⟨⟨capacity, length⟩, capacity', length'⟩ := System.step_lengths taken
      exact ih (by omega) (by omega)

def lateClient : List Event :=
  [.emit ⟨some (.obj []), some 7, 1⟩, .feedRecv, .subscribe, .feedSend, .readKey 1,
    .emit ⟨none, none, 1⟩, .feedRecv, .readKey 2, .feedSend, .emit ⟨some (.obj []), none, 2⟩,
    .feedRecv, .sendSnapshot, .feedSend, .forward, .forward, .forward]

theorem late_client_converges_late : ∃ s, run System.step .new lateClient = some s ∧
    (∀ key, view s.client.delivered (toString key) = s.bridge.lastMsgs key) ∧
      s.bridge.lastMsgs 1 = none ∧ (s.bridge.lastMsgs 2).isSome := by
  have reached : run System.step .new lateClient = some _ := rfl
  have noLag : Meets System.step NoLag .new lateClient :=
    meets_noLag_of_short (by decide) (by decide)
  have sent : ∀ event, .emit event ∈ lateClient → event.NotNull := by
    intro event member
    simp only [lateClient, List.mem_cons, Event.emit.injEq, reduceCtorEq, false_or, or_false,
      List.not_mem_nil] at member
    rcases member with rfl | rfl | rfl
    · exact nofun
    · exact nofun
    · exact nofun
  exact ⟨_, reached, (late_client_converges reached noLag sent ⟨rfl, rfl⟩ ⟨rfl, rfl⟩).1, rfl, rfl⟩

/-- The feed keeps a message whose activity is the JSON null, and its reader takes it for a cleared
    one. -/
theorem null_activity_diverges : ∃ es s, run System.step .new es = some s ∧
    Meets System.step NoLag .new es ∧
    s.bridge.feedNext = s.activity.log.length ∧ s.bridge.outgoing = none ∧
    s.client.phase = .streaming ∧ s.client.rx = s.bridge.tx.log.length ∧
    view s.client.delivered (toString 1) = none ∧ (s.bridge.lastMsgs 1).isSome := by
  have noLag : Meets System.step NoLag .new [.emit ⟨some .null, none, 1⟩, .feedRecv, .feedSend,
      .subscribe, .readKey 1, .sendSnapshot] := meets_noLag_of_short (by decide) (by decide)
  exact ⟨_, _, rfl, noLag, rfl, rfl, rfl, rfl, by decide, rfl⟩

end Dirpc.Bridge
