import Dirpc.Bridge.Task

namespace Dirpc

open Base Bridge

/-- The feed has stored and broadcast the events it has received, which are some of the log's. -/
def BridgeState.Recorded (log : List ActivityEvent) (b : BridgeState) : Prop :=
  ∃ events : List ActivityEvent,
    (∀ event ∈ events, event.NotNull) ∧ events.Sublist (log.take b.feedNext) ∧
    b.tx.log ++ b.outgoing.toList = events.map bridgeMsg ∧
    b.lastMsgs = replay (fun _ => none) (events.map eventUpdate)

namespace BridgeState

def broadcasts (b : BridgeState) : List Json := b.tx.log ++ b.outgoing.toList

def history (b : BridgeState) : String → Option Json := view b.broadcasts

theorem recorded_new (log : List ActivityEvent) : new.Recorded log :=
  ⟨[], nofun, List.nil_sublist _, rfl, rfl⟩

variable {log : List ActivityEvent} {b b' : BridgeState}

theorem Recorded.grow (recorded : b.Recorded log) (later : List ActivityEvent) :
    b.Recorded (log ++ later) := by
  obtain ⟨events, sent, received, broadcast, stored⟩ := recorded
  refine ⟨events, sent, received.trans ?_, broadcast, stored⟩
  rw [List.take_append]
  exact List.sublist_append_left ..

theorem Recorded.feedRecv {activity : Broadcast ActivityEvent}
    (recorded : b.Recorded activity.log) (server : ∀ event ∈ activity.log, event.NotNull)
    (taken : b.feedRecv activity = some b') : b'.Recorded activity.log := by
  obtain ⟨events, sent, received, broadcast, stored⟩ := recorded
  obtain ⟨idle, ⟨event, next, got, rfl⟩ | ⟨missed, next, got, rfl⟩⟩ := feedRecv_cases taken
  · obtain ⟨_, found, rfl⟩ := Broadcast.recv_ok got
    rw [idle, Option.toList_none, List.append_nil] at broadcast
    refine ⟨events ++ [event], ?_, ?_, ?_, ?_⟩
    · intro other member
      rcases List.mem_append.mp member with before | last
      · exact sent other before
      · rw [List.mem_singleton.mp last]
        exact server event (List.mem_of_getElem? found)
    · change (events ++ [event]).Sublist (activity.log.take (b.feedNext + 1))
      rw [List.take_add_one, found, Option.toList_some]
      exact received.append (List.Sublist.refl _)
    · rw [List.map_append, ← broadcast]
      rfl
    · rw [record_lastMsgs, List.map_append, replay_append, ← stored]
      rfl
  · obtain ⟨behind, rfl⟩ := Broadcast.recv_lagged got
    refine ⟨events, sent, received.trans ?_, broadcast, stored⟩
    exact (List.take_prefix_take_left (Nat.le_of_lt behind)).sublist

theorem feedRecv_broadcasts {activity : Broadcast ActivityEvent}
    (taken : b.feedRecv activity = some b') : ∃ more, b'.broadcasts = b.broadcasts ++ more := by
  obtain ⟨idle, ⟨event, next, got, rfl⟩ | ⟨missed, next, got, rfl⟩⟩ := feedRecv_cases taken
  · apply Exists.intro [bridgeMsg event]
    rw [broadcasts, broadcasts, idle, Option.toList_none, List.append_nil]
    rfl
  · exact ⟨[], (List.append_nil _).symm⟩

theorem feedSend_broadcasts (taken : b.feedSend = some b') : b'.broadcasts = b.broadcasts := by
  obtain ⟨json, waiting, rfl⟩ := Option.map_eq_some_iff.mp taken
  rw [broadcasts, broadcasts, waiting]
  exact List.append_nil _

theorem Recorded.feedSend (recorded : b.Recorded log) (taken : b.feedSend = some b') :
    b'.Recorded log := by
  obtain ⟨events, sent, received, broadcast, stored⟩ := recorded
  obtain ⟨json, waiting, rfl⟩ := Option.map_eq_some_iff.mp taken
  refine ⟨events, sent, received, ?_, stored⟩
  rw [← broadcast, waiting]
  simp

theorem Recorded.history_key (recorded : b.Recorded log) (id : Nat) :
    b.history (toString id) = b.lastMsgs id := by
  obtain ⟨events, sent, _, broadcast, stored⟩ := recorded
  rw [history, broadcasts, broadcast, view, filterMap_bridgeMsg sent, replay_viewUpdate, stored]

theorem Recorded.history_name (recorded : b.Recorded log) {name : String} {msg : Json}
    (shown : b.history name = some msg) : ∃ id : Nat, name = toString id := by
  obtain ⟨events, sent, _, broadcast, _⟩ := recorded
  rw [history, broadcasts, broadcast, view, filterMap_bridgeMsg sent] at shown
  obtain ⟨event, _, update⟩ := List.mem_map.mp (mem_of_replay shown)
  exact ⟨event.socketId, (congrArg Prod.fst update).symm⟩

theorem Recorded.stored (recorded : b.Recorded log) {id : Nat} {msg : Json}
    (kept : b.lastMsgs id = some msg) :
    msgUpdate msg = some (toString id, some msg) ∧
      ∃ event ∈ log, event.socketId = id ∧ event.activity.isSome ∧ msg = bridgeMsg event := by
  obtain ⟨events, sent, received, _, stored⟩ := recorded
  rw [stored] at kept
  obtain ⟨event, member, update⟩ := List.mem_map.mp (mem_of_replay kept)
  rw [eventUpdate, Prod.mk.injEq, Option.map_eq_some_iff] at update
  obtain ⟨rfl, activity, present, rfl⟩ := update
  constructor
  · rw [msgUpdate_bridgeMsg (sent event member), viewUpdate, present]
    rfl
  · exact ⟨event, List.mem_of_mem_take (received.mem member), rfl, by rw [present]; rfl, rfl⟩

end BridgeState

namespace ClientTask

def Started (k : ClientTask) : Prop :=
  match k.pc with
  | .handshaking | .upgraded => k.read = [] ∧ k.snapshot = [] ∧ k.delivered = []
  | .iterating => k.delivered = [] ∧ ∀ key, ¬k.Learnt key → k.store key = none
  | _ => True

/-- The task follows the bridge in every key that it has taken up. -/
structure Follows (b : BridgeState) (k : ClientTask) : Prop where
  started : k.Started
  bound : k.rx ≤ b.tx.log.length
  joined : ∀ key, k.Learnt key → Joined msgUpdate b.tx b.outgoing.toList k.rx k.store key

def Spared (b : BridgeState) (k : ClientTask) : Prop :=
  ∀ json, b.outgoing = some json → ∀ key, k.Learnt key →
    SparesKey msgUpdate b.tx k.rx k.store key json

theorem follows_new (b : BridgeState) : new.Follows b :=
  ⟨⟨rfl, rfl, rfl⟩, Nat.zero_le _, nofun⟩

variable {log : List ActivityEvent} {b b' : BridgeState} {k k' : ClientTask}

theorem Follows.feedRecv {activity : Broadcast ActivityEvent} (follows : k.Follows b)
    (taken : b.feedRecv activity = some b') : k.Follows b' := by
  obtain ⟨started, bound, joined⟩ := follows
  obtain ⟨idle, ⟨event, next, _, rfl⟩ | ⟨missed, next, _, rfl⟩⟩ :=
    BridgeState.feedRecv_cases taken
  · refine ⟨started, bound, ?_⟩
    intro key learnt
    have before := joined key learnt
    rw [idle] at before
    exact before.record (bridgeMsg event)
  · exact ⟨started, bound, joined⟩

theorem Follows.feedSend (follows : k.Follows b) (spared : k.Spared b)
    (taken : b.feedSend = some b') : k.Follows b' := by
  obtain ⟨started, bound, joined⟩ := follows
  obtain ⟨json, waiting, rfl⟩ := Option.map_eq_some_iff.mp taken
  refine ⟨started, ?_, ?_⟩
  · simp only [Broadcast.send_log, List.length_append]
    omega
  · intro key learnt
    have before := joined key learnt
    rw [waiting] at before
    exact before.send bound (spared json waiting key learnt)

theorem Follows.subscribe (follows : k.Follows b) (phase : k.pc = .upgraded) :
    Follows b { k with pc := .iterating, start := b.tx.log.length, rx := b.tx.log.length } := by
  have started := follows.started
  rw [Started, phase] at started
  obtain ⟨read, snapshot, delivered⟩ := started
  refine ⟨⟨delivered, ?_⟩, Nat.le_refl _, ?_⟩
  · intro key _
    change view k.snapshot key = none
    rw [snapshot]
    rfl
  · rintro key ⟨id, member, _⟩
    change id ∈ k.read at member
    rw [read] at member
    cases member

theorem view_readKey (recorded : b.Recorded log) (snapshot : List Json) (id : Nat) :
    view (snapshot ++ (b.lastMsgs id).toList) =
      if (b.lastMsgs id).isSome then
        applyUpdate (view snapshot) (toString id, b.lastMsgs id)
      else view snapshot := by
  rw [view_append]
  cases kept : b.lastMsgs id with
  | none => rfl
  | some msg => simp [(recorded.stored kept).1]

theorem Follows.readKey (follows : k.Follows b) (recorded : b.Recorded log)
    (phase : k.pc = .iterating) (id : Nat) : (k.look b id).Follows b := by
  have started := follows.started
  rw [Started, phase] at started
  obtain ⟨delivered, unlearnt⟩ := started
  have phase' : (k.look b id).pc = .iterating := phase
  have viewed : (k.look b id).store = if (b.lastMsgs id).isSome then
      applyUpdate k.store (toString id, b.lastMsgs id) else k.store := by
    rw [store_iterating phase', store_iterating phase]
    exact view_readKey recorded k.snapshot id
  have learnt : ∀ key, (k.look b id).Learnt key ↔ key = toString id ∨ k.Learnt key := by
    intro key
    rw [learnt_iterating phase', learnt_iterating phase]
    simp [look]
  have other : ∀ key, key ≠ toString id → (k.look b id).store key = k.store key := by
    intro key different
    rw [viewed]
    split
    · exact applyUpdate_of_ne (u := (toString id, _)) _ different
    · rfl
  refine ⟨?_, follows.bound, ?_⟩
  · rw [Started, phase']
    refine ⟨delivered, ?_⟩
    intro key unknown
    rw [learnt, not_or] at unknown
    rw [other key unknown.1]
    exact unlearnt key unknown.2
  · intro key known
    rw [learnt] at known
    change Joined msgUpdate b.tx b.outgoing.toList k.rx (k.look b id).store key
    by_cases same : key = toString id
    · subst same
      by_cases kept : (b.lastMsgs id).isSome
      · apply Joined.learn
        rw [viewed, if_pos kept]
        exact (applyUpdate_self _ (toString id, _)).trans (recorded.history_key id).symm
      · rw [if_neg kept] at viewed
        rw [viewed]
        by_cases before : k.Learnt (toString id)
        · exact follows.joined _ before
        · apply Joined.learn
          rw [unlearnt _ before]
          have absent : b.lastMsgs id = none := by simpa using kept
          exact (absent ▸ recorded.history_key id).symm
    · exact (follows.joined key (known.resolve_left same)).congr (other key same)

theorem Follows.collect (follows : k.Follows b) (recorded : b.Recorded log)
    (phase : k.pc = .iterating)
    (passed : ∀ event ∈ log, (b.lastMsgs event.socketId).isSome → event.socketId ∈ k.read) :
    Follows b { k with pc := .serving k.snapshot } := by
  have started := follows.started
  rw [Started, phase] at started
  obtain ⟨delivered, unlearnt⟩ := started
  have same : ({ k with pc := .serving k.snapshot } : ClientTask).store = k.store := by
    rw [store_iterating phase, store_serving rfl]
    simp only [delivered, List.nil_append]
  refine ⟨trivial, follows.bound, ?_⟩
  intro key _
  rw [same]
  by_cases known : k.Learnt key
  · exact follows.joined key known
  · apply Joined.learn
    rw [unlearnt key known]
    -- a key of the map that the iteration has not passed
    symm
    apply Option.eq_none_iff_forall_not_mem.mpr
    intro msg shown
    change b.history key = some msg at shown
    obtain ⟨id, rfl⟩ := recorded.history_name shown
    rw [recorded.history_key] at shown
    obtain ⟨_, event, member, rfl, _⟩ := recorded.stored shown
    apply known
    rw [learnt_iterating phase]
    exact ⟨_, passed event member (by rw [shown]; rfl), rfl⟩

theorem Follows.gone (bound : k.rx ≤ b.tx.log.length) : Follows b { k with pc := .gone } :=
  ⟨trivial, bound, nofun⟩

theorem Follows.step {act : ClientAct} (follows : k.Follows b) (recorded : b.Recorded log)
    (taken : k.step log b act = some k') : k'.Follows b := by
  cases act with
  | handshake ok =>
    obtain ⟨phase, rfl⟩ := handshake_cases taken
    have started := follows.started
    rw [Started, phase] at started
    cases ok with
    | true => exact ⟨started, follows.bound, nofun⟩
    | false => exact Follows.gone follows.bound
  | subscribe =>
    obtain ⟨phase, rfl⟩ := subscribe_cases taken
    exact follows.subscribe phase
  | readKey id =>
    obtain ⟨phase, rfl⟩ := readKey_cases taken
    exact follows.readKey recorded phase id
  | collect =>
    obtain ⟨phase, passed, rfl⟩ := collect_cases taken
    exact follows.collect recorded phase passed
  | sendItem ok =>
    obtain ⟨item, rest, phase, rfl⟩ := sendItem_cases taken
    cases ok with
    | false => exact Follows.gone follows.bound
    | true =>
      refine ⟨trivial, follows.bound, ?_⟩
      intro key _
      have before := follows.joined key (learnt_serving phase key)
      rw [store_serving phase] at before
      rw [if_pos rfl, store_serving rfl]
      simp only [List.append_assoc, List.singleton_append]
      exact before
  | recv ok =>
    obtain ⟨phase, ⟨payload, next, received, rfl⟩ | ⟨missed, next, received, rfl⟩⟩ :=
      recv_cases taken
    · obtain ⟨_, found, rfl⟩ := Broadcast.recv_ok received
      have inside := (List.getElem?_eq_some_iff.mp found).1
      cases ok with
      | false => exact ⟨trivial, inside, nofun⟩
      | true =>
        rw [if_pos rfl]
        refine ⟨by simp [Started, phase], inside, ?_⟩
        intro key _
        have after := (follows.joined key (learnt_serving phase key)).recv_ok received
        rw [store_serving phase, List.append_nil] at after
        have store : ({ k with
            rx := k.rx + 1, delivered := k.delivered ++ [payload] } : ClientTask).store =
              view (k.delivered ++ [payload] ++ []) := store_serving phase
        rw [store, List.append_nil, view_append]
        exact after
    · obtain ⟨_, rfl⟩ := Broadcast.recv_lagged received
      refine ⟨by simp [Started, phase], b.tx.oldest_le, ?_⟩
      intro key _
      have after := (follows.joined key (learnt_serving phase key)).recv_lagged received
      rw [store_serving phase] at after
      have store : ({ k with rx := b.tx.oldest } : ClientTask).store = view (k.delivered ++ []) :=
        store_serving phase
      rw [store]
      exact after
  | incoming next =>
    obtain ⟨phase, rfl⟩ := incoming_cases taken
    split
    · exact Follows.gone follows.bound
    · exact follows

/-- What was written to the client is some of the snapshot, from its front on, and then broadcasts
    since the subscription in their order. -/
structure Written (b : BridgeState) (k : ClientTask) : Prop where
  range : k.start ≤ k.rx ∧ k.rx ≤ b.tx.log.length
  parts : ∃ items streamed, k.delivered = items ++ streamed ∧ items <+: k.snapshot ∧
    streamed.Sublist ((b.tx.log.take k.rx).drop k.start) ∧
    match k.pc with
    | .handshaking | .upgraded => k.snapshot = [] ∧ items = [] ∧ streamed = []
    | .iterating => items = [] ∧ streamed = []
    | .serving rest => items ++ rest = k.snapshot ∧ (rest ≠ [] → streamed = [])
    | .gone => True

theorem written_new (b : BridgeState) : new.Written b :=
  ⟨⟨Nat.le_refl _, Nat.zero_le _⟩, [], [], rfl, List.prefix_rfl, List.nil_sublist _, rfl, rfl, rfl⟩

theorem Written.grow {more : List Json} (written : k.Written b)
    (log : b'.tx.log = b.tx.log ++ more) : k.Written b' := by
  obtain ⟨⟨low, high⟩, items, streamed, split, front, order, phase⟩ := written
  refine ⟨⟨low, ?_⟩, items, streamed, split, front, ?_, phase⟩
  · rw [log, List.length_append]
    omega
  · rw [log, List.take_append_of_le_length high]
    exact order

theorem Written.step {act : ClientAct} (written : k.Written b)
    (taken : k.step log b act = some k') : k'.Written b := by
  obtain ⟨⟨low, high⟩, items, streamed, split, front, order, now⟩ := written
  cases act with
  | handshake ok =>
    obtain ⟨phase, rfl⟩ := handshake_cases taken
    rw [phase] at now
    refine ⟨⟨low, high⟩, items, streamed, split, front, order, ?_⟩
    cases ok with
    | true => exact now
    | false => trivial
  | subscribe =>
    obtain ⟨phase, rfl⟩ := subscribe_cases taken
    rw [phase] at now
    obtain ⟨_, rfl, rfl⟩ := now
    exact ⟨⟨Nat.le_refl _, Nat.le_refl _⟩, [], [], split, front, List.nil_sublist _, rfl, rfl⟩
  | readKey id =>
    obtain ⟨phase, rfl⟩ := readKey_cases taken
    rw [phase] at now
    refine ⟨⟨low, high⟩, items, streamed, split, front.trans (List.prefix_append ..), order, ?_⟩
    simp only [look, phase]
    exact now
  | collect =>
    obtain ⟨phase, _, rfl⟩ := collect_cases taken
    rw [phase] at now
    obtain ⟨rfl, rfl⟩ := now
    exact ⟨⟨low, high⟩, [], [], split, front, order, rfl, fun _ => rfl⟩
  | sendItem ok =>
    obtain ⟨item, rest, phase, rfl⟩ := sendItem_cases taken
    rw [phase] at now
    obtain ⟨whole, quiet⟩ := now
    obtain rfl := quiet (List.cons_ne_nil _ _)
    cases ok with
    | false => exact ⟨⟨low, high⟩, items, [], split, front, order, trivial⟩
    | true =>
      have more : (items ++ [item]) ++ rest = k.snapshot := by rw [← whole]; simp
      refine ⟨⟨low, high⟩, items ++ [item], [], ?_, ⟨rest, more⟩, List.nil_sublist _, more,
        fun _ => rfl⟩
      rw [if_pos rfl, split]
      simp
  | recv ok =>
    obtain ⟨phase, ⟨payload, next, received, rfl⟩ | ⟨missed, next, received, rfl⟩⟩ :=
      recv_cases taken
    · obtain ⟨_, found, rfl⟩ := Broadcast.recv_ok received
      have inside := (List.getElem?_eq_some_iff.mp found).1
      have reach : (b.tx.log.take (k.rx + 1)).drop k.start =
          (b.tx.log.take k.rx).drop k.start ++ [payload] := by
        rw [List.take_add_one, found, Option.toList_some, List.drop_append_of_le_length]
        rw [List.length_take]
        omega
      rw [phase] at now
      cases ok with
      | false =>
        refine ⟨⟨Nat.le_succ_of_le low, inside⟩, items, streamed, split, front, ?_, trivial⟩
        rw [if_neg Bool.false_ne_true, reach]
        exact order.trans (List.sublist_append_left ..)
      | true =>
        refine ⟨⟨Nat.le_succ_of_le low, inside⟩, items, streamed ++ [payload], ?_, front, ?_, ?_⟩
        · rw [if_pos rfl, split, List.append_assoc]
        · rw [if_pos rfl, reach]
          exact order.append (List.Sublist.refl _)
        · simp only [if_pos, phase]
          exact ⟨now.1, fun more => absurd rfl more⟩
    · obtain ⟨behind, rfl⟩ := Broadcast.recv_lagged received
      rw [phase] at now
      have later : k.rx ≤ b.tx.oldest := Nat.le_of_lt behind
      refine ⟨⟨low.trans later, b.tx.oldest_le⟩, items, streamed, split, front, ?_, ?_⟩
      · exact order.trans ((List.take_prefix_take_left later).sublist.drop k.start)
      · simp only [phase]
        exact now
  | incoming next =>
    obtain ⟨phase, rfl⟩ := incoming_cases taken
    split
    · exact ⟨⟨low, high⟩, items, streamed, split, front, order, trivial⟩
    · exact ⟨⟨low, high⟩, items, streamed, split, front, order, now⟩

/-- The message is what a client shows of some socket that has read the first `n` broadcasts, for an
    `n` since the subscription. -/
def Shown (b : BridgeState) (k : ClientTask) (msg : Json) : Prop :=
  ∃ (n id : Nat), k.start ≤ n ∧ n ≤ b.broadcasts.length ∧
    view (b.broadcasts.take n) (toString id) = some msg

theorem Shown.grow {msg : Json} {more : List Json} (shown : k.Shown b msg)
    (grown : b'.broadcasts = b.broadcasts ++ more) : k.Shown b' msg := by
  obtain ⟨n, id, low, high, viewed⟩ := shown
  refine ⟨n, id, low, ?_, ?_⟩
  · rw [grown, List.length_append]
    omega
  · rw [grown, List.take_append_of_le_length high]
    exact viewed

theorem shown_of_stored {msg : Json} {id : Nat} (recorded : b.Recorded log)
    (subscribed : k.start ≤ b.tx.log.length) (kept : b.lastMsgs id = some msg) : k.Shown b msg := by
  refine ⟨b.broadcasts.length, id, ?_, Nat.le_refl _, ?_⟩
  · rw [BridgeState.broadcasts, List.length_append]
    omega
  · rw [List.take_length]
    exact (recorded.history_key id).trans kept

theorem Shown.step {act : ClientAct} {msg : Json} (written : k.Written b)
    (recorded : b.Recorded log) (shown : ∀ msg ∈ k.snapshot, k.Shown b msg)
    (taken : k.step log b act = some k') (member : msg ∈ k'.snapshot) : k'.Shown b msg := by
  have kept : k'.start = k.start → k'.snapshot = k.snapshot → k'.Shown b msg := by
    intro start snapshot
    unfold Shown
    rw [start]
    exact shown msg (snapshot ▸ member)
  cases act with
  | handshake ok =>
    obtain ⟨_, rfl⟩ := handshake_cases taken
    exact kept rfl rfl
  | subscribe =>
    obtain ⟨phase, rfl⟩ := subscribe_cases taken
    obtain ⟨_, _, _, _, _, now⟩ := written.parts
    rw [phase] at now
    change msg ∈ k.snapshot at member
    rw [now.1] at member
    cases member
  | readKey id =>
    obtain ⟨_, rfl⟩ := readKey_cases taken
    rcases List.mem_append.mp member with before | found
    · exact shown msg before
    · have subscribed := written.range.1.trans written.range.2
      exact shown_of_stored recorded subscribed (Option.mem_toList.mp found)
  | collect =>
    obtain ⟨_, _, rfl⟩ := collect_cases taken
    exact kept rfl rfl
  | sendItem ok =>
    obtain ⟨_, _, _, rfl⟩ := sendItem_cases taken
    cases ok <;> exact kept rfl rfl
  | recv ok =>
    obtain ⟨_, ⟨_, _, _, rfl⟩ | ⟨_, _, _, rfl⟩⟩ := recv_cases taken
    · cases ok <;> exact kept rfl rfl
    · exact kept rfl rfl
  | incoming next =>
    obtain ⟨_, rfl⟩ := incoming_cases taken
    exact kept (by split <;> rfl) (by split <;> rfl)

theorem Follows.drained (follows : k.Follows b) (recorded : b.Recorded log)
    (idle : b.outgoing = none) (phase : k.pc = .serving []) (drained : k.rx = b.tx.log.length) :
    (∀ id : Nat, view k.delivered (toString id) = b.lastMsgs id) ∧
      ∀ name msg, view k.delivered name = some msg → ∃ id : Nat, name = toString id := by
  have shown : ∀ key, view k.delivered key = b.history key := by
    intro key
    have joined := follows.joined key (learnt_serving phase key)
    rw [idle, Option.toList_none, store_serving phase, List.append_nil] at joined
    rw [joined.drained drained, BridgeState.history, BridgeState.broadcasts, idle, Option.toList_none,
      List.append_nil]
    rfl
  refine ⟨?_, ?_⟩
  · intro id
    rw [shown, recorded.history_key]
  · intro name msg present
    rw [shown] at present
    exact recorded.history_name present

end ClientTask

end Dirpc
