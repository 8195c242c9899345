import Dirpc.Base.Follower
import Dirpc.Types

namespace Dirpc

open Base

/-- `lastMsgs` holds, for each socket id, the value whose JSON text the source stores. `feedNext`
    is the feed's position in the activity channel and `outgoing` the message it has recorded but
    not broadcast yet. -/
structure BridgeState where
  lastMsgs : Nat → Option Json
  tx : Broadcast Json
  feedNext : Nat
  outgoing : Option Json

def BridgeState.new : BridgeState := ⟨fun _ => none, ⟨256, [], by decide⟩, 0, none⟩

def bridgeMsg (event : ActivityEvent) : Json :=
  .obj [("activity", event.activity.getD .null),
    ("pid", event.pid.elim .null fun pid => .int pid),
    ("socketId", .str (toString event.socketId))]

namespace BridgeState

def record (b : BridgeState) (event : ActivityEvent) : BridgeState :=
  let json := bridgeMsg event
  let lastMsgs := match event.activity with
    | none => Function.update b.lastMsgs event.socketId none
    | some _ => Function.update b.lastMsgs event.socketId (some json)
  { b with lastMsgs := lastMsgs, outgoing := some json }

def feedRecv (activity : Broadcast ActivityEvent) (b : BridgeState) : Option BridgeState :=
  if b.outgoing.isSome then none
  else match activity.recv b.feedNext with
    | (.ok event, next) => some ({ b with feedNext := next }.record event)
    | (.lagged _, next) => some { b with feedNext := next }
    | (.empty, _) => none

/-- The feed's second step on an event. The source's `send` fails and keeps nothing when no client
    has subscribed; a later subscriber starts behind the message either way. -/
def feedSend (b : BridgeState) : Option BridgeState :=
  b.outgoing.map fun json => { b with tx := b.tx.send json, outgoing := none }

end BridgeState

def eventUpdate (event : ActivityEvent) : Update Nat Json :=
  (event.socketId, event.activity.map fun _ => bridgeMsg event)

def lastEvent (socketId : Nat) (log : List ActivityEvent) : Option ActivityEvent :=
  (log.filter fun event => event.socketId = socketId).getLast?

theorem lastFor_eventUpdate (socketId : Nat) (log : List ActivityEvent) :
    lastFor socketId (log.map eventUpdate) =
      (lastEvent socketId log).map fun event => (eventUpdate event).2 := by
  induction log with
  | nil => rfl
  | cons event log ih =>
    rw [List.map_cons, lastFor, ih]
    unfold lastEvent
    by_cases own : event.socketId = socketId
    · rw [List.filter_cons_of_pos (by simpa using own), List.getLast?_cons]
      cases (log.filter fun event => event.socketId = socketId).getLast? <;>
        simp [eventUpdate, own]
    · rw [List.filter_cons_of_neg (by simpa using own)]
      simp [eventUpdate, own]

theorem replay_eventUpdate (socketId : Nat) (log : List ActivityEvent) :
    replay (fun _ => none) (log.map eventUpdate) socketId =
      (lastEvent socketId log).bind fun event => event.activity.map fun _ => bridgeMsg event := by
  rw [replay_eq_lastFor, lastFor_eventUpdate]
  cases lastEvent socketId log <;> rfl

namespace BridgeState

theorem record_lastMsgs (b : BridgeState) (event : ActivityEvent) :
    (b.record event).lastMsgs = applyUpdate b.lastMsgs (eventUpdate event) := by
  unfold record eventUpdate applyUpdate
  cases event.activity <;> rfl

theorem feedRecv_cases {activity : Broadcast ActivityEvent} {b after : BridgeState}
    (taken : b.feedRecv activity = some after) :
    b.outgoing = none ∧
      ((∃ event next, activity.recv b.feedNext = (.ok event, next) ∧
          after = { b with feedNext := next }.record event) ∨
        ∃ missed next, activity.recv b.feedNext = (.lagged missed, next) ∧
          after = { b with feedNext := next }) := by
  unfold feedRecv at taken
  split at taken
  · cases taken
  · rename_i idle
    refine ⟨by simpa using idle, ?_⟩
    split at taken
    · rename_i event next received
      cases taken
      exact .inl ⟨event, next, received, rfl⟩
    · rename_i missed next received
      cases taken
      exact .inr ⟨missed, next, received, rfl⟩
    · cases taken

theorem feedRecv_next {activity : Broadcast ActivityEvent} {b : BridgeState} {event : ActivityEvent}
    (idle : b.outgoing = none) (fresh : activity.oldest ≤ b.feedNext)
    (found : activity.log[b.feedNext]? = some event) :
    b.feedRecv activity = some ({ b with feedNext := b.feedNext + 1 }.record event) := by
  have current : ¬b.feedNext < activity.oldest := by omega
  simp [feedRecv, idle, Broadcast.recv, current, found]

theorem feedRecv_behind {activity : Broadcast ActivityEvent} {b : BridgeState}
    (idle : b.outgoing = none) (behind : b.feedNext < activity.oldest) :
    b.feedRecv activity = some { b with feedNext := activity.oldest } := by
  simp [feedRecv, idle, Broadcast.recv, behind]

def Follows (activity : Broadcast ActivityEvent) (b : BridgeState) : Prop :=
  b.feedNext ≤ activity.log.length ∧ Tracks eventUpdate activity b.feedNext b.lastMsgs

theorem follows_new {activity : Broadcast ActivityEvent} (fresh : activity.log = []) :
    new.Follows activity := ⟨Nat.zero_le _, Tracks.initial eventUpdate fresh⟩

theorem Follows.feedRecv {activity : Broadcast ActivityEvent} {b after : BridgeState}
    (follows : b.Follows activity) (taken : b.feedRecv activity = some after) :
    after.Follows activity := by
  obtain ⟨bound, tracks⟩ := follows
  obtain ⟨_, ⟨event, next, received, rfl⟩ | ⟨missed, next, received, rfl⟩⟩ :=
    feedRecv_cases taken
  · obtain ⟨_, found, advanced⟩ := Broadcast.recv_ok received
    have inside := (List.getElem?_eq_some_iff.mp found).1
    refine ⟨?_, ?_⟩
    · change next ≤ activity.log.length
      omega
    · rw [record_lastMsgs]
      exact tracks.recv_ok received
  · refine ⟨?_, tracks.recv_lagged received⟩
    change next ≤ activity.log.length
    rw [(Broadcast.recv_lagged received).2]
    exact activity.oldest_le

theorem Follows.feedSend {activity : Broadcast ActivityEvent} {b after : BridgeState}
    (follows : b.Follows activity) (taken : b.feedSend = some after) : after.Follows activity := by
  obtain ⟨json, _, rfl⟩ := Option.map_eq_some_iff.mp taken
  exact follows

theorem Follows.send {activity : Broadcast ActivityEvent} {b : BridgeState}
    {event : ActivityEvent} (follows : b.Follows activity)
    (spares : Spares eventUpdate activity b.feedNext b.lastMsgs event) :
    b.Follows (activity.send event) := by
  refine ⟨?_, follows.2.send follows.1 spares⟩
  have := follows.1
  simp only [Broadcast.send_log, List.length_append, List.length_singleton]
  omega

theorem Follows.drained {activity : Broadcast ActivityEvent} {b : BridgeState}
    (follows : b.Follows activity) (drained : b.feedNext = activity.log.length) :
    b.lastMsgs = replay (fun _ => none) (activity.log.map eventUpdate) :=
  follows.2.drained drained

end BridgeState

end Dirpc
