import Dirpc.Base.Runs
import Dirpc.Bridge.Feed
import Dirpc.Server.Message

namespace Dirpc.Bridge

open Base

inductive Phase where
  | connecting
  | iterating
  | streaming
  deriving DecidableEq

/-- A bridge client in `handle_client`: `start` and `rx` are its positions in the broadcast channel
    at the subscription and now, `read` the keys its map iteration has read, `delivered` what was
    written to it. -/
structure Client where
  phase : Phase
  start : Nat
  rx : Nat
  read : List Nat
  snapshot : List Json
  delivered : List Json

structure System where
  activity : Broadcast ActivityEvent
  bridge : BridgeState
  client : Client

def System.new : System :=
  ⟨⟨64, [], ServerState.slots_pos⟩, .new, ⟨.connecting, 0, 0, [], [], []⟩⟩

inductive Event where
  | emit (event : ActivityEvent)
  | feedRecv
  | feedSend
  | subscribe
  | readKey (key : Nat)
  | sendSnapshot
  | forward

/-- The client's own steps. The iteration reads a key at an instant of its own choice and ends
    when it has read every key that can be in the map. -/
def Client.step (activity : Broadcast ActivityEvent) (b : BridgeState) (c : Client) :
    Event → Option Client
  | .subscribe =>
    if c.phase = .connecting then
      some { c with phase := .iterating, start := b.tx.log.length, rx := b.tx.log.length }
    else none
  | .readKey key =>
    if c.phase = .iterating ∧ key ∉ c.read then
      some { c with read := key :: c.read, snapshot := c.snapshot ++ (b.lastMsgs key).toList }
    else none
  | .sendSnapshot =>
    if c.phase = .iterating ∧ ∀ event ∈ activity.log, event.socketId ∈ c.read then
      some { c with phase := .streaming, delivered := c.snapshot }
    else none
  | .forward =>
    if c.phase = .streaming then
      match b.tx.recv c.rx with
      | (.ok payload, next) => some { c with rx := next, delivered := c.delivered ++ [payload] }
      | (.lagged _, next) => some { c with rx := next }
      | (.empty, _) => none
    else none
  | _ => none

def System.step (s : System) : Event → Option System
  | .emit event => some { s with activity := s.activity.send event }
  | .feedRecv => (s.bridge.feedRecv s.activity).map fun b => { s with bridge := b }
  | .feedSend => s.bridge.feedSend.map fun b => { s with bridge := b }
  | e => (s.client.step s.activity s.bridge e).map fun c => { s with client := c }

/-- Neither receiver is overtaken by the step. -/
def NoLag (s : System) : Event → Prop
  | .feedRecv => s.activity.oldest ≤ s.bridge.feedNext
  | .forward => s.bridge.tx.oldest ≤ s.client.rx
  | _ => True

def msgUpdate (msg : Json) : Option (Update String Json) :=
  ((msg.get "socketId").bind Json.asStr).map fun key =>
    (key, match msg.get "activity" with
      | none | some .null => none
      | some _ => some msg)

def view (delivered : List Json) : String → Option Json :=
  replay (fun _ => none) (delivered.filterMap msgUpdate)

def viewUpdate (event : ActivityEvent) : Update String Json :=
  (toString event.socketId, event.activity.map fun _ => bridgeMsg event)

theorem toString_injective : Function.Injective fun n : Nat => toString n := by
  intro a b same
  have digits : Nat.toDigits 10 a = Nat.toDigits 10 b := by
    simpa using congrArg String.toList same
  have values := congrArg (fun cs => Nat.ofDigitChars 10 cs 0) digits
  simpa using values

theorem msgUpdate_bridgeMsg {event : ActivityEvent} (notNull : event.NotNull) :
    msgUpdate (bridgeMsg event) = some (viewUpdate event) := by
  cases shown : event.activity with
  | none => simp [msgUpdate, bridgeMsg, viewUpdate, Json.getField, Json.asStr, shown]
  | some activity =>
    cases activity with
    | null => exact absurd shown notNull
    | _ => simp [msgUpdate, bridgeMsg, viewUpdate, Json.getField, Json.asStr, shown]

theorem view_append (xs ys : List Json) :
    view (xs ++ ys) = replay (view xs) (ys.filterMap msgUpdate) := by
  simp only [view, List.filterMap_append, replay_append]

theorem filterMap_bridgeMsg {events : List ActivityEvent}
    (sent : ∀ event ∈ events, event.NotNull) :
    (events.map bridgeMsg).filterMap msgUpdate = events.map viewUpdate := by
  induction events with
  | nil => rfl
  | cons event events ih =>
    rw [List.map_cons, List.filterMap_cons_some (msgUpdate_bridgeMsg (sent event (by simp))),
      ih fun other member => sent other (by simp [member]), List.map_cons]

theorem replay_viewUpdate (events : List ActivityEvent) (key : Nat) :
    replay (fun _ => none) (events.map viewUpdate) (toString key) =
      replay (fun _ => none) (events.map eventUpdate) key := by
  have renamed := replay_rename (fun n : Nat => toString n) toString_injective
    (events.map eventUpdate) key
  rw [List.map_map] at renamed
  exact renamed

end Dirpc.Bridge
