import Dirpc.Server.State
import Mathlib.Data.Nat.Log

namespace Dirpc

open Base Base.Json

def digitCount (n : Nat) : Nat := if n = 0 then 1 else Nat.log 10 n + 1

def wrapI64 (n : Int) : Int := n.bmod (2 ^ 64)

/-- Convert a timestamp to milliseconds if it appears to be in seconds. `nowMs` is what the clock
    reads in this call. -/
def maybeToMs (nowMs ts : Int) : Int :=
  if digitCount nowMs.natAbs - digitCount ts.natAbs > 2 then wrapI64 (ts * 1000) else ts

def processButtons (canonical : List (String × Json)) :
    Option (List Json) × List (String × Json) :=
  match (getField "buttons" canonical).bind asArray with
  | none => (none, [])
  | some buttons =>
    let labels := buttons.filterMap (·.get "label")
    let urls := buttons.filterMap (·.get "url")
    if labels.isEmpty then (none, []) else (some labels, insertField [] "button_urls" (.arr urls))

def timestampToMs (nowMs : Int) (key : String) (ts : List (String × Json)) : List (String × Json) :=
  match (getField key ts).bind asI64 with
  | some value => insertField ts key (.int (maybeToMs nowMs value))
  | none => ts

/-- `now i` is the reading of the clock at the call's `i`-th look at it. -/
def translateTimestamps (now : Nat → Int) (canonical : List (String × Json)) :
    List (String × Json) :=
  match (getField "timestamps" canonical).bind asObject with
  | none => canonical
  | some ts =>
    insertField canonical "timestamps"
      (.obj (timestampToMs (now 1) "end" (timestampToMs (now 0) "start" ts)))

def instanceFlags (canonical : List (String × Json)) : Int :=
  if ((getField "instance" canonical).bind asBool).getD false then 1 else 0

def fullActivity (clientId : String) (canonical metadata : List (String × Json))
    (buttonLabels : Option (List Json)) : List (String × Json) :=
  let base := insertField (insertField (insertField (insertField []
    "application_id" (.str clientId)) "type" (.int 0)) "metadata" (.obj metadata))
    "flags" (.int (instanceFlags canonical))
  let full := mergeFields base canonical
  match buttonLabels with
  | some labels => insertField full "buttons" (.arr labels)
  | none => full

def responseData (clientId : String) (canonical : List (String × Json)) : List (String × Json) :=
  insertField (insertField (insertField canonical "name" (.str "")) "application_id" (.str clientId))
    "type" (.int 0)

def response (msg : RpcMessage) (data evt : Json) : Json :=
  .obj [("cmd", .str msg.cmd), ("data", data), ("evt", evt), ("nonce", ofOptStr msg.nonce)]

def setActivity (now : Nat → Int) (socketId : Nat) (clientId : String) (msg : RpcMessage) :
    ActivityEvent × Json :=
  let args := msg.args.getD .null
  let pid := ((args.get "pid").bind asU64).map (· % 2 ^ 32)
  match args.get "activity" with
  | none | some .null => (⟨none, pid, socketId⟩, response msg .null .null)
  | some rawActivity =>
    let raw := rawActivity.asObject.getD []
    let (buttonLabels, metadata) := processButtons raw
    let canonical := translateTimestamps now raw
    (⟨some (.obj (fullActivity clientId canonical metadata buttonLabels)), pid, socketId⟩,
      response msg (.obj (responseData clientId canonical)) .null)

def messageEffect (now : Nat → Int) (socketId : Nat) (clientId : String) (msg : RpcMessage) :
    Option ActivityEvent × Option Json :=
  if msg.cmd = "SET_ACTIVITY" then
    let (event, resp) := setActivity now socketId clientId msg
    (some event, some resp)
  else if msg.cmd = "CONNECTIONS_CALLBACK" then
    (none, some (response msg (.obj [("code", .int 1000)]) (.str "ERROR")))
  else
    -- INVITE_BROWSER, GUILD_TEMPLATE_BROWSER, DEEP_LINK and unknown commands are only logged.
    (none, none)

namespace ServerState

/-- Process an RPC command: the state after its broadcast and the response, whose JSON value
    stands for the text the source returns. -/
def handleMessage (now : Nat → Int) (st : ServerState) (socketId : Nat) (clientId : String)
    (msg : RpcMessage) : ServerState × Option Json :=
  let (event, resp) := messageEffect now socketId clientId msg
  (event.elim st st.sendActivity, resp)

end ServerState

def ActivityEvent.ServerSent (event : ActivityEvent) : Prop :=
  event.activity = none ∨ ∃ fields, event.activity = some (.obj fields)

/-- An activity that is there is not the JSON null. -/
def ActivityEvent.NotNull (event : ActivityEvent) : Prop := event.activity ≠ some .null

theorem ActivityEvent.ServerSent.notNull {event : ActivityEvent} (sent : event.ServerSent) :
    event.NotNull := by
  rcases sent with absent | ⟨fields, object⟩
  · simp [NotNull, absent]
  · simp [NotNull, object]

theorem setActivity_socketId (now : Nat → Int) (socketId : Nat) (clientId : String)
    (msg : RpcMessage) : (setActivity now socketId clientId msg).1.socketId = socketId := by
  unfold setActivity
  dsimp only
  split <;> rfl

theorem setActivity_serverSent (now : Nat → Int) (socketId : Nat) (clientId : String)
    (msg : RpcMessage) : (setActivity now socketId clientId msg).1.ServerSent := by
  unfold setActivity
  dsimp only
  split
  · exact .inl rfl
  · exact .inl rfl
  · exact .inr ⟨_, rfl⟩

theorem setActivity_pid (now : Nat → Int) (socketId : Nat) (clientId : String) (msg : RpcMessage) :
    (setActivity now socketId clientId msg).1.pid =
      (((msg.args.getD .null).get "pid").bind asU64).map (· % 2 ^ 32) := by
  unfold setActivity
  dsimp only
  split <;> rfl

theorem setActivity_cleared {msg : RpcMessage}
    (cleared : (msg.args.getD .null).get "activity" = some .null) (now : Nat → Int)
    (socketId : Nat) (clientId : String) :
    (setActivity now socketId clientId msg).1.activity = none := by
  simp [setActivity, cleared]

theorem getField_translateTimestamps {now : Nat → Int} {k : String} (other : k ≠ "timestamps")
    (canonical : List (String × Json)) :
    getField k (translateTimestamps now canonical) = getField k canonical := by
  unfold translateTimestamps
  split
  · rfl
  · exact getField_insertField_of_ne other ..

def baseFields (clientId : String) (canonical metadata : List (String × Json)) :
    List (String × Json) :=
  insertField (insertField (insertField (insertField [] "application_id" (.str clientId))
    "type" (.int 0)) "metadata" (.obj metadata)) "flags" (.int (instanceFlags canonical))

theorem fullActivity_other {key : String} {canonical metadata : List (String × Json)}
    {labels : Option (List Json)} (other : key ≠ "buttons") (clientId : String) :
    getField key (fullActivity clientId canonical metadata labels) =
      (getField key canonical).or (getField key (baseFields clientId canonical metadata)) := by
  cases labels with
  | none => exact getField_mergeFields ..
  | some labels => exact (getField_insertField_of_ne other ..).trans (getField_mergeFields ..)

theorem setActivity_eq {msg : RpcMessage} {activity : Json}
    (shown : (msg.args.getD .null).get "activity" = some activity) (nonnull : activity ≠ .null)
    (now : Nat → Int) (socketId : Nat) (clientId : String) :
    setActivity now socketId clientId msg =
      (⟨some (.obj (fullActivity clientId (translateTimestamps now (activity.asObject.getD []))
          (processButtons (activity.asObject.getD [])).2
          (processButtons (activity.asObject.getD [])).1)),
        (((msg.args.getD .null).get "pid").bind asU64).map (· % 2 ^ 32), socketId⟩,
        response msg (.obj (responseData clientId
          (translateTimestamps now (activity.asObject.getD [])))) .null) := by
  simp only [setActivity, shown]

theorem setActivity_shown {msg : RpcMessage} {raw : List (String × Json)} {id : Json}
    (shown : (msg.args.getD .null).get "activity" = some (.obj raw))
    (named : getField "application_id" raw = some id) (now : Nat → Int)
    (socketId : Nat) (clientId : String) :
    ∃ fields, (setActivity now socketId clientId msg).1.activity = some (.obj fields) ∧
      getField "application_id" fields = some id := by
  rw [setActivity_eq shown (by simp)]
  refine ⟨_, rfl, ?_⟩
  rw [fullActivity_other (by decide), getField_translateTimestamps (by decide)]
  change (getField "application_id" raw).or _ = some id
  rw [named, Option.some_or]

theorem messageEffect_setActivity {msg : RpcMessage} (command : msg.cmd = "SET_ACTIVITY")
    (now : Nat → Int) (socketId : Nat) (clientId : String) :
    messageEffect now socketId clientId msg =
      (some (setActivity now socketId clientId msg).1,
        some (setActivity now socketId clientId msg).2) := if_pos command

theorem messageEffect_event {now : Nat → Int} {socketId : Nat} {clientId : String}
    {msg : RpcMessage} {event : ActivityEvent}
    (sent : (messageEffect now socketId clientId msg).1 = some event) :
    msg.cmd = "SET_ACTIVITY" ∧ event = (setActivity now socketId clientId msg).1 := by
  unfold messageEffect at sent
  split at sent
  · rename_i command
    exact ⟨command, (Option.some.inj sent).symm⟩
  · split at sent <;> cases sent

theorem messageEffect_socketId {now : Nat → Int} {socketId : Nat} {clientId : String}
    {msg : RpcMessage} {event : ActivityEvent}
    (sent : (messageEffect now socketId clientId msg).1 = some event) :
    event.socketId = socketId := by
  rw [(messageEffect_event sent).2, setActivity_socketId]

theorem messageEffect_serverSent {now : Nat → Int} {socketId : Nat} {clientId : String}
    {msg : RpcMessage} {event : ActivityEvent}
    (sent : (messageEffect now socketId clientId msg).1 = some event) : event.ServerSent := by
  rw [(messageEffect_event sent).2]
  exact setActivity_serverSent ..

namespace ServerState

@[simp] theorem handleMessage_sockets (now : Nat → Int) (st : ServerState) (socketId : Nat)
    (clientId : String) (msg : RpcMessage) :
    (st.handleMessage now socketId clientId msg).1.sockets = st.sockets := by
  simp only [handleMessage]
  cases (messageEffect now socketId clientId msg).1 <;> rfl

@[simp] theorem handleMessage_nextSocketId (now : Nat → Int) (st : ServerState) (socketId : Nat)
    (clientId : String) (msg : RpcMessage) :
    (st.handleMessage now socketId clientId msg).1.nextSocketId = st.nextSocketId := by
  simp only [handleMessage]
  cases (messageEffect now socketId clientId msg).1 <;> rfl

theorem handleMessage_activityTx (now : Nat → Int) (st : ServerState) (socketId : Nat)
    (clientId : String) (msg : RpcMessage) :
    (st.handleMessage now socketId clientId msg).1.activityTx =
      (messageEffect now socketId clientId msg).1.elim st.activityTx st.activityTx.send := by
  simp only [handleMessage]
  cases (messageEffect now socketId clientId msg).1 <;> rfl

end ServerState

end Dirpc
