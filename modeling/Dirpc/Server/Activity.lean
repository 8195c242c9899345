import Dirpc.Server.Buttons

namespace Dirpc

open Base Base.Json

def scaledTime (nowMs : Int) (value : Json) : Json :=
  match value.asI64 with
  | some ts => .int (maybeToMs nowMs ts)
  | none => value

structure TimesScaled (now : Nat → Int) (ts scaled : List (String × Json)) : Prop where
  start : getField "start" scaled = (getField "start" ts).map (scaledTime (now 0))
  stop : getField "end" scaled = (getField "end" ts).map (scaledTime (now 1))
  others : AgreeOff ["start", "end"] scaled ts

def TimestampsScaled (now : Nat → Int) (raw fields : List (String × Json)) : Prop :=
  match getField "timestamps" raw with
  | some (.obj ts) =>
    ∃ scaled, getField "timestamps" fields = some (.obj scaled) ∧ TimesScaled now ts scaled
  | other => getField "timestamps" fields = other

def serverKeys : List String := ["application_id", "type", "metadata", "flags"]

def respondedData (now : Nat → Int) (socketId : Nat) (clientId : String) (msg : RpcMessage) :
    Option Json :=
  (messageEffect now socketId clientId msg).2.bind (·.get "data")

theorem messageEffect_shown {msg : RpcMessage} {activity : Json}
    (command : msg.cmd = "SET_ACTIVITY")
    (shown : (msg.args.getD .null).get "activity" = some activity) (nonnull : activity ≠ .null)
    (now : Nat → Int) (socketId : Nat) (clientId : String) :
    broadcastActivity now socketId clientId msg = some (.obj (fullActivity clientId
        (translateTimestamps now (activity.asObject.getD []))
        (processButtons (activity.asObject.getD [])).2
        (processButtons (activity.asObject.getD [])).1)) ∧
      respondedData now socketId clientId msg = some (.obj (responseData clientId
        (translateTimestamps now (activity.asObject.getD [])))) := by
  rw [broadcastActivity, respondedData, messageEffect_setActivity command,
    setActivity_eq shown nonnull]
  exact ⟨rfl, rfl⟩

section

variable {clientId : String} {canonical metadata : List (String × Json)}
variable {labels : Option (List Json)}

theorem baseFields_isSome (key : String) :
    (getField key (baseFields clientId canonical metadata)).isSome ↔ key ∈ serverKeys := by
  simp only [baseFields, getField_insertField_isSome, serverKeys, List.mem_cons, List.not_mem_nil,
    getField, Option.isSome_none, Bool.false_eq_true]
  tauto

theorem fullActivity_agrees : AgreeOff ("buttons" :: serverKeys)
    (fullActivity clientId canonical metadata labels) canonical := by
  intro key outside
  obtain ⟨other, foreign⟩ := not_or.mp (mt List.mem_cons.mpr outside)
  have absent : getField key (baseFields clientId canonical metadata) = none := by
    rwa [← Option.not_isSome_iff_eq_none, baseFields_isSome]
  rw [fullActivity_other other, absent, Option.or_none]

theorem merged_isSome (key : String) :
    (getField key (mergeFields (baseFields clientId canonical metadata) canonical)).isSome ↔
      (getField key canonical).isSome ∨ key ∈ serverKeys := by
  rw [getField_mergeFields, Option.isSome_or, Bool.or_eq_true, baseFields_isSome]

theorem fullActivity_keys (listed : labels.isSome → (getField "buttons" canonical).isSome)
    (key : String) :
    (getField key (fullActivity clientId canonical metadata labels)).isSome ↔
      (getField key canonical).isSome ∨ key ∈ serverKeys := by
  cases labels with
  | none => exact merged_isSome key
  | some labels =>
    -- Labels come from buttons of the client's own, so they add no key.
    apply (getField_insertField_isSome ..).trans
    apply (or_congr_right (merged_isSome key)).trans
    apply or_iff_right_of_imp
    rintro rfl
    exact .inl (listed rfl)

end

def OwnIdentity (clientId : String) (activity : Json) : Prop :=
  activity.get "application_id" = some (.str clientId) ∧ activity.get "type" = some (.int 0)

theorem responseData_identity (clientId : String) (canonical : List (String × Json)) :
    OwnIdentity clientId (.obj (responseData clientId canonical)) := by
  constructor
  · rw [get_obj, responseData, getField_insertField_of_ne (by decide), getField_insertField_self]
  · exact getField_insertField_self _ _ _

/-- The response reports the connection's own identity. What is broadcast has it too, as far as the
    client's activity does not bring an identity of its own. -/
theorem published_identity {msg : RpcMessage} {raw : Json} (command : msg.cmd = "SET_ACTIVITY")
    (shown : (msg.args.getD .null).get "activity" = some raw) (nonnull : raw ≠ .null)
    (now : Nat → Int) (socketId : Nat) (clientId : String) :
    ∃ activity data, broadcastActivity now socketId clientId msg = some activity ∧
      respondedData now socketId clientId msg = some data ∧ OwnIdentity clientId data ∧
      activity.get "application_id" = (raw.get "application_id").or (some (.str clientId)) ∧
      activity.get "type" = (raw.get "type").or (some (.int 0)) := by
  obtain ⟨sent, answered⟩ := messageEffect_shown command shown nonnull now socketId clientId
  refine ⟨_, _, sent, answered, responseData_identity _ _, ?_, ?_⟩
  · rw [get_obj, fullActivity_other (by decide), getField_translateTimestamps (by decide),
      get_eq_getField]
    rfl
  · rw [get_obj, fullActivity_other (by decide), getField_translateTimestamps (by decide),
      get_eq_getField]
    rfl

theorem published_identity_named :
    ∃ activity data, broadcastActivity (fun _ => 0) 1 "1" (activityMsg [("name", .str "Game")]) =
        some activity ∧
      respondedData (fun _ => 0) 1 "1" (activityMsg [("name", .str "Game")]) = some data ∧
      OwnIdentity "1" data ∧ activity.get "application_id" = some (.str "1") ∧
      activity.get "type" = some (.int 0) := by
  have shown : ((activityMsg [("name", .str "Game")]).args.getD .null).get "activity" =
      some (.obj [("name", .str "Game")]) := rfl
  exact published_identity rfl shown (by simp) (fun _ => 0) 1 "1"

theorem foreign_id_published :
    ∃ activity data,
      broadcastActivity (fun _ => 0) 1 "1" (activityMsg [("application_id", .str "2")]) =
        some activity ∧
      respondedData (fun _ => 0) 1 "1" (activityMsg [("application_id", .str "2")]) = some data ∧
      OwnIdentity "1" data ∧ activity.get "application_id" = some (.str "2") ∧
      ¬OwnIdentity "1" activity := by
  refine ⟨_, _, rfl, rfl, ⟨rfl, rfl⟩, rfl, ?_⟩
  intro own
  exact absurd (Json.str.inj (Option.some.inj own.1)) (by decide)

/-- The two outputs against the client's activity: nothing is lost, and nothing is added but what
    the server owns. -/
structure Framed (now : Nat → Int) (raw full data : List (String × Json)) : Prop where
  keys : ∀ key, (getField key full).isSome ↔ (getField key raw).isSome ∨ key ∈ serverKeys
  values : AgreeOff ("buttons" :: "timestamps" :: serverKeys) full raw
  times : TimestampsScaled now raw full
  answer : AgreeOff ["name", "application_id", "type", "timestamps"] data raw
  answerTimes : getField "timestamps" data = getField "timestamps" full

theorem processButtons_listed {raw : List (String × Json)}
    (labelled : (processButtons raw).1.isSome) : (getField "buttons" raw).isSome := by
  cases buttons : getField "buttons" raw with
  | none => simp [processButtons, buttons] at labelled
  | some value => rfl

theorem responseData_agrees (clientId : String) (canonical : List (String × Json)) :
    AgreeOff ["type", "application_id", "name"] (responseData clientId canonical) canonical :=
  AgreeOff.trans (agreeOff_insertField _ _ _)
    (AgreeOff.trans (agreeOff_insertField _ _ _) (agreeOff_insertField _ _ _))

theorem timestampToMs_self (nowMs : Int) (key : String) (ts : List (String × Json)) :
    getField key (timestampToMs nowMs key ts) = (getField key ts).map (scaledTime nowMs) := by
  unfold timestampToMs
  cases found : getField key ts with
  | none => simpa using found
  | some value =>
    rw [Option.bind_some, Option.map_some, scaledTime]
    cases value.asI64 with
    | none => exact found
    | some time => exact getField_insertField_self ..

theorem timestampToMs_agrees (nowMs : Int) (key : String) (ts : List (String × Json)) :
    AgreeOff [key] (timestampToMs nowMs key ts) ts := by
  unfold timestampToMs
  split
  · exact agreeOff_insertField _ _ _
  · exact fun _ _ => rfl

theorem timesScaled (now : Nat → Int) (ts : List (String × Json)) :
    TimesScaled now ts (timestampToMs (now 1) "end" (timestampToMs (now 0) "start" ts)) := by
  refine ⟨?_, ?_, ?_⟩
  · rw [timestampToMs_agrees _ _ _ _ (by decide), timestampToMs_self]
  · rw [timestampToMs_self, timestampToMs_agrees _ _ _ _ (by decide)]
  · have both := (timestampToMs_agrees (now 1) "end" (timestampToMs (now 0) "start" ts)).trans
      (timestampToMs_agrees (now 0) "start" ts)
    exact both.mono (by simp)

theorem translateTimestamps_scaled (now : Nat → Int) (raw : List (String × Json)) :
    TimestampsScaled now raw (translateTimestamps now raw) := by
  unfold TimestampsScaled translateTimestamps
  cases found : getField "timestamps" raw with
  | none => exact found
  | some value =>
    cases value with
    | obj ts => exact ⟨_, getField_insertField_self .., timesScaled now ts⟩
    | _ => exact found

theorem TimestampsScaled.congr {now : Nat → Int} {raw fields other : List (String × Json)}
    (scaled : TimestampsScaled now raw fields)
    (same : getField "timestamps" other = getField "timestamps" fields) :
    TimestampsScaled now raw other := by
  unfold TimestampsScaled
  rwa [same]

theorem translateTimestamps_agrees (now : Nat → Int) (raw : List (String × Json)) :
    AgreeOff ["timestamps"] (translateTimestamps now raw) raw := by
  intro key outside
  exact getField_translateTimestamps (mt List.mem_singleton.mpr outside) raw

theorem translateTimestamps_isSome (now : Nat → Int) (raw : List (String × Json)) (key : String) :
    (getField key (translateTimestamps now raw)).isSome ↔ (getField key raw).isSome := by
  unfold translateTimestamps
  cases found : getField "timestamps" raw with
  | none => rfl
  | some value =>
    cases value with
    | obj ts =>
      refine (getField_insertField_isSome ..).trans (or_iff_right_of_imp ?_)
      rintro rfl
      rw [found, Option.isSome_some]
    | _ => rfl

theorem activity_framed {msg : RpcMessage} {raw : List (String × Json)}
    (command : msg.cmd = "SET_ACTIVITY")
    (shown : (msg.args.getD .null).get "activity" = some (.obj raw)) (now : Nat → Int)
    (socketId : Nat) (clientId : String) :
    ∃ full data, broadcastActivity now socketId clientId msg = some (.obj full) ∧
      respondedData now socketId clientId msg = some (.obj data) ∧ Framed now raw full data := by
  obtain ⟨sent, answered⟩ := messageEffect_shown command shown (by simp) now socketId clientId
  have fullTimes : getField "timestamps" (fullActivity clientId (translateTimestamps now raw)
      (processButtons raw).2 (processButtons raw).1) =
      getField "timestamps" (translateTimestamps now raw) :=
    fullActivity_agrees "timestamps" (by decide)
  have answerTimes : getField "timestamps" (responseData clientId (translateTimestamps now raw)) =
      getField "timestamps" (translateTimestamps now raw) :=
    responseData_agrees clientId _ "timestamps" (by decide)
  refine ⟨_, _, sent, answered, ?_, ?_, ?_, ?_, ?_⟩
  · intro key
    refine (fullActivity_keys ?_ key).trans (or_congr_left (translateTimestamps_isSome now raw key))
    intro labelled
    exact (translateTimestamps_isSome now raw "buttons").mpr (processButtons_listed labelled)
  · apply (AgreeOff.trans fullActivity_agrees (translateTimestamps_agrees now raw)).mono
    simp
  · exact (translateTimestamps_scaled now raw).congr fullTimes
  · apply (AgreeOff.trans (responseData_agrees _ _) (translateTimestamps_agrees now raw)).mono
    simp
  · exact answerTimes.trans fullTimes.symm

theorem activity_framed_timed :
    ∃ full data, broadcastActivity (fun _ => 1700000000000) 1 "1"
        (activityMsg [("timestamps", .obj [("start", .int 1700000000), ("zone", .str "UTC")])]) =
        some (.obj full) ∧
      respondedData (fun _ => 1700000000000) 1 "1"
        (activityMsg [("timestamps", .obj [("start", .int 1700000000), ("zone", .str "UTC")])]) =
        some (.obj data) ∧
      Framed (fun _ => 1700000000000)
        [("timestamps", .obj [("start", .int 1700000000), ("zone", .str "UTC")])] full data :=
  activity_framed rfl rfl (fun _ => 1700000000000) 1 "1"

end Dirpc
