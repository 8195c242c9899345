import Dirpc.Base.Positions
import Dirpc.Server.Message

namespace Dirpc

open Base Base.Json

def hasField (key : String) (item : Json) : Bool := (item.get key).isSome

def labelsOf (items : List Json) : List Json := items.filterMap (·.get "label")

def urlsOf (items : List Json) : List Json := items.filterMap (·.get "url")

def broadcastActivity (now : Nat → Int) (socketId : Nat) (clientId : String) (msg : RpcMessage) :
    Option Json :=
  (messageEffect now socketId clientId msg).1.bind ActivityEvent.activity

def buttonUrls (activity : Json) : Option (List Json) :=
  ((activity.get "metadata").bind (·.get "button_urls")).bind asArray

/-- The label and the url at index `i` are those of item `p`. Metadata of the client's own replace
    the server's, and their urls come from no item. -/
structure SameItem (raw : List (String × Json)) (items urls : List Json) (i p : Nat) : Prop where
  label : NthOf (hasField "label") items i p
  url : NthOf (hasField "url") items i p
  fromServer : getField "metadata" raw = none
  labelAt : (labelsOf items)[i]? = (items[p]?).bind (·.get "label")
  urlAt : urls[i]? = (items[p]?).bind (·.get "url")

/-- If the activity has the labels as its buttons, and a list of button urls, these line up. -/
def Paired (raw : List (String × Json)) (items : List Json) (activity : Json) : Prop :=
  ∀ urls, activity.get "buttons" = some (.arr (labelsOf items)) → buttonUrls activity = some urls →
    (∀ i, i < (labelsOf items).length → i < urls.length → ∃ p, SameItem raw items urls i p) ∧
      ∀ p item, items[p]? = some item → hasField "label" item = true → hasField "url" item = true →
        ∃ i, SameItem raw items urls i p

/-- No item has a label; or the urls are the server's, and no item with only one of the two is
    followed by one with the other; or the urls are the client's, there are none of them, and no
    item has both. -/
def KeepsPairs (raw : List (String × Json)) (items : List Json) : Prop :=
  (∀ item ∈ items, hasField "label" item = false) ∨
    match getField "metadata" raw with
    | none => Orderly (hasField "label") (hasField "url") items
    | some metadata => ∀ urls, (metadata.get "button_urls").bind asArray = some urls →
        urls = [] ∧ ∀ item ∈ items, ¬(hasField "label" item = true ∧ hasField "url" item = true)

variable {msg : RpcMessage} {raw : List (String × Json)} {items : List Json}

theorem labelsOf_eq_nil : labelsOf items = [] ↔ ∀ item ∈ items, hasField "label" item = false := by
  rw [labelsOf, List.filterMap_eq_nil_iff]
  refine forall₂_congr fun item _ => ?_
  rw [hasField, Option.isSome_eq_false_iff, Option.isNone_iff_eq_none]

theorem broadcastActivity_eq (command : msg.cmd = "SET_ACTIVITY")
    (shown : (msg.args.getD .null).get "activity" = some (.obj raw)) (now : Nat → Int)
    (socketId : Nat) (clientId : String) :
    broadcastActivity now socketId clientId msg = some (.obj (fullActivity clientId
      (translateTimestamps now raw) (processButtons raw).2 (processButtons raw).1)) := by
  rw [broadcastActivity, messageEffect_setActivity command, setActivity_eq shown (by simp)]
  rfl

theorem processButtons_unlabelled (buttons : getField "buttons" raw = some (.arr items))
    (none : labelsOf items = []) : processButtons raw = (Option.none, []) := by
  unfold labelsOf at none
  simp [processButtons, buttons, asArray, none]

theorem processButtons_labelled (buttons : getField "buttons" raw = some (.arr items))
    (some : labelsOf items ≠ []) : processButtons raw =
      (Option.some (labelsOf items), insertField [] "button_urls" (.arr (urlsOf items))) := by
  unfold labelsOf at some
  simp only [processButtons, buttons, Option.bind_some, asArray, List.isEmpty_iff, some, if_false,
    labelsOf, urlsOf]

section

variable {canonical metadata : List (String × Json)} {labels : Option (List Json)}

theorem fullActivity_metadata (clientId : String) :
    getField "metadata" (fullActivity clientId canonical metadata labels) =
      (getField "metadata" canonical).or (some (.obj metadata)) := by
  rw [fullActivity_other (by decide)]
  rfl

theorem fullActivity_labels (clientId : String) (labels : List Json) :
    getField "buttons" (fullActivity clientId canonical metadata (some labels)) =
      some (.arr labels) := getField_insertField_self ..

theorem fullActivity_buttons {value : Json} (given : getField "buttons" canonical = some value)
    (clientId : String) :
    getField "buttons" (fullActivity clientId canonical metadata none) = some value := by
  simp only [fullActivity, getField_mergeFields, given, Option.some_or]

end

structure CarriesButtons (raw : List (String × Json)) (items : List Json) (activity : Json) :
    Prop where
  labels : labelsOf items ≠ [] → activity.get "buttons" = some (.arr (labelsOf items))
  unlabelled : labelsOf items = [] → activity.get "buttons" = some (.arr items)
  own : ∀ metadata, getField "metadata" raw = some metadata →
    buttonUrls activity = (metadata.get "button_urls").bind asArray
  urls : getField "metadata" raw = none → labelsOf items ≠ [] →
    buttonUrls activity = some (urlsOf items)

theorem broadcast_carries (command : msg.cmd = "SET_ACTIVITY")
    (shown : (msg.args.getD .null).get "activity" = some (.obj raw))
    (buttons : getField "buttons" raw = some (.arr items)) (now : Nat → Int) (socketId : Nat)
    (clientId : String) :
    ∃ activity, broadcastActivity now socketId clientId msg = some activity ∧
      CarriesButtons raw items activity := by
  refine ⟨_, broadcastActivity_eq command shown now socketId clientId, ?_, ?_, ?_, ?_⟩
  · intro labelled
    rw [processButtons_labelled buttons labelled]
    exact fullActivity_labels ..
  · intro unlabelled
    rw [processButtons_unlabelled buttons unlabelled, get_obj]
    refine fullActivity_buttons ?_ clientId
    rw [getField_translateTimestamps (by decide), buttons]
  · intro metadata given
    rw [buttonUrls, get_obj, fullActivity_metadata, getField_translateTimestamps (by decide), given]
    rfl
  · intro absent labelled
    rw [buttonUrls, get_obj, fullActivity_metadata, getField_translateTimestamps (by decide), absent,
      processButtons_labelled buttons labelled]
    rfl

theorem sameItem {i p : Nat} (label : NthOf (hasField "label") items i p)
    (url : NthOf (hasField "url") items i p) (fromServer : getField "metadata" raw = none) :
    SameItem raw items (urlsOf items) i p :=
  ⟨label, url, fromServer, label.filterMap, url.filterMap⟩

theorem paired_server {activity : Json} (carries : CarriesButtons raw items activity)
    (fromServer : getField "metadata" raw = none) (labelled : labelsOf items ≠ []) :
    Paired raw items activity ↔ Orderly (hasField "label") (hasField "url") items := by
  have labels : (labelsOf items).length = items.countP (hasField "label") :=
    List.length_filterMap_eq_countP
  have urls : (urlsOf items).length = items.countP (hasField "url") :=
    List.length_filterMap_eq_countP
  constructor
  · intro paired
    obtain ⟨pairs, _⟩ := paired _ (carries.labels labelled) (carries.urls fromServer labelled)
    rw [orderly_iff_aligned]
    intro i p q label url
    obtain ⟨r, same⟩ := pairs i (labels ▸ label.lt_countP) (urls ▸ url.lt_countP)
    exact (label.unique same.label).trans (same.url.unique url)
  · intro orderly given _ same
    obtain rfl : urlsOf items = given :=
      Option.some.inj ((carries.urls fromServer labelled).symm.trans same)
    refine ⟨?_, ?_⟩
    · intro i below below'
      obtain ⟨p, label⟩ := exists_nthOf (labels ▸ below)
      obtain ⟨q, url⟩ := exists_nthOf (urls ▸ below')
      obtain rfl := orderly.aligned label url
      exact ⟨p, sameItem label url fromServer⟩
    · intro p item at_p label url
      obtain ⟨first, second⟩ := orderly.both at_p label url
      exact ⟨_, sameItem first second fromServer⟩

theorem paired_client {activity metadata : Json} (carries : CarriesButtons raw items activity)
    (given : getField "metadata" raw = some metadata) (labelled : labelsOf items ≠ []) :
    Paired raw items activity ↔ ∀ urls, (metadata.get "button_urls").bind asArray = some urls →
      urls = [] ∧ ∀ item ∈ items, ¬(hasField "label" item = true ∧ hasField "url" item = true) := by
  have foreign {urls : List Json} {i p : Nat} : ¬SameItem raw items urls i p := by
    intro same
    rw [same.fromServer] at given
    cases given
  constructor
  · intro paired urls listed
    obtain ⟨pairs, both⟩ := paired urls (carries.labels labelled) ((carries.own _ given).trans listed)
    refine ⟨?_, ?_⟩
    · by_contra filled
      obtain ⟨p, same⟩ := pairs 0 (List.length_pos_iff.mpr labelled) (List.length_pos_iff.mpr filled)
      exact foreign same
    · intro item member assumed
      obtain ⟨p, at_p⟩ := List.mem_iff_getElem?.mp member
      obtain ⟨i, same⟩ := both p item at_p assumed.1 assumed.2
      exact foreign same
  · intro nothing urls _ listed
    obtain ⟨rfl, apart⟩ := nothing urls ((carries.own _ given).symm.trans listed)
    refine ⟨fun i _ below => absurd below (Nat.not_lt_zero i), ?_⟩
    intro p item at_p label url
    exact absurd ⟨label, url⟩ (apart item (List.mem_of_getElem? at_p))

theorem paired_unlabelled {activity : Json} (carries : CarriesButtons raw items activity)
    (unlabelled : labelsOf items = []) : Paired raw items activity := by
  intro urls listed _
  rw [carries.unlabelled unlabelled, unlabelled] at listed
  cases listed
  exact ⟨fun i below => absurd below (Nat.not_lt_zero i), nofun⟩

theorem paired_iff {activity : Json} (carries : CarriesButtons raw items activity) :
    Paired raw items activity ↔ KeepsPairs raw items := by
  rw [KeepsPairs, ← labelsOf_eq_nil]
  by_cases labelled : labelsOf items = []
  · exact iff_of_true (paired_unlabelled carries labelled) (.inl labelled)
  · rw [or_iff_right labelled]
    cases given : getField "metadata" raw with
    | none => exact paired_server carries given labelled
    | some metadata => exact paired_client carries given labelled

theorem buttons_paired_iff (command : msg.cmd = "SET_ACTIVITY")
    (shown : (msg.args.getD .null).get "activity" = some (.obj raw))
    (buttons : getField "buttons" raw = some (.arr items)) (now : Nat → Int) (socketId : Nat)
    (clientId : String) :
    (∃ activity, broadcastActivity now socketId clientId msg = some activity ∧
      Paired raw items activity) ↔ KeepsPairs raw items := by
  obtain ⟨activity, sent, carries⟩ := broadcast_carries command shown buttons now socketId clientId
  rw [← paired_iff carries, sent]
  constructor
  · intro assumed
    rcases assumed with ⟨other, same, paired⟩
    cases same
    exact paired
  · intro paired
    exact ⟨activity, rfl, paired⟩

def activityMsg (fields : List (String × Json)) : RpcMessage :=
  { cmd := "SET_ACTIVITY", args := some (.obj [("activity", .obj fields)]) }

def bothFields : Json := .obj [("label", .str "Watch"), ("url", .str "https://watch.example")]

def mixedItems : List Json :=
  [bothFields, .str "Ask", .obj [("url", .str "https://join.example"), ("label", .str "Join")],
    .obj [("label", .str "Later")]]

theorem buttons_paired_iff_mixed : ∃ activity,
    broadcastActivity (fun _ => 0) 1 "1" (activityMsg [("buttons", .arr mixedItems)]) =
        some activity ∧
      activity.get "buttons" = some (.arr [.str "Watch", .str "Join", .str "Later"]) ∧
      buttonUrls activity =
        some [.str "https://watch.example", .str "https://join.example"] ∧
      Paired [("buttons", .arr mixedItems)] mixedItems activity := by
  have shown : ((activityMsg [("buttons", .arr mixedItems)]).args.getD .null).get "activity" =
      some (.obj [("buttons", .arr mixedItems)]) := rfl
  have orderly : KeepsPairs [("buttons", .arr mixedItems)] mixedItems := by
    right
    change Orderly (hasField "label") (hasField "url") mixedItems
    simp [Orderly, mixedItems, bothFields, hasField, Json.get, getField]
  obtain ⟨activity, sent, paired⟩ := (buttons_paired_iff rfl shown rfl (fun _ => 0) 1 "1").mpr orderly
  cases sent
  exact ⟨_, rfl, rfl, rfl, paired⟩

def urlMissing : List Json := [.obj [("label", .str "Join")], bothFields]

/-- The url of the second button is listed beside the label of the first. -/
theorem missing_url_shifts :
    ∃ activity, broadcastActivity (fun _ => 0) 1 "1" (activityMsg [("buttons", .arr urlMissing)]) =
        some activity ∧
      activity.get "buttons" = some (.arr [.str "Join", .str "Watch"]) ∧
      buttonUrls activity = some [.str "https://watch.example"] ∧
      ¬Paired [("buttons", .arr urlMissing)] urlMissing activity := by
  refine ⟨_, rfl, rfl, rfl, ?_⟩
  intro paired
  obtain ⟨pairs, _⟩ := paired _ rfl rfl
  obtain ⟨p, same⟩ := pairs 0 (by decide) (by decide)
  have first : NthOf (hasField "label") urlMissing 0 0 := ⟨⟨_, rfl, rfl⟩, rfl⟩
  obtain rfl := same.label.unique first
  obtain ⟨item, at_p, url⟩ := same.url.1
  cases at_p
  cases url

end Dirpc
