import Dirpc.Base.JsonSearch
import Dirpc.Base.Table
import Dirpc.Process.Detectable
import Mathlib.Data.Finset.Dedup

namespace Dirpc

open Base Base.Json

/-- What the JSON library makes of a body: its value, a list of records, and the list under the
    `applications` of a wrapper; and a record from a value. -/
structure EntryDecoders where
  value : List UInt8 → Option Json
  entries : List UInt8 → Option (List DetectableEntry)
  applications : List UInt8 → Option (List DetectableEntry)
  entry : Json → Option DetectableEntry

def decodeAll (entry : Json → Option DetectableEntry) (v : Json) : Option (List DetectableEntry) :=
  v.asArray.bind (·.mapM entry)

structure EntryDecoders.Typed (decoders : EntryDecoders) : Prop where
  entries : ∀ body, decoders.entries body = (decoders.value body).bind (decodeAll decoders.entry)
  applications : ∀ body, decoders.applications body =
    ((decoders.value body).bind (·.get "applications")).bind (decodeAll decoders.entry)

def payloadKeys : List String := ["applications", "data", "results"]

section

variable (entry : Json → Option DetectableEntry) (order : IterOrder String)

def parseEntriesFromArray (items : List Json) : Option (List DetectableEntry) :=
  let entries := items.filterMap entry
  if items.isEmpty || !entries.isEmpty then some entries else none

mutual

/-- `order` is that of a map's values. -/
def parseEntriesFromValue : Json → Option (List DetectableEntry)
  | .arr items => parseEntriesFromArray entry items
  | .obj fields =>
    (payloadKeys.findSome? (parseChild fields)).or
      ((order.arrange (keys fields)).findSome? (parseChild fields))
  | _ => none

def parseChild : List (String × Json) → String → Option (List DetectableEntry)
  | [], _ => none
  | (own, child) :: rest, key =>
    if (getField key rest).isSome then parseChild rest key
    else if own = key then parseEntriesFromValue child else none

end

end

inductive ValueShape where
  | null
  | boolean
  | number
  | string
  | array (len : Nat)
  | object (keys : Finset String)

def describeJsonValue : Json → ValueShape
  | .null => .null
  | .bool _ => .boolean
  | .int _ | .float _ => .number
  | .str _ => .string
  | .arr items => .array items.length
  | .obj fields => .object (keys fields).toFinset

/-- What the text of the error is written from. -/
inductive PayloadShape where
  | array (len : Nat) (first : Option ValueShape)
  | object (keys : Finset String) (children : List (String × ValueShape))
  | other (shape : ValueShape)
  | notJson (body : List UInt8)

def describePayloadShape (decoders : EntryDecoders) (body : List UInt8) : PayloadShape :=
  match decoders.value body with
  | some (.arr items) => .array items.length (items.head?.map describeJsonValue)
  | some (.obj fields) => .object (keys fields).toFinset (payloadKeys.filterMap fun key =>
      (getField key fields).map fun child => (key, describeJsonValue child))
  | some other => .other (describeJsonValue other)
  | none => .notJson body

section

variable (decoders : EntryDecoders) (order : IterOrder String)

def searchEntries (body : List UInt8) : Except PayloadShape (List DetectableEntry) :=
  match (decoders.value body).bind (parseEntriesFromValue decoders.entry order) with
  | some entries => .ok entries
  | none => .error (describePayloadShape decoders body)

def parseDetectableEntries (body : List UInt8) : Except PayloadShape (List DetectableEntry) :=
  match decoders.entries body with
  | some entries => .ok entries
  | none =>
    match decoders.applications body with
    | some applications => .ok applications
    | none => searchEntries decoders order body

end

def searchKeys (order : IterOrder String) (known : List String) : List String :=
  payloadKeys ++ order.arrange known

variable {entry : Json → Option DetectableEntry} {order : IterOrder String}

theorem subset_searchKeys (known : List String) : known ⊆ searchKeys order known := by
  intro key member
  exact List.mem_append_right _ ((order.perm known).mem_iff.mpr member)

theorem parseChild_eq (fields : List (String × Json)) (key : String) :
    parseChild entry order fields key =
      ((getField key fields).map (parseEntriesFromValue entry order)).getD none := by
  apply eq_of_lastField
  · intro key
    rfl
  · intro own child rest key
    rw [parseChild]

theorem parseEntriesFromValue_eq (v : Json) : parseEntriesFromValue entry order v =
    (arraysIn (searchKeys order) v).findSome? (parseEntriesFromArray entry) := by
  induction v using fields_induction with
  | leaf v none =>
    cases v with
    | arr items =>
      rw [parseEntriesFromValue, arraysIn, List.findSome?_singleton]
    | obj fields => cases none
    | _ => rfl
  | object fields ih =>
    rw [parseEntriesFromValue, arraysIn, findSome?_flatMap, searchKeys, List.findSome?_append]
    have children : parseChild entry order fields = fun key =>
        (arraysUnder (searchKeys order) fields key).findSome? (parseEntriesFromArray entry) := by
      funext key
      rw [parseChild_eq, arraysUnder_eq]
      cases listed : getField key fields with
      | none => rfl
      | some child => exact ih key child listed
    rw [children]

theorem parseEntriesFromArray_eq_some {items : List Json} {list : List DetectableEntry} :
    parseEntriesFromArray entry items = some list ↔
      items.filterMap entry = list ∧ (items = [] ∨ list ≠ []) := by
  simp only [parseEntriesFromArray, Option.ite_none_right_eq_some, Option.some.injEq,
    Bool.or_eq_true, Bool.not_eq_true', List.isEmpty_iff, List.isEmpty_eq_false_iff]
  constructor
  · rintro ⟨taken, rfl⟩
    exact ⟨rfl, taken⟩
  · rintro ⟨rfl, taken⟩
    exact ⟨taken, rfl⟩

theorem parseEntriesFromArray_eq_none {items : List Json} :
    parseEntriesFromArray entry items = none ↔ items.filterMap entry = [] ∧ items ≠ [] := by
  simp only [parseEntriesFromArray, ite_eq_right_iff, reduceCtorEq, imp_false, Bool.or_eq_true,
    Bool.not_eq_true', List.isEmpty_iff, List.isEmpty_eq_false_iff, not_or, not_not, and_comm,
    ne_eq]

theorem parseEntriesFromValue_decodeAll {v : Json} {list : List DetectableEntry}
    (decoded : decodeAll entry v = some list) : parseEntriesFromValue entry order v = some list := by
  cases v with
  | arr items =>
    have all : items.mapM entry = some list := decoded
    rw [parseEntriesFromValue, parseEntriesFromArray_eq_some]
    refine ⟨filterMap_of_mapM all, ?_⟩
    have mapped := map_of_mapM all
    cases items with
    | nil => exact .inl rfl
    | cons item rest =>
      right
      rintro rfl
      cases mapped
  | _ => cases decoded

theorem parseEntriesFromValue_applications {v child : Json} {list : List DetectableEntry}
    (listed : v.get "applications" = some child) (decoded : decodeAll entry child = some list) :
    parseEntriesFromValue entry order v = some list := by
  cases v with
  | obj fields =>
    rw [get_obj] at listed
    rw [parseEntriesFromValue, payloadKeys, List.findSome?_cons, parseChild_eq, listed,
      Option.map_some, Option.getD_some, parseEntriesFromValue_decodeAll decoded]
    rfl
  | _ => cases listed

theorem parseDetectableEntries_eq {decoders : EntryDecoders} (typed : decoders.Typed)
    (body : List UInt8) :
    parseDetectableEntries decoders order body = searchEntries decoders order body := by
  have found {v : Json} {list : List DetectableEntry} (payload : decoders.value body = some v)
      (search : parseEntriesFromValue decoders.entry order v = some list) :
      searchEntries decoders order body = .ok list := by
    rw [searchEntries, payload, Option.bind_some, search]
  unfold parseDetectableEntries
  cases entries : decoders.entries body with
  | some list =>
    rw [typed.entries] at entries
    obtain ⟨v, payload, decoded⟩ := Option.bind_eq_some_iff.mp entries
    exact (found payload (parseEntriesFromValue_decodeAll decoded)).symm
  | none =>
    cases applications : decoders.applications body with
    | some list =>
      rw [typed.applications] at applications
      obtain ⟨child, wrapped, decoded⟩ := Option.bind_eq_some_iff.mp applications
      obtain ⟨v, payload, listed⟩ := Option.bind_eq_some_iff.mp wrapped
      exact (found payload (parseEntriesFromValue_applications listed decoded)).symm
    | none => rfl

def bareEntry (v : Json) : Option DetectableEntry :=
  match (v.get "id").bind asStr, (v.get "name").bind asStr, (v.get "executables").bind asArray with
  | some id, some name, some [] => some ⟨id, name, []⟩
  | _, _, _ => none

def decodersOf (body : List UInt8) (v : Json) : EntryDecoders where
  value other := if other = body then some v else none
  entries other := (if other = body then some v else none).bind (decodeAll bareEntry)
  applications other :=
    ((if other = body then some v else none).bind (·.get "applications")).bind (decodeAll bareEntry)
  entry := bareEntry

theorem decodersOf_typed (body : List UInt8) (v : Json) : (decodersOf body v).Typed :=
  ⟨fun _ => rfl, fun _ => rfl⟩

theorem decodersOf_value (body : List UInt8) (v : Json) : (decodersOf body v).value body = some v :=
  if_pos rfl

def keptOrder : IterOrder String := ⟨id, fun _ => .refl _⟩

def gameRecord : Json :=
  .obj [("id", .str "1"), ("name", .str "Game"), ("executables", .arr [])]

def brokenItems : List Json := [gameRecord, .obj [("id", .str "2")]]

def brokenBody : List UInt8 := bytes
  "[\x7b\"id\":\"1\",\"name\":\"Game\",\"executables\":[]\x7d,\x7b\"id\":\"2\"\x7d]".toList

def emptyFirstPayload : Json :=
  .obj [("applications", .arr []), ("data", .arr [gameRecord])]

def emptyFirstBody : List UInt8 := bytes
  ("\x7b\"applications\":[],\"data\":" ++
    "[\x7b\"id\":\"1\",\"name\":\"Game\",\"executables\":[]\x7d]\x7d").toList

theorem searchEntries_eq_ok {decoders : EntryDecoders} {body : List UInt8} {v : Json}
    (payload : decoders.value body = some v) {list : List DetectableEntry} :
    searchEntries decoders order body = .ok list ↔
      (arraysIn (searchKeys order) v).findSome? (parseEntriesFromArray decoders.entry) =
        some list := by
  rw [← parseEntriesFromValue_eq, searchEntries, payload, Option.bind_some]
  cases parseEntriesFromValue decoders.entry order v <;> simp

theorem entries_from_one_array {decoders : EntryDecoders} (typed : decoders.Typed) {v : Json}
    {body : List UInt8} (payload : decoders.value body = some v) (order : IterOrder String) :
    parseDetectableEntries decoders order body = searchEntries decoders order body ∧
      ∀ list, parseDetectableEntries decoders order body = .ok list →
        ∃ items, Reaches v (.arr items) ∧ items.filterMap decoders.entry = list := by
  rw [parseDetectableEntries_eq typed]
  refine ⟨rfl, ?_⟩
  intro list parsed
  obtain ⟨items, met, taken⟩ :=
    List.exists_of_findSome?_eq_some ((searchEntries_eq_ok payload).mp parsed)
  exact ⟨items, Reaches.of_mem met, (parseEntriesFromArray_eq_some.mp taken).1⟩

theorem entries_from_one_array_broken :
    parseDetectableEntries (decodersOf brokenBody (.arr brokenItems)) keptOrder brokenBody =
        searchEntries (decodersOf brokenBody (.arr brokenItems)) keptOrder brokenBody ∧
      ∀ list, parseDetectableEntries (decodersOf brokenBody (.arr brokenItems)) keptOrder brokenBody =
          .ok list →
        ∃ items, Reaches (.arr brokenItems) (.arr items) ∧ items.filterMap bareEntry = list :=
  entries_from_one_array (decodersOf_typed _ _) (decodersOf_value _ _) keptOrder

def EmptyFirst (entry : Json → Option DetectableEntry) (arrays : List (List Json)) : Prop :=
  ∃ before after, arrays = before ++ [] :: after ∧ ∀ items ∈ before, items.filterMap entry = []

theorem emptyFirst_iff {arrays : List (List Json)} {list : List DetectableEntry}
    (found : arrays.findSome? (parseEntriesFromArray entry) = some list) :
    list = [] ↔ EmptyFirst entry arrays := by
  constructor
  · rintro rfl
    obtain ⟨before, items, after, rfl, taken, passed⟩ := List.findSome?_eq_some_iff.mp found
    obtain ⟨-, rfl | filled⟩ := parseEntriesFromArray_eq_some.mp taken
    · refine ⟨before, after, rfl, ?_⟩
      intro items member
      exact (parseEntriesFromArray_eq_none.mp (passed items member)).1
    · exact absurd rfl filled
  · rintro ⟨before, after, rfl, bare⟩
    rw [List.findSome?_append] at found
    rcases Option.or_eq_some_iff.mp found with early | ⟨-, empty⟩
    · obtain ⟨items, member, taken⟩ := List.exists_of_findSome?_eq_some early
      rw [← (parseEntriesFromArray_eq_some.mp taken).1, bare items member]
    · cases empty
      rfl

/-- Where there is an entry to find the search succeeds, and its list is empty exactly where an
    empty array is met first. -/
theorem entries_found {decoders : EntryDecoders} (typed : decoders.Typed) {v item : Json}
    {items : List Json} {body : List UInt8} (payload : decoders.value body = some v)
    (reached : Reaches v (.arr items)) (member : item ∈ items)
    (decoded : (decoders.entry item).isSome) (order : IterOrder String) :
    ∃ list, parseDetectableEntries decoders order body = .ok list ∧
      (list = [] ↔ EmptyFirst decoders.entry (arraysIn (searchKeys order) v)) := by
  have taken : (parseEntriesFromArray decoders.entry items).isSome := by
    rw [Option.isSome_iff_ne_none]
    intro passed
    have bare := List.filterMap_eq_nil_iff.mp (parseEntriesFromArray_eq_none.mp passed).1 item member
    rw [bare] at decoded
    cases decoded
  obtain ⟨list, found⟩ := Option.isSome_iff_exists.mp (List.findSome?_isSome_iff.mpr
    ⟨items, reached.mem subset_searchKeys, taken⟩)
  refine ⟨list, ?_, emptyFirst_iff found⟩
  rw [parseDetectableEntries_eq typed]
  exact (searchEntries_eq_ok payload).mpr found

theorem entries_found_broken :
    ∃ list, parseDetectableEntries (decodersOf brokenBody (.arr brokenItems)) keptOrder brokenBody =
        .ok list ∧
      (list = [] ↔ EmptyFirst bareEntry (arraysIn (searchKeys keptOrder) (.arr brokenItems))) := by
  have member : gameRecord ∈ brokenItems := List.mem_cons_self
  exact entries_found (decodersOf_typed _ _) (decodersOf_value _ _) (.here _) member rfl keptOrder

theorem empty_applications_first :
    (decodersOf emptyFirstBody emptyFirstPayload).Typed ∧
      (decodersOf emptyFirstBody emptyFirstPayload).value emptyFirstBody = some emptyFirstPayload ∧
      Reaches emptyFirstPayload (.arr [gameRecord]) ∧ (bareEntry gameRecord).isSome ∧
      parseDetectableEntries (decodersOf emptyFirstBody emptyFirstPayload) keptOrder emptyFirstBody =
        .ok [] := by
  have listed : getField "data" [("applications", .arr []), ("data", .arr [gameRecord])] =
      some (.arr [gameRecord]) := rfl
  have parsed : searchEntries (decodersOf emptyFirstBody emptyFirstPayload) keptOrder emptyFirstBody =
      .ok [] := by
    rw [searchEntries, decodersOf_value]
    rfl
  refine ⟨decodersOf_typed _ _, decodersOf_value _ _, .field listed (.here _), rfl, ?_⟩
  rw [parseDetectableEntries_eq (decodersOf_typed _ _), parsed]

end Dirpc
