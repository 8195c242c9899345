import Dirpc.Base.Gather
import Dirpc.Transports.Upgrade
import Mathlib.Data.List.Find

namespace Dirpc

open Base

/-- An upgrade request of ASCII characters: the path, the parameters behind it, and the names and
    values of the headers. -/
structure Request where
  path : List Char
  params : List (List Char × List Char)
  headers : List (List Char × List Char)
  pathClean : ∀ c ∈ path, isWhitespace c = false ∧ c ≠ '?'
  nameClean : ∀ p ∈ params, ∀ c ∈ p.1, isWhitespace c = false ∧ c ≠ '&' ∧ c ≠ '='
  valueClean : ∀ p ∈ params, ∀ c ∈ p.2, isWhitespace c = false ∧ c ≠ '&'
  headerClean : ∀ h ∈ headers, ':' ∉ h.1 ∧ '\n' ∉ h.1 ∧ '\n' ∉ h.2
  pathAscii : ∀ c ∈ path, c.toNat < 128
  paramAscii : ∀ p ∈ params, ∀ c ∈ p.1 ++ p.2, c.toNat < 128
  headerAscii : ∀ h ∈ headers, ∀ c ∈ h.1 ++ h.2, c.toNat < 128

def lastParam (params : List (List Char × List Char)) (name : String) : Option (List Char) :=
  (params.reverse.find? fun p => p.1 = name.toList).map Prod.snd

def paramPart (p : List Char × List Char) : List Char := p.1 ++ '=' :: p.2

def headerLine (h : List Char × List Char) : List Char := h.1 ++ ':' :: h.2

namespace Request

def query (r : Request) : List Char :=
  ['&'].intercalate (r.params.map paramPart)

def target (r : Request) : List Char := r.path ++ '?' :: r.query

def requestLine (r : Request) : List Char :=
  ['G', 'E', 'T'] ++ ' ' :: (r.target ++ ' ' :: "HTTP/1.1".toList)

def allLines (r : Request) : List (List Char) := r.requestLine :: (r.headers.map headerLine ++ [[]])

def text (r : Request) : List Char := r.allLines.flatMap fun line => line ++ ['\r', '\n']

def last (r : Request) (name : String) : Option (List Char) := lastParam r.params name

def origin (r : Request) : String :=
  ((r.headers.find? fun h => eqIgnoreAsciiCase h.1 "origin".toList && !h.2.isEmpty).map fun h =>
    String.ofList (trim h.2)).getD ""

def answer (r : Request) (key : String) : Handshaken :=
  if (r.last "v").bind parseU32 ≠ some 1 then
    .refused "400 Bad Request" "v must be 1" "WS: v must be 1"
  else if r.last "encoding" ≠ some "json".toList then
    .refused "400 Bad Request" "encoding must be json" "WS: encoding must be json"
  else if !validateOrigin r.origin then
    .refused "403 Forbidden" "origin not allowed" "WS: origin not allowed"
  else .upgraded key (String.ofList ((r.last "client_id").getD []))

end Request

theorem lastParam_concat (params : List (List Char × List Char)) (p : List Char × List Char)
    (name : String) : lastParam (params ++ [p]) name =
      if p.1 = name.toList then some p.2 else lastParam params name := by
  unfold lastParam
  rw [List.reverse_append, List.reverse_singleton, List.singleton_append, List.find?_cons]
  by_cases same : p.1 = name.toList <;> simp [same]

theorem queryPart_param {p : List Char × List Char} (clean : '=' ∉ p.1) (q : Query) :
    queryPart q (paramPart p) =
      ⟨if p.1 = "v".toList then parseU32 p.2 else q.v,
        if p.1 = "encoding".toList then some (String.ofList p.2) else q.encoding,
        if p.1 = "client_id".toList then String.ofList p.2 else q.clientId⟩ := by
  obtain ⟨name, value⟩ := p
  have named : ∀ s : String, String.ofList name = s ↔ name = s.toList := by
    intro s
    constructor
    · rintro rfl
      exact String.toList_ofList.symm
    · rintro rfl
      exact String.ofList_toList
  rw [queryPart, paramPart, splitOnce_append clean]
  dsimp only
  split
  · rename_i same
    obtain rfl := (named _).mp same
    rfl
  · rename_i same
    obtain rfl := (named _).mp same
    rfl
  · rename_i same
    obtain rfl := (named _).mp same
    rfl
  · rename_i v encoding clientId
    rw [if_neg fun same => v ((named _).mpr same), if_neg fun same => encoding ((named _).mpr same),
      if_neg fun same => clientId ((named _).mpr same)]

theorem foldl_params {params : List (List Char × List Char)} (clean : ∀ p ∈ params, '=' ∉ p.1) :
    (params.map paramPart).foldl queryPart ⟨none, none, ""⟩ =
      ⟨(lastParam params "v").bind parseU32, (lastParam params "encoding").map String.ofList,
        String.ofList ((lastParam params "client_id").getD [])⟩ := by
  induction params using List.reverseRecOn with
  | nil => rfl
  | append_singleton params p ih =>
    have earlier := ih fun p member => clean p (List.mem_append_left _ member)
    rw [List.map_append, List.foldl_append, earlier, List.map_singleton, List.foldl_cons,
      List.foldl_nil, queryPart_param (clean p (by simp)), lastParam_concat, lastParam_concat,
      lastParam_concat]
    congr 1
    · split <;> rfl
    · split <;> rfl
    · split <;> rfl

theorem mem_intercalate {α : Type*} {sep : List α} {parts : List (List α)} {x : α}
    (member : x ∈ sep.intercalate parts) : x ∈ sep ∨ ∃ part ∈ parts, x ∈ part := by
  induction parts with
  | nil => cases member
  | cons part parts ih =>
    cases parts with
    | nil => exact .inr ⟨part, List.mem_singleton_self part, by simpa using member⟩
    | cons next parts =>
      rw [List.intercalate_cons_cons, List.mem_append, List.mem_append] at member
      rcases member with (first | between) | later
      · exact .inr ⟨part, List.mem_cons_self, first⟩
      · exact .inl between
      · rcases ih later with between | ⟨other, listed, inside⟩
        · exact .inl between
        · exact .inr ⟨other, List.mem_cons_of_mem _ listed, inside⟩

theorem splitOn_query {params : List (List Char × List Char)}
    (clean : ∀ p ∈ params, '&' ∉ p.1 ∧ '&' ∉ p.2) (filled : params ≠ []) :
    (['&'].intercalate (params.map paramPart)).splitOn '&' = params.map paramPart := by
  apply List.splitOn_intercalate
  · intro part member inside
    obtain ⟨p, listed, rfl⟩ := List.mem_map.mp member
    rcases List.mem_append.mp inside with name | value
    · exact (clean p listed).1 name
    · rcases List.mem_cons.mp value with equals | value
      · cases equals
      · exact (clean p listed).2 value
  · simpa using filled

theorem findLine_total {test : List Char → MayPanic Bool} {pred : List Char → Bool}
    {candidates : List (List Char)} (tested : ∀ line ∈ candidates, test line = some (pred line)) :
    findLine test candidates = some (candidates.find? pred) := by
  induction candidates with
  | nil => rfl
  | cons line rest ih =>
    have later := ih fun line member => tested line (List.mem_cons_of_mem _ member)
    rw [findLine, tested line List.mem_cons_self, Option.bind_some, List.find?_cons]
    cases pred line with
    | true => rfl
    | false => exact later

def originNamed (line : List Char) : Bool :=
  decide (7 < line.length) && eqIgnoreAsciiCase (line.take 7) originName

theorem isOriginLine_ascii {line : List Char} (ascii : ∀ c ∈ line, c.toNat < 128) :
    isOriginLine line = some (originNamed line) := by
  rw [isOriginLine, originNamed, byteLen_ascii ascii]
  split
  · rename_i long
    rw [takeBytes_of_ascii ascii (Nat.le_of_lt long), decide_eq_true long]
    rfl
  · rename_i short
    rw [decide_eq_false short]
    rfl

theorem originNamed_headerLine {h : List Char × List Char} (clean : ':' ∉ h.1) :
    originNamed (headerLine h) = (eqIgnoreAsciiCase h.1 "origin".toList && !h.2.isEmpty) := by
  obtain ⟨name, value⟩ := h
  have colon : ∀ front : List Char, eqIgnoreAsciiCase (front ++ [':']) originName =
      eqIgnoreAsciiCase front "origin".toList := by
    intro front
    have right : originName.map Char.toLower = "origin".toList.map Char.toLower ++ [':'] := by decide
    have same : front.map Char.toLower ++ [':'] = "origin".toList.map Char.toLower ++ [':'] ↔
        front.map Char.toLower = "origin".toList.map Char.toLower := List.append_left_inj [':']
    rw [Bool.eq_iff_iff, eqIgnoreAsciiCase, eqIgnoreAsciiCase, beq_iff_eq, beq_iff_eq, right,
      List.map_append]
    exact same
  rw [Bool.eq_iff_iff, originNamed, Bool.and_eq_true, Bool.and_eq_true, decide_eq_true_iff]
  constructor
  · intro assumed
    obtain ⟨long, named⟩ := assumed
    obtain ⟨_, _, front, start, unsplit⟩ := originName_split named
    have whole : headerLine (name, value) = front ++ ':' :: (headerLine (name, value)).drop 7 := by
      rw [← List.singleton_append, ← List.append_assoc, ← start, List.take_append_drop]
    have halves : splitOnce ':' (headerLine (name, value)) = some (name, value) :=
      splitOnce_append clean
    rw [whole, splitOnce_append unsplit] at halves
    obtain ⟨rfl, rest⟩ := Prod.mk.inj (Option.some.inj halves)
    rw [start, colon] at named
    refine ⟨named, ?_⟩
    have more := congrArg List.length rest
    rw [List.length_drop] at more
    cases value with
    | nil =>
      rw [List.length_nil] at more
      omega
    | cons c value => rfl
  · intro assumed
    obtain ⟨named, filled⟩ := assumed
    have six : name.length = 6 := eqIgnoreAsciiCase_length named
    have front : (headerLine (name, value)).take 7 = name ++ [':'] := by
      have split : headerLine (name, value) = (name ++ [':']) ++ value := by simp [headerLine]
      rw [split, List.take_left' (by simp [six])]
    refine ⟨?_, ?_⟩
    · cases value with
      | nil => cases filled
      | cons c value =>
        simp only [headerLine, List.length_append, List.length_cons, six]
        omega
    · rw [front, colon]
      exact named

namespace Request

variable {r : Request}

theorem query_parsed (r : Request) : (r.query.splitOn '&').foldl queryPart ⟨none, none, ""⟩ =
    ⟨(r.last "v").bind parseU32, (r.last "encoding").map String.ofList,
      String.ofList ((r.last "client_id").getD [])⟩ := by
  have equals : ∀ p ∈ r.params, '=' ∉ p.1 := fun p listed inside =>
    (r.nameClean p listed _ inside).2.2 rfl
  by_cases filled : r.params = []
  · rw [query, last, last, last, filled]
    rfl
  · have split : r.query.splitOn '&' = r.params.map paramPart := by
      apply splitOn_query _ filled
      intro p listed
      exact ⟨fun inside => (r.nameClean p listed _ inside).2.1 rfl,
        fun inside => (r.valueClean p listed _ inside).2 rfl⟩
    rw [split]
    exact foldl_params equals

theorem target_forall {p : Char → Prop} (separators : p '?' ∧ p '&' ∧ p '=')
    (path : ∀ c ∈ r.path, p c) (params : ∀ q ∈ r.params, ∀ c ∈ q.1 ++ q.2, p c) :
    ∀ c ∈ r.target, p c := by
  intro c member
  rcases List.mem_append.mp member with inside | rest
  · exact path c inside
  · rcases List.mem_cons.mp rest with rfl | inside
    · exact separators.1
    · rcases mem_intercalate inside with between | ⟨part, listed, within⟩
      · rw [List.mem_singleton.mp between]
        exact separators.2.1
      · obtain ⟨q, known, rfl⟩ := List.mem_map.mp listed
        rcases List.mem_append.mp within with name | value
        · exact params q known c (List.mem_append_left _ name)
        · rcases List.mem_cons.mp value with rfl | value
          · exact separators.2.2
          · exact params q known c (List.mem_append_right _ value)

theorem target_unspaced : ∀ c ∈ r.target, isWhitespace c = false := by
  refine target_forall (by decide) (fun c inside => (r.pathClean c inside).1) ?_
  intro q listed c inside
  rcases List.mem_append.mp inside with name | value
  · exact (r.nameClean q listed c name).1
  · exact (r.valueClean q listed c value).1

theorem allLines_clean : ∀ line ∈ r.allLines, '\n' ∉ line := by
  intro line member inside
  rcases List.mem_cons.mp member with rfl | member
  · have blank : isWhitespace '\n' = true := by decide
    rcases List.mem_append.mp inside with get | rest
    · exact absurd get (by decide)
    · rcases List.mem_cons.mp rest with space | rest
      · cases space
      · rcases List.mem_append.mp rest with target | version
        · rw [target_unspaced _ target] at blank
          cases blank
        · exact absurd version (by decide)
  · rcases List.mem_append.mp member with header | last
    · obtain ⟨h, listed, rfl⟩ := List.mem_map.mp header
      obtain ⟨_, name, value⟩ := r.headerClean h listed
      rcases List.mem_append.mp inside with inside | rest
      · exact name inside
      · rcases List.mem_cons.mp rest with colon | inside
        · cases colon
        · exact value inside
    · rw [List.mem_singleton.mp last] at inside
      cases inside

theorem lines_text (r : Request) : lines r.text = r.allLines := lines_crlf allLines_clean

theorem requestLine_words (r : Request) :
    splitWhitespace r.requestLine = [['G', 'E', 'T'], r.target, "HTTP/1.1".toList] := by
  have filled : r.target ≠ [] := by simp [target]
  rw [requestLine, splitWhitespace_cons (by decide) (by simp [isWhitespace]) (by decide),
    splitWhitespace_cons filled target_unspaced (by decide)]
  rfl

theorem parseQuery_text (r : Request) : parseQuery (bytes r.text) =
    ⟨(r.last "v").bind parseU32, (r.last "encoding").map String.ofList,
      String.ofList ((r.last "client_id").getD [])⟩ := by
  have path : '?' ∉ r.path := fun inside => (r.pathClean _ inside).2 rfl
  rw [parseQuery, fromUtf8_bytes, ← r.query_parsed]
  dsimp only [Option.getD_some]
  rw [lines_text, allLines, List.head?_cons, Option.getD_some, requestLine_words]
  change List.foldl _ _ ((((splitOnce '?' r.target).map Prod.snd).getD []).splitOn '&') = _
  rw [target, splitOnce_append path]
  rfl

theorem allLines_ascii : ∀ line ∈ r.allLines, ∀ c ∈ line, c.toNat < 128 := by
  intro line member c inside
  rcases List.mem_cons.mp member with rfl | member
  · rcases List.mem_append.mp inside with get | rest
    · exact (by simp : ∀ c ∈ ['G', 'E', 'T'], c.toNat < 128) c get
    · rcases List.mem_cons.mp rest with rfl | rest
      · decide
      · rcases List.mem_append.mp rest with target | version
        · exact target_forall (by decide) r.pathAscii r.paramAscii c target
        · exact (by simp : ∀ c ∈ ' ' :: "HTTP/1.1".toList, c.toNat < 128) c version
  · rcases List.mem_append.mp member with header | last
    · obtain ⟨h, listed, rfl⟩ := List.mem_map.mp header
      rcases List.mem_append.mp inside with name | rest
      · exact r.headerAscii h listed c (List.mem_append_left _ name)
      · rcases List.mem_cons.mp rest with rfl | value
        · decide
        · exact r.headerAscii h listed c (List.mem_append_right _ value)
    · rw [List.mem_singleton.mp last] at inside
      cases inside

theorem extractOrigin_text (r : Request) : extractOrigin (bytes r.text) = some r.origin := by
  have first : originNamed r.requestLine = false := by
    have unnamed : eqIgnoreAsciiCase (r.requestLine.take 7) originName = false := by
      rw [eqIgnoreAsciiCase, requestLine]
      rfl
    rw [originNamed, unnamed, Bool.and_false]
  have headers : (r.headers.map headerLine).find? originNamed =
      (r.headers.find? fun h => eqIgnoreAsciiCase h.1 "origin".toList && !h.2.isEmpty).map
        headerLine := by
    rw [List.find?_map]
    apply congrArg
    apply List.find?_congr
    intro h listed
    exact originNamed_headerLine (r.headerClean h listed).1
  have found : r.allLines.find? originNamed = (r.headers.find? fun h =>
      eqIgnoreAsciiCase h.1 "origin".toList && !h.2.isEmpty).map headerLine := by
    rw [allLines, List.find?_cons, first, List.find?_append, headers]
    exact Option.or_none
  rw [extractOrigin, fromUtf8_bytes]
  dsimp only
  rw [lines_text, findLine_total fun line member => isOriginLine_ascii (allLines_ascii line member),
    found, Option.map_some, origin]
  cases chosen : r.headers.find? fun h =>
      eqIgnoreAsciiCase h.1 "origin".toList && !h.2.isEmpty with
  | none => rfl
  | some h =>
    have clean := (r.headerClean h (List.mem_of_find?_eq_some chosen)).1
    rw [Option.map_some, Option.map_some, originValue, Option.bind_some, headerLine,
      splitOnce_append clean]
    rfl

theorem text_filled (r : Request) : bytes r.text ≠ [] := by
  obtain ⟨tail, split⟩ : ∃ tail, r.text = ['G'] ++ tail := ⟨_, rfl⟩
  intro nothing
  rw [split, bytes_append] at nothing
  exact absurd (List.append_eq_nil_iff.mp nothing).1 (by decide)

end Request

/-- The parser finds no other request than the whole, and rejects the whole where it has rejected a
    part, as one does that limits the bytes and the headers. -/
structure Reads (parse : List UInt8 → Parsed) (request : List UInt8) (key : String) : Prop where
  early : ∀ part, part <+: request → part ≠ request →
    parse part = .incomplete ∨ (parse part = .error ∧ parse request = .error)
  whole : parse request = .request key ∨ parse request = .error

theorem Reads.waits {parse : List UInt8 → Parsed} {request part : List UInt8} {key : String}
    (reads : Reads parse request key) (accepted : parse request = .request key)
    (inside : part <+: request) (different : part ≠ request) : parse part = .incomplete := by
  rcases reads.early part inside different with waits | ⟨_, rejected⟩
  · exact waits
  · rw [rejected] at accepted
    cases accepted

def lookRequest (parse : List UInt8 → Parsed) (buf : List UInt8) : Option (MayPanic Handshaken) :=
  match checkRequest parse buf with
  | some .more => none
  | outcome => some outcome

theorem doHandshake_gather (parse : List UInt8 → Parsed) (chunks : List (List UInt8))
    (buf : List UInt8) : doHandshake parse chunks buf =
      ((gather (lookRequest parse) chunks buf).2.getD (some .failed)).map fun outcome =>
        ((gather (lookRequest parse) chunks buf).1, outcome) := by
  induction chunks generalizing buf with
  | nil => rfl
  | cons chunk chunks ih =>
    rw [doHandshake, gather, lookRequest]
    split
    · rfl
    · cases checkRequest parse (buf ++ chunk) with
      | none => rfl
      | some outcome =>
        cases outcome with
        | more => exact ih (buf ++ chunk)
        | _ => rfl

theorem checkRequest_text {parse : List UInt8 → Parsed} {r : Request} {key : String}
    (complete : parse (bytes r.text) = .request key)
    (fits : (bytes r.text).length ≤ maxWsHandshakeBytes) :
    checkRequest parse (bytes r.text) = some (r.answer key) := by
  have encoding : (r.last "encoding").map String.ofList = some "json" ↔
      r.last "encoding" = some "json".toList := by
    constructor
    · intro same
      obtain ⟨value, found, named⟩ := Option.map_eq_some_iff.mp same
      rw [found, ← named, String.toList_ofList]
    · intro found
      rw [found]
      rfl
  rw [checkRequest, if_neg (Nat.not_lt.mpr fits), complete]
  dsimp only
  rw [r.parseQuery_text, r.extractOrigin_text, Request.answer]
  dsimp only
  simp only [ne_eq, encoding, Option.map_some]
  split
  · rfl
  · split
    · rfl
    · rw [apply_ite some]

theorem answer_ne_more (r : Request) (key : String) : r.answer key ≠ .more := by
  intro more
  unfold Request.answer at more
  split at more
  · cases more
  · split at more
    · cases more
    · split at more
      · cases more
      · cases more

theorem lookRequest_text {parse : List UInt8 → Parsed} {r : Request} {key : String}
    (complete : parse (bytes r.text) = .request key)
    (fits : (bytes r.text).length ≤ maxWsHandshakeBytes) :
    lookRequest parse (bytes r.text) = some (some (r.answer key)) := by
  rw [lookRequest, checkRequest_text complete fits]
  split
  · rename_i more
    exact absurd (Option.some.inj more) (answer_ne_more r key)
  · rfl

theorem lookRequest_incomplete {parse : List UInt8 → Parsed} {buf : List UInt8}
    (incomplete : parse buf = .incomplete) (fits : buf.length ≤ maxWsHandshakeBytes) :
    lookRequest parse buf = none := by
  rw [lookRequest, checkRequest, if_neg (Nat.not_lt.mpr fits), incomplete]

def tooLarge : Handshaken :=
  .refused "431 Request Header Fields Too Large" "request too large" "WS: handshake too large"

theorem lookRequest_oversized (parse : List UInt8 → Parsed) {buf : List UInt8}
    (long : maxWsHandshakeBytes < buf.length) : lookRequest parse buf = some (some tooLarge) := by
  rw [lookRequest, checkRequest, if_pos long, tooLarge]

section Answers

variable {r : Request} {parse : List UInt8 → Parsed} {key : String} {chunks : List (List UInt8)}

theorem chunks_ne_nil (cut : chunks.flatten = bytes r.text) : chunks ≠ [] := by
  rintro rfl
  exact r.text_filled cut.symm

theorem doHandshake_accepted (reads : Reads parse (bytes r.text) key)
    (accepted : parse (bytes r.text) = .request key) (cut : chunks.flatten = bytes r.text)
    (filled : ∀ chunk ∈ chunks, chunk ≠ []) (rest : List (List UInt8))
    (fits : (bytes r.text).length ≤ maxWsHandshakeBytes) :
    doHandshake parse (chunks ++ rest) [] = some (bytes r.text, r.answer key) := by
  have answered : lookRequest parse ([] ++ chunks.flatten) = some (some (r.answer key)) := by
    rw [List.nil_append, cut]
    exact lookRequest_text accepted fits
  have silent : ∀ part, part <+: chunks.flatten → part ≠ chunks.flatten →
      lookRequest parse ([] ++ part) = none := by
    intro part inside different
    rw [cut] at inside different
    exact lookRequest_incomplete (reads.waits accepted inside different)
      (Nat.le_trans inside.length_le fits)
  rw [doHandshake_gather, gather_append (chunks_ne_nil cut) filled silent answered, List.nil_append,
    cut]
  rfl

end Answers

def keyHeader (line : List Char) : Option String :=
  match splitOnce ':' line with
  | some (name, value) =>
    if eqIgnoreAsciiCase name "sec-websocket-key".toList then some (String.ofList (trim value))
    else none
  | none => none

/-- A parser that takes 8192 bytes and 32 headers, and looks for the key at the blank line. -/
def limitedParse (buf : List UInt8) : Parsed :=
  if 8192 < buf.length ∨ 34 < buf.count 10 then .error
  else if [13, 10, 13, 10] <:+: buf then
    ((lines ((fromUtf8 buf).getD [])).findSome? keyHeader).elim .error .request
  else .incomplete

theorem limitedParse_text {r : Request}
    (fits : ¬(8192 < (bytes r.text).length ∨ 34 < (bytes r.text).count 10))
    (blank : [13, 10, 13, 10] <:+: bytes r.text) : limitedParse (bytes r.text) =
      (r.allLines.findSome? keyHeader).elim .error .request := by
  rw [limitedParse, if_neg fits, if_pos blank, fromUtf8_bytes, Option.getD_some, r.lines_text]

theorem reads_limitedParse {request : List UInt8} {key : String}
    (whole : limitedParse request = .request key ∨ limitedParse request = .error)
    (blank : ¬[13, 10, 13, 10] <:+: request.dropLast) : Reads limitedParse request key := by
  refine ⟨?_, whole⟩
  intro part inside different
  have early : part <+: request.dropLast := by
    obtain ⟨rest, rfl⟩ := inside
    have more : rest ≠ [] := by
      rintro rfl
      exact different (List.append_nil _).symm
    rw [List.dropLast_append_of_ne_nil more]
    exact List.prefix_append ..
  have unfinished : ¬[13, 10, 13, 10] <:+: part := fun found => blank (found.trans early.isInfix)
  by_cases crossed : 8192 < part.length ∨ 34 < part.count 10
  · have beyond : 8192 < request.length ∨ 34 < request.count 10 :=
      crossed.imp (fun long => Nat.lt_of_lt_of_le long inside.length_le)
        (fun many => Nat.lt_of_lt_of_le many (inside.sublist.count_le _))
    exact .inr ⟨if_pos crossed, if_pos beyond⟩
  · left
    rw [limitedParse, if_neg crossed, if_neg unfinished]

def upgradeHeaders : List (List Char × List Char) :=
  [("Host".toList, " localhost".toList), ("Upgrade".toList, " websocket".toList),
    ("Connection".toList, " Upgrade".toList),
    ("Sec-WebSocket-Key".toList, " dGhlIHNhbXBsZSBub25jZQ==".toList),
    ("Sec-WebSocket-Version".toList, " 13".toList)]

def anonymousRequest : Request where
  path := ['/']
  params := []
  headers := upgradeHeaders
  pathClean := by simp [isWhitespace]
  nameClean := by simp
  valueClean := by simp
  headerClean := by decide
  pathAscii := by simp
  paramAscii := by simp
  headerAscii := by simp [or_imp, forall_and, upgradeHeaders]

/-- While it waits for a request, the server keeps no more than the limit and one read. -/
theorem doHandshake_bounded (parse : List UInt8 → Parsed) {chunks : List (List UInt8)} {m : Nat}
    (small : ∀ chunk ∈ chunks, chunk.length ≤ m) {buf : List UInt8} {outcome : Handshaken}
    (ended : doHandshake parse chunks [] = some (buf, outcome)) :
    buf.length ≤ maxWsHandshakeBytes + m := by
  have past : ∀ buf : List UInt8, maxWsHandshakeBytes < buf.length →
      (lookRequest parse buf).isSome := by
    intro buf large
    rw [lookRequest_oversized parse large]
    rfl
  have bounded : (gather (lookRequest parse) chunks []).1.length ≤ maxWsHandshakeBytes + m :=
    gather_length small past (Nat.zero_le _)
  rw [doHandshake_gather] at ended
  obtain ⟨_, _, same⟩ := Option.map_eq_some_iff.mp ended
  obtain ⟨rfl, _⟩ := Prod.mk.inj same
  exact bounded

theorem doHandshake_crossing {chunk : List UInt8} (length : chunk.length = 9000) :
    doHandshake (fun _ => .incomplete) [chunk, chunk, chunk] [] =
      some (chunk ++ chunk, tooLarge) := by
  have filled : chunk ≠ [] := by
    rintro rfl
    cases length
  simp [doHandshake, checkRequest, filled, length, maxWsHandshakeBytes, tooLarge]

/-- The second of three reads crosses the limit, and the third is not made. -/
theorem doHandshake_bounded_crossing : ∃ chunk buf : List UInt8,
    doHandshake (fun _ => .incomplete) [chunk, chunk, chunk] [] = some (buf, tooLarge) ∧
      maxWsHandshakeBytes < buf.length ∧ buf.length ≤ maxWsHandshakeBytes + 9000 := by
  let chunk : List UInt8 := List.replicate 9000 65
  have length : chunk.length = 9000 := List.length_replicate
  have small : ∀ read ∈ [chunk, chunk, chunk], read.length ≤ 9000 := by
    intro read member
    simp only [List.mem_cons, List.not_mem_nil, or_false, or_self] at member
    rw [member, length]
  have ended := doHandshake_crossing length
  refine ⟨chunk, _, ended, ?_, doHandshake_bounded _ small ended⟩
  rw [List.length_append, length]
  decide

end Dirpc
