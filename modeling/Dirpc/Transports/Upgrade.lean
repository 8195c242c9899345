import Dirpc.Base.Text
import Dirpc.Types

namespace Dirpc

open Base

def maxWsHandshakeBytes : Nat := 16 * 1024

def validateOrigin (origin : String) : Bool :=
  ["", "https://discord.com", "https://ptb.discord.com", "https://canary.discord.com"].contains origin

structure Query where
  v : Option Nat
  encoding : Option String
  clientId : String

def queryPart (q : Query) (part : List Char) : Query :=
  match splitOnce '=' part with
  | none => q
  | some (key, value) => match String.ofList key with
    | "v" => { q with v := parseU32 value }
    | "encoding" => { q with encoding := some (String.ofList value) }
    | "client_id" => { q with clientId := String.ofList value }
    | _ => q

def parseQuery (buf : List UInt8) : Query :=
  let text := (fromUtf8 buf).getD []
  let requestLine := (lines text).head?.getD []
  let path := (splitWhitespace requestLine)[1]?.getD ['/']
  let query := ((splitOnce '?' path).map Prod.snd).getD []
  (query.splitOn '&').foldl queryPart ⟨none, none, ""⟩

def originName : List Char := ['o', 'r', 'i', 'g', 'i', 'n', ':']

def isOriginLine (line : List Char) : MayPanic Bool :=
  if 7 < byteLen line then (takeBytes 7 line).map fun name => eqIgnoreAsciiCase name originName
  else some false

def findLine (test : List Char → MayPanic Bool) : List (List Char) → MayPanic (Option (List Char))
  | [] => some none
  | line :: rest => (test line).bind fun found => if found then some (some line) else findLine test rest

def originValue (line : Option (List Char)) : String :=
  String.ofList (((line.bind (splitOnce ':')).map fun halves => trim halves.2).getD [])

def extractOrigin (buf : List UInt8) : MayPanic String :=
  match fromUtf8 buf with
  | none => some ""
  | some text => (findLine isOriginLine (lines text)).map originValue

/-- What the request parser of the WebSocket library returns: an error, that more bytes are needed,
    or a request with its key. -/
inductive Parsed where
  | error
  | incomplete
  | request (key : String)

inductive Handshaken where
  | more
  | failed
  | refused (status body error : String)
  | upgraded (key clientId : String)

def checkRequest (parse : List UInt8 → Parsed) (buf : List UInt8) : MayPanic Handshaken :=
  if maxWsHandshakeBytes < buf.length then
    some (.refused "431 Request Header Fields Too Large" "request too large" "WS: handshake too large")
  else match parse buf with
    | .error => some .failed
    | .incomplete => some .more
    | .request key =>
      let query := parseQuery buf
      if query.v ≠ some 1 then
        some (.refused "400 Bad Request" "v must be 1" "WS: v must be 1")
      else if query.encoding ≠ some "json" then
        some (.refused "400 Bad Request" "encoding must be json" "WS: encoding must be json")
      else (extractOrigin buf).map fun origin =>
        if !validateOrigin origin then
          .refused "403 Forbidden" "origin not allowed" "WS: origin not allowed"
        else .upgraded key query.clientId

/-- Read the HTTP upgrade request: the buffer at the end and what came of it. A read of no bytes,
    or the end of `chunks`, is the end of the stream. -/
def doHandshake (parse : List UInt8 → Parsed) :
    List (List UInt8) → List UInt8 → MayPanic (List UInt8 × Handshaken)
  | [], buf => some (buf, .failed)
  | chunk :: chunks, buf =>
    if chunk = [] then some (buf, .failed)
    else (checkRequest parse (buf ++ chunk)).bind fun
      | .more => doHandshake parse chunks (buf ++ chunk)
      | outcome => some (buf ++ chunk, outcome)

def rawLines (buf : List UInt8) : List (List UInt8) := (buf.splitOn 10).map (stripLast 13)

def startsOrigin (line : List UInt8) : Bool :=
  match fromUtf8 (line.take 7) with
  | some name => eqIgnoreAsciiCase name originName
  | none => false

/-- Exactly one line names an origin, in UTF-8, and its value is neither blank nor allowed. -/
def ForeignOrigin (buf : List UInt8) : Prop :=
  ∃ text, (rawLines buf).filter startsOrigin = [bytes text] ∧ trim (text.drop 7) ≠ [] ∧
    validateOrigin (String.ofList (trim (text.drop 7))) = false

theorem parseQuery_invalid {buf : List UInt8} (invalid : fromUtf8 buf = none) :
    (parseQuery buf).v = none := by
  rw [parseQuery, invalid]
  decide

theorem originName_ascii : ∀ c ∈ originName, c.toLower.toNat < 128 := by simp [originName]

theorem originName_split {name : List Char} (named : eqIgnoreAsciiCase name originName = true) :
    byteLen name = 7 ∧ name.length = 7 ∧ ∃ front, name = front ++ [':'] ∧ ':' ∉ front := by
  have length : name.length = 7 := eqIgnoreAsciiCase_length named
  have ascii := eqIgnoreAsciiCase_ascii named originName_ascii
  refine ⟨(byteLen_ascii ascii).trans length, length, ?_⟩
  have folded : name.map Char.toLower = ['o', 'r', 'i', 'g', 'i', 'n'] ++ [':'] := eq_of_beq named
  obtain ⟨front, last, rfl, letters, colon⟩ := List.map_eq_append_iff.mp folded
  obtain ⟨c, rfl, lower⟩ := List.map_eq_singleton_iff.mp colon
  refine ⟨front, ?_, ?_⟩
  · rw [eq_of_toLower_eq lower (by decide)]
  · intro inside
    have present : ':' ∈ front.map Char.toLower := List.mem_map.mpr ⟨':', inside, rfl⟩
    rw [letters] at present
    exact absurd present (by decide)

theorem isOriginLine_named {name rest : List Char}
    (named : eqIgnoreAsciiCase name originName = true) (filled : rest ≠ []) :
    isOriginLine (name ++ rest) = some true := by
  obtain ⟨size, _⟩ := originName_split named
  have more : 0 < byteLen rest := by
    obtain ⟨c, tail, rfl⟩ := List.exists_cons_of_ne_nil filled
    have := c.utf8Size_pos
    rw [byteLen_cons]
    omega
  have taken := takeBytes_append name rest
  rw [size] at taken
  rw [isOriginLine, byteLen_append, size, if_pos (by omega), taken, Option.map_some, named]

theorem isOriginLine_eq_true {line : List Char} (found : isOriginLine line = some true) :
    ∃ name rest, line = name ++ rest ∧ eqIgnoreAsciiCase name originName = true ∧ rest ≠ [] := by
  unfold isOriginLine at found
  split at found
  · rename_i long
    obtain ⟨name, taken, named⟩ := Option.map_eq_some_iff.mp found
    obtain ⟨rest, rfl⟩ := takeBytes_eq_some taken
    refine ⟨name, rest, rfl, named, ?_⟩
    rintro rfl
    rw [List.append_nil, (originName_split named).1] at long
    exact absurd long (Nat.lt_irrefl 7)
  · cases found

theorem startsOrigin_bytes {text : List Char} :
    startsOrigin (bytes text) = true ↔
      ∃ name rest, text = name ++ rest ∧ eqIgnoreAsciiCase name originName = true := by
  constructor
  · intro starts
    unfold startsOrigin at starts
    split at starts
    · rename_i name decoded
      have ascii := eqIgnoreAsciiCase_ascii starts originName_ascii
      have front := fromUtf8_eq_some.mp decoded
      have small : ∀ byte ∈ (bytes text).take 7, byte.toNat < 128 := by
        intro byte member
        rw [← front] at member
        obtain ⟨c, inside, encoded⟩ := mem_bytes.mp member
        have low := ascii c inside
        rw [utf8EncodeChar_of_ascii low, List.mem_singleton] at encoded
        rw [encoded, UInt8.toNat_ofNat']
        omega
      obtain ⟨init, rest, rfl, start, _⟩ := ascii_prefix small (List.take_append_drop 7 _).symm
      have same : init = name := bytes_injective (start.trans front.symm)
      exact ⟨init, rest, rfl, same ▸ starts⟩
    · cases starts
  · intro assumed
    rcases assumed with ⟨name, rest, rfl, named⟩
    have size : (bytes name).length = 7 := (bytes_length name).trans (originName_split named).1
    rw [startsOrigin, bytes_append, List.take_left' size, fromUtf8_bytes]
    exact named

theorem originValue_named {name rest : List Char}
    (named : eqIgnoreAsciiCase name originName = true) :
    originValue (some (name ++ rest)) = String.ofList (trim rest) := by
  obtain ⟨_, _, front, rfl, clean⟩ := originName_split named
  rw [originValue, Option.bind_some, List.append_assoc, List.singleton_append,
    splitOnce_append clean]
  rfl

theorem findLine_cases {test : List Char → MayPanic Bool} {candidates : List (List Char)}
    {found : Option (List Char)} (searched : findLine test candidates = some found) :
    (found = none ∧ ∀ line ∈ candidates, test line = some false) ∨
      ∃ line ∈ candidates, found = some line ∧ test line = some true := by
  induction candidates with
  | nil =>
    cases searched
    exact .inl ⟨rfl, nofun⟩
  | cons line rest ih =>
    obtain ⟨hit, tested, next⟩ := Option.bind_eq_some_iff.mp searched
    cases hit with
    | true =>
      cases next
      exact .inr ⟨line, List.mem_cons_self, rfl, tested⟩
    | false =>
      rcases ih next with ⟨none, others⟩ | ⟨other, member, same, positive⟩
      · refine .inl ⟨none, ?_⟩
        intro other member
        rcases List.mem_cons.mp member with rfl | later
        · exact tested
        · exact others other later
      · exact .inr ⟨other, List.mem_cons_of_mem _ member, same, positive⟩

theorem rawLines_bytes (s : List Char) :
    rawLines (bytes s) = (s.splitOn '\n').map fun piece => bytes (stripLast '\r' piece) := by
  have split : (bytes s).splitOn 10 = (s.splitOn '\n').map bytes :=
    bytes_splitOn (a := '\n') (by decide) s
  rw [rawLines, split, List.map_map]
  apply List.map_congr_left
  intro piece _
  exact bytes_stripLast (a := '\r') (by decide) piece

theorem origin_stripped {piece line : List Char}
    (shape : line = stripLast '\r' piece ∨ line = piece) (found : isOriginLine line = some true) :
    startsOrigin (bytes (stripLast '\r' piece)) = true ∧
      originValue (some line) = String.ofList (trim ((stripLast '\r' piece).drop 7)) := by
  obtain ⟨name, rest, rfl, named, filled⟩ := isOriginLine_eq_true found
  have length := (originName_split named).2.1
  have stripped : ∃ rest', stripLast '\r' piece = name ++ rest' ∧ trim rest' = trim rest := by
    rcases shape with same | rfl
    · exact ⟨rest, same.symm, rfl⟩
    · exact ⟨_, stripLast_append filled name, trim_stripLast (by decide)⟩
  obtain ⟨rest', split, value⟩ := stripped
  rw [split, List.drop_left' length, originValue_named named, value]
  exact ⟨startsOrigin_bytes.mpr ⟨name, rest', rfl, named⟩, rfl⟩

theorem origin_listed {pieces : List (List Char)} {piece : List Char} (member : piece ∈ pieces)
    (starts : startsOrigin (bytes (stripLast '\r' piece)) = true)
    (filled : trim ((stripLast '\r' piece).drop 7) ≠ []) :
    ∃ line ∈ linesOf pieces, isOriginLine line = some true := by
  obtain ⟨name, rest, split, named⟩ := startsOrigin_bytes.mp starts
  rw [split, List.drop_left' (originName_split named).2.1] at filled
  have more : rest ≠ [] := by
    rintro rfl
    exact filled rfl
  have nonempty : piece ≠ [] := by
    rintro rfl
    have absurd_length := congrArg List.length split
    rw [List.length_append, (originName_split named).2.1] at absurd_length
    change 0 = 7 + rest.length at absurd_length
    omega
  rcases mem_linesOf member nonempty with stripped | whole
  · exact ⟨_, stripped, split ▸ isOriginLine_named named more⟩
  · refine ⟨piece, whole, ?_⟩
    rcases stripLast_cases '\r' piece with same | same
    · rw [same, split]
      exact isOriginLine_named named more
    · rw [same, split, List.append_assoc]
      exact isOriginLine_named named (by simp)

theorem extractOrigin_foreign {s text : List Char}
    (only : (rawLines (bytes s)).filter startsOrigin = [bytes text])
    (filled : trim (text.drop 7) ≠ []) {origin : String}
    (extracted : extractOrigin (bytes s) = some origin) :
    origin = String.ofList (trim (text.drop 7)) := by
  have unique : ∀ piece ∈ s.splitOn '\n', startsOrigin (bytes (stripLast '\r' piece)) = true →
      stripLast '\r' piece = text := by
    intro piece member starts
    have kept : bytes (stripLast '\r' piece) ∈ (rawLines (bytes s)).filter startsOrigin := by
      rw [rawLines_bytes]
      exact List.mem_filter.mpr ⟨List.mem_map.mpr ⟨piece, member, rfl⟩, starts⟩
    rw [only] at kept
    exact bytes_injective (List.mem_singleton.mp kept)
  have present : bytes text ∈ (rawLines (bytes s)).filter startsOrigin := by
    rw [only]
    exact List.mem_singleton_self _
  obtain ⟨listed, starts⟩ := List.mem_filter.mp present
  rw [rawLines_bytes] at listed
  obtain ⟨piece, inside, same⟩ := List.mem_map.mp listed
  have stripped : stripLast '\r' piece = text := bytes_injective same
  obtain ⟨line, candidate, named⟩ :=
    origin_listed inside (same ▸ starts) (stripped ▸ filled)
  rw [extractOrigin, fromUtf8_bytes] at extracted
  obtain ⟨found, searched, rfl⟩ := Option.map_eq_some_iff.mp extracted
  rcases findLine_cases searched with ⟨_, others⟩ | ⟨other, member, rfl, positive⟩
  · have missed := others line candidate
    rw [named] at missed
    cases missed
  · obtain ⟨source, origin, shape⟩ := linesOf_cases member
    obtain ⟨opens, value⟩ := origin_stripped shape positive
    rw [value, unique source origin opens]

/-- The turn of the loop on a buffer with a foreign origin does not upgrade: the origin is refused,
    or the buffer is no UTF-8 and the version is missing, or a slice panics. -/
theorem checkRequest_foreign (parse : List UInt8 → Parsed) {buf : List UInt8}
    (foreign : ForeignOrigin buf) (key clientId : String) :
    checkRequest parse buf ≠ some (.upgraded key clientId) := by
  intro upgraded
  obtain ⟨text, only, filled, disallowed⟩ := foreign
  unfold checkRequest at upgraded
  split at upgraded
  · cases upgraded
  · split at upgraded
    · cases upgraded
    · cases upgraded
    · dsimp only at upgraded
      split at upgraded
      · cases upgraded
      · rename_i version
        split at upgraded
        · cases upgraded
        · cases decoded : fromUtf8 buf with
          | none =>
            rw [parseQuery_invalid decoded] at version
            exact version nofun
          | some s =>
            obtain rfl := fromUtf8_eq_some.mp decoded
            obtain ⟨origin, extracted, passed⟩ := Option.map_eq_some_iff.mp upgraded
            rw [extractOrigin_foreign only filled extracted, disallowed] at passed
            cases passed

theorem doHandshake_checked {parse : List UInt8 → Parsed} {chunks : List (List UInt8)}
    {buf final : List UInt8} {key clientId : String}
    (upgraded : doHandshake parse chunks buf = some (final, .upgraded key clientId)) :
    checkRequest parse final = some (.upgraded key clientId) := by
  induction chunks generalizing buf with
  | nil => cases upgraded
  | cons chunk chunks ih =>
    rw [doHandshake] at upgraded
    split at upgraded
    · cases upgraded
    · obtain ⟨outcome, checked, rest⟩ := Option.bind_eq_some_iff.mp upgraded
      cases outcome with
      | more => exact ih rest
      | failed | refused => cases rest
      | upgraded =>
        cases rest
        exact checked

theorem foreign_origin_refused (parse : List UInt8 → Parsed) {buf : List UInt8}
    (foreign : ForeignOrigin buf) (key clientId : String) :
    checkRequest parse buf ≠ some (.upgraded key clientId) ∧
      ∀ chunks start, doHandshake parse chunks start ≠ some (buf, .upgraded key clientId) := by
  refine ⟨checkRequest_foreign parse foreign key clientId, ?_⟩
  intro chunks start upgraded
  exact checkRequest_foreign parse foreign key clientId (doHandshake_checked upgraded)

def evilOrigin : List Char := "Origin: https://evil.example".toList

def evilRequest : List Char :=
  "GET /?v=1&encoding=json HTTP/1.1\r\nHost: localhost\r\n".toList ++ (evilOrigin ++ "\r\n\r\n".toList)

theorem foreign_origin_refused_evil :
    ForeignOrigin (bytes evilRequest) ∧ checkRequest (fun _ => .request "key") (bytes evilRequest) =
        some (.refused "403 Forbidden" "origin not allowed" "WS: origin not allowed") ∧
      doHandshake (fun _ => .request "key") [bytes evilRequest] [] ≠
        some (bytes evilRequest, .upgraded "key" "") := by
  have foreign : ForeignOrigin (bytes evilRequest) := ⟨evilOrigin, by decide, by decide, by decide⟩
  exact ⟨foreign, rfl,
    (foreign_origin_refused (fun _ => .request "key") foreign "key" "").2 _ _⟩

end Dirpc
