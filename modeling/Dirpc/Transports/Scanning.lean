import Dirpc.Transports.Upgrade

namespace Dirpc

open Base

def NamesOrigin (line : List Char) : Prop :=
  ∃ name rest, line = name ++ rest ∧ eqIgnoreAsciiCase name originName = true ∧ rest ≠ []

/-- Among the lines up to the first that names an origin, none that is longer than 7 bytes has a
    character across byte 7. -/
def CleanToOrigin (candidates : List (List Char)) : Prop :=
  ∀ before line after, candidates = before ++ line :: after →
    (∀ earlier ∈ before, ¬NamesOrigin earlier) → 7 < byteLen line → OnBoundary 7 line

theorem isOriginLine_eq_true_iff {line : List Char} :
    isOriginLine line = some true ↔ NamesOrigin line := by
  constructor
  · exact isOriginLine_eq_true
  · rintro ⟨name, rest, rfl, named, filled⟩
    exact isOriginLine_named named filled

theorem isOriginLine_isSome_iff {line : List Char} :
    (isOriginLine line).isSome ↔ (7 < byteLen line → OnBoundary 7 line) := by
  unfold isOriginLine
  split
  · rename_i long
    rw [Option.isSome_map, takeBytes_isSome_iff]
    exact ⟨fun clean _ => clean, fun clean => clean long⟩
  · rename_i short
    exact iff_of_true rfl fun long => absurd long short

theorem findLine_isSome_iff {test : List Char → MayPanic Bool} {candidates : List (List Char)} :
    (findLine test candidates).isSome ↔
      ∀ before line after, candidates = before ++ line :: after →
        (∀ earlier ∈ before, test earlier ≠ some true) → (test line).isSome := by
  induction candidates with
  | nil =>
    refine iff_of_true rfl ?_
    intro before line after split
    cases before <;> cases split
  | cons first rest ih =>
    rw [findLine]
    constructor
    · intro ends before line after split missed
      obtain ⟨found, searched⟩ := Option.isSome_iff_exists.mp ends
      obtain ⟨hit, tested, next⟩ := Option.bind_eq_some_iff.mp searched
      cases before with
      | nil =>
        cases split
        rw [tested]
        rfl
      | cons head before =>
        cases split
        cases hit with
        | true => exact absurd tested (missed first List.mem_cons_self)
        | false =>
          apply ih.mp (Option.isSome_iff_exists.mpr ⟨found, next⟩) before line after rfl
          intro earlier member
          exact missed earlier (List.mem_cons_of_mem _ member)
    · intro tests
      obtain ⟨hit, tested⟩ := Option.isSome_iff_exists.mp (tests [] first rest rfl nofun)
      rw [tested, Option.bind_some]
      cases hit with
      | true => rfl
      | false =>
        apply ih.mpr
        intro before line after split missed
        apply tests (first :: before) line after (by rw [split, List.cons_append])
        intro earlier member
        rcases List.mem_cons.mp member with rfl | later
        · rw [tested]
          exact nofun
        · exact missed earlier later

/-- The scan of a request panics on a text exactly where a line that it looks at has a character
    across byte 7. -/
theorem scanning_returns_iff (buf : List UInt8) :
    (∃ origin, extractOrigin buf = some origin) ↔
      ∀ text, fromUtf8 buf = some text → CleanToOrigin (lines text) := by
  rw [← Option.isSome_iff_exists, extractOrigin]
  cases decoded : fromUtf8 buf with
  | none =>
    refine iff_of_true rfl ?_
    intro text same
    cases same
  | some text =>
    rw [Option.isSome_map, findLine_isSome_iff]
    simp only [ne_eq, isOriginLine_eq_true_iff, isOriginLine_isSome_iff]
    constructor
    · intro clean _ same
      exact Option.some.inj same ▸ clean
    · intro clean
      exact clean text rfl

def accentedRequest : List Char :=
  "GET /?v=1&encoding=json HTTP/1.1\r\nX-Na: \u00e9\r\n\r\n".toList

theorem accented_header_panics :
    parseQuery (bytes accentedRequest) = ⟨some 1, some "json", ""⟩ ∧
      extractOrigin (bytes accentedRequest) = none := by
  rw [parseQuery, extractOrigin, fromUtf8_bytes]
  exact ⟨rfl, rfl⟩

end Dirpc
