import Dirpc.Base.Str
import Mathlib.Data.List.DropRight

namespace Base

def isWhitespace (c : Char) : Bool :=
  let n := c.toNat
  (9 ≤ n && n ≤ 13) || n == 0x20 || n == 0x85 || n == 0xA0 || n == 0x1680 ||
    (0x2000 ≤ n && n ≤ 0x200A) || n == 0x2028 || n == 0x2029 || n == 0x202F || n == 0x205F ||
    n == 0x3000

def trim (s : List Char) : List Char := (s.rdropWhile isWhitespace).dropWhile isWhitespace

def splitWhitespace (s : List Char) : List (List Char) :=
  (s.splitOnP isWhitespace).filter fun part => !part.isEmpty

def splitOnce (c : Char) : List Char → Option (List Char × List Char)
  | [] => none
  | d :: s => if d = c then some ([], s) else (splitOnce c s).map fun halves => (d :: halves.1, halves.2)

def eqIgnoreAsciiCase (s t : List Char) : Bool := s.map Char.toLower == t.map Char.toLower

def stripLast {α : Type*} [DecidableEq α] (x : α) (s : List α) : List α :=
  if s.getLast? = some x then s.dropLast else s

/-- The lines among the pieces between line feeds: a piece loses its carriage return with its line
    feed, and the last piece, which has none, is kept as it is unless it is empty. -/
def linesOf : List (List Char) → List (List Char)
  | [] => []
  | [last] => if last.isEmpty then [] else [last]
  | piece :: next :: pieces => stripLast '\r' piece :: linesOf (next :: pieces)

def lines (s : List Char) : List (List Char) := linesOf (s.splitOn '\n')

def parseU32 (s : List Char) : Option Nat :=
  let digits := match s with
    | '+' :: rest => rest
    | _ => s
  if digits.isEmpty || !digits.all Char.isDigit then none
  else
    let value := digits.foldl (fun value c => 10 * value + (c.toNat - 48)) 0
    if value < 2 ^ 32 then some value else none

theorem of_mem_splitOnP {α : Type*} {p : α → Bool} {xs part : List α}
    (member : part ∈ xs.splitOnP p) : ∀ x ∈ part, p x = false := by
  induction xs generalizing part with
  | nil =>
    rw [List.splitOnP_nil, List.mem_singleton] at member
    rw [member]
    intro x absent
    cases absent
  | cons y xs ih =>
    rw [List.splitOnP_cons_eq_if_modifyHead] at member
    split at member
    · rcases List.mem_cons.mp member with rfl | later
      · intro x absent
        cases absent
      · exact ih later
    · rename_i plain
      obtain ⟨head, tail, shape⟩ := List.exists_cons_of_ne_nil (List.splitOnP_ne_nil p xs)
      rw [shape, List.modifyHead_cons] at member
      rcases List.mem_cons.mp member with rfl | later
      · intro x inside
        rcases List.mem_cons.mp inside with rfl | inside
        · simpa using plain
        · exact ih (by simp [shape]) x inside
      · exact ih (by simp [shape, later])

theorem not_mem_of_mem_splitOn {α : Type*} [DecidableEq α] {a : α} {xs part : List α}
    (member : part ∈ xs.splitOn a) : a ∉ part := by
  intro inside
  have other := of_mem_splitOnP member a inside
  rw [beq_self_eq_true] at other
  cases other

theorem trim_concat {s : List Char} {c : Char} (blank : isWhitespace c = true) :
    trim (s ++ [c]) = trim s := by
  rw [trim, List.rdropWhile_concat_pos _ _ _ blank, trim]

theorem trim_stripLast {s : List Char} {c : Char} (blank : isWhitespace c = true) :
    trim (stripLast c s) = trim s := by
  unfold stripLast
  split
  · rename_i last
    rcases List.eq_nil_or_concat s with rfl | ⟨init, d, rfl⟩
    · rfl
    · simp only [List.concat_eq_append, List.getLast?_concat, Option.some.injEq] at last
      rw [List.concat_eq_append, List.dropLast_concat, last, trim_concat blank]
  · rfl

theorem splitOnce_append {c : Char} {front back : List Char} (clean : c ∉ front) :
    splitOnce c (front ++ c :: back) = some (front, back) := by
  induction front with
  | nil => exact if_pos rfl
  | cons d front ih =>
    have other : d ≠ c := fun same => clean (by simp [same])
    rw [List.cons_append, splitOnce, if_neg other, ih fun member => clean (by simp [member]),
      Option.map_some]

theorem splitAtByte_eq_some {n : Nat} {s front back : List Char}
    (split : splitAtByte n s = some (front, back)) : s = front ++ back ∧ byteLen front = n := by
  induction s generalizing n front with
  | nil =>
    cases n with
    | zero =>
      cases split
      exact ⟨rfl, rfl⟩
    | succ n => cases split
  | cons c s ih =>
    cases n with
    | zero =>
      cases split
      exact ⟨rfl, rfl⟩
    | succ n =>
      rw [splitAtByte] at split
      split at split
      · obtain ⟨⟨front', back'⟩, rest, same⟩ := Option.map_eq_some_iff.mp split
        cases same
        obtain ⟨rfl, length⟩ := ih rest
        refine ⟨rfl, ?_⟩
        rw [byteLen_cons, length]
        omega
      · cases split

theorem takeBytes_eq_some {n : Nat} {s front : List Char} (taken : takeBytes n s = some front) :
    ∃ back, s = front ++ back := by
  obtain ⟨⟨front', back⟩, split, same⟩ := Option.map_eq_some_iff.mp taken
  obtain rfl : front' = front := same
  exact ⟨back, (splitAtByte_eq_some split).1⟩

def OnBoundary (n : Nat) (s : List Char) : Prop :=
  ∃ front back, s = front ++ back ∧ byteLen front = n

theorem takeBytes_isSome_iff {n : Nat} {s : List Char} :
    (takeBytes n s).isSome ↔ OnBoundary n s := by
  rw [takeBytes, Option.isSome_map]
  constructor
  · intro taken
    obtain ⟨⟨front, back⟩, split⟩ := Option.isSome_iff_exists.mp taken
    exact ⟨front, back, splitAtByte_eq_some split⟩
  · rintro ⟨front, back, rfl, rfl⟩
    rw [splitAtByte_append]
    rfl

theorem ascii_prefix {s : List Char} {front back : List UInt8}
    (ascii : ∀ byte ∈ front, byte.toNat < 128) (same : bytes s = front ++ back) :
    ∃ init rest, s = init ++ rest ∧ bytes init = front ∧ bytes rest = back := by
  induction front generalizing s with
  | nil => exact ⟨[], s, rfl, rfl, same⟩
  | cons byte front ih =>
    cases s with
    | nil => cases same
    | cons c s =>
      have small := ascii byte List.mem_cons_self
      have split : String.utf8EncodeChar c ++ bytes s = byte :: (front ++ back) := same
      rcases encode_cases c with ⟨_, single⟩ | above
      · rw [single, List.singleton_append] at split
        obtain ⟨first, rest⟩ := List.cons.inj split
        obtain ⟨init, tail, rfl, start, remaining⟩ :=
          ih (fun other member => ascii other (List.mem_cons_of_mem _ member)) rest
        refine ⟨c :: init, tail, rfl, ?_, remaining⟩
        rw [← start, ← first]
        change String.utf8EncodeChar c ++ bytes init = _
        rw [single, List.singleton_append]
      · obtain ⟨head, tail, shape⟩ := List.exists_cons_of_ne_nil (String.utf8EncodeChar_ne_nil (c := c))
        rw [shape] at split above
        have first : head = byte := (List.cons.inj split).1
        have large := above head List.mem_cons_self
        rw [first] at large
        omega

theorem bytes_intercalate (sep : List Char) (parts : List (List Char)) :
    bytes (sep.intercalate parts) = (bytes sep).intercalate (parts.map bytes) := by
  induction parts with
  | nil => rfl
  | cons part parts ih =>
    cases parts with
    | nil => simp
    | cons next parts =>
      rw [List.intercalate_cons_cons, bytes_append, bytes_append, ih, List.map_cons (l := next :: parts),
        List.map_cons, List.intercalate_cons_cons]

theorem mem_bytes {byte : UInt8} {s : List Char} :
    byte ∈ bytes s ↔ ∃ c ∈ s, byte ∈ String.utf8EncodeChar c := List.mem_flatMap

theorem ascii_mem {s : List Char} {a : Char} (ascii : a.toNat < 128)
    (member : UInt8.ofNat a.toNat ∈ bytes s) : a ∈ s := by
  obtain ⟨c, inside, encoded⟩ := mem_bytes.mp member
  have value : (UInt8.ofNat a.toNat).toNat = a.toNat := by
    rw [UInt8.toNat_ofNat']
    omega
  rcases encode_cases c with ⟨low, single⟩ | above
  · rw [single, List.mem_singleton] at encoded
    have same := congrArg UInt8.toNat encoded
    rw [value, UInt8.toNat_ofNat', Nat.mod_eq_of_lt (by omega)] at same
    exact Char.toNat_inj.mp same ▸ inside
  · have large := above _ encoded
    omega

theorem bytes_splitOn {a : Char} (ascii : a.toNat < 128) (s : List Char) :
    (bytes s).splitOn (UInt8.ofNat a.toNat) = (s.splitOn a).map bytes := by
  have joined : bytes s = [UInt8.ofNat a.toNat].intercalate ((s.splitOn a).map bytes) := by
    have same := bytes_intercalate [a] (s.splitOn a)
    rwa [List.intercalate_splitOn, bytes_singleton, utf8EncodeChar_of_ascii ascii] at same
  rw [joined]
  apply List.splitOn_intercalate
  · intro part member inside
    obtain ⟨piece, found, rfl⟩ := List.mem_map.mp member
    exact not_mem_of_mem_splitOn found (ascii_mem ascii inside)
  · simp

theorem bytes_stripLast {a : Char} (ascii : a.toNat < 128) (s : List Char) :
    stripLast (UInt8.ofNat a.toNat) (bytes s) = bytes (stripLast a s) := by
  have single : bytes [a] = [UInt8.ofNat a.toNat] := by
    rw [bytes_singleton, utf8EncodeChar_of_ascii ascii]
  by_cases last : (bytes s).getLast? = some (UInt8.ofNat a.toNat)
  · obtain ⟨front, split⟩ := List.getLast?_eq_some_iff.mp last
    rw [← single] at split
    obtain ⟨init, rfl, start⟩ := ascii_suffix (by simpa using ascii) split
    rw [stripLast, if_pos last, split, single, List.dropLast_concat, stripLast,
      if_pos List.getLast?_concat, List.dropLast_concat, start]
  · have other : s.getLast? ≠ some a := by
      intro same
      obtain ⟨init, rfl⟩ := List.getLast?_eq_some_iff.mp same
      rw [bytes_append, single, List.getLast?_concat] at last
      exact last rfl
    rw [stripLast, if_neg last, stripLast, if_neg other]

theorem stripLast_append {α : Type*} [DecidableEq α] {x : α} {rest : List α} (filled : rest ≠ [])
    (front : List α) : stripLast x (front ++ rest) = front ++ stripLast x rest := by
  have last : (front ++ rest).getLast? = rest.getLast? := by
    rw [List.getLast?_append, List.getLast?_eq_some_getLast filled, Option.some_or]
  unfold stripLast
  rw [last]
  split
  · exact List.dropLast_append_of_ne_nil filled
  · rfl

theorem stripLast_cases {α : Type*} [DecidableEq α] (x : α) (s : List α) :
    s = stripLast x s ∨ s = stripLast x s ++ [x] := by
  by_cases last : s.getLast? = some x
  · obtain ⟨init, rfl⟩ := List.getLast?_eq_some_iff.mp last
    right
    rw [stripLast, if_pos last, List.dropLast_concat]
  · left
    rw [stripLast, if_neg last]

theorem linesOf_cases {pieces : List (List Char)} {line : List Char} (member : line ∈ linesOf pieces) :
    ∃ piece ∈ pieces, line = stripLast '\r' piece ∨ line = piece := by
  induction pieces with
  | nil => cases member
  | cons piece pieces ih =>
    cases pieces with
    | nil =>
      rw [linesOf] at member
      split at member
      · cases member
      · exact ⟨piece, List.mem_cons_self, .inr (List.mem_singleton.mp member)⟩
    | cons next pieces =>
      rcases List.mem_cons.mp member with rfl | later
      · exact ⟨piece, List.mem_cons_self, .inl rfl⟩
      · obtain ⟨found, inside, shape⟩ := ih later
        exact ⟨found, List.mem_cons_of_mem _ inside, shape⟩

theorem mem_linesOf {pieces : List (List Char)} {piece : List Char} (member : piece ∈ pieces)
    (filled : piece ≠ []) : stripLast '\r' piece ∈ linesOf pieces ∨ piece ∈ linesOf pieces := by
  induction pieces with
  | nil => cases member
  | cons head pieces ih =>
    cases pieces with
    | nil =>
      obtain rfl := List.mem_singleton.mp member
      right
      rw [linesOf, if_neg (by simpa using filled)]
      exact List.mem_singleton_self piece
    | cons next pieces =>
      rcases List.mem_cons.mp member with rfl | later
      · exact .inl List.mem_cons_self
      · exact (ih later).imp (List.mem_cons_of_mem _) (List.mem_cons_of_mem _)

theorem byteLen_ascii {s : List Char} (ascii : ∀ c ∈ s, c.toNat < 128) : byteLen s = s.length := by
  induction s with
  | nil => rfl
  | cons c s ih =>
    have size := String.length_utf8EncodeChar c
    rw [utf8EncodeChar_of_ascii (ascii c List.mem_cons_self), List.length_singleton] at size
    rw [byteLen_cons, ih fun d member => ascii d (List.mem_cons_of_mem _ member), ← size,
      List.length_cons, Nat.add_comm]

theorem toLower_cases (c : Char) :
    c.toLower = c ∨ (65 ≤ c.toNat ∧ c.toNat ≤ 90 ∧ c.toLower.toNat = c.toNat + 32) := by
  unfold Char.toLower
  split
  · rename_i upper
    have low := UInt32.le_iff_toNat_le.mp upper.1
    have high := UInt32.le_iff_toNat_le.mp upper.2
    refine .inr ⟨low, high, ?_⟩
    change (c.val + 32).toNat = c.val.toNat + 32
    have bound : c.val.toNat ≤ 90 := high
    have sum : c.val.toNat + 32 < 2 ^ 32 := by omega
    rw [UInt32.toNat_add]
    exact Nat.mod_eq_of_lt sum
  · exact .inl rfl

theorem toLower_ascii {c : Char} (ascii : c.toLower.toNat < 128) : c.toNat < 128 := by
  rcases toLower_cases c with same | ⟨_, high, _⟩
  · rwa [same] at ascii
  · omega

theorem eq_of_toLower_eq {c d : Char} (same : c.toLower = d) (small : d.toNat < 97) : c = d := by
  rcases toLower_cases c with plain | ⟨low, _, value⟩
  · exact plain.symm.trans same
  · rw [same] at value
    omega

theorem eqIgnoreAsciiCase_ascii {s t : List Char} (same : eqIgnoreAsciiCase s t = true)
    (ascii : ∀ c ∈ t, c.toLower.toNat < 128) : ∀ c ∈ s, c.toNat < 128 := by
  have equal : s.map Char.toLower = t.map Char.toLower := eq_of_beq same
  intro c member
  have lowered : c.toLower ∈ t.map Char.toLower := equal ▸ List.mem_map_of_mem member
  obtain ⟨d, inside, folded⟩ := List.mem_map.mp lowered
  apply toLower_ascii
  rw [← folded]
  exact ascii d inside

theorem eqIgnoreAsciiCase_length {s t : List Char} (same : eqIgnoreAsciiCase s t = true) :
    s.length = t.length := by
  have equal := congrArg List.length (eq_of_beq same)
  rwa [List.length_map, List.length_map] at equal

theorem linesOf_crlf (ls : List (List Char)) :
    linesOf (ls.map (fun line => line ++ ['\r']) ++ [[]]) = ls := by
  induction ls with
  | nil => rfl
  | cons line ls ih =>
    obtain ⟨next, pieces, shape⟩ : ∃ next pieces,
        ls.map (fun line => line ++ ['\r']) ++ [[]] = next :: pieces :=
      List.exists_cons_of_ne_nil (by simp)
    rw [List.map_cons, List.cons_append, shape, linesOf, ← shape, ih, stripLast,
      if_pos List.getLast?_concat, List.dropLast_concat]

theorem lines_crlf {ls : List (List Char)} (clean : ∀ line ∈ ls, '\n' ∉ line) :
    lines (ls.flatMap fun line => line ++ ['\r', '\n']) = ls := by
  have split : (ls.flatMap fun line => line ++ ['\r', '\n']).splitOn '\n' =
      ls.map (fun line => line ++ ['\r']) ++ [[]] := by
    induction ls with
    | nil => rfl
    | cons line ls ih =>
      have later := ih fun line member => clean line (List.mem_cons_of_mem _ member)
      have first : ∀ c ∈ line ++ ['\r'], (c == '\n') = false := by
        intro c member
        rcases List.mem_append.mp member with inside | last
        · apply beq_false_of_ne
          rintro rfl
          exact clean line List.mem_cons_self inside
        · rw [List.mem_singleton.mp last]
          decide
      have shape : (line :: ls).flatMap (fun line => line ++ ['\r', '\n']) =
          (line ++ ['\r']) ++ '\n' :: ls.flatMap fun line => line ++ ['\r', '\n'] := by simp
      rw [shape, List.splitOn, List.splitOnP_append_cons_of_forall_mem first '\n' (by decide)]
      exact congrArg _ later
  rw [lines, split, linesOf_crlf]

theorem takeBytes_of_ascii {n : Nat} {s : List Char} (ascii : ∀ c ∈ s, c.toNat < 128)
    (long : n ≤ s.length) : takeBytes n s = some (s.take n) := by
  have size : byteLen (s.take n) = n := by
    rw [byteLen_ascii fun c member => ascii c (List.mem_of_mem_take member), List.length_take,
      Nat.min_eq_left long]
  have taken := takeBytes_append (s.take n) (s.drop n)
  rwa [size, List.take_append_drop] at taken

theorem splitWhitespace_cons {word rest : List Char} {c : Char} (filled : word ≠ [])
    (clean : ∀ d ∈ word, isWhitespace d = false) (blank : isWhitespace c = true) :
    splitWhitespace (word ++ c :: rest) = word :: splitWhitespace rest := by
  rw [splitWhitespace, List.splitOnP_append_cons_of_forall_mem clean c blank, List.filter_cons,
    if_pos (by simpa using filled)]
  rfl

end Base
