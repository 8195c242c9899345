import Dirpc.Base.Text
import Dirpc.Types

namespace Dirpc

open Base

def isSeparator (c : Char) : Bool := c == '/' || c == '\\'

def components (path : List Char) : List (List Char) :=
  (path.splitOnP isSeparator).filter fun part => !part.isEmpty

def joinSlash (parts : List (List Char)) : List Char := ['/'].intercalate parts

def findChar (c : Char) : List Char → Option Nat
  | [] => none
  | d :: s => if d = c then some 0 else (findChar c s).map (d.utf8Size + ·)

def strip64Suffix (name : List Char) : MayPanic (List Char) :=
  let b := bytes name
  let len := b.length
  if 4 ≤ len ∧ b.drop (len - 4) = [46, 120, 54, 52] then takeBytes (len - 4) name
  else if len < 2 ∨ b[len - 2]? ≠ some 54 ∨ b[len - 1]? ≠ some 52 then some name
  else if 3 ≤ len ∧ (b[len - 3]? = some 120 ∨ b[len - 3]? = some 95) then takeBytes (len - 3) name
  else takeBytes (len - 2) name

def suffixVariants (suffix : List Char) : MayPanic (List (List Char)) :=
  if ['6', '4'] <:+ suffix then
    (strip64Suffix suffix).map fun cleaned =>
      if byteLen cleaned < byteLen suffix then [suffix, cleaned] else [suffix]
  else some [suffix]

def variantLoop (full : List Char) : Nat → Nat → List (List Char) → MayPanic (List (List Char))
  | 0, _, variants => some variants
  | n + 1, offset, variants => do
    let suffix ← dropBytes offset full
    let added ← suffixVariants suffix
    let next := match findChar '/' suffix with
      | some pos => offset + (pos + 1)
      | none => offset
    variantLoop full n next (variants ++ added)

def pathVariants (path : String) : MayPanic (List String) :=
  let parts := components path.toList
  let start := if parts.length > 4 then parts.length - 4 else 0
  if parts.length ≤ start then some []
  else (variantLoop (joinSlash (parts.drop start)) (parts.length - start) 0 []).map
    (List.map String.ofList)

/-- The byte position after the last of the first `n` bytes that does not meet `skip`. -/
def scanBack (skip : UInt8 → Bool) (b : List UInt8) : Nat → Nat
  | 0 => 0
  | n + 1 => if (b[n]?).any skip then scanBack skip b n else n + 1

def isSeparatorByte (byte : UInt8) : Bool := byte == 47 || byte == 92

def pathFilename (path : String) : MayPanic String :=
  let b := bytes path.toList
  let stop := scanBack isSeparatorByte b b.length
  if stop = 0 then some ""
  else
    let start := scanBack (fun byte => !isSeparatorByte byte) b stop
    (sliceBytes start stop path.toList).map String.ofList

def unmarked (name : List Char) : List Char :=
  if ['.', 'x', '6', '4'] <:+ name then name.take (name.length - 4)
  else if ['x', '6', '4'] <:+ name ∨ ['_', '6', '4'] <:+ name then name.take (name.length - 3)
  else if ['6', '4'] <:+ name then name.take (name.length - 2)
  else name

theorem bytes_suffix {s t : List Char} (ascii : ∀ c ∈ t, c.toNat < 128) :
    bytes t <:+ bytes s ↔ t <:+ s := by
  constructor
  · intro assumed
    rcases assumed with ⟨front, same⟩
    obtain ⟨init, split, _⟩ := ascii_suffix ascii same.symm
    exact ⟨init, split.symm⟩
  · intro assumed
    rcases assumed with ⟨init, rfl⟩
    exact ⟨bytes init, (bytes_append init t).symm⟩

theorem takeBytes_suffix {s t : List Char} (suffix : t <:+ s) :
    takeBytes ((bytes s).length - byteLen t) s = some (s.take (s.length - t.length)) := by
  obtain ⟨init, rfl⟩ := suffix
  rw [bytes_length, byteLen_append, Nat.add_sub_cancel, List.length_append, Nat.add_sub_cancel,
    List.take_left, takeBytes_append]

theorem suffix_iff_drop {α : Type*} (xs ys : List α) :
    ys <:+ xs ↔ ys.length ≤ xs.length ∧ xs.drop (xs.length - ys.length) = ys := by
  constructor
  · intro suffix
    exact ⟨suffix.length_le, (List.suffix_iff_eq_drop.mp suffix).symm⟩
  · intro assumed
    rcases assumed with ⟨_, same⟩
    exact List.suffix_iff_eq_drop.mpr same.symm

theorem cons_suffix_iff {α : Type*} {xs ys : List α} {y : α} (shorter : ys <:+ xs) :
    y :: ys <:+ xs ↔ ys.length < xs.length ∧ xs[xs.length - (ys.length + 1)]? = some y := by
  obtain ⟨front, rfl⟩ := shorter
  rcases List.eq_nil_or_concat front with rfl | ⟨init, z, rfl⟩
  · constructor
    · intro suffix
      have := suffix.length_le
      simp only [List.nil_append, List.length_cons] at this
      omega
    · intro assumed
      rcases assumed with ⟨longer, _⟩
      exact absurd longer (Nat.lt_irrefl _)
  · have position : (init ++ [z] ++ ys).length - (ys.length + 1) = init.length := by
      simp only [List.length_append, List.length_singleton]
      omega
    rw [List.concat_eq_append, position, List.append_assoc,
      List.getElem?_append_right (Nat.le_refl _), Nat.sub_self, List.singleton_append,
      List.getElem?_cons_zero]
    constructor
    · intro assumed
      rcases assumed with ⟨other, same⟩
      have split : other ++ [y] ++ ys = init ++ [z] ++ ys := by simpa using same
      have last := (List.append_inj' (List.append_cancel_right split) rfl).2
      refine ⟨?_, by rw [List.singleton_inj.mp last]⟩
      rw [List.length_append, List.length_cons]
      omega
    · intro assumed
      rcases assumed with ⟨_, same⟩
      rw [Option.some.inj same]
      exact List.suffix_append ..

theorem no_pair_iff {α : Type*} {xs : List α} {x y : α} :
    (xs.length < 2 ∨ xs[xs.length - 2]? ≠ some x ∨ xs[xs.length - 1]? ≠ some y) ↔
      ¬[x, y] <:+ xs := by
  have last := cons_suffix_iff (y := y) (List.nil_suffix (l := xs))
  rw [← not_iff_not, not_not]
  simp only [not_or, Nat.not_lt, ne_eq, not_not]
  constructor
  · intro assumed
    rcases assumed with ⟨long, first, second⟩
    have shorter : [y] <:+ xs := last.mpr ⟨Nat.lt_of_succ_lt long, second⟩
    exact (cons_suffix_iff shorter).mpr ⟨long, first⟩
  · intro suffix
    have shorter : [y] <:+ xs := (List.suffix_cons x [y]).trans suffix
    have found := (cons_suffix_iff shorter).mp suffix
    exact ⟨found.1, found.2, (last.mp shorter).2⟩

theorem strip64Suffix_eq (name : List Char) : strip64Suffix name = some (unmarked name) := by
  have whole : [46, 120, 54, 52] <:+ bytes name ↔ ['.', 'x', '6', '4'] <:+ name :=
    bytes_suffix (t := ['.', 'x', '6', '4']) (by simp)
  have crossed : [120, 54, 52] <:+ bytes name ↔ ['x', '6', '4'] <:+ name :=
    bytes_suffix (t := ['x', '6', '4']) (by simp)
  have lined : [95, 54, 52] <:+ bytes name ↔ ['_', '6', '4'] <:+ name :=
    bytes_suffix (t := ['_', '6', '4']) (by simp)
  have bare : [54, 52] <:+ bytes name ↔ ['6', '4'] <:+ name :=
    bytes_suffix (t := ['6', '4']) (by simp)
  have fourth : (4 ≤ (bytes name).length ∧
      (bytes name).drop ((bytes name).length - 4) = [46, 120, 54, 52]) ↔
      ['.', 'x', '6', '4'] <:+ name := by
    rw [← whole]
    exact (suffix_iff_drop (bytes name) [46, 120, 54, 52]).symm
  unfold strip64Suffix unmarked
  dsimp only
  by_cases dotted : ['.', 'x', '6', '4'] <:+ name
  · rw [if_pos (fourth.mpr dotted), if_pos dotted]
    exact takeBytes_suffix dotted
  · rw [if_neg (mt fourth.mp dotted), if_neg dotted]
    by_cases marked : ['6', '4'] <:+ name
    · have pair := bare.mpr marked
      have third : (3 ≤ (bytes name).length ∧ ((bytes name)[(bytes name).length - 3]? = some 120 ∨
          (bytes name)[(bytes name).length - 3]? = some 95)) ↔
          (['x', '6', '4'] <:+ name ∨ ['_', '6', '4'] <:+ name) := by
        rw [← crossed, ← lined, cons_suffix_iff pair, cons_suffix_iff pair, ← and_or_left]
        rfl
      rw [if_neg (fun none => no_pair_iff.mp none pair), if_pos marked]
      by_cases three : ['x', '6', '4'] <:+ name ∨ ['_', '6', '4'] <:+ name
      · rw [if_pos (third.mpr three), if_pos three]
        rcases three with suffix | suffix
        · exact takeBytes_suffix suffix
        · exact takeBytes_suffix suffix
      · rw [if_neg (mt third.mp three), if_neg three]
        exact takeBytes_suffix marked
    · have shorter : ¬(['x', '6', '4'] <:+ name ∨ ['_', '6', '4'] <:+ name) := by
        intro assumed
        rcases assumed with suffix | suffix
        · exact marked ((List.suffix_cons 'x' ['6', '4']).trans suffix)
        · exact marked ((List.suffix_cons '_' ['6', '4']).trans suffix)
      rw [if_pos (no_pair_iff.mpr (mt bare.mp marked)), if_neg shorter, if_neg marked]

theorem unmarked_shorter {name : List Char} (marked : ['6', '4'] <:+ name) :
    byteLen (unmarked name) < byteLen name := by
  have cut : ∀ n, 0 < n → n ≤ name.length →
      byteLen (name.take (name.length - n)) < byteLen name := by
    intro n positive bound
    obtain ⟨c, rest, tail⟩ : ∃ c rest, name.drop (name.length - n) = c :: rest := by
      apply List.exists_cons_of_ne_nil
      rw [ne_eq, List.drop_eq_nil_iff]
      omega
    have split := congrArg byteLen (List.take_append_drop (name.length - n) name)
    rw [tail, byteLen_append, byteLen_cons] at split
    have := c.utf8Size_pos
    omega
  unfold unmarked
  split
  · rename_i suffix
    exact cut 4 (by decide) suffix.length_le
  · split
    · rename_i suffix
      rcases suffix with suffix | suffix
      · exact cut 3 (by decide) suffix.length_le
      · exact cut 3 (by decide) suffix.length_le
    · exact cut 2 (by decide) marked.length_le

def variantPair (suffix : List Char) : List (List Char) :=
  if ['6', '4'] <:+ suffix then [suffix, unmarked suffix] else [suffix]

theorem suffixVariants_eq (suffix : List Char) :
    suffixVariants suffix = some (variantPair suffix) := by
  unfold suffixVariants variantPair
  by_cases marked : ['6', '4'] <:+ suffix
  · rw [if_pos marked, if_pos marked, strip64Suffix_eq, Option.map_some,
      if_pos (unmarked_shorter marked)]
  · rw [if_neg marked, if_neg marked]

/-- The variants of every non-empty suffix of the components, the longest one first. -/
def variantsOf : List (List Char) → List (List Char)
  | [] => []
  | part :: rest => variantPair (joinSlash (part :: rest)) ++ variantsOf rest

theorem findChar_append {c : Char} {s t : List Char} (clean : c ∉ s) :
    findChar c (s ++ c :: t) = some (byteLen s) := by
  induction s with
  | nil => simp [findChar]
  | cons d s ih =>
    rw [List.mem_cons, not_or] at clean
    rw [List.cons_append, findChar, if_neg (Ne.symm clean.1), ih clean.2, Option.map_some,
      byteLen_cons]

theorem variantLoop_eq (front : List Char) (parts : List (List Char))
    (variants : List (List Char)) (clean : ∀ part ∈ parts, '/' ∉ part) :
    variantLoop (front ++ joinSlash parts) parts.length (byteLen front) variants =
      some (variants ++ variantsOf parts) := by
  induction parts generalizing front variants with
  | nil => simp [variantLoop, variantsOf]
  | cons part rest ih =>
    rw [List.length_cons, variantLoop, dropBytes_append]
    simp only [suffixVariants_eq, Option.bind_eq_bind, Option.bind_some]
    cases rest with
    | nil =>
      rw [List.length_nil, variantLoop, variantsOf, variantsOf, List.append_nil]
    | cons next more =>
      have joined : joinSlash (part :: next :: more) =
          part ++ '/' :: joinSlash (next :: more) := by
        simp [joinSlash, List.intercalate_cons_cons]
      have shifted : front ++ (part ++ '/' :: joinSlash (next :: more)) =
          (front ++ part ++ ['/']) ++ joinSlash (next :: more) := by simp
      have offset : byteLen front + (byteLen part + 1) = byteLen (front ++ part ++ ['/']) := by
        rw [byteLen_append, byteLen_append, Nat.add_assoc]
        rfl
      rw [variantsOf, joined, findChar_append (clean part (by simp)), shifted]
      dsimp only
      rw [offset, ih _ _ fun other member => clean other (by simp [member]), List.append_assoc]

theorem mem_components {path part : List Char} (member : part ∈ components path) :
    part ≠ [] ∧ ∀ c ∈ part, isSeparator c = false := by
  obtain ⟨piece, filled⟩ := List.mem_filter.mp member
  exact ⟨by simpa using filled, of_mem_splitOnP piece⟩

theorem pathVariants_eq (path : String) :
    pathVariants path = some ((variantsOf ((components path.toList).drop
      ((components path.toList).length - 4))).map String.ofList) := by
  have clean : ∀ part ∈ (components path.toList).drop ((components path.toList).length - 4),
      '/' ∉ part := by
    intro part member slash
    have plain := (mem_components (List.mem_of_mem_drop member)).2 '/' slash
    cases plain
  have looped := variantLoop_eq [] _ [] clean
  have start : (if (components path.toList).length > 4 then (components path.toList).length - 4
      else 0) = (components path.toList).length - 4 := by
    split <;> omega
  unfold pathVariants
  dsimp only
  rw [start]
  by_cases empty : (components path.toList).length ≤ (components path.toList).length - 4
  · rw [if_pos empty, List.drop_of_length_le empty]
    rfl
  · rw [List.length_drop, byteLen_nil, List.nil_append, List.nil_append] at looped
    rw [if_neg empty, looped, Option.map_some]

theorem components_append_separator (front back : List Char) {c : Char}
    (separator : isSeparator c) :
    components (front ++ c :: back) = components front ++ components back := by
  unfold components
  rw [List.splitOnP_append_cons front back separator, List.filter_append]

theorem components_plain {part : List Char} (filled : part ≠ [])
    (plain : ∀ c ∈ part, isSeparator c = false) : components part = [part] := by
  unfold components
  rw [List.splitOnP_eq_singleton plain]
  simp [filled]

theorem components_separators {seps : List Char} (all : ∀ c ∈ seps, isSeparator c) :
    components seps = [] := by
  induction seps with
  | nil => simp [components, List.splitOnP_nil]
  | cons c seps ih =>
    have split := components_append_separator [] seps (all c (by simp))
    rw [List.nil_append] at split
    rw [split, ih fun d member => all d (by simp [member])]
    simp [components, List.splitOnP_nil]

theorem components_append_separators (front : List Char) {seps : List Char}
    (all : ∀ c ∈ seps, isSeparator c) : components (front ++ seps) = components front := by
  cases seps with
  | nil => rw [List.append_nil]
  | cons c seps =>
    have rest : components seps = [] :=
      components_separators fun d member => all d (by simp [member])
    rw [components_append_separator front seps (all c (by simp)), rest, List.append_nil]

theorem back_split {α : Type*} (q : α → Bool) (xs : List α) :
    ∃ front tail, xs = front ++ tail ∧ (∀ x ∈ tail, q x) ∧
      (front = [] ∨ ∃ init x, front = init ++ [x] ∧ q x = false) := by
  induction xs using List.reverseRecOn with
  | nil => exact ⟨[], [], rfl, by simp, .inl rfl⟩
  | append_singleton xs x ih =>
    cases last : q x with
    | false => exact ⟨xs ++ [x], [], by simp, by simp, .inr ⟨xs, x, rfl, last⟩⟩
    | true =>
      obtain ⟨front, tail, rfl, all, stop⟩ := ih
      refine ⟨front, tail ++ [x], by simp, ?_, stop⟩
      intro y member
      rcases List.mem_append.mp member with before | same
      · exact all y before
      · rw [List.mem_singleton.mp same, last]

theorem scanBack_append {skip : UInt8 → Bool} {front tail : List UInt8} (more : List UInt8)
    (all : ∀ byte ∈ tail, skip byte)
    (stop : front = [] ∨ ∃ init byte, front = init ++ [byte] ∧ skip byte = false) :
    scanBack skip (front ++ tail ++ more) (front ++ tail).length = front.length := by
  induction tail using List.reverseRecOn generalizing more with
  | nil =>
    rcases stop with rfl | ⟨init, byte, rfl, kept⟩
    · rfl
    · simp [scanBack, kept]
  | append_singleton tail byte ih =>
    have position : (front ++ (tail ++ [byte])).length = (front ++ tail).length + 1 := by
      simp
      omega
    have shifted : front ++ (tail ++ [byte]) ++ more = front ++ tail ++ byte :: more := by simp
    have skipped := all byte (by simp)
    rw [position, scanBack, shifted, List.getElem?_append_right (Nat.le_refl _), Nat.sub_self,
      List.getElem?_cons_zero, Option.any_some, if_pos skipped]
    exact ih (byte :: more) fun other member => all other (by simp [member])

theorem separator_bytes {c : Char} {byte : UInt8} (member : byte ∈ String.utf8EncodeChar c) :
    isSeparatorByte byte = isSeparator c := by
  rcases encode_cases c with ⟨ascii, single⟩ | above
  · rw [single, List.mem_singleton] at member
    have value : byte.toNat = c.toNat := by
      rw [member, UInt8.toNat_ofNat', Nat.mod_eq_of_lt (by omega)]
    have slash : byte = 47 ↔ c = '/' := by
      rw [← UInt8.toNat_inj, ← Char.toNat_inj, value]
      rfl
    have backslash : byte = 92 ↔ c = '\\' := by
      rw [← UInt8.toNat_inj, ← Char.toNat_inj, value]
      rfl
    simp only [isSeparatorByte, isSeparator, Bool.beq_eq_decide_eq, slash, backslash]
  · have high := above byte member
    have plain : isSeparatorByte byte = false := by
      simp only [isSeparatorByte, Bool.or_eq_false_iff, beq_eq_false_iff_ne]
      constructor
      · rintro rfl
        exact absurd high (by decide)
      · rintro rfl
        exact absurd high (by decide)
    rw [plain, isSeparator]
    symm
    simp only [Bool.or_eq_false_iff, beq_eq_false_iff_ne]
    constructor
    · rintro rfl
      exact absurd (above 47 (by decide)) (by decide)
    · rintro rfl
      exact absurd (above 92 (by decide)) (by decide)

/-- A byte scan over separators, or over characters that are none, stops between characters. -/
theorem scanBack_chars {q : Bool} {front tail : List Char} (more : List UInt8)
    (all : ∀ c ∈ tail, isSeparator c = q)
    (stop : front = [] ∨ ∃ init c, front = init ++ [c] ∧ isSeparator c ≠ q) :
    scanBack (fun byte => isSeparatorByte byte == q) (bytes (front ++ tail) ++ more)
      (byteLen (front ++ tail)) = byteLen front := by
  have skipped : ∀ byte ∈ bytes tail, (isSeparatorByte byte == q) = true := by
    intro byte member
    obtain ⟨c, inside, encoded⟩ := List.mem_flatMap.mp member
    rw [separator_bytes encoded, all c inside, beq_self_eq_true]
  have kept : bytes front = [] ∨ ∃ init byte, bytes front = init ++ [byte] ∧
      (isSeparatorByte byte == q) = false := by
    rcases stop with rfl | ⟨init, c, rfl, other⟩
    · exact .inl rfl
    · rcases List.eq_nil_or_concat (String.utf8EncodeChar c) with empty | ⟨most, final, split⟩
      · exact absurd empty String.utf8EncodeChar_ne_nil
      · refine .inr ⟨bytes init ++ most, final, ?_, ?_⟩
        · rw [bytes_append, List.append_assoc, ← List.concat_eq_append, ← split, bytes_singleton]
        · rw [separator_bytes (c := c) (by rw [split]; simp), beq_eq_false_iff_ne]
          exact other
  have scanned := scanBack_append more skipped kept
  rwa [← bytes_append, bytes_length, bytes_length] at scanned

theorem isSeparatorByte_beq_true : (fun byte => isSeparatorByte byte == true) = isSeparatorByte := by
  funext byte
  cases isSeparatorByte byte <;> rfl

theorem isSeparatorByte_beq_false :
    (fun byte => isSeparatorByte byte == false) = fun byte => !isSeparatorByte byte := by
  funext byte
  cases isSeparatorByte byte <;> rfl

theorem file_split (path : List Char) : ∃ front file seps, path = front ++ file ++ seps ∧
    (∀ c ∈ seps, isSeparator c = true) ∧ (∀ c ∈ file, isSeparator c = false) ∧
    (front = [] ∨ ∃ init c, front = init ++ [c] ∧ isSeparator c = true) ∧
    (front ++ file = [] ∨ ∃ init c, front ++ file = init ++ [c] ∧ isSeparator c = false) := by
  obtain ⟨body, seps, split, separators, last⟩ := back_split isSeparator path
  obtain ⟨front, file, rfl, plain, stop⟩ := back_split (fun c => !isSeparator c) body
  simp only [Bool.not_eq_true', Bool.not_eq_false'] at plain stop
  exact ⟨front, file, seps, split, separators, plain, stop, last⟩

theorem components_file {front file : List Char} (plain : ∀ c ∈ file, isSeparator c = false)
    (stop : front = [] ∨ ∃ init c, front = init ++ [c] ∧ isSeparator c = true)
    (last : front ++ file = [] ∨ ∃ init c, front ++ file = init ++ [c] ∧ isSeparator c = false) :
    (components (front ++ file)).getLast?.getD [] = file := by
  by_cases filled : file = []
  · subst filled
    rw [List.append_nil] at last ⊢
    rcases stop with rfl | ⟨init, c, rfl, separator⟩
    · rfl
    · rcases last with empty | ⟨init', c', same, other⟩
      · simp at empty
      · have equal := List.singleton_inj.mp (List.append_inj' same rfl).2
        rw [equal, other] at separator
        cases separator
  · rcases stop with rfl | ⟨init, c, rfl, separator⟩
    · rw [List.nil_append, components_plain filled plain]
      rfl
    · rw [List.append_assoc, List.singleton_append, components_append_separator _ _ separator,
        components_plain filled plain, List.getLast?_concat, Option.getD_some]

theorem pathFilename_eq (path : String) :
    pathFilename path = some (String.ofList ((components path.toList).getLast?.getD [])) := by
  obtain ⟨front, file, seps, split, separators, plain, stop, last⟩ := file_split path.toList
  have found : (components path.toList).getLast?.getD [] = file := by
    rw [split, components_append_separators _ separators]
    exact components_file plain stop last
  have stopped : scanBack isSeparatorByte (bytes path.toList) (bytes path.toList).length =
      byteLen (front ++ file) := by
    have kept : front ++ file = [] ∨ ∃ init c, front ++ file = init ++ [c] ∧
        isSeparator c ≠ true := by
      simpa using last
    have scanned := scanBack_chars [] separators kept
    rwa [List.append_nil, isSeparatorByte_beq_true, ← split, ← bytes_length] at scanned
  have started : scanBack (fun byte => !isSeparatorByte byte) (bytes path.toList)
      (byteLen (front ++ file)) = byteLen front := by
    have kept : front = [] ∨ ∃ init c, front = init ++ [c] ∧ isSeparator c ≠ false := by
      simpa using stop
    have scanned := scanBack_chars (bytes seps) plain kept
    rwa [isSeparatorByte_beq_false, ← bytes_append, ← split] at scanned
  unfold pathFilename
  dsimp only
  rw [stopped, found]
  split
  · rename_i empty
    have none : file = [] := by
      cases file with
      | nil => rfl
      | cons c file =>
        have := c.utf8Size_pos
        rw [byteLen_append, byteLen_cons] at empty
        omega
    rw [none]
  · rw [started, split, sliceBytes_append, Option.map_some]

end Dirpc
