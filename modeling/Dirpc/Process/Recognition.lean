import Dirpc.Process.Variants

namespace Dirpc

open Base

def Unmarked (name rest : List Char) : Prop :=
  ∃ marker, LongestMarker name marker ∧ name = rest ++ marker

def Trailing (parts : List (List Char)) (name : List Char) : Prop :=
  ∃ tail, tail <:+ parts ∧ tail ≠ [] ∧ tail.length ≤ 4 ∧ name = joinSlash tail

/-- The names in the list that stand for a program at a path of these components: `>` before the last
    one, or else the last one to four of them, with their 64-bit marker or without it. -/
inductive Names (parts : List (List Char)) : List Char → Prop
  | exact : Names parts ('>' :: parts.getLast?.getD [])
  | trailing {name : List Char} (listed : Trailing parts name) (plain : name.head? ≠ some '>') :
      Names parts name
  | unmarked {name rest : List Char} (listed : Trailing parts name) (marked : Unmarked name rest)
      (plain : rest.head? ≠ some '>') : Names parts rest

/-- The entry has an executable that stands for the program and asks for none but given arguments. -/
def Recognised (path : String) (args : List String) (entry : DetectableEntry) : Prop :=
  ∃ exe ∈ entry.executables, Names (components path.toList) exe.name.toList ∧
    ∀ required, exe.arguments = some required → ∀ arg ∈ required, arg ∈ args

theorem unmarked_iff {name rest : List Char} :
    Unmarked name rest ↔ ['6', '4'] <:+ name ∧ rest = unmarked name := by
  have ends : ∀ marker ∈ markers, ['6', '4'] <:+ marker := by decide
  constructor
  · intro assumed
    obtain ⟨marker, longest, split⟩ := assumed
    refine ⟨(ends marker longest.listed).trans longest.suffix, ?_⟩
    rcases unmarked_cases name with ⟨other, longest', split'⟩ | ⟨none, _⟩
    · have same : marker.length = other.length :=
        Nat.le_antisymm (longest'.longest marker longest.listed longest.suffix)
          (longest.longest other longest'.listed longest'.suffix)
      exact (List.append_inj' (split.symm.trans split') same).1
    · exact absurd longest.suffix (none marker longest.listed)
  · intro assumed
    obtain ⟨marked, rfl⟩ := assumed
    rcases unmarked_cases name with found | ⟨none, _⟩
    · exact found
    · exact absurd marked (none ['6', '4'] (by decide))

theorem mem_variantPair {name variant : List Char} :
    variant ∈ variantPair name ↔ variant = name ∨ Unmarked name variant := by
  rw [unmarked_iff, variantPair]
  split
  · rename_i marked
    simp [marked]
  · rename_i plain
    simp [plain]

theorem mem_variantsOf {parts : List (List Char)} {variant : List Char} :
    variant ∈ variantsOf parts ↔
      ∃ tail, tail <:+ parts ∧ tail ≠ [] ∧ variant ∈ variantPair (joinSlash tail) := by
  induction parts with
  | nil =>
    constructor
    · intro member
      cases member
    · intro assumed
      obtain ⟨tail, suffix, filled, _⟩ := assumed
      exact absurd (List.suffix_nil.mp suffix) filled
  | cons part rest ih =>
    rw [variantsOf, List.mem_append, ih]
    constructor
    · intro assumed
      rcases assumed with whole | ⟨tail, suffix, filled, listed⟩
      · exact ⟨part :: rest, List.suffix_rfl, by simp, whole⟩
      · exact ⟨tail, suffix.trans (List.suffix_cons part rest), filled, listed⟩
    · intro assumed
      obtain ⟨tail, suffix, filled, listed⟩ := assumed
      rcases List.suffix_cons_iff.mp suffix with rfl | later
      · exact .inl listed
      · exact .inr ⟨tail, later, filled, listed⟩

theorem suffix_drop_iff {α : Type*} {xs ys : List α} {n : Nat} :
    ys <:+ xs.drop (xs.length - n) ↔ ys <:+ xs ∧ ys.length ≤ n := by
  constructor
  · intro suffix
    have short := suffix.length_le
    rw [List.length_drop] at short
    exact ⟨suffix.trans (List.drop_suffix ..), by omega⟩
  · intro assumed
    obtain ⟨⟨front, rfl⟩, short⟩ := assumed
    have inside : (front ++ ys).length - n ≤ front.length := by
      rw [List.length_append]
      omega
    rw [List.drop_append_of_le_length inside]
    exact List.suffix_append ..

theorem mem_pathVariants {path : String} {variants : List String}
    (generated : pathVariants path = some variants) (variant : List Char) :
    String.ofList variant ∈ variants ↔ ∃ name, Trailing (components path.toList) name ∧
      (variant = name ∨ Unmarked name variant) := by
  rw [pathVariants_eq] at generated
  cases generated
  rw [List.mem_map_of_injective fun _ _ same => String.ofList_injective same, mem_variantsOf]
  constructor
  · intro assumed
    obtain ⟨tail, suffix, filled, listed⟩ := assumed
    obtain ⟨whole, short⟩ := suffix_drop_iff.mp suffix
    exact ⟨_, ⟨tail, whole, filled, short, rfl⟩, mem_variantPair.mp listed⟩
  · intro assumed
    obtain ⟨_, ⟨tail, whole, filled, short, rfl⟩, listed⟩ := assumed
    exact ⟨tail, suffix_drop_iff.mpr ⟨whole, short⟩, filled, mem_variantPair.mpr listed⟩

theorem names_iff {path filename : String} {variants : List String}
    (generated : pathVariants path = some variants) (named : pathFilename path = some filename)
    (exe : Executable) : nameMatches variants filename exe = true ↔
      Names (components path.toList) exe.name.toList := by
  rw [pathFilename_eq] at named
  cases named
  obtain ⟨name, arguments⟩ := exe
  obtain ⟨name, rfl⟩ : ∃ chars, name = String.ofList chars := ⟨_, String.ofList_toList.symm⟩
  simp only [nameMatches, String.toList_ofList]
  split
  · rename_i exact
    rw [beq_iff_eq]
    constructor
    · rintro rfl
      exact .exact
    · intro stands
      cases stands with
      | exact => rfl
      | trailing _ plain | unmarked _ _ plain => exact absurd rfl plain
  · rename_i different
    have plain : name.head? ≠ some '>' := by
      intro first
      obtain ⟨rest, rfl⟩ := List.head?_eq_some_iff.mp first
      exact different rest rfl
    rw [List.contains_iff_mem, mem_pathVariants generated]
    constructor
    · intro assumed
      obtain ⟨whole, listed, rfl | marked⟩ := assumed
      · exact .trailing listed plain
      · exact .unmarked listed marked plain
    · intro stands
      cases stands with
      | exact => exact absurd rfl plain
      | trailing listed => exact ⟨_, listed, .inl rfl⟩
      | unmarked listed marked => exact ⟨_, listed, .inr marked⟩

theorem argsOk_iff {args : List String} {exe : Executable} : argsOk args exe = true ↔
    ∀ required, exe.arguments = some required → ∀ arg ∈ required, arg ∈ args := by
  unfold argsOk
  cases exe.arguments with
  | none => simp
  | some required => simp

theorem matchesProcess_iff {path filename : String} {variants : List String}
    (generated : pathVariants path = some variants) (named : pathFilename path = some filename)
    (args : List String) (entry : DetectableEntry) :
    entry.matchesProcess variants filename args = true ↔ Recognised path args entry := by
  unfold DetectableEntry.matchesProcess Recognised
  simp only [List.any_eq_true, Bool.and_eq_true, names_iff generated named, argsOk_iff]

theorem matchProcess_iff (path : String) (args : List String) (entries : List DetectableEntry) :
    ∃ found, matchProcess path args entries = some found ∧
      (found.isSome ↔ ∃ entry ∈ entries, Recognised path args entry) := by
  obtain ⟨variants, generated, plain⟩ := matchProcess_entries (pathFilename_eq path) args
  refine ⟨_, plain entries, ?_⟩
  simp only [List.find?_isSome, matchesProcess_iff generated (pathFilename_eq path)]

theorem Recognised.more {path : String} {args more : List String} {entry : DetectableEntry}
    (recognised : Recognised path args entry) (given : ∀ arg ∈ args, arg ∈ more) :
    Recognised path more entry := by
  obtain ⟨exe, listed, stands, asked⟩ := recognised
  exact ⟨exe, listed, stands, fun required same arg member => given arg (asked required same arg member)⟩

structure Answers (db : DetectableDb) (entries : List DetectableEntry) (path : String)
    (args : List String) (found : Option (String × String)) : Prop where
  answered : db.matchProcess path args = some found
  exact : found.isSome ↔ ∃ entry ∈ lastWins entries, Recognised path args entry
  listed : ∀ id name, found = some (id, name) → ∃ entry ∈ lastWins entries,
    entry.id = id ∧ entry.name = name ∧ Recognised path args entry

theorem fresh_answers (entries : List DetectableEntry) {path : String}
    (filled : ∃ c ∈ path.toList, isSeparator c = false) (args : List String) :
    ∃ found, Answers ⟨some (tablesOf entries), fstOf entries, exeToIds entries⟩ entries path args
      found := by
  obtain ⟨filename, named, nonempty⟩ := filename_filled filled
  have generated := pathVariants_eq path
  have held : (⟨some (tablesOf entries), fstOf entries, exeToIds entries⟩ : DetectableDb).tables =
      some (tablesOf entries) := rfl
  obtain ⟨found, searched, spec⟩ := matchProcess_spec held generated named args
  refine ⟨found, searched, ?_, ?_⟩
  · cases found with
    | none =>
      refine iff_of_false Bool.false_ne_true ?_
      intro assumed
      obtain ⟨entry, kept, recognised⟩ := assumed
      have matched := (matchesProcess_iff generated named args entry).mpr recognised
      obtain ⟨exeName, looked, declared⟩ := matchesProcess_declares nonempty matched
      obtain ⟨known, indexed⟩ := rebuilt_knows (mem_of_lastWins kept) declared
      rw [spec exeName looked known entry.id indexed entry (lookup_appsTable.mpr ⟨kept, rfl⟩)]
        at matched
      cases matched
    | some found =>
      obtain ⟨key, entry, stored, matched, _⟩ := spec
      exact iff_of_true rfl ⟨entry, (lookup_appsTable.mp stored).1,
        (matchesProcess_iff generated named args entry).mp matched⟩
  · intro id name same
    rw [same] at spec
    obtain ⟨key, entry, stored, matched, same⟩ := spec
    cases same
    exact ⟨entry, (lookup_appsTable.mp stored).1, rfl, rfl,
      (matchesProcess_iff generated named args entry).mp matched⟩

/-- A rebuilt database finds a game exactly when one of the entries that are kept recognises the
    process, it returns one that does, and further arguments make it miss none. -/
theorem games_recognised {removes : Bool} {files : Files} {entries : List DetectableEntry}
    {progress : Progress} {db : DetectableDb}
    (rebuilt : (files.rebuildWithFst removes entries progress).2 = some db)
    {path : String} (filled : ∃ c ∈ path.toList, isSeparator c = false) (args : List String) :
    ∃ found, Answers db entries path args found ∧
      ∀ more, (∀ arg ∈ args, arg ∈ more) → found.isSome →
        ∃ again, db.matchProcess path more = some again ∧ again.isSome := by
  obtain ⟨_, rfl⟩ := Files.rebuildWithFst_handle rebuilt
  obtain ⟨found, answers⟩ := fresh_answers entries filled args
  have own := ingested_matches (files.kept removes) entries path
  refine ⟨found, ⟨(own args).trans answers.answered, answers.exact, answers.listed⟩, ?_⟩
  intro more given hit
  obtain ⟨again, answers'⟩ := fresh_answers entries filled more
  obtain ⟨entry, kept, recognised⟩ := answers.exact.mp hit
  exact ⟨again, (own more).trans answers'.answered, answers'.exact.mpr ⟨entry, kept, recognised.more given⟩⟩

def shooters : List DetectableEntry :=
  [⟨"1", "Shooter", [⟨"shooter/bin/game.exe", some ["-game"]⟩]⟩, ⟨"2", "Racer", [⟨">racer.exe", none⟩]⟩]

theorem games_recognised_shooter : ∃ db found,
    (noFiles.rebuildWithFst true shooters .finished).2 = some db ∧
      Answers db shooters "C:\\Games\\shooter\\bin\\game.exe" ["-game", "-w"] found ∧
      found = some ("1", "Shooter") := by
  have filled : ∃ c ∈ "C:\\Games\\shooter\\bin\\game.exe".toList, isSeparator c = false :=
    ⟨'G', by decide, rfl⟩
  have rebuilt : (noFiles.rebuildWithFst true shooters .finished).2 = some _ := rfl
  obtain ⟨found, answers, _⟩ := games_recognised rebuilt filled ["-game", "-w"]
  have first : found = some ("1", "Shooter") := Option.some.inj (answers.answered.symm.trans rfl)
  exact ⟨_, found, rebuilt, answers, first⟩

end Dirpc
