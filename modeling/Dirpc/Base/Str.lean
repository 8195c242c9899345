import Mathlib.Data.List.Induction
import Mathlib.Algebra.BigOperators.Group.List.Basic
import Mathlib.Algebra.GroupWithZero.Nat

namespace Base

/-- UTF-8, and slices of a text by byte positions: `none` where the position is out of range or
    inside a character, so that the program's slice panics. -/
def bytes (s : List Char) : List UInt8 := s.flatMap String.utf8EncodeChar

def fromUtf8 (b : List UInt8) : Option (List Char) :=
  b.toByteArray.utf8Decode?.map Array.toList

def byteLen (s : List Char) : Nat := (s.map Char.utf8Size).sum

def splitAtByte : Nat → List Char → Option (List Char × List Char)
  | 0, s => some ([], s)
  | _ + 1, [] => none
  | n + 1, c :: s =>
    if c.utf8Size ≤ n + 1 then
      (splitAtByte (n + 1 - c.utf8Size) s).map fun halves => (c :: halves.1, halves.2)
    else none

def takeBytes (n : Nat) (s : List Char) : Option (List Char) := (splitAtByte n s).map Prod.fst

def dropBytes (n : Nat) (s : List Char) : Option (List Char) := (splitAtByte n s).map Prod.snd

def sliceBytes (start stop : Nat) (s : List Char) : Option (List Char) :=
  (takeBytes stop s).bind (dropBytes start)

@[simp] theorem bytes_nil : bytes [] = [] := rfl

@[simp] theorem bytes_append (s t : List Char) : bytes (s ++ t) = bytes s ++ bytes t :=
  List.flatMap_append

theorem bytes_singleton (c : Char) : bytes [c] = String.utf8EncodeChar c :=
  List.flatMap_singleton _ _

theorem bytes_injective : Function.Injective bytes := by
  intro s t same
  have encoded : s.utf8Encode = t.utf8Encode := by
    unfold List.utf8Encode
    exact congrArg List.toByteArray same
  have decoded := congrArg ByteArray.utf8Decode? encoded
  rw [List.utf8Decode?_utf8Encode, List.utf8Decode?_utf8Encode] at decoded
  simpa using decoded

theorem fromUtf8_eq_some {b : List UInt8} {s : List Char} : fromUtf8 b = some s ↔ bytes s = b := by
  constructor
  · intro decoded
    obtain ⟨chars, found, rfl⟩ := Option.map_eq_some_iff.mp decoded
    have valid : b.toByteArray.IsValidUTF8 := ByteArray.isSome_utf8Decode?_iff.mp (by rw [found]; rfl)
    obtain ⟨t, same⟩ := valid
    rw [same, List.utf8Decode?_utf8Encode] at found
    rw [← Option.some.inj found]
    exact (List.toByteArray_inj.mp same).symm
  · intro same
    have encoded : b.toByteArray = s.utf8Encode := congrArg List.toByteArray same.symm
    rw [fromUtf8, encoded, List.utf8Decode?_utf8Encode]
    rfl

theorem fromUtf8_bytes (s : List Char) : fromUtf8 (bytes s) = some s := fromUtf8_eq_some.mpr rfl

@[simp] theorem byteLen_nil : byteLen [] = 0 := rfl

@[simp] theorem byteLen_cons (c : Char) (s : List Char) :
    byteLen (c :: s) = c.utf8Size + byteLen s := by
  rw [byteLen, List.map_cons, List.sum_cons, byteLen]

@[simp] theorem byteLen_append (s t : List Char) : byteLen (s ++ t) = byteLen s + byteLen t := by
  rw [byteLen, List.map_append, List.sum_append, byteLen, byteLen]

@[simp] theorem bytes_length (s : List Char) : (bytes s).length = byteLen s := by
  induction s with
  | nil => rfl
  | cons c s ih =>
    have head := String.length_utf8EncodeChar c
    rw [byteLen_cons, ← ih, ← head, ← List.length_append]
    rfl

theorem splitAtByte_append (s t : List Char) : splitAtByte (byteLen s) (s ++ t) = some (s, t) := by
  induction s with
  | nil => cases t <;> rfl
  | cons c s ih =>
    have positive := c.utf8Size_pos
    obtain ⟨n, length⟩ : ∃ n, byteLen (c :: s) = n + 1 := ⟨byteLen (c :: s) - 1, by
      rw [byteLen_cons]
      omega⟩
    have rest : n + 1 - c.utf8Size = byteLen s := by
      rw [← length, byteLen_cons]
      omega
    have fits : c.utf8Size ≤ n + 1 := by
      rw [← length, byteLen_cons]
      omega
    rw [length, List.cons_append, splitAtByte, if_pos fits, rest, ih]
    rfl

theorem takeBytes_append (s t : List Char) : takeBytes (byteLen s) (s ++ t) = some s := by
  rw [takeBytes, splitAtByte_append]
  rfl

theorem dropBytes_append (s t : List Char) : dropBytes (byteLen s) (s ++ t) = some t := by
  rw [dropBytes, splitAtByte_append]
  rfl

theorem sliceBytes_append (s t u : List Char) :
    sliceBytes (byteLen s) (byteLen (s ++ t)) (s ++ t ++ u) = some t := by
  rw [sliceBytes, takeBytes_append, Option.bind_some, dropBytes_append]

theorem encode_cases (c : Char) :
    (c.toNat < 128 ∧ String.utf8EncodeChar c = [UInt8.ofNat c.toNat]) ∨
      ∀ byte ∈ String.utf8EncodeChar c, 128 ≤ byte.toNat := by
  unfold String.utf8EncodeChar
  dsimp only
  split
  · rename_i ascii
    exact .inl ⟨Nat.lt_succ_of_le ascii, rfl⟩
  · refine .inr ?_
    intro byte member
    split at member
    · simp only [List.mem_cons, List.not_mem_nil, or_false] at member
      rcases member with rfl | rfl <;> rw [UInt8.toNat_ofNat'] <;> omega
    · split at member
      · simp only [List.mem_cons, List.not_mem_nil, or_false] at member
        rcases member with rfl | rfl | rfl <;> rw [UInt8.toNat_ofNat'] <;> omega
      · simp only [List.mem_cons, List.not_mem_nil, or_false] at member
        rcases member with rfl | rfl | rfl | rfl <;> rw [UInt8.toNat_ofNat'] <;> omega

theorem utf8EncodeChar_of_ascii {c : Char} (ascii : c.toNat < 128) :
    String.utf8EncodeChar c = [UInt8.ofNat c.toNat] := by
  rcases encode_cases c with ⟨_, same⟩ | above
  · exact same
  · exfalso
    have low := above (UInt8.ofNat c.toNat)
    have small : c.toNat ≤ 127 := by omega
    have member : UInt8.ofNat c.toNat ∈ String.utf8EncodeChar c := by
      unfold String.utf8EncodeChar
      dsimp only
      rw [if_pos (show c.val.toNat ≤ 127 from small)]
      exact List.mem_singleton_self _
    have bound := low member
    rw [UInt8.toNat_ofNat'] at bound
    omega

/-- Where the bytes of a text end with those of an ASCII text, the text ends with it: cutting
    there cuts between characters. -/
theorem ascii_suffix {s t : List Char} {front : List UInt8} (ascii : ∀ c ∈ t, c.toNat < 128)
    (same : bytes s = front ++ bytes t) : ∃ init, s = init ++ t ∧ bytes init = front := by
  induction t using List.reverseRecOn generalizing s with
  | nil => exact ⟨s, (List.append_nil s).symm, by rw [same, bytes_nil, List.append_nil]⟩
  | append_singleton t c ih =>
    have small := ascii c (by simp)
    have encoded : bytes [c] = [UInt8.ofNat c.toNat] := by
      rw [bytes_singleton, utf8EncodeChar_of_ascii small]
    rcases List.eq_nil_or_concat s with rfl | ⟨init, d, rfl⟩
    · have length := congrArg List.length same
      simp only [bytes_append, encoded, bytes_nil, List.length_nil, List.length_append,
        List.length_singleton] at length
      omega
    · rw [List.concat_eq_append, bytes_append, bytes_append, ← List.append_assoc, encoded] at same
      rcases encode_cases d with ⟨low, single⟩ | above
      · have last : bytes [d] = [UInt8.ofNat d.toNat] := by
          rw [bytes_singleton, single]
        rw [last] at same
        obtain ⟨rest, equal⟩ := List.append_inj' same rfl
        have values := congrArg UInt8.toNat (List.singleton_inj.mp equal)
        rw [UInt8.toNat_ofNat', UInt8.toNat_ofNat', Nat.mod_eq_of_lt (by omega),
          Nat.mod_eq_of_lt (by omega)] at values
        have char : d = c := Char.toNat_inj.mp values
        obtain ⟨front', split, shorter⟩ := ih (fun e member => ascii e (by simp [member])) rest
        refine ⟨front', ?_, shorter⟩
        rw [List.concat_eq_append, split, char, List.append_assoc]
      · have last : UInt8.ofNat c.toNat ∈ bytes [d] := by
          rcases List.eq_nil_or_concat (bytes [d]) with empty | ⟨most, final, split⟩
          · rw [bytes_singleton] at empty
            exact absurd empty String.utf8EncodeChar_ne_nil
          · rw [split, List.concat_eq_append, ← List.append_assoc] at same
            have equal := List.singleton_inj.mp (List.append_inj' same rfl).2
            rw [split, equal]
            simp
        rw [bytes_singleton] at last
        have bound := above _ last
        rw [UInt8.toNat_ofNat'] at bound
        omega

end Base
