import Dirpc.Base.Text

namespace Dirpc

open Base

/-- The characters of a token, up to the limit: the text and how many of its characters are used. -/
def pushChars (maxChars : Nat) : List Char → List Char → Nat → List Char × Nat
  | [], out, charsUsed => (out, charsUsed)
  | ch :: rest, out, charsUsed =>
    if maxChars ≤ charsUsed then (out, charsUsed)
    else pushChars maxChars rest (out ++ [ch]) (charsUsed + 1)

def pushTokens (maxChars : Nat) : List (List Char) → List Char → Nat → List Char
  | [], out, _ => out
  | token :: rest, out, charsUsed =>
    if out.isEmpty then
      let (out, charsUsed) := pushChars maxChars token out charsUsed
      pushTokens maxChars rest out charsUsed
    else if maxChars ≤ charsUsed then out
    else
      let (out, charsUsed) := pushChars maxChars token (out ++ [' ']) (charsUsed + 1)
      pushTokens maxChars rest out charsUsed

def compactWhitespacePreview (input : List Char) (maxChars : Nat) : List Char :=
  if maxChars = 0 then [] else pushTokens maxChars (splitWhitespace input) [] 0

def compacted (input : List Char) : List Char := [' '].intercalate (splitWhitespace input)

theorem intercalate_space (token : List Char) (tokens : List (List Char)) :
    [' '].intercalate (token :: tokens) = token ++ tokens.flatMap fun next => ' ' :: next := by
  induction tokens generalizing token with
  | nil => simp
  | cons next tokens ih => rw [List.intercalate_cons_cons, ih, List.flatMap_cons, List.append_assoc]; rfl

theorem take_take_append {α : Type*} (m : Nat) (xs ys : List α) :
    (xs.take m ++ ys).take m = (xs ++ ys).take m := by
  by_cases short : xs.length ≤ m
  · rw [List.take_of_length_le short]
  · have long : m ≤ xs.length := by omega
    have full : m ≤ (xs.take m).length := by
      rw [List.length_take]
      omega
    rw [List.take_append_of_le_length full, List.take_append_of_le_length long, List.take_take,
      Nat.min_self]

section

variable {m : Nat} {out : List Char} {tokens : List (List Char)}

theorem pushChars_eq (fits : out.length ≤ m) (token : List Char) :
    pushChars m token out out.length =
      ((out ++ token).take m, ((out ++ token).take m).length) := by
  induction token generalizing out with
  | nil => rw [pushChars, List.append_nil, List.take_of_length_le fits]
  | cons ch rest ih =>
    rw [pushChars]
    by_cases full : m ≤ out.length
    · have all : (out ++ ch :: rest).take m = out := List.take_left' (by omega)
      rw [if_pos full, all]
    · have room : (out ++ [ch]).length ≤ m := by
        rw [List.length_append, List.length_singleton]
        omega
      have next := ih room
      rw [List.length_append, List.length_singleton, List.append_assoc] at next
      rw [if_neg full]
      exact next

theorem pushTokens_eq (fits : out.length ≤ m) (filled : out ≠ []) :
    pushTokens m tokens out out.length =
      (out ++ tokens.flatMap fun next => ' ' :: next).take m := by
  induction tokens generalizing out with
  | nil => rw [pushTokens, List.flatMap_nil, List.append_nil, List.take_of_length_le fits]
  | cons token rest ih =>
    rw [pushTokens, if_neg (by simpa using filled)]
    by_cases full : m ≤ out.length
    · rw [if_pos full, List.take_left' (by omega)]
    · have room : (out ++ [' ']).length ≤ m := by
        rw [List.length_append, List.length_singleton]
        omega
      have pushed := pushChars_eq room token
      rw [List.length_append, List.length_singleton] at pushed
      have short : ((out ++ [' '] ++ token).take m).length ≤ m := List.length_take_le ..
      have nonempty : (out ++ [' '] ++ token).take m ≠ [] := by
        intro nothing
        have none := congrArg List.length nothing
        simp only [List.length_take, List.length_append, List.length_nil, List.length_singleton]
          at none
        omega
      rw [if_neg full, pushed]
      dsimp only
      rw [ih short nonempty, take_take_append]
      simp only [List.flatMap_cons, List.append_assoc, List.cons_append, List.nil_append]

end

theorem mem_splitWhitespace {input token : List Char} (member : token ∈ splitWhitespace input) :
    token ≠ [] ∧ ∀ c ∈ token, isWhitespace c = false := by
  obtain ⟨piece, filled⟩ := List.mem_filter.mp member
  exact ⟨by simpa using filled, of_mem_splitOnP piece⟩

theorem compactWhitespacePreview_eq (input : List Char) (maxChars : Nat) :
    compactWhitespacePreview input maxChars = (compacted input).take maxChars := by
  unfold compactWhitespacePreview compacted
  split
  · rename_i zero
    rw [zero, List.take_zero]
  · rename_i positive
    have nonempty : ∀ token ∈ splitWhitespace input, token ≠ [] :=
      fun token member => (mem_splitWhitespace member).1
    cases tokens : splitWhitespace input with
    | nil => simp [pushTokens]
    | cons token rest =>
      have first : token ≠ [] := nonempty token (by rw [tokens]; exact List.mem_cons_self)
      have pushed : pushChars maxChars token [] 0 = _ := pushChars_eq (Nat.zero_le _) token
      have started : token.take maxChars ≠ [] := by simp [positive, first]
      rw [List.nil_append] at pushed
      simp only [pushTokens, List.isEmpty_nil, if_true, pushed]
      rw [pushTokens_eq (List.length_take_le ..) started, take_take_append, intercalate_space]

theorem splitWhitespace_intercalate {tokens : List (List Char)}
    (words : ∀ token ∈ tokens, token ≠ [] ∧ ∀ c ∈ token, isWhitespace c = false) :
    splitWhitespace ([' '].intercalate tokens) = tokens := by
  induction tokens with
  | nil => rfl
  | cons token tokens ih =>
    obtain ⟨filled, plain⟩ := words token List.mem_cons_self
    cases tokens with
    | nil =>
      rw [List.intercalate_singleton, splitWhitespace, List.splitOnP_eq_singleton plain]
      simp [filled]
    | cons next rest =>
      rw [List.intercalate_cons_cons, List.append_assoc]
      exact (splitWhitespace_cons filled plain (by decide)).trans
        (congrArg _ (ih fun token member => words token (List.mem_cons_of_mem _ member)))

/-- For every text and limit: the preview is the start of the text's words with one space between
    them, of the limit's length, and where they fit it has the words of the text. -/
theorem previews_compact (input : List Char) (maxChars : Nat) :
    compactWhitespacePreview input maxChars = (compacted input).take maxChars ∧
      ((compacted input).length ≤ maxChars →
        splitWhitespace (compactWhitespacePreview input maxChars) = splitWhitespace input) := by
  refine ⟨compactWhitespacePreview_eq input maxChars, ?_⟩
  intro fits
  rw [compactWhitespacePreview_eq, List.take_of_length_le fits]
  exact splitWhitespace_intercalate fun token member => mem_splitWhitespace member

example : compactWhitespacePreview " ab\n\tcd ".toList 2 = "ab".toList ∧
    compactWhitespacePreview " ab\n\tcd ".toList 3 = "ab ".toList := ⟨rfl, rfl⟩

end Dirpc
