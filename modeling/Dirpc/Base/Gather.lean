import Mathlib.Data.List.Infix

namespace Base

variable {β γ : Type*}

/-- Chunks are appended to a buffer until `look` has an answer to it; an empty chunk, or the end of
    the chunks, ends the stream. The buffer at the end and the answer, if there is one. -/
def gather (look : List β → Option γ) : List (List β) → List β → List β × Option γ
  | [], buf => (buf, none)
  | chunk :: chunks, buf =>
    if chunk = [] then (buf, none)
    else match look (buf ++ chunk) with
      | some answer => (buf ++ chunk, some answer)
      | none => gather look chunks (buf ++ chunk)

variable {look : List β → Option γ} {chunk buf : List β} {chunks : List (List β)} {answer : γ}

theorem gather_answered (filled : chunk ≠ []) (answered : look (buf ++ chunk) = some answer) :
    gather look (chunk :: chunks) buf = (buf ++ chunk, some answer) := by
  rw [gather, if_neg filled, answered]

theorem gather_silent (filled : chunk ≠ []) (silent : look (buf ++ chunk) = none) :
    gather look (chunk :: chunks) buf = gather look chunks (buf ++ chunk) := by
  rw [gather, if_neg filled, silent]

theorem gather_append {front rest : List (List β)} (cut : front ≠ [])
    (filled : ∀ chunk ∈ front, chunk ≠ [])
    (silent : ∀ part, part <+: front.flatten → part ≠ front.flatten → look (buf ++ part) = none)
    (answered : look (buf ++ front.flatten) = some answer) :
    gather look (front ++ rest) buf = (buf ++ front.flatten, some answer) := by
  induction front generalizing buf with
  | nil => exact absurd rfl cut
  | cons chunk chunks ih =>
    have first : chunk ≠ [] := filled chunk List.mem_cons_self
    rcases List.eq_nil_or_concat chunks with rfl | ⟨init, last, rfl⟩
    · rw [List.flatten_singleton] at answered ⊢
      exact gather_answered first answered
    · have later : ∀ chunk ∈ init.concat last, chunk ≠ [] :=
        fun chunk member => filled chunk (List.mem_cons_of_mem _ member)
      have more : (init.concat last).flatten ≠ [] := by
        intro nothing
        have blank := List.flatten_eq_nil_iff.mp nothing last (by simp)
        exact later last (by simp) blank
      rw [List.flatten_cons] at silent answered ⊢
      have unanswered : look (buf ++ chunk) = none := by
        apply silent chunk (List.prefix_append ..)
        simpa using Ne.symm more
      rw [List.cons_append, gather_silent first unanswered, ← List.append_assoc]
      apply ih (by simp) later
      · intro part inside different
        rw [List.append_assoc]
        apply silent (chunk ++ part)
        · exact (List.prefix_append_right_inj chunk).mpr inside
        · simpa using different
      · rwa [List.append_assoc]

theorem gather_length {limit m : Nat} (small : ∀ chunk ∈ chunks, chunk.length ≤ m)
    (past : ∀ buf : List β, limit < buf.length → (look buf).isSome)
    (short : buf.length ≤ limit) : (gather look chunks buf).1.length ≤ limit + m := by
  induction chunks generalizing buf with
  | nil => exact Nat.le_add_right_of_le short
  | cons chunk chunks ih =>
    have first := small chunk List.mem_cons_self
    have length : (buf ++ chunk).length ≤ limit + m := by
      rw [List.length_append]
      omega
    rw [gather]
    split
    · exact Nat.le_add_right_of_le short
    · split
      · exact length
      · rename_i unanswered
        apply ih fun chunk member => small chunk (List.mem_cons_of_mem _ member)
        by_contra long
        have answered := past (buf ++ chunk) (by omega)
        rw [unanswered] at answered
        cases answered

end Base
