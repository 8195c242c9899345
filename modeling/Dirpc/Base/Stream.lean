import Mathlib.Data.List.Basic

namespace Base

variable {α β γ : Type*}

/-- A reader called `n` times, each time on what the call before has left. -/
def reads (next : List β → Option (γ × List β)) : Nat → List β → Option (List γ × List β)
  | 0, input => some ([], input)
  | n + 1, input => (next input).bind fun head =>
    (reads next n head.2).map fun tail => (head.1 :: tail.1, tail.2)

theorem reads_flatMap {next : List β → Option (γ × List β)} {encoded : α → List β} {value : α → γ}
    (reads_one : ∀ x rest, next (encoded x ++ rest) = some (value x, rest)) (xs : List α)
    (rest : List β) : reads next xs.length (xs.flatMap encoded ++ rest) = some (xs.map value, rest) := by
  induction xs with
  | nil => rfl
  | cons x xs ih =>
    rw [List.flatMap_cons, List.append_assoc, List.length_cons, reads, reads_one, Option.bind_some,
      ih, Option.map_some, List.map_cons]

end Base
