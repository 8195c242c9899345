import Mathlib.Logic.Basic
import Mathlib.Tactic.TypeStar

namespace Base

variable {σ ε : Type*} {step : σ → ε → Option σ}

/-- The events of a list taken in order; `none` as soon as one of them is not enabled. -/
def run (step : σ → ε → Option σ) : σ → List ε → Option σ
  | s, [] => some s
  | s, e :: es => (step s e).bind fun t => run step t es

def Meets (step : σ → ε → Option σ) (cond : σ → ε → Prop) : σ → List ε → Prop
  | _, [] => True
  | s, e :: es => cond s e ∧ ∀ t, step s e = some t → Meets step cond t es

@[simp] theorem run_nil (s : σ) : run step s [] = some s := rfl

theorem run_cons_eq_some {s u : σ} {e : ε} {es : List ε} :
    run step s (e :: es) = some u ↔ ∃ t, step s e = some t ∧ run step t es = some u :=
  Option.bind_eq_some_iff

theorem run_append (s : σ) (es fs : List ε) :
    run step s (es ++ fs) = (run step s es).bind fun t => run step t fs := by
  induction es generalizing s with
  | nil => rfl
  | cons e es ih =>
    simp only [List.cons_append, run]
    cases step s e with
    | none => rfl
    | some t => exact ih t

theorem run_append_eq_some {s u : σ} {es fs : List ε} :
    run step s (es ++ fs) = some u ↔ ∃ t, run step s es = some t ∧ run step t fs = some u := by
  rw [run_append]
  exact Option.bind_eq_some_iff

theorem run_invariant_of_meets {inv : σ → Prop} {cond : σ → ε → Prop}
    (keeps : ∀ s e t, inv s → cond s e → step s e = some t → inv t)
    {s u : σ} {es : List ε} (meets : Meets step cond s es) (initial : inv s)
    (reached : run step s es = some u) : inv u := by
  induction es generalizing s with
  | nil =>
    cases reached
    exact initial
  | cons e es ih =>
    obtain ⟨t, taken, rest⟩ := run_cons_eq_some.mp reached
    exact ih (meets.2 t taken) (keeps s e t initial meets.1 taken) rest

theorem meets_of_forall {cond : σ → ε → Prop} {s : σ} {es : List ε}
    (always : ∀ t, ∀ e ∈ es, cond t e) : Meets step cond s es := by
  induction es generalizing s with
  | nil => trivial
  | cons e es ih =>
    exact ⟨always s e (by simp), fun t _ => ih fun u f member => always u f (by simp [member])⟩

theorem meets_cons {cond : σ → ε → Prop} {s t : σ} {e : ε} {es : List ε}
    (taken : step s e = some t) (first : cond s e) (rest : Meets step cond t es) :
    Meets step cond s (e :: es) := by
  refine ⟨first, ?_⟩
  intro u taken'
  rw [taken] at taken'
  exact Option.some.inj taken' ▸ rest

theorem Meets.imp {cond weaker : σ → ε → Prop} {s : σ} {es : List ε}
    (meets : Meets step cond s es) (implies : ∀ t e, cond t e → weaker t e) :
    Meets step weaker s es := by
  induction es generalizing s with
  | nil => trivial
  | cons e es ih => exact ⟨implies s e meets.1, fun t taken => ih (meets.2 t taken)⟩

theorem Meets.and {cond other : σ → ε → Prop} {s : σ} {es : List ε}
    (meets : Meets step cond s es) (meets' : Meets step other s es) :
    Meets step (fun t e => cond t e ∧ other t e) s es := by
  induction es generalizing s with
  | nil => trivial
  | cons e es ih =>
    exact ⟨⟨meets.1, meets'.1⟩, fun t taken => ih (meets.2 t taken) (meets'.2 t taken)⟩

theorem run_invariant {inv : σ → Prop} (keeps : ∀ s e t, inv s → step s e = some t → inv t)
    {s u : σ} {es : List ε} (initial : inv s) (reached : run step s es = some u) : inv u :=
  have meets : Meets step (fun _ _ => True) s es := meets_of_forall fun _ _ _ => trivial
  run_invariant_of_meets (fun s e t kept _ => keeps s e t kept) meets initial reached

theorem meets_append {cond : σ → ε → Prop} {s : σ} {es fs : List ε} :
    Meets step cond s (es ++ fs) ↔
      Meets step cond s es ∧ ∀ t, run step s es = some t → Meets step cond t fs := by
  induction es generalizing s with
  | nil => simp [Meets]
  | cons e es ih =>
    simp only [List.cons_append, Meets, ih, run_cons_eq_some]
    constructor
    · intro assumed
      rcases assumed with ⟨head, tail⟩
      refine ⟨⟨head, fun t taken => (tail t taken).1⟩, ?_⟩
      rintro u ⟨t, taken, rest⟩
      exact (tail t taken).2 u rest
    · intro assumed
      rcases assumed with ⟨⟨head, tail⟩, last⟩
      exact ⟨head, fun t taken => ⟨tail t taken, fun u rest => last u ⟨t, taken, rest⟩⟩⟩

theorem run_measure_of_meets {measure : σ → Nat} {counted : ε → Bool} {cond : σ → ε → Prop}
    (lowers : ∀ s e t, cond s e → step s e = some t →
      measure t + (if counted e then 1 else 0) ≤ measure s)
    {s u : σ} {es : List ε} (meets : Meets step cond s es) (reached : run step s es = some u) :
    measure u + es.countP counted ≤ measure s := by
  induction es generalizing s with
  | nil =>
    cases reached
    exact Nat.le_refl _
  | cons e es ih =>
    obtain ⟨t, taken, rest⟩ := run_cons_eq_some.mp reached
    have first := lowers s e t meets.1 taken
    have later := ih (meets.2 t taken) rest
    rw [List.countP_cons]
    omega

theorem run_measure {measure : σ → Nat} {counted : ε → Bool}
    (lowers : ∀ s e t, step s e = some t → measure t + (if counted e then 1 else 0) ≤ measure s)
    {s u : σ} {es : List ε} (reached : run step s es = some u) :
    measure u + es.countP counted ≤ measure s :=
  have meets : Meets step (fun _ _ => True) s es := meets_of_forall fun _ _ _ => trivial
  run_measure_of_meets (fun s e t _ => lowers s e t) meets reached

theorem run_image {τ : Type*} {other : τ → ε → Option τ} {f : σ → τ}
    (follows : ∀ s e, other (f s) e = (step s e).map f) (s : σ) (es : List ε) :
    run other (f s) es = (run step s es).map f := by
  induction es generalizing s with
  | nil => rfl
  | cons e es ih =>
    rw [run, run, follows]
    cases step s e with
    | none => rfl
    | some t => exact ih t

theorem run_lockstep {τ : Type*} {other : τ → ε → Option τ} {rel : σ → τ → Prop}
    (keeps : ∀ s t e, rel s t → Option.Rel rel (step s e) (other t e)) {s : σ} {t : τ}
    (related : rel s t) (es : List ε) : Option.Rel rel (run step s es) (run other t es) := by
  induction es generalizing s t with
  | nil => exact .some related
  | cons e es ih =>
    have first := keeps s t e related
    rw [run, run]
    cases taken : step s e <;> cases matched : other t e <;> rw [taken, matched] at first
    · exact .none
    · cases first
    · cases first
    · cases first with
      | some next => exact ih next

/-- A system whose every step is a run of another one has only runs of that one. -/
theorem run_simulated {τ φ : Type*} {other : τ → φ → Option τ} {rel : σ → τ → Prop}
    (matched : ∀ s e s' t, rel s t → step s e = some s' →
      ∃ fs t', run other t fs = some t' ∧ rel s' t')
    {s s' : σ} {t : τ} {es : List ε} (related : rel s t) (reached : run step s es = some s') :
    ∃ fs t', run other t fs = some t' ∧ rel s' t' := by
  induction es generalizing s t with
  | nil =>
    cases reached
    exact ⟨[], t, rfl, related⟩
  | cons e es ih =>
    obtain ⟨u, taken, rest⟩ := run_cons_eq_some.mp reached
    obtain ⟨first, v, ran, next⟩ := matched s e u t related taken
    obtain ⟨later, t', finished, last⟩ := ih next rest
    exact ⟨first ++ later, t', run_append_eq_some.mpr ⟨v, ran, finished⟩, last⟩

end Base
