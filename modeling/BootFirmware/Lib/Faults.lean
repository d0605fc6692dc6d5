/-
  Computations that end in a result or in a fault, and when
  they end in a result.

  Key definitions include:
    * `Runs`

  The rules used by the developments built on top are:
    * `runs_ok` and `not_runs_error`
    * `runs_bind_iff` and `runs_guard_iff`
    * `runs_bind_of_forall`
    * `ok_bind` and `bind_eq_ok`
-/

namespace Faults

variable {E A B : Type}

/- The computation ends in a result. -/
def Runs (x : Except E A) : Prop :=
  ∃ a, x = .ok a

theorem runs_ok (a : A) : Runs (.ok a : Except E A) :=
  ⟨a, rfl⟩

theorem not_runs_error (e : E) : ¬ Runs (.error e : Except E A) := by
  rintro ⟨a, hEq⟩
  cases hEq

theorem runs_bind_iff (x : Except E A) (f : A → Except E B) :
    Runs (x >>= f) ↔ ∃ a, x = .ok a ∧ Runs (f a) := by
  cases x with
  | ok a =>
    constructor
    · intro hRuns
      exact ⟨a, rfl, hRuns⟩
    · rintro ⟨b, hEq, hRuns⟩
      cases hEq
      exact hRuns
  | error e =>
    constructor
    · intro hRuns
      exact absurd hRuns (not_runs_error e)
    · rintro ⟨b, hEq, -⟩
      cases hEq

/- A result that a check comes before. -/
theorem runs_guard_iff {c : Prop} [Decidable c] (a : A) (e : E) (f : A → Except E B) :
    Runs ((if c then .ok a else .error e) >>= f) ↔ c ∧ Runs (f a) := by
  by_cases hc : c
  · rw [if_pos hc]
    exact (and_iff_right hc).symm
  · rw [if_neg hc]
    exact iff_of_false (not_runs_error e) fun h => hc h.1

theorem ok_bind (a : A) (f : A → Except E B) :
    (Except.ok a >>= f) = f a := rfl

variable {f : A → Except E B}

/- The two results of a sequence. -/
theorem bind_eq_ok {x : Except E A} {b : B} (hEq : x >>= f = .ok b) :
    ∃ a, x = .ok a ∧ f a = .ok b := by
  cases x with
  | ok a => exact ⟨a, rfl, hEq⟩
  | error e => cases hEq

/- What always ends in a result may be left out. -/
theorem runs_bind_of_forall (hAll : ∀ a, Runs (f a)) (x : Except E A) :
    Runs (x >>= f) ↔ Runs x := by
  rw [runs_bind_iff]
  constructor
  · rintro ⟨a, hEq, -⟩
    exact ⟨a, hEq⟩
  · rintro ⟨a, hEq⟩
    exact ⟨a, hEq, hAll a⟩

end Faults
