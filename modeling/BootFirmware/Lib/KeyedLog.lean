import Mathlib.Data.List.Basic

/-
  Logs in which a key is given a value or loses it, with the
  latest event first.

  In a stable log a key is only given the value that it has,
  if it has one.  Then it is given the same value whenever it
  does not lose it in between.

  Key definitions include:
    * `KeyedLog.Event`
    * `KeyedLog.latest`
    * `KeyedLog.Stable`

  The rules used by the developments built on top are:
    * `Stable.agree`
    * `latest_set_self`, `latest_clear_self` and the lemmas
      for other keys
-/

namespace KeyedLog

inductive Event (K V : Type) where
  | set (key : K) (value : V)
  | clear (key : K)
deriving DecidableEq, Repr

variable {K V : Type} [DecidableEq K]

/- The value that a key has after a log. -/
def latest (key : K) : List (Event K V) → Option V
  | [] => none
  | .set k v :: log =>
    if k = key then some v else latest key log
  | .clear k :: log =>
    if k = key then none else latest key log

/- Each key is only given the value that it has. -/
def Stable : List (Event K V) → Prop
  | [] => True
  | .clear _ :: log => Stable log
  | .set k v :: log => (∀ v', latest k log = some v' → v = v') ∧ Stable log

variable {key k : K} {v v' : V} {log : List (Event K V)}

theorem latest_set_self : latest key (.set key v :: log) = some v :=
  if_pos rfl

theorem latest_set_of_ne (hNe : k ≠ key) :
    latest key (.set k v :: log) = latest key log :=
  if_neg hNe

theorem latest_clear_self : latest key (.clear key :: log : List (Event K V)) = none :=
  if_pos rfl

theorem latest_clear_of_ne (hNe : k ≠ key) :
    latest key (.clear k :: log) = latest key log :=
  if_neg hNe

theorem Stable.of_append {later : List (Event K V)} (hStable : Stable (later ++ log)) :
    Stable log := by
  induction later with
  | nil => exact hStable
  | cons event later ih =>
    cases event with
    | set k v => exact ih hStable.2
    | clear k => exact ih hStable

/- A key keeps its value until it loses it. -/
theorem Stable.latest_append {between : List (Event K V)}
    (hStable : Stable (between ++ .set key v :: log)) (hKept : .clear key ∉ between) :
    latest key (between ++ .set key v :: log) = some v := by
  induction between with
  | nil => exact latest_set_self
  | cons event between ih =>
    have hRest : .clear key ∉ between := fun h => hKept (List.mem_cons_of_mem event h)
    cases event with
    | set k w =>
      have hLatest := ih hStable.2 hRest
      by_cases hk : k = key
      · subst hk
        rw [List.cons_append, latest_set_self, hStable.1 v hLatest]
      · rw [List.cons_append, latest_set_of_ne hk, hLatest]
    | clear k =>
      have hk : k ≠ key := by
        rintro rfl
        exact hKept List.mem_cons_self
      rw [List.cons_append, latest_clear_of_ne hk]
      exact ih hStable hRest

/-
  A key that does not lose its value in between is given the
  same value again.
-/
theorem Stable.agree {later between : List (Event K V)}
    (hStable : Stable (later ++ .set key v' :: (between ++ .set key v :: log)))
    (hKept : .clear key ∉ between) :
    v' = v := by
  have hTail := hStable.of_append
  exact hTail.1 v (hTail.2.latest_append hKept)

end KeyedLog
