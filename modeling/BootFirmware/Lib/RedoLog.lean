import Mathlib.Data.List.Basic

/-
  A redo log: committed transactions, each with the copies it
  logs of some places and the places that it revokes.

  The place ends with the copy of the last transaction that
  logs it, unless a later one revokes it.

  Key definitions include:
    * `RedoLog.Transaction`
    * `RedoLog.latest`
    * `RedoLog.last`

  The rules used by the developments built on top are:
    * `last_cons_getD`
    * `last_append_empty`
-/

namespace RedoLog

variable {K V W : Type} [DecidableEq K]

structure Transaction (K V : Type) where
  logged : List (K × V)
  revoked : List K

/- The last copy of a place in a list of them. -/
def latest : List (K × V) → K → Option V
  | [], _ => none
  | (k', v) :: rest, k =>
    match latest rest k with
    | some v => some v
    | none => if k' = k then some v else none

theorem latest_cons (x : K × V) (rest : List (K × V)) (k : K) :
    latest (x :: rest) k = (latest rest k).or (if x.1 = k then some x.2 else none) := by
  conv_lhs => unfold latest
  cases latest rest k with
  | some v => rfl
  | none => rfl

/- Whether one of the transactions revokes the place. -/
def revoked (ts : List (Transaction K V))
    (k : K) : Bool :=
  ts.any fun t => decide (k ∈ t.revoked)

/- What the log says about a place. -/
def last : List (Transaction K V) → K → Option V
  | [], _ => none
  | t :: ts, k =>
    match last ts k with
    | some v => some v
    | none => if revoked ts k then none else latest t.logged k

/-
  Going through the log from its start, each transaction puts
  its copy of a place that no later one revokes.
-/
theorem last_cons_getD
    (f : V → W) (t : Transaction K V) (ts : List (Transaction K V)) (k : K) (w : W) :
    ((last (t :: ts) k).map f).getD w = ((last ts k).map f).getD
        (if revoked ts k then w
          else ((latest t.logged k).map f).getD w) := by
  conv_lhs => unfold last
  cases last ts k with
  | some v => rfl
  | none =>
    dsimp only [Option.map_none, Option.getD_none]
    by_cases hRevoked : revoked ts k = true
    · rw [if_pos hRevoked, if_pos hRevoked]
      rfl
    · rw [if_neg hRevoked, if_neg hRevoked]

/- A transaction that logs and revokes nothing. -/
theorem last_append_empty (ts : List (Transaction K V)) (k : K) :
    last (ts ++ [⟨[], []⟩]) k = last ts k := by
  induction ts with
  | nil => rfl
  | cons t ts ih =>
    have hRevoked : revoked (ts ++ [⟨[], []⟩]) k = revoked ts k := by
      unfold revoked
      rw [List.any_append]
      exact Bool.or_false _
    rw [List.cons_append]
    unfold last
    rw [ih, hRevoked]

end RedoLog
