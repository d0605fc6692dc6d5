import Mathlib.Logic.Relation

/-
  Labelled transition systems and their runs.

  A run is restricted by a step condition `ok`, so that a
  property which only holds when every step taken meets a
  condition is stated over the runs of that condition.  The
  unrestricted runs are those of the condition `Always`.

  Key definitions include:
    * `TransitionSystem`
    * `TransitionSystem.ReachableBy`
    * `TransitionSystem.ofStep`
    * `TransitionSystem.runSteps`

  The rules used by the developments built on top are:
    * `ReachableBy.invariant`
    * `ReachableBy.mono`
    * `ReachableBy.of_ofStep`
    * `exists_reachableBy`
-/

----
-- Systems And Runs
----

/- A labelled transition system over states `S`. -/
structure TransitionSystem (S L : Type) where
  init : S → Prop
  step : S → L → S → Prop

namespace TransitionSystem

variable {S L : Type}

/- The step condition that admits every step. -/
def Always : S → L → Prop :=
  fun _ _ => True

/-
  States reached by runs all of whose steps, taken together
  with the state they leave, meet the condition `ok`.
-/
inductive ReachableBy
    (T : TransitionSystem S L)
    (ok : S → L → Prop) : S → Prop
  | start {s : S} : T.init s → ReachableBy T ok s
  | next {s t : S} {l : L} : ReachableBy T ok s → ok s l → T.step s l t → ReachableBy T ok t

/- States reached by any run at all. -/
def Reachable (T : TransitionSystem S L) : S → Prop :=
  ReachableBy T Always

variable {T : TransitionSystem S L}

namespace ReachableBy

variable {ok : S → L → Prop}

/-
  The invariant rule.  What holds initially and is kept by
  every admitted step holds of every state a run reaches.
-/
theorem invariant {I : S → Prop}
    (hInit : ∀ s, T.init s → I s) (hStep : ∀ s l t, I s → ok s l → T.step s l t → I t) {s : S}
    (hReach : ReachableBy T ok s) :
    I s := by
  induction hReach with
  | start hStart => exact hInit _ hStart
  | next _ hOk hNext ih => exact hStep _ _ _ ih hOk hNext

/- A weaker step condition admits at least the same runs. -/
theorem mono
    {ok' : S → L → Prop} (hWeaker : ∀ s l, ok s l → ok' s l) {s : S} (hReach : ReachableBy T ok s) :
    ReachableBy T ok' s := by
  induction hReach with
  | start hStart => exact .start hStart
  | next _ hOk hNext ih => exact .next ih (hWeaker _ _ hOk) hNext

end ReachableBy

----
-- Systems Given By A Step Function
----

/- The system of a partial step function. -/
def ofStep (start : S) (step : S → L → Option S) :
    TransitionSystem S L where
  init s := s = start
  step s l t := step s l = some t

variable {step : S → L → Option S} {ok : S → L → Prop}

/- The runs of a step function in a system that has them. -/
theorem ReachableBy.of_ofStep {T : TransitionSystem S L} {start : S}
    (hInit : T.init start) (hStep : ∀ s l t, step s l = some t → T.step s l t) {s : S}
    (hReach : ReachableBy (ofStep start step) ok s) :
    ReachableBy T ok s := by
  induction hReach with
  | start hStart => exact .start (hStart ▸ hInit)
  | next _ hOk hNext ih => exact .next ih hOk (hStep _ _ _ hNext)

/-
  Execute a schedule, checking the step condition before
  each step.
-/
def runSteps (step : S → L → Option S) (ok : S → L → Prop) [∀ s l, Decidable (ok s l)] :
    List L → S → Option S
  | [], s => some s
  | l :: schedule, s =>
    if ok s l then
      (step s l).bind (runSteps step ok schedule)
    else
      none

theorem ReachableBy.runSteps [∀ s l, Decidable (ok s l)]
    {start s t : S} {schedule : List L} (hReach : ReachableBy (ofStep start step) ok s)
    (hRun : TransitionSystem.runSteps step ok schedule s = some t) :
    ReachableBy (ofStep start step) ok t := by
  induction schedule generalizing s with
  | nil =>
    have hEq : s = t := Option.some.inj hRun
    exact hEq ▸ hReach
  | cons l schedule ih =>
    unfold TransitionSystem.runSteps at hRun
    split at hRun
    · rename_i hOk
      rcases Option.bind_eq_some_iff.mp hRun with ⟨mid, hMid, hRest⟩
      exact ih (.next hReach hOk hMid) hRest
    · cases hRun

/-
  A schedule that executes and ends in `P` shows that a
  state with `P` is reachable.
-/
theorem exists_reachableBy (step : S → L → Option S) (ok : S → L → Prop) [∀ s l, Decidable (ok s l)]
    (start : S) (schedule : List L) (P : S → Prop) [DecidablePred P]
    (hRun : (TransitionSystem.runSteps step ok schedule start).any (fun s => decide (P s)) = true) :
    ∃ s, ReachableBy (ofStep start step) ok s ∧ P s := by
  rcases Option.any_eq_true_iff_get _ _ |>.mp hRun with ⟨hDone, hFinal⟩
  refine ⟨_, ?_, of_decide_eq_true hFinal⟩
  exact ReachableBy.runSteps (.start rfl) (Option.some_get hDone).symm

end TransitionSystem
