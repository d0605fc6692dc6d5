import Mathlib.Data.List.Basic

/-
  Checks that run one after the other on a state, up to the
  first that fails.

  Key definitions include:
    * `runChecks`
    * `Chain`

  The rules used by the developments built on top are:
    * `runChecks_ok` and `runChecks_error`
    * `Chain.keeps`
    * `Chain.split`
-/

variable {A E S : Type}

/- Run the checks, and stop at the first that fails. -/
def runChecks (check : A → S → Except E Unit × S) : List A → S → Except E Unit × S
  | [], s => (.ok (), s)
  | a :: rest, s =>
    let r := check a s
    match r.1 with
    | .ok () => runChecks check rest r.2
    | .error e => (.error e, r.2)

/- Each of a list of things leads from one state to the next. -/
inductive Chain (Leads : A → S → S → Prop) : List A → S → S → Prop
  | nil {s : S} : Chain Leads [] s s
  | cons {a : A} {rest : List A} {s t u : S} :
      Leads a s t → Chain Leads rest t u → Chain Leads (a :: rest) s u

section Rules

variable {check : A → S → Except E Unit × S} {Leads : A → S → S → Prop} {as bs : List A} {s t : S}

theorem runChecks_ok (hCheck : ∀ a s t, check a s = (.ok (), t) → Leads a s t)
    (hRun : runChecks check as s = (.ok (), t)) :
    Chain Leads as s t := by
  induction as generalizing s with
  | nil =>
    cases hRun
    exact .nil
  | cons a rest ih =>
    unfold runChecks at hRun
    have hFirst := hCheck a s
    generalize check a s = r at hRun hFirst
    rcases r with ⟨_ | _, u⟩
    · cases hRun
    · exact .cons (hFirst u rfl) (ih hRun)

/- Some check fails after all those before it succeeded. -/
theorem runChecks_error {e : E} (hCheck : ∀ a s t, check a s = (.ok (), t) → Leads a s t)
    (hRun : runChecks check as s = (.error e, t)) :
    ∃ before a after u, as = before ++ a :: after ∧
      Chain Leads before s u ∧ check a u = (.error e, t) := by
  induction as generalizing s with
  | nil => cases hRun
  | cons a rest ih =>
    unfold runChecks at hRun
    have hFirst := hCheck a s
    cases hResult : check a s with
    | mk ret u =>
      rw [hResult] at hRun hFirst
      cases ret with
      | error e' =>
        cases hRun
        exact ⟨[], a, rest, s, rfl, .nil, hResult⟩
      | ok =>
        rcases ih hRun with ⟨before, b, after, v, rfl, hChain, hError⟩
        exact ⟨a :: before, b, after, v, rfl, .cons (hFirst u rfl) hChain, hError⟩

theorem Chain.keeps {I : S → Prop}
    (hChain : Chain Leads as s t) (hStep : ∀ a ∈ as, ∀ s t, Leads a s t → I s → I t) (hInv : I s) :
    I t := by
  induction hChain with
  | nil => exact hInv
  | cons hFirst _ ih =>
    refine ih (fun a ha => hStep a (List.mem_cons_of_mem _ ha))
      ?_
    exact hStep _ List.mem_cons_self _ _ hFirst hInv

/- The state between two parts. -/
theorem Chain.split (hChain : Chain Leads (as ++ bs) s t) :
    ∃ u, Chain Leads as s u ∧ Chain Leads bs u t := by
  induction as generalizing s with
  | nil => exact ⟨s, .nil, hChain⟩
  | cons a rest ih =>
    cases hChain with
    | cons hFirst hRest =>
      rcases ih hRest with ⟨u, hBefore, hAfter⟩
      exact ⟨u, .cons hFirst hBefore, hAfter⟩

end Rules
