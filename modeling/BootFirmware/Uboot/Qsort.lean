import Mathlib.Data.List.Basic

/-
  The sorting function `qsort`, a shell sort, on the elements
  of a list.

  Key definitions include:
    * `qsort`

  The main result is:
    * `qsort_perm`
-/

namespace Uboot

variable {α : Type}

def swap (base : List α) (i j : Nat) (a b : α) : List α :=
  (base.set i b).set j a

/-
  The innermost loop, which moves an element down by steps of
  `wgap` as long as it comes before the one it meets.
-/
def qsortInsert (comp : α → α → Int) (wgap : Nat) (base : List α) (j : Nat) :
    List α :=
  if h : 0 < wgap ∧ wgap ≤ j then
    match base[j - wgap]?, base[j]? with
    | some a, some b =>
      if comp a b ≤ 0 then
        base
      else
        qsortInsert comp wgap (swap base (j - wgap) j a b) (j - wgap)
    | _, _ => base
  else
    base
termination_by j
decreasing_by omega

/- The loop over the elements from `i` on. -/
def qsortPass (comp : α → α → Int) (wgap : Nat) :
    Nat → Nat → List α → List α
  | 0, _, base => base
  | left + 1, i, base => qsortPass comp wgap left (i + 1) (qsortInsert comp wgap base i)

/- The loop over the gaps. -/
def qsortGaps (comp : α → α → Int) (wgap : Nat) (base : List α) :
    List α :=
  let base := qsortPass comp wgap (base.length - wgap) wgap base
  if h : 0 < wgap ∧ 0 < (wgap - 1) / 3 then
    qsortGaps comp ((wgap - 1) / 3) base
  else
    base
termination_by wgap
decreasing_by omega

/- The largest gap to start with. -/
def firstGap (nel wgap : Nat) : Nat :=
  if 3 * wgap + 1 < (nel - 1) / 3 then
    firstGap nel (3 * wgap + 1)
  else
    3 * wgap + 1
termination_by nel - wgap
decreasing_by omega

def qsort (comp : α → α → Int) (base : List α) : List α :=
  if 1 < base.length then
    qsortGaps comp (firstGap base.length 0) base
  else
    base

theorem swap_perm
    {base : List α} {i j : Nat} {a b : α} (ha : base[i]? = some a) (hb : base[j]? = some b) :
    (swap base i j a b).Perm base := by
  rcases List.getElem?_eq_some_iff.mp ha with ⟨hi, rfl⟩
  rcases List.getElem?_eq_some_iff.mp hb with ⟨hj, rfl⟩
  exact List.set_set_perm hi hj

section

variable (comp : α → α → Int)

theorem qsortInsert_perm (wgap : Nat) (base : List α) (j : Nat) :
    (qsortInsert comp wgap base j).Perm base := by
  fun_induction qsortInsert comp wgap base j with
  | case1 => exact List.Perm.refl _
  | case2 base j _ a b hb ha _ ih => exact ih.trans (swap_perm ha hb)
  | case3 => exact List.Perm.refl _
  | case4 => exact List.Perm.refl _

theorem qsortPass_perm (wgap left i : Nat) (base : List α) :
    (qsortPass comp wgap left i base).Perm base := by
  induction left generalizing i base with
  | zero => exact List.Perm.refl base
  | succ left ih => exact (ih (i + 1) _).trans (qsortInsert_perm comp wgap base i)

theorem qsortGaps_perm (wgap : Nat) (base : List α) :
    (qsortGaps comp wgap base).Perm base := by
  fun_induction qsortGaps comp wgap base with
  | case1 wgap base base' _ ih => exact ih.trans (qsortPass_perm comp wgap _ _ base)
  | case2 wgap base => exact qsortPass_perm comp wgap _ _ base

/- Sorting only reorders the elements. -/
theorem qsort_perm (base : List α) :
    (qsort comp base).Perm base := by
  unfold qsort
  split
  · exact qsortGaps_perm comp _ base
  · exact List.Perm.refl base

end

end Uboot
