import Mathlib.Order.Interval.Set.Basic
import Mathlib.Logic.Function.Basic

/-
  Sorted tables of half-open intervals with gaps between
  them, and the sets of points they cover.

  A table is a function from indices of which the first `n`
  count.  Two intervals that touch cover the same points as
  one, so a table with gaps is the only one for its set.

  Key definitions include:
    * `Entry` and `Entry.points`
    * `IntervalTable.covered`
    * `IntervalTable.Separated`
    * `IntervalTable.insertAt` and `IntervalTable.removeAt`

  The rules used by the developments built on top are:
    * `Separated.replace` and `covered_replace`
    * `Separated.removeAt` and `covered_removeAt`
    * `Separated.insertAt` and `covered_insertAt`
    * `Separated.exists_of_subset`
-/

----
-- Tables
----

namespace IntervalTable

open Function

/- The points from `lo` up to, not including, `hi`. -/
@[ext] structure Entry (α : Type) where
  lo : α
  hi : α
deriving DecidableEq, Repr

variable {α : Type} [LinearOrder α]

/- The points of an interval. -/
def Entry.points (r : Entry α) : Set α :=
  Set.Ico r.lo r.hi

/- The points of the first intervals of a table. -/
def covered (n : Nat) (f : Nat → Entry α) : Set α :=
  {x | ∃ i, i < n ∧ x ∈ (f i).points}

/- Sorted, without empty intervals, and with gaps. -/
structure Separated
    (n : Nat)
    (f : Nat → Entry α) : Prop where
  nonempty : ∀ i, i < n → (f i).lo < (f i).hi
  apart : ∀ i j, i < j → j < n → (f i).hi < (f j).lo

/- Put an interval before the one at an index. -/
def insertAt (f : Nat → Entry α) (p : Nat)
    (r : Entry α) : Nat → Entry α :=
  fun k => if k < p then f k else if k = p then r else f (k - 1)

/- Take out the interval at an index. -/
def removeAt (f : Nat → Entry α)
    (p : Nat) : Nat → Entry α :=
  fun k => if k < p then f k else f (k + 1)

variable {n : Nat} {f g : Nat → Entry α}

theorem covered_congr (hSame : ∀ k, k < n → f k = g k) :
    covered n f = covered n g := by
  ext x
  constructor
  · rintro ⟨i, hi, hx⟩
    exact ⟨i, hi, hSame i hi ▸ hx⟩
  · rintro ⟨i, hi, hx⟩
    exact ⟨i, hi, (hSame i hi).symm ▸ hx⟩

theorem Separated.congr (hSep : Separated n f) (hSame : ∀ k, k < n → f k = g k) :
    Separated n g where
  nonempty i hi := hSame i hi ▸ hSep.nonempty i hi
  apart i j hij hj := hSame i (Nat.lt_trans hij hj) ▸ hSame j hj ▸ hSep.apart i j hij hj

/- A point lies in one interval only. -/
theorem Separated.index_unique {i j : Nat} {x : α} (hSep : Separated n f) (hi : i < n) (hj : j < n)
    (hxi : x ∈ (f i).points) (hxj : x ∈ (f j).points) :
    i = j := by
  rcases Nat.lt_trichotomy i j with hLt | hEq | hGt
  · have hGap := hSep.apart i j hLt hj
    exact absurd (hxi.2.trans (hGap.trans_le hxj.1)) (lt_irrefl x)
  · exact hEq
  · have hGap := hSep.apart j i hGt hi
    exact absurd (hxj.2.trans (hGap.trans_le hxi.1)) (lt_irrefl x)

/-
  An interval whose points are all covered lies within one
  interval of the table, since it cannot leap over a gap.
-/
theorem Separated.exists_of_subset
    {a b : α} (hSep : Separated n f) (hab : a < b) (hSub : Set.Ico a b ⊆ covered n f) :
    ∃ i, i < n ∧ (f i).lo ≤ a ∧ b ≤ (f i).hi := by
  rcases hSub ⟨le_rfl, hab⟩ with ⟨i, hi, hLo, hHi⟩
  refine ⟨i, hi, hLo, ?_⟩
  by_contra hShort
  have hEnd : (f i).hi ∈ Set.Ico a b := ⟨hHi.le, lt_of_not_ge hShort⟩
  rcases hSub hEnd with ⟨j, hj, hLoj, hHij⟩
  -- the end of interval `i` would lie in another one
  rcases Nat.lt_trichotomy i j with hLt | rfl | hGt
  · exact absurd (hSep.apart i j hLt hj) (not_lt.mpr hLoj)
  · exact lt_irrefl _ hHij
  · have hGap := hSep.apart j i hGt hi
    exact lt_irrefl _ (hHij.trans (hGap.trans (hSep.nonempty i hi)))

----
-- Replacing
----

variable {r : Entry α}

theorem covered_replace {i : Nat} (hSep : Separated n f) (hi : i < n) :
    covered n (update f i r) = (covered n f \ (f i).points) ∪ r.points := by
  ext x
  constructor
  · rintro ⟨j, hj, hx⟩
    by_cases hji : j = i
    · subst hji
      rw [update_self] at hx
      exact Or.inr hx
    · rw [update_of_ne hji] at hx
      refine Or.inl ⟨⟨j, hj, hx⟩, ?_⟩
      intro hxi
      exact hji (hSep.index_unique hj hi hx hxi)
  · rintro (⟨⟨j, hj, hx⟩, hNot⟩ | hx)
    · have hji : j ≠ i := by
        rintro rfl
        exact hNot hx
      exact ⟨j, hj, by rwa [update_of_ne hji]⟩
    · exact ⟨i, hi, by rwa [update_self]⟩

theorem Separated.replace
    {i : Nat} (hSep : Separated n f) (hPos : r.lo < r.hi) (hBelow : ∀ j, j < i → (f j).hi < r.lo)
    (hAbove : ∀ j, i < j → j < n → r.hi < (f j).lo) :
    Separated n (update f i r) where
  nonempty j hj := by
    by_cases hji : j = i
    · rw [hji, update_self]
      exact hPos
    · rw [update_of_ne hji]
      exact hSep.nonempty j hj
  apart j k hjk hk := by
    by_cases hji : j = i
    · subst hji
      rw [update_self, update_of_ne (Nat.ne_of_gt hjk)]
      exact hAbove k hjk hk
    · rw [update_of_ne hji]
      by_cases hki : k = i
      · subst hki
        rw [update_self]
        exact hBelow j hjk
      · rw [update_of_ne hki]
        exact hSep.apart j k hjk hk

----
-- Removing
----

variable {p : Nat}

theorem covered_removeAt (hSep : Separated (n + 1) f) (hp : p < n + 1) :
    covered n (removeAt f p) = covered (n + 1) f \ (f p).points := by
  ext x
  constructor
  · rintro ⟨j, hj, hx⟩
    unfold removeAt at hx
    split at hx
    · refine ⟨⟨j, by omega, hx⟩, ?_⟩
      intro hxp
      have hEq := hSep.index_unique (Nat.lt_succ_of_lt hj) hp hx hxp
      omega
    · refine ⟨⟨j + 1, by omega, hx⟩, ?_⟩
      intro hxp
      have hEq := hSep.index_unique (Nat.succ_lt_succ hj) hp hx hxp
      omega
  · rintro ⟨⟨j, hj, hx⟩, hNot⟩
    rcases Nat.lt_trichotomy j p with hLt | rfl | hGt
    · refine ⟨j, by omega, ?_⟩
      unfold removeAt
      rwa [if_pos hLt]
    · exact absurd hx hNot
    · refine ⟨j - 1, by omega, ?_⟩
      unfold removeAt
      rwa [if_neg (by omega), Nat.sub_add_cancel (by omega)]

theorem Separated.removeAt (hSep : Separated (n + 1) f) :
    Separated n (removeAt f p) where
  nonempty j hj := by
    unfold IntervalTable.removeAt
    split
    · exact hSep.nonempty j (by omega)
    · exact hSep.nonempty (j + 1) (by omega)
  apart j k hjk hk := by
    unfold IntervalTable.removeAt
    by_cases hkp : k < p
    · rw [if_pos hkp, if_pos (by omega)]
      exact hSep.apart j k hjk (by omega)
    · rw [if_neg hkp]
      split
      · exact hSep.apart j (k + 1) (by omega) (by omega)
      · exact hSep.apart (j + 1) (k + 1) (by omega) (by omega)

----
-- Inserting
----

theorem covered_insertAt (hp : p ≤ n) :
    covered (n + 1) (insertAt f p r) = covered n f ∪ r.points := by
  ext x
  constructor
  · rintro ⟨j, hj, hx⟩
    unfold insertAt at hx
    split at hx
    · exact Or.inl ⟨j, by omega, hx⟩
    · split at hx
      · exact Or.inr hx
      · exact Or.inl ⟨j - 1, by omega, hx⟩
  · rintro (⟨j, hj, hx⟩ | hx)
    · by_cases hjp : j < p
      · refine ⟨j, by omega, ?_⟩
        unfold insertAt
        rwa [if_pos hjp]
      · refine ⟨j + 1, by omega, ?_⟩
        unfold insertAt
        rwa [if_neg (by omega), if_neg (by omega), Nat.add_sub_cancel]
    · refine ⟨p, by omega, ?_⟩
      unfold insertAt
      rwa [if_neg (Nat.lt_irrefl p), if_pos rfl]

theorem Separated.insertAt
    (hSep : Separated n f) (hp : p ≤ n) (hPos : r.lo < r.hi) (hBelow : ∀ j, j < p → (f j).hi < r.lo)
    (hAbove : ∀ j, p ≤ j → j < n → r.hi < (f j).lo) :
    Separated (n + 1) (insertAt f p r) where
  nonempty j hj := by
    unfold IntervalTable.insertAt
    split
    · exact hSep.nonempty j (by omega)
    · split
      · exact hPos
      · exact hSep.nonempty (j - 1) (by omega)
  apart j k hjk hk := by
    unfold IntervalTable.insertAt
    rcases Nat.lt_trichotomy k p with hLt | rfl | hGt
    · rw [if_pos hLt, if_pos (by omega)]
      exact hSep.apart j k hjk (by omega)
    · rw [if_pos hjk, if_neg (Nat.lt_irrefl k), if_pos rfl]
      exact hBelow j hjk
    · rw [if_neg (show ¬ k < p by omega), if_neg (show ¬ k = p by omega)]
      split
      · exact hSep.apart j (k - 1) (by omega) (by omega)
      · split
        · exact hAbove (k - 1) (by omega) (by omega)
        · exact hSep.apart (j - 1) (k - 1) (by omega) (by omega)

end IntervalTable
