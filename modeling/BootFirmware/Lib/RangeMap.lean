import Mathlib.Order.Lattice
import Mathlib.Data.List.Basic

/-
  Maps on a linear order that are given by a list of
  labelled half-open ranges, highest range first.

  Cutting an interval out of such a map splits, trims or
  drops ranges, and undefines the map on the interval only.

  Key definitions include:
    * `RangeMap.Range`
    * `RangeMap.Descending`
    * `RangeMap.value`
    * `RangeMap.cut`

  The rules used by the developments built on top are:
    * `Descending.flatMap_cut` and `value_flatMap_cut`
    * `Descending.value_eq_some_iff`
    * `Apart.value_perm`
-/

----
-- Ranges
----

namespace RangeMap

open List

/- The points from `lo` up to, not including, `hi`. -/
structure Range (α β : Type) where
  lo : α
  hi : α
  label : β
deriving DecidableEq, Repr

variable {α β : Type} [LinearOrder α]

/- A range contains a point. -/
def Range.Has (r : Range α β) (x : α) : Prop :=
  r.lo ≤ x ∧ x < r.hi

instance (r : Range α β) (x : α) : Decidable (r.Has x) :=
  inferInstanceAs (Decidable (_ ∧ _))

/- The label of the first range that contains a point. -/
def value (l : List (Range α β)) (x : α) : Option β :=
  (l.find? fun r => decide (r.Has x)).map Range.label

/- No empty ranges, and each below the one before it. -/
structure Descending (l : List (Range α β)) : Prop where
  nonempty : ∀ r ∈ l, r.lo < r.hi
  below : l.Pairwise fun a b => b.hi ≤ a.lo

/- What remains of a range without an interval. -/
def cut (lo hi : α)
    (r : Range α β) : List (Range α β) :=
  if hi ≤ r.lo ∨ r.hi ≤ lo then
    [r]
  else
    (if hi < r.hi then [⟨hi, r.hi, r.label⟩] else []) ++
      (if r.lo < lo then [⟨r.lo, lo, r.label⟩] else [])

----
-- Values
----

variable {l l' : List (Range α β)} {lo hi x : α}

/- No point lies in two ranges of the list. -/
def Apart (l : List (Range α β)) : Prop :=
  l.Pairwise fun a b => ∀ x, ¬ (a.Has x ∧ b.Has x)

theorem Descending.apart (hDesc : Descending l) :
    Apart l := by
  refine hDesc.below.imp ?_
  rintro a b hBelow x ⟨hA, hB⟩
  exact lt_irrefl x (hB.2.trans_le (hBelow.trans hA.1))

variable {r : Range α β}

theorem Descending.of_cons (hDesc : Descending (r :: l)) :
    Descending l where
  nonempty s hs := hDesc.nonempty s (mem_cons_of_mem r hs)
  below := (pairwise_cons.mp hDesc.below).2

theorem Descending.of_sorted (hNonempty : ∀ r ∈ l, r.lo < r.hi) (hApart : Apart l)
    (hSorted : l.Pairwise fun a b => b.lo ≤ a.lo) :
    Descending l where
  nonempty := hNonempty
  below := by
    have hBoth := List.Pairwise.and_mem.mp (hApart.and hSorted)
    refine hBoth.imp ?_
    rintro a b ⟨ha, -, hNone, hLe⟩
    by_contra hOver
    exact hNone a.lo ⟨⟨le_rfl, hNonempty a ha⟩, hLe, not_le.mp hOver⟩

/- The label at a point is that of the range it lies in. -/
theorem Apart.value_eq_some_iff (hApart : Apart l) {v : β} :
    value l x = some v ↔ ∃ r ∈ l, r.Has x ∧ r.label = v := by
  unfold value
  induction l with
  | nil => simp
  | cons r rest ih =>
    rcases pairwise_cons.mp hApart with ⟨hFirst, hRest⟩
    by_cases hHas : r.Has x
    · rw [find?_cons_of_pos (by simpa using hHas)]
      simp only [Option.map_some, Option.some.injEq]
      constructor
      · intro hLabel
        exact ⟨r, mem_cons_self, hHas, hLabel⟩
      · rintro ⟨s, hs, hHas', hLabel⟩
        rcases mem_cons.mp hs with rfl | hs
        · exact hLabel
        · exact absurd ⟨hHas, hHas'⟩ (hFirst s hs x)
    · rw [find?_cons_of_neg (by simpa using hHas), ih hRest]
      constructor
      · rintro ⟨s, hs, hHas', hLabel⟩
        exact ⟨s, mem_cons_of_mem r hs, hHas', hLabel⟩
      · rintro ⟨s, hs, hHas', hLabel⟩
        rcases mem_cons.mp hs with rfl | hs
        · exact absurd hHas' hHas
        · exact ⟨s, hs, hHas', hLabel⟩

/- A range added at the end defines the map on its points. -/
theorem Apart.value_append (hApart : Apart (l ++ [r])) :
    value (l ++ [r]) x =
      if r.Has x then some r.label else value l x := by
  rcases pairwise_append.mp hApart with ⟨hList, -, hCross⟩
  apply Option.ext
  intro v
  rw [hApart.value_eq_some_iff]
  by_cases hHas : r.Has x
  · rw [if_pos hHas, Option.some.injEq]
    constructor
    · rintro ⟨s, hs, hHas', hLabel⟩
      rcases mem_append.mp hs with hs | hs
      · exact absurd ⟨hHas', hHas⟩ (hCross s hs r mem_cons_self x)
      · rwa [mem_singleton.mp hs] at hLabel
    · intro hLabel
      exact ⟨r, mem_append_right _ mem_cons_self, hHas, hLabel⟩
  · rw [if_neg hHas, Apart.value_eq_some_iff hList]
    constructor
    · rintro ⟨s, hs, hHas', hLabel⟩
      rcases mem_append.mp hs with hs | hs
      · exact ⟨s, hs, hHas', hLabel⟩
      · rw [mem_singleton.mp hs] at hHas'
        exact absurd hHas' hHas
    · rintro ⟨s, hs, hHas', hLabel⟩
      exact ⟨s, mem_append_left _ hs, hHas', hLabel⟩

/- The order of the list does not matter. -/
theorem Apart.value_perm (hApart : Apart l) (hPerm : l.Perm l') :
    value l' x = value l x := by
  have hApart' : Apart l' :=
    (hPerm.pairwise_iff fun {a b} hab x hBoth => hab x ⟨hBoth.2, hBoth.1⟩).mp hApart
  apply Option.ext
  intro v
  rw [hApart.value_eq_some_iff, hApart'.value_eq_some_iff]
  constructor
  · rintro ⟨r, hr, hHas⟩
    exact ⟨r, hPerm.mem_iff.mpr hr, hHas⟩
  · rintro ⟨r, hr, hHas⟩
    exact ⟨r, hPerm.mem_iff.mp hr, hHas⟩

----
-- Cutting
----

/- The points of the pieces of a range. -/
theorem exists_cut_iff {v : β} :
    (∃ s ∈ cut lo hi r, s.Has x ∧ s.label = v) ↔ (r.Has x ∧ r.label = v) ∧ ¬ (lo ≤ x ∧ x < hi) := by
  unfold cut
  by_cases hFar : hi ≤ r.lo ∨ r.hi ≤ lo
  · rw [if_pos hFar]
    simp only [mem_singleton, exists_eq_left]
    refine ⟨fun h => ⟨h, ?_⟩, fun h => h.1⟩
    rintro ⟨hLo, hHi⟩
    rcases hFar with hAbove | hBelow
    · exact lt_irrefl x (hHi.trans_le (hAbove.trans h.1.1))
    · exact lt_irrefl x (h.1.2.trans_le (hBelow.trans hLo))
  rw [if_neg hFar]
  rcases not_or.mp hFar with ⟨hAbove, hBelow⟩
  rw [not_le] at hAbove hBelow
  constructor
  · rintro ⟨s, hs, hHas, hLabel⟩
    rcases mem_append.mp hs with hUpper | hLower
    · split at hUpper
      · rw [mem_singleton] at hUpper
        subst hUpper
        refine ⟨⟨⟨hAbove.le.trans hHas.1, hHas.2⟩, hLabel⟩, ?_⟩
        exact fun hIn => not_lt.mpr hHas.1 hIn.2
      · cases hUpper
    · split at hLower
      · rw [mem_singleton] at hLower
        subst hLower
        refine ⟨⟨⟨hHas.1, hHas.2.trans hBelow⟩, hLabel⟩, ?_⟩
        exact fun hIn => not_lt.mpr hIn.1 hHas.2
      · cases hLower
  · rintro ⟨⟨hHas, hLabel⟩, hOut⟩
    by_cases hx : hi ≤ x
    · refine ⟨⟨hi, r.hi, r.label⟩, ?_, ⟨hx, hHas.2⟩, hLabel⟩
      rw [if_pos (hx.trans_lt hHas.2)]
      exact mem_append_left _ mem_cons_self
    · have hx' : x < lo := by
        by_contra hLo
        exact hOut ⟨not_lt.mp hLo, not_le.mp hx⟩
      refine ⟨⟨r.lo, lo, r.label⟩, ?_, ⟨hHas.1, hx'⟩, hLabel⟩
      rw [if_pos (hHas.1.trans_lt hx')]
      exact mem_append_right _ mem_cons_self

/- A piece lies within its range and apart from the cut. -/
theorem mem_cut {r s : Range α β} (hPos : r.lo < r.hi) (hs : s ∈ cut lo hi r) :
    s.lo < s.hi ∧ r.lo ≤ s.lo ∧ s.hi ≤ r.hi ∧ (hi ≤ s.lo ∨ s.hi ≤ lo) := by
  unfold cut at hs
  split at hs
  · rename_i hFar
    rw [mem_singleton] at hs
    subst hs
    exact ⟨hPos, le_rfl, le_rfl, hFar⟩
  · rename_i hFar
    rcases not_or.mp hFar with ⟨hAbove, hBelow⟩
    rw [not_le] at hAbove hBelow
    rcases mem_append.mp hs with hUpper | hLower
    · split at hUpper
      · rename_i hTop
        rw [mem_singleton] at hUpper
        subst hUpper
        exact ⟨hTop, hAbove.le, le_rfl, Or.inl le_rfl⟩
      · cases hUpper
    · split at hLower
      · rename_i hBottom
        rw [mem_singleton] at hLower
        subst hLower
        exact ⟨hBottom, le_rfl, hBelow.le, Or.inr le_rfl⟩
      · cases hLower

theorem pairwise_cut (hLoHi : lo < hi) (r : Range α β) :
    (cut lo hi r).Pairwise fun a b => b.hi ≤ a.lo := by
  unfold cut
  split
  · exact pairwise_singleton _ _
  · rw [pairwise_append]
    refine ⟨?_, ?_, ?_⟩
    · split
      · exact pairwise_singleton _ _
      · exact List.Pairwise.nil
    · split
      · exact pairwise_singleton _ _
      · exact List.Pairwise.nil
    · intro a hUpper b hLower
      split at hUpper
      · split at hLower
        · rw [mem_singleton] at hUpper hLower
          subst hUpper hLower
          exact hLoHi.le
        · cases hLower
      · cases hUpper

/- The pieces of a list in descending order. -/
theorem Descending.flatMap_cut (hDesc : Descending l) (hLoHi : lo < hi) :
    Descending (l.flatMap (cut lo hi)) where
  nonempty s hs := by
    rcases mem_flatMap.mp hs with ⟨r, hr, hs⟩
    exact (mem_cut (hDesc.nonempty r hr) hs).1
  below := by
    rw [pairwise_flatMap]
    refine ⟨fun r _ => pairwise_cut hLoHi r, ?_⟩
    refine (List.Pairwise.and_mem.mp hDesc.below).imp ?_
    rintro a b ⟨ha, hb, hBelow⟩ s hs t ht
    have hs' := mem_cut (hDesc.nonempty a ha) hs
    have ht' := mem_cut (hDesc.nonempty b hb) ht
    exact ht'.2.2.1.trans (hBelow.trans hs'.2.1)

/- Cutting undefines the map on the interval, and only there. -/
theorem Descending.value_flatMap_cut (hDesc : Descending l) (hLoHi : lo < hi) (x : α) :
    value (l.flatMap (cut lo hi)) x =
      if lo ≤ x ∧ x < hi then none else value l x := by
  have hPieces := (hDesc.flatMap_cut hLoHi).apart
  apply Option.ext
  intro v
  have hExists :
      (∃ s ∈ l.flatMap (cut lo hi), s.Has x ∧ s.label = v) ↔
        (∃ r ∈ l, r.Has x ∧ r.label = v) ∧ ¬ (lo ≤ x ∧ x < hi) := by
    constructor
    · rintro ⟨s, hs, hHas⟩
      rcases mem_flatMap.mp hs with ⟨r, hr, hs⟩
      rcases exists_cut_iff.mp ⟨s, hs, hHas⟩ with ⟨hIn, hOut⟩
      exact ⟨⟨r, hr, hIn⟩, hOut⟩
    · rintro ⟨⟨r, hr, hIn⟩, hOut⟩
      rcases exists_cut_iff.mpr ⟨hIn, hOut⟩ with ⟨s, hs, hHas⟩
      exact ⟨s, mem_flatMap.mpr ⟨r, hr, hs⟩, hHas⟩
  rw [hPieces.value_eq_some_iff, hExists]
  by_cases hIn : lo ≤ x ∧ x < hi
  · simp [hIn]
  · rw [if_neg hIn, hDesc.apart.value_eq_some_iff]
    exact and_iff_left hIn

end RangeMap
