import Mathlib.Data.Nat.Bitwise
import Mathlib.Data.List.Basic
import Mathlib.Tactic.Ring

/-
  Stacks of levels that are kept as a bitmap.

  A stack whose levels grow downwards is told from the set
  of its levels: the top is the lowest bit, pushing sets a
  bit below all others and popping clears the lowest one.

  Key definitions include:
    * `BitStack.bitmap`
    * `BitStack.lowest`

  The rules used by the developments built on top are:
    * `lowest_bitmap`
    * `bitmap_push`
    * `bitmap_pop`
-/

namespace BitStack

/- The bitmap of a list of levels. -/
def bitmap : List Nat → Nat
  | [] => 0
  | i :: rest => 2 ^ i + bitmap rest

/- The lowest bit set below `width`. -/
def lowest (width b : Nat) : Option Nat :=
  (List.range width).find? b.testBit

/- A stack's levels grow downwards from the top. -/
abbrev Ascending (levels : List Nat) : Prop :=
  levels.Pairwise (· < ·)

theorem dvd_bitmap {levels : List Nat} {k : Nat} (hAbove : ∀ i ∈ levels, k ≤ i) :
    2 ^ k ∣ bitmap levels := by
  induction levels with
  | nil => exact Nat.dvd_zero _
  | cons i rest ih =>
    apply Nat.dvd_add
    · exact Nat.pow_dvd_pow 2 (hAbove i List.mem_cons_self)
    · exact ih fun j hj => hAbove j (List.mem_cons_of_mem i hj)

variable {i : Nat} {rest : List Nat}

/- The top level is the lowest bit, the rest lies above. -/
theorem bitmap_cons (hAsc : Ascending (i :: rest)) :
    ∃ q, bitmap rest = 2 ^ (i + 1) * q ∧ bitmap (i :: rest) = 2 ^ i * (2 * q + 1) := by
  have hDvd : 2 ^ (i + 1) ∣ bitmap rest := dvd_bitmap (List.pairwise_cons.mp hAsc).1
  rcases hDvd with ⟨q, hRest⟩
  refine ⟨q, hRest, ?_⟩
  rw [bitmap, hRest, Nat.pow_succ]
  ring

theorem testBit_bitmap_cons (hAsc : Ascending (i :: rest)) (j : Nat) :
    (bitmap (i :: rest)).testBit j = (decide (j = i) || (bitmap rest).testBit j) := by
  rcases bitmap_cons hAsc with ⟨q, hRest, hAll⟩
  rw [hAll, hRest, Nat.testBit_two_pow_mul, Nat.testBit_two_pow_mul]
  rcases Nat.lt_trichotomy j i with hLt | rfl | hGt
  · have hNe : j ≠ i := by omega
    simp [hNe, Nat.not_le.mpr hLt, show ¬ i + 1 ≤ j by omega]
  · simp [Nat.testBit_zero]
  · have hNe : j ≠ i := by omega
    have hStep : j - i = j - (i + 1) + 1 := by omega
    have hHalf : (2 * q + 1) / 2 = q := by omega
    simp [hNe, hStep, hHalf, Nat.le_of_lt hGt, show i + 1 ≤ j by omega, Nat.testBit_succ]

@[simp] theorem lowest_bitmap_nil (width : Nat) :
    lowest width (bitmap []) = none := by
  simp [lowest, bitmap]

theorem lowest_bitmap {i width : Nat} (hAsc : Ascending (i :: rest)) (hWidth : i < width) :
    lowest width (bitmap (i :: rest)) = some i := by
  rcases bitmap_cons hAsc with ⟨q, _, hAll⟩
  unfold lowest
  rw [List.find?_range_eq_some]
  refine ⟨?_, List.mem_range.mpr hWidth, ?_⟩
  · simp [testBit_bitmap_cons hAsc]
  · intro j hj
    rw [hAll, Nat.testBit_two_pow_mul]
    simp [Nat.not_le.mpr hj]

/- Setting a bit below all others pushes it. -/
theorem bitmap_push (hAsc : Ascending (i :: rest)) :
    bitmap rest ||| 1 <<< i = bitmap (i :: rest) := by
  apply Nat.eq_of_testBit_eq
  intro j
  rw [testBit_bitmap_cons hAsc, Nat.testBit_or,
    Nat.one_shiftLeft, Nat.testBit_two_pow, Bool.or_comm]
  simp [eq_comm]

/- Clearing the lowest bit pops the top. -/
theorem bitmap_pop (hAsc : Ascending (i :: rest)) :
    bitmap (i :: rest) &&& (bitmap (i :: rest) - 1) = bitmap rest := by
  rcases bitmap_cons hAsc with ⟨q, hRest, hAll⟩
  have hPred : bitmap (i :: rest) - 1 = 2 ^ (i + 1) * q + (2 ^ i - 1) := by
    have hPos := Nat.two_pow_pos i
    have hExpand : 2 ^ i * (2 * q + 1) = 2 ^ (i + 1) * q + 2 ^ i := by
      rw [Nat.pow_succ]
      ring
    rw [hAll, hExpand, Nat.add_sub_assoc hPos]
  have hBelow : 2 ^ i - 1 < 2 ^ (i + 1) := by
    have hPos := Nat.two_pow_pos i
    rw [Nat.pow_succ]
    omega
  apply Nat.eq_of_testBit_eq
  intro j
  rw [Nat.testBit_and, testBit_bitmap_cons hAsc, hPred, Nat.testBit_two_pow_mul_add q hBelow, hRest,
    Nat.testBit_two_pow_mul]
  by_cases hj : j < i + 1
  · rw [if_pos hj, Nat.testBit_two_pow_sub_one]
    simp [Nat.not_le.mpr hj]
    omega
  · rw [if_neg hj]
    have hNe : j ≠ i := by omega
    simp [hNe, Nat.not_lt.mp hj]

end BitStack
