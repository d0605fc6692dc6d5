import Mathlib.Algebra.Group.Nat.Defs
import Mathlib.Data.List.Basic

/-
  Rounding up to a multiple of an alignment, as a number and
  as a word that is masked.

  Key definitions include:
    * `roundUp`
    * `alignUp`

  The rules used by the developments built on top are:
    * `le_roundUp` and `dvd_roundUp`
    * `roundUp_of_dvd`
    * `alignUp_toNat`
-/

namespace Alignment

/- The least multiple that is not less. -/
def roundUp (a n : Nat) : Nat :=
  (n + a - 1) / a * a

section Rounding

variable {a n : Nat}

theorem dvd_roundUp (a n : Nat) :
    a ∣ roundUp a n :=
  Nat.dvd_mul_left a _

theorem le_roundUp (n : Nat) (hPos : 0 < a) :
    n ≤ roundUp a n := by
  have hDiv := Nat.div_add_mod (n + a - 1) a
  have hMod := Nat.mod_lt (n + a - 1) hPos
  unfold roundUp
  rw [Nat.mul_comm]
  omega

theorem roundUp_of_dvd (hPos : 0 < a) (hDvd : a ∣ n) :
    roundUp a n = n := by
  rcases hDvd with ⟨q, rfl⟩
  unfold roundUp
  rw [Nat.add_sub_assoc hPos, Nat.mul_add_div hPos, Nat.div_eq_of_lt (Nat.sub_lt hPos Nat.one_pos),
    Nat.add_zero, Nat.mul_comm]

theorem roundUp_le {m : Nat} (hPos : 0 < a) (hDvd : a ∣ m) (hLe : n ≤ m) :
    roundUp a n ≤ m := by
  rw [← roundUp_of_dvd hPos hDvd]
  exact Nat.mul_le_mul_right a (Nat.div_le_div_right (by omega))

theorem roundUp_eq_self_iff (hPos : 0 < a) :
    roundUp a n = n ↔ a ∣ n :=
  ⟨fun hEq => hEq ▸ dvd_roundUp a n, roundUp_of_dvd hPos⟩

end Rounding

/- `(x + align - 1) & ~(align - 1)` -/
def alignUp {w : Nat} (x align : BitVec w) : BitVec w :=
  (x + align - 1#w) &&& ~~~(align - 1#w)

section Masks

variable {w k : Nat}

theorem toNat_twoPow_sub_one (hk : k < w) :
    (BitVec.twoPow w k - 1#w).toNat = 2 ^ k - 1 := by
  have hPow : 2 ^ k < 2 ^ w := Nat.pow_lt_pow_right (by decide) hk
  have hOne : 1 ≤ 2 ^ k := Nat.one_le_two_pow
  have hTwo : (BitVec.twoPow w k).toNat = 2 ^ k := by
    rw [BitVec.toNat_twoPow]
    exact Nat.mod_eq_of_lt hPow
  have hSmall : (1#w).toNat = 1 := Nat.mod_eq_of_lt (Nat.lt_of_le_of_lt hOne hPow)
  rw [BitVec.toNat_sub_of_le, hTwo, hSmall]
  rw [BitVec.le_def, hTwo, hSmall]
  exact hOne

/- What the complement of a mask leaves of a word. -/
theorem toNat_and_not_mask (x : BitVec w) (hk : k < w) :
    (x &&& ~~~(BitVec.twoPow w k - 1#w)).toNat = x.toNat / 2 ^ k * 2 ^ k := by
  have hMask := toNat_twoPow_sub_one hk
  generalize BitVec.twoPow w k - 1#w = mask at hMask ⊢
  have hLow : (x &&& mask).toNat = x.toNat % 2 ^ k := by
    rw [BitVec.toNat_and, hMask, Nat.and_two_pow_sub_one_eq_mod]
  have hApart : (x &&& mask) &&& (x &&& ~~~mask) = 0#w := by
    ext i hi
    simp only [BitVec.getElem_and, BitVec.getElem_not, BitVec.getElem_zero]
    cases x[i] <;> cases mask[i] <;> rfl
  have hJoined : (x &&& mask) ||| (x &&& ~~~mask) = x := by
    ext i hi
    simp only [BitVec.getElem_or, BitVec.getElem_and, BitVec.getElem_not]
    cases x[i] <;> cases mask[i] <;> rfl
  have hSum := BitVec.toNat_add_of_and_eq_zero hApart
  rw [BitVec.add_eq_or_of_and_eq_zero _ _ hApart, hJoined, hLow] at hSum
  have hDiv := Nat.mod_add_div x.toNat (2 ^ k)
  rw [Nat.mul_comm]
  omega

/- Without a wrap, the mask rounds up. -/
theorem alignUp_toNat (x : BitVec w) (hk : k < w) (hFits : roundUp (2 ^ k) x.toNat < 2 ^ w) :
    (alignUp x (BitVec.twoPow w k)).toNat = roundUp (2 ^ k) x.toNat := by
  have hOne : 1 ≤ 2 ^ k := Nat.one_le_two_pow
  have hMask := toNat_twoPow_sub_one hk
  have hSum : (x + (BitVec.twoPow w k - 1#w)).toNat = x.toNat + 2 ^ k - 1 := by
    rw [BitVec.toNat_add, hMask]
    -- the multiple below the sum leaves room for the rest
    have hRoom : x.toNat + 2 ^ k - 1 < 2 ^ w := by
      have hDvd : 2 ^ k ∣ 2 ^ w := Nat.pow_dvd_pow 2 (Nat.le_of_lt hk)
      rcases hDvd with ⟨q, hq⟩
      rw [hq, Nat.mul_comm (2 ^ k) q] at hFits ⊢
      have hLess := Nat.lt_of_mul_lt_mul_right hFits
      exact (Nat.div_lt_iff_lt_mul hOne).mp hLess
    rw [Nat.mod_eq_of_lt (by omega)]
    omega
  have hAssoc : x + BitVec.twoPow w k - 1#w = x + (BitVec.twoPow w k - 1#w) := by
    rw [BitVec.sub_eq_add_neg, BitVec.sub_eq_add_neg, BitVec.add_assoc]
  unfold alignUp
  rw [toNat_and_not_mask _ hk, hAssoc, hSum]
  rfl

end Masks

end Alignment
