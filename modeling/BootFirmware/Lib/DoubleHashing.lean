import Mathlib.Data.Nat.ModEq
import Mathlib.Data.Finset.Card
import Mathlib.Order.Interval.Finset.Nat

/-
  The probe sequence of double hashing: slots 1 to n, tried
  from a first one by going back a fixed number of slots.

  Where the step is coprime to n, the first n tries come to
  each slot once, and the next one to the first slot again.

  Key definitions include:
    * `DoubleHashing.back`
    * `DoubleHashing.probe`

  The rules used by the developments built on top are:
    * `probe_injOn`
    * `exists_probe_eq`
    * `probe_full`
-/

namespace DoubleHashing

/- One step back round the slots 1 to n. -/
def back (n step idx : Nat) : Nat :=
  if idx ≤ step then n + idx - step else idx - step

/- The slots tried, from the first one on. -/
def probe (n step start : Nat) : Nat → Nat
  | 0 => start
  | j + 1 => back n step (probe n step start j)

variable {n step start : Nat}

section

variable (hStep : step < n)
include hStep

theorem back_mem {idx : Nat} (hPos : 1 ≤ idx) (hLe : idx ≤ n) :
    1 ≤ back n step idx ∧ back n step idx ≤ n := by
  unfold back
  split <;> omega

/- Going back can be undone up to a full round. -/
theorem back_add_modEq {idx : Nat} :
    back n step idx + step ≡ idx [MOD n] := by
  unfold back
  split
  · rw [Nat.sub_add_cancel (by omega)]
    exact Nat.add_modEq_left
  · rw [Nat.sub_add_cancel (by omega)]

theorem probe_mem (hPos : 1 ≤ start) (hLe : start ≤ n) (j : Nat) :
    1 ≤ probe n step start j ∧ probe n step start j ≤ n := by
  induction j with
  | zero => exact ⟨hPos, hLe⟩
  | succ j ih => exact back_mem hStep ih.1 ih.2

theorem probe_add_modEq (start j : Nat) :
    probe n step start j + j * step ≡ start [MOD n] := by
  induction j with
  | zero => rw [Nat.zero_mul]; exact Nat.ModEq.refl start
  | succ j ih =>
    have hBack : probe n step start (j + 1) + step ≡ probe n step start j [MOD n] :=
      back_add_modEq hStep
    have hEq :
        probe n step start (j + 1) + (j + 1) * step =
          probe n step start (j + 1) + step + j * step := by
      rw [Nat.succ_mul]
      omega
    rw [hEq]
    exact (Nat.ModEq.add_right _ hBack).trans ih

end

/- Slots 1 to n are equal if they are congruent. -/
theorem eq_of_modEq
    {i i' : Nat} (hMem : 1 ≤ i ∧ i ≤ n) (hMem' : 1 ≤ i' ∧ i' ≤ n) (hMod : i ≡ i' [MOD n]) :
    i = i' := by
  rcases Nat.le_total i i' with hLe | hLe
  · have hDvd := (Nat.modEq_iff_dvd' hLe).mp hMod
    have hZero := Nat.eq_zero_of_dvd_of_lt hDvd (by omega)
    omega
  · have hDvd := (Nat.modEq_iff_dvd' hLe).mp hMod.symm
    have hZero := Nat.eq_zero_of_dvd_of_lt hDvd (by omega)
    omega

section

variable (hStep : step < n)
include hStep

section

variable (hCoprime : Nat.Coprime n step)
include hCoprime

/- Tries that come to one slot are a full round apart. -/
theorem dvd_sub_of_probe_eq
    {j j' : Nat} (hLe : j ≤ j') (hEq : probe n step start j = probe n step start j') :
    n ∣ j' - j := by
  have hj := probe_add_modEq hStep start j
  have hj' := probe_add_modEq hStep start j'
  rw [← hEq] at hj'
  have hMul : j * step ≡ j' * step [MOD n] := Nat.ModEq.add_left_cancel' _ (hj.trans hj'.symm)
  have hDvd := (Nat.modEq_iff_dvd' (Nat.mul_le_mul_right step hLe)).mp hMul
  rw [← Nat.sub_mul] at hDvd
  exact hCoprime.dvd_of_dvd_mul_right hDvd

theorem probe_injOn
    {j j' : Nat} (hj : j < n) (hj' : j' < n) (hEq : probe n step start j = probe n step start j') :
    j = j' := by
  rcases Nat.le_total j j' with hLe | hLe
  · have hZero := Nat.eq_zero_of_dvd_of_lt (dvd_sub_of_probe_eq hStep hCoprime hLe hEq) (by omega)
    omega
  · have hZero := Nat.eq_zero_of_dvd_of_lt (dvd_sub_of_probe_eq hStep hCoprime hLe hEq.symm)
      (by omega)
    omega

/- Each slot is tried within one round. -/
theorem exists_probe_eq (hPos : 1 ≤ start) (hLe : start ≤ n) {i : Nat} (hMem : 1 ≤ i ∧ i ≤ n) :
    ∃ j, j < n ∧ probe n step start j = i := by
  have hSurj :
      Set.SurjOn (probe n step start) (Finset.range n : Set Nat) (Finset.Icc 1 n : Set Nat) := by
    refine Finset.surjOn_of_injOn_of_card_le _ ?_ ?_ ?_
    · intro j hj
      exact Finset.mem_coe.mpr (Finset.mem_Icc.mpr (probe_mem hStep hPos hLe j))
    · intro j hj j' hj' hEq
      exact probe_injOn hStep hCoprime (Finset.mem_range.mp hj) (Finset.mem_range.mp hj') hEq
    · rw [Finset.card_range, Nat.card_Icc]
      omega
  rcases hSurj (Finset.mem_coe.mpr (Finset.mem_Icc.mpr hMem)) with ⟨j, hj, hEq⟩
  exact ⟨j, Finset.mem_range.mp hj, hEq⟩

end

/- After one round the first slot comes again. -/
theorem probe_full (hPos : 1 ≤ start) (hLe : start ≤ n) :
    probe n step start n = start := by
  refine eq_of_modEq (probe_mem hStep hPos hLe n) ⟨hPos, hLe⟩
    ?_
  refine Nat.ModEq.trans ?_ (probe_add_modEq hStep start n)
  exact (Nat.add_modulus_mul_modEq_iff.mpr (Nat.ModEq.refl _)).symm

end

end DoubleHashing
