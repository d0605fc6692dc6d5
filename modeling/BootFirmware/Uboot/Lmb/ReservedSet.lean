import Mathlib.Order.Interval.Finset.Nat
import BootFirmware.Lib.IntervalTable
import BootFirmware.Lib.TransitionSystem
import BootFirmware.Uboot.Lmb.Model

/-
  The table of reserved ranges is the set of the addresses
  reserved and not freed since.

  Reserving and freeing keep the table sorted, with gaps, and
  equal to that set, unless a reservation is made while the
  table has no regions at all: the table then takes in what
  the memory of its first region still holds.

  Key definitions include:
    * `Tracked.step`
    * `ReservedTable`

  The main results are:
    * `lmb_reserved_set`
    * `lmb_reserve_after_last_free`
-/

----
-- Machine Arithmetic
----

namespace Uboot

open Function List

namespace Widths

variable {w : Widths}

theorem add_eq {a b : Nat} (hNoWrap : a + b < 2 ^ w.phys) :
    w.add a b = a + b :=
  Nat.mod_eq_of_lt hNoWrap

theorem sub_eq {a b : Nat} (hLe : b ≤ a) (hLt : a < 2 ^ w.phys) :
    w.sub a b = a - b := by
  unfold sub
  rw [Nat.mod_eq_of_lt (Nat.lt_of_le_of_lt hLe hLt),
    show a + (2 ^ w.phys - b) = a - b + 2 ^ w.phys by omega, Nat.add_mod_right]
  exact Nat.mod_eq_of_lt (by omega)

theorem lt_two_pow_long {n : Nat} (hn : n ≤ maxLmbRegions + 1) :
    n < 2 ^ w.long := by
  have hPow : 2 ^ 4 ≤ 2 ^ w.long := Nat.pow_le_pow_right (by decide) w.long_ge
  unfold maxLmbRegions at hn
  omega

theorem pred_zero : w.pred 0 = 2 ^ w.long - 1 := by
  have hPos : 0 < 2 ^ w.long := Nat.two_pow_pos w.long
  unfold pred
  rw [Nat.zero_add]
  exact Nat.mod_eq_of_lt (by omega)

theorem pred_eq {n : Nat} (hPos : 0 < n) (hn : n ≤ maxLmbRegions) :
    w.pred n = n - 1 := by
  have hLt : n < 2 ^ w.long := lt_two_pow_long (Nat.le_succ_of_le hn)
  unfold pred
  rw [show n + (2 ^ w.long - 1) = n - 1 + 2 ^ w.long by
      omega, Nat.add_mod_right]
  exact Nat.mod_eq_of_lt (by omega)

end Widths

----
-- Sound Tables
----

/- A range with addresses in it that does not wrap. -/
def InRange (w : Widths) (base size : Nat) : Prop :=
  1 ≤ size ∧ base + size < 2 ^ w.phys

instance (w : Widths) (base size : Nat) : Decidable (InRange w base size) :=
  inferInstanceAs (Decidable (_ ∧ _))

/- The addresses of a region. -/
def LmbProperty.interval (r : LmbProperty) : IntervalTable.Entry Nat :=
  ⟨r.base, r.base + r.size⟩

namespace LmbRegion

/- The intervals of a table. -/
def interval (rgn : LmbRegion)
    (i : Nat) : IntervalTable.Entry Nat :=
  (rgn.region i).interval

/- The addresses that a table covers. -/
def covered (rgn : LmbRegion) : Set Nat :=
  IntervalTable.covered rgn.cnt rgn.interval

/- Regions that do not wrap, in order and with gaps. -/
structure Sound (w : Widths) (rgn : LmbRegion) : Prop where
  fits : ∀ i, i < rgn.cnt → InRange w (rgn.region i).base (rgn.region i).size
  separated : IntervalTable.Separated rgn.cnt rgn.interval
  cnt_le : rgn.cnt ≤ maxLmbRegions

theorem scan_le (rgn : LmbRegion) (stop : LmbProperty → Bool) :
    rgn.scan stop ≤ rgn.cnt := by
  unfold scan
  cases hFind : (List.range rgn.cnt).find? fun i => stop (rgn.region i) with
  | none => exact Nat.le_refl _
  | some i =>
    have hMem := mem_of_find?_eq_some hFind
    exact Nat.le_of_lt (mem_range.mp hMem)

variable {rgn : LmbRegion} {stop : LmbProperty → Bool} {i : Nat}

/- A loop that breaks does so at the first chance. -/
theorem scan_eq_iff (hi : i < rgn.cnt) :
    rgn.scan stop = i ↔ stop (rgn.region i) = true ∧ ∀ j, j < i → stop (rgn.region j) = false := by
  have hSome :
      ((List.range rgn.cnt).find? fun i =>
          stop (rgn.region i)) = some i ↔
        stop (rgn.region i) = true ∧ ∀ j, j < i → stop (rgn.region j) = false := by
    rw [find?_range_eq_some]
    simp [hi]
  rw [← hSome]
  unfold scan
  cases hFind : (List.range rgn.cnt).find? fun i => stop (rgn.region i) with
  | none =>
    simp only [Option.getD_none, reduceCtorEq, iff_false]
    omega
  | some k => simp

theorem scan_eq_cnt_iff :
    rgn.scan stop = rgn.cnt ↔ ∀ i, i < rgn.cnt → stop (rgn.region i) = false := by
  unfold scan
  cases hFind : (List.range rgn.cnt).find? fun i => stop (rgn.region i) with
  | none =>
    rw [find?_eq_none] at hFind
    simp only [Option.getD_none, true_iff]
    intro i hi
    exact Bool.eq_false_iff.mpr (hFind i (mem_range.mpr hi))
  | some k =>
    have hk := mem_range.mp (mem_of_find?_eq_some hFind)
    have hStop := find?_some hFind
    simp only [Option.getD_some]
    constructor
    · omega
    · intro hNone
      rw [hNone k hk] at hStop
      cases hStop

@[simp] theorem set_cnt (rgn : LmbRegion) (i : Nat) (r : LmbProperty) :
    (rgn.set i r).cnt = rgn.cnt := rfl

theorem set_interval (rgn : LmbRegion) (i : Nat) (r : LmbProperty) :
    (rgn.set i r).interval = update rgn.interval i r.interval := by
  funext k
  unfold interval set
  by_cases hk : k = i
  · subst hk
    simp
  · simp [hk]

variable {w : Widths}

theorem Sound.not_adjacent {i j : Nat} (hSound : rgn.Sound w) (hij : i < j) (hj : j < rgn.cnt) :
    lmbRegionsAdjacent w rgn i j = 0 := by
  have hGap := hSound.separated.apart i j hij hj
  rcases hSound.fits i (Nat.lt_trans hij hj) with ⟨hPosi, hFiti⟩
  rcases hSound.fits j hj with ⟨hPosj, hFitj⟩
  unfold lmbRegionsAdjacent lmbAddrsAdjacent
  rw [Widths.add_eq hFiti, Widths.add_eq hFitj]
  simp only [interval, LmbProperty.interval] at hGap
  rw [if_neg (by omega), if_neg (by omega)]

/- Replace a region of a sound table by one in its gap. -/
theorem Sound.set {r : LmbProperty} (hSound : rgn.Sound w) (hFit : InRange w r.base r.size)
    (hBelow : ∀ j, j < i → (rgn.interval j).hi < r.base)
    (hAbove : ∀ j, i < j → j < rgn.cnt → r.base + r.size < (rgn.interval j).lo) :
    (rgn.set i r).Sound w where
  fits j hj := by
    by_cases hji : j = i
    · subst hji
      simpa [LmbRegion.set] using hFit
    · simpa [LmbRegion.set, hji] using hSound.fits j hj
  separated := by
    rw [set_interval, set_cnt]
    refine hSound.separated.replace ?_ hBelow hAbove
    exact Nat.lt_add_of_pos_right hFit.1
  cnt_le := hSound.cnt_le

theorem Sound.covered_set (hSound : rgn.Sound w) (hi : i < rgn.cnt) (r : LmbProperty) :
    (rgn.set i r).covered = (rgn.covered \ (rgn.interval i).points) ∪
        r.interval.points := by
  unfold covered
  rw [set_interval, set_cnt]
  exact IntervalTable.covered_replace hSound.separated hi

end LmbRegion

----
-- Removing A Region
----

variable {rgn : LmbRegion}

/-
  Removing a region moves the ones above it down; the entry
  that was the last one keeps what it held.
-/
theorem lmbRemoveRegion_eq
    (w : Widths) {r : Nat} (hr : r < rgn.cnt) (hCnt : rgn.cnt ≤ maxLmbRegions) :
    ∃ rgn', lmbRemoveRegion w rgn r = some rgn' ∧ rgn'.cnt = rgn.cnt - 1 ∧
      (∀ k, k < rgn.cnt - 1 → rgn'.region k = rgn.region (if k < r then k else k + 1)) ∧
      (rgn.cnt = 1 → rgn'.region 0 = rgn.region 0) := by
  have hPred : w.pred rgn.cnt = rgn.cnt - 1 := Widths.pred_eq (by omega) hCnt
  unfold lmbRemoveRegion
  rw [hPred]
  rw [if_neg (by omega), Memory.copyForward_eq_move (Or.inl (Nat.le_succ r))]
  refine ⟨_, rfl, rfl, ?_, ?_⟩
  · intro k hk
    dsimp only
    rw [Memory.move_apply]
    by_cases hkr : k < r
    · rw [if_neg (by omega), if_pos hkr]
    · rw [if_pos (by omega), if_neg hkr]
      congr 1
      omega
  · intro hOne
    dsimp only
    rw [Memory.move_apply, if_neg (by omega)]

variable {w : Widths}

theorem LmbRegion.Sound.remove {r : Nat} (hSound : rgn.Sound w) (hr : r < rgn.cnt) :
    ∃ rgn', lmbRemoveRegion w rgn r = some rgn' ∧ rgn'.Sound w ∧
      rgn'.covered = rgn.covered \ (rgn.interval r).points ∧
      InRange w (rgn'.region 0).base (rgn'.region 0).size := by
  rcases lmbRemoveRegion_eq w hr hSound.cnt_le with ⟨rgn', hRun, hCnt, hRegion, hLast⟩
  have hCount : rgn.cnt = rgn'.cnt + 1 := by omega
  have hInterval :
      ∀ k, k < rgn'.cnt → IntervalTable.removeAt rgn.interval r k = rgn'.interval k := by
    intro k hk
    unfold IntervalTable.removeAt interval
    rw [hRegion k (by omega)]
    split <;> rfl
  have hOld := hSound.separated
  rw [hCount] at hOld
  refine ⟨rgn', hRun, ⟨?_, hOld.removeAt.congr hInterval, ?_⟩, ?_, ?_⟩
  · intro k hk
    rw [hRegion k (by omega)]
    exact hSound.fits _ (by split <;> omega)
  · have hLe := hSound.cnt_le
    omega
  · unfold covered
    rw [← IntervalTable.covered_congr hInterval, hCount]
    exact IntervalTable.covered_removeAt hOld (by omega)
  · by_cases hOne : rgn.cnt = 1
    · rw [hLast hOne]
      exact hSound.fits 0 (by omega)
    · rw [hRegion 0 (by omega)]
      exact hSound.fits _ (by split <;> omega)

----
-- Inserting A Region
----

/- The loop leaves the entries above its start alone. -/
theorem moveUp_above {new : LmbProperty} {n k : Nat} {region : Memory LmbProperty} (hk : n < k) :
    moveUp new n region k = region k := by
  induction n generalizing region with
  | zero => rfl
  | succ n ih =>
    unfold moveUp
    split
    · rw [ih (by omega), update_of_ne (by omega)]
    · exact update_of_ne (by omega) _ _

/-
  The loop stops below the first region, from above, that
  does not lie above the new one.
-/
theorem moveUp_eq (new : LmbProperty) (n : Nat) (region : Memory LmbProperty) :
    ∃ p, p ≤ n ∧ (∀ k, p ≤ k → k < n → new.base < (region k).base) ∧
      (0 < p → (region (p - 1)).base ≤ new.base) ∧ ∀ k, k ≤ n → moveUp new n region k =
          if k < p then region k
          else if k = p ∧ 0 < p then new
          else region (k - 1) := by
  induction n generalizing region with
  | zero =>
    refine ⟨0, Nat.le_refl 0, ?_, ?_, ?_⟩
    · omega
    · omega
    · intro k hk
      rw [Nat.le_zero.mp hk]
      rfl
  | succ n ih =>
    unfold moveUp
    by_cases hAbove : new.base < (region n).base
    · rw [if_pos hAbove]
      rcases ih (update region (n + 1) (region n)) with ⟨p, hp, hAll, hStop, hEq⟩
      refine ⟨p, by omega, ?_, ?_, ?_⟩
      · intro k hpk hk
        by_cases hkn : k = n
        · rw [hkn]
          exact hAbove
        · have hNew := hAll k hpk (by omega)
          rwa [update_of_ne (by omega)] at hNew
      · intro hPos
        have hOld := hStop hPos
        rwa [update_of_ne (by omega)] at hOld
      · intro k hk
        by_cases hkn : k = n + 1
        · -- the entry above the loop that remains
          rw [hkn, moveUp_above (Nat.lt_succ_self n), update_self, if_neg (by omega),
            if_neg (by omega), Nat.add_sub_cancel]
        · rw [hEq k (by omega)]
          by_cases hkp : k < p
          · rw [if_pos hkp, if_pos hkp, update_of_ne (by omega)]
          · rw [if_neg hkp, if_neg hkp, update_of_ne (by omega)]
    · rw [if_neg hAbove]
      refine ⟨n + 1, Nat.le_refl _, ?_, ?_, ?_⟩
      · omega
      · intro _
        exact Nat.not_lt.mp hAbove
      · intro k hk
        by_cases hkn : k = n + 1
        · subst hkn
          simp
        · rw [update_of_ne hkn, if_pos (by omega)]

/- The new region comes to lie between its neighbours. -/
theorem insertRegion_eq
    (w : Widths) (base size : Nat) (hPos : 0 < rgn.cnt) (hCnt : rgn.cnt < maxLmbRegions)
    (hSorted : ∀ i j, i < j → j < rgn.cnt → (rgn.region i).base < (rgn.region j).base) :
    ∃ p, p ≤ rgn.cnt ∧ (∀ k, k < p → (rgn.region k).base ≤ base) ∧
      (∀ k, p ≤ k → k < rgn.cnt → base < (rgn.region k).base) ∧
      (insertRegion w rgn base size).cnt = rgn.cnt + 1 ∧ ∀ k, k < rgn.cnt + 1 →
        (insertRegion w rgn base size).region k =
          if k < p then rgn.region k
          else if k = p then ⟨base, size⟩
          else rgn.region (k - 1) := by
  rcases moveUp_eq ⟨base, size⟩ rgn.cnt rgn.region with ⟨p, hp, hAbove, hBelow, hEq⟩
  refine ⟨p, hp, ?_, hAbove, ?_, ?_⟩
  · intro k hk
    have hLast := hBelow (by omega)
    by_cases hkp : k = p - 1
    · rwa [hkp]
    · have hLt := hSorted k (p - 1) (by omega) (by omega)
      exact Nat.le_of_lt (Nat.lt_of_lt_of_le hLt hLast)
  · exact Nat.mod_eq_of_lt (Widths.lt_two_pow_long (by omega))
  · intro k hk
    unfold insertRegion
    dsimp only
    have hFirst := hEq 0 (Nat.zero_le _)
    by_cases hp0 : p = 0
    · -- the new region is the lowest one
      subst hp0
      have hLow := hAbove 0 (Nat.le_refl 0) hPos
      rw [if_neg (by omega), if_neg (by omega)] at hFirst
      rw [hFirst, if_pos hLow]
      by_cases hk0 : k = 0
      · simp [hk0]
      · rw [update_of_ne hk0, hEq k (by omega), if_neg (by omega), if_neg (by omega),
          if_neg (by omega), if_neg hk0]
    · have hLow : (rgn.region 0).base ≤ base := by
        have hLast := hBelow (by omega)
        by_cases hp1 : p = 1
        · simpa [hp1] using hLast
        · have hLt := hSorted 0 (p - 1) (by omega) (by omega)
          exact Nat.le_of_lt (Nat.lt_of_lt_of_le hLt hLast)
      rw [if_pos (by omega)] at hFirst
      rw [hFirst, if_neg (Nat.not_lt.mpr hLow), hEq k (by omega)]
      have hPosp : 0 < p := Nat.pos_of_ne_zero hp0
      simp only [hPosp, and_true]

theorem LmbRegion.Sound.insert {base size : Nat} (hSound : rgn.Sound w) (hFit : InRange w base size)
    (hPos : 0 < rgn.cnt) (hCnt : rgn.cnt < maxLmbRegions)
    (hApart : ∀ i, i < rgn.cnt → (rgn.interval i).hi < base ∨ base + size < (rgn.interval i).lo) :
    (insertRegion w rgn base size).Sound w ∧
      (insertRegion w rgn base size).covered = rgn.covered ∪ Set.Ico base (base + size) := by
  have hLoHi : ∀ i, i < rgn.cnt → (rgn.interval i).lo < (rgn.interval i).hi :=
    hSound.separated.nonempty
  rcases insertRegion_eq w base size hPos hCnt
    (fun i j hij hj => (hLoHi i (hij.trans hj)).trans (hSound.separated.apart i j hij hj)) with
    ⟨p, hp, hBelow, hAbove, hCount, hRegion⟩
  have hInterval :
      ∀ k, k < rgn.cnt + 1 → IntervalTable.insertAt rgn.interval p ⟨base, base + size⟩ k =
          (insertRegion w rgn base size).interval k := by
    intro k hk
    unfold IntervalTable.insertAt interval
    rw [hRegion k hk]
    split
    · rfl
    · split <;> rfl
  have hBelow' : ∀ j, j < p → (rgn.interval j).hi < base := by
    intro j hj
    have hLe := hBelow j hj
    rcases hApart j (by omega) with hHi | hLo
    · exact hHi
    · simp only [interval, LmbProperty.interval] at hLo
      omega
  have hAbove' : ∀ j, p ≤ j → j < rgn.cnt → base + size < (rgn.interval j).lo := by
    intro j hpj hj
    have hLt := hAbove j hpj hj
    rcases hApart j hj with hHi | hLo
    · have hNonempty := hLoHi j hj
      simp only [interval, LmbProperty.interval] at hHi hNonempty
      omega
    · exact hLo
  have hSep :=
    hSound.separated.insertAt (r := ⟨base, base + size⟩) hp
      (Nat.lt_add_of_pos_right hFit.1) hBelow' hAbove'
  refine ⟨⟨?_, ?_, ?_⟩, ?_⟩
  · intro k hk
    rw [hCount] at hk
    rw [hRegion k hk]
    split
    · exact hSound.fits k (by omega)
    · split
      · exact hFit
      · exact hSound.fits (k - 1) (by omega)
  · rw [hCount]
    exact hSep.congr hInterval
  · omega
  · unfold covered
    rw [hCount, ← IntervalTable.covered_congr hInterval]
    exact IntervalTable.covered_insertAt hp

----
-- Coalescing
----

namespace LmbRegion

/- A range apart from the regions of a table. -/
def Avoids (rgn : LmbRegion) (base size : Nat) : Prop :=
  ∀ i, i < rgn.cnt → (rgn.interval i).hi ≤ base ∨ base + size ≤ (rgn.interval i).lo

variable {w : Widths} {rgn : LmbRegion} {i base size : Nat}

section

variable (hSound : rgn.Sound w)
include hSound

section

variable (hFit : InRange w base size)
include hFit

/- The first loop stops at a region that the range touches. -/
theorem Sound.meets_iff (hAvoid : rgn.Avoids base size) (hi : i < rgn.cnt) :
    meets w base size (rgn.region i) = true ↔
      (rgn.interval i).lo = base + size ∨ (rgn.interval i).hi = base := by
  rcases hSound.fits i hi with ⟨hPos, hTop⟩
  have hNew : 1 ≤ size := hFit.1
  have hOther : rgn.region i ≠ ⟨base, size⟩ := by
    intro hEq
    have hApart := hAvoid i hi
    simp only [interval, LmbProperty.interval, hEq] at hApart
    omega
  unfold meets lmbAddrsAdjacent
  rw [Widths.add_eq hTop, Widths.add_eq hFit.2]
  simp only [hOther, false_or, decide_eq_true_eq, interval, LmbProperty.interval]
  by_cases hDown : (rgn.region i).base = base + size
  · simp [hDown]
  · rw [if_neg hDown]
    by_cases hUp : base = (rgn.region i).base + (rgn.region i).size
    · simp [← hUp]
    · simp [hUp, hDown, Ne.symm hUp]

theorem Sound.extendRegion_down (hi : i < rgn.cnt) (hTouch : (rgn.interval i).lo = base + size) :
    extendRegion w rgn i base size = rgn.set i ⟨base, (rgn.region i).size + size⟩ := by
  rcases hSound.fits i hi with ⟨hPos, hTop⟩
  simp only [interval, LmbProperty.interval] at hTouch
  have hAdj : lmbAddrsAdjacent w base size (rgn.region i).base (rgn.region i).size = 1 := by
    unfold lmbAddrsAdjacent
    rw [Widths.add_eq hFit.2, if_pos hTouch]
  unfold extendRegion
  dsimp only
  rw [hAdj, if_pos (by decide), Widths.sub_eq (by omega) (by omega),
    Widths.add_eq (by omega), hTouch, Nat.add_sub_cancel]

theorem Sound.extendRegion_up (hi : i < rgn.cnt) (hTouch : (rgn.interval i).hi = base) :
    extendRegion w rgn i base size =
      rgn.set i ⟨(rgn.region i).base, (rgn.region i).size + size⟩ := by
  rcases hSound.fits i hi with ⟨hPos, hTop⟩
  have hFits := hFit.2
  simp only [interval, LmbProperty.interval] at hTouch
  have hAdj : ¬ 0 < lmbAddrsAdjacent w base size (rgn.region i).base (rgn.region i).size := by
    unfold lmbAddrsAdjacent
    rw [Widths.add_eq hFits, if_neg (by omega)]
    split <;> decide
  unfold extendRegion
  rw [if_neg hAdj, Widths.add_eq (by omega)]

end

/- A region takes in the range below it. -/
theorem Sound.grow_down (hi : i < rgn.cnt) (hTouch : (rgn.interval i).lo = base + size)
    (hBelow : ∀ j, j < i → (rgn.interval j).hi < base) :
    (rgn.set i ⟨base, (rgn.region i).size + size⟩).Sound w ∧ (rgn.set i
        ⟨base, (rgn.region i).size + size⟩).covered = rgn.covered ∪ Set.Ico base (base + size) := by
  rcases hSound.fits i hi with ⟨hPos, hTop⟩
  have hEq : base + ((rgn.region i).size + size) = (rgn.interval i).hi := by
    simp only [interval, LmbProperty.interval] at hTouch ⊢
    omega
  refine ⟨hSound.set ⟨by dsimp only; omega, ?_⟩ hBelow ?_, ?_⟩
  · rw [hEq]
    exact hTop
  · intro j hij hj
    rw [hEq]
    exact hSound.separated.apart i j hij hj
  · rw [hSound.covered_set hi]
    have hOld : (rgn.interval i).points ⊆ rgn.covered := fun x hx => ⟨i, hi, hx⟩
    have hNew :
        (LmbProperty.interval
          ⟨base, (rgn.region i).size + size⟩).points =
            Set.Ico base (base + size) ∪ (rgn.interval i).points := by
      ext x
      simp only [IntervalTable.Entry.points, LmbProperty.interval,
        interval, Set.mem_union, Set.mem_Ico] at hTouch ⊢
      omega
    rw [hNew, Set.union_comm (Set.Ico _ _), ← Set.union_assoc, Set.sdiff_union_of_subset hOld]

theorem Sound.grow_up
    (hFit : InRange w base size) (hi : i < rgn.cnt) (hTouch : (rgn.interval i).hi = base)
    (hAbove : ∀ j, i < j → j < rgn.cnt → base + size < (rgn.interval j).lo) :
    (rgn.set i ⟨(rgn.region i).base, (rgn.region i).size + size⟩).Sound w ∧ (rgn.set i
        ⟨(rgn.region i).base,
          (rgn.region i).size + size⟩).covered = rgn.covered ∪ Set.Ico base (base + size) := by
  rcases hSound.fits i hi with ⟨hPos, hTop⟩
  have hFits := hFit.2
  have hEq : (rgn.region i).base + ((rgn.region i).size + size) = base + size := by
    simp only [interval, LmbProperty.interval] at hTouch
    omega
  refine ⟨hSound.set ⟨by dsimp only; omega, ?_⟩ ?_ ?_, ?_⟩
  · dsimp only
    omega
  · intro j hji
    exact hSound.separated.apart j i hji hi
  · rw [hEq]
    exact hAbove
  · rw [hSound.covered_set hi]
    have hOld : (rgn.interval i).points ⊆ rgn.covered := fun x hx => ⟨i, hi, hx⟩
    have hNew :
        (LmbProperty.interval
          ⟨(rgn.region i).base, (rgn.region i).size + size⟩).points =
              (rgn.interval i).points ∪ Set.Ico base (base + size) := by
      ext x
      simp only [IntervalTable.Entry.points, LmbProperty.interval,
        interval, Set.mem_union, Set.mem_Ico] at hTouch ⊢
      omega
    rw [hNew, ← Set.union_assoc, Set.sdiff_union_of_subset hOld]

/- Only the regions that count matter. -/
theorem Sound.congr {rgn' : LmbRegion}
    (hCnt : rgn'.cnt = rgn.cnt) (hSame : ∀ k, k < rgn.cnt → rgn'.region k = rgn.region k) :
    rgn'.Sound w ∧ rgn'.covered = rgn.covered := by
  have hInterval : ∀ k, k < rgn.cnt → rgn.interval k = rgn'.interval k := by
    intro k hk
    unfold interval
    rw [hSame k hk]
  refine ⟨⟨?_, ?_, ?_⟩, ?_⟩
  · intro k hk
    rw [hCnt] at hk
    rw [hSame k hk]
    exact hSound.fits k hk
  · rw [hCnt]
    exact hSound.separated.congr hInterval
  · rw [hCnt]
    exact hSound.cnt_le
  · unfold covered
    rw [hCnt]
    exact (IntervalTable.covered_congr hInterval).symm

/- A range that fills a gap joins the regions around it. -/
theorem Sound.merge
    (hi : i + 1 < rgn.cnt) (hFit : InRange w base size) (hLow : (rgn.interval i).hi = base)
    (hHigh : (rgn.interval (i + 1)).lo = base + size) :
    ∃ rgn',
      lmbCoalesceRegions w (rgn.set i ⟨(rgn.region i).base, (rgn.region i).size + size⟩) i (i + 1) =
        some rgn' ∧
      rgn'.Sound w ∧ 0 < rgn'.cnt ∧ rgn'.covered = rgn.covered ∪ Set.Ico base (base + size) := by
  rcases hSound.fits (i + 1) hi with ⟨hPosH, hTopH⟩
  -- the joined region, and the table without the upper one
  let joined : LmbProperty :=
    ⟨(rgn.region i).base, (rgn.region i).size + size + (rgn.region (i + 1)).size⟩
  have hJoined : joined.interval = ⟨(rgn.interval i).lo, (rgn.interval (i + 1)).hi⟩ := by
    simp only [joined, interval, LmbProperty.interval] at hLow hHigh ⊢
    rw [IntervalTable.Entry.mk.injEq]
    exact ⟨rfl, by omega⟩
  have hFitJ : InRange w joined.base joined.size := by
    have hHiEq := congrArg IntervalTable.Entry.hi hJoined
    have hPos := hFit.1
    simp only [LmbProperty.interval, interval] at hHiEq
    exact ⟨by simp only [joined]; omega, by omega⟩
  have hTable :
      lmbCoalesceRegions w (rgn.set i ⟨(rgn.region i).base, (rgn.region i).size + size⟩) i (i + 1) =
        lmbRemoveRegion w (rgn.set i joined) (i + 1) := by
    have hSize := hFitJ.2
    simp only [joined] at hSize
    unfold lmbCoalesceRegions LmbRegion.set
    simp only [update_self, update_idem, update_of_ne (show i + 1 ≠ i from Nat.succ_ne_self i)]
    rw [Widths.add_eq (by omega)]
  rcases lmbRemoveRegion_eq w (show i + 1 < (rgn.set i joined).cnt
    from hi) hSound.cnt_le with ⟨rgn', hRun, hCnt, hRegion, _⟩
  rcases lmbRemoveRegion_eq w hi hSound.cnt_le with ⟨rest, hRest, hCntR, hRegionR, _⟩
  rcases hSound.remove hi with ⟨rest', hRest', hSoundR, hCoverR, _⟩
  rw [hRest] at hRest'
  cases hRest'
  have hKept : ∀ k, k ≤ i → rest.region k = rgn.region k := by
    intro k hk
    rw [hRegionR k (by omega), if_pos (by omega)]
  have hAbove : ∀ j, i < j → j < rest.cnt → rest.interval j = rgn.interval (j + 1) := by
    intro j hij hj
    unfold interval
    rw [hRegionR j (by omega), if_neg (by omega)]
  have hIntervalI : rest.interval i = rgn.interval i := by
    unfold interval
    rw [hKept i (Nat.le_refl i)]
  have hSet : (rest.set i joined).Sound w := by
    refine hSoundR.set hFitJ ?_ ?_
    · intro j hji
      unfold interval
      rw [hKept j (Nat.le_of_lt hji)]
      exact hSound.separated.apart j i hji (by omega)
    · intro j hij hj
      rw [hAbove j hij hj]
      have hHiEq := congrArg IntervalTable.Entry.hi hJoined
      simp only [LmbProperty.interval] at hHiEq
      rw [hHiEq]
      exact hSound.separated.apart (i + 1) (j + 1) (by omega) (by omega)
  have hCover := hSoundR.covered_set (i := i) (by omega) joined
  have hSame : ∀ k, k < (rest.set i joined).cnt → rgn'.region k = (rest.set i joined).region k := by
    intro k hk
    simp only [set_cnt] at hk hCnt hRegion
    rw [hRegion k (by omega)]
    unfold LmbRegion.set
    dsimp only
    by_cases hki : k = i
    · subst hki
      rw [if_pos (by omega), update_self, update_self]
    · rw [update_of_ne hki, hRegionR k (by omega), update_of_ne (by split <;> omega)]
  rcases hSet.congr (by rw [hCnt, set_cnt, set_cnt, hCntR]) hSame with ⟨hSound', hCover'⟩
  refine ⟨rgn', hTable.trans hRun, hSound', ?_, ?_⟩
  · rw [hCnt, set_cnt]
    omega
  · rw [hCover', hCover, hCoverR, hIntervalI]
    have hInI : (rgn.interval i).points ⊆ rgn.covered := fun x hx => ⟨i, by omega, hx⟩
    have hInH : (rgn.interval (i + 1)).points ⊆ rgn.covered := fun x hx => ⟨i + 1, hi, hx⟩
    have hParts :
        joined.interval.points =
          (rgn.interval i).points ∪ Set.Ico base (base + size) ∪ (rgn.interval (i + 1)).points := by
      have hNonL := hSound.separated.nonempty i (by omega)
      have hNonH := hSound.separated.nonempty (i + 1) hi
      have hPos := hFit.1
      rw [hJoined]
      ext x
      simp only [IntervalTable.Entry.points, Set.mem_union, Set.mem_Ico]
      omega
    rw [hParts]
    ext x
    have hI := @hInI x
    have hH := @hInH x
    simp only [Set.mem_union, Set.mem_sdiff]
    clear * - hI hH
    tauto

/-
  Adding a range apart from all regions of a table that has
  some: unless the table is full, it then covers the range.
-/
theorem Sound.add
    (hFit : InRange w base size) (hPos : 0 < rgn.cnt) (hAvoid : rgn.Avoids base size) :
    ∃ rgn' ret, lmbAddRegion w rgn base size = some (rgn', ret) ∧
      (0 ≤ ret → rgn'.Sound w ∧ 0 < rgn'.cnt ∧
        rgn'.covered = rgn.covered ∪ Set.Ico base (base + size)) := by
  have hNotDummy : ¬ (rgn.cnt = 1 ∧ (rgn.region 0).size = 0) := by
    rintro ⟨-, hZero⟩
    have hFirst := (hSound.fits 0 hPos).1
    omega
  have hPred : w.pred rgn.cnt = rgn.cnt - 1 := Widths.pred_eq hPos hSound.cnt_le
  unfold lmbAddRegion
  rw [if_neg hNotDummy]
  generalize hScan : rgn.scan (meets w base size) = i
  dsimp only
  by_cases hi : i < rgn.cnt
  · rcases (scan_eq_iff hi).mp hScan with ⟨hStop, hBefore⟩
    have hOther : rgn.region i ≠ ⟨base, size⟩ := by
      intro hEq
      have hApart := hAvoid i hi
      have hNew := hFit.1
      simp only [interval, LmbProperty.interval, hEq] at hApart
      omega
    have hNoTouch : ∀ j, j < i → (rgn.interval j).hi ≠ base := by
      intro j hj hTouch
      have hFalse := hBefore j hj
      rw [(hSound.meets_iff hFit hAvoid (by omega)).mpr (Or.inr hTouch)] at hFalse
      cases hFalse
    rw [if_neg (fun h => hOther h.2), if_pos hi, if_pos hi]
    rcases (hSound.meets_iff hFit hAvoid hi).mp hStop with
      hDown | hUp
    · -- the region above takes the range in
      have hBelow : ∀ j, j < i → (rgn.interval j).hi < base := by
        intro j hj
        have hGap := hSound.separated.apart j i hj hi
        have hNonempty := hSound.separated.nonempty j (by omega)
        have hNot := hNoTouch j hj
        rcases hAvoid j (by omega) with hLe | hGe
        · omega
        · omega
      rcases hSound.grow_down hi hDown hBelow with ⟨hSound', hCover⟩
      rw [hSound.extendRegion_down hFit hi hDown, set_cnt, hPred]
      rw [if_neg]
      · refine ⟨_, _, if_pos (by decide), ?_⟩
        exact fun _ => ⟨hSound', hPos, hCover⟩
      · rintro ⟨hNext, hAdj⟩
        exact hAdj (hSound'.not_adjacent (Nat.lt_succ_self i) (by rw [set_cnt]; omega))
    · rw [hSound.extendRegion_up hFit hi hUp, set_cnt, hPred]
      have hAbove : ∀ j, i < j → j < rgn.cnt → base + size ≤ (rgn.interval j).lo := by
        intro j hij hj
        have hGap := hSound.separated.apart i j hij hj
        have hNonempty := hSound.separated.nonempty j hj
        rcases hAvoid j hj with hLe | hGe
        · omega
        · exact hGe
      by_cases hFill : i + 1 < rgn.cnt ∧ (rgn.interval (i + 1)).lo = base + size
      · -- the range fills the gap to the next region
        rcases hSound.merge hFill.1 hFit hUp hFill.2 with ⟨rgn', hRun, hSound', hPos', hCover⟩
        rw [if_pos, hRun]
        · exact ⟨rgn', _, rfl, fun _ => ⟨hSound', hPos', hCover⟩⟩
        · refine ⟨by omega, ?_⟩
          have hFits := hFit.2
          have hTop := hFill.2
          simp only [interval, LmbProperty.interval] at hUp hTop
          unfold lmbRegionsAdjacent lmbAddrsAdjacent LmbRegion.set
          simp only [update_self, update_of_ne (show i + 1 ≠ i from Nat.succ_ne_self i)]
          rw [Widths.add_eq (by omega), if_pos (by omega)]
          decide
      · have hAbove' : ∀ j, i < j → j < rgn.cnt → base + size < (rgn.interval j).lo := by
          intro j hij hj
          have hNext := hAbove (i + 1) (by omega) (by omega)
          by_cases hji : j = i + 1
          · subst hji
            omega
          · have hGap := hSound.separated.apart (i + 1) j (by omega) hj
            have hNonempty := hSound.separated.nonempty (i + 1) (by omega)
            omega
        rcases hSound.grow_up hFit hi hUp hAbove' with ⟨hSound', hCover⟩
        rw [if_neg]
        · refine ⟨_, _, if_pos (by decide), ?_⟩
          exact fun _ => ⟨hSound', hPos, hCover⟩
        · rintro ⟨hNext, hAdj⟩
          exact hAdj (hSound'.not_adjacent (Nat.lt_succ_self i) (by rw [set_cnt]; omega))
  · -- no region touches the range
    have hEnd : i = rgn.cnt := by
      have hLe := scan_le rgn (meets w base size)
      omega
    rw [if_neg (fun h => hi h.1), if_neg hi, if_neg hi, hPred,
      if_neg (by omega), if_neg (by decide)]
    by_cases hFull : maxLmbRegions ≤ rgn.cnt
    · rw [if_pos hFull]
      exact ⟨_, _, rfl, fun h => absurd h (by decide)⟩
    · rw [if_neg hFull]
      refine ⟨_, _, rfl, fun _ => ?_⟩
      rw [hEnd] at hScan
      have hApart :
          ∀ j, j < rgn.cnt → (rgn.interval j).hi < base ∨ base + size < (rgn.interval j).lo := by
        intro j hj
        have hNo := scan_eq_cnt_iff.mp hScan j hj
        have hTouch := (hSound.meets_iff hFit hAvoid hj).not.mp (by rw [hNo]; decide)
        have hFar := hAvoid j hj
        omega
      rcases hSound.insert hFit hPos (Nat.not_le.mp hFull) hApart with ⟨hSound', hCover⟩
      refine ⟨hSound', ?_, hCover⟩
      have hCount : (insertRegion w rgn base size).cnt = rgn.cnt + 1 :=
        Nat.mod_eq_of_lt (Widths.lt_two_pow_long (by omega))
      omega

end

end LmbRegion

----
-- Freeing
----

namespace LmbRegion

variable {w : Widths} {rgn : LmbRegion} {base size : Nat}

/- A range with all its addresses in one region. -/
theorem Sound.scan_encloses (hSound : rgn.Sound w) (hFit : InRange w base size)
    (hIn : Set.Ico base (base + size) ⊆ rgn.covered) :
    ∃ i, i < rgn.cnt ∧ rgn.scan (encloses w base (w.add base size)) = i ∧
      (rgn.interval i).lo ≤ base ∧ base + size ≤ (rgn.interval i).hi := by
  rcases hSound.separated.exists_of_subset
    (Nat.lt_add_of_pos_right hFit.1) hIn with ⟨i, hi, hLo, hHi⟩
  have hEncloses :
      ∀ j, j < rgn.cnt → (encloses w base (w.add base size) (rgn.region j) = true ↔
          (rgn.interval j).lo ≤ base ∧ base + size ≤ (rgn.interval j).hi) := by
    intro j hj
    unfold encloses
    rw [Widths.add_eq hFit.2, Widths.add_eq (hSound.fits j hj).2]
    exact decide_eq_true_iff
  refine ⟨i, hi, ?_, hLo, hHi⟩
  rw [scan_eq_iff hi]
  refine ⟨(hEncloses i hi).mpr ⟨hLo, hHi⟩, ?_⟩
  intro j hji
  rw [Bool.eq_false_iff]
  intro hStop
  rcases (hEncloses j (by omega)).mp hStop with ⟨hLoj, hHij⟩
  have hNew := hFit.1
  have hEq :=
    hSound.separated.index_unique (x := base)
      (show j < rgn.cnt by omega) hi
      ⟨hLoj, by omega⟩ ⟨hLo, by omega⟩
  omega

theorem Sound.cut
    {i : Nat} {r : LmbProperty} (hSound : rgn.Sound w) (hi : i < rgn.cnt) (hPos : 1 ≤ r.size)
    (hLo : (rgn.interval i).lo ≤ r.base) (hHi : r.base + r.size ≤ (rgn.interval i).hi) :
    (rgn.set i r).Sound w ∧
      (rgn.set i r).covered = rgn.covered \ ((rgn.interval i).points \ r.interval.points) := by
  rcases hSound.fits i hi with ⟨_, hTop⟩
  constructor
  · refine hSound.set ⟨hPos, ?_⟩ ?_ ?_
    · exact Nat.lt_of_le_of_lt hHi hTop
    · intro j hji
      exact Nat.lt_of_lt_of_le (hSound.separated.apart j i hji hi) hLo
    · intro j hij hj
      exact Nat.lt_of_le_of_lt hHi (hSound.separated.apart i j hij hj)
  · rw [hSound.covered_set hi]
    have hOld : (rgn.interval i).points ⊆ rgn.covered := fun x hx => ⟨i, hi, hx⟩
    have hNew : r.interval.points ⊆ (rgn.interval i).points := Set.Ico_subset_Ico hLo hHi
    ext x
    have hOldx := @hOld x
    have hNewx := @hNew x
    simp only [Set.mem_union, Set.mem_sdiff]
    clear * - hOldx hNewx
    tauto

end LmbRegion

/-
  Freeing a range that the table covers takes its addresses
  out of the table.  The first entry keeps a range even when
  the last region goes.
-/
theorem lmbFree_eq
    {lmb : Lmb} {base size : Nat} (hSound : lmb.reserved.Sound w) (hFit : InRange w base size)
    (hIn : Set.Ico base (base + size) ⊆ lmb.reserved.covered) :
    ∃ rgn ret, lmbFree w lmb base size = some ({ lmb with reserved := rgn }, ret) ∧
      (0 ≤ ret → rgn.Sound w ∧ InRange w (rgn.region 0).base (rgn.region 0).size ∧
        rgn.covered = lmb.reserved.covered \ Set.Ico base (base + size)) := by
  rcases hSound.scan_encloses hFit hIn with ⟨i, hi, hScan, hLo, hHi⟩
  generalize hRgn : lmb.reserved = rgn at *
  rcases hSound.fits i hi with ⟨hPos, hTop⟩
  have hNew := hFit.1
  have hFits := hFit.2
  have hBounds := And.intro hLo hHi
  simp only [LmbRegion.interval, LmbProperty.interval] at hBounds
  have hFirst :
      ∀ {t : LmbRegion}, t.Sound w → 0 < t.cnt → InRange w (t.region 0).base (t.region 0).size :=
    fun hSound' hPos' => hSound'.fits 0 hPos'
  have hSome : 0 < rgn.cnt := by omega
  unfold lmbFree
  rw [hRgn]
  dsimp only
  rw [hScan, if_neg (Nat.ne_of_lt hi), Widths.add_eq hFits, Widths.add_eq hTop]
  by_cases hWhole :
      (rgn.region i).base = base ∧ (rgn.region i).base + (rgn.region i).size = base + size
  · -- the whole region goes
    rcases hSound.remove hi with ⟨rgn', hRun, hSound', hCover, hZero⟩
    rw [if_pos hWhole, hRun]
    refine ⟨rgn', 0, rfl, fun _ => ⟨hSound', hZero, ?_⟩⟩
    rw [hCover]
    unfold IntervalTable.Entry.points LmbRegion.interval LmbProperty.interval
    rw [hWhole.2, hWhole.1]
  rw [if_neg hWhole]
  by_cases hFront : (rgn.region i).base = base
  · have hSub : w.sub (rgn.region i).size size = (rgn.region i).size - size :=
      Widths.sub_eq (by omega) (by omega)
    rw [if_pos hFront, hSub]
    rcases hSound.cut (r := ⟨base + size, (rgn.region i).size - size⟩) hi
      (by dsimp only; omega)
      (by dsimp only; omega)
      (by
        simp only [LmbRegion.interval, LmbProperty.interval]
        omega) with ⟨hSound', hCover⟩
    refine ⟨_, 0, rfl, fun _ => ⟨hSound', hFirst hSound' hSome, ?_⟩⟩
    rw [hCover]
    congr 1
    ext x
    simp only [IntervalTable.Entry.points, LmbRegion.interval,
      LmbProperty.interval, Set.mem_Ico, Set.mem_sdiff]
    omega
  rw [if_neg hFront]
  -- what stays below the range that is freed
  have hBelow :=
    hSound.cut
      (r := ⟨(rgn.region i).base, base - (rgn.region i).base⟩) hi
      (by dsimp only; omega)
      (Nat.le_refl _)
      (by
        simp only [LmbRegion.interval, LmbProperty.interval]
        omega)
  by_cases hEnd : (rgn.region i).base + (rgn.region i).size = base + size
  · have hSub : w.sub (rgn.region i).size size = base - (rgn.region i).base := by
      rw [Widths.sub_eq (by omega) (by omega)]
      omega
    rw [if_pos hEnd, hSub]
    refine ⟨_, 0, rfl, fun _ => ⟨hBelow.1, hFirst hBelow.1 hSome, ?_⟩⟩
    rw [hBelow.2]
    congr 1
    ext x
    simp only [IntervalTable.Entry.points, LmbRegion.interval,
      LmbProperty.interval, Set.mem_Ico, Set.mem_sdiff]
    omega
  · rw [if_neg hEnd, Widths.sub_eq (by omega) (by omega), Widths.sub_eq (by omega) (by omega)]
    rcases hBelow with ⟨hSound₁, hCover₁⟩
    -- what stays above it is added as a region of its own
    have hAvoid :
        (rgn.set i ⟨(rgn.region i).base, base - (rgn.region i).base⟩).Avoids (base + size)
          ((rgn.region i).base + (rgn.region i).size - (base + size)) := by
      intro j hj
      rw [LmbRegion.set_interval]
      by_cases hji : j = i
      · subst hji
        rw [update_self]
        simp only [LmbProperty.interval]
        omega
      · rw [update_of_ne hji]
        rcases Nat.lt_or_gt_of_ne hji with hLt | hGt
        · have hGap := hSound.separated.apart j i hLt hi
          omega
        · have hGap := hSound.separated.apart i j hGt hj
          simp only [LmbRegion.interval, LmbProperty.interval] at hGap ⊢
          omega
    rcases hSound₁.add ⟨by omega, by omega⟩ hSome hAvoid with ⟨rgn', ret, hRun, hAdded⟩
    rw [hRun]
    refine ⟨rgn', ret, rfl, fun hRet => ?_⟩
    rcases hAdded hRet with ⟨hSound', hPos', hCover'⟩
    refine ⟨hSound', hFirst hSound' hPos', ?_⟩
    rw [hCover', hCover₁]
    have hOld : (rgn.interval i).points ⊆ rgn.covered := fun x hx => ⟨i, hi, hx⟩
    ext x
    have hOldx := @hOld x
    simp only [IntervalTable.Entry.points, LmbRegion.interval,
      LmbProperty.interval, Set.mem_Ico, Set.mem_union, Set.mem_sdiff] at hOldx ⊢
    by_cases hx : x ∈ rgn.covered
    · simp only [hx, true_and]
      omega
    · simp only [hx, false_and, false_or, iff_false]
      intro hIn'
      exact hx (hOldx (by omega))

----
-- Calls And The Reserved Set
----

namespace Lmb

inductive Call where
  | reserve (base size : Nat)
  | free (base size : Nat)
deriving DecidableEq, Repr

/- A table, with the addresses reserved and not freed since. -/
structure Tracked where
  lmb : Lmb
  reserved : Finset Nat

namespace Tracked

/- After `lmb_init`, on memory with any contents. -/
def initial (lmb : Lmb) : Tracked where
  lmb := lmbInit lmb
  reserved := ∅

/-
  Ranges have addresses and do not wrap; what is reserved was
  free, and what is freed was reserved.
-/
def Allowed (w : Widths) (t : Tracked) : Call → Prop
  | .reserve base size =>
    InRange w base size ∧ Disjoint (Finset.Ico base (base + size)) t.reserved
  | .free base size => InRange w base size ∧ Finset.Ico base (base + size) ⊆ t.reserved

instance (w : Widths) (t : Tracked) (c : Call) : Decidable (t.Allowed w c) := by
  cases c <;> exact inferInstanceAs (Decidable (_ ∧ _))

/- What the code makes of a call. -/
def call (w : Widths) (t : Tracked) : Call → Option (Lmb × Int)
  | .reserve base size => lmbReserve w t.lmb base size
  | .free base size => lmbFree w t.lmb base size

/- The addresses that a call leaves reserved. -/
def after (t : Tracked) : Call → Finset Nat
  | .reserve base size => t.reserved ∪ Finset.Ico base (base + size)
  | .free base size => t.reserved \ Finset.Ico base (base + size)

/- An allowed call that does not return an error. -/
def step (w : Widths) (t : Tracked)
    (c : Call) : Option Tracked :=
  if t.Allowed w c then
    match t.call w c with
    | some (lmb, ret) =>
      if 0 ≤ ret then some ⟨lmb, t.after c⟩ else none
    | none => none
  else
    none

/-
  A reservation in a table without regions overwrites what
  the first entry still holds: the stale entries do not
  touch, and the new range lies below the first or equals it.
-/
def StartsAfresh (w : Widths) (t : Tracked) : Call → Prop
  | .reserve base size =>
    t.lmb.reserved.cnt = 0 → lmbRegionsAdjacent w t.lmb.reserved 0 1 = 0 ∧
        (base < (t.lmb.reserved.region 0).base ∨ t.lmb.reserved.region 0 = ⟨base, size⟩)
  | .free _ _ => True

instance (w : Widths) (t : Tracked) (c : Call) : Decidable (t.StartsAfresh w c) := by
  cases c
  · exact inferInstanceAs (Decidable (_ → _))
  · exact inferInstanceAs (Decidable True)

end Tracked

/-
  The table answers for the reserved addresses; its regions
  are sorted, disjoint and not adjacent, and within bounds.
-/
structure ReservedTable
    (w : Widths)
    (t : Tracked) : Prop where
  is_reserved : ∀ addr, addr < 2 ^ w.phys → (lmbIsReserved w t.lmb addr = true ↔ addr ∈ t.reserved)
  sorted :
    ∀ i j, i < j → j < t.lmb.reserved.cnt →
      (t.lmb.reserved.region i).base < (t.lmb.reserved.region j).base
  disjoint :
    ∀ i j, i < j → j < t.lmb.reserved.cnt →
      (t.lmb.reserved.interval i).points ∩ (t.lmb.reserved.interval j).points = ∅
  not_adjacent : ∀ i j, i < j → j < t.lmb.reserved.cnt → lmbRegionsAdjacent w t.lmb.reserved i j = 0
  cnt_le : t.lmb.reserved.cnt ≤ maxLmbRegions

/-
  A sound table of the reserved addresses, whose first entry
  holds a range whether it counts or not.
-/
structure Filled (w : Widths) (t : Tracked) : Prop where
  sound : t.lmb.reserved.Sound w
  first : InRange w (t.lmb.reserved.region 0).base (t.lmb.reserved.region 0).size
  covers : (t.reserved : Set Nat) = t.lmb.reserved.covered

variable {w : Widths}

theorem lmbIsReserved_iff {lmb : Lmb} (hSound : lmb.reserved.Sound w) (addr : Nat) :
    lmbIsReserved w lmb addr = true ↔ addr ∈ lmb.reserved.covered := by
  have hHit :
      ∀ i, i < lmb.reserved.cnt → ((decide
          ((lmb.reserved.region i).base ≤ addr ∧ addr ≤
              w.sub (w.add (lmb.reserved.region i).base (lmb.reserved.region i).size) 1)) = true ↔
          addr ∈ (lmb.reserved.interval i).points) := by
    intro i hi
    rcases hSound.fits i hi with ⟨hPos, hTop⟩
    rw [Widths.add_eq hTop, Widths.sub_eq (by omega) hTop, decide_eq_true_iff]
    simp only [IntervalTable.Entry.points, LmbRegion.interval, LmbProperty.interval, Set.mem_Ico]
    omega
  unfold lmbIsReserved
  rw [decide_eq_true_iff]
  have hLe := lmb.reserved.scan_le fun r =>
    decide (r.base ≤ addr ∧ addr ≤ w.sub (w.add r.base r.size) 1)
  constructor
  · intro hBreak
    have hStop := ((LmbRegion.scan_eq_iff hBreak).mp rfl).1
    exact ⟨_, hBreak, (hHit _ hBreak).mp hStop⟩
  · rintro ⟨i, hi, hx⟩
    refine Nat.lt_of_le_of_ne hLe ?_
    intro hEnd
    have hNone := LmbRegion.scan_eq_cnt_iff.mp hEnd i hi
    rw [(hHit i hi).mpr hx] at hNone
    cases hNone

theorem Filled.table {t : Tracked} (hFilled : Filled w t) :
    ReservedTable w t where
  is_reserved addr _ := by
    rw [lmbIsReserved_iff hFilled.sound, ← hFilled.covers]
    exact Finset.mem_coe
  sorted i j hij hj := by
    have hNonempty := hFilled.sound.separated.nonempty i (hij.trans hj)
    exact hNonempty.trans (hFilled.sound.separated.apart i j hij hj)
  disjoint i j hij hj := by
    rw [Set.eq_empty_iff_forall_notMem]
    rintro x ⟨hxi, hxj⟩
    have hEq := hFilled.sound.separated.index_unique (hij.trans hj) hj hxi hxj
    omega
  not_adjacent i j hij hj := hFilled.sound.not_adjacent hij hj
  cnt_le := hFilled.sound.cnt_le

variable {base size : Nat}

/- A table of one region. -/
theorem Filled.of_single {t : Tracked} (hFit : InRange w base size) (hCnt : t.lmb.reserved.cnt = 1)
    (hRegion : t.lmb.reserved.region 0 = ⟨base, size⟩)
    (hReserved : t.reserved = Finset.Ico base (base + size)) :
    Filled w t where
  sound :=
    { fits := by
        intro i hi
        rw [show i = 0 by omega, hRegion]
        exact hFit
      separated :=
        { nonempty := by
            intro i hi
            unfold LmbRegion.interval
            rw [show i = 0 by omega, hRegion]
            exact Nat.lt_add_of_pos_right hFit.1
          apart := by
            intro i j hij hj
            omega }
      cnt_le := by
        rw [hCnt]
        decide }
  first := by
    rw [hRegion]
    exact hFit
  covers := by
    unfold LmbRegion.covered IntervalTable.covered
    rw [hCnt, hReserved]
    ext x
    simp only [Finset.coe_Ico, Nat.lt_one_iff, exists_eq_left,
      Set.mem_ofPred_eq, LmbRegion.interval, hRegion]
    exact Iff.rfl

----
-- Single Calls
----

variable {w : Widths} {t : Tracked} {lmb : Lmb}

/- After initialisation every address counts as reserved. -/
theorem initial_not_table : ¬ ReservedTable w (Tracked.initial lmb) := by
  intro hTable
  have hZero := (hTable.is_reserved 0 (Nat.two_pow_pos _)).mp ?_
  · exact absurd hZero (Finset.notMem_empty 0)
  · have hScan :
        (Tracked.initial lmb).lmb.reserved.scan (fun r =>
          decide (r.base ≤ 0 ∧ 0 ≤ w.sub (w.add r.base r.size) 1)) = 0 := by
      rw [LmbRegion.scan_eq_iff (Nat.zero_lt_one)]
      refine ⟨?_, fun j hj => absurd hj (Nat.not_lt_zero j)⟩
      rw [decide_eq_true_iff]
      exact ⟨Nat.le_refl 0, Nat.zero_le _⟩
    unfold lmbIsReserved
    dsimp only
    rw [hScan]
    rfl

/- The first reservation takes the place of the dummy. -/
theorem reserve_initial (hFit : InRange w base size) :
    ∃ lmb', (Tracked.initial lmb).call w (.reserve base size) = some (lmb', 0) ∧
      Filled w ⟨lmb', (Tracked.initial lmb).after (.reserve base size)⟩ := by
  refine ⟨_, rfl, Filled.of_single hFit rfl ?_ ?_⟩
  · simp [LmbRegion.set]
  · exact Finset.empty_union _

/- The call on a table without regions. -/
theorem lmbAddRegion_empty {rgn : LmbRegion} (hCnt : rgn.cnt = 0) :
    lmbAddRegion w rgn base size =
      if lmbRegionsAdjacent w rgn 0 1 ≠ 0 then none
      else some (insertRegion w rgn base size, 0) := by
  have hScan : rgn.scan (meets w base size) = 0 := by
    have hLe := rgn.scan_le (meets w base size)
    omega
  have hLong : 9 < 2 ^ w.long := Widths.lt_two_pow_long (Nat.le_refl 9)
  have hPred : w.pred rgn.cnt = 2 ^ w.long - 1 := by rw [hCnt, Widths.pred_zero]
  have hNone : ¬ 0 < rgn.cnt := by omega
  unfold lmbAddRegion
  rw [if_neg (by omega), hScan]
  dsimp only
  rw [if_neg (fun h => hNone h.1), if_neg hNone, if_neg hNone, hPred]
  by_cases hAdj : lmbRegionsAdjacent w rgn 0 1 ≠ 0
  · -- the removal that follows runs out of the array
    rw [if_pos ⟨by omega, hAdj⟩, if_pos hAdj]
    unfold lmbCoalesceRegions lmbRemoveRegion
    dsimp only
    rw [LmbRegion.set_cnt, hPred, if_pos]
    · rfl
    · exact ⟨by omega, by unfold maxLmbRegions; omega⟩
  · rw [if_neg (fun h => hAdj h.2), if_neg hAdj, if_neg (by decide), if_neg]
    unfold maxLmbRegions
    omega

section

variable (hFilled : Filled w t)
include hFilled

/-
  Reserving in a table without regions works exactly when it
  overwrites the stale first entry.
-/
theorem Filled.reserve_empty (hFit : InRange w base size) (hCnt : t.lmb.reserved.cnt = 0) :
    (t.StartsAfresh w (.reserve base size) →
      ∃ lmb', t.call w (.reserve base size) = some (lmb', 0) ∧
        Filled w ⟨lmb', t.after (.reserve base size)⟩) ∧
    (∀ lmb' ret, t.call w (.reserve base size) = some (lmb', ret) →
        ReservedTable w ⟨lmb', t.after (.reserve base size)⟩ →
          t.StartsAfresh w (.reserve base size)) := by
  have hNone : t.reserved = ∅ := by
    have hCovers := hFilled.covers
    unfold LmbRegion.covered IntervalTable.covered at hCovers
    rw [hCnt] at hCovers
    rw [← Finset.coe_eq_empty, hCovers]
    ext x
    simp
  have hAfter : t.after (.reserve base size) = Finset.Ico base (base + size) := by
    change t.reserved ∪ _ = _
    rw [hNone, Finset.empty_union]
  have hLong : 9 < 2 ^ w.long := Widths.lt_two_pow_long (Nat.le_refl 9)
  have hOne : (insertRegion w t.lmb.reserved base size).cnt = 1 := by
    unfold insertRegion
    rw [hCnt]
    exact Nat.mod_eq_of_lt (by omega)
  have hFirst :
      (insertRegion w t.lmb.reserved base size).region 0 =
        if base < (t.lmb.reserved.region 0).base then
          ⟨base, size⟩
        else t.lmb.reserved.region 0 := by
    unfold insertRegion
    rw [hCnt]
    unfold moveUp
    dsimp only
    split
    · exact update_self 0 _ _
    · rfl
  have hCall :
      t.call w (.reserve base size) =
        if lmbRegionsAdjacent w t.lmb.reserved 0 1 ≠ 0 then
          none
        else
          some
            ({ t.lmb with
              reserved := insertRegion w t.lmb.reserved base size }, 0) := by
    change lmbReserve w t.lmb base size = _
    unfold lmbReserve
    rw [lmbAddRegion_empty hCnt]
    split <;> rfl
  constructor
  · intro hAfresh
    rcases hAfresh hCnt with ⟨hApart, hLow⟩
    rw [hCall, if_neg (not_not.mpr hApart)]
    refine ⟨_, rfl, Filled.of_single hFit hOne ?_ hAfter⟩
    rw [hFirst]
    rcases hLow with hLt | hEq
    · exact if_pos hLt
    · rw [hEq]
      exact ite_self _
  · intro lmb' ret hRun hTable _
    rw [hCall] at hRun
    split at hRun
    · cases hRun
    rename_i hApart
    cases hRun
    refine ⟨not_not.mp hApart, ?_⟩
    by_cases hLt : base < (t.lmb.reserved.region 0).base
    · exact Or.inl hLt
    refine Or.inr ?_
    rw [if_neg hLt] at hFirst
    -- the table answers for the stale range
    have hStale :=
      (Filled.of_single (w := w)
        (t := ⟨{ t.lmb with
            reserved := insertRegion w t.lmb.reserved base size },
          Finset.Ico (t.lmb.reserved.region 0).base
            ((t.lmb.reserved.region 0).base + (t.lmb.reserved.region 0).size)⟩)
        hFilled.first hOne hFirst rfl).table.is_reserved
    have hNew := hTable.is_reserved
    rw [hAfter] at hNew
    have hSame :
        ∀ addr, addr < 2 ^ w.phys → (((t.lmb.reserved.region 0).base ≤ addr ∧
            addr < (t.lmb.reserved.region 0).base + (t.lmb.reserved.region 0).size) ↔
            base ≤ addr ∧ addr < base + size) := by
      intro addr hAddr
      rw [← Finset.mem_Ico, ← Finset.mem_Ico, ← hNew addr hAddr]
      exact (hStale addr hAddr).symm
    rcases hFilled.first with ⟨hPosF, hTopF⟩
    rcases hFit with ⟨hPos, hTop⟩
    have hAtOld := hSame (t.lmb.reserved.region 0).base (by omega)
    have hAtNew := hSame base (by omega)
    have hEndOld :=
      hSame ((t.lmb.reserved.region 0).base + (t.lmb.reserved.region 0).size - 1) (by omega)
    have hEndNew := hSame (base + size - 1) (by omega)
    apply LmbProperty.ext
    · dsimp only
      omega
    · dsimp only
      omega

theorem Filled.reserve
    (hAllowed : t.Allowed w (.reserve base size)) (hPos : 0 < t.lmb.reserved.cnt) :
    ∃ lmb' ret, t.call w (.reserve base size) = some (lmb', ret) ∧
        (0 ≤ ret → Filled w ⟨lmb', t.after (.reserve base size)⟩) := by
  rcases hAllowed with ⟨hFit, hDisjoint⟩
  have hAvoid : t.lmb.reserved.Avoids base size := by
    intro i hi
    have hNonempty := hFilled.sound.separated.nonempty i hi
    have hNew := hFit.1
    by_contra hMeet
    -- both contain the greater one of their first addresses
    have hPoint : max base (t.lmb.reserved.interval i).lo ∈ Finset.Ico base (base + size) :=
      Finset.mem_Ico.mpr ⟨by omega, by omega⟩
    refine Finset.disjoint_left.mp hDisjoint hPoint ?_
    rw [← Finset.mem_coe, hFilled.covers]
    exact ⟨i, hi, by omega, by omega⟩
  rcases hFilled.sound.add hFit hPos hAvoid with ⟨rgn', ret, hRun, hAdded⟩
  refine ⟨{ t.lmb with reserved := rgn' }, ret, ?_, ?_⟩
  · change lmbReserve w t.lmb base size = _
    unfold lmbReserve
    rw [hRun]
    rfl
  · intro hRet
    rcases hAdded hRet with ⟨hSound', hPos', hCover⟩
    refine ⟨hSound', hSound'.fits 0 hPos', ?_⟩
    change ((t.reserved ∪ _ : Finset Nat) : Set Nat) = rgn'.covered
    rw [hCover, Finset.coe_union, hFilled.covers, Finset.coe_Ico]

theorem Filled.free (hAllowed : t.Allowed w (.free base size)) :
    ∃ lmb' ret, t.call w (.free base size) = some (lmb', ret) ∧
        (0 ≤ ret → Filled w ⟨lmb', t.after (.free base size)⟩) := by
  rcases hAllowed with ⟨hFit, hIn⟩
  have hCovered : Set.Ico base (base + size) ⊆ t.lmb.reserved.covered := by
    rw [← hFilled.covers, ← Finset.coe_Ico]
    exact Finset.coe_subset.mpr hIn
  rcases lmbFree_eq hFilled.sound hFit hCovered with ⟨rgn', ret, hRun, hFreed⟩
  refine ⟨{ t.lmb with reserved := rgn' }, ret, hRun, ?_⟩
  intro hRet
  rcases hFreed hRet with ⟨hSound', hFirst, hCover⟩
  refine ⟨hSound', hFirst, ?_⟩
  change ((t.reserved \ _ : Finset Nat) : Set Nat) = rgn'.covered
  rw [hCover, Finset.coe_sdiff, hFilled.covers, Finset.coe_Ico]

/- An allowed call that starts afresh is safe. -/
theorem Filled.call {c : Call} (hAllowed : t.Allowed w c) (hAfresh : t.StartsAfresh w c) :
    ∃ lmb' ret, t.call w c = some (lmb', ret) ∧ (0 ≤ ret → Filled w ⟨lmb', t.after c⟩) := by
  cases c with
  | reserve base size =>
    rcases Nat.eq_zero_or_pos t.lmb.reserved.cnt with
      hCnt | hPos
    · rcases (hFilled.reserve_empty hAllowed.1 hCnt).1 hAfresh with ⟨lmb', hRun, hFilled'⟩
      exact ⟨lmb', 0, hRun, fun _ => hFilled'⟩
    · exact hFilled.reserve hAllowed hPos
  | free base size => exact hFilled.free hAllowed

end

theorem initial_call {c : Call} (hAllowed : (Tracked.initial lmb).Allowed w c) :
    (Tracked.initial lmb).StartsAfresh w c ∧
      ∃ lmb', (Tracked.initial lmb).call w c = some (lmb', 0) ∧
        Filled w ⟨lmb', (Tracked.initial lmb).after c⟩ := by
  cases c with
  | reserve base size => exact ⟨fun hCnt => absurd hCnt Nat.one_ne_zero, reserve_initial hAllowed.1⟩
  | free base size =>
    rcases hAllowed with ⟨hFit, hIn⟩
    have hPos := hFit.1
    have hBase := hIn (Finset.mem_Ico.mpr ⟨Nat.le_refl base, by omega⟩)
    exact absurd hBase (Finset.notMem_empty base)

----
-- Whole Runs
----

theorem step_eq_some_iff {t' : Tracked} {c : Call} :
    t.step w c = some t' ↔ t.Allowed w c ∧
        ∃ lmb' ret, t.call w c = some (lmb', ret) ∧ 0 ≤ ret ∧ t' = ⟨lmb', t.after c⟩ := by
  unfold Tracked.step
  constructor
  · intro hStep
    split at hStep
    · rename_i hAllowed
      split at hStep
      · rename_i lmb' ret hCall
        split at hStep
        · rename_i hRet
          cases hStep
          exact ⟨hAllowed, lmb', ret, hCall, hRet, rfl⟩
        · cases hStep
      · cases hStep
    · cases hStep
  · rintro ⟨hAllowed, lmb', ret, hCall, hRet, rfl⟩
    rw [if_pos hAllowed, hCall]
    exact if_pos hRet

/- In a run the table is sound once something is reserved. -/
theorem reachable_filled (hReach :
      (TransitionSystem.ofStep (Tracked.initial lmb)
        (Tracked.step w)).ReachableBy (Tracked.StartsAfresh w) t) :
    t = Tracked.initial lmb ∨ Filled w t := by
  refine hReach.invariant (I := fun s => s = Tracked.initial lmb ∨ Filled w s)
    (fun s hStart => Or.inl hStart) ?_
  intro s c s' hInv hAfresh hStep
  rcases step_eq_some_iff.mp hStep with ⟨hAllowed, lmb', ret, hCall, hRet, rfl⟩
  refine Or.inr ?_
  rcases hInv with rfl | hFilled
  · rcases (initial_call hAllowed).2 with ⟨lmb'', hCall', hFilled'⟩
    rw [hCall] at hCall'
    cases hCall'
    exact hFilled'
  · rcases hFilled.call hAllowed hAfresh with ⟨lmb'', ret', hCall', hFilled'⟩
    rw [hCall] at hCall'
    cases hCall'
    exact hFilled' hRet

/-
  In every run in which no reservation picks up a stale
  entry, every state but the first has a table of exactly the
  reserved addresses; and in each such state exactly the
  calls that meet this condition return and leave one.
-/
theorem lmb_reserved_set (w : Widths) (lmb : Lmb) (t : Tracked)
    (hReach :
      (TransitionSystem.ofStep (Tracked.initial lmb)
        (Tracked.step w)).ReachableBy (Tracked.StartsAfresh w) t) :
    (ReservedTable w t ↔ t ≠ Tracked.initial lmb) ∧ ∀ c, t.Allowed w c → (((t.call w c).isSome ∧
          ∀ t', t.step w c = some t' → ReservedTable w t') ↔ t.StartsAfresh w c) := by
  have hInv := reachable_filled hReach
  refine ⟨?_, ?_⟩
  · constructor
    · rintro hTable rfl
      exact initial_not_table hTable
    · intro hNotStart
      exact (hInv.resolve_left hNotStart).table
  · intro c hAllowed
    have hKeeps :
        t.StartsAfresh w c →
          ∃ lmb' ret, t.call w c = some (lmb', ret) ∧ (0 ≤ ret → Filled w ⟨lmb', t.after c⟩) := by
      intro hAfresh
      rcases hInv with rfl | hFilled
      · rcases (initial_call hAllowed).2 with ⟨lmb', hCall, hFilled'⟩
        exact ⟨lmb', 0, hCall, fun _ => hFilled'⟩
      · exact hFilled.call hAllowed hAfresh
    constructor
    · rintro ⟨hReturns, hTable⟩
      rcases hInv with rfl | hFilled
      · exact (initial_call hAllowed).1
      cases c with
      | free base size => trivial
      | reserve base size =>
        by_cases hCnt : t.lmb.reserved.cnt = 0
        · rcases Option.isSome_iff_exists.mp hReturns with ⟨⟨lmb', ret⟩, hCall⟩
          have hStale := hFilled.reserve_empty hAllowed.1 hCnt
          by_contra hNot
          -- a call on a table without regions returns zero
          have hRet : ret = 0 := by
            change lmbReserve w t.lmb base size = _ at hCall
            unfold lmbReserve at hCall
            rw [lmbAddRegion_empty hCnt] at hCall
            split at hCall
            · cases hCall
            · cases hCall
              rfl
          refine hNot (hStale.2 lmb' ret hCall (hTable _ ?_))
          rw [step_eq_some_iff]
          exact ⟨hAllowed, lmb', ret, hCall, by omega, rfl⟩
        · exact fun hZero => absurd hZero hCnt
    · intro hAfresh
      rcases hKeeps hAfresh with ⟨lmb', ret, hCall, hFilled'⟩
      refine ⟨by rw [hCall]; rfl, ?_⟩
      intro t' hStep
      rcases step_eq_some_iff.mp hStep with ⟨-, lmb'', ret', hCall', hRet, rfl⟩
      rw [hCall] at hCall'
      cases hCall'
      exact (hFilled' hRet).table

/- Widths of a 64-bit processor. -/
def wide : Widths where
  phys := 64
  long := 64
  long_ge := by decide

/- Memory that holds zeros. -/
def zeroed : Lmb where
  memory := ⟨0, 0, fun _ => ⟨0, 0⟩⟩
  reserved := ⟨0, 0, fun _ => ⟨0, 0⟩⟩

/- One range filled in between two, and a hole in the rest. -/
theorem lmb_reserved_set_hole :
    ∃ t : Tracked, (TransitionSystem.ofStep (Tracked.initial zeroed)
        (Tracked.step wide)).ReachableBy (Tracked.StartsAfresh wide) t ∧
      t.lmb.reserved.cnt = 2 ∧ (ReservedTable wide t ↔ t ≠ Tracked.initial zeroed) := by
  rcases TransitionSystem.exists_reachableBy (Tracked.step wide) (Tracked.StartsAfresh wide)
    (Tracked.initial zeroed) [.reserve 0x10 4, .reserve 0x18 4, .reserve 0x14 4, .free 0x12 2]
    (fun t => t.lmb.reserved.cnt = 2)
    (by decide +kernel) with ⟨t, hReach, hCnt⟩
  exact ⟨t, hReach, hCnt, (lmb_reserved_set wide zeroed t hReach).1⟩

/-
  Without any reservation every address counts as reserved;
  and after the last range has been freed a new one is lost
  and the old one comes back.
-/
theorem lmb_reserve_after_last_free :
    lmbIsReserved wide (lmbInit zeroed) 0x1000 = true ∧ ∃ t : Tracked,
        (TransitionSystem.ofStep (Tracked.initial zeroed) (Tracked.step wide)).Reachable t ∧
        (lmbIsReserved wide t.lmb 0x20 = false ∧ 0x20 ∈ t.reserved) ∧
        (lmbIsReserved wide t.lmb 0x10 = true ∧ 0x10 ∉ t.reserved) := by
  refine ⟨by decide +kernel, ?_⟩
  exact TransitionSystem.exists_reachableBy (Tracked.step wide) (fun _ _ => True)
    (Tracked.initial zeroed) [.reserve 0x10 4, .free 0x10 4, .reserve 0x20 4]
    (fun t =>
      (lmbIsReserved wide t.lmb 0x20 = false ∧ 0x20 ∈ t.reserved) ∧
      (lmbIsReserved wide t.lmb 0x10 = true ∧ 0x10 ∉ t.reserved))
    (by decide +kernel)

end Lmb

end Uboot
