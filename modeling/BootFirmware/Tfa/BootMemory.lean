import BootFirmware.Lib.TransitionSystem
import Mathlib.Algebra.Ring.Nat
import Mathlib.Data.Set.Lattice
import Mathlib.Order.CompletePartialOrder
import Mathlib.Order.Interval.Set.LinearOrder

/-
  The free memory that the boot stages hand out from.

  Ends are inclusive in the code, so a region may end at the
  top of the address space; here it is the half-open set of
  its addresses.

  The main results are:
    * `isMemFree_iff`
    * `reserveMem_spec`
    * `boot_memory_bookkeeping`
-/

namespace Tfa.BootMemory

variable {w : Nat}

----
-- The Code
----

/- `check_uptr_overflow`. -/
def checkUptrOverflow (ptr inc : BitVec w) : Bool :=
  decide (BitVec.allOnes w - inc < ptr)

/- `is_mem_free`. -/
def isMemFree (freeBase freeSize addr size : BitVec w) : Bool :=
  if size = 0 then true
  else if freeSize = 0 then false
  else if checkUptrOverflow freeBase (freeSize - 1) then false
  else if checkUptrOverflow addr (size - 1) then false
  else
    decide (freeBase ≤ addr) &&
      decide (addr + (size - 1) ≤ freeBase + (freeSize - 1))

inductive MemPos where
  | top
  | bottom

/- `choose_mem_pos`; `none` when an assertion fails. -/
def chooseMemPos (memStart memEnd submemStart submemEnd : BitVec w) :
    Option (MemPos × BitVec w) :=
  if memStart ≤ submemStart ∧ submemStart ≤ submemEnd ∧ submemEnd ≤ memEnd then
    if memEnd - submemEnd < submemStart - memStart then
      some (.top, memEnd - submemEnd)
    else
      some (.bottom, submemStart - memStart)
  else
    none

structure Region (w : Nat) where
  base : BitVec w
  size : BitVec w

/- `reserve_mem`; `none` when an assertion fails. -/
def reserveMem (free r : Region w) : Option (Region w) :=
  if isMemFree free.base free.size r.base r.size then
    if r.size = 0 then some free
    else
      (chooseMemPos free.base (free.base + (free.size - 1))
        r.base (r.base + (r.size - 1))).map fun
          | (.top, discard) => { free with size := free.size - (r.size + discard) }
          | (.bottom, discard) => ⟨r.base + r.size, free.size - (r.size + discard)⟩
  else
    none

----
-- Regions
----

/- The addresses of a region. -/
def Region.points (r : Region w) : Set Nat :=
  Set.Ico r.base.toNat (r.base.toNat + r.size.toNat)

def Region.NonWrapping (r : Region w) : Prop :=
  r.base.toNat + r.size.toNat ≤ 2 ^ w

section

variable {r free : Region w}

theorem one_le_toNat {x : BitVec w} (hPos : x ≠ 0) :
    1 ≤ x.toNat := by
  have hNe : x.toNat ≠ 0 := fun h => hPos (BitVec.eq_of_toNat_eq h)
  omega

theorem toNat_pred {x : BitVec w} (hPos : x ≠ 0) :
    (x - 1).toNat = x.toNat - 1 := by
  have hOne := one_le_toNat hPos
  have hUnit : (1 : BitVec w).toNat = 1 := by
    simp only [BitVec.ofNat_eq_ofNat, BitVec.toNat_ofNat]
    exact Nat.mod_eq_of_lt (by omega)
  rw [BitVec.toNat_sub_of_le (BitVec.le_def.mpr (by omega)), hUnit]

theorem Region.NonWrapping.last (hFits : r.NonWrapping) (hPos : r.size ≠ 0) :
    (r.base + (r.size - 1)).toNat = r.base.toNat + r.size.toNat - 1 := by
  have hOne := one_le_toNat hPos
  unfold NonWrapping at hFits
  rw [BitVec.toNat_add_of_lt (by rw [toNat_pred hPos]; omega), toNat_pred hPos]
  omega

theorem checkUptrOverflow_eq_false (hPos : r.size ≠ 0) :
    checkUptrOverflow r.base (r.size - 1) = false ↔ r.NonWrapping := by
  have hLe : r.size - 1 ≤ BitVec.allOnes w := by
    rw [BitVec.le_def, BitVec.toNat_allOnes, toNat_pred hPos]
    omega
  unfold checkUptrOverflow Region.NonWrapping
  rw [decide_eq_false_iff_not, BitVec.not_lt, BitVec.le_def,
    BitVec.toNat_sub_of_le hLe, BitVec.toNat_allOnes, toNat_pred hPos]
  omega

theorem isMemFree_iff (hPos : r.size ≠ 0) :
    isMemFree free.base free.size r.base r.size = true ↔
      free.NonWrapping ∧ r.NonWrapping ∧ r.points ⊆ free.points := by
  have hOne := one_le_toNat hPos
  unfold isMemFree
  rw [if_neg hPos]
  by_cases hFree : free.size = 0
  · rw [if_pos hFree]
    refine ⟨nofun, fun h => ?_⟩
    have hMem := h.2.2 (Set.left_mem_Ico.mpr (by omega))
    unfold Region.points at hMem
    rw [hFree] at hMem
    simp at hMem
  rw [if_neg hFree]
  rw [← checkUptrOverflow_eq_false hFree, ← checkUptrOverflow_eq_false hPos]
  cases hEnd : checkUptrOverflow free.base (free.size - 1) with
  | true => simp
  | false =>
    cases hLast : checkUptrOverflow r.base (r.size - 1) with
    | true => simp
    | false =>
      have hFits := ((checkUptrOverflow_eq_false hFree).mp hEnd).last hFree
      have hFits' := ((checkUptrOverflow_eq_false hPos).mp hLast).last hPos
      have hOne' := one_le_toNat hFree
      have hSub : r.points ⊆ free.points ↔ _ := Set.Ico_subset_Ico_iff (by omega)
      simp only [Bool.false_eq_true, if_false, Bool.and_eq_true, decide_eq_true_eq,
        BitVec.le_def, hFits, hFits', hSub, true_and]
      omega

theorem reserveMem_spec
    (hFits : free.NonWrapping) (hFree : isMemFree free.base free.size r.base r.size = true) :
    ∃ left, reserveMem free r = some left ∧ left.NonWrapping ∧
      left.points ⊆ free.points ∧ Disjoint left.points r.points := by
  unfold reserveMem
  rw [if_pos hFree]
  by_cases hPos : r.size = 0
  · rw [if_pos hPos]
    refine ⟨free, rfl, hFits, subset_rfl, ?_⟩
    simp [Region.points, hPos]
  rw [if_neg hPos]
  rcases (isMemFree_iff hPos).mp hFree with ⟨-, hFits', hSub⟩
  have hOne := one_le_toNat hPos
  rcases (Set.Ico_subset_Ico_iff (by omega)).mp hSub with ⟨hLow, hHigh⟩
  have hSome : free.size ≠ 0 := by
    intro h
    have hZero : free.size.toNat = 0 := by rw [h]; rfl
    omega
  have hEnd := hFits.last hSome
  have hLast := hFits'.last hPos
  have hBelow : r.base.toNat + r.size.toNat - 1 ≤ free.base.toNat + free.size.toNat - 1 := by omega
  have hTop := BitVec.toNat_sub_of_le
    (BitVec.le_def.mpr (hLast.trans_le (hBelow.trans_eq hEnd.symm)))
  have hBottom := BitVec.toNat_sub_of_le (BitVec.le_def.mpr hLow)
  -- what is taken off the size is within it
  have hLeft : ∀ discard : BitVec w, r.size.toNat + discard.toNat ≤ free.size.toNat →
        (free.size - (r.size + discard)).toNat =
          free.size.toNat - (r.size.toNat + discard.toNat) := by
    intro discard h
    have hAdd := BitVec.toNat_add_of_lt (x := r.size) (y := discard) (by omega)
    rw [BitVec.toNat_sub_of_le (BitVec.le_def.mpr (by omega)), hAdd]
  rw [chooseMemPos, if_pos ⟨BitVec.le_def.mpr hLow, BitVec.le_def.mpr (by omega),
    BitVec.le_def.mpr (by omega)⟩]
  generalize free.base + (free.size - 1) - (r.base + (r.size - 1)) = top at hTop ⊢
  generalize r.base - free.base = bottom at hBottom ⊢
  split
  · refine ⟨_, rfl, ?_⟩
    have hNew := hLeft top (by omega)
    simp only [Region.NonWrapping, Region.points, hNew]
    refine ⟨by omega, Set.Ico_subset_Ico (by omega) (by omega), ?_⟩
    exact Set.disjoint_left.mpr fun x h h' => by
      rw [Set.mem_Ico] at h h'
      omega
  · refine ⟨_, rfl, ?_⟩
    have hNew := hLeft bottom (by omega)
    by_cases hWrap : r.base.toNat + r.size.toNat = 2 ^ w
    -- what ends at the top leaves nothing
    · have hZero : (free.size - (r.size + bottom)).toNat = 0 := by omega
      simp only [Region.NonWrapping, Region.points, hZero, Nat.add_zero, Set.Ico_self]
      exact ⟨(r.base + r.size).isLt.le, Set.empty_subset _, Set.empty_disjoint _⟩
    have hNext := BitVec.toNat_add_of_lt (x := r.base) (y := r.size) (by omega)
    simp only [Region.NonWrapping, Region.points, hNew, hNext]
    refine ⟨by omega, Set.Ico_subset_Ico (by omega) (by omega), ?_⟩
    exact Set.disjoint_left.mpr fun x h h' => by
      rw [Set.mem_Ico] at h h'
      omega

end

----
-- Runs
----

/- The free region with all free and reserved ones before. -/
structure Books (w : Nat) where
  free : Region w
  earlier : List (Region w)
  reserved : List (Region w)

def Books.step (b : Books w) (r : Region w) : Option (Books w) :=
  (reserveMem b.free r).map fun left => ⟨left, b.free :: b.earlier, r :: b.reserved⟩

/- Every `reserve_mem` follows an `is_mem_free`. -/
abbrev Asked (b : Books w) (r : Region w) : Prop :=
  isMemFree b.free.base b.free.size r.base r.size = true

structure Books.Kept (b : Books w) : Prop where
  fits : b.free.NonWrapping
  within : ∀ r ∈ b.earlier, b.free.points ⊆ r.points
  apart : ∀ r ∈ b.reserved, Disjoint b.free.points r.points

theorem Books.Kept.step {b b' : Books w} {r : Region w}
    (hKept : b.Kept) (hAsked : Asked b r) (hStep : b.step r = some b') :
    b'.Kept := by
  rcases reserveMem_spec hKept.fits hAsked with ⟨left, hRun, hFits, hSub, hApart⟩
  unfold Books.step at hStep
  rw [hRun] at hStep
  cases hStep
  exact {
    fits := hFits
    within := List.forall_mem_cons.mpr ⟨hSub, fun r hr => hSub.trans (hKept.within r hr)⟩
    apart := List.forall_mem_cons.mpr ⟨hApart, fun r hr => (hKept.apart r hr).mono_left hSub⟩ }

theorem boot_memory_bookkeeping (start : Region w) (hStart : start.NonWrapping) :
    (∀ free r : Region w, r.size ≠ 0 → (isMemFree free.base free.size r.base r.size = true ↔
        free.NonWrapping ∧ r.NonWrapping ∧ r.points ⊆ free.points)) ∧
    ∀ b, (TransitionSystem.ofStep ⟨start, [], []⟩ Books.step).ReachableBy Asked b →
      b.Kept ∧ ∀ r, Asked b r → ∃ b', b.step r = some b' := by
  refine ⟨fun free r hPos => isMemFree_iff hPos, fun b hReach => ?_⟩
  have hKept : b.Kept := by
    refine hReach.invariant ?_ fun s r t hKept hAsked hStep => hKept.step hAsked hStep
    rintro s rfl
    exact ⟨hStart, nofun, nofun⟩
  refine ⟨hKept, fun r hAsked => ?_⟩
  rcases reserveMem_spec hKept.fits hAsked with ⟨left, hRun, -⟩
  exact ⟨_, congrArg (Option.map _) hRun⟩

/- The last page of the address space is free, and taken. -/
theorem boot_memory_bookkeeping_top :
    ∃ b, (TransitionSystem.ofStep ⟨⟨0xFFFFF000#32, 0x1000#32⟩, [], []⟩
        Books.step).ReachableBy Asked b ∧
      b.free.size = 0 ∧ b.Kept := by
  have hReach : (TransitionSystem.ofStep ⟨⟨0xFFFFF000#32, 0x1000#32⟩, [], []⟩
      Books.step).ReachableBy Asked ⟨⟨0#32, 0#32⟩, _, _⟩ :=
    .next (.start rfl) (l := ⟨0xFFFFF000#32, 0x1000#32⟩) (by decide) rfl
  have hFits : (⟨0xFFFFF000#32, 0x1000#32⟩ : Region 32).NonWrapping := by
    unfold Region.NonWrapping
    decide
  exact ⟨_, hReach, rfl, ((boot_memory_bookkeeping _ hFits).2 _ hReach).1⟩

end Tfa.BootMemory
