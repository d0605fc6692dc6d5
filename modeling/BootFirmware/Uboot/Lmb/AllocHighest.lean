import Mathlib.Data.Nat.Find
import BootFirmware.Uboot.Lmb.Alloc

/-
  The allocator of logical memory blocks finds the highest
  free block of the highest memory region that has one.

  Going below a reserved region skips no free block, in any
  order of the table.  The test for an overlap also counts
  empty regions strictly inside of a block, and so may turn
  down a block that is free.

  Key definitions include:
    * `Admissible` and `HighestAt`
    * `Masked`

  The main result is `lmb_alloc_base_highest`.
-/

----
-- Free Blocks
----

namespace Uboot.Lmb

/-
  A free block of a memory region below the limit.  A limit at
  the start of the region leaves no room, not even for an
  empty block.
-/
structure Admissible
    (lmb : Lmb)
    (size align maxAddr i b : Nat) : Prop where
  nonzero : b ≠ 0
  aligned : align ∣ b
  above : (lmb.memory.region i).base ≤ b
  inside : b + size ≤ (lmb.memory.region i).base + (lmb.memory.region i).size
  below : maxAddr ≠ 0 → (lmb.memory.region i).base < maxAddr ∧ b + size ≤ maxAddr
  free : ∀ x, b ≤ x → x < b + size → x ∉ lmb.reserved.covered

/- The highest one in the highest memory region with any. -/
def HighestAt (lmb : Lmb)
    (size align maxAddr i b : Nat) : Prop :=
  i < lmb.memory.cnt ∧ Admissible lmb size align maxAddr i b ∧ ∀ i' b', i' < lmb.memory.cnt →
      Admissible lmb size align maxAddr i' b' →
        (lmb.memory.region i').base < (lmb.memory.region i).base ∨ i' = i ∧ b' ≤ b

/-
  A reserved region that counts as overlapping a block without
  sharing a byte with it: one of the two is empty and lies
  strictly inside of the other.
-/
def Masked (reserved : LmbRegion)
    (b size : Nat) : Prop :=
  ∃ j, j < reserved.cnt ∧ ((reserved.region j).size = 0 ∨ size = 0) ∧
    (reserved.region j).base < b + size ∧ b < (reserved.region j).base + (reserved.region j).size

/- Regions that end below the end of the address space. -/
def NoWrap (w : Widths) (rgn : LmbRegion) : Prop :=
  ∀ i, i < rgn.cnt → (rgn.region i).base + (rgn.region i).size < 2 ^ w.phys

instance (w : Widths) (rgn : LmbRegion) : Decidable (NoWrap w rgn) :=
  inferInstanceAs (Decidable (∀ i, i < rgn.cnt → _))

section Highest

variable {w : Widths} {lmb : Lmb} {size k maxAddr i b : Nat}

/- The end of the blocks in a region without wrapping. -/
theorem topOf_facts (hMemory : NoWrap w lmb.memory) (hi : i < lmb.memory.cnt)
    (hRequest : maxAddr ≠ 0 → size ≤ maxAddr) (hSize : size ≤ (lmb.memory.region i).size) :
    topOf (lmb.memory.region i) maxAddr < 2 ^ w.phys ∧ size ≤ topOf (lmb.memory.region i) maxAddr ∧
      ∀ stop, stop ≤ topOf (lmb.memory.region i) maxAddr ↔
          stop ≤ (lmb.memory.region i).base + (lmb.memory.region i).size ∧
            (maxAddr ≠ 0 → stop ≤ maxAddr) := by
  have hEnd := hMemory i hi
  unfold topOf
  split
  · rename_i hZero
    refine ⟨hEnd, by omega, fun stop => ?_⟩
    exact ⟨fun h => ⟨h, fun h' => absurd hZero h'⟩, fun h => h.1⟩
  · rename_i hSome
    refine ⟨by omega, by omega, fun stop => ?_⟩
    rw [le_min_iff]
    exact and_congr_right fun _ => ⟨fun h _ => h, fun h => h hSome⟩

/- A block in the search ends where it may. -/
theorem le_first_iff {base b' : Nat}
    (hMemory : NoWrap w lmb.memory) (hi : i < lmb.memory.cnt) (hMax : maxAddr < 2 ^ w.phys)
    (hRequest : maxAddr ≠ 0 → size ≤ maxAddr)
    (hFirst : firstBase w (lmb.memory.region i) size (2 ^ k) maxAddr = some base)
    (hAligned : 2 ^ k ∣ b') :
    b' ≤ base ↔ b' + size ≤ topOf (lmb.memory.region i) maxAddr := by
  have hEnd := hMemory i hi
  have hSize := (firstBase_some hFirst).2.2.1
  have hTop := topOf_facts hMemory hi hRequest hSize
  exact le_firstBase_iff (by omega) (by omega) (by omega) hMax
    hTop.2.1 (Or.inl hTop.1) hFirst hAligned

/- A block that is taken is free, and no region masks it. -/
theorem Takeable.admissible (hTake : Takeable w lmb size k maxAddr i b)
    (hMemory : NoWrap w lmb.memory) (hReserved : NoWrap w lmb.reserved)
    (hi : i < lmb.memory.cnt) (hMax : maxAddr < 2 ^ w.phys)
    (hRequest : maxAddr ≠ 0 → size ≤ maxAddr) :
    Admissible lmb size (2 ^ k) maxAddr i b ∧ ¬ Masked lmb.reserved b size := by
  rcases hTake with ⟨base, hFirst, hOffer⟩
  rcases firstBase_some hFirst with ⟨-, -, hSize, hLimit⟩
  have hTop := topOf_facts hMemory hi hRequest hSize
  have hEnd := (le_first_iff hMemory hi hMax hRequest hFirst hOffer.aligned).mp hOffer.below
  have hBounds := (hTop.2.2 _).mp hEnd
  have hApart :
      ∀ j, j < lmb.reserved.cnt →
        ¬ (b < (lmb.reserved.region j).base + (lmb.reserved.region j).size ∧
            (lmb.reserved.region j).base < b + size) := by
    intro j hj
    have hMiss := passes_iff.mp hOffer.passes j hj
    have hMiss := of_decide_eq_false hMiss
    rwa [Widths.add_eq (hReserved j hj), Widths.add_eq (by omega)] at hMiss
  constructor
  · exact {
      nonzero := hOffer.nonzero
      aligned := hOffer.aligned
      above := hOffer.above
      inside := hBounds.1
      below := fun h => ⟨hLimit.resolve_left h, hBounds.2 h⟩
      free := by
        rintro x hLow hHigh ⟨j, hj, hFrom, hTo⟩
        change (lmb.reserved.region j).base ≤ x at hFrom
        change x < (lmb.reserved.region j).base + (lmb.reserved.region j).size at hTo
        exact hApart j hj ⟨by omega, by omega⟩
    }
  · rintro ⟨j, hj, -, hStart, hStop⟩
    exact hApart j hj ⟨hStop, hStart⟩

/- The search does not skip a free block, unless masked. -/
theorem Admissible.takeable (hBlock : Admissible lmb size (2 ^ k) maxAddr i b)
    (hMemory : NoWrap w lmb.memory) (hReserved : NoWrap w lmb.reserved)
    (hi : i < lmb.memory.cnt) (hMax : maxAddr < 2 ^ w.phys)
    (hRequest : maxAddr ≠ 0 → size ≤ maxAddr) (hSeen : ¬ Masked lmb.reserved b size) :
    Takeable w lmb size k maxAddr i b := by
  have hEnd := hMemory i hi
  have hAbove := hBlock.above
  have hInside := hBlock.inside
  have hSize : size ≤ (lmb.memory.region i).size := by omega
  have hLimit : maxAddr = 0 ∨ (lmb.memory.region i).base < maxAddr := by
    by_cases hAny : maxAddr = 0
    · exact Or.inl hAny
    · exact Or.inr (hBlock.below hAny).1
  have hFirst :=
    firstBase_eq (k := k) (Nat.le_of_lt hEnd)
      (show (lmb.memory.region i).base < 2 ^ w.phys by omega)
      (by omega) hMax hSize hLimit
  have hTop := topOf_facts hMemory hi hRequest hSize
  have hFits := (hTop.2.2 (b + size)).mpr ⟨hInside, fun h => (hBlock.below h).2⟩
  refine ⟨_, hFirst, ?_⟩
  exact {
    nonzero := hBlock.nonzero
    aligned := hBlock.aligned
    above := hAbove
    below := (le_first_iff hMemory hi hMax hRequest hFirst hBlock.aligned).mpr hFits
    passes := by
      refine passes_iff.mpr fun j hj => ?_
      unfold lmbAddrsOverlap
      rw [Widths.add_eq (hReserved j hj), Widths.add_eq (show b + size < 2 ^ w.phys by omega)]
      refine decide_eq_false ?_
      rintro ⟨hStop, hStart⟩
      by_cases hEmpty : (lmb.reserved.region j).size = 0 ∨ size = 0
      · exact hSeen ⟨j, hj, hEmpty, hStart, hStop⟩
      · refine hBlock.free (max b (lmb.reserved.region j).base) (Nat.le_max_left _ _) (by omega)
          ⟨j, hj, Nat.le_max_right _ _, ?_⟩
        change max b (lmb.reserved.region j).base <
          (lmb.reserved.region j).base + (lmb.reserved.region j).size
        omega
    in_range := by
      have hFirstEnd :=
        (le_first_iff hMemory hi hMax hRequest hFirst
          (firstBase_some hFirst).2.1).mp (Nat.le_refl _)
      exact Or.inr (Nat.lt_of_le_of_lt hFirstEnd hTop.1)
  }

/- A bounded property of numbers that holds somewhere. -/
theorem exists_highest
    {p : Nat → Prop} {bound : Nat} (hSome : ∃ n, p n) (hBound : ∀ n, p n → n ≤ bound) :
    ∃ n, p n ∧ ∀ m, p m → m ≤ n := by
  classical
  rcases hSome with ⟨n, hn⟩
  exact ⟨Nat.findGreatest p bound, Nat.findGreatest_spec (hBound n hn) hn,
    fun m hm => Nat.le_findGreatest (hBound m hm) hm⟩

theorem exists_highestAt (hSorted :
      ∀ i j, i < j → j < lmb.memory.cnt → (lmb.memory.region i).base < (lmb.memory.region j).base)
    (hi : i < lmb.memory.cnt) (hBlock : Admissible lmb size (2 ^ k) maxAddr i b) :
    ∃ i b, HighestAt lmb size (2 ^ k) maxAddr i b := by
  rcases exists_highest
      (p := fun i => i < lmb.memory.cnt ∧ ∃ b, Admissible lmb size (2 ^ k) maxAddr i b)
      ⟨i, hi, b, hBlock⟩ (fun n h => Nat.le_of_lt h.1) with
    ⟨last, ⟨hLast, hSome⟩, hNone⟩
  rcases exists_highest hSome fun n h =>
      (Nat.le_add_right n size).trans h.inside with
    ⟨top, hTop, hMost⟩
  refine ⟨last, top, hLast, hTop, ?_⟩
  intro i' b' hi' hBlock'
  have hLe := hNone i' ⟨hi', b', hBlock'⟩
  by_cases hSame : i' = last
  · subst hSame
    exact Or.inr ⟨rfl, hMost b' hBlock'⟩
  · exact Or.inl (hSorted i' last (by omega) hLast)

/- A table with some regions, and room, takes every block. -/
theorem lmbAddRegion_accepts
    {rgn : LmbRegion} {s : Nat} (hPos : 0 < rgn.cnt) (hCnt : rgn.cnt < maxLmbRegions) :
    ∃ rgn' ret, lmbAddRegion w rgn b s = some (rgn', ret) ∧ 0 ≤ ret := by
  have hPred : w.pred rgn.cnt = rgn.cnt - 1 := Widths.pred_eq hPos (Nat.le_of_lt hCnt)
  unfold lmbAddRegion
  by_cases hDummy : rgn.cnt = 1 ∧ (rgn.region 0).size = 0
  · rw [if_pos hDummy]
    exact ⟨_, _, rfl, Int.le_refl 0⟩
  rw [if_neg hDummy]
  generalize rgn.scan (meets w b s) = j
  dsimp only
  by_cases hj : j < rgn.cnt
  swap
  · rw [if_neg fun h => hj h.1, if_neg hj, if_neg hj, hPred,
      if_neg (by omega), if_neg (not_not.mpr rfl),
      if_neg (by omega)]
    exact ⟨_, _, rfl, Int.le_refl 0⟩
  by_cases hSame : rgn.region j = ⟨b, s⟩
  · rw [if_pos ⟨hj, hSame⟩]
    exact ⟨_, _, rfl, Int.le_refl 0⟩
  rw [if_neg fun h => hSame h.2, if_pos hj, if_pos hj]
  have hExtend : (extendRegion w rgn j b s).cnt = rgn.cnt := by
    unfold extendRegion
    dsimp only
    split <;> rfl
  rw [hExtend, hPred]
  by_cases hJoin : j < rgn.cnt - 1 ∧ lmbRegionsAdjacent w (extendRegion w rgn j b s) j (j + 1) ≠ 0
  · rw [if_pos hJoin]
    unfold lmbCoalesceRegions
    dsimp only
    generalize hJoined : (extendRegion w rgn j b s).set j _ = joined
    have hSameCnt : joined.cnt = rgn.cnt := by
      rw [← hJoined]
      exact hExtend
    rcases lmbRemoveRegion_eq w (show j + 1 < joined.cnt by omega) (by omega) with
      ⟨rgn', hRemove, -⟩
    rw [hRemove]
    exact ⟨_, _, rfl, by decide⟩
  · rw [if_neg hJoin, if_pos (by decide)]
    exact ⟨_, _, rfl, by decide⟩

----
-- Completeness
----

/-
  The search returns 0 only if there is no free block, and
  else the highest one, exactly if the highest free block is
  not masked and, where the table has no regions, the two
  stale entries at its start are not adjacent.
-/
theorem lmb_alloc_base_highest (w : Widths) (lmb : Lmb) (size k maxAddr : Nat)
    (hSorted :
      ∀ i j, i < j → j < lmb.memory.cnt → (lmb.memory.region i).base < (lmb.memory.region j).base)
    (hMemory : NoWrap w lmb.memory) (hReserved : NoWrap w lmb.reserved)
    (hCnt : lmb.reserved.cnt < maxLmbRegions)
    (hSizeLt : size < 2 ^ w.phys) (hMax : maxAddr < 2 ^ w.phys)
    (hRequest : maxAddr ≠ 0 → size ≤ maxAddr) :
    (∃ lmb' base, lmbAllocBase w lmb size (2 ^ k) maxAddr = some (lmb', base) ∧
        (base = 0 → ∀ i b, i < lmb.memory.cnt → ¬ Admissible lmb size (2 ^ k) maxAddr i b) ∧
        (base ≠ 0 → ∃ i, HighestAt lmb size (2 ^ k) maxAddr i base)) ↔
      ∀ i b, HighestAt lmb size (2 ^ k) maxAddr i b → ¬ Masked lmb.reserved b size ∧
          (lmb.reserved.cnt = 0 → lmbRegionsAdjacent w lmb.reserved 0 1 = 0) := by
  have hBases : ∀ j, j < lmb.reserved.cnt → (lmb.reserved.region j).base < 2 ^ w.phys :=
    fun j hj => Nat.lt_of_le_of_lt (Nat.le_add_right _ _) (hReserved j hj)
  have hFound :
      HighestOf (Takeable w lmb size k maxAddr) lmb.memory.cnt
        (findBase w lmb size (2 ^ k) maxAddr lmb.memory.cnt) :=
    findBase_highest hBases hSizeLt lmb.memory.cnt
  unfold lmbAllocBase
  cases hFind : findBase w lmb size (2 ^ k) maxAddr lmb.memory.cnt with
  | none =>
    rw [hFind] at hFound
    constructor
    · rintro ⟨lmb', base, hEq, hNone, -⟩ i b hHighest
      cases hEq
      exact absurd hHighest.2.1 (hNone rfl i b hHighest.1)
    · intro hSeen
      refine ⟨lmb, 0, rfl, fun _ i b hi hBlock => ?_, fun h => absurd rfl h⟩
      rcases exists_highestAt hSorted hi hBlock with ⟨i', b', hHighest⟩
      exact hFound i' b' hHighest.1
        (hHighest.2.1.takeable hMemory hReserved hHighest.1 hMax hRequest (hSeen i' b' hHighest).1)
  | some base =>
    rw [hFind] at hFound
    rcases hFound with ⟨i, hi, hTake, hMost⟩
    rcases hTake.admissible hMemory hReserved hi hMax hRequest with ⟨hBlock, hSeen⟩
    dsimp only
    constructor
    · rintro ⟨lmb', base', hAlloc, hNone, hSome⟩ i' b' hHighest
      rcases Option.map_eq_some_iff.mp hAlloc with ⟨⟨rgn, ret⟩, hAdd, hEq⟩
      have hNonzero : base' ≠ 0 := fun hZero => hNone hZero i base hi hBlock
      have hSame : base' = base := by
        have hValue := congrArg Prod.snd hEq
        dsimp only at hValue
        by_cases hRet : ret < 0
        · rw [if_pos hRet] at hValue
          exact absurd hValue.symm hNonzero
        · rw [if_neg hRet] at hValue
          exact hValue.symm
      subst hSame
      rcases hSome hNonzero with ⟨j, hAt⟩
      -- there is only one highest block
      have hThere := hAt.2.2 i' b' hHighest.1 hHighest.2.1
      have hBack := hHighest.2.2 j base' hAt.1 hAt.2.1
      have hOne : b' = base' := by
        rcases hThere with hUp | ⟨rfl, hLe⟩
        · rcases hBack with hDown | ⟨rfl, -⟩
          · omega
          · exact absurd hUp (Nat.lt_irrefl _)
        · have hGe := hBack.resolve_left (Nat.lt_irrefl _)
          omega
      subst hOne
      refine ⟨hSeen, fun hEmpty => ?_⟩
      rw [lmbAddRegion_empty hEmpty] at hAdd
      by_contra hStale
      rw [if_pos hStale] at hAdd
      cases hAdd
    · intro hCond
      rcases exists_highestAt hSorted hi hBlock with ⟨i', b', hHighest⟩
      rcases hCond i' b' hHighest with ⟨hClear, hStale⟩
      have hTake' := hHighest.2.1.takeable hMemory hReserved hHighest.1 hMax hRequest hClear
      have hBelow := hMost i' b' hHighest.1 hTake'
      have hAbove := hHighest.2.2 i base hi hBlock
      have hSame : i' = i ∧ b' = base := by
        rcases hBelow with hBefore | ⟨rfl, hLe⟩
        · have hOrder := hSorted i' i hBefore hi
          omega
        · exact ⟨rfl, by omega⟩
      rcases hSame with ⟨rfl, rfl⟩
      have hAccepts :
          ∃ rgn ret, lmbAddRegion w lmb.reserved b' (lmbAlignUp w size (2 ^ k)) =
              some (rgn, ret) ∧ 0 ≤ ret := by
        by_cases hEmpty : lmb.reserved.cnt = 0
        · rw [lmbAddRegion_empty hEmpty, if_neg (not_not.mpr (hStale hEmpty))]
          exact ⟨_, _, rfl, Int.le_refl 0⟩
        · exact lmbAddRegion_accepts (Nat.pos_of_ne_zero hEmpty) hCnt
      rcases hAccepts with ⟨rgn, ret, hAdd, hRet⟩
      rw [hAdd, Option.map_some]
      dsimp only
      rw [if_neg (Int.not_lt.mpr hRet)]
      exact ⟨_, b', rfl, fun h => absurd h hHighest.2.1.nonzero, fun _ => ⟨i', hHighest⟩⟩

/- Memory with a hole, and two reserved pages at its top. -/
def splitMemory : Lmb where
  memory :=
    ⟨2, 0, fun i =>
      if i = 0 then ⟨0x1000, 0x4000⟩ else ⟨0x8000, 0x3000⟩⟩
  reserved := ⟨1, 0, fun _ => ⟨0x9000, 0x2000⟩⟩

theorem splitMemory_sorted :
    ∀ i j, i < j → j < splitMemory.memory.cnt →
      (splitMemory.memory.region i).base < (splitMemory.memory.region j).base := by
  intro i j hij hj
  change j < 2 at hj
  rw [show i = 0 by omega, show j = 1 by omega]
  decide

/- No region of the table is empty. -/
theorem lmb_alloc_base_highest_split :
    ∃ lmb' base, lmbAllocBase wide splitMemory 0x2000 (2 ^ 12) 0 = some (lmb', base) ∧
        (base = 0 → ∀ i b, i < splitMemory.memory.cnt →
          ¬ Admissible splitMemory 0x2000 (2 ^ 12) 0 i b) ∧
        (base ≠ 0 → ∃ i, HighestAt splitMemory 0x2000 (2 ^ 12) 0 i base) :=
  (lmb_alloc_base_highest wide splitMemory 0x2000 12 0
    splitMemory_sorted (by decide) (by decide) (by decide) (by decide)
    (by decide) (by decide)).mpr fun _ _ _ =>
      ⟨fun hMasked => by
        rcases hMasked with ⟨j, -, hEmpty, -⟩
        exact absurd hEmpty (by
          change ¬ ((0x2000 : Nat) = 0 ∨ (0x2000 : Nat) = 0)
          decide),
        by decide⟩

/- Memory in which the one reserved region is empty. -/
def emptyReserved : Lmb where
  memory := ⟨1, 0, fun _ => ⟨0x1000, 0x2000⟩⟩
  reserved := ⟨1, 0, fun _ => ⟨0x2000, 0⟩⟩

/- No block is found that has it in the middle. -/
theorem lmb_alloc_base_skips_free_block :
    NoWrap wide emptyReserved.memory ∧ NoWrap wide emptyReserved.reserved ∧
      (lmbAllocBase wide emptyReserved 0x2000 (2 ^ 12) 0).map Prod.snd = some 0 ∧
      Admissible emptyReserved 0x2000 (2 ^ 12) 0 0 0x1000 := by
  refine ⟨by decide, by decide, by decide +kernel,
    ⟨by decide, by decide, by decide, by decide, by decide, ?_⟩⟩
  rintro x - - ⟨j, -, hFrom, hTo⟩
  exact absurd (Nat.lt_of_le_of_lt hFrom hTo) (Nat.lt_irrefl 0x2000)

end Highest

end Uboot.Lmb
