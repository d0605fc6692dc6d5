import BootFirmware.Uboot.Lmb.ReservedSet

/-
  Allocating from the logical memory blocks.

  The search goes down from the top of each memory region, and
  below the first reserved region that its block overlaps.
  Where the end of a region or of a block is the end of the
  address space, it wraps to 0 in the test for an overlap.

  Key definitions include:
    * `lmbOverlapsRegion`
    * `searchDown` and `findBase`
    * `lmbAllocBase`
    * `Offer` and `Takeable`

  The main results are:
    * `searchDown_highest`
    * `findBase_highest`
-/

----
-- The Code
----

namespace Uboot

/- `lmb_addrs_overlap`. -/
def lmbAddrsOverlap (w : Widths)
    (base1 size1 base2 size2 : Nat) : Bool :=
  base1 < w.add base2 size2 ∧ base2 < w.add base1 size1

/- `lmb_overlaps_region`. -/
def lmbOverlapsRegion (w : Widths) (rgn : LmbRegion)
    (base size : Nat) : Int :=
  let i := rgn.scan fun r => lmbAddrsOverlap w base size r.base r.size
  if i < rgn.cnt then i else -1

/- `~n` in a word. -/
def complement (bits n : Nat) : Nat :=
  2 ^ bits - 1 - n % 2 ^ bits

/- `lmb_align_down`; the alignment is a `phys_size_t`. -/
def lmbAlignDown (w : Widths) (addr size : Nat) : Nat :=
  addr &&& complement w.phys (w.sub (size % 2 ^ w.phys) 1)

/-
  `lmb_align_up`; the alignment is an `unsigned long`, and so
  is its complement.
-/
def lmbAlignUp (w : Widths) (addr size : Nat) : Nat :=
  ((addr + w.pred size) % 2 ^ max w.phys w.long &&& complement w.long (w.pred size)) % 2 ^ w.phys

/-
  The first block that `__lmb_alloc_base` looks at in a memory
  region, unless it goes on to the next one at once.
-/
def firstBase (w : Widths) (rgn : LmbProperty)
    (size align maxAddr : Nat) : Option Nat :=
  if rgn.size < size then
    none
  else if maxAddr = 0 then
    some (lmbAlignDown w (w.sub (w.add rgn.base rgn.size) size) align)
  else if rgn.base < maxAddr then
    let base := w.add rgn.base rgn.size
    let base := if base < rgn.base then 2 ^ w.phys - 1 else base
    let base := min base maxAddr
    some (lmbAlignDown w (w.sub base size) align)
  else
    none

/-
  The inner loop: the block it takes, if any.  Each round goes
  down, so that one more round than the base is enough.
-/
def searchDown (w : Widths) (reserved : LmbRegion)
    (lmbbase size align : Nat) : Nat → Nat → Option Nat
  | 0, _ => none
  | rounds + 1, base =>
    if base ≠ 0 ∧ lmbbase ≤ base then
      let j := lmbOverlapsRegion w reserved base size
      if j < 0 then
        some base
      else
        let resBase := (reserved.region j.toNat).base
        if resBase < size then
          none
        else
          searchDown w reserved lmbbase size align rounds
            (lmbAlignDown w (w.sub resBase size) align)
    else
      none

/- The loop over the memory regions below an index. -/
def findBase (w : Widths) (lmb : Lmb)
    (size align maxAddr : Nat) : Nat → Option Nat
  | 0 => none
  | i + 1 =>
    let rgn := lmb.memory.region i
    let taken :=
      (firstBase w rgn size align maxAddr).bind fun base =>
        searchDown w lmb.reserved rgn.base size align (base + 1) base
    taken <|> findBase w lmb size align maxAddr i

/-
  `__lmb_alloc_base`: the tables, and the block taken or 0.
  There is no result where `lmb_add_region` has none.
-/
def lmbAllocBase (w : Widths) (lmb : Lmb)
    (size align maxAddr : Nat) : Option (Lmb × Nat) :=
  match findBase w lmb size align maxAddr lmb.memory.cnt with
  | none => some (lmb, 0)
  | some base =>
    (lmbAddRegion w lmb.reserved base
      (lmbAlignUp w size align)).map fun (rgn, ret) =>
        ({ lmb with reserved := rgn },
          if ret < 0 then 0 else base)

----
-- Alignment
----

/- The bits above the lowest `k`. -/
theorem and_sub_two_pow {n k addr : Nat} (hk : k ≤ n) (hAddr : addr < 2 ^ n) :
    addr &&& (2 ^ n - 2 ^ k) = addr / 2 ^ k * 2 ^ k := by
  have hPow : 2 ^ k ≤ 2 ^ n := Nat.pow_le_pow_right (by decide) hk
  have hOne : 0 < 2 ^ k := Nat.two_pow_pos k
  have hMask : 2 ^ n - 2 ^ k = 2 ^ n - (2 ^ k - 1 + 1) := by omega
  apply Nat.eq_of_testBit_eq
  intro i
  rw [Nat.testBit_and, hMask, Nat.testBit_two_pow_sub_succ (by omega),
    Nat.testBit_two_pow_sub_one, Nat.testBit_mul_two_pow, Nat.testBit_div_two_pow]
  by_cases hLow : i < k
  · simp [hLow, Nat.not_le.mpr hLow]
  · have hLe := Nat.not_lt.mp hLow
    rw [show i - k + k = i by omega]
    by_cases hHigh : i < n
    · simp [hHigh, hLow, hLe]
    · have hNone : addr.testBit i = false :=
        Nat.testBit_lt_two_pow (Nat.lt_of_lt_of_le hAddr
          (Nat.pow_le_pow_right (by decide) (Nat.not_lt.mp hHigh)))
      simp [hNone]

section

variable (w : Widths) {addr k : Nat}

theorem lmbAlignDown_eq (hAddr : addr < 2 ^ w.phys) :
    lmbAlignDown w addr (2 ^ k) = addr / 2 ^ k * 2 ^ k := by
  have hOne : 0 < 2 ^ k := Nat.two_pow_pos k
  unfold lmbAlignDown complement
  by_cases hk : k < w.phys
  · have hPow : 2 ^ k < 2 ^ w.phys := Nat.pow_lt_pow_right (by decide) hk
    rw [Nat.mod_eq_of_lt hPow, Widths.sub_eq hOne hPow,
      Nat.mod_eq_of_lt (show 2 ^ k - 1 < 2 ^ w.phys by omega),
      show 2 ^ w.phys - 1 - (2 ^ k - 1) = 2 ^ w.phys - 2 ^ k by omega]
    exact and_sub_two_pow (Nat.le_of_lt hk) hAddr
  · have hDvd : 2 ^ w.phys ∣ 2 ^ k := Nat.pow_dvd_pow 2 (Nat.not_lt.mp hk)
    have hLt : addr < 2 ^ k :=
      Nat.lt_of_lt_of_le hAddr (Nat.pow_le_pow_right (by decide) (Nat.not_lt.mp hk))
    have hFull : w.sub 0 1 % 2 ^ w.phys = 2 ^ w.phys - 1 := by
      unfold Widths.sub
      rw [Nat.mod_mod, Nat.zero_add]
      by_cases hNarrow : 2 ^ w.phys = 1
      · rw [hNarrow]
      · rw [Nat.mod_eq_of_lt (show 1 < 2 ^ w.phys by omega), Nat.mod_eq_of_lt (by omega)]
    rw [Nat.mod_eq_zero_of_dvd hDvd, hFull, Nat.sub_self,
      Nat.and_zero, Nat.div_eq_of_lt hLt, Nat.zero_mul]

theorem le_lmbAlignDown_iff {addr base k : Nat} (hAddr : addr < 2 ^ w.phys) (hBase : 2 ^ k ∣ base) :
    base ≤ lmbAlignDown w addr (2 ^ k) ↔ base ≤ addr := by
  rw [lmbAlignDown_eq w hAddr]
  constructor
  · exact fun h => h.trans (Nat.div_mul_le_self _ _)
  · rcases hBase with ⟨n, rfl⟩
    intro h
    rw [Nat.mul_comm]
    refine Nat.mul_le_mul_right _ ?_
    exact (Nat.le_div_iff_mul_le (Nat.two_pow_pos k)).mpr (by rwa [Nat.mul_comm])

theorem lmbAlignDown_le (hAddr : addr < 2 ^ w.phys) :
    lmbAlignDown w addr (2 ^ k) ≤ addr := by
  rw [lmbAlignDown_eq w hAddr]
  exact Nat.div_mul_le_self _ _

theorem dvd_lmbAlignDown (hAddr : addr < 2 ^ w.phys) :
    2 ^ k ∣ lmbAlignDown w addr (2 ^ k) := by
  rw [lmbAlignDown_eq w hAddr]
  exact Nat.dvd_mul_left _ _

end

----
-- The Inner Loop
----

/-
  Regions that do not wrap; one may end where the address
  space does.
-/
structure LmbRegion.Bounded
    (w : Widths)
    (rgn : LmbRegion) : Prop where
  ends : ∀ i, i < rgn.cnt → (rgn.region i).base + (rgn.region i).size ≤ 2 ^ w.phys
  base_lt : ∀ i, i < rgn.cnt → (rgn.region i).base < 2 ^ w.phys
  size_lt : ∀ i, i < rgn.cnt → (rgn.region i).size < 2 ^ w.phys
  cnt_le : rgn.cnt ≤ maxLmbRegions

namespace Lmb

/- No region overlaps a block, as the code tests it. -/
def Passes (w : Widths) (rgn : LmbRegion)
    (base size : Nat) : Prop :=
  lmbOverlapsRegion w rgn base size < 0

instance
    (w : Widths) (rgn : LmbRegion) (base size : Nat) :
    Decidable (Passes w rgn base size) :=
  inferInstanceAs (Decidable (_ < _))

section Search

variable {w : Widths} {rgn : LmbRegion} {base size k lmbbase : Nat}

theorem passes_iff :
    Passes w rgn base size ↔ ∀ j, j < rgn.cnt →
        lmbAddrsOverlap w base size (rgn.region j).base (rgn.region j).size = false := by
  have hScan :
      (rgn.scan fun r => lmbAddrsOverlap w base size r.base r.size) = rgn.cnt ↔ ∀ j, j < rgn.cnt →
        lmbAddrsOverlap w base size (rgn.region j).base (rgn.region j).size = false :=
    LmbRegion.scan_eq_cnt_iff
  rw [← hScan]
  have hLe := rgn.scan_le fun r => lmbAddrsOverlap w base size r.base r.size
  unfold Passes lmbOverlapsRegion
  dsimp only
  split <;> omega

/- The region that the search goes below. -/
theorem overlapsRegion_of_not_passes (hNot : ¬ Passes w rgn base size) :
    ∃ j : Nat, j < rgn.cnt ∧ lmbOverlapsRegion w rgn base size = (j : Int) ∧
      (rgn.region j).base < w.add base size ∧
      base < w.add (rgn.region j).base (rgn.region j).size := by
  unfold Passes at hNot
  generalize hScan : (rgn.scan fun r => lmbAddrsOverlap w base size r.base r.size) = j
  have hValue :
      lmbOverlapsRegion w rgn base size =
        if j < rgn.cnt then (j : Int) else -1 := by
    unfold lmbOverlapsRegion
    rw [hScan]
  rw [hValue] at hNot ⊢
  by_cases hj : j < rgn.cnt
  · have hHit := ((LmbRegion.scan_eq_iff hj).mp hScan).1
    have hHit := of_decide_eq_true hHit
    exact ⟨j, hj, if_pos hj, hHit.2, hHit.1⟩
  · rw [if_neg hj] at hNot
    exact absurd (by decide) hNot

/-
  The blocks that the search comes to from `base`: where the
  first one ends beyond the address space, there is no other.
-/
structure Offer
    (w : Widths) (reserved : LmbRegion)
    (lmbbase size k base b : Nat) : Prop where
  nonzero : b ≠ 0
  aligned : 2 ^ k ∣ b
  above : lmbbase ≤ b
  below : b ≤ base
  passes : Passes w reserved b size
  in_range : b = base ∨ base + size < 2 ^ w.phys

/- What a search has to find. -/
def Highest (offer : Nat → Prop) : Option Nat → Prop
  | none => ∀ b, ¬ offer b
  | some b => offer b ∧ ∀ b', offer b' → b' ≤ b

/- Blocks between two rounds overlap the same region. -/
theorem not_passes_between
    {j b : Nat} (hj : j < rgn.cnt) (hStop : base < w.add (rgn.region j).base (rgn.region j).size)
    (hTop : base + size < 2 ^ w.phys) (hBelow : b ≤ base)
    (hReach : (rgn.region j).base < b + size) :
    ¬ Passes w rgn b size := by
  intro hPasses
  have hMiss := passes_iff.mp hPasses j hj
  have hMiss := of_decide_eq_false hMiss
  refine hMiss ⟨Nat.lt_of_le_of_lt hBelow hStop, ?_⟩
  rwa [Widths.add_eq (by omega)]

theorem searchDown_highest (hReserved : ∀ j, j < rgn.cnt → (rgn.region j).base < 2 ^ w.phys)
    (hSize : size < 2 ^ w.phys) (rounds : Nat) (hRounds : base < rounds)
    (hBase : base < 2 ^ w.phys) (hAligned : 2 ^ k ∣ base) :
    Highest (Offer w rgn lmbbase size k base)
      (searchDown w rgn lmbbase size (2 ^ k) rounds base) := by
  induction rounds generalizing base with
  | zero => exact absurd hRounds (Nat.not_lt_zero _)
  | succ rounds ih =>
    unfold searchDown
    by_cases hEnter : base ≠ 0 ∧ lmbbase ≤ base
    swap
    · rw [if_neg hEnter]
      intro b hOffer
      have hNonzero := hOffer.nonzero
      have hAbove := hOffer.above
      have hBelow := hOffer.below
      omega
    rw [if_pos hEnter]
    by_cases hPasses : Passes w rgn base size
    · rw [if_pos
        (show lmbOverlapsRegion w rgn base size < 0 from hPasses)]
      exact ⟨⟨hEnter.1, hAligned, hEnter.2, Nat.le_refl _,
        hPasses, Or.inl rfl⟩, fun b' h => h.below⟩
    rcases overlapsRegion_of_not_passes hPasses with ⟨j, hj, hIndex, hStart, hStop⟩
    have hOthers :
        ∀ b, Offer w rgn lmbbase size k base b →
          base + size < 2 ^ w.phys ∧ b + size ≤ (rgn.region j).base := by
      intro b hOffer
      have hTop : base + size < 2 ^ w.phys := by
        refine hOffer.in_range.resolve_left ?_
        rintro rfl
        exact hPasses hOffer.passes
      refine ⟨hTop, Nat.not_lt.mp fun hReach => ?_⟩
      exact not_passes_between hj hStop hTop hOffer.below hReach hOffer.passes
    have hResLt := hReserved j hj
    rw [if_neg
      (show ¬ lmbOverlapsRegion w rgn base size < 0 from hPasses), hIndex, Int.toNat_natCast]
    by_cases hLow : (rgn.region j).base < size
    · rw [if_pos hLow]
      intro b hOffer
      have hEnd := (hOthers b hOffer).2
      omega
    rw [if_neg hLow, Widths.sub_eq (Nat.not_lt.mp hLow) hResLt]
    have hTop : base + size < 2 ^ w.phys := by
      -- else the wrapped end would be below the size
      by_contra hWrap
      have hMod : w.add base size = base + size - 2 ^ w.phys := by
        unfold Widths.add
        rw [Nat.mod_eq_sub_mod (Nat.not_lt.mp hWrap), Nat.mod_eq_of_lt (by omega)]
      omega
    rw [Widths.add_eq hTop] at hStart
    have hDiff : (rgn.region j).base - size < 2 ^ w.phys := by omega
    have hNextLe := lmbAlignDown_le w (k := k) hDiff
    have hNext :
        Highest (Offer w rgn lmbbase size k (lmbAlignDown w ((rgn.region j).base - size) (2 ^ k)))
          (searchDown w rgn lmbbase size (2 ^ k) rounds
            (lmbAlignDown w ((rgn.region j).base - size) (2 ^ k))) :=
      ih (by omega) (by omega) (dvd_lmbAlignDown w hDiff)
    have hSame :
        ∀ b, Offer w rgn lmbbase size k (lmbAlignDown w ((rgn.region j).base - size) (2 ^ k)) b ↔
            Offer w rgn lmbbase size k base b := by
      intro b
      constructor
      · intro h
        have hBelow := h.below
        exact ⟨h.nonzero, h.aligned, h.above, by omega, h.passes, Or.inr hTop⟩
      · intro h
        have hEnd := (hOthers b h).2
        exact ⟨h.nonzero, h.aligned, h.above,
          (le_lmbAlignDown_iff w hDiff h.aligned).mpr (by omega), h.passes, Or.inr (by omega)⟩
    unfold Highest at hNext ⊢
    simpa only [hSame] using hNext

end Search

----
-- The Memory Regions
----

/- Where a block in a memory region has to end. -/
def topOf (rgn : LmbProperty) (maxAddr : Nat) : Nat :=
  if maxAddr = 0 then rgn.base + rgn.size
  else min (rgn.base + rgn.size) maxAddr

/- A block that the search may take from a memory region. -/
def Takeable (w : Widths) (lmb : Lmb)
    (size k maxAddr i b : Nat) : Prop :=
  ∃ base, firstBase w (lmb.memory.region i) size (2 ^ k) maxAddr = some base ∧
      Offer w lmb.reserved (lmb.memory.region i).base size k base b

section Regions

variable {w : Widths} {lmb : Lmb} {rgn : LmbProperty} {base size k maxAddr : Nat}

/- The limit is a word, as is the end of a block below it. -/
theorem firstBase_eq (hEnd : rgn.base + rgn.size ≤ 2 ^ w.phys)
    (hBase : rgn.base < 2 ^ w.phys) (hSizeLt : rgn.size < 2 ^ w.phys)
    (hMax : maxAddr < 2 ^ w.phys) (hSize : size ≤ rgn.size)
    (hLimit : maxAddr = 0 ∨ rgn.base < maxAddr) :
    firstBase w rgn size (2 ^ k) maxAddr =
      some (lmbAlignDown w (w.sub (topOf rgn maxAddr % 2 ^ w.phys) size) (2 ^ k)) := by
  unfold firstBase topOf
  rw [if_neg (Nat.not_lt.mpr hSize)]
  by_cases hAny : maxAddr = 0
  · rw [if_pos hAny, if_pos hAny]
    rfl
  have hBelow := hLimit.resolve_left hAny
  rw [if_neg hAny, if_neg hAny, if_pos hBelow]
  dsimp only
  -- an end that wraps is above every limit
  have hMin :
      min
          (if w.add rgn.base rgn.size < rgn.base then
            2 ^ w.phys - 1
          else w.add rgn.base rgn.size)
          maxAddr =
        min (rgn.base + rgn.size) maxAddr % 2 ^ w.phys := by
    rw [Nat.mod_eq_of_lt (Nat.lt_of_le_of_lt (Nat.min_le_right _ _) hMax)]
    by_cases hWrap : rgn.base + rgn.size = 2 ^ w.phys
    · have hZero : w.add rgn.base rgn.size = 0 := by
        unfold Widths.add
        rw [hWrap, Nat.mod_self]
      rw [hZero, if_pos (by omega)]
      omega
    · rw [Widths.add_eq (by omega), if_neg (by omega)]
  rw [hMin]

/- The search starts in a region from an aligned word. -/
theorem firstBase_some (hFirst : firstBase w rgn size (2 ^ k) maxAddr = some base) :
    base < 2 ^ w.phys ∧ 2 ^ k ∣ base ∧ size ≤ rgn.size ∧ (maxAddr = 0 ∨ rgn.base < maxAddr) := by
  have hSub : ∀ a, w.sub a size < 2 ^ w.phys := fun a => Nat.mod_lt _ (Nat.two_pow_pos w.phys)
  have hWord :
      ∀ a, lmbAlignDown w (w.sub a size) (2 ^ k) < 2 ^ w.phys ∧
          2 ^ k ∣ lmbAlignDown w (w.sub a size) (2 ^ k) :=
    fun a => ⟨Nat.lt_of_le_of_lt (lmbAlignDown_le w (hSub a)) (hSub a), dvd_lmbAlignDown w (hSub a)⟩
  unfold firstBase at hFirst
  split at hFirst
  · cases hFirst
  rename_i hSize
  have hSize := Nat.not_lt.mp hSize
  split at hFirst
  · rename_i hAny
    cases hFirst
    exact ⟨(hWord _).1, (hWord _).2, hSize, Or.inl hAny⟩
  split at hFirst
  · rename_i hBelow
    cases hFirst
    exact ⟨(hWord _).1, (hWord _).2, hSize, Or.inr hBelow⟩
  · cases hFirst

/- What the loop over the regions has to find. -/
def HighestOf (take : Nat → Nat → Prop)
    (n : Nat) : Option Nat → Prop
  | none => ∀ i b, i < n → ¬ take i b
  | some b => ∃ i, i < n ∧ take i b ∧ ∀ i' b', i' < n → take i' b' → i' < i ∨ i' = i ∧ b' ≤ b

/- The last region with such a block gives its highest one. -/
theorem findBase_highest
    (hReserved : ∀ j, j < lmb.reserved.cnt → (lmb.reserved.region j).base < 2 ^ w.phys)
    (hSize : size < 2 ^ w.phys) (n : Nat) :
    HighestOf (Takeable w lmb size k maxAddr) n (findBase w lmb size (2 ^ k) maxAddr n) := by
  induction n with
  | zero => exact fun i b hi => absurd hi (Nat.not_lt_zero i)
  | succ n ih =>
    unfold findBase
    dsimp only
    have hRest :
        (∀ b, ¬ Takeable w lmb size k maxAddr n b) →
          HighestOf (Takeable w lmb size k maxAddr) (n + 1)
            (findBase w lmb size (2 ^ k) maxAddr n) := by
      intro hNone
      cases hFound : findBase w lmb size (2 ^ k) maxAddr n with
      | none =>
        rw [hFound] at ih
        intro i b hi
        rcases Nat.lt_succ_iff_lt_or_eq.mp hi with hi | rfl
        · exact ih i b hi
        · exact hNone b
      | some b =>
        rw [hFound] at ih
        rcases ih with ⟨i, hi, hTake, hMost⟩
        refine ⟨i, Nat.lt_succ_of_lt hi, hTake, ?_⟩
        intro i' b' hi' hTake'
        rcases Nat.lt_succ_iff_lt_or_eq.mp hi' with hi' | rfl
        · exact hMost i' b' hi' hTake'
        · exact absurd hTake' (hNone b')
    cases hFirst : firstBase w (lmb.memory.region n) size (2 ^ k) maxAddr with
    | none =>
      refine hRest fun b hTake => ?_
      rcases hTake with ⟨base, hBase, -⟩
      rw [hFirst] at hBase
      cases hBase
    | some base =>
      rcases firstBase_some hFirst with ⟨hBase, hAligned, -⟩
      have hSearch :
          Highest (Offer w lmb.reserved (lmb.memory.region n).base size k base)
            (searchDown w lmb.reserved (lmb.memory.region n).base size (2 ^ k) (base + 1) base) :=
        searchDown_highest hReserved hSize (base + 1) (Nat.lt_succ_self _) hBase hAligned
      rw [Option.bind_some]
      cases hDown :
          searchDown w lmb.reserved (lmb.memory.region n).base size (2 ^ k) (base + 1) base with
      | none =>
        rw [hDown] at hSearch
        refine hRest fun b hTake => ?_
        rcases hTake with ⟨base', hBase', hOffer⟩
        rw [hFirst] at hBase'
        cases hBase'
        exact hSearch b hOffer
      | some b =>
        rw [hDown] at hSearch
        refine ⟨n, Nat.lt_succ_self n, ⟨base, hFirst, hSearch.1⟩, ?_⟩
        rintro i' b' hi' ⟨base', hBase', hOffer⟩
        rcases Nat.lt_succ_iff_lt_or_eq.mp hi' with
          hi' | rfl
        · exact Or.inl hi'
        · rw [hFirst] at hBase'
          cases hBase'
          exact Or.inr ⟨rfl, hSearch.2 b' hOffer⟩

/- The first block is the highest that ends below the top. -/
theorem le_firstBase_iff {b : Nat} (hEnd : rgn.base + rgn.size ≤ 2 ^ w.phys)
    (hBase : rgn.base < 2 ^ w.phys) (hSizeLt : rgn.size < 2 ^ w.phys)
    (hMax : maxAddr < 2 ^ w.phys) (hFits : size ≤ topOf rgn maxAddr)
    (hWord : topOf rgn maxAddr < 2 ^ w.phys ∨ 1 ≤ size)
    (hFirst : firstBase w rgn size (2 ^ k) maxAddr = some base) (hAligned : 2 ^ k ∣ b) :
    b ≤ base ↔ b + size ≤ topOf rgn maxAddr := by
  rcases firstBase_some hFirst with ⟨-, -, hSize, hLimit⟩
  rw [firstBase_eq hEnd hBase hSizeLt hMax hSize hLimit] at hFirst
  cases hFirst
  have hTop : topOf rgn maxAddr ≤ 2 ^ w.phys := by
    unfold topOf
    split
    · exact hEnd
    · exact (Nat.min_le_left _ _).trans hEnd
  have hSub : w.sub (topOf rgn maxAddr % 2 ^ w.phys) size = topOf rgn maxAddr - size := by
    by_cases hFull : topOf rgn maxAddr = 2 ^ w.phys
    · unfold Widths.sub
      rw [hFull, Nat.mod_self, Nat.zero_add, Nat.mod_eq_of_lt (show size < 2 ^ w.phys by omega)]
      exact Nat.mod_eq_of_lt (by omega)
    · have hLt : topOf rgn maxAddr < 2 ^ w.phys := by omega
      rw [Nat.mod_eq_of_lt hLt, Widths.sub_eq hFits hLt]
  rw [hSub, le_lmbAlignDown_iff w (by omega) hAligned]
  omega

end Regions

end Lmb

end Uboot
