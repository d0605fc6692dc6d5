import BootFirmware.Uboot.Lmb.Alloc

/-
  Blocks that the allocator of logical memory blocks hands
  out.

  A block is free, below the limit and reserved afterwards,
  unless some arithmetic wraps: the end of a reserved region
  or of the block in the test for an overlap, a limit below
  the size, the size of regions that are joined, the size that
  is rounded up; or unless the table has no regions.

  Key definitions include:
    * `AllocatedBlock`
    * `Candidate` and `Chosen`
    * `Refused`, `Hidden` and `Reserving`

  The main results are:
    * `takeable_iff`
    * `lmbAddRegion_covers_iff`
    * `lmb_alloc_base_sound`
-/

----
-- Blocks
----

namespace Uboot.Lmb

open Function

/- A block as the caller wants to have it. -/
structure AllocatedBlock
    (lmb lmb' : Lmb)
    (size align maxAddr base : Nat) : Prop where
  aligned : align ∣ base
  inside :
    ∃ i, i < lmb.memory.cnt ∧ (lmb.memory.region i).base ≤ base ∧
      base + size ≤ (lmb.memory.region i).base + (lmb.memory.region i).size
  below : maxAddr ≠ 0 → base + size ≤ maxAddr
  free : ∀ x, base ≤ x → x < base + size → x ∉ lmb.reserved.covered
  reserved : ∀ x, base ≤ x → x < base + size → x ∈ lmb'.reserved.covered

/-
  Where a block may start at the most; this wraps where the
  limit is below the size.
-/
def lastStart (w : Widths) (rgn : LmbProperty)
    (size maxAddr : Nat) : Nat :=
  (topOf rgn maxAddr + (2 ^ w.phys - size)) % 2 ^ w.phys

/-
  An aligned block in a memory region, which no reserved
  region overlaps as long as an end at 2^w counts as 0.  Above
  it there is none that reaches the end of the address space.
-/
structure Candidate
    (w : Widths) (lmb : Lmb)
    (size align maxAddr i b : Nat) : Prop where
  room : size ≤ (lmb.memory.region i).size
  reach : maxAddr = 0 ∨ (lmb.memory.region i).base < maxAddr
  nonzero : b ≠ 0
  aligned : align ∣ b
  above : (lmb.memory.region i).base ≤ b
  below : b ≤ lastStart w (lmb.memory.region i) size maxAddr
  unseen : ∀ j, j < lmb.reserved.cnt →
    ¬ (b < ((lmb.reserved.region j).base + (lmb.reserved.region j).size) % 2 ^ w.phys ∧
      (lmb.reserved.region j).base < (b + size) % 2 ^ w.phys)
  highest : ∀ b', align ∣ b' → b < b' →
    b' ≤ lastStart w (lmb.memory.region i) size maxAddr → b' + size < 2 ^ w.phys

/- The highest one, in the last memory region with any. -/
def Chosen (w : Widths) (lmb : Lmb)
    (size align maxAddr i b : Nat) : Prop :=
  i < lmb.memory.cnt ∧ Candidate w lmb size align maxAddr i b ∧
    ∀ i' b', i' < lmb.memory.cnt → Candidate w lmb size align maxAddr i' b' →
      i' < i ∨ i' = i ∧ b' ≤ b

/-
  A reserved region with bytes of a block that the test for
  an overlap does not see.
-/
def Hidden (w : Widths) (reserved : LmbRegion)
    (b size : Nat) : Prop :=
  ∃ j, j < reserved.cnt ∧
    ((reserved.region j).base < b + size ∧ b < (reserved.region j).base + (reserved.region j).size ∧
      1 ≤ (reserved.region j).size) ∧
    ((reserved.region j).base + (reserved.region j).size = 2 ^ w.phys ∨ b + size = 2 ^ w.phys)

/- One region begins where the other one ends. -/
def Touches (w : Widths) (r r' : LmbProperty) : Prop :=
  r'.base = (r.base + r.size) % 2 ^ w.phys ∨ r.base = (r'.base + r'.size) % 2 ^ w.phys

instance (w : Widths) (r r' : LmbProperty) : Decidable (Touches w r r') :=
  inferInstanceAs (Decidable (_ ∨ _))

/- A region that a range of `s` bytes is joined with. -/
def NextTo (w : Widths) (r : LmbProperty) (b s : Nat) : Prop :=
  r = ⟨b, s⟩ ∨ Touches w ⟨b, s⟩ r

/- The table is full, and no region is next to the range. -/
def Refused (w : Widths) (rgn : LmbRegion)
    (b s : Nat) : Prop :=
  maxLmbRegions ≤ rgn.cnt ∧ ∀ j, j < rgn.cnt → ¬ NextTo w (rgn.region j) b s

/- A region and a range next to it; the size is a word. -/
def joined (w : Widths) (r : LmbProperty) (b s : Nat) : LmbProperty where
  base := if r.base = (b + s) % 2 ^ w.phys then b else r.base
  size := (r.size + s) % 2 ^ w.phys

/- The same with the region behind them, if that touches. -/
def absorbed (w : Widths) (rgn : LmbRegion)
    (b s i : Nat) : LmbProperty :=
  let r := joined w (rgn.region i) b s
  let next := rgn.region (i + 1)
  if i + 1 < rgn.cnt ∧ Touches w r next then
    ⟨r.base, (r.size + next.size) % 2 ^ w.phys⟩
  else r

/-
  The `s` bytes that are reserved for a block have the block
  in them.  Without a region it is the two stale entries that
  count, with an empty one the block takes its place, and else
  the first region that is next to it takes it in.
-/
def Reserving (w : Widths) (rgn : LmbRegion)
    (size b s : Nat) : Prop :=
  if rgn.cnt = 0 then
    ¬ Touches w (rgn.region 0) (rgn.region 1) ∧
      if b < (rgn.region 0).base then size ≤ s
      else b + size ≤ (rgn.region 0).base + (rgn.region 0).size
  else if rgn.cnt = 1 ∧ (rgn.region 0).size = 0 then size ≤ s
  else
    (∀ i, i < rgn.cnt → NextTo w (rgn.region i) b s → (∀ j, j < i → ¬ NextTo w (rgn.region j) b s) →
        rgn.region i ≠ ⟨b, s⟩ ∧
          b + size ≤ (absorbed w rgn b s i).base + (absorbed w rgn b s i).size) ∧
    ((∀ j, j < rgn.cnt → ¬ NextTo w (rgn.region j) b s) → size ≤ s)

theorem mem_covered_iff {rgn : LmbRegion} {x : Nat} :
    x ∈ rgn.covered ↔
      ∃ j, j < rgn.cnt ∧ (rgn.region j).base ≤ x ∧ x < (rgn.region j).base + (rgn.region j).size :=
  Iff.rfl

section Sound

variable {w : Widths} {lmb : Lmb} {size k maxAddr i b : Nat}

/- The blocks that the search may take. -/
theorem takeable_iff (hMemory : lmb.memory.Bounded w) (hi : i < lmb.memory.cnt)
    (hSizeLt : size < 2 ^ w.phys) (hMax : maxAddr < 2 ^ w.phys) :
    Takeable w lmb size k maxAddr i b ↔ Candidate w lmb size (2 ^ k) maxAddr i b := by
  have hLast : ∀ r, w.sub (topOf r maxAddr % 2 ^ w.phys) size = lastStart w r size maxAddr := by
    intro r
    unfold Widths.sub lastStart
    rw [Nat.mod_add_mod, Nat.mod_eq_of_lt hSizeLt]
  have hUnseen : Passes w lmb.reserved b size ↔ ∀ j, j < lmb.reserved.cnt →
      ¬ (b < ((lmb.reserved.region j).base + (lmb.reserved.region j).size) % 2 ^ w.phys ∧
        (lmb.reserved.region j).base < (b + size) % 2 ^ w.phys) := by
    rw [passes_iff]
    exact forall₂_congr fun j _ => decide_eq_false_iff_not
  have hLt : lastStart w (lmb.memory.region i) size maxAddr < 2 ^ w.phys :=
    Nat.mod_lt _ (Nat.two_pow_pos w.phys)
  have hFirst := fun (hSize : size ≤ (lmb.memory.region i).size) hLimit =>
    firstBase_eq (k := k) (hMemory.ends i hi) (hMemory.base_lt i hi) (hMemory.size_lt i hi) hMax
      hSize hLimit
  simp only [hLast] at hFirst
  have hDown := lmbAlignDown_le w (k := k) hLt
  have hDvd := dvd_lmbAlignDown w (k := k) hLt
  constructor
  · rintro ⟨base, hBase, hOffer⟩
    rcases firstBase_some hBase with ⟨-, -, hSize, hLimit⟩
    have hBelow := hOffer.below
    rw [hFirst hSize hLimit] at hBase
    cases hBase
    refine ⟨hSize, hLimit, hOffer.nonzero, hOffer.aligned, hOffer.above, hBelow.trans hDown,
      hUnseen.mp hOffer.passes, fun b' hAligned hAbove hLe => ?_⟩
    have hLe' := (le_lmbAlignDown_iff w hLt hAligned).mpr hLe
    have hRange := hOffer.in_range.resolve_left (by omega)
    omega
  · intro h
    refine ⟨_, hFirst h.room h.reach, h.nonzero, h.aligned, h.above,
      (le_lmbAlignDown_iff w hLt h.aligned).mpr h.below, hUnseen.mpr h.unseen, ?_⟩
    have hLe := (le_lmbAlignDown_iff w hLt h.aligned).mpr h.below
    rcases Nat.eq_or_lt_of_le hLe with hSame | hLess
    · exact Or.inl hSame
    · exact Or.inr (h.highest _ hDvd hLess hDown)

theorem Candidate.fits {align : Nat} (hBlock : Candidate w lmb size align maxAddr i b)
    (hMemory : lmb.memory.Bounded w) (hi : i < lmb.memory.cnt)
    (hSize : 1 ≤ size) (hLimit : maxAddr = 0 ∨ size ≤ maxAddr) :
    b + size ≤ (lmb.memory.region i).base + (lmb.memory.region i).size ∧
      (maxAddr ≠ 0 → b + size ≤ maxAddr) := by
  have hRoom := hBlock.room
  have hEnd := hMemory.ends i hi
  have hLess := hMemory.size_lt i hi
  have hBelow := hBlock.below
  have hTop : size ≤ topOf (lmb.memory.region i) maxAddr ∧
      topOf (lmb.memory.region i) maxAddr ≤ (lmb.memory.region i).base + (lmb.memory.region i).size ∧
      (maxAddr ≠ 0 → topOf (lmb.memory.region i) maxAddr ≤ maxAddr) := by
    unfold topOf
    split
    · omega
    · omega
  unfold lastStart at hBelow
  generalize topOf (lmb.memory.region i) maxAddr = top at hTop hBelow
  rw [show top + (2 ^ w.phys - size) = top - size + 2 ^ w.phys by omega, Nat.add_mod_right,
    Nat.mod_eq_of_lt (by omega)] at hBelow
  omega

theorem free_iff_not_hidden {reserved : LmbRegion}
    (hReserved : reserved.Bounded w) (hSize : 1 ≤ size) (hEnd : b + size ≤ 2 ^ w.phys)
    (hUnseen : ∀ j, j < reserved.cnt →
      ¬ (b < ((reserved.region j).base + (reserved.region j).size) % 2 ^ w.phys ∧
        (reserved.region j).base < (b + size) % 2 ^ w.phys)) :
    (∀ x, b ≤ x → x < b + size → x ∉ reserved.covered) ↔ ¬ Hidden w reserved b size := by
  constructor
  · rintro hFree ⟨j, hj, ⟨hStart, hStop, hSome⟩, -⟩
    refine hFree (max b (reserved.region j).base) (Nat.le_max_left _ _) (by omega) ?_
    exact mem_covered_iff.mpr ⟨j, hj, Nat.le_max_right _ _, by omega⟩
  · intro hSeen x hLow hHigh hx
    rcases mem_covered_iff.mp hx with ⟨j, hj, hFrom, hTo⟩
    have hMiss := hUnseen j hj
    have hRegion := hReserved.ends j hj
    by_cases hTop :
        (reserved.region j).base + (reserved.region j).size = 2 ^ w.phys ∨ b + size = 2 ^ w.phys
    · exact hSeen ⟨j, hj, ⟨by omega, by omega, by omega⟩, hTop⟩
    · rcases not_or.mp hTop with ⟨hRegionTop, hBlockTop⟩
      rw [Nat.mod_eq_of_lt (by omega), Nat.mod_eq_of_lt (by omega)] at hMiss
      omega

----
-- What Reserving Leaves
----

variable {rgn rgn' : LmbRegion} {s : Nat}

theorem lmbAddrsAdjacent_ne_zero_iff (w : Widths) (r r' : LmbProperty) :
    lmbAddrsAdjacent w r.base r.size r'.base r'.size ≠ 0 ↔ Touches w r r' := by
  unfold lmbAddrsAdjacent Touches Widths.add
  split
  · rename_i h
    exact iff_of_true (by decide) (Or.inl h)
  · rename_i h
    split
    · rename_i h'
      exact iff_of_true (by decide) (Or.inr h')
    · rename_i h'
      exact iff_of_false (not_not.mpr rfl) fun hEither => hEither.elim h h'

/- Where the first loop breaks. -/
theorem meets_iff (w : Widths) (r : LmbProperty) (b s : Nat) :
    meets w b s r = true ↔ NextTo w r b s := by
  unfold meets NextTo
  rw [decide_eq_true_iff]
  exact or_congr_right (lmbAddrsAdjacent_ne_zero_iff w ⟨b, s⟩ r)

theorem set_region (rgn : LmbRegion) (j : Nat) (r : LmbProperty) :
    (rgn.set j r).region j = r :=
  update_self _ _ _

theorem extendRegion_eq (hb : b < 2 ^ w.phys) (hs : s < 2 ^ w.phys) (j : Nat) :
    extendRegion w rgn j b s = rgn.set j (joined w (rgn.region j) b s) := by
  have hBack : w.sub ((b + s) % 2 ^ w.phys) s = b := by
    unfold Widths.sub
    rw [Nat.mod_add_mod, Nat.mod_eq_of_lt hs, show b + s + (2 ^ w.phys - s) = b + 2 ^ w.phys by omega,
      Nat.add_mod_right, Nat.mod_eq_of_lt hb]
  unfold extendRegion joined lmbAddrsAdjacent
  dsimp only
  by_cases hDown : (rgn.region j).base = w.add b s
  · rw [if_pos hDown, if_pos (by decide), hDown]
    unfold Widths.add
    rw [hBack, if_pos rfl]
  · rw [if_neg hDown, if_neg (show ¬ (rgn.region j).base = (b + s) % 2 ^ w.phys from hDown)]
    split
    · rw [if_neg (by decide)]
      rfl
    · rw [if_neg (by decide)]
      rfl

/- The region that has taken in the range starts below it. -/
theorem absorbed_base_le
    (hRegion : (rgn.region i).base + (rgn.region i).size ≤ 2 ^ w.phys) (hb : b ≠ 0)
    (hNext : NextTo w (rgn.region i) b s) :
    (absorbed w rgn b s i).base ≤ b := by
  have hBase : (absorbed w rgn b s i).base = (joined w (rgn.region i) b s).base := by
    unfold absorbed
    dsimp only
    split
    · rfl
    · rfl
  rw [hBase]
  unfold joined
  dsimp only
  split
  · exact Nat.le_refl b
  rename_i hDown
  rcases hNext with hSame | hTouch | hTouch
  · rw [hSame]
  · exact absurd hTouch hDown
  · change b = _ at hTouch
    rw [hTouch]
    rcases Nat.eq_or_lt_of_le hRegion with hTop | hLess
    · rw [hTop, Nat.mod_self] at hTouch
      exact absurd hTouch hb
    · rw [Nat.mod_eq_of_lt hLess]
      exact Nat.le_add_right _ _

/-
  The first region next to a range takes it in, and perhaps
  the one behind; the others stay.
-/
theorem lmbAddRegion_joins
    (hCnt : rgn.cnt ≤ maxLmbRegions) (hb : b < 2 ^ w.phys) (hs : s < 2 ^ w.phys)
    (hDummy : ¬ (rgn.cnt = 1 ∧ (rgn.region 0).size = 0)) (hi : i < rgn.cnt)
    (hScan : rgn.scan (meets w b s) = i) (hNew : rgn.region i ≠ ⟨b, s⟩) :
    ∃ rgn' ret, lmbAddRegion w rgn b s = some (rgn', ret) ∧ 0 ≤ ret ∧
      (∃ j, j < rgn'.cnt ∧ rgn'.region j = absorbed w rgn b s i) ∧
      ∀ j, j < rgn'.cnt → rgn'.region j = absorbed w rgn b s i ∨
        ∃ j', j' < rgn.cnt ∧ rgn'.region j = rgn.region j' := by
  have hPred : w.pred rgn.cnt = rgn.cnt - 1 := Widths.pred_eq (by omega) hCnt
  have hOther : ∀ r j, j ≠ i → (rgn.set i r).region j = rgn.region j :=
    fun r j hj => update_of_ne hj _ _
  unfold lmbAddRegion absorbed
  rw [if_neg hDummy, hScan]
  dsimp only
  rw [if_neg fun h => hNew h.2, if_pos hi, if_pos hi, extendRegion_eq hb hs, LmbRegion.set_cnt, hPred]
  generalize joined w (rgn.region i) b s = r
  have hTouch : lmbRegionsAdjacent w (rgn.set i r) i (i + 1) ≠ 0 ↔ Touches w r (rgn.region (i + 1)) := by
    unfold lmbRegionsAdjacent
    rw [set_region, hOther r (i + 1) (Nat.succ_ne_self i)]
    exact lmbAddrsAdjacent_ne_zero_iff w r (rgn.region (i + 1))
  by_cases hJoin : i + 1 < rgn.cnt ∧ Touches w r (rgn.region (i + 1))
  · rw [if_pos ⟨by omega, hTouch.mpr hJoin.2⟩, if_pos hJoin]
    unfold lmbCoalesceRegions
    dsimp only
    rw [set_region, hOther r (i + 1) (Nat.succ_ne_self i)]
    generalize hBoth : (⟨r.base, w.add r.size (rgn.region (i + 1)).size⟩ : LmbProperty) = both
    have hSet : ∀ j, j ≠ i → ((rgn.set i r).set i both).region j = rgn.region j :=
      fun j hj => (update_of_ne hj _ _).trans (hOther r j hj)
    rcases @lmbRemoveRegion_eq ((rgn.set i r).set i both) w _
        (show i + 1 < rgn.cnt from hJoin.1) hCnt with
      ⟨rgn', hRemove, hLess, hRegion, -⟩
    rw [hRemove]
    change rgn'.cnt = rgn.cnt - 1 at hLess
    change ∀ j, j < rgn.cnt - 1 → _ at hRegion
    refine ⟨rgn', _, rfl, by decide, ⟨i, by omega, ?_⟩, fun j hj => ?_⟩
    · rw [hRegion i (by omega), if_pos (Nat.lt_succ_self i), set_region]
      exact hBoth.symm
    · rw [hRegion j (by omega)]
      by_cases hSame : j = i
      · rw [hSame, if_pos (Nat.lt_succ_self i), set_region]
        exact Or.inl hBoth.symm
      · rw [hSet _ (by split <;> omega)]
        exact Or.inr ⟨_, by split <;> omega, rfl⟩
  · rw [if_neg fun h => hJoin ⟨by omega, hTouch.mp h.2⟩, if_pos (by decide), if_neg hJoin]
    refine ⟨_, _, rfl, by decide, ⟨i, hi, set_region rgn i r⟩, fun j hj => ?_⟩
    by_cases hSame : j = i
    · rw [hSame, set_region]
      exact Or.inl rfl
    · exact Or.inr ⟨j, hj, hOther r j hSame⟩

/- A range that is put into a table is one of its regions. -/
theorem insertRegion_regions (w : Widths) (hPos : 0 < rgn.cnt) (hCnt : rgn.cnt < maxLmbRegions) :
    (∃ j, j < (insertRegion w rgn b s).cnt ∧ (insertRegion w rgn b s).region j = ⟨b, s⟩) ∧
      ∀ j, j < (insertRegion w rgn b s).cnt → (insertRegion w rgn b s).region j = ⟨b, s⟩ ∨
        ∃ j', j' < rgn.cnt ∧ (insertRegion w rgn b s).region j = rgn.region j' := by
  rcases moveUp_eq ⟨b, s⟩ rgn.cnt rgn.region with ⟨p, hp, hAbove, -, hEq⟩
  have hMore : (insertRegion w rgn b s).cnt = rgn.cnt + 1 :=
    Nat.mod_eq_of_lt (Widths.lt_two_pow_long (by omega))
  have hRegion : ∀ j, j ≤ rgn.cnt → (insertRegion w rgn b s).region j =
      if j = 0 ∧ b < (moveUp ⟨b, s⟩ rgn.cnt rgn.region 0).base then ⟨b, s⟩
      else moveUp ⟨b, s⟩ rgn.cnt rgn.region j := by
    intro j _
    unfold insertRegion
    dsimp only
    by_cases hj : j = 0
    · subst hj
      split
      · rename_i hLow
        rw [if_pos ⟨rfl, hLow⟩]
        exact update_self _ _ _
      · rename_i hLow
        rw [if_neg fun h : 0 = 0 ∧ _ => hLow h.2]
    · rw [if_neg fun h : j = 0 ∧ _ => hj h.1]
      split
      · exact update_of_ne hj _ _
      · rfl
  rw [hMore]
  constructor
  · refine ⟨p, by omega, ?_⟩
    rw [hRegion p hp]
    split
    · rfl
    rename_i hNot
    rw [hEq p hp, if_neg (Nat.lt_irrefl p)]
    by_cases hp0 : p = 0
    · -- no region lies at or below the new one
      subst hp0
      refine absurd ⟨rfl, ?_⟩ hNot
      rw [hEq 0 hp, if_neg (Nat.lt_irrefl 0), if_neg fun h => Nat.lt_irrefl 0 h.2]
      exact hAbove 0 (Nat.le_refl 0) hPos
    · rw [if_pos ⟨rfl, Nat.pos_of_ne_zero hp0⟩]
  · intro j hj
    rw [hRegion j (by omega), hEq j (by omega)]
    split
    · exact Or.inl rfl
    split
    · exact Or.inr ⟨j, by omega, rfl⟩
    split
    · exact Or.inl rfl
    · exact Or.inr ⟨j - 1, by omega, rfl⟩

/-
  A table with one new region that starts at or below a block
  covers the block if that region reaches behind it.
-/
theorem covers_iff_of_region {r : LmbProperty} (hSize : 1 ≤ size) (hBase : r.base ≤ b)
    (hFree : ∀ x, b ≤ x → x < b + size → x ∉ rgn.covered)
    (hNew : ∃ j, j < rgn'.cnt ∧ rgn'.region j = r)
    (hOld : ∀ j, j < rgn'.cnt → rgn'.region j = r ∨ ∃ j', j' < rgn.cnt ∧ rgn'.region j = rgn.region j') :
    (∀ x, b ≤ x → x < b + size → x ∈ rgn'.covered) ↔ b + size ≤ r.base + r.size := by
  constructor
  · intro hAll
    rcases mem_covered_iff.mp (hAll (b + size - 1) (by omega) (by omega)) with ⟨j, hj, hFrom, hTo⟩
    rcases hOld j hj with hSame | ⟨j', hj', hSame⟩
    · rw [hSame] at hTo
      omega
    · rw [hSame] at hFrom hTo
      exact absurd (mem_covered_iff.mpr ⟨j', hj', hFrom, hTo⟩) (hFree _ (by omega) (by omega))
  · rcases hNew with ⟨j, hj, hSame⟩
    intro hEnd x hLow hHigh
    exact mem_covered_iff.mpr ⟨j, hj, by rw [hSame]; omega, by rw [hSame]; omega⟩

theorem lmbAddRegion_refused (hCnt : rgn.cnt ≤ maxLmbRegions) (hRefused : Refused w rgn b s) :
    lmbAddRegion w rgn b s = some (rgn, -1) := by
  rcases hRefused with ⟨hFull, hApart⟩
  have hScan : rgn.scan (meets w b s) = rgn.cnt := by
    rw [LmbRegion.scan_eq_cnt_iff]
    exact fun j hj => Bool.eq_false_iff.mpr fun h => hApart j hj ((meets_iff w _ b s).mp h)
  have hPos : 0 < rgn.cnt := Nat.lt_of_lt_of_le (by decide) hFull
  unfold lmbAddRegion
  rw [if_neg fun h => absurd (h.1 ▸ hFull) (by decide), hScan]
  dsimp only
  rw [if_neg fun h => Nat.lt_irrefl _ h.1, if_neg (Nat.lt_irrefl _), if_neg (Nat.lt_irrefl _),
    Widths.pred_eq hPos hCnt, if_neg (by omega), if_neg (not_not.mpr rfl), if_pos hFull]

/-
  What is not refused is accepted, if the call has a result,
  and a free block is covered if it is reserved as it should.
-/
theorem lmbAddRegion_covers_iff (hBounded : rgn.Bounded w) (hSize : 1 ≤ size) (hZero : b ≠ 0)
    (hb : b < 2 ^ w.phys) (hs : s < 2 ^ w.phys) (hNot : ¬ Refused w rgn b s) :
    (∀ rgn' ret, lmbAddRegion w rgn b s = some (rgn', ret) → 0 ≤ ret) ∧
      ((∀ x, b ≤ x → x < b + size → x ∉ rgn.covered) →
        ((∃ rgn' ret, lmbAddRegion w rgn b s = some (rgn', ret) ∧
            ∀ x, b ≤ x → x < b + size → x ∈ rgn'.covered) ↔
          Reserving w rgn size b s)) := by
  have hCnt := hBounded.cnt_le
  -- One way to end with a result.
  have hEnds : ∀ {rgn' : LmbRegion} {ret : Int} {p : Prop},
      lmbAddRegion w rgn b s = some (rgn', ret) → 0 ≤ ret →
      ((∀ x, b ≤ x → x < b + size → x ∉ rgn.covered) →
        ((∀ x, b ≤ x → x < b + size → x ∈ rgn'.covered) ↔ p)) →
      (∀ rgn' ret, lmbAddRegion w rgn b s = some (rgn', ret) → 0 ≤ ret) ∧
        ((∀ x, b ≤ x → x < b + size → x ∉ rgn.covered) →
          ((∃ rgn' ret, lmbAddRegion w rgn b s = some (rgn', ret) ∧
            ∀ x, b ≤ x → x < b + size → x ∈ rgn'.covered) ↔ p)) := by
    intro rgn' ret p hAdd hRet hCovers
    rw [hAdd]
    refine ⟨fun _ _ h => by cases h; exact hRet, fun hFree => ?_⟩
    rw [← hCovers hFree]
    refine ⟨?_, fun h => ⟨rgn', ret, rfl, h⟩⟩
    rintro ⟨rgn'', ret', hEq, h⟩
    cases hEq
    exact h
  unfold Reserving
  by_cases hNone : rgn.cnt = 0
  · rw [if_pos hNone]
    have hTouch := lmbAddrsAdjacent_ne_zero_iff w (rgn.region 0) (rgn.region 1)
    have hAdd := @lmbAddRegion_empty b s w rgn hNone
    unfold lmbRegionsAdjacent at hAdd
    by_cases hStale : Touches w (rgn.region 0) (rgn.region 1)
    · rw [if_pos (hTouch.mpr hStale)] at hAdd
      rw [hAdd]
      refine ⟨fun _ _ h => (nomatch h), fun _ => iff_of_false ?_ fun h => h.1 hStale⟩
      rintro ⟨_, _, h, -⟩
      cases h
    rw [if_neg (mt hTouch.mp hStale)] at hAdd
    refine hEnds hAdd (Int.le_refl 0) fun hFree => ?_
    have hOne : (insertRegion w rgn b s).cnt = 1 := by
      unfold insertRegion
      dsimp only
      rw [hNone]
      exact Nat.mod_eq_of_lt (Widths.lt_two_pow_long (by decide))
    have hFirst : (insertRegion w rgn b s).region 0 =
        if b < (rgn.region 0).base then ⟨b, s⟩ else rgn.region 0 := by
      unfold insertRegion
      rw [hNone]
      dsimp only [moveUp]
      split
      · exact update_self _ _ _
      · rfl
    have hCovers := @covers_iff_of_region _ _ _ (insertRegion w rgn b s)
      ((insertRegion w rgn b s).region 0) hSize (by
        rw [hFirst]
        split
        · exact Nat.le_refl b
        · omega)
      hFree ⟨0, by omega, rfl⟩
      fun j hj => Or.inl (by rw [show j = 0 by omega])
    rw [hCovers, hFirst, and_iff_right hStale]
    split
    · exact Nat.add_le_add_iff_left
    · exact Iff.rfl
  have hPos := Nat.pos_of_ne_zero hNone
  rw [if_neg hNone]
  by_cases hDummy : rgn.cnt = 1 ∧ (rgn.region 0).size = 0
  · rw [if_pos hDummy]
    have hAdd : lmbAddRegion w rgn b s = some (rgn.set 0 ⟨b, s⟩, 0) := by
      unfold lmbAddRegion
      rw [if_pos hDummy]
    refine hEnds hAdd (Int.le_refl 0) fun hFree => ?_
    rw [@covers_iff_of_region _ _ _ (rgn.set 0 ⟨b, s⟩) ⟨b, s⟩ hSize (Nat.le_refl b) hFree
      ⟨0, hPos, set_region rgn 0 _⟩ fun j hj => Or.inl ?_]
    · exact Nat.add_le_add_iff_left
    · change j < rgn.cnt at hj
      rw [show j = 0 by omega]
      exact set_region rgn 0 _
  rw [if_neg hDummy]
  have hPred : w.pred rgn.cnt = rgn.cnt - 1 := Widths.pred_eq hPos hCnt
  rcases Nat.eq_or_lt_of_le (rgn.scan_le (meets w b s)) with hScan | hi
  · -- No region is next to the range.
    have hApart : ∀ j, j < rgn.cnt → ¬ NextTo w (rgn.region j) b s := fun j hj hNext =>
      Bool.false_ne_true ((LmbRegion.scan_eq_cnt_iff.mp hScan j hj).symm.trans
        ((meets_iff w _ b s).mpr hNext))
    have hRoom : rgn.cnt < maxLmbRegions := Nat.not_le.mp fun h => hNot ⟨h, hApart⟩
    have hAdd : lmbAddRegion w rgn b s = some (insertRegion w rgn b s, 0) := by
      unfold lmbAddRegion
      rw [if_neg hDummy, hScan]
      dsimp only
      rw [if_neg fun h => Nat.lt_irrefl _ h.1, if_neg (Nat.lt_irrefl _), if_neg (Nat.lt_irrefl _),
        hPred, if_neg (by omega), if_neg (not_not.mpr rfl), if_neg (by omega)]
    refine hEnds hAdd (Int.le_refl 0) fun hFree => ?_
    rcases insertRegion_regions (b := b) (s := s) w hPos hRoom with ⟨hNew, hOld⟩
    rw [covers_iff_of_region hSize (Nat.le_refl b) hFree hNew hOld]
    refine Nat.add_le_add_iff_left.trans ⟨fun h => ⟨?_, fun _ => h⟩, fun h => h.2 hApart⟩
    exact fun j hj hNext => absurd hNext (hApart j hj)
  -- The first region that is next to it.
  generalize hScan : rgn.scan (meets w b s) = i at hi
  rcases (LmbRegion.scan_eq_iff hi).mp hScan with ⟨hMeets, hBefore⟩
  have hNext := (meets_iff w _ b s).mp hMeets
  have hFirst : ∀ j, j < i → ¬ NextTo w (rgn.region j) b s := fun j hj h =>
    Bool.false_ne_true ((hBefore j hj).symm.trans ((meets_iff w _ b s).mpr h))
  have hCond : ∀ p : Nat → Prop, ((∀ i, i < rgn.cnt → NextTo w (rgn.region i) b s →
          (∀ j, j < i → ¬ NextTo w (rgn.region j) b s) → p i) ∧
        ((∀ j, j < rgn.cnt → ¬ NextTo w (rgn.region j) b s) → size ≤ s)) ↔ p i := by
    refine fun p => ⟨fun h => h.1 i hi hNext hFirst, fun h => ⟨fun i' hi' hNext' hFirst' => ?_, ?_⟩⟩
    · rcases Nat.lt_trichotomy i i' with hLess | rfl | hLess
      · exact absurd hNext (hFirst' i hLess)
      · exact h
      · exact absurd hNext' (hFirst i' hLess)
    · exact fun hAll => absurd hNext (hAll i hi)
  rw [hCond fun i => rgn.region i ≠ ⟨b, s⟩ ∧
    b + size ≤ (absorbed w rgn b s i).base + (absorbed w rgn b s i).size]
  by_cases hSame : rgn.region i = ⟨b, s⟩
  · have hAdd : lmbAddRegion w rgn b s = some (rgn, 0) := by
      unfold lmbAddRegion
      rw [if_neg hDummy, hScan]
      dsimp only
      rw [if_pos ⟨hi, hSame⟩]
    refine hEnds hAdd (Int.le_refl 0) fun hFree => iff_of_false ?_ fun h => h.1 hSame
    exact fun hAll => hFree b (Nat.le_refl b) (by omega) (hAll b (Nat.le_refl b) (by omega))
  · rcases lmbAddRegion_joins hCnt hb hs hDummy hi hScan hSame with
      ⟨rgn', ret, hAdd, hRet, hNew, hOld⟩
    refine hEnds hAdd hRet fun hFree => ?_
    rw [covers_iff_of_region hSize (absorbed_base_le (hBounded.ends i hi) hZero hNext) hFree hNew hOld]
    exact (and_iff_right hSame).symm

----
-- Soundness
----

/-
  The allocation does what the caller wants exactly if the
  chosen block, where there is one, is refused, or it is below
  the limit, has no hidden bytes and is reserved as it should.
-/
theorem lmb_alloc_base_sound
    (w : Widths) (lmb : Lmb) (size k maxAddr : Nat) (hMemory : lmb.memory.Bounded w)
    (hReserved : lmb.reserved.Bounded w) (hSize : 1 ≤ size)
    (hSizeLt : size < 2 ^ w.phys) (hMax : maxAddr < 2 ^ w.phys) :
    (∃ lmb' base, lmbAllocBase w lmb size (2 ^ k) maxAddr = some (lmb', base) ∧
        (base ≠ 0 → AllocatedBlock lmb lmb' size (2 ^ k) maxAddr base)) ↔
      ∀ i b, Chosen w lmb size (2 ^ k) maxAddr i b →
        Refused w lmb.reserved b (lmbAlignUp w size (2 ^ k)) ∨
          (maxAddr = 0 ∨ size ≤ maxAddr) ∧ ¬ Hidden w lmb.reserved b size ∧
            Reserving w lmb.reserved size b (lmbAlignUp w size (2 ^ k)) := by
  have hFound :
      HighestOf (Takeable w lmb size k maxAddr) lmb.memory.cnt
        (findBase w lmb size (2 ^ k) maxAddr lmb.memory.cnt) :=
    findBase_highest hReserved.base_lt hSizeLt lmb.memory.cnt
  unfold lmbAllocBase
  cases hFind : findBase w lmb size (2 ^ k) maxAddr lmb.memory.cnt with
  | none =>
    rw [hFind] at hFound
    refine iff_of_true ⟨lmb, 0, rfl, fun h => absurd rfl h⟩ ?_
    rintro i b ⟨hi, hBlock, -⟩
    exact absurd ((takeable_iff hMemory hi hSizeLt hMax).mpr hBlock) (hFound i b hi)
  | some base =>
    rw [hFind] at hFound
    rcases hFound with ⟨i, hi, hTake, hMost⟩
    have hBlock := (takeable_iff hMemory hi hSizeLt hMax).mp hTake
    have hChosen : Chosen w lmb size (2 ^ k) maxAddr i base :=
      ⟨hi, hBlock, fun i' b' hi' hBlock' =>
        hMost i' b' hi' ((takeable_iff hMemory hi' hSizeLt hMax).mpr hBlock')⟩
    -- There is only one such block.
    have hCond : ∀ p : Nat → Prop,
        (∀ i b, Chosen w lmb size (2 ^ k) maxAddr i b → p b) ↔ p base := by
      refine fun p => ⟨fun h => h i base hChosen, fun h i' b' hChosen' => ?_⟩
      have hAbove := hChosen.2.2 i' b' hChosen'.1 hChosen'.2.1
      have hBelow := hChosen'.2.2 i base hi hBlock
      rwa [show b' = base by omega]
    rw [hCond fun b => Refused w lmb.reserved b (lmbAlignUp w size (2 ^ k)) ∨
      (maxAddr = 0 ∨ size ≤ maxAddr) ∧ ¬ Hidden w lmb.reserved b size ∧
        Reserving w lmb.reserved size b (lmbAlignUp w size (2 ^ k))]
    dsimp only
    have hWord : base < 2 ^ w.phys :=
      Nat.lt_of_le_of_lt hBlock.below (Nat.mod_lt _ (Nat.two_pow_pos w.phys))
    have hRound : lmbAlignUp w size (2 ^ k) < 2 ^ w.phys := Nat.mod_lt _ (Nat.two_pow_pos w.phys)
    by_cases hRefused : Refused w lmb.reserved base (lmbAlignUp w size (2 ^ k))
    · rw [lmbAddRegion_refused hReserved.cnt_le hRefused]
      exact iff_of_true ⟨_, 0, rfl, fun h => absurd rfl h⟩ (Or.inl hRefused)
    rw [or_iff_right hRefused]
    rcases lmbAddRegion_covers_iff hReserved hSize hBlock.nonzero hWord hRound hRefused with
      ⟨hRet, hCovers⟩
    constructor
    · rintro ⟨lmb', base', hAlloc, hGood⟩
      rcases Option.map_eq_some_iff.mp hAlloc with ⟨⟨rgn, ret⟩, hAdd, hEq⟩
      dsimp only at hEq
      rw [if_neg (Int.not_lt.mpr (hRet rgn ret hAdd))] at hEq
      cases hEq
      have hBlock' := hGood hBlock.nonzero
      refine ⟨?_, ?_, (hCovers hBlock'.free).mp ⟨rgn, ret, hAdd, hBlock'.reserved⟩⟩
      · by_cases hAny : maxAddr = 0
        · exact Or.inl hAny
        · have hBelow := hBlock'.below hAny
          exact Or.inr (by omega)
      · rintro ⟨j, hj, ⟨hStart, hStop, hByte⟩, -⟩
        refine hBlock'.free (max base (lmb.reserved.region j).base) (Nat.le_max_left _ _) (by omega) ?_
        exact mem_covered_iff.mpr ⟨j, hj, Nat.le_max_right _ _, by omega⟩
    · rintro ⟨hLimit, hSeen, hReserving⟩
      rcases hBlock.fits hMemory hi hSize hLimit with ⟨hInside, hBelow⟩
      have hEnd := hMemory.ends i hi
      have hFree := (free_iff_not_hidden hReserved hSize (by omega) hBlock.unseen).mpr hSeen
      rcases (hCovers hFree).mpr hReserving with ⟨rgn, ret, hAdd, hKept⟩
      rw [hAdd, Option.map_some]
      dsimp only
      rw [if_neg (Int.not_lt.mpr (hRet rgn ret hAdd))]
      exact ⟨_, base, rfl, fun _ =>
        { aligned := hBlock.aligned
          inside := ⟨i, hi, hBlock.above, hInside⟩
          below := hBelow
          free := hFree
          reserved := hKept }⟩

/- Memory with its last page reserved. -/
def lowMemory : Lmb where
  memory := ⟨1, 0, fun _ => ⟨0x1000, 0x8000⟩⟩
  reserved := ⟨1, 0, fun _ => ⟨0x8000, 0x1000⟩⟩

theorem lowMemory_bounded : lowMemory.memory.Bounded wide ∧ lowMemory.reserved.Bounded wide :=
  ⟨⟨by decide, by decide, by decide, by decide⟩, ⟨by decide, by decide, by decide, by decide⟩⟩

/- Two pages below it are joined with it. -/
theorem lmb_alloc_base_sound_low :
    ∃ lmb' base, lmbAllocBase wide lowMemory 0x2000 (2 ^ 12) 0 = some (lmb', base) ∧
        (base ≠ 0 → AllocatedBlock lowMemory lmb' 0x2000 (2 ^ 12) 0 base) := by
  refine (lmb_alloc_base_sound wide lowMemory 0x2000 12 0 lowMemory_bounded.1 lowMemory_bounded.2
    (by decide) (by decide) (by decide)).mpr ?_
  rintro i b ⟨hi, hBlock, hMost⟩
  have hi0 : i = 0 := Nat.lt_one_iff.mp hi
  subst hi0
  have hLast : lastStart wide ⟨0x1000, 0x8000⟩ 0x2000 0 = 0x7000 := by decide
  have hBelow : b ≤ lastStart wide ⟨0x1000, 0x8000⟩ 0x2000 0 := hBlock.below
  have hUnseen : ¬ (b < (0x8000 + 0x1000) % 2 ^ 64 ∧ 0x8000 < (b + 0x2000) % 2 ^ 64) :=
    hBlock.unseen 0 (by decide)
  have hTop : Candidate wide lowMemory 0x2000 (2 ^ 12) 0 0 0x6000 := by
    refine ⟨by decide, Or.inl rfl, by decide, by decide, by decide, by decide, by decide, ?_⟩
    intro b' _ _ hLe
    change b' ≤ lastStart wide ⟨0x1000, 0x8000⟩ 0x2000 0 at hLe
    change b' + 0x2000 < 2 ^ 64
    omega
  have hAbove := hMost 0 0x6000 hi hTop
  rw [show b = 0x6000 by omega]
  refine Or.inr ⟨Or.inl rfl, ?_, ?_⟩
  · rintro ⟨j, hj, -, hEdge⟩
    rw [Nat.lt_one_iff.mp hj] at hEdge
    exact absurd hEdge (by decide)
  · unfold Reserving
    rw [if_neg (by decide), if_neg (by decide)]
    refine ⟨fun j hj _ _ => ?_, fun hAll => absurd (Or.inr (Or.inl (by decide))) (hAll 0 (by decide))⟩
    rw [Nat.lt_one_iff.mp hj]
    exact ⟨by decide, by decide⟩

/- The same at the end of the address space. -/
def highMemory : Lmb where
  memory := ⟨1, 0, fun _ => ⟨2 ^ 64 - 0x8000, 0x8000⟩⟩
  reserved := ⟨1, 0, fun _ => ⟨2 ^ 64 - 0x2000, 0x2000⟩⟩

/-
  The end of the reserved region wraps, as does that of the
  block, and the last page is handed out once more.
-/
theorem lmb_alloc_base_reserved_block :
    (highMemory.memory.Bounded wide ∧ highMemory.reserved.Bounded wide) ∧ ∃ lmb' base,
        lmbAllocBase wide highMemory 0x1000 (2 ^ 12) 0 = some (lmb', base) ∧
          base ≠ 0 ∧ base ∈ highMemory.reserved.covered := by
  refine ⟨⟨⟨by decide, by decide, by decide, by decide⟩,
    ⟨by decide, by decide, by decide, by decide⟩⟩, ?_⟩
  have hBase :
      (lmbAllocBase wide highMemory 0x1000 (2 ^ 12) 0).map Prod.snd = some (2 ^ 64 - 0x1000) := by
    decide +kernel
  rcases Option.map_eq_some_iff.mp hBase with ⟨⟨lmb', base⟩, hAlloc, hEq⟩
  cases hEq
  exact ⟨lmb', _, hAlloc, by decide, mem_covered_iff.mpr ⟨0, by decide, by decide, by decide⟩⟩

end Sound

end Uboot.Lmb
