import BootFirmware.Tfa.Xlat.Model
import Mathlib.Data.List.InsertIdx
import Mathlib.Data.List.Perm.Basic

/-
  The array of regions itself, for addresses of 32 and of 64
  bits: `mmap_num + 1` entries, of which those with a size
  are the regions, and the first one without is the sentinel.

  A read outside the array and a failed assertion are `none`.

  Key definitions include:
    * `Layout`, `Entry` and `Ctx`
    * `mmapCursor` and `memmove`
    * `mmapAddRegionCtx` and `mmapAddDynamicRegionCtx`
    * `Holds`
    * `CursorStops`
    * `Reachable`

  The main results are:
    * `Holds.cursor` and `Holds.runs_off`
    * `mmap_well_formed`
-/

namespace Tfa.Xlat.MmapArray

open List

----
-- Entries
----

/-
  What `REGISTER_XLAT_CONTEXT` fixes: the width of an address,
  and the limits that it checks for AArch32 and AArch64.
-/
structure Layout where
  uintptrBits : Nat
  virtAddrSpaceBits : Nat
  phyAddrSpaceBits : Nat
  mmapNum : Nat
  platXlatTablesDynamic : Bool
  arch : (uintptrBits = 32 ∧ virtAddrSpaceBits ≤ 32) ∨ (uintptrBits = 64 ∧ virtAddrSpaceBits ≤ 48)
  virt_ge : 25 ≤ virtAddrSpaceBits
  phy_le : phyAddrSpaceBits ≤ 64
  mmapNum_lt : mmapNum < 2 ^ 32

namespace Layout

variable (lay : Layout)

def vaMaxAddress : Nat :=
  2 ^ lay.virtAddrSpaceBits - 1

def paMaxAddress : Nat :=
  2 ^ lay.phyAddrSpaceBits - 1

theorem virt_le : 2 ^ lay.virtAddrSpaceBits ≤ 2 ^ lay.uintptrBits := by
  refine Nat.pow_le_pow_right (by decide) ?_
  rcases lay.arch with ⟨hBits, hVirt⟩ | ⟨hBits, hVirt⟩
  · omega
  · omega

theorem uintptr_le : 2 ^ lay.uintptrBits ≤ 2 ^ 64 := by
  refine Nat.pow_le_pow_right (by decide) ?_
  rcases lay.arch with ⟨hBits, -⟩ | ⟨hBits, -⟩
  · omega
  · omega

theorem pa_le : 2 ^ lay.phyAddrSpaceBits ≤ 2 ^ 64 :=
  Nat.pow_le_pow_right (by decide) lay.phy_le

end Layout

/- An `mmap_region_t`; addresses and sizes are words. -/
structure Entry (lay : Layout) where
  basePa : Nat
  baseVa : Nat
  size : Nat
  attr : Nat
  granularity : Nat
  basePa_lt : basePa < 2 ^ 64
  baseVa_lt : baseVa < 2 ^ lay.uintptrBits
  size_lt : size < 2 ^ lay.uintptrBits
  attr_lt : attr < 2 ^ 32
  granularity_lt : granularity < 2 ^ lay.uintptrBits

namespace Entry

variable {lay : Layout}

theorem eq_iff {a b : Entry lay} :
    (a.basePa = b.basePa ∧ a.baseVa = b.baseVa ∧ a.size = b.size ∧ a.attr = b.attr ∧
      a.granularity = b.granularity) ↔ a = b := by
  cases a
  cases b
  simp

instance : DecidableEq (Entry lay) :=
  fun _ _ => decidable_of_iff _ eq_iff

/- An entry of the array before anything is written to it. -/
def empty : Entry lay where
  basePa := 0
  baseVa := 0
  size := 0
  attr := 0
  granularity := 0
  basePa_lt := zero_lt_uint64
  baseVa_lt := Nat.two_pow_pos _
  size_lt := Nat.two_pow_pos _
  attr_lt := zero_lt_uint
  granularity_lt := Nat.two_pow_pos _

/- `base_va + size - 1`, as the code computes it. -/
def endVa (mm : Entry lay) : Nat :=
  (mm.baseVa + mm.size + 2 ^ lay.uintptrBits - 1) % 2 ^ lay.uintptrBits

def endPa (mm : Entry lay) : Nat :=
  (mm.basePa + mm.size + 2 ^ 64 - 1) % 2 ^ 64

/- `mm->attr |= MT_DYNAMIC`. -/
def setDynamic (mm : Entry lay) : Entry lay :=
  { mm with
    attr := mm.attr ||| mtDynamic
    attr_lt := Nat.or_lt_two_pow mm.attr_lt (by decide) }

end Entry

structure Ctx (lay : Layout) where
  mmap : List (Entry lay)
  maxPa : Nat
  maxVa : Nat
  initialized : Bool
deriving DecidableEq

variable {lay : Layout}

----
-- The Check
----

/- One turn of the loop that looks for overlaps. -/
def overlapAllowed (mm mmCursor : Entry lay) : Bool :=
  if (mm.baseVa ≥ mmCursor.baseVa ∧ mm.endVa ≤ mmCursor.endVa) ∨
      (mmCursor.baseVa ≥ mm.baseVa ∧ mmCursor.endVa ≤ mm.endVa) then
    if lay.platXlatTablesDynamic ∧
        (mm.attr &&& mtDynamic ≠ 0 ∨ mmCursor.attr &&& mtDynamic ≠ 0) then
      false
    else if wordSub mmCursor.baseVa mmCursor.basePa ≠ wordSub mm.baseVa mm.basePa then
      false
    else if mm.baseVa = mmCursor.baseVa ∧ mm.size = mmCursor.size then
      false
    else
      true
  else
    let separatedPa := mm.endPa < mmCursor.basePa ∨ mm.basePa > mmCursor.endPa
    let separatedVa := mm.endVa < mmCursor.baseVa ∨ mm.baseVa > mmCursor.endVa
    decide (separatedVa ∧ separatedPa)

/- The loop, up to an entry without a size. -/
def overlapLoop (mm : Entry lay) : List (Entry lay) → Option Int
  | [] => none
  | mmCursor :: rest =>
    if mmCursor.size = 0 then some 0
    else if ¬ overlapAllowed mm mmCursor then some (-eperm)
    else overlapLoop mm rest

def mmapAddRegionCheck (mmap : List (Entry lay))
    (mm : Entry lay) : Option Int :=
  if ¬ isPageAligned mm.basePa ∨ ¬ isPageAligned mm.baseVa ∨ ¬ isPageAligned mm.size then
    some (-einval)
  else if mm.granularity ≠ xlatBlockSize 1 ∧ mm.granularity ≠ xlatBlockSize 2 ∧
      mm.granularity ≠ xlatBlockSize 3 then
    some (-einval)
  else if mm.basePa > mm.endPa ∨ mm.baseVa > mm.endVa then
    some (-erange)
  else if mm.endVa > lay.vaMaxAddress then
    some (-erange)
  else if mm.endPa > lay.paMaxAddress then
    some (-erange)
  else
    -- The index is an `unsigned int`.
    match mmap[(lay.mmapNum + 2 ^ 32 - 1) % 2 ^ 32]? with
    | none => none
    | some last =>
      if last.size ≠ 0 then some (-enomem)
      else overlapLoop mm mmap

----
-- The Place Of A Region
----

/- The first loop over the cursor. -/
def skipLowerEnd (mm : Entry lay) : List (Entry lay) → Option Nat
  | [] => none
  | mmCursor :: rest =>
    if mmCursor.endVa < mm.endVa ∧ mmCursor.size ≠ 0 then
      (skipLowerEnd mm rest).map (· + 1)
    else some 0

/- The second one; it does not ask for a size. -/
def skipSmaller (mm : Entry lay) : List (Entry lay) → Option Nat
  | [] => none
  | mmCursor :: rest =>
    if mmCursor.endVa = mm.endVa ∧ mmCursor.size < mm.size then
      (skipSmaller mm rest).map (· + 1)
    else some 0

def mmapCursor (mmap : List (Entry lay))
    (mm : Entry lay) : Option Nat :=
  match skipLowerEnd mm mmap with
  | none => none
  | some lower => (skipSmaller mm (mmap.drop lower)).map (lower + ·)

/- The loop for the last marker, with `mm_end - mm_last`. -/
def findLast : Nat → List (Entry lay) → Option Nat
  | _, [] => none
  | left, mmLast :: rest =>
    if mmLast.size ≠ 0 ∧ left ≠ 0 then
      (findLast (left - 1) rest).map (· + 1)
    else some 0

/-
  `memmove` of the entries from `src` to before `last`.  The
  byte count is unsigned, so that it is out of range when
  `src` lies behind `last`.
-/
def memmove (mmap : List (Entry lay))
    (dst src last : Nat) : Option (List (Entry lay)) :=
  let count := last - src
  if last < src ∨ mmap.length < src + count ∨ mmap.length < dst + count then none
  else
    some (mmap.take dst ++ (mmap.drop src).take count ++ mmap.drop (dst + count))

----
-- Adding A Region
----

/- `max_pa` and `max_va` after a region was added. -/
def Ctx.raiseMax (ctx : Ctx lay)
    (mm : Entry lay) : Ctx lay :=
  { ctx with
    maxPa :=
      if mm.endPa > ctx.maxPa then mm.endPa else ctx.maxPa
    maxVa :=
      if mm.endVa > ctx.maxVa then mm.endVa else ctx.maxVa }

/- Make room, check the sentinel, and write the region. -/
def insertAt (mmap : List (Entry lay)) (mm : Entry lay)
    (cursor last : Nat) : Option (List (Entry lay)) :=
  match memmove mmap (cursor + 1) cursor last with
  | none => none
  | some mmap =>
    match mmap[lay.mmapNum]? with
    | none => none
    | some sentinel =>
      if sentinel.size ≠ 0 then none
      else some (mmap.set cursor mm)

def mmapAddRegionCtx (ctx : Ctx lay)
    (mm : Entry lay) : Option (Ctx lay) :=
  if mm.size = 0 then some ctx
  else if ctx.initialized then none
  else if mmapAddRegionCheck ctx.mmap mm ≠ some 0 then none
  else
    match mmapCursor ctx.mmap mm with
    | none => none
    | some cursor =>
      match findLast lay.mmapNum ctx.mmap with
      | none => none
      | some last =>
        match ctx.mmap[last]? with
        | none => none
        | some mmLast =>
          if mmLast.size ≠ 0 then none
          else
            (insertAt ctx.mmap mm cursor last).map
              fun mmap => Ctx.raiseMax { ctx with mmap := mmap } mm

/-
  `mmap_add_dynamic_region_ctx`.  Of the tables only the
  address that the mapper returns counts here: it is any
  number.  The moves go up to the last entry of the array.
-/
def mmapAddDynamicRegionCtx (mapped : Nat) (ctx : Ctx lay)
    (mm : Entry lay) : Option (Ctx lay × Int) :=
  if mm.size = 0 then some (ctx, 0)
  else
    let mm := mm.setDynamic
    match mmapAddRegionCheck ctx.mmap mm with
    | none => none
    | some ret =>
      if ret ≠ 0 then some (ctx, ret)
      else
        match mmapCursor ctx.mmap mm with
        | none => none
        | some cursor =>
          match insertAt ctx.mmap mm cursor lay.mmapNum with
          | none => none
          | some mmap =>
            if ctx.initialized ∧ mapped ≠ mm.endVa then
              (memmove mmap cursor (cursor + 1)
                (lay.mmapNum + 1)).map fun mmap => ({ ctx with mmap := mmap }, -enomem)
            else
              some (Ctx.raiseMax { ctx with mmap := mmap } mm, 0)

----
-- The Shape Of The Array
----

namespace Entry

/- What `mmap_add_region_check` makes sure of. -/
structure Valid (q : Entry lay) : Prop where
  size_pos : 0 < q.size
  va_le : q.baseVa + q.size ≤ 2 ^ lay.virtAddrSpaceBits
  pa_le : q.basePa + q.size ≤ 2 ^ lay.phyAddrSpaceBits

/- One region lies inside the other, at the same offset. -/
def Nested (q q' : Entry lay) : Prop :=
  ((q'.baseVa ≤ q.baseVa ∧ q.baseVa + q.size ≤ q'.baseVa + q'.size) ∨
    (q.baseVa ≤ q'.baseVa ∧ q'.baseVa + q'.size ≤ q.baseVa + q.size)) ∧
  q.baseVa + q'.basePa = q'.baseVa + q.basePa

/- They share no virtual and no physical address. -/
def Disjoint (q q' : Entry lay) : Prop :=
  (q.baseVa + q.size ≤ q'.baseVa ∨ q'.baseVa + q'.size ≤ q.baseVa) ∧
  (q.basePa + q.size ≤ q'.basePa ∨ q'.basePa + q'.size ≤ q.basePa)

def Compatible (q q' : Entry lay) : Prop :=
  q.Nested q' ∨ q.Disjoint q'

/- The order of the array: the end address, then the size. -/
def Before (q q' : Entry lay) : Prop :=
  q.endVa < q'.endVa ∨ (q.endVa = q'.endVa ∧ q.size ≤ q'.size)

end Entry

/-
  The array holds these regions: they come first, sorted and
  pairwise compatible, and every entry behind them, which
  includes the last one, is empty.
-/
structure Holds (mmap used : List (Entry lay)) : Prop where
  eq : mmap = used ++ List.replicate (lay.mmapNum + 1 - used.length) .empty
  le : used.length ≤ lay.mmapNum
  valid : ∀ q ∈ used, q.Valid
  sorted : used.Pairwise Entry.Before
  compatible : used.Pairwise Entry.Compatible

/-
  The second loop stops: the region does not end where an
  empty entry seems to end, which is at the top of the
  address range, or a region that is not smaller does.
-/
def CursorStops (mmap : List (Entry lay))
    (mm : Entry lay) : Prop :=
  mm.endVa ≠ 2 ^ lay.uintptrBits - 1 ∨
    ∃ q ∈ mmap, q.size ≠ 0 ∧ q.endVa = mm.endVa ∧ mm.size ≤ q.size

/-
  A region was inserted: the cursor stopped at the sentinel
  or before it, and the array holds the regions that it held
  and the new one.
-/
def Inserts (mmap : List (Entry lay)) (mm : Entry lay)
    (mmap' : List (Entry lay)) : Prop :=
  ∃ cursor used used', mmapCursor mmap mm = some cursor ∧ Holds mmap used ∧ cursor ≤ used.length ∧
    Holds mmap' used' ∧ used'.Perm (mm :: used)

----
-- Regions That Pass The Check
----

namespace Entry

variable {q : Entry lay}

theorem Valid.endVa_eq (hValid : q.Valid) :
    q.endVa = q.baseVa + q.size - 1 := by
  have hLe := lay.virt_le
  have hPos := hValid.size_pos
  have hVa := hValid.va_le
  have hSplit : q.baseVa + q.size + 2 ^ lay.uintptrBits - 1 =
      q.baseVa + q.size - 1 + 2 ^ lay.uintptrBits := by
    omega
  unfold endVa
  rw [hSplit, Nat.add_mod_right, Nat.mod_eq_of_lt (by omega)]

theorem Valid.endPa_eq (hValid : q.Valid) :
    q.endPa = q.basePa + q.size - 1 := by
  have hLe := lay.pa_le
  have hPos := hValid.size_pos
  have hPa := hValid.pa_le
  unfold endPa
  omega

theorem Before.trans {q q' q'' : Entry lay} (hFirst : q.Before q') (hSecond : q'.Before q'') :
    q.Before q'' := by
  unfold Before at *
  omega

theorem Compatible.symm {q q' : Entry lay} (hCompat : q.Compatible q') :
    q'.Compatible q := by
  unfold Compatible Nested Disjoint at *
  omega

theorem endVa_empty : (empty : Entry lay).endVa = 2 ^ lay.uintptrBits - 1 := by
  have hPos := Nat.two_pow_pos lay.uintptrBits
  unfold endVa empty
  dsimp only
  rw [Nat.mod_eq_of_lt (by omega)]
  omega

theorem endVa_lt (q : Entry lay) :
    q.endVa < 2 ^ lay.uintptrBits :=
  Nat.mod_lt _ (Nat.two_pow_pos _)

/- The comparison of the check excludes a wrap. -/
theorem endVa_of_no_wrap (hSize : q.size ≠ 0) (hLe : q.baseVa ≤ q.endVa) :
    q.endVa = q.baseVa + q.size - 1 := by
  have hLt := q.size_lt
  by_cases hWrap : q.baseVa + q.size - 1 < 2 ^ lay.uintptrBits
  · have hSplit : q.baseVa + q.size + 2 ^ lay.uintptrBits - 1 =
        q.baseVa + q.size - 1 + 2 ^ lay.uintptrBits := by
      omega
    unfold endVa
    rw [hSplit, Nat.add_mod_right, Nat.mod_eq_of_lt hWrap]
  · have hSplit : q.baseVa + q.size + 2 ^ lay.uintptrBits - 1 =
        q.baseVa + q.size - 1 - 2 ^ lay.uintptrBits +
          2 ^ lay.uintptrBits + 2 ^ lay.uintptrBits := by
      omega
    unfold endVa at hLe
    rw [hSplit, Nat.add_mod_right, Nat.add_mod_right, Nat.mod_eq_of_lt (by omega)] at hLe
    omega

/- What the loop that looks for overlaps lets pass. -/
theorem compatible_of_allowed
    {mm q : Entry lay} (hValid : mm.Valid) (hq : q.Valid) (hAllowed : overlapAllowed mm q = true) :
    mm.Compatible q := by
  have hEnd := hValid.endVa_eq
  have hEnd' := hq.endVa_eq
  have hPos := hValid.size_pos
  have hPos' := hq.size_pos
  have hPhy := lay.pa_le
  have hPa := hValid.pa_le
  have hPa' := hq.pa_le
  unfold overlapAllowed at hAllowed
  rw [hEnd, hEnd', hValid.endPa_eq, hq.endPa_eq] at hAllowed
  split at hAllowed
  · split at hAllowed
    · cases hAllowed
    split at hAllowed
    · cases hAllowed
    rename_i hOffset
    left
    unfold wordSub at hOffset
    unfold Nested
    omega
  · have hSeparated := of_decide_eq_true hAllowed
    right
    unfold Disjoint
    omega

end Entry

variable {mm : Entry lay} {used : List (Entry lay)}

/- What the loop accepts, up to the first empty entry. -/
theorem allowed_of_overlapLoop {rest : List (Entry lay)}
    (hSizes : ∀ q ∈ used, q.size ≠ 0) (hLoop : overlapLoop mm (used ++ rest) = some 0) :
    ∀ q ∈ used, overlapAllowed mm q = true := by
  induction used with
  | nil =>
    intro q hMem
    cases hMem
  | cons a used ih =>
    rw [cons_append] at hLoop
    unfold overlapLoop at hLoop
    rw [if_neg (hSizes a mem_cons_self)] at hLoop
    split at hLoop
    · cases hLoop
    rename_i hAllowed
    intro q hMem
    rcases mem_cons.mp hMem with rfl | hRest
    · exact not_not.mp hAllowed
    · exact ih (fun q hq => hSizes q (mem_cons_of_mem a hq)) hLoop q hRest

namespace Holds

variable {mmap used : List (Entry lay)}
variable {mm : Entry lay}

theorem size_ne (hHolds : Holds mmap used) :
    ∀ q ∈ used, q.size ≠ 0 :=
  fun q hMem => Nat.pos_iff_ne_zero.mp (hHolds.valid q hMem).size_pos

theorem length_eq (hHolds : Holds mmap used) :
    mmap.length = lay.mmapNum + 1 := by
  have hLe := hHolds.le
  rw [hHolds.eq, length_append, length_replicate]
  omega

/- What the check makes sure of. -/
theorem of_check (hHolds : Holds mmap used) (hSize : mm.size ≠ 0)
    (hCheck : mmapAddRegionCheck mmap mm = some 0) :
    mm.Valid ∧ used.length < lay.mmapNum ∧ ∀ q ∈ used, mm.Compatible q := by
  have hLength := hHolds.length_eq
  have hNum := lay.mmapNum_lt
  unfold mmapAddRegionCheck at hCheck
  split at hCheck
  · cases hCheck
  split at hCheck
  · cases hCheck
  split at hCheck
  · cases hCheck
  split at hCheck
  · cases hCheck
  split at hCheck
  · cases hCheck
  split at hCheck
  · cases hCheck
  rename_i last hLast
  split at hCheck
  · cases hCheck
  rename_i hFree
  have hSpace : 0 < lay.mmapNum := by
    have hIn := (List.getElem?_eq_some_iff.mp hLast).1
    omega
  have hIndex : (lay.mmapNum + 2 ^ 32 - 1) % 2 ^ 32 = lay.mmapNum - 1 := by omega
  have hShort : used.length < lay.mmapNum := by
    by_contra hFull
    rw [hIndex, hHolds.eq, getElem?_append_left (by omega)] at hLast
    exact hFree (hHolds.size_ne last (mem_of_getElem? hLast))
  have hVaPos := Nat.two_pow_pos lay.virtAddrSpaceBits
  have hPaPos := Nat.two_pow_pos lay.phyAddrSpaceBits
  have hEndVa : mm.baseVa ≤ mm.endVa ∧ mm.endVa ≤ lay.vaMaxAddress := by omega
  have hEndPa : mm.basePa ≤ mm.endPa ∧ mm.endPa ≤ lay.paMaxAddress := by omega
  have hSizeLt := mm.size_lt
  have hWidth := lay.uintptr_le
  have hValid : mm.Valid := by
    refine ⟨Nat.pos_of_ne_zero hSize, ?_, ?_⟩
    · have hEnd := Entry.endVa_of_no_wrap hSize hEndVa.1
      unfold Layout.vaMaxAddress at hEndVa
      omega
    · unfold Layout.paMaxAddress at hEndPa
      unfold Entry.endPa at hEndPa
      omega
  refine ⟨hValid, hShort, ?_⟩
  intro q hMem
  rw [hHolds.eq] at hCheck
  exact Entry.compatible_of_allowed hValid (hHolds.valid q hMem)
    (allowed_of_overlapLoop hHolds.size_ne hCheck q hMem)

end Holds

----
-- The Cursor
----

/- The first loop splits the regions. -/
theorem skipLowerEnd_eq (mm : Entry lay) (hSizes : ∀ q ∈ used, q.size ≠ 0)
    (hSorted : used.Pairwise Entry.Before) (rest : List (Entry lay)) :
    ∃ front back, used = front ++ back ∧
      skipLowerEnd mm (used ++ .empty :: rest) = some front.length ∧
      (∀ q ∈ front, q.endVa < mm.endVa) ∧ ∀ q ∈ back, mm.endVa ≤ q.endVa := by
  induction used with
  | nil =>
    refine ⟨[], [], rfl, ?_, nofun, nofun⟩
    exact if_neg fun h => h.2 rfl
  | cons a used ih =>
    rcases pairwise_cons.mp hSorted with ⟨hHead, hTail⟩
    by_cases hLower : a.endVa < mm.endVa
    · rcases ih (fun q hq =>
        hSizes q (mem_cons_of_mem a hq)) hTail with ⟨front, back, hSplit, hSkip, hFront, hBack⟩
      refine ⟨a :: front, back, ?_, ?_, ?_, hBack⟩
      · rw [hSplit, cons_append]
      · rw [cons_append]
        unfold skipLowerEnd
        rw [if_pos ⟨hLower, hSizes a mem_cons_self⟩, hSkip]
        rfl
      · intro q hMem
        rcases mem_cons.mp hMem with rfl | hRest
        · exact hLower
        · exact hFront q hRest
    · refine ⟨[], a :: used, rfl, ?_, nofun, ?_⟩
      · rw [cons_append]
        exact if_neg fun h => hLower h.1
      · intro q hMem
        rcases mem_cons.mp hMem with rfl | hRest
        · omega
        · have hBefore := hHead q hRest
          unfold Entry.Before at hBefore
          omega

/- The second one does so where it stops. -/
theorem skipSmaller_eq (mm : Entry lay) (hSorted : used.Pairwise Entry.Before)
    (hEnds : ∀ q ∈ used, mm.endVa ≤ q.endVa) (rest : List (Entry lay))
    (hStops :
      mm.endVa ≠ 2 ^ lay.uintptrBits - 1 ∨ ∃ q ∈ used, q.endVa = mm.endVa ∧ mm.size ≤ q.size) :
    ∃ front back, used = front ++ back ∧
      skipSmaller mm (used ++ .empty :: rest) = some front.length ∧ (∀ q ∈ front, q.Before mm) ∧
      ∀ q ∈ back, mm.Before q := by
  induction used with
  | nil =>
    refine ⟨[], [], rfl, ?_, nofun, nofun⟩
    have hTop : mm.endVa ≠ 2 ^ lay.uintptrBits - 1 := by
      rcases hStops with hTop | ⟨q, hMem, -⟩
      · exact hTop
      · cases hMem
    rw [nil_append]
    unfold skipSmaller
    rw [Entry.endVa_empty]
    exact if_neg fun h => hTop h.1.symm
  | cons a used ih =>
    rcases pairwise_cons.mp hSorted with ⟨hHead, hTail⟩
    by_cases hSmaller : a.endVa = mm.endVa ∧ a.size < mm.size
    · have hRest :
          mm.endVa ≠ 2 ^ lay.uintptrBits - 1 ∨
            ∃ q ∈ used, q.endVa = mm.endVa ∧ mm.size ≤ q.size := by
        rcases hStops with hTop | ⟨q, hMem, hEnd, hLe⟩
        · exact Or.inl hTop
        · rcases mem_cons.mp hMem with rfl | hRest
          · omega
          · exact Or.inr ⟨q, hRest, hEnd, hLe⟩
      rcases ih hTail (fun q hq =>
        hEnds q (mem_cons_of_mem a hq)) hRest with ⟨front, back, hSplit, hSkip, hFront, hBack⟩
      refine ⟨a :: front, back, ?_, ?_, ?_, hBack⟩
      · rw [hSplit, cons_append]
      · rw [cons_append]
        unfold skipSmaller
        rw [if_pos hSmaller, hSkip]
        rfl
      · intro q hMem
        rcases mem_cons.mp hMem with rfl | hIn
        · right
          omega
        · exact hFront q hIn
    · have hHere : mm.Before a := by
        have hEnd := hEnds a mem_cons_self
        unfold Entry.Before
        omega
      refine ⟨[], a :: used, rfl, ?_, nofun, ?_⟩
      · rw [cons_append]
        exact if_neg hSmaller
      · intro q hMem
        rcases mem_cons.mp hMem with rfl | hRest
        · exact hHere
        · exact hHere.trans (hHead q hRest)

/- Where nothing stops it, it reads behind the array. -/
theorem skipSmaller_none (mm : Entry lay) {mmap : List (Entry lay)}
    (hAll : ∀ q ∈ mmap, q.endVa = mm.endVa ∧ q.size < mm.size) :
    skipSmaller mm mmap = none := by
  induction mmap with
  | nil => rfl
  | cons a mmap ih =>
    unfold skipSmaller
    rw [if_pos (hAll a mem_cons_self), ih fun q hMem => hAll q (mem_cons_of_mem a hMem)]
    rfl

namespace Holds

variable {mmap used : List (Entry lay)}
variable {mm : Entry lay}

section

variable (hHolds : Holds mmap used)
include hHolds

/- There is an empty entry behind the regions. -/
theorem eq_cons : mmap = used ++ .empty :: List.replicate (lay.mmapNum - used.length) .empty := by
  have hLe := hHolds.le
  have hCount : lay.mmapNum + 1 - used.length = lay.mmapNum - used.length + 1 := by omega
  rw [← replicate_succ, ← hCount]
  exact hHolds.eq

theorem cursorStops_iff :
    CursorStops mmap mm ↔
      mm.endVa ≠ 2 ^ lay.uintptrBits - 1 ∨ ∃ q ∈ used, q.endVa = mm.endVa ∧ mm.size ≤ q.size := by
  constructor
  · rintro (hTop | ⟨q, hMem, hSize, hEnd, hLe⟩)
    · exact Or.inl hTop
    · rw [hHolds.eq] at hMem
      rcases mem_append.mp hMem with hUsed | hEmpty
      · exact Or.inr ⟨q, hUsed, hEnd, hLe⟩
      · rw [eq_of_mem_replicate hEmpty] at hSize
        exact absurd rfl hSize
  · rintro (hTop | ⟨q, hMem, hEnd, hLe⟩)
    · exact Or.inl hTop
    · refine Or.inr ⟨q, ?_, hHolds.size_ne q hMem, hEnd, hLe⟩
      rw [hHolds.eq]
      exact mem_append_left _ hMem

theorem cursor (hStops : CursorStops mmap mm) :
    ∃ front back, used = front ++ back ∧ mmapCursor mmap mm = some front.length ∧
      (∀ q ∈ front, q.Before mm) ∧ ∀ q ∈ back, mm.Before q := by
  rw [hHolds.cursorStops_iff] at hStops
  rw [hHolds.eq_cons]
  generalize List.replicate (lay.mmapNum - used.length) Entry.empty = rest
  rcases skipLowerEnd_eq mm hHolds.size_ne hHolds.sorted
    rest with ⟨lower, upper, hSplit, hSkip, hLower, hUpper⟩
  have hSorted : upper.Pairwise Entry.Before := by
    refine hHolds.sorted.sublist ?_
    rw [hSplit]
    exact sublist_append_right lower upper
  have hUpperStops :
      mm.endVa ≠ 2 ^ lay.uintptrBits - 1 ∨ ∃ q ∈ upper, q.endVa = mm.endVa ∧ mm.size ≤ q.size := by
    rcases hStops with hTop | ⟨q, hMem, hEnd, hLe⟩
    · exact Or.inl hTop
    · rw [hSplit] at hMem
      rcases mem_append.mp hMem with hLow | hUp
      · have hLess := hLower q hLow
        omega
      · exact Or.inr ⟨q, hUp, hEnd, hLe⟩
  rcases skipSmaller_eq mm hSorted hUpper rest hUpperStops
    with ⟨middle, back, hSplit', hSkip', hMiddle, hBack⟩
  refine ⟨lower ++ middle, back, ?_, ?_, ?_, hBack⟩
  · rw [hSplit, hSplit', append_assoc]
  · unfold mmapCursor
    rw [hSkip]
    dsimp only
    rw [hSplit, append_assoc, drop_left, hSkip', length_append]
    rfl
  · intro q hMem
    rcases mem_append.mp hMem with hLow | hMid
    · exact Or.inl (hLower q hLow)
    · exact hMiddle q hMid

/- Without the condition there is none. -/
theorem runs_off (hSize : mm.size ≠ 0) (hStops : ¬ CursorStops mmap mm) :
    mmapCursor mmap mm = none := by
  rw [hHolds.cursorStops_iff] at hStops
  have hTop : mm.endVa = 2 ^ lay.uintptrBits - 1 := not_not.mp fun hTop => hStops (Or.inl hTop)
  rw [hHolds.eq_cons]
  have hRest : ∀ q ∈ List.replicate (lay.mmapNum - used.length) (Entry.empty : Entry lay),
      q = Entry.empty :=
    fun q hMem => eq_of_mem_replicate hMem
  generalize List.replicate (lay.mmapNum - used.length) Entry.empty = rest at hRest
  rcases skipLowerEnd_eq mm hHolds.size_ne hHolds.sorted
    rest with ⟨lower, upper, hSplit, hSkip, -, hUpper⟩
  have hEmpty : (Entry.empty : Entry lay).endVa = mm.endVa ∧
      (Entry.empty : Entry lay).size < mm.size :=
    ⟨by rw [Entry.endVa_empty, hTop], Nat.pos_of_ne_zero hSize⟩
  unfold mmapCursor
  rw [hSkip]
  dsimp only
  rw [hSplit, append_assoc, drop_left, skipSmaller_none]
  · rfl
  · intro q hMem
    rcases mem_append.mp hMem with hUp | hBehind
    · have hLt := q.endVa_lt
      have hGe := hUpper q hUp
      refine ⟨by omega, ?_⟩
      by_contra hLarge
      refine hStops (Or.inr ⟨q, ?_, by omega, by omega⟩)
      rw [hSplit]
      exact mem_append_right lower hUp
    · rcases mem_cons.mp hBehind with rfl | hMore
      · exact hEmpty
      · rw [hRest q hMore]
        exact hEmpty

end

end Holds

----
-- Moving Entries
----

/- The entries move up by one place. -/
theorem memmove_up (front moved : List (Entry lay)) (last : Entry lay) (behind : List (Entry lay)) :
    ∃ first, memmove (front ++ moved ++ last :: behind) (front.length + 1) front.length
          (front.length + moved.length) =
        some (front ++ first :: (moved ++ behind)) := by
  have hNe : moved ++ last :: behind ≠ [] := by simp
  rcases exists_cons_of_ne_nil hNe with ⟨first, others, hFirst⟩
  refine ⟨first, ?_⟩
  have hDrop :
      List.drop (front.length + 1 + moved.length)
        (front ++ (moved ++ last :: behind)) = behind := by
    rw [Nat.add_assoc, ← drop_drop, drop_left, Nat.add_comm, ← drop_drop, drop_left]
    rfl
  have hTake :
      List.take (front.length + 1) (front ++ (moved ++ last :: behind)) = front ++ [first] := by
    rw [take_length_add_append, hFirst]
    rfl
  unfold memmove
  dsimp only
  rw [Nat.add_sub_cancel_left, append_assoc, hDrop, hTake, drop_left, take_left, if_neg]
  · rw [append_assoc, append_assoc]
    rfl
  · simp only [length_append, length_cons]
    omega

theorem memmove_down
    (front : List (Entry lay)) (first : Entry lay) (moved : List (Entry lay)) (last : Entry lay) :
    memmove (front ++ first :: (moved ++ [last])) front.length
        (front.length + 1) (front.length + moved.length + 2) =
      some (front ++ (moved ++ [last, last])) := by
  have hCount : front.length + moved.length + 2 - (front.length + 1) = moved.length + 1 := by omega
  have hSrc :
      List.drop (front.length + 1) (front ++ first :: (moved ++ [last])) = moved ++ [last] := by
    rw [← drop_drop, drop_left]
    rfl
  have hLong : moved.length + 1 = (moved ++ [last]).length := by
    rw [length_append, length_singleton]
  have hRest :
      List.drop (front.length + (moved.length + 1))
        (front ++ first :: (moved ++ [last])) = [last] := by
    rw [← drop_drop, drop_left, drop_succ_cons, drop_left]
  unfold memmove
  dsimp only
  rw [hCount, hRest, hSrc, take_left, hLong, take_length, if_neg]
  · rw [append_assoc, append_assoc]
    rfl
  · simp only [length_append, length_cons, length_nil]
    omega

/-
  The insertion.  The entries that move are followed by an
  empty one, and the last of the array is empty too.
-/
theorem insertAt_eq (mm : Entry lay) {front moved behind back : List (Entry lay)} {k : Nat}
    (hMoved : moved ++ behind = back ++ List.replicate (k + 1) .empty)
    (hLength : front.length + (moved ++ behind).length = lay.mmapNum) :
    insertAt (front ++ moved ++ .empty :: behind) mm front.length (front.length + moved.length) =
      some (front ++ mm :: (back ++ List.replicate (k + 1) .empty)) := by
  rcases memmove_up front moved .empty behind with ⟨first, hMove⟩
  have hSentinel : (front ++ first :: (moved ++ behind))[lay.mmapNum]? = some .empty := by
    rw [hMoved] at hLength
    rw [hMoved, ← hLength, getElem?_append_right
      (Nat.le_add_right _ _), Nat.add_sub_cancel_left, length_append, length_replicate,
      ← Nat.add_assoc, getElem?_cons_succ, getElem?_append_right (Nat.le_add_right _ _),
      Nat.add_sub_cancel_left]
    exact getElem?_replicate_of_lt (Nat.lt_succ_self k)
  unfold insertAt
  rw [hMove]
  dsimp only
  rw [hSentinel]
  dsimp only
  rw [if_neg (fun h => h rfl), set_append_right _ _
    (Nat.le_refl _), Nat.sub_self, set_cons_zero, hMoved]

/- The last marker is the first empty entry. -/
theorem findLast_eq (hSizes : ∀ q ∈ used, q.size ≠ 0) (rest : List (Entry lay)) {left : Nat}
    (hLeft : used.length ≤ left) :
    findLast left (used ++ .empty :: rest) = some used.length := by
  induction used generalizing left with
  | nil => exact if_neg fun h => h.1 rfl
  | cons a used ih =>
    rw [length_cons] at hLeft
    rw [cons_append]
    unfold findLast
    rw [if_pos ⟨hSizes a mem_cons_self, by omega⟩,
      ih (fun q hq => hSizes q (mem_cons_of_mem a hq)) (by omega)]
    rfl

----
-- The Calls
----

/- The array with the region at its place. -/
def inserted (front back : List (Entry lay))
    (mm : Entry lay) : List (Entry lay) :=
  front ++ mm :: (back ++ List.replicate (lay.mmapNum - (front ++ back).length) .empty)

namespace Holds

variable {mmap used front back : List (Entry lay)}
variable {mm : Entry lay}

/- The insertion of a region that passed the check. -/
theorem holds_inserted
    (hHolds : Holds mmap used) (hSplit : used = front ++ back) (hFront : ∀ q ∈ front, q.Before mm)
    (hBack : ∀ q ∈ back, mm.Before q) (hValid : mm.Valid) (hShort : used.length < lay.mmapNum)
    (hCompat : ∀ q ∈ used, mm.Compatible q) :
    Holds (inserted front back mm) (front ++ mm :: back) := by
  have hPerm : (front ++ mm :: back).Perm (mm :: used) := by
    rw [hSplit]
    exact perm_middle
  have hLength := hPerm.length_eq
  rw [length_cons] at hLength
  refine ⟨?_, by omega, ?_, ?_, ?_⟩
  · have hRest : lay.mmapNum + 1 -
        (front ++ mm :: back).length = lay.mmapNum - (front ++ back).length := by
      rw [hLength, ← hSplit]
      omega
    unfold inserted
    rw [hRest, append_assoc, cons_append]
  · intro q hMem
    rcases mem_cons.mp (hPerm.mem_iff.mp hMem) with
      rfl | hOld
    · exact hValid
    · exact hHolds.valid q hOld
  · have hSorted := hHolds.sorted
    rw [hSplit, pairwise_append] at hSorted
    refine pairwise_append.mpr
      ⟨hSorted.1, pairwise_cons.mpr ⟨hBack, hSorted.2.1⟩, ?_⟩
    intro q hq q' hq'
    rcases mem_cons.mp hq' with rfl | hOld
    · exact hFront q hq
    · exact hSorted.2.2 q hq q' hOld
  · rw [hPerm.pairwise_iff Entry.Compatible.symm]
    exact pairwise_cons.mpr ⟨hCompat, hHolds.compatible⟩

theorem inserts
    (hHolds : Holds mmap used) (hSplit : used = front ++ back)
    (hCursor : mmapCursor mmap mm = some front.length)
    (hInserted : Holds (inserted front back mm) (front ++ mm :: back)) :
    Inserts mmap mm (inserted front back mm) := by
  refine ⟨front.length, used, front ++ mm :: back, hCursor, hHolds, ?_, hInserted, ?_⟩
  · rw [hSplit, length_append]
    exact Nat.le_add_right _ _
  · rw [hSplit]
    exact perm_middle

/- The array before the insertion. -/
theorem split_eq (hHolds : Holds mmap used) (hSplit : used = front ++ back) :
    mmap = front ++ back ++ .empty :: List.replicate (lay.mmapNum - (front ++ back).length)
        .empty := by
  rw [← hSplit]
  exact hHolds.eq_cons

/- The places that are left, the last one apart. -/
theorem room_eq (hSplit : used = front ++ back) (hShort : used.length < lay.mmapNum) :
    ∃ k, lay.mmapNum - (front ++ back).length = k + 1 ∧
      front.length + back.length + (k + 1) = lay.mmapNum := by
  refine ⟨lay.mmapNum - used.length - 1, ?_, ?_⟩
  · rw [← hSplit]
    omega
  · rw [hSplit, length_append] at hShort ⊢
    omega

/- `mmap_add_region_ctx` moves up to the last marker. -/
theorem insertAt_static (hHolds : Holds mmap used) (hSplit : used = front ++ back)
    (hShort : used.length < lay.mmapNum) :
    insertAt mmap mm front.length used.length = some (inserted front back mm) := by
  rcases room_eq hSplit hShort with ⟨k, hRoom, hLength⟩
  unfold inserted
  rw [hHolds.split_eq hSplit, hRoom, hSplit, length_append]
  refine insertAt_eq mm rfl ?_
  rw [length_append, length_replicate]
  omega

/- The dynamic call moves up to the last entry. -/
theorem insertAt_dynamic (hHolds : Holds mmap used) (hSplit : used = front ++ back)
    (hShort : used.length < lay.mmapNum) :
    insertAt mmap mm front.length lay.mmapNum = some (inserted front back mm) := by
  rcases room_eq hSplit hShort with ⟨k, hRoom, hLength⟩
  have hArray : mmap = front ++ (back ++ List.replicate (k + 1) .empty) ++ .empty :: [] := by
    rw [hHolds.split_eq hSplit, hRoom, ← replicate_succ,
      replicate_succ', append_assoc, append_assoc, append_assoc]
  have hMoved : front.length +
      (back ++ List.replicate (k + 1) (Entry.empty : Entry lay)).length = lay.mmapNum := by
    rw [length_append, length_replicate]
    omega
  have hInsert := @insertAt_eq lay mm front (back ++ List.replicate (k + 1) .empty) [] back k
    (append_nil _) (by rw [append_nil, hMoved])
  rw [hMoved, ← hArray] at hInsert
  unfold inserted
  rw [hInsert, hRoom]

/- The removal of the entry undoes the insertion. -/
theorem memmove_inserted (hHolds : Holds mmap used) (hSplit : used = front ++ back)
    (hShort : used.length < lay.mmapNum) :
    memmove (inserted front back mm) front.length (front.length + 1) (lay.mmapNum + 1) =
      some mmap := by
  rcases room_eq hSplit hShort with ⟨k, hRoom, hLength⟩
  have hLast : lay.mmapNum + 1 = front.length +
      (back ++ List.replicate k (Entry.empty : Entry lay)).length + 2 := by
    rw [length_append, length_replicate]
    omega
  have hArray : mmap = front ++ ((back ++ List.replicate k .empty) ++ [.empty, .empty]) := by
    rw [hHolds.split_eq hSplit, hRoom, ← replicate_succ, replicate_succ', replicate_succ',
      append_assoc, append_assoc, append_assoc]
    rfl
  unfold inserted
  rw [hRoom, replicate_succ', ← append_assoc, hLast, memmove_down, hArray]

end Holds

----
-- Every Run
----

/- The context that `REGISTER_XLAT_CONTEXT` defines. -/
def Ctx.fresh : Ctx lay where
  mmap := List.replicate (lay.mmapNum + 1) .empty
  maxPa := 0
  maxVa := 0
  initialized := false

/- The contexts that additions and the initialisation give. -/
inductive Reachable : Ctx lay → Prop
  | fresh : Reachable .fresh
  | init {ctx : Ctx lay} : Reachable ctx → Reachable { ctx with initialized := true }
  | static {ctx ctx' : Ctx lay} (mm : Entry lay) : Reachable ctx →
      mmapAddRegionCtx ctx mm = some ctx' → Reachable ctx'
  | dynamic {ctx ctx' : Ctx lay} {ret : Int} (mapped : Nat) (mm : Entry lay) : Reachable ctx →
      mmapAddDynamicRegionCtx mapped ctx mm = some (ctx', ret) → Reachable ctx'

/-
  What a call that passes the check does with the array: it
  inserts the region, or takes it out again when the tables
  cannot map it.
-/
structure AddsWell (ctx : Ctx lay) : Prop where
  holds : ∃ used, Holds ctx.mmap used
  static : ∀ mm : Entry lay, mm.size ≠ 0 → ctx.initialized = false →
    mmapAddRegionCheck ctx.mmap mm = some 0 →
    ((∃ ctx', mmapAddRegionCtx ctx mm = some ctx' ∧ Inserts ctx.mmap mm ctx'.mmap) ↔
      CursorStops ctx.mmap mm)
  dynamic : ∀ (mapped : Nat) (mm : Entry lay), mm.size ≠ 0 →
    mmapAddRegionCheck ctx.mmap mm.setDynamic = some 0 →
    ((∃ ctx' ret, mmapAddDynamicRegionCtx mapped ctx mm = some (ctx', ret) ∧
        ∃ mmap, Inserts ctx.mmap mm.setDynamic mmap ∧
          ((ret = 0 ∧ ctx'.mmap = mmap) ∨ (ret = -enomem ∧ ctx'.mmap = ctx.mmap))) ↔
      CursorStops ctx.mmap mm.setDynamic)

theorem holds_fresh : Holds (Ctx.fresh : Ctx lay).mmap [] :=
  ⟨rfl, Nat.zero_le _, nofun, .nil, .nil⟩

variable {ctx : Ctx lay}

/- What a static call does. -/
theorem mmapAddRegionCtx_inserted
    {front back : List (Entry lay)} (hHolds : Holds ctx.mmap used) (hSize : mm.size ≠ 0)
    (hInit : ctx.initialized = false) (hCheck : mmapAddRegionCheck ctx.mmap mm = some 0)
    (hShort : used.length < lay.mmapNum) (hSplit : used = front ++ back)
    (hCursor : mmapCursor ctx.mmap mm = some front.length) :
    mmapAddRegionCtx ctx mm =
      some (Ctx.raiseMax { ctx with mmap := inserted front back mm } mm) := by
  have hLast : findLast lay.mmapNum ctx.mmap = some used.length := by
    rw [hHolds.eq_cons]
    exact findLast_eq hHolds.size_ne _ hHolds.le
  have hMarker : ctx.mmap[used.length]? = some .empty := by
    rw [hHolds.eq_cons, getElem?_append_right (Nat.le_refl _), Nat.sub_self]
    rfl
  unfold mmapAddRegionCtx
  rw [if_neg hSize, hInit, if_neg Bool.false_ne_true, if_neg (not_not.mpr hCheck), hCursor]
  rw [hLast]
  dsimp only
  rw [hMarker]
  dsimp only
  rw [if_neg (fun h => h rfl), hHolds.insertAt_static hSplit hShort]
  rfl

theorem mmapAddRegionCtx_eq
    (hHolds : Holds ctx.mmap used) (hSize : mm.size ≠ 0) (hInit : ctx.initialized = false)
    (hCheck : mmapAddRegionCheck ctx.mmap mm = some 0) (hStops : CursorStops ctx.mmap mm) :
    ∃ ctx', mmapAddRegionCtx ctx mm = some ctx' ∧ Inserts ctx.mmap mm ctx'.mmap := by
  rcases hHolds.of_check hSize hCheck with ⟨hValid, hShort, hCompat⟩
  rcases hHolds.cursor hStops with ⟨front, back, hSplit, hCursor, hFront, hBack⟩
  exact ⟨_, mmapAddRegionCtx_inserted hHolds hSize hInit hCheck hShort hSplit hCursor,
    hHolds.inserts hSplit hCursor
      (hHolds.holds_inserted hSplit hFront hBack hValid hShort hCompat)⟩

theorem mmapAddDynamicRegionCtx_inserted
    {front back : List (Entry lay)} (mapped : Nat) (hHolds : Holds ctx.mmap used)
    (hSize : mm.size ≠ 0) (hCheck : mmapAddRegionCheck ctx.mmap mm.setDynamic = some 0)
    (hShort : used.length < lay.mmapNum) (hSplit : used = front ++ back)
    (hCursor : mmapCursor ctx.mmap mm.setDynamic = some front.length) :
    mmapAddDynamicRegionCtx mapped ctx mm =
      some (if ctx.initialized ∧ mapped ≠ mm.setDynamic.endVa then (ctx, -enomem)
        else (Ctx.raiseMax { ctx with mmap := inserted front back mm.setDynamic } mm.setDynamic,
          0)) := by
  unfold mmapAddDynamicRegionCtx
  rw [if_neg hSize]
  dsimp only
  rw [hCheck]
  dsimp only
  rw [if_neg (fun h => h rfl), hCursor]
  dsimp only
  rw [hHolds.insertAt_dynamic hSplit hShort, apply_ite some]
  dsimp only
  rw [hHolds.memmove_inserted hSplit hShort]
  rfl

theorem mmapAddDynamicRegionCtx_eq
    (mapped : Nat) (hHolds : Holds ctx.mmap used) (hSize : mm.size ≠ 0)
    (hCheck : mmapAddRegionCheck ctx.mmap mm.setDynamic = some 0)
    (hStops : CursorStops ctx.mmap mm.setDynamic) :
    ∃ ctx' ret, mmapAddDynamicRegionCtx mapped ctx mm = some (ctx', ret) ∧
      ∃ mmap, Inserts ctx.mmap mm.setDynamic mmap ∧
        ((ret = 0 ∧ ctx'.mmap = mmap) ∨ (ret = -enomem ∧ ctx'.mmap = ctx.mmap)) := by
  have hSize' : mm.setDynamic.size ≠ 0 := hSize
  rcases hHolds.of_check hSize' hCheck with ⟨hValid, hShort, hCompat⟩
  rcases hHolds.cursor hStops with ⟨front, back, hSplit, hCursor, hFront, hBack⟩
  have hInserts := hHolds.inserts hSplit hCursor
    (hHolds.holds_inserted hSplit hFront hBack hValid hShort hCompat)
  rw [mmapAddDynamicRegionCtx_inserted mapped hHolds hSize hCheck hShort hSplit hCursor]
  by_cases hUnmapped : ctx.initialized ∧ mapped ≠ mm.setDynamic.endVa
  · rw [if_pos hUnmapped]
    exact ⟨_, _, rfl, _, hInserts, Or.inr ⟨rfl, rfl⟩⟩
  · rw [if_neg hUnmapped]
    exact ⟨_, _, rfl, _, hInserts, Or.inl ⟨rfl, rfl⟩⟩

/- Without the condition neither call gets to the array. -/
theorem mmapAddRegionCtx_none
    (hHolds : Holds ctx.mmap used) (hSize : mm.size ≠ 0) (hStops : ¬ CursorStops ctx.mmap mm) :
    mmapAddRegionCtx ctx mm = none := by
  unfold mmapAddRegionCtx
  rw [if_neg hSize, hHolds.runs_off hSize hStops]
  split
  · rfl
  split
  · rfl
  · rfl

theorem mmapAddDynamicRegionCtx_none
    (mapped : Nat) (hHolds : Holds ctx.mmap used) (hSize : mm.size ≠ 0)
    (hCheck : mmapAddRegionCheck ctx.mmap mm.setDynamic = some 0)
    (hStops : ¬ CursorStops ctx.mmap mm.setDynamic) :
    mmapAddDynamicRegionCtx mapped ctx mm = none := by
  have hSize' : mm.setDynamic.size ≠ 0 := hSize
  unfold mmapAddDynamicRegionCtx
  rw [if_neg hSize]
  dsimp only
  rw [hCheck, hHolds.runs_off hSize' hStops]
  rfl

theorem Inserts.holds {mmap mmap' : List (Entry lay)} (hInserts : Inserts mmap mm mmap') :
    ∃ used, Holds mmap' used := by
  rcases hInserts with ⟨-, -, used', -, -, -, hHolds, -⟩
  exact ⟨used', hHolds⟩

variable {ctx ctx' : Ctx lay}

/- A call keeps the shape of the array. -/
theorem mmapAddRegionCtx_holds
    (hHolds : Holds ctx.mmap used) (hCall : mmapAddRegionCtx ctx mm = some ctx') :
    ∃ used', Holds ctx'.mmap used' := by
  by_cases hSize : mm.size = 0
  · unfold mmapAddRegionCtx at hCall
    rw [if_pos hSize] at hCall
    cases hCall
    exact ⟨used, hHolds⟩
  by_cases hInit : ctx.initialized = true
  · unfold mmapAddRegionCtx at hCall
    rw [if_neg hSize, if_pos hInit] at hCall
    cases hCall
  have hInit' := Bool.eq_false_iff.mpr hInit
  by_cases hCheck : mmapAddRegionCheck ctx.mmap mm = some 0
  · by_cases hStops : CursorStops ctx.mmap mm
    · rcases mmapAddRegionCtx_eq hHolds hSize hInit' hCheck hStops with ⟨ctx'', hSame, hInserts⟩
      rw [hSame] at hCall
      cases hCall
      exact hInserts.holds
    · rw [mmapAddRegionCtx_none hHolds hSize hStops] at hCall
      cases hCall
  · unfold mmapAddRegionCtx at hCall
    rw [if_neg hSize, if_neg hInit, if_pos hCheck] at hCall
    cases hCall

theorem mmapAddDynamicRegionCtx_holds {mapped : Nat} {ret : Int} (hHolds : Holds ctx.mmap used)
    (hCall : mmapAddDynamicRegionCtx mapped ctx mm = some (ctx', ret)) :
    ∃ used', Holds ctx'.mmap used' := by
  by_cases hSize : mm.size = 0
  · unfold mmapAddDynamicRegionCtx at hCall
    rw [if_pos hSize] at hCall
    cases hCall
    exact ⟨used, hHolds⟩
  by_cases hCheck : mmapAddRegionCheck ctx.mmap mm.setDynamic = some 0
  · by_cases hStops : CursorStops ctx.mmap mm.setDynamic
    · rcases mmapAddDynamicRegionCtx_eq mapped hHolds hSize
        hCheck hStops with ⟨ctx'', ret', hSame, mmap, hInserts, hEnd⟩
      rw [hSame] at hCall
      cases hCall
      rcases hEnd with ⟨-, hNew⟩ | ⟨-, hOld⟩
      · rw [hNew]
        exact hInserts.holds
      · rw [hOld]
        exact ⟨used, hHolds⟩
    · rw [mmapAddDynamicRegionCtx_none mapped hHolds hSize hCheck hStops] at hCall
      cases hCall
  · unfold mmapAddDynamicRegionCtx at hCall
    rw [if_neg hSize] at hCall
    dsimp only at hCall
    split at hCall
    · cases hCall
    rename_i ret' hRet
    have hError : ret' ≠ 0 := by
      rintro rfl
      exact hCheck hRet
    rw [if_pos hError] at hCall
    cases hCall
    exact ⟨used, hHolds⟩

/- The array of every context that is reached has its shape. -/
theorem Reachable.holds (hReach : Reachable ctx) :
    ∃ used, Holds ctx.mmap used := by
  induction hReach with
  | fresh => exact ⟨[], holds_fresh⟩
  | init _ ih => exact ih
  | static mm _ hCall ih =>
    rcases ih with ⟨used, hHolds⟩
    exact mmapAddRegionCtx_holds hHolds hCall
  | dynamic mapped mm _ hCall ih =>
    rcases ih with ⟨used, hHolds⟩
    exact mmapAddDynamicRegionCtx_holds hHolds hCall

/-
  In every context that is reached, a call that passes the
  check inserts the region if and only if the cursor stops.
-/
theorem mmap_well_formed {ctx : Ctx lay} (hReach : Reachable ctx) :
    AddsWell ctx := by
  rcases hReach.holds with ⟨used, hHolds⟩
  refine ⟨⟨used, hHolds⟩, ?_, ?_⟩
  · intro mm hSize hInit hCheck
    constructor
    · rintro ⟨ctx', hCall, -⟩
      by_contra hStops
      rw [mmapAddRegionCtx_none hHolds hSize hStops] at hCall
      cases hCall
    · exact mmapAddRegionCtx_eq hHolds hSize hInit hCheck
  · intro mapped mm hSize hCheck
    constructor
    · rintro ⟨ctx', ret, hCall, -⟩
      by_contra hStops
      rw [mmapAddDynamicRegionCtx_none mapped hHolds hSize hCheck hStops] at hCall
      cases hCall
    · exact mmapAddDynamicRegionCtx_eq mapped hHolds hSize hCheck

/- AArch32 with all of its virtual address space. -/
def aarch32Layout : Layout where
  uintptrBits := 32
  virtAddrSpaceBits := 32
  phyAddrSpaceBits := 32
  mmapNum := 4
  platXlatTablesDynamic := false
  arch := Or.inl ⟨rfl, Nat.le_refl 32⟩
  virt_ge := by decide
  phy_le := by decide
  mmapNum_lt := by decide

/- A block of two megabytes, and a page inside of it. -/
def twoMegabytes : Entry aarch32Layout where
  basePa := 0x40200000
  baseVa := 0x80200000
  size := 0x200000
  attr := 0
  granularity := 0x200000
  basePa_lt := by decide
  baseVa_lt := by decide
  size_lt := by decide
  attr_lt := zero_lt_uint
  granularity_lt := by decide

def pageInside : Entry aarch32Layout where
  basePa := 0x40203000
  baseVa := 0x80203000
  size := 0x1000
  attr := 2
  granularity := 0x1000
  basePa_lt := by decide
  baseVa_lt := by decide
  size_lt := by decide
  attr_lt := by decide
  granularity_lt := by decide

def oneRegion : Ctx aarch32Layout where
  mmap := [twoMegabytes, .empty, .empty, .empty, .empty]
  maxPa := 0x403FFFFF
  maxVa := 0x803FFFFF
  initialized := false

/- The page goes in front, and there is room for two more. -/
def nestedRegions : Ctx aarch32Layout where
  mmap := [pageInside, twoMegabytes, .empty, .empty, .empty]
  maxPa := 0x403FFFFF
  maxVa := 0x803FFFFF
  initialized := false

theorem mmap_well_formed_nested : AddsWell nestedRegions := by
  have hFirst : mmapAddRegionCtx .fresh twoMegabytes = some oneRegion := by decide +kernel
  have hSecond : mmapAddRegionCtx oneRegion pageInside = some nestedRegions := by decide +kernel
  exact mmap_well_formed (.static pageInside (.static twoMegabytes .fresh hFirst) hSecond)

/- The last page of the address space. -/
def lastPage : Entry aarch32Layout where
  basePa := 0xFFFFF000
  baseVa := 0xFFFFF000
  size := 4096
  attr := 0
  granularity := 4096
  basePa_lt := by decide
  baseVa_lt := by decide
  size_lt := by decide
  attr_lt := zero_lt_uint
  granularity_lt := by decide

/-
  It passes the check, the first entry is the sentinel, and
  the cursor leaves the array.
-/
theorem mmap_cursor_passes_sentinel :
    mmapAddRegionCheck (Ctx.fresh : Ctx aarch32Layout).mmap lastPage = some 0 ∧
    (Ctx.fresh : Ctx aarch32Layout).mmap[0]? = some .empty ∧
    mmapCursor (Ctx.fresh : Ctx aarch32Layout).mmap lastPage = none ∧
    mmapAddRegionCtx (Ctx.fresh : Ctx aarch32Layout) lastPage = none := by
  decide +kernel

end Tfa.Xlat.MmapArray
