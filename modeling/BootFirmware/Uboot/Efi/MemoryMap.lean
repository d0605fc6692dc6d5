import BootFirmware.Lib.RangeMap
import BootFirmware.Lib.TransitionSystem
import BootFirmware.Uboot.Efi.Model

/-
  The memory map is a partition that gives to each page the
  type it was last added with.

  Carving cuts the new range out of the list, one entry after
  another, and ends; the list is then sorted again.  The one
  thing that can go wrong is a count of carved pages that,
  as an `int`, says there was no overlap: the walk then goes
  on from an entry that has been freed.

  Key definitions include:
    * `EfiMemDesc.toRange` and `Sound`
    * `remain` and `followsFreed`
    * `MemoryMap`

  The main results are:
    * `efi_memory_map`
    * `efi_carve_follows_freed_entry`
-/

----
-- Sound Lists
----

namespace Uboot.Efi

open List

/- The addresses of a descriptor, with its type. -/
def EfiMemDesc.toRange (d : EfiMemDesc) : RangeMap.Range Nat Nat where
  lo := d.physicalStart
  hi := d.physicalStart + d.numPages * efiPageSize
  label := d.type

/- Some pages, aligned, whose addresses do not wrap. -/
structure EfiMemDesc.Fits (d : EfiMemDesc) : Prop where
  pos : 1 ≤ d.numPages
  aligned : d.physicalStart % efiPageSize = 0
  no_wrap : d.toRange.hi < 2 ^ 64

/- A list whose entries fit and descend. -/
structure Sound (mem : List EfiMemDesc) : Prop where
  fits : ∀ d ∈ mem, d.Fits
  descending : RangeMap.Descending (mem.map EfiMemDesc.toRange)

namespace EfiMemDesc

variable {d carve : EfiMemDesc}

section

variable (hFits : d.Fits)
include hFits

theorem Fits.endOf : endOf d.physicalStart d.numPages = d.toRange.hi := by
  have hTop := hFits.no_wrap
  unfold toRange at hTop ⊢
  unfold Efi.endOf u64
  dsimp only at hTop ⊢
  rw [Nat.mod_eq_of_lt (show d.numPages * efiPageSize < 2 ^ 64 by omega), Nat.mod_eq_of_lt hTop]

theorem Fits.lo_lt_hi : d.toRange.lo < d.toRange.hi := by
  have hPos := hFits.pos
  simp only [toRange, efiPageSize]
  omega

/- Both ends are multiples of the page size. -/
theorem Fits.hi_aligned : d.toRange.hi % efiPageSize = 0 := by
  have hAligned := hFits.aligned
  simp only [toRange, efiPageSize] at hAligned ⊢
  omega

/- A descriptor cut down to other aligned ends. -/
theorem Fits.between {start stop : Nat} (hLt : start < stop) (hStart : start % efiPageSize = 0)
    (hStop : stop % efiPageSize = 0) (hLe : stop ≤ d.toRange.hi) :
    let piece : EfiMemDesc :=
      { d with
        physicalStart := start
        numPages := (stop - start) / efiPageSize }
    piece.Fits ∧ piece.toRange = ⟨start, stop, d.type⟩ := by
  have hTop := hFits.no_wrap
  have hPages :
      start + (stop - start) / efiPageSize * efiPageSize = stop := by
    simp only [efiPageSize] at hStart hStop ⊢
    omega
  have hRange :
      EfiMemDesc.toRange
          { d with
            physicalStart := start
            numPages := (stop - start) / efiPageSize } =
        ⟨start, stop, d.type⟩ := by
    unfold toRange
    rw [hPages]
  refine ⟨⟨?_, hStart, ?_⟩, hRange⟩
  · simp only [efiPageSize] at hStart hStop ⊢
    omega
  · rw [hRange]
    exact Nat.lt_of_le_of_lt hLe hTop

end

end EfiMemDesc

----
-- What Carving Leaves
----

/- The ranges of two descriptors have common addresses. -/
def Overlaps (carve d : EfiMemDesc) : Prop :=
  carve.toRange.lo < d.toRange.hi ∧ d.toRange.lo < carve.toRange.hi

instance (carve d : EfiMemDesc) : Decidable (Overlaps carve d) :=
  inferInstanceAs (Decidable (_ ∧ _))

/- The pages of `d` that are carved out. -/
def carvedPages (carve d : EfiMemDesc) : Nat :=
  (min carve.toRange.hi d.toRange.hi - max carve.toRange.lo d.toRange.lo) / efiPageSize

/- The part of `d` above the range carved out. -/
def upperPart (carve d : EfiMemDesc) : List EfiMemDesc :=
  if carve.toRange.hi < d.toRange.hi then
    [{ d with
      physicalStart := carve.toRange.hi
      numPages := (d.toRange.hi - carve.toRange.hi) / efiPageSize }]
  else
    []

/- The part of `d` below the range carved out. -/
def lowerPart (carve d : EfiMemDesc) : List EfiMemDesc :=
  if d.toRange.lo < carve.toRange.lo then
    [{ d with
      numPages := (carve.toRange.lo - d.toRange.lo) / efiPageSize }]
  else
    []

/- The entries that replace `d` in the end. -/
def remain (carve d : EfiMemDesc) : List EfiMemDesc :=
  if Overlaps carve d then
    upperPart carve d ++ lowerPart carve d
  else
    [d]

section Remain

variable {carve d : EfiMemDesc}

/- The part of an entry above the start of the range. -/
def fromCarve (carve d : EfiMemDesc) : EfiMemDesc :=
  { d with
    physicalStart := carve.toRange.lo
    numPages := (d.toRange.hi - carve.toRange.lo) / efiPageSize }

section

variable (hFits : d.Fits) (hCarve : carve.Fits)
include hFits hCarve

theorem mem_upperPart {e : EfiMemDesc} (he : e ∈ upperPart carve d) :
    e.Fits ∧ e.toRange = ⟨carve.toRange.hi, d.toRange.hi, d.type⟩ := by
  unfold upperPart at he
  split at he
  · rename_i hTop
    rw [mem_singleton.mp he]
    exact hFits.between hTop hCarve.hi_aligned hFits.hi_aligned (Nat.le_refl _)
  · cases he

theorem mem_lowerPart (hOver : Overlaps carve d) {e : EfiMemDesc} (he : e ∈ lowerPart carve d) :
    e.Fits ∧ e.toRange = ⟨d.toRange.lo, carve.toRange.lo, d.type⟩ := by
  unfold lowerPart at he
  split at he
  · rename_i hBottom
    rw [mem_singleton.mp he]
    exact hFits.between hBottom hFits.aligned hCarve.aligned (Nat.le_of_lt hOver.1)
  · cases he

theorem remain_fits : ∀ e ∈ remain carve d, e.Fits := by
  intro e he
  unfold remain at he
  split at he
  · rename_i hOver
    rcases mem_append.mp he with hUp | hLow
    · exact (mem_upperPart hFits hCarve hUp).1
    · exact (mem_lowerPart hFits hCarve hOver hLow).1
  · rw [mem_singleton.mp he]
    exact hFits

/- On ranges, carving is cutting. -/
theorem map_toRange_remain :
    (remain carve d).map EfiMemDesc.toRange = RangeMap.cut carve.toRange.lo carve.toRange.hi
        d.toRange := by
  unfold remain RangeMap.cut
  by_cases hOver : Overlaps carve d
  · rw [if_pos hOver, if_neg (by unfold Overlaps at hOver; omega), map_append]
    congr 1
    · by_cases hTop : carve.toRange.hi < d.toRange.hi
      · have hMem :
            upperPart carve d = [{ d with
                physicalStart := carve.toRange.hi
                numPages := (d.toRange.hi - carve.toRange.hi) / efiPageSize }] := if_pos hTop
        rw [hMem, if_pos hTop, map_singleton, (mem_upperPart hFits hCarve (hMem ▸ mem_cons_self)).2]
        rfl
      · rw [if_neg hTop, upperPart, if_neg hTop]
        rfl
    · by_cases hBottom : d.toRange.lo < carve.toRange.lo
      · have hMem :
            lowerPart carve d = [{ d with
                numPages := (carve.toRange.lo - d.toRange.lo) / efiPageSize }] := if_pos hBottom
        rw [hMem, if_pos hBottom, map_singleton,
          (mem_lowerPart hFits hCarve hOver (hMem ▸ mem_cons_self)).2]
        rfl
      · rw [if_neg hBottom, lowerPart, if_neg hBottom]
        rfl
  · rw [if_neg hOver, if_pos (by unfold Overlaps at hOver; omega)]
    rfl

end

theorem remain_of_not_overlaps (hApart : ¬ Overlaps carve d) :
    remain carve d = [d] :=
  if_neg hApart

end Remain

variable {mem : List EfiMemDesc} {carve : EfiMemDesc}

/- Carving a whole list keeps it sound. -/
theorem Sound.flatMap_remain (hSound : Sound mem) (hCarve : carve.Fits) :
    (mem.flatMap (remain carve)).map EfiMemDesc.toRange =
        (mem.map EfiMemDesc.toRange).flatMap (RangeMap.cut carve.toRange.lo carve.toRange.hi) ∧
      Sound (mem.flatMap (remain carve)) := by
  have hMap :
      (mem.flatMap (remain carve)).map EfiMemDesc.toRange =
        (mem.map EfiMemDesc.toRange).flatMap (RangeMap.cut carve.toRange.lo carve.toRange.hi) := by
    rw [map_flatMap, flatMap_map]
    apply flatMap_congr
    intro d hd
    exact map_toRange_remain (hSound.fits d hd) hCarve
  refine ⟨hMap, ⟨?_, ?_⟩⟩
  · intro e he
    rcases mem_flatMap.mp he with ⟨d, hd, he⟩
    exact remain_fits (hSound.fits d hd) hCarve e he
  · rw [hMap]
    exact hSound.descending.flatMap_cut hCarve.lo_lt_hi

----
-- One Entry
----

/- The carving stops at this entry with an error. -/
def Refuses (overlapOnlyRam : Bool)
    (d : EfiMemDesc) : Prop :=
  overlapOnlyRam = true ∧ d.type ≠ efiConventionalMemory

instance (ram : Bool) (d : EfiMemDesc) : Decidable (Refuses ram d) :=
  inferInstanceAs (Decidable (_ ∧ _))

section CarveOut

variable {carve d : EfiMemDesc} {ram : Bool}

section

variable (hFits : d.Fits) (hCarve : carve.Fits)
include hFits hCarve

theorem efiMemCarveOut_apart (hApart : ¬ Overlaps carve d) :
    efiMemCarveOut d carve ram = ([d], efiCarveNoOverlap) := by
  unfold efiMemCarveOut
  dsimp only
  rw [hFits.endOf, hCarve.endOf]
  unfold Overlaps at hApart
  refine if_pos ?_
  change carve.toRange.hi ≤ d.toRange.lo ∨ carve.toRange.lo ≥ d.toRange.hi
  omega

section

variable (hOver : Overlaps carve d)
include hOver

theorem efiMemCarveOut_refuses (hRefuses : Refuses ram d) :
    efiMemCarveOut d carve ram = ([d], efiCarveOverlapsNonram) := by
  unfold Refuses at hRefuses
  unfold efiMemCarveOut
  dsimp only
  rw [hFits.endOf, hCarve.endOf]
  rw [if_neg, if_pos hRefuses]
  change ¬ (carve.toRange.hi ≤ d.toRange.lo ∨ carve.toRange.lo ≥ d.toRange.hi)
  unfold Overlaps at hOver
  omega

/- An entry that starts in the range is trimmed or freed. -/
theorem efiMemCarveOut_trims
    (hAccepts : ¬ Refuses ram d) (hStart : carve.toRange.lo ≤ d.toRange.lo) :
    efiMemCarveOut d carve ram = (upperPart carve d, toInt (carvedPages carve d)) := by
  unfold Overlaps at hOver
  unfold Refuses at hAccepts
  have hMax : max carve.physicalStart d.physicalStart = d.physicalStart := Nat.max_eq_right hStart
  unfold efiMemCarveOut
  dsimp only
  rw [hFits.endOf, hCarve.endOf]
  rw [if_neg (by
      change ¬ (carve.toRange.hi ≤ d.toRange.lo ∨ carve.toRange.lo ≥ d.toRange.hi)
      omega),
    if_neg hAccepts, hMax, if_pos rfl]
  refine Prod.ext ?_ ?_
  · unfold upperPart
    by_cases hTop : carve.toRange.hi < d.toRange.hi
    · rw [if_neg (by omega), if_pos hTop, Nat.min_eq_left (Nat.le_of_lt hTop)]
    · rw [if_pos (by omega), if_neg hTop]
  · unfold carvedPages
    rw [show max carve.toRange.lo d.toRange.lo = d.physicalStart from hMax]

theorem efiMemCarveOut_splits
    (hAccepts : ¬ Refuses ram d) (hStart : d.toRange.lo < carve.toRange.lo) :
    efiMemCarveOut d carve ram = (fromCarve carve d :: lowerPart carve d, efiCarveLoopAgain) := by
  unfold Overlaps at hOver
  unfold Refuses at hAccepts
  have hMax :
      max carve.physicalStart d.physicalStart = carve.physicalStart :=
    Nat.max_eq_left (Nat.le_of_lt hStart)
  unfold efiMemCarveOut
  dsimp only
  rw [hFits.endOf, hCarve.endOf]
  rw [if_neg (by
      change ¬ (carve.toRange.hi ≤ d.toRange.lo ∨ carve.toRange.lo ≥ d.toRange.hi)
      omega),
    if_neg hAccepts, hMax, if_neg]
  · unfold lowerPart
    rw [if_pos hStart]
    rfl
  · exact Nat.ne_of_gt hStart

/- The upper part of a split entry is carved like the whole. -/
theorem fromCarve_facts (hStart : d.toRange.lo < carve.toRange.lo) :
    (fromCarve carve d).Fits ∧
      (fromCarve carve d).toRange = ⟨carve.toRange.lo, d.toRange.hi, d.type⟩ ∧
      Overlaps carve (fromCarve carve d) ∧
      carvedPages carve (fromCarve carve d) = carvedPages carve d ∧
      remain carve (fromCarve carve d) ++ lowerPart carve d = remain carve d := by
  rcases hFits.between hOver.1 hCarve.aligned hFits.hi_aligned (Nat.le_refl _) with ⟨hFits', hRange⟩
  have hFrom : (fromCarve carve d).toRange = ⟨carve.toRange.lo, d.toRange.hi, d.type⟩ := hRange
  have hOver' : Overlaps carve (fromCarve carve d) := by
    unfold Overlaps
    rw [hFrom]
    exact ⟨hOver.1, hCarve.lo_lt_hi⟩
  refine ⟨hFits', hFrom, hOver', ?_, ?_⟩
  · unfold carvedPages
    rw [hFrom]
    rw [Nat.max_self, Nat.max_eq_left (Nat.le_of_lt hStart)]
  · unfold remain
    rw [if_pos hOver', if_pos hOver]
    have hLow : lowerPart carve (fromCarve carve d) = [] := by
      unfold lowerPart
      rw [hFrom]
      exact if_neg (Nat.lt_irrefl _)
    have hUp : upperPart carve (fromCarve carve d) = upperPart carve d := by
      unfold upperPart
      rw [hFrom]
      rfl
    rw [hLow, hUp, append_nil]

end

end

end CarveOut

----
-- One Walk
----

/-
  The walk comes to an entry whose upper end is carved away
  with a count that, as an `int`, says that nothing overlaps,
  and no entry before makes it give up.
-/
def followsFreed (carve : EfiMemDesc)
    (ram : Bool) : List EfiMemDesc → Bool
  | [] => false
  | d :: rest =>
    if ¬ Overlaps carve d then
      followsFreed carve ram rest
    else if Refuses ram d ∨ carvedPages carve d % 2 ^ 32 = 2 ^ 32 - 3 then
      false
    else if carvedPages carve d % 2 ^ 32 = 2 ^ 32 - 1 ∧ d.toRange.hi ≤ carve.toRange.hi then
      true
    else
      followsFreed carve ram rest

/- How many walks an entry still takes. -/
def walksFor (carve d : EfiMemDesc) : Nat :=
  if ¬ Overlaps carve d then 0
  else if d.toRange.lo < carve.toRange.lo then 2
  else 1

/- How many walks a list still takes. -/
def walksLeft (carve : EfiMemDesc) : List EfiMemDesc → Nat
  | [] => 0
  | d :: rest => walksFor carve d + walksLeft carve rest

/- An entry lies within another one. -/
def Within (e d : EfiMemDesc) : Prop :=
  d.toRange.lo ≤ e.toRange.lo ∧ e.toRange.hi ≤ d.toRange.hi

/- What a walk over a list achieves. -/
def Pass.Right (carve : EfiMemDesc) (ram : Bool)
    (mem : List EfiMemDesc) : Pass → Prop
  | .useAfterFree => followsFreed carve ram mem = true
  | .overlapsNonram _ => followsFreed carve ram mem = false
  | .again mem' _ =>
    Sound mem' ∧ (∀ e ∈ mem', ∃ d ∈ mem, Within e d) ∧
      mem'.flatMap (remain carve) = mem.flatMap (remain carve) ∧
      walksLeft carve mem' < walksLeft carve mem ∧
      followsFreed carve ram mem' = followsFreed carve ram mem
  | .done mem' => mem' = mem.flatMap (remain carve) ∧ followsFreed carve ram mem = false

section Walk

variable {carve d : EfiMemDesc} {ram : Bool} {now rest mem mem' : List EfiMemDesc}

theorem Sound.of_cons (hSound : Sound (d :: rest)) :
    Sound rest where
  fits e he := hSound.fits e (mem_cons_of_mem d he)
  descending := hSound.descending.of_cons

/- Put entries within the first one in its place. -/
theorem Sound.replace_first (hSound : Sound (d :: rest)) (hNow : Sound now) (hRest : Sound mem')
    (hIn : ∀ e ∈ now, Within e d) (hUnder : ∀ e ∈ mem', ∃ f ∈ rest, Within e f) :
    Sound (now ++ mem') where
  fits e he := by
    rcases mem_append.mp he with he | he
    · exact hNow.fits e he
    · exact hRest.fits e he
  descending := by
    rw [map_append]
    refine ⟨?_, ?_⟩
    · intro r hr
      rcases mem_append.mp hr with hr | hr
      · exact hNow.descending.nonempty r hr
      · exact hRest.descending.nonempty r hr
    · refine pairwise_append.mpr ⟨hNow.descending.below, hRest.descending.below, ?_⟩
      intro a ha b hb
      rcases mem_map.mp ha with ⟨e, he, rfl⟩
      rcases mem_map.mp hb with ⟨e', he', rfl⟩
      rcases hUnder e' he' with ⟨f, hf, hWithin⟩
      have hBelow := (pairwise_cons.mp hSound.descending.below).1 f.toRange (mem_map_of_mem hf)
      exact hWithin.2.trans (hBelow.trans (hIn e he).1)

theorem within_refl (rest : List EfiMemDesc) :
    ∀ e ∈ rest, ∃ f ∈ rest, Within e f :=
  fun e he => ⟨e, he, le_rfl, le_rfl⟩

theorem remain_facts (hFits : d.Fits) (hCarve : carve.Fits) :
    Sound (remain carve d) ∧ (∀ e ∈ remain carve d, Within e d) ∧
      ∀ e ∈ remain carve d, ¬ Overlaps carve e := by
  have hMap := map_toRange_remain hFits hCarve
  have hPiece :
      ∀ e ∈ remain carve d,
        e.toRange.lo < e.toRange.hi ∧ d.toRange.lo ≤ e.toRange.lo ∧ e.toRange.hi ≤ d.toRange.hi ∧
          (carve.toRange.hi ≤ e.toRange.lo ∨ e.toRange.hi ≤ carve.toRange.lo) := by
    intro e he
    have hIn := mem_map_of_mem (f := EfiMemDesc.toRange) he
    rw [hMap] at hIn
    exact RangeMap.mem_cut hFits.lo_lt_hi hIn
  refine ⟨⟨remain_fits hFits hCarve, ?_⟩, ?_, ?_⟩
  · rw [hMap]
    refine ⟨?_, RangeMap.pairwise_cut hCarve.lo_lt_hi _⟩
    intro r hr
    exact (RangeMap.mem_cut hFits.lo_lt_hi hr).1
  · intro e he
    exact ⟨(hPiece e he).2.1, (hPiece e he).2.2.1⟩
  · intro e he hOver
    have hApart := (hPiece e he).2.2.2
    unfold Overlaps at hOver
    omega

theorem flatMap_remain_of_apart (hApart : ∀ e ∈ mem, ¬ Overlaps carve e) :
    mem.flatMap (remain carve) = mem := by
  induction mem with
  | nil => rfl
  | cons e rest ih =>
    rw [flatMap_cons, remain_of_not_overlaps (hApart e mem_cons_self),
      ih fun f hf => hApart f (mem_cons_of_mem e hf)]
    rfl

theorem walksLeft_cons :
    walksLeft carve (d :: rest) = walksFor carve d + walksLeft carve rest := rfl

theorem walksLeft_append :
    walksLeft carve (now ++ rest) = walksLeft carve now + walksLeft carve rest := by
  induction now with
  | nil => exact (Nat.zero_add _).symm
  | cons e now ih => rw [cons_append, walksLeft_cons, walksLeft_cons, ih, Nat.add_assoc]

theorem walksLeft_of_apart (hApart : ∀ e ∈ mem, ¬ Overlaps carve e) :
    walksLeft carve mem = 0 := by
  induction mem with
  | nil => rfl
  | cons e rest ih =>
    rw [walksLeft_cons, ih fun f hf => hApart f (mem_cons_of_mem e hf), Nat.add_zero]
    exact if_pos (hApart e mem_cons_self)

theorem followsFreed_append (hApart : ∀ e ∈ now, ¬ Overlaps carve e) :
    followsFreed carve ram (now ++ rest) = followsFreed carve ram rest := by
  induction now with
  | nil => rfl
  | cons e now ih =>
    rw [cons_append, followsFreed, if_pos (hApart e mem_cons_self)]
    exact ih fun f hf => hApart f (mem_cons_of_mem e hf)

/- A walk goes on behind an entry it is done with. -/
theorem Pass.Right.under
    {p : Pass} (hRight : p.Right carve ram rest) (hSound : Sound (d :: rest)) (hCarve : carve.Fits)
    (hSame : followsFreed carve ram (d :: rest) = followsFreed carve ram rest) :
    (p.under (remain carve d)).Right carve ram (d :: rest) := by
  rcases remain_facts (hSound.fits d mem_cons_self) hCarve with ⟨hNow, hIn, hApart⟩
  cases p with
  | useAfterFree => exact hSame.trans hRight
  | overlapsNonram mem' => exact hSame.trans hRight
  | done mem' =>
    rcases hRight with ⟨rfl, hNone⟩
    exact ⟨flatMap_cons.symm, hSame.trans hNone⟩
  | again mem' carved =>
    rcases hRight with ⟨hSound', hUnder, hFlat, hLess, hFollows⟩
    refine ⟨hSound.replace_first hNow hSound' hIn hUnder, ?_, ?_, ?_, ?_⟩
    · intro e he
      rcases mem_append.mp he with he | he
      · exact ⟨d, mem_cons_self, hIn e he⟩
      · rcases hUnder e he with ⟨f, hf, hWithin⟩
        exact ⟨f, mem_cons_of_mem d hf, hWithin⟩
    · rw [flatMap_append, flatMap_remain_of_apart hApart, hFlat]
      rfl
    · rw [walksLeft_append, walksLeft_of_apart hApart, walksLeft_cons]
      omega
    · rw [followsFreed_append hApart, hFollows, hSame]

section

variable (hSound : Sound (d :: rest))
include hSound

/- A walk that ends at an entry it has trimmed or dropped. -/
theorem Pass.right_again_trimmed (hCarve : carve.Fits) (hOver : Overlaps carve d)
    (hSame : followsFreed carve ram (d :: rest) = followsFreed carve ram rest) (carved : Int) :
    (Pass.again (remain carve d ++ rest) carved).Right carve ram (d :: rest) := by
  rcases remain_facts (hSound.fits d mem_cons_self) hCarve with ⟨hNow, hIn, hApart⟩
  refine ⟨hSound.replace_first hNow hSound.of_cons hIn (within_refl rest), ?_, ?_, ?_, ?_⟩
  · intro e he
    rcases mem_append.mp he with he | he
    · exact ⟨d, mem_cons_self, hIn e he⟩
    · exact ⟨e, mem_cons_of_mem d he, le_rfl, le_rfl⟩
  · rw [flatMap_append, flatMap_remain_of_apart hApart, flatMap_cons]
  · rw [walksLeft_append, walksLeft_of_apart hApart, walksLeft_cons]
    have hSome : 0 < walksFor carve d := by
      unfold walksFor
      rw [if_neg (not_not.mpr hOver)]
      split <;> decide
    omega
  · rw [followsFreed_append hApart, hSame]

/- A walk that ends at an entry it has split. -/
theorem Pass.right_again_split
    (hCarve : carve.Fits) (hOver : Overlaps carve d) (hStart : d.toRange.lo < carve.toRange.lo) :
    (Pass.again
      (fromCarve carve d :: lowerPart carve d ++ rest) 0).Right carve ram (d :: rest) := by
  have hFits := hSound.fits d mem_cons_self
  rcases fromCarve_facts hFits hCarve hOver hStart with ⟨hFits', hFrom, hOver', hPages, hRemain⟩
  have hLow :
      ∀ e ∈ lowerPart carve d, e.Fits ∧ e.toRange = ⟨d.toRange.lo, carve.toRange.lo, d.type⟩ :=
    fun e he => mem_lowerPart hFits hCarve hOver he
  have hApart : ∀ e ∈ lowerPart carve d, ¬ Overlaps carve e := by
    intro e he hMeet
    unfold Overlaps at hMeet
    rw [(hLow e he).2] at hMeet
    exact Nat.lt_irrefl _ hMeet.1
  have hIn : ∀ e ∈ fromCarve carve d :: lowerPart carve d, Within e d := by
    intro e he
    unfold Within
    rcases mem_cons.mp he with rfl | he
    · rw [hFrom]
      exact ⟨Nat.le_of_lt hStart, Nat.le_refl _⟩
    · rw [(hLow e he).2]
      exact ⟨Nat.le_refl _, Nat.le_of_lt hOver.1⟩
  have hNow : Sound (fromCarve carve d :: lowerPart carve d) := by
    refine ⟨?_, ⟨?_, ?_⟩⟩
    · intro e he
      rcases mem_cons.mp he with rfl | he
      · exact hFits'
      · exact (hLow e he).1
    · intro r hr
      rcases mem_map.mp hr with ⟨e, he, rfl⟩
      rcases mem_cons.mp he with rfl | he
      · exact hFits'.lo_lt_hi
      · exact (hLow e he).1.lo_lt_hi
    · unfold lowerPart
      rw [if_pos hStart]
      refine pairwise_cons.mpr ⟨?_, pairwise_singleton _ _⟩
      intro r hr
      rcases mem_map.mp hr with ⟨e, he, rfl⟩
      have hIs : e ∈ lowerPart carve d := by
        unfold lowerPart
        rwa [if_pos hStart]
      rw [(hLow e hIs).2, hFrom]
  refine ⟨hSound.replace_first hNow hSound.of_cons hIn (within_refl rest), ?_, ?_, ?_, ?_⟩
  · intro e he
    rcases mem_append.mp he with he | he
    · exact ⟨d, mem_cons_self, hIn e he⟩
    · exact ⟨e, mem_cons_of_mem d he, le_rfl, le_rfl⟩
  · rw [cons_append, flatMap_cons, flatMap_append, flatMap_remain_of_apart hApart,
      ← append_assoc, hRemain, flatMap_cons]
  · rw [cons_append, walksLeft_cons, walksLeft_append, walksLeft_of_apart hApart, walksLeft_cons]
    have hOne : walksFor carve (fromCarve carve d) = 1 := by
      unfold walksFor
      rw [if_neg (not_not.mpr hOver'), hFrom]
      exact if_neg (Nat.lt_irrefl _)
    have hTwo : walksFor carve d = 2 := by
      unfold walksFor
      rw [if_neg (not_not.mpr hOver)]
      exact if_pos hStart
    omega
  · have hRefuses : Refuses ram (fromCarve carve d) ↔ Refuses ram d := Iff.rfl
    have hTop : (fromCarve carve d).toRange.hi = d.toRange.hi := by rw [hFrom]
    rw [cons_append, followsFreed, followsFreed,
      if_neg (not_not.mpr hOver'), if_neg (not_not.mpr hOver),
      followsFreed_append hApart, hPages, hTop]
    simp only [hRefuses]

/- A walk that comes to an entry which starts in the range. -/
theorem carvePass_right_trims
    (hCarve : carve.Fits) (hOver : Overlaps carve d) (hAccepts : ¬ Refuses ram d)
    (hStart : carve.toRange.lo ≤ d.toRange.lo)
    (hRest : (carvePass carve ram rest).Right carve ram rest) :
    (carvePass carve ram (d :: rest)).Right carve ram (d :: rest) := by
  have hFits := hSound.fits d mem_cons_self
  have hRemain : remain carve d = upperPart carve d := by
    unfold remain lowerPart
    rw [if_pos hOver, if_neg (Nat.not_lt.mpr hStart), append_nil]
  have hFreed : upperPart carve d = [] ↔ d.toRange.hi ≤ carve.toRange.hi := by
    unfold upperPart
    by_cases hTop : carve.toRange.hi < d.toRange.hi
    · simp [hTop]
    · simp [hTop, Nat.not_lt.mp hTop]
  have hNonram :
      toInt (carvedPages carve d) = efiCarveOverlapsNonram ↔
        carvedPages carve d % 2 ^ 32 = 2 ^ 32 - 3 :=
    toInt_eq_neg_iff _ 3 (by decide) (by decide)
  have hNone :
      toInt (carvedPages carve d) = efiCarveNoOverlap ↔ carvedPages carve d % 2 ^ 32 = 2 ^ 32 - 1 :=
    toInt_eq_neg_iff _ 1 (by decide) (by decide)
  have hFollows :
      followsFreed carve ram (d :: rest) =
        if carvedPages carve d % 2 ^ 32 = 2 ^ 32 - 3 then
          false
        else if carvedPages carve d % 2 ^ 32 = 2 ^ 32 - 1 ∧ d.toRange.hi ≤ carve.toRange.hi then
          true
        else
          followsFreed carve ram rest := by
    rw [followsFreed, if_neg (not_not.mpr hOver)]
    simp only [hAccepts, false_or]
  unfold carvePass
  rw [efiMemCarveOut_trims hFits hCarve hOver hAccepts hStart]
  dsimp only
  by_cases hThree : carvedPages carve d % 2 ^ 32 = 2 ^ 32 - 3
  · rw [if_pos (hNonram.mpr hThree)]
    change followsFreed carve ram (d :: rest) = false
    rw [hFollows, if_pos hThree]
  rw [if_neg (hNonram.not.mpr hThree)]
  rw [if_neg hThree] at hFollows
  by_cases hOne : carvedPages carve d % 2 ^ 32 = 2 ^ 32 - 1
  · rw [if_pos (hNone.mpr hOne)]
    by_cases hEmpty : upperPart carve d = []
    · -- the entry to go on from is no longer there
      rw [if_pos hEmpty]
      change followsFreed carve ram (d :: rest) = true
      rw [hFollows, if_pos ⟨hOne, hFreed.mp hEmpty⟩]
    · rw [if_neg hEmpty, ← hRemain]
      refine hRest.under hSound hCarve ?_
      rw [hFollows, if_neg]
      exact fun h => hEmpty (hFreed.mpr h.2)
  · rw [if_neg (hNone.not.mpr hOne), ← hRemain]
    rw [if_neg fun h => hOne h.1] at hFollows
    split
    · exact Pass.right_again_trimmed hSound hCarve hOver hFollows 0
    · exact Pass.right_again_trimmed hSound hCarve hOver hFollows _

end

/- Every walk over a sound list does what it should. -/
theorem carvePass_right (ram : Bool) (hSound : Sound mem) (hCarve : carve.Fits) :
    (carvePass carve ram mem).Right carve ram mem := by
  induction mem with
  | nil => exact ⟨rfl, rfl⟩
  | cons d rest ih =>
    have hFits := hSound.fits d mem_cons_self
    have hRest := ih hSound.of_cons
    unfold carvePass
    by_cases hOver : Overlaps carve d
    · by_cases hRefuses : Refuses ram d
      · rw [efiMemCarveOut_refuses hFits hCarve hOver hRefuses]
        change followsFreed carve ram (d :: rest) = false
        rw [followsFreed, if_neg (not_not.mpr hOver), if_pos (Or.inl hRefuses)]
      · by_cases hStart : carve.toRange.lo ≤ d.toRange.lo
        · exact carvePass_right_trims hSound hCarve hOver hRefuses hStart hRest
        · rw [efiMemCarveOut_splits hFits hCarve hOver hRefuses (Nat.not_le.mp hStart)]
          exact Pass.right_again_split hSound hCarve hOver (Nat.not_le.mp hStart)
    · rw [efiMemCarveOut_apart hFits hCarve hOver]
      have hUnder :=
        hRest.under hSound hCarve (by
          rw [followsFreed, if_pos hOver])
      rw [remain_of_not_overlaps hOver] at hUnder
      exact hUnder

end Walk

----
-- The Loop
----

/- What carving a list leads to, without sorting it. -/
def Carved (carve : EfiMemDesc) (ram : Bool)
    (mem : List EfiMemDesc) : Outcome → Prop
  | .useAfterFree => followsFreed carve ram mem = true
  | .failed _ => followsFreed carve ram mem = false
  | .added mem' =>
    mem' = mem.flatMap (remain carve) ∧ followsFreed carve ram mem = false

theorem carveLoop_ends (ram : Bool) (hCarve : carve.Fits) (walks : Nat)
    (hSound : Sound mem) (hEnough : walksLeft carve mem < walks) (carvedPages : Nat) :
    ∃ outcome carvedPages',
      carveLoop carve ram walks mem carvedPages = some (outcome, carvedPages') ∧
        Carved carve ram mem outcome := by
  induction walks generalizing mem carvedPages with
  | zero => exact absurd hEnough (Nat.not_lt_zero _)
  | succ walks ih =>
    have hRight := carvePass_right ram hSound hCarve
    unfold carveLoop
    cases hPass : carvePass carve ram mem with
    | useAfterFree =>
      rw [hPass] at hRight
      exact ⟨_, _, rfl, hRight⟩
    | overlapsNonram mem' =>
      rw [hPass] at hRight
      exact ⟨_, _, rfl, hRight⟩
    | done mem' =>
      rw [hPass] at hRight
      exact ⟨_, _, rfl, hRight⟩
    | again mem' carved =>
      rw [hPass] at hRight
      rcases hRight with ⟨hSound', -, hFlat, hLess, hFollows⟩
      rcases ih hSound' (by omega)
        ((carvedPages + carved) % 2 ^ 64).toNat with ⟨outcome, carvedPages', hRun, hCarved⟩
      refine ⟨outcome, carvedPages', hRun, ?_⟩
      cases outcome with
      | useAfterFree => exact hFollows.symm.trans hCarved
      | failed _ => exact hFollows.symm.trans hCarved
      | added _ => exact ⟨hCarved.1.trans hFlat, hFollows.symm.trans hCarved.2⟩

variable {walks more : Nat}

/- A higher bound on the walks changes nothing. -/
theorem carveLoop_mono {ram : Bool} {carvedPages : Nat} {r : Outcome × Nat}
    (hRun : carveLoop carve ram walks mem carvedPages = some r) (hMore : walks ≤ more) :
    carveLoop carve ram more mem carvedPages = some r := by
  induction walks generalizing more mem carvedPages with
  | zero => cases hRun
  | succ walks ih =>
    cases more with
    | zero => exact absurd hMore (Nat.not_succ_le_zero _)
    | succ more =>
      unfold carveLoop at hRun ⊢
      cases hPass : carvePass carve ram mem with
      | again mem' carved =>
        rw [hPass] at hRun
        exact ih hRun (Nat.le_of_succ_le_succ hMore)
      | _ =>
        rw [hPass] at hRun
        exact hRun

----
-- Whole Calls
----

structure Call where
  start : Nat
  pages : Nat
  memoryType : Int
  overlapOnlyRam : Bool

/- A range of whole pages that does not wrap. -/
def Call.InRange (c : Call) : Prop :=
  c.start % efiPageSize = 0 ∧ c.start + c.pages * efiPageSize < 2 ^ 64

instance (c : Call) : Decidable c.InRange :=
  inferInstanceAs (Decidable (_ ∧ _))

/- The descriptor that a call adds. -/
def Call.desc (c : Call) : EfiMemDesc :=
  newDesc c.start c.pages c.memoryType

/- A list, with the type each page was last added with. -/
structure Tracked where
  mem : List EfiMemDesc
  pageTypes : Nat → Option Nat

namespace Tracked

/- `efi_add_memory_map` on a list. -/
def add (walks : Nat) (t : Tracked)
    (c : Call) : Option Outcome :=
  efiAddMemoryMap walks t.mem c.start c.pages c.memoryType c.overlapOnlyRam

/- The types of the pages after a call. -/
def after (t : Tracked) (c : Call) : Nat → Option Nat :=
  fun page =>
    if c.start ≤ page * efiPageSize ∧ page * efiPageSize < c.start + c.pages * efiPageSize then
      some (c.memoryType % 2 ^ 32).toNat
    else
      t.pageTypes page

/- The call goes on from an entry it has freed. -/
def FollowsFreed (t : Tracked) (c : Call) : Prop :=
  c.pages ≠ 0 ∧ followsFreed c.desc c.overlapOnlyRam t.mem = true

instance (t : Tracked) (c : Call) : Decidable (t.FollowsFreed c) :=
  inferInstanceAs (Decidable (_ ∧ _))

end Tracked

/- Calls that succeed, from the empty list on. -/
def memorySystem : TransitionSystem Tracked Call where
  init t := t = ⟨[], fun _ => none⟩
  step t c t' :=
    c.InRange ∧ ∃ walks mem', t.add walks c = some (.added mem') ∧ t' = ⟨mem', t.after c⟩

/- The type that a list gives to a page. -/
def pageType (mem : List EfiMemDesc) (page : Nat) : Option Nat :=
  RangeMap.value (mem.map EfiMemDesc.toRange) (page * efiPageSize)

/-
  A partition of the pages: sorted, disjoint, non-empty and
  aligned entries, and each page has its latest type.
-/
structure MemoryMap (t : Tracked) : Prop where
  sorted : t.mem.Pairwise fun a b => b.physicalStart < a.physicalStart
  disjoint : t.mem.Pairwise fun a b => ∀ x, ¬ (a.toRange.Has x ∧ b.toRange.Has x)
  nonempty : ∀ d ∈ t.mem, 1 ≤ d.numPages
  aligned : ∀ d ∈ t.mem, d.physicalStart % efiPageSize = 0
  types : ∀ page, pageType t.mem page = t.pageTypes page

/- Sound entries that give each page its latest type. -/
structure Kept (t : Tracked) : Prop where
  sound : Sound t.mem
  types : ∀ page, pageType t.mem page = t.pageTypes page

variable {t : Tracked}

theorem Kept.memoryMap (hKept : Kept t) :
    MemoryMap t where
  sorted := by
    have hBelow := pairwise_map.mp hKept.sound.descending.below
    refine (List.Pairwise.and_mem.mp hBelow).imp ?_
    rintro a b ⟨-, hb, hLe⟩
    exact Nat.lt_of_lt_of_le (hKept.sound.fits b hb).lo_lt_hi hLe
  disjoint := pairwise_map.mp hKept.sound.descending.apart
  nonempty d hd := (hKept.sound.fits d hd).pos
  aligned d hd := (hKept.sound.fits d hd).aligned
  types := hKept.types

variable {c : Call}

theorem Call.desc_fits (hIn : c.InRange) (hPages : c.pages ≠ 0) :
    c.desc.Fits where
  pos := Nat.pos_of_ne_zero hPages
  aligned := hIn.1
  no_wrap := hIn.2

/- The sorted list after a range has been added. -/
theorem Kept.insert (hKept : Kept t) (hIn : c.InRange) (hPages : c.pages ≠ 0) :
    Kept ⟨efiMemSort (t.mem.flatMap (remain c.desc) ++ [c.desc]), t.after c⟩ := by
  have hFits := Call.desc_fits hIn hPages
  rcases hKept.sound.flatMap_remain hFits with ⟨hMap, hCarved⟩
  have hPerm :
      (efiMemSort
        (t.mem.flatMap (remain c.desc) ++ [c.desc])).Perm
          (t.mem.flatMap (remain c.desc) ++ [c.desc]) :=
    perm_insertionSort _ _
  have hApart :
      RangeMap.Apart
        ((t.mem.flatMap (remain c.desc)).map EfiMemDesc.toRange ++ [c.desc.toRange]) := by
    refine pairwise_append.mpr
      ⟨hCarved.descending.apart, pairwise_singleton _ _, ?_⟩
    intro r hr s hs x hBoth
    rw [mem_singleton.mp hs] at hBoth
    rw [hMap] at hr
    rcases mem_flatMap.mp hr with ⟨r', hr', hr⟩
    rcases RangeMap.exists_cut_iff.mp ⟨r, hr, hBoth.1, rfl⟩ with ⟨-, hOut⟩
    exact hOut hBoth.2
  have hPermMap := hPerm.map EfiMemDesc.toRange
  rw [map_append, map_singleton] at hPermMap
  refine ⟨⟨?_, ?_⟩, ?_⟩
  · intro d hd
    rcases mem_append.mp (hPerm.mem_iff.mp hd) with
      hd | hd
    · exact hCarved.fits d hd
    · rw [mem_singleton.mp hd]
      exact hFits
  · refine RangeMap.Descending.of_sorted ?_ ?_ ?_
    · intro r hr
      rcases mem_append.mp (hPermMap.mem_iff.mp hr) with
        hr | hr
      · exact hCarved.descending.nonempty r hr
      · rw [mem_singleton.mp hr]
        exact hFits.lo_lt_hi
    · exact (hPermMap.symm.pairwise_iff fun {a b} hab x hBoth => hab x hBoth.symm).mp hApart
    · exact pairwise_map.mpr (pairwise_insertionSort _ _)
  · intro page
    unfold pageType
    rw [hApart.value_perm hPermMap.symm, hApart.value_append,
      hMap, hKept.sound.descending.value_flatMap_cut hFits.lo_lt_hi]
    by_cases hHas : c.desc.toRange.Has (page * efiPageSize)
    · rw [if_pos hHas]
      exact (if_pos hHas).symm
    · rw [if_neg hHas, if_neg (show ¬ (_ ∧ _) from hHas)]
      exact (hKept.types page).trans (if_neg hHas).symm

/- Where a call goes in the end. -/
def Tracked.Ends (t : Tracked) (c : Call) : Outcome → Prop
  | .useAfterFree => t.FollowsFreed c
  | .failed _ => ¬ t.FollowsFreed c
  | .added mem' => ¬ t.FollowsFreed c ∧ Kept ⟨mem', t.after c⟩

variable {outcome : Outcome}

theorem Tracked.add_mono (hAdd : t.add walks c = some outcome) (hMore : walks ≤ more) :
    t.add more c = some outcome := by
  unfold Tracked.add efiAddMemoryMap at hAdd ⊢
  split
  · rename_i hPages
    rwa [if_pos hPages] at hAdd
  · rename_i hPages
    rw [if_neg hPages] at hAdd
    rcases Option.map_eq_some_iff.mp hAdd with ⟨r, hRun, hEq⟩
    dsimp only
    rw [carveLoop_mono hRun hMore]
    exact congrArg some hEq

/- Every call on such a list ends. -/
theorem Kept.add_ends (hKept : Kept t) (hIn : c.InRange) :
    ∃ walks outcome, (∀ more, walks ≤ more → t.add more c = some outcome) ∧ t.Ends c outcome := by
  unfold Tracked.add efiAddMemoryMap
  by_cases hPages : c.pages = 0
  · refine ⟨0, .added t.mem, fun more _ => if_pos hPages, ?_, hKept.sound, ?_⟩
    · exact fun hFollows => hFollows.1 hPages
    · intro page
      refine (hKept.types page).trans (if_neg ?_).symm
      rw [hPages]
      omega
  have hFits := Call.desc_fits hIn hPages
  rcases carveLoop_ends c.overlapOnlyRam hFits (walksLeft c.desc t.mem + 1) hKept.sound
    (Nat.lt_succ_self _) 0 with ⟨outcome, carvedPages', hRun, hCarved⟩
  have hMore :
      ∀ more, walksLeft c.desc t.mem + 1 ≤ more →
        carveLoop c.desc c.overlapOnlyRam more t.mem 0 = some (outcome, carvedPages') :=
    fun more hLe => carveLoop_mono hRun hLe
  rw [show newDesc c.start c.pages c.memoryType = c.desc
    from rfl]
  have hNot : followsFreed c.desc c.overlapOnlyRam t.mem = false → ¬ t.FollowsFreed c := by
    intro hFalse hFollows
    rw [hFollows.2] at hFalse
    cases hFalse
  cases outcome with
  | useAfterFree =>
    refine ⟨walksLeft c.desc t.mem + 1, .useAfterFree, ?_, hPages, hCarved⟩
    intro more hLe
    rw [if_neg hPages]
    dsimp only
    rw [hMore more hLe]
    rfl
  | failed mem' =>
    refine ⟨walksLeft c.desc t.mem + 1, .failed mem', ?_, hNot hCarved⟩
    intro more hLe
    rw [if_neg hPages]
    dsimp only
    rw [hMore more hLe]
    rfl
  | added mem' =>
    rcases hCarved with ⟨rfl, hFalse⟩
    by_cases hShort : c.overlapOnlyRam = true ∧ carvedPages' ≠ c.pages
    · refine ⟨walksLeft c.desc t.mem + 1, .failed (t.mem.flatMap (remain c.desc)), ?_, hNot hFalse⟩
      intro more hLe
      rw [if_neg hPages]
      dsimp only
      rw [hMore more hLe, Option.map_some]
      exact congrArg some (if_pos hShort)
    · refine ⟨walksLeft c.desc t.mem + 1, .added _, ?_, hNot hFalse, hKept.insert hIn hPages⟩
      intro more hLe
      rw [if_neg hPages]
      dsimp only
      rw [hMore more hLe, Option.map_some]
      exact congrArg some (if_neg hShort)

theorem Kept.ends
    {walks : Nat} (hKept : Kept t) (hIn : c.InRange) (hAdd : t.add walks c = some outcome) :
    t.Ends c outcome := by
  rcases hKept.add_ends hIn with ⟨enough, outcome', hEnd, hEnds⟩
  have hSame := Tracked.add_mono hAdd (Nat.le_max_left walks enough)
  rw [hEnd _ (Nat.le_max_right walks enough)] at hSame
  cases hSame
  exact hEnds

----
-- Whole Runs
----

/- In a run every list is sound and up to date. -/
theorem reachable_kept (hReach : memorySystem.ReachableBy (fun t c => ¬ t.FollowsFreed c) t) :
    Kept t := by
  refine hReach.invariant ?_ ?_
  · rintro s rfl
    refine ⟨⟨?_, ⟨?_, List.Pairwise.nil⟩⟩, fun page => rfl⟩
    · exact fun d hd => absurd hd not_mem_nil
    · exact fun r hr => absurd hr not_mem_nil
  · rintro s c s' hKept - ⟨hIn, walks, mem', hAdd, rfl⟩
    exact (hKept.ends hIn hAdd).2

/-
  In every run whose calls do not go on from a freed entry,
  each list partitions the pages by their latest types; every
  further call ends; and exactly the calls that do not go on
  from a freed entry use no freed memory and, where they
  succeed, leave such a list.
-/
theorem efi_memory_map
    (t : Tracked) (hReach : memorySystem.ReachableBy (fun t c => ¬ t.FollowsFreed c) t) :
    MemoryMap t ∧ ∀ c : Call, c.InRange →
        (∃ walks outcome, ∀ more, walks ≤ more → t.add more c = some outcome) ∧
        ((∀ walks outcome, t.add walks c = some outcome →
          outcome ≠ .useAfterFree ∧ ∀ mem', outcome = .added mem' → MemoryMap ⟨mem', t.after c⟩) ↔
          ¬ t.FollowsFreed c) := by
  have hKept := reachable_kept hReach
  refine ⟨hKept.memoryMap, fun c hIn => ?_⟩
  rcases hKept.add_ends hIn with ⟨enough, outcome, hEnd, hEnds⟩
  refine ⟨⟨enough, outcome, hEnd⟩, ?_, ?_⟩
  · intro hSafe
    have hNotFreed := (hSafe enough outcome (hEnd enough (Nat.le_refl _))).1
    cases outcome with
    | useAfterFree => exact absurd rfl hNotFreed
    | failed mem' => exact hEnds
    | added mem' => exact hEnds.1
  · intro hNot walks outcome' hAdd
    have hEnds' := hKept.ends hIn hAdd
    cases outcome' with
    | useAfterFree => exact absurd hEnds' hNot
    | failed mem' => exact ⟨Outcome.noConfusion, fun _ h => by cases h⟩
    | added mem' =>
      refine ⟨Outcome.noConfusion, ?_⟩
      intro mem'' hEq
      cases hEq
      exact hEnds'.2.memoryMap

/- Loader code in the middle of free memory. -/
def freeMemory : Call := ⟨0x1000, 8, 7, false⟩
def loaderCode : Call := ⟨0x3000, 2, 1, true⟩

/- The map after both. -/
def splitMemory : Tracked where
  mem := [⟨7, 0x5000, 0x1000, 4, 8⟩, ⟨1, 0x3000, 0x3000, 2, 8⟩, ⟨7, 0x1000, 0x1000, 2, 8⟩]
  pageTypes :=
    Tracked.after ⟨[⟨7, 0x1000, 0x1000, 8, 8⟩], Tracked.after ⟨[], fun _ => none⟩ freeMemory⟩
      loaderCode

theorem efi_memory_map_split : MemoryMap splitMemory := by
  refine (efi_memory_map splitMemory ?_).1
  refine .next (l := loaderCode)
    (.next (l := freeMemory) (.start rfl) (by decide)
      ⟨by decide, 1, _, rfl, rfl⟩) (by decide)
    ⟨by decide, 3, _, ?_, rfl⟩
  decide +kernel

/- All pages of a list of one entry, and once again. -/
def manyPages : Call := ⟨0x1000, 2 ^ 32 - 1, 7, false⟩

/-
  Adding the same 2^32 - 1 pages once again frees their entry
  and goes on from it.
-/
theorem efi_carve_follows_freed_entry :
    ∃ t : Tracked,
      memorySystem.Reachable t ∧ manyPages.InRange ∧ t.add 1 manyPages = some .useAfterFree := by
  refine ⟨⟨[manyPages.desc], Tracked.after ⟨[], fun _ => none⟩ manyPages⟩, ?_, ?_, ?_⟩
  · exact .next (l := manyPages) (.start rfl) trivial
      ⟨by decide, 1, _, rfl, rfl⟩
  · decide
  · decide +kernel

end Uboot.Efi
