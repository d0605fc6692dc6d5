import BootFirmware.Uboot.Fdt.RawRegions

/-
  Where the regions are that `fdt_find_regions` finds, on any
  tree.

  Whatever is included, a region lies between two offsets that
  the walk has come to.  The walk ends in the tree where its
  last tag does; where a tag could not be read the offset is
  an error code, which the size of the structure block can be
  the same as.

  Key definitions include:
    * `RegionsBelow`
    * `InTree`
    * `NoErrorCode`

  The main results are:
    * `findLoop_regions`
    * `fdtFindRegions_inTree`
-/

----
-- Regions Between Offsets
----

namespace Uboot.Fdt.Raw

open Function

/- The stored regions end at most at an offset. -/
structure RegionsBelow
    (args : FindArgs) (b : Blob) (upper : Int)
    (s : Locals) : Prop where
  stored :
    ∀ i < s.count, (i : Int) < args.maxRegions → ∃ start stop : Int,
        s.region i = ⟨b.base + start, stop - start⟩ ∧ 0 ≤ start ∧ start ≤ stop ∧ stop ≤ upper
  start : s.start = -1 ∨ (0 ≤ s.start ∧ s.start ≤ upper)

/- The variables for the regions. -/
structure SameRegions (s s' : Locals) : Prop where
  region : s'.region = s.region
  count : s'.count = s.count
  start : s'.start = s.start

section

variable {args : FindArgs} {b : Blob}

theorem RegionsBelow.same {upper : Int} {s s' : Locals}
    (hBelow : RegionsBelow args b upper s) (hSame : SameRegions s s') :
    RegionsBelow args b upper s' := by
  constructor
  · rw [hSame.count, hSame.region]
    exact hBelow.stored
  · rw [hSame.start]
    exact hBelow.start

variable {s : Locals}

theorem RegionsBelow.mono
    {upper upper' : Int} (hBelow : RegionsBelow args b upper s) (hLe : upper ≤ upper') :
    RegionsBelow args b upper' s := by
  constructor
  · intro i hi hRoom
    rcases hBelow.stored i hi hRoom with ⟨start, stop, hRegion, hStart, hStop, hUpper⟩
    exact ⟨start, stop, hRegion, hStart, hStop, by omega⟩
  · rcases hBelow.start with hNone | hSome
    · exact Or.inl hNone
    · exact Or.inr ⟨hSome.1, by omega⟩

theorem startRegion_below
    {offset : Int} (hOffset : 0 ≤ offset) (hBelow : RegionsBelow args b offset s) :
    RegionsBelow args b offset (startRegion args b offset s) ∧
      0 ≤ (startRegion args b offset s).start := by
  unfold startRegion
  dsimp only
  split_ifs with hMerge
  · rcases hMerge with ⟨hSome, hRoom, -⟩
    rcases hBelow.stored (s.count - 1) (by omega) (by omega) with
      ⟨start, stop, hRegion, hStart, hStop, hUpper⟩
    have hAt : (s.region (s.count - 1)).offset - b.base = start := by
      rw [hRegion]
      dsimp only
      omega
    rw [hAt]
    refine ⟨⟨fun i hi => hBelow.stored i ?_, ?_⟩, hStart⟩
    · dsimp only at hi
      omega
    · exact Or.inr ⟨hStart, Int.le_trans hStop hUpper⟩
  · exact ⟨⟨hBelow.stored, Or.inr ⟨hOffset, Int.le_refl _⟩⟩, hOffset⟩

theorem storeRegion_below
    {upper upper' stop : Int} (hBelow : RegionsBelow args b upper s) (hStart : 0 ≤ s.start)
    (hStop : s.start ≤ stop) (hUpper : upper ≤ upper') (hLast : stop ≤ upper') :
    RegionsBelow args b upper' (storeRegion args ⟨b.base + s.start, stop - s.start⟩ s).2
    := by
  have hOld := (hBelow.mono hUpper).stored
  unfold storeRegion
  split_ifs with hRoom
  · refine ⟨fun i hi hFits => ?_, Or.inl rfl⟩
    dsimp only at hi ⊢
    by_cases hEq : i = s.count
    · refine ⟨s.start, stop, ?_, hStart, hStop, hLast⟩
      rw [hEq, update_self]
    · rw [update_of_ne hEq]
      exact hOld i (by omega) hFits
  · refine ⟨fun i hi hFits => hOld i ?_ hFits, Or.inl rfl⟩
    omega

variable {next : Int} {v : Visit}

theorem findTag_regions {tag : RawTag} (hVisit : findTag args b s tag next = .ok v) :
    SameRegions s v.state ∧ v.state.nextoffset = next ∧
      (v.stopAt = s.nextoffset ∨ v.stopAt = next) ∧ (tag = .fin → v.included = true) := by
  cases tag with
  | prop nameoff =>
    cases hVisit
    exact ⟨⟨rfl, rfl, rfl⟩, rfl, Or.inl rfl, nofun⟩
  | nop =>
    cases hVisit
    exact ⟨⟨rfl, rfl, rfl⟩, rfl, Or.inl rfl, nofun⟩
  | endNode =>
    cases hVisit
    exact ⟨⟨rfl, rfl, rfl⟩, rfl, Or.inr rfl, nofun⟩
  | fin =>
    cases hVisit
    exact ⟨⟨rfl, rfl, rfl⟩, rfl, Or.inr rfl, fun _ => rfl⟩
  | beginNode name =>
    have hStop : ∀ want offset next : Int, (if want = 1 then offset else next) = offset ∨
          (if want = 1 then offset else next) = next := by
      intro want offset next
      split_ifs
      · exact Or.inl rfl
      · exact Or.inr rfl
    unfold findTag at hVisit
    dsimp only at hVisit
    split_ifs at hVisit
    all_goals cases hVisit
    all_goals first
      | exact ⟨⟨rfl, rfl, rfl⟩, rfl, Or.inl rfl, nofun⟩
      | exact ⟨⟨rfl, rfl, rfl⟩, rfl, Or.inr rfl, nofun⟩

theorem markRegion_below {offset next : Int}
    (hOffset : 0 ≤ offset) (hNext : offset ≤ next) (hBelow : RegionsBelow args b offset v.state)
    (hStop : v.stopAt = offset ∨ v.stopAt = next) :
    RegionsBelow args b next (markRegion args b offset v).2 := by
  have hStarted :
      RegionsBelow args b offset
        (if v.included ∧ v.state.start = -1 then
          startRegion args b offset v.state
        else v.state) := by
    split_ifs
    · exact (startRegion_below hOffset hBelow).1
    · exact hBelow
  unfold markRegion
  dsimp only
  generalize hState :
    (if v.included ∧ v.state.start = -1 then
      startRegion args b offset v.state
    else v.state) = s at hStarted ⊢
  split_ifs with hStore
  · rcases hStarted.start with hNone | hSome
    · exact absurd hNone hStore.2
    · exact storeRegion_below hStarted hSome.1 (by omega) hNext (by omega)
  · exact hStarted.mono hNext

theorem markRegion_included
    {offset : Int} (hOffset : 0 ≤ offset) (hBelow : RegionsBelow args b offset v.state)
    (hIncluded : v.included = true) :
    RegionsBelow args b offset (markRegion args b offset v).2 ∧
      0 ≤ (markRegion args b offset v).2.start := by
  unfold markRegion
  rw [if_neg (by rw [hIncluded]; exact fun hNot => hNot.1 rfl)]
  by_cases hNone : v.state.start = -1
  · rw [if_pos ⟨hIncluded, hNone⟩]
    exact startRegion_below hOffset hBelow
  · rw [if_neg (fun hBoth => hNone hBoth.2)]
    rcases hBelow.start with hStart | hStart
    · exact absurd hStart hNone
    · exact ⟨hBelow, hStart.1⟩

/-
  A loop that ends has come to an offset whose tag is the
  last, and its regions end there.
-/
theorem findLoop_regions {tags : Nat} {s' : Locals} :
    ∀ {offset : Nat} {s : Locals} {used : List Access}, offset < 2 ^ 31 → offset % 4 = 0 →
      s.nextoffset = offset → RegionsBelow args b offset s →
      findLoop args b tags s = some (.ok s', used) → ∃ last next,
          last < 2 ^ 31 ∧ last % 4 = 0 ∧ fdtNextTag b last = (.fin, next) ∧ s'.nextoffset = next ∧
            RegionsBelow args b (last : Nat) s' ∧ 0 ≤ s'.start := by
  induction tags with
  | zero => exact fun _ _ _ _ hRun => by cases hRun
  | succ tags ih =>
    intro offset s used hOffset hAligned hAt hBelow hRun
    rcases hTag : fdtNextTag b offset with ⟨tag, next⟩
    have hNat : s.nextoffset.toNat = offset := by rw [hAt, Int.toNat_natCast]
    rw [findLoop, hNat, hTag] at hRun
    dsimp only at hRun
    rcases hVisit : findTag args b s tag next with e | v
    · rw [hVisit] at hRun
      cases hRun
    rw [hVisit] at hRun
    dsimp only at hRun
    rcases findTag_regions hVisit with ⟨hSame, hState, hStop, hIncluded⟩
    have hHere := hBelow.same hSame
    rw [hAt] at hRun hStop
    have hWalk := (@markRegion_same args b offset v).1.nextoffset
    by_cases hFin : tag = .fin
    · rw [if_pos hFin] at hRun
      cases hRun
      have hDone := markRegion_included (by omega) hHere (hIncluded hFin)
      exact ⟨offset, next, hOffset, hAligned, by rw [hTag, hFin], hWalk.trans hState, hDone⟩
    · rw [if_neg hFin, Option.map_eq_some_iff] at hRun
      rcases hRun with ⟨⟨r, rest⟩, hRest, hEq⟩
      have hR : r = .ok s' := (Prod.mk.inj hEq).1
      rw [hR] at hRest
      have hNext := fdtNextTag_next hOffset hTag hFin
      have hUpper := hNext.upper
      have hSize := b.totalsize_lt
      have hLe := hNext.le
      have hTo := hNext.toNat
      refine ih (by omega) hNext.aligned ?_ ?_ hRest
      · rw [hWalk, hState]
        exact hTo
      · rw [← hTo]
        exact markRegion_below (by omega) (by omega) hHere hStop

----
-- The End of the Walk
----

/- The region is one of the tree. -/
def InTree (b : Blob) (r : FdtRegion) : Prop :=
  0 ≤ r.offset ∧ 0 ≤ r.size ∧ r.offset + r.size ≤ b.totalsize

instance (b : Blob) (r : FdtRegion) : Decidable (InTree b r) :=
  inferInstanceAs (Decidable (_ ∧ _))

/- No error code is the size of the structure block. -/
def NoErrorCode (b : Blob) : Prop :=
  b.sizeDtStruct ≠ 2 ^ 32 - 8 ∧ b.sizeDtStruct ≠ 2 ^ 32 - 11

/- A tag that can be read is in the tree. -/
theorem fdtOffsetPtr_base
    {offset len p : Nat} (hLen : len < 2 ^ 32) (hPtr : fdtOffsetPtr b offset len = some p) :
    0 ≤ b.base ∧ b.base + (offset : Int) + len ≤ b.totalsize := by
  rcases fdtOffsetPtr_some hLen hPtr with ⟨hLe, hIn, hP⟩
  have hLt := b.totalsize_lt
  unfold u32 at hP
  unfold Blob.base toInt
  split <;> omega

theorem tagEnd_fin {startoffset offset : Nat} {tag tag' : RawTag}
    (hEnd : tagEnd b startoffset offset tag = (tag', next))
    (hFin : tag' = .fin) (hTag : tag ≠ .fin) :
    next = -11 := by
  unfold tagEnd at hEnd
  split at hEnd
  · cases hEnd
    rfl
  · cases hEnd
    exact absurd hFin hTag

/- After the last tag the offset is in the tree or an error. -/
theorem fdtNextTag_fin
    {offset : Nat} (hAligned : offset % 4 = 0) (hTag : fdtNextTag b offset = (.fin, next)) :
    next = -8 ∨ next = -11 ∨ (next = offset + 4 ∧ 0 ≤ b.base ∧ b.base + next ≤ b.totalsize) := by
  unfold fdtNextTag at hTag
  split at hTag
  · cases hTag
    exact Or.inl rfl
  rename_i tagp hPtr
  refine Or.inr ?_
  dsimp only at hTag
  split_ifs at hTag
  · split at hTag
    · cases hTag
      exact Or.inl rfl
    · exact Or.inl (tagEnd_fin hTag rfl nofun)
  · split at hTag
    · cases hTag
      exact Or.inl rfl
    · exact Or.inl (tagEnd_fin hTag rfl nofun)
  · unfold tagEnd at hTag
    split at hTag
    · cases hTag
      exact Or.inl rfl
    · cases hTag
      have hIn := fdtOffsetPtr_base (by decide) hPtr
      have hAlign : tagAlign (offset + FDT_TAGSIZE) = offset + 4 := by
        unfold tagAlign FDT_TAGSIZE
        omega
      unfold FDT_TAGSIZE at hIn
      rw [hAlign]
      refine Or.inr ⟨by omega, hIn.1, by omega⟩
  · exact Or.inl (tagEnd_fin hTag rfl nofun)
  · exact Or.inl (tagEnd_fin hTag rfl nofun)
  · cases hTag
    exact Or.inl rfl

/- A walk that ends well has come to the end of the tree. -/
structure EndsAt
    (args : FindArgs) (b : Blob)
    (s : Locals) : Prop where
  below : ∃ last : Nat, RegionsBelow args b last s ∧
    ((last : Int) ≤ s.nextoffset ∨ s.nextoffset < 0)
  start : 0 ≤ s.start
  next :
    s.nextoffset = -8 ∨ s.nextoffset = -11 ∨
      (0 ≤ s.nextoffset ∧ 0 ≤ b.base ∧ b.base + s.nextoffset ≤ b.totalsize)

variable {outside : Int → Int} {used : List Access}

theorem findLoop_endsAt {tags : Nat} {region : Memory FdtRegion}
    (hRun : findLoop args b tags (findStart outside region) = some (.ok s, used)) :
    EndsAt args b s := by
  have hStart : RegionsBelow args b ((0 : Nat) : Int) (findStart outside region) :=
    ⟨fun i hi => absurd hi (Nat.not_lt_zero i), Or.inl rfl⟩
  rcases findLoop_regions (by decide) rfl rfl hStart hRun with
    ⟨last, next, hLast, hAligned, hTag, hNext, hBelow, hStarted⟩
  have hEnd := fdtNextTag_fin hAligned hTag
  rw [← hNext] at hEnd
  refine ⟨⟨last, hBelow, ?_⟩, hStarted, ?_⟩
  · rcases hEnd with hTrunc | hBad | hReal
    · exact Or.inr (by omega)
    · exact Or.inr (by omega)
    · exact Or.inl (by omega)
  · rcases hEnd with hTrunc | hBad | hReal
    · exact Or.inl hTrunc
    · exact Or.inr (Or.inl hBad)
    · exact Or.inr (Or.inr ⟨by omega, hReal.2⟩)

theorem EndsAt.regions
    (hEnd : EndsAt args b s) (hSize : (s.nextoffset % 2 ^ 32).toNat = b.sizeDtStruct)
    (hRoom : (s.count : Int) < args.maxRegions) :
    (∀ i < s.count + 1,
      InTree b (update s.region s.count ⟨b.base + s.start, s.nextoffset - s.start⟩ i)) ↔
      NoErrorCode b := by
  have hLt := b.totalsize_lt
  have hStart := hEnd.start
  unfold InTree NoErrorCode
  constructor
  · intro hAll
    have hLast := hAll s.count (Nat.lt_succ_self _)
    rw [update_self] at hLast
    dsimp only at hLast
    rcases hEnd.next with hTrunc | hBad | hReal <;> omega
  · rintro ⟨hTrunc, hBad⟩ i hi
    have hNext : 0 ≤ s.nextoffset ∧ 0 ≤ b.base ∧ b.base + s.nextoffset ≤ b.totalsize := by
      rcases hEnd.next with hNeg | hNeg | hReal
      · omega
      · omega
      · exact hReal
    rcases hEnd.below with ⟨last, hBelow, hLast⟩
    by_cases hEq : i = s.count
    · rw [hEq, update_self]
      dsimp only
      rcases hBelow.start with hNone | hSome <;> omega
    · rw [update_of_ne hEq]
      rcases hBelow.stored i (by omega) (by omega) with ⟨start, stop, hRegion, hFrom, hTo, hUpper⟩
      rw [hRegion]
      dsimp only
      omega

/-
  The regions that are found are in the tree exactly where no
  error code was taken for the size of the structure block.
-/
theorem fdtFindRegions_inTree
    {region regions : Memory FdtRegion} {tags count : Nat} (hTab : args.addStringTab = false)
    (hRun : fdtFindRegions args b outside region tags = some (.ok (count, regions), used))
    (hRoom : (count : Int) ≤ args.maxRegions) :
    0 < count ∧ ((∀ i < count, InTree b (regions i)) ↔ NoErrorCode b) := by
  unfold fdtFindRegions at hRun
  rw [Option.map_eq_some_iff] at hRun
  rcases hRun with ⟨⟨r, loopUsed⟩, hLoop, hEq⟩
  cases r with
  | error e => cases hEq
  | ok s =>
    dsimp only at hEq
    have hEnd := findLoop_endsAt hLoop
    unfold findEnd at hEq
    by_cases hSize : (s.nextoffset % 2 ^ 32).toNat ≠ b.sizeDtStruct
    · rw [if_pos hSize] at hEq
      cases hEq
    rw [if_neg hSize, hTab] at hEq
    unfold storeRegion at hEq
    dsimp only at hEq
    by_cases hStored : (s.count : Int) < args.maxRegions
    · rw [if_pos hStored, if_neg (by decide), Int.add_zero] at hEq
      cases hEq
      exact ⟨Nat.succ_pos _, hEnd.regions (not_not.mp hSize) hStored⟩
    · rw [if_neg hStored] at hEq
      cases hEq
      have hFits : ((s.count + 1 : Nat) : Int) ≤ args.maxRegions := hRoom
      omega

end

end Uboot.Fdt.Raw
