import BootFirmware.Tfa.Xlat.MmapArray
import BootFirmware.Tfa.Xlat.Regions

/-
  The array of an AArch64 context and the list of its regions:
  the calls that add a region do the same to both.

  Key definitions include:
    * `layout` and `Entry.region`
    * `Lists`

  Main declarations:
    * `Lists.mmapAddRegionCtx` and `Lists.mmapAddDynamicRegionCtx`
-/

namespace Tfa.Xlat.MmapArray

open List

----
-- Regions Of An Array
----

variable {cfg : Config} {hNum : cfg.mmapNum < 2 ^ 32}

/- The array that `REGISTER_XLAT_CONTEXT` defines. -/
def layout (cfg : Config) (hNum : cfg.mmapNum < 2 ^ 32) : Layout where
  uintptrBits := 64
  virtAddrSpaceBits := cfg.virtAddrSpaceBits
  phyAddrSpaceBits := cfg.phyAddrSpaceBits
  mmapNum := cfg.mmapNum
  platXlatTablesDynamic := cfg.platXlatTablesDynamic
  arch := Or.inr ⟨rfl, cfg.virt_le⟩
  virt_ge := cfg.virt_ge
  phy_le := Nat.le_trans cfg.phy_le (Nat.le_add_right 48 16)
  mmapNum_lt := hNum

def Entry.region (mm : Entry (layout cfg hNum)) : MmapRegion where
  basePa := mm.basePa
  baseVa := mm.baseVa
  size := mm.size
  attr := mm.attr
  granularity := mm.granularity
  basePa_lt := mm.basePa_lt
  baseVa_lt := mm.baseVa_lt
  size_lt := mm.size_lt
  attr_lt := mm.attr_lt
  granularity_lt := mm.granularity_lt

theorem Entry.endVa_region (mm : Entry (layout cfg hNum)) : mm.region.endVa = mm.endVa := rfl

theorem Entry.endPa_region (mm : Entry (layout cfg hNum)) : mm.region.endPa = mm.endPa := rfl

/- The context holds the regions of the list, in its order. -/
structure Lists (ctx : Ctx (layout cfg hNum)) (x : Xlat.Ctx) : Prop where
  regions : ∃ used, Holds ctx.mmap used ∧ x.mmap = used.map Entry.region
  maxPa : x.maxPa = ctx.maxPa
  maxVa : x.maxVa = ctx.maxVa
  initialized : x.initialized = ctx.initialized

variable {mmap used : List (Entry (layout cfg hNum))} {mm : Entry (layout cfg hNum)}

theorem overlapLoop_region (hSizes : ∀ q ∈ used, q.size ≠ 0) (rest : List (Entry _)) :
    overlapLoop mm (used ++ .empty :: rest) =
      some (if ¬ (used.map Entry.region).all (Xlat.overlapAllowed cfg mm.region) then -eperm
        else 0) := by
  induction used with
  | nil => rfl
  | cons q used ih =>
    rw [cons_append, overlapLoop, if_neg (hSizes q mem_cons_self),
      ih fun q' hq' => hSizes q' (mem_cons_of_mem q hq'), map_cons, all_cons]
    rw [show Xlat.overlapAllowed cfg mm.region q.region = overlapAllowed mm q from rfl]
    cases overlapAllowed mm q with
    | false => rfl
    | true => simp

theorem mmapAddRegionCheck_region (hHolds : Holds mmap used) (hPos : 0 < cfg.mmapNum) :
    mmapAddRegionCheck mmap mm =
      some (Xlat.mmapAddRegionCheck cfg (used.map Entry.region) mm.region) := by
  have hIndex : (cfg.mmapNum + 2 ^ 32 - 1) % 2 ^ 32 = cfg.mmapNum - 1 := by omega
  have hLast : ∃ last, mmap[cfg.mmapNum - 1]? = some last ∧
      (last.size ≠ 0 ↔ cfg.mmapNum ≤ (used.map Entry.region).length) := by
    rw [length_map, hHolds.eq]
    by_cases hFull : cfg.mmapNum ≤ used.length
    · rw [getElem?_append_left (by omega), getElem?_eq_getElem (by omega)]
      exact ⟨_, rfl, iff_of_true (hHolds.size_ne _ (getElem_mem _)) hFull⟩
    · rw [getElem?_append_right (by omega), getElem?_replicate_of_lt (by
        change _ < cfg.mmapNum + 1 - _
        omega)]
      exact ⟨_, rfl, iff_of_false (fun h => h rfl) hFull⟩
  rcases hLast with ⟨last, hLast, hFull⟩
  unfold mmapAddRegionCheck Xlat.mmapAddRegionCheck
  -- The comparisons are the same up to the place of the entry.
  iterate 5
    rw [apply_ite some]
    refine ite_congr rfl (fun _ => rfl) fun _ => ?_
  rw [apply_ite some, show ((layout cfg hNum).mmapNum + 2 ^ 32 - 1) % 2 ^ 32 = _ from hIndex, hLast]
  refine ite_congr (propext hFull) (fun _ => rfl) fun _ => ?_
  rw [hHolds.eq_cons]
  exact overlapLoop_region hHolds.size_ne _

/- The first loop of the cursor. -/
theorem skipLowerEnd_region (hSizes : ∀ q ∈ used, q.size ≠ 0) (rest : List (Entry _)) :
    skipLowerEnd mm (used ++ .empty :: rest) =
      some (Xlat.skipLowerEnd mm.region (used.map Entry.region)) := by
  induction used with
  | nil => exact if_neg fun h => h.2 rfl
  | cons q used ih =>
    rw [cons_append, skipLowerEnd, map_cons, Xlat.skipLowerEnd, apply_ite some,
      ih fun q' hq' => hSizes q' (mem_cons_of_mem q hq')]
    exact ite_congr (propext (and_iff_left (hSizes q mem_cons_self))) (fun _ => rfl) fun _ => rfl

theorem skipSmaller_region
    (hTop : mm.endVa ≠ 2 ^ 64 - 1) (rest : List (Entry (layout cfg hNum))) :
    skipSmaller mm (used ++ .empty :: rest) =
      some (Xlat.skipSmaller mm.region (used.map Entry.region)) := by
  induction used with
  | nil => exact if_neg fun h => hTop (h.1.symm.trans Entry.endVa_empty)
  | cons q used ih =>
    rw [cons_append, skipSmaller, map_cons, Xlat.skipSmaller, apply_ite some, ih]
    exact ite_congr rfl (fun _ => rfl) fun _ => rfl

theorem mmapCursor_region (hHolds : Holds mmap used) (hTop : mm.endVa ≠ 2 ^ 64 - 1) :
    mmapCursor mmap mm = some (Xlat.mmapCursor (used.map Entry.region) mm.region) := by
  have hLower := skipLowerEnd_le mm.region (used.map Entry.region)
  rw [length_map] at hLower
  rw [hHolds.eq_cons]
  unfold mmapCursor Xlat.mmapCursor
  rw [skipLowerEnd_region hHolds.size_ne]
  dsimp only
  rw [drop_append_of_le_length hLower, skipSmaller_region hTop, map_drop]
  rfl

theorem insertIdx_append {α : Type} (front back : List α) (a : α) :
    (front ++ back).insertIdx front.length a = front ++ a :: back := by
  induction front with
  | nil => rfl
  | cons b front ih => rw [cons_append, length_cons, insertIdx_succ_cons, ih, cons_append]

----
-- Adding A Region
----

variable {ctx : Ctx (layout cfg hNum)} {x : Xlat.Ctx}

/- A region that passes the check, put at its place in both. -/
theorem Lists.inserted
    (hLists : Lists ctx x) (hPos : 0 < cfg.mmapNum) (hSize : mm.size ≠ 0)
    (hZero : Xlat.mmapAddRegionCheck cfg x.mmap mm.region = 0) :
    ∃ used front back, Holds ctx.mmap used ∧ mmapAddRegionCheck ctx.mmap mm = some 0 ∧
      used.length < cfg.mmapNum ∧ used = front ++ back ∧
      mmapCursor ctx.mmap mm = some front.length ∧
      Lists (.raiseMax { ctx with mmap := MmapArray.inserted front back mm } mm)
        (.raiseMax { x with
          mmap := x.mmap.insertIdx (Xlat.mmapCursor x.mmap mm.region) mm.region } mm.region) := by
  rcases hLists.regions with ⟨used, hHolds, hRegions⟩
  have hCheck : mmapAddRegionCheck ctx.mmap mm = some 0 := by
    rw [mmapAddRegionCheck_region hHolds hPos, ← hRegions, hZero]
  rcases hHolds.of_check hSize hCheck with ⟨hValid, hShort, hCompat⟩
  have hTop : mm.endVa ≠ 2 ^ 64 - 1 := by
    have hSpace := Nat.pow_le_pow_right (n := 2) (by decide) cfg.virt_le
    have hVa : mm.baseVa + mm.size ≤ 2 ^ cfg.virtAddrSpaceBits := hValid.va_le
    rw [hValid.endVa_eq]
    omega
  rcases hHolds.cursor (Or.inl hTop) with ⟨front, back, hSplit, hCursor, hFront, hBack⟩
  have hPlace : Xlat.mmapCursor x.mmap mm.region = front.length := by
    rw [hRegions]
    exact Option.some.inj ((mmapCursor_region hHolds hTop).symm.trans hCursor)
  refine ⟨used, front, back, hHolds, hCheck, hShort, hSplit, hCursor,
    ⟨_, hHolds.holds_inserted hSplit hFront hBack hValid hShort hCompat, ?_⟩, ?_, ?_,
    hLists.initialized⟩
  · change x.mmap.insertIdx _ _ = _
    rw [hPlace, hRegions, hSplit, map_append, ← length_map Entry.region, insertIdx_append]
    simp
  · unfold Xlat.Ctx.raiseMax Ctx.raiseMax
    dsimp only
    rw [Entry.endPa_region, hLists.maxPa]
  · unfold Xlat.Ctx.raiseMax Ctx.raiseMax
    dsimp only
    rw [Entry.endVa_region, hLists.maxVa]

/-
  A static call fails an assertion on both, or it adds the
  region to both.
-/
theorem Lists.mmapAddRegionCtx (hLists : Lists ctx x) (hPos : 0 < cfg.mmapNum) :
    (MmapArray.mmapAddRegionCtx ctx mm = none ∧
      x.mmapAddRegionCtx cfg mm.region = .error .assertion) ∨
    ∃ ctx' x', MmapArray.mmapAddRegionCtx ctx mm = some ctx' ∧
      x.mmapAddRegionCtx cfg mm.region = .ok x' ∧ Lists ctx' x' := by
  by_cases hSize : mm.size = 0
  · exact Or.inr ⟨ctx, x, if_pos hSize, if_pos hSize, hLists⟩
  cases hInit : ctx.initialized with
  | true =>
    refine Or.inl ⟨(if_neg hSize).trans (if_pos hInit), ?_⟩
    exact (if_neg hSize).trans (if_pos (hLists.initialized.trans hInit))
  | false =>
    have hInit' : ¬ x.initialized = true := by
      rw [hLists.initialized, hInit]
      exact Bool.false_ne_true
    by_cases hZero : Xlat.mmapAddRegionCheck cfg x.mmap mm.region = 0
    · rcases hLists.inserted hPos hSize hZero with
        ⟨used, front, back, hHolds, hCheck, hShort, hSplit, hCursor, hAdded⟩
      exact Or.inr ⟨_, _,
        mmapAddRegionCtx_inserted hHolds hSize hInit hCheck hShort hSplit hCursor,
        (if_neg hSize).trans ((if_neg hInit').trans (if_neg (not_not.mpr hZero))), hAdded⟩
    · rcases hLists.regions with ⟨used, hHolds, hRegions⟩
      refine Or.inl ⟨?_, (if_neg hSize).trans ((if_neg hInit').trans (if_pos hZero))⟩
      refine (if_neg hSize).trans ((if_neg (by rw [hInit]; decide)).trans (if_pos ?_))
      rw [mmapAddRegionCheck_region hHolds hPos, ← hRegions]
      exact fun h => hZero (Option.some.inj h)

theorem Entry.setDynamic_region (mm : Entry (layout cfg hNum)) :
    mm.region.setDynamic = mm.setDynamic.region := rfl

theorem Lists.of_tables {tb : Tables} (hLists : Lists ctx x) :
    Lists ctx { x with tables := tb } :=
  ⟨hLists.regions, hLists.maxPa, hLists.maxVa, hLists.initialized⟩

/- A dynamic call, for what the tables answer to it. -/
theorem Lists.mmapAddDynamicRegionCtx
    {x' : Xlat.Ctx} {ret : Int} (hLists : Lists ctx x) (hPos : 0 < cfg.mmapNum)
    (hRun : x.mmapAddDynamicRegionCtx cfg mm.region = .ok (x', ret)) :
    ∃ mapped ctx', MmapArray.mmapAddDynamicRegionCtx mapped ctx mm = some (ctx', ret) ∧
      Lists ctx' x' := by
  unfold Xlat.Ctx.mmapAddDynamicRegionCtx at hRun
  by_cases hSize : mm.size = 0
  · cases (if_pos hSize).symm.trans hRun
    exact ⟨0, ctx, if_pos hSize, hLists⟩
  replace hRun := (if_neg hSize).symm.trans hRun
  dsimp only at hRun
  rw [Entry.setDynamic_region] at hRun
  by_cases hZero : Xlat.mmapAddRegionCheck cfg x.mmap mm.setDynamic.region = 0
  · have hSize' : mm.setDynamic.size ≠ 0 := hSize
    rcases hLists.inserted hPos hSize' hZero with
      ⟨used, front, back, hHolds, hCheck, hShort, hSplit, hCursor, hAdded⟩
    rw [if_neg (not_not.mpr hZero)] at hRun
    have hCall (mapped : Nat) :=
      mmapAddDynamicRegionCtx_inserted mapped hHolds hSize hCheck hShort hSplit hCursor
    by_cases hInit : x.initialized = true
    · rw [if_pos hInit] at hRun
      cases hMap : mapFromBase cfg mm.setDynamic.region x.tables with
      | error fault =>
        rw [hMap] at hRun
        cases hRun
      | ok answer =>
        rcases answer with ⟨tb, endVa⟩
        rw [hMap] at hRun
        dsimp only at hRun
        refine ⟨endVa, ?_⟩
        rw [hCall]
        by_cases hMapped : endVa = mm.setDynamic.endVa
        · cases (if_neg (not_not.mpr hMapped)).symm.trans hRun
          exact ⟨_, congrArg some (if_neg fun h => h.2 hMapped),
            ⟨hAdded.regions, hAdded.maxPa, hAdded.maxVa, hAdded.initialized⟩⟩
        · replace hRun := (if_pos hMapped).symm.trans hRun
          refine ⟨ctx, ?_⟩
          rw [if_pos ⟨hLists.initialized.symm.trans hInit, hMapped⟩]
          rw [eraseIdx_insertIdx_self] at hRun
          split at hRun
          · cases hRun
            exact ⟨rfl, hLists.of_tables⟩
          cases hUnmap : unmapFromBase cfg (unmapMm mm.setDynamic.region endVa) tb with
          | error fault =>
            rw [hUnmap] at hRun
            cases hRun
          | ok tb' =>
            rw [hUnmap] at hRun
            cases hRun
            exact ⟨rfl, hLists.of_tables⟩
    · rw [if_neg hInit] at hRun
      cases hRun
      refine ⟨0, _, (hCall 0).trans (congrArg some (if_neg fun h => hInit ?_)), hAdded⟩
      exact hLists.initialized.trans h.1
  · cases (if_pos hZero).symm.trans hRun
    rcases hLists.regions with ⟨used, hHolds, hRegions⟩
    refine ⟨0, ctx, (if_neg hSize).trans ?_, hLists⟩
    dsimp only
    rw [mmapAddRegionCheck_region hHolds hPos, ← hRegions]
    exact if_pos hZero

end Tfa.Xlat.MmapArray
