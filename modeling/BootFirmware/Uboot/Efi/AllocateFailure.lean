import BootFirmware.Uboot.Efi.Allocate

/-
  Requests for pages that fail.

  The carving is not undone when it stops, so a request that
  fails after its first cut into free memory has lost pages.
  Which requests do so can be told from the list alone.

  Key definitions include:
    * `Allocation.KeepsTypes`
    * `Harmless`

  The main result is `efi_allocate_pages_failure`.
-/

----
-- Requests That Do No Harm
----

namespace Uboot.Efi

open List

/- Without success, each page has the type it had before. -/
def Allocation.KeepsTypes (mem : List EfiMemDesc) : Allocation → Prop
  | .useAfterFree => False
  | .returned status _ mem' =>
    status ≠ .success → ∀ page, pageType mem' page = pageType mem page

/-
  The loop comes to its end without following a freed entry,
  and has counted every page.  A range from address 0 counts
  as added in any case, since a failure is reported as 0.
-/
structure Completes
    (carve : EfiMemDesc)
    (mem : List EfiMemDesc) : Prop where
  in_order : carve.physicalStart < carve.stop
  kept : ∀ d ∈ mem.takeWhile fun d => decide (Clears carve d), ¬ Frees carve d
  full :
    carve.physicalStart = 0 ∨
      (∀ d ∈ mem, Clears carve d) ∧ credits carve mem % 2 ^ 64 = (carve.numPages : Int)

/-
  A range that is empty, that meets nothing or first what is
  not free, that only splits an entry between two pages, or
  that is carved to the end.
-/
def Harmless (carve : EfiMemDesc)
    (mem : List EfiMemDesc) : Prop :=
  carve.numPages = 0 ∨
    (∀ d, (mem.find? fun d => decide (Meets carve d)) = some d → d.type ≠ efiConventionalMemory) ∨
    (carve.stop ≤ carve.physicalStart ∧ carve.physicalStart % efiPageSize = 0) ∨ Completes carve mem

/- The end of `efi_add_memory_map`, after the loop. -/
def finish (new : EfiMemDesc) : Outcome × Nat → Outcome
  | (.added mem, carved) =>
    if carved ≠ new.numPages then .failed mem
    else .added (efiMemSort (mem ++ [new]))
  | (outcome, _) => outcome

section Failure

variable {mem : List EfiMemDesc} {addr pages memory : Nat} {memoryType : Int} {r : Outcome × Nat}

/- The range of a request that is carved. -/
theorem efiAddMemoryMap_finish (hPages : pages ≠ 0) (walks : Nat) :
    efiAddMemoryMap walks mem addr pages memoryType true =
      (carveLoop (newDesc addr pages memoryType) true walks mem
        0).map (finish (newDesc addr pages memoryType)) := by
  unfold efiAddMemoryMap
  rw [if_neg hPages]
  dsimp only
  congr 1
  funext r
  rcases r with ⟨outcome, carved⟩
  cases outcome with
  | useAfterFree => rfl
  | failed mem' => rfl
  | added mem' =>
    by_cases hShort : carved ≠ pages
    · exact (if_pos ⟨rfl, hShort⟩).trans (if_pos hShort).symm
    · exact (if_neg fun h => hShort h.2).trans (if_neg hShort).symm

theorem efiAddMemoryMap_ends
    (hPages : pages ≠ 0) (hEnds : LoopEnds (newDesc addr pages memoryType) mem 0 r) :
    (∃ walks, ∀ more, walks ≤ more → efiAddMemoryMap more mem addr pages memoryType true =
        some (finish (newDesc addr pages memoryType) r)) ∧
    ∀ walks outcome, efiAddMemoryMap walks mem addr pages memoryType true = some outcome →
        outcome = finish (newDesc addr pages memoryType) r := by
  constructor
  · rcases hEnds with ⟨walks, hRun⟩
    refine ⟨walks, fun more hMore => ?_⟩
    rw [efiAddMemoryMap_finish hPages, carveLoop_mono hRun hMore]
    rfl
  · intro walks outcome hAdd
    rw [efiAddMemoryMap_finish hPages] at hAdd
    rcases Option.map_eq_some_iff.mp hAdd with ⟨r', hRun, rfl⟩
    rw [LoopEnds.unique ⟨walks, hRun⟩ hEnds]

variable {mem' : List EfiMemDesc}

/- A list that has lost a page is not the one from before. -/
theorem not_keepsTypes_failed
    (hLost : ∃ page, pageType mem page ≠ none ∧ pageType mem' page = none) :
    (allocationOf addr memory (.failed mem')).KeepsTypes mem ↔ addr = 0 := by
  unfold allocationOf
  dsimp only
  split
  · rename_i hZero
    exact iff_of_true (fun h => absurd rfl h) hZero
  · rename_i hSome
    refine iff_of_false ?_ hSome
    intro hKeeps
    rcases hLost with ⟨page, hBefore, hAfter⟩
    rw [hKeeps (by decide) page] at hAfter
    exact hBefore hAfter

theorem keepsTypes_failed (hSame : ∀ page, pageType mem' page = pageType mem page) :
    (allocationOf addr memory (.failed mem')).KeepsTypes mem := by
  unfold allocationOf
  dsimp only
  split
  · exact fun h => absurd rfl h
  · exact fun _ => hSame

/- A range that meets nothing, or first what is not free. -/
theorem loopEnds_untouched {carve : EfiMemDesc}
    (hNone :
      ∀ d, (mem.find? fun d => decide (Meets carve d)) = some d → d.type ≠ efiConventionalMemory) :
    LoopEnds carve mem 0 (.added mem, 0) ∨ LoopEnds carve mem 0 (.failed mem, 0) := by
  cases hFind : mem.find? fun d => decide (Meets carve d) with
  | none =>
    refine Or.inl (LoopEnds.of_done ?_)
    simpa using find?_eq_none.mp hFind
  | some d =>
    rcases find?_eq_some_iff_append.mp hFind with ⟨hMeets, pre, rest, rfl, hPre⟩
    exact Or.inr (LoopEnds.of_nonram (by simpa using hPre)
      (of_decide_eq_true hMeets) (hNone d hFind))

/- The first entry that a range meets is free. -/
theorem keepsTypes_iff_of_meets {carve d : EfiMemDesc} {pre rest : List EfiMemDesc}
    (hSound : Sound (pre ++ d :: rest)) (hPre : ∀ e ∈ pre, ¬ Meets carve e) (hMeets : Meets carve d)
    (hType : d.type = efiConventionalMemory) (hPages : carve.numPages ≠ 0)
    (hEnds : LoopEnds carve (pre ++ d :: rest) 0 r) :
    (allocationOf carve.physicalStart memory (finish carve r)).KeepsTypes (pre ++ d :: rest) ↔
      (carve.stop ≤ carve.physicalStart ∧ carve.physicalStart % efiPageSize = 0) ∨
        Completes carve (pre ++ d :: rest) := by
  have hFits : d.Fits := hSound.fits d (mem_append_right _ mem_cons_self)
  by_cases hOrder : carve.physicalStart < carve.stop
  swap
  · have hWrap := Nat.not_lt.mp hOrder
    have hStart : d.physicalStart < carve.physicalStart := Nat.lt_of_lt_of_le hMeets.1 hWrap
    have hSplit := hEnds.unique (carveLoop_wrapped hSound hPre hMeets hType hWrap (by decide))
    have hNot : ¬ Completes carve (pre ++ d :: rest) := fun h => hOrder h.in_order
    by_cases hAligned : carve.physicalStart % efiPageSize = 0
    · refine iff_of_true ?_ (Or.inl ⟨hWrap, hAligned⟩)
      rw [hSplit, finish, if_pos hPages.symm]
      exact keepsTypes_failed (pageType_split hFits hMeets hStart hAligned)
    · have hLost :=
        carveLoop_loses_page hSound hPre hMeets hType (Or.inr hAligned) (by decide) hEnds
      rw [hSplit] at hLost ⊢
      dsimp only [Outcome.list] at hLost
      rw [finish, if_pos hPages.symm, not_keepsTypes_failed hLost]
      refine iff_of_false (by omega) ?_
      rintro (h | h)
      · exact hAligned h.2
      · exact hNot h
  have hLost := carveLoop_loses_page hSound hPre hMeets hType (Or.inl hOrder) (by decide) hEnds
  rcases @carveLoop_settles carve [] (pre ++ d :: rest) 0 (fun e he => (hSound.fits e he).no_wrap)
      (fun e he => absurd he not_mem_nil)
      (by decide) with
    ⟨r', hEnds', hSettled⟩
  have hSame := hEnds.unique hEnds'
  subst hSame
  have hNotWrap : ¬ (carve.stop ≤ carve.physicalStart ∧ carve.physicalStart % efiPageSize = 0) := by
    omega
  rw [or_iff_right hNotWrap]
  rcases r with ⟨outcome, carved⟩
  cases outcome with
  | useAfterFree =>
    rcases hSettled with ⟨e, he, hFrees⟩
    exact iff_of_false (fun h => h) fun h => h.kept e he hFrees
  | failed mem' =>
    rcases hSettled with ⟨hKept, hStops, -⟩
    dsimp only [Outcome.list] at hLost
    rw [finish, not_keepsTypes_failed hLost]
    · constructor
      · exact fun hZero => ⟨hOrder, hKept, Or.inl hZero⟩
      · exact fun h => h.full.resolve_right fun hFull => hStops hFull.1
    · exact nofun
  | added mem' =>
    rcases hSettled with ⟨hAll, hCarved, -⟩
    dsimp only [Outcome.list] at hLost
    have hKept :
        ∀ e ∈ (pre ++ d :: rest).takeWhile fun e => decide (Clears carve e), ¬ Frees carve e :=
      fun e he => (hAll e ((takeWhile_subset _) he)).2
    have hCount :
        carved = carve.numPages ↔
          credits carve (pre ++ d :: rest) % 2 ^ 64 = (carve.numPages : Int) := by
      rw [hCarved]
      omega
    rw [finish]
    by_cases hShort : carved ≠ carve.numPages
    · rw [if_pos hShort, not_keepsTypes_failed hLost]
      constructor
      · exact fun hZero => ⟨hOrder, hKept, Or.inl hZero⟩
      · exact fun h => h.full.resolve_right fun hFull => hShort (hCount.mpr hFull.2)
    · rw [if_neg hShort]
      refine iff_of_true (fun h => absurd rfl h)
        ⟨hOrder, hKept, Or.inr ⟨fun e he => (hAll e he).1, hCount.mp (not_not.mp hShort)⟩⟩

/-
  Every request on a sound list ends; and one that fails
  leaves each page its type exactly if it is turned down for
  its type or for want of a free block, or if its range does
  no harm: it is empty, meets nothing or first what is not
  free, splits an entry between two pages only, or is carved
  to the end and counted in full.
-/
theorem efi_allocate_pages_failure (mem : List EfiMemDesc) (startAddrSp pages memory : Nat)
    (type memoryType : Int) (hSound : Sound mem) :
    (∃ walks a, ∀ more, walks ≤ more →
      efiAllocatePages more mem startAddrSp type memoryType pages memory = some a) ∧
    ((∀ walks a, efiAllocatePages walks mem startAddrSp type memoryType pages memory = some a →
        a.KeepsTypes mem) ↔
      ∀ addr, addrFor mem startAddrSp type pages memory = .ok addr →
          Harmless (newDesc addr pages memoryType) mem) := by
  unfold efiAllocatePages
  cases hAddr : addrFor mem startAddrSp type pages memory with
  | error status =>
    refine ⟨⟨0, _, fun _ _ => rfl⟩, iff_of_true ?_ nofun⟩
    intro walks a hEq
    cases hEq
    exact fun _ _ => rfl
  | ok addr =>
    simp only [Except.ok.injEq, forall_eq']
    by_cases hPages : pages = 0
    · have hAdd :
          ∀ walks, efiAddMemoryMap walks mem addr pages memoryType true = some (.added mem) :=
        fun walks => if_pos hPages
      refine ⟨⟨0, _, fun _ _ => by rw [hAdd]; rfl⟩, iff_of_true ?_ (Or.inl hPages)⟩
      intro walks a hEq
      rw [hAdd] at hEq
      cases hEq
      exact fun h => absurd rfl h
    rcases @carveLoop_settles (newDesc addr pages memoryType) [] mem 0
        (fun e he => (hSound.fits e he).no_wrap)
        (fun e he => absurd he not_mem_nil)
        (by decide) with
      ⟨r, hEnds, -⟩
    rw [nil_append] at hEnds
    rcases efiAddMemoryMap_ends hPages hEnds with ⟨⟨walks, hMore⟩, hOnly⟩
    refine ⟨⟨walks, _, fun more hLe => by
      rw [hMore more hLe]; rfl⟩, ?_⟩
    have hOne :
        (∀ walks a, (efiAddMemoryMap walks mem addr pages memoryType
              true).map (allocationOf addr memory) = some a →
            a.KeepsTypes mem) ↔
          (allocationOf addr memory (finish (newDesc addr pages memoryType) r)).KeepsTypes mem := by
      constructor
      · intro hAll
        refine hAll walks _ ?_
        rw [hMore walks (Nat.le_refl _)]
        rfl
      · intro hKeeps walks' a hEq
        rcases Option.map_eq_some_iff.mp hEq with ⟨outcome, hAdd, rfl⟩
        rwa [hOnly walks' outcome hAdd]
    rw [hOne]
    unfold Harmless
    rw [or_iff_right
      (show (newDesc addr pages memoryType).numPages ≠ 0
        from hPages)]
    by_cases hNone :
        ∀ d, (mem.find? fun d =>
            decide (Meets (newDesc addr pages memoryType) d)) = some d →
          d.type ≠ efiConventionalMemory
    · refine iff_of_true ?_ (Or.inl hNone)
      rcases loopEnds_untouched hNone with hEnd | hEnd
      · rw [hEnds.unique hEnd, finish, if_pos (fun h => hPages h.symm)]
        exact keepsTypes_failed fun _ => rfl
      · rw [hEnds.unique hEnd]
        exact keepsTypes_failed fun _ => rfl
    rw [or_iff_right hNone]
    simp only [not_forall, not_not] at hNone
    rcases hNone with ⟨d, hFind, hType⟩
    rcases find?_eq_some_iff_append.mp hFind with ⟨hMeets, pre, rest, rfl, hPre⟩
    exact keepsTypes_iff_of_meets hSound (by simpa using hPre)
      (of_decide_eq_true hMeets) hType hPages hEnds

/- Free pages above two that are reserved. -/
def freeAboveReserved : List EfiMemDesc :=
  [⟨7, 0x3000, 0x3000, 2, 8⟩, ⟨0, 0x1000, 0x1000, 2, 8⟩]

theorem freeAboveReserved_sound : Sound freeAboveReserved := by
  refine ⟨?_, ⟨by decide, by decide⟩⟩
  intro d hd
  unfold freeAboveReserved at hd
  rcases mem_cons.mp hd with rfl | hd
  · exact ⟨by decide, by decide, by decide⟩
  · rw [mem_singleton.mp hd]
    exact ⟨by decide, by decide, by decide⟩

/- A request for a reserved page fails and keeps the map. -/
theorem efi_allocate_pages_failure_reserved :
    efiAllocatePages 3 freeAboveReserved 0 2 4 1 0x2000 =
        some (.returned .outOfResources 0x2000 freeAboveReserved) ∧
    ∀ walks a, efiAllocatePages walks freeAboveReserved 0 2 4 1 0x2000 = some a →
      a.KeepsTypes freeAboveReserved := by
  rcases efi_allocate_pages_failure freeAboveReserved 0 1 0x2000 2 4 freeAboveReserved_sound
    with ⟨-, hKeeps⟩
  refine ⟨by decide +kernel, hKeeps.mpr fun addr hAddr => ?_⟩
  cases hAddr
  refine Or.inr (Or.inl fun d hd => ?_)
  cases (show _ = some (⟨0, 0x1000, 0x1000, 2, 8⟩ : EfiMemDesc) by decide).symm.trans hd
  decide

/-
  A request for one page of each fails after the free page has
  been carved out; no entry holds that page any longer.
-/
theorem efi_allocate_pages_loses_page :
    Sound freeAboveReserved ∧ ∃ mem', efiAllocatePages 3 freeAboveReserved 0 2 4 2 0x2000 =
            some (.returned .outOfResources 0x2000 mem') ∧
          pageType freeAboveReserved 3 = some efiConventionalMemory ∧ pageType mem' 3 = none := by
  exact ⟨freeAboveReserved_sound, [⟨7, 0x4000, 0x3000, 1, 8⟩, ⟨0, 0x1000, 0x1000, 2, 8⟩],
    by decide +kernel, by decide, by decide⟩

end Failure

end Uboot.Efi
